/-
Page states: reference counts, inverse lists and the statistics kept of
them.

# The invariant

`Pages c p out H D s` ties together, page by page, what the block pool
`p` says of a page, its `valid_array` and its inverse list:

- a page is free (`0`) exactly when it was not handed out since its
  last erase; the hole `H` is a page just handed out and not yet
  programmed;
- the list and both counters of a page agree, and a page whose list is
  empty is free or invalid; the pages `D` are excepted, which a running
  collection has drained and whose `valid_array` stays until the erase;
- the statistics are the tallies of the page states.

It holds as long as no count wraps, so every step that adds a reference
asks for a list of fewer than 127 lpns.
-/
import FemuRemap.Proofs.Aligned

namespace FemuRemap

open Lib

variable {c : Conf}

-- ===================================================== two updates

/-- The inverse list of a page. -/
def Ssd.refs (s : Ssd) (q : Nat) : List Nat :=
  (s.inverseMappingTable q).lpns

/-- Replace the inverse list of a page, with its counter. -/
def setRefs (q : Nat) (l : List Nat) (s : Ssd) : Ssd :=
  { s with
    inverseMappingTable := s.inverseMappingTable.set q ⟨l.length, l⟩ }

/-- Replace `valid_array` of a page, with the statistics. -/
def setValid (c : Conf) (q : Nat) (v : Int) (t : Stat) (s : Ssd) : Ssd :=
  putPage c (flashOf c q) (blockOf c q) (pageOf c q) v t s

/-- One page's lpns are changed, -/
theorem refs_setRefs (q : Nat) (l : List Nat) (s : Ssd) (x : Nat) :
    (setRefs q l s).refs x = if x = q then l else s.refs x := by
  unfold Ssd.refs setRefs
  simp only [Table.get_set]
  split <;> rfl

/-- and its count with them. -/
theorem lpnCnt_setRefs (q : Nat) (l : List Nat) (s : Ssd) (x : Nat) :
    ((setRefs q l s).inverseMappingTable x).lpnCnt
      = if x = q then (l.length : Int)
        else (s.inverseMappingTable x).lpnCnt := by
  unfold setRefs
  simp only [Table.get_set]
  split <;> rfl

/-- The block a page lies in, as an index of the table. -/
theorem Sized.blockIndex_page (g : Sized c) {q : Nat}
    (hq : q < c.pageMappingEntryNb) :
    blockIndex c (flashOf c q) (blockOf c q) = q / c.pageNb := by
  rw [g.blockIndex_eq (flashOf_lt hq) (g.blockOf_lt q), blockIndex_of]

/-- One page's validity is changed. -/
theorem Sized.valid_setValid (g : Sized c) {q : Nat}
    (hq : q < c.pageMappingEntryNb) (v : Int) (t : Stat) (s : Ssd)
    (x : Nat) :
    (setValid c q v t s).valid c x = if x = q then v else s.valid c x := by
  unfold Ssd.valid setValid putPage pageOf
  simp only [g.blockIndex_page hq, Table.get_set]
  by_cases hx : x = q
  · simp [hx]
  · by_cases hd : x / c.pageNb = q / c.pageNb
    · have hm : x % c.pageNb ≠ q % c.pageNb := by
        intro hm
        apply hx
        rw [← Nat.div_add_mod x c.pageNb, hd, hm, Nat.div_add_mod]
      rw [if_pos hd, if_neg hx, Table.get_set_ne _ _ hm, hd]
    · rw [if_neg hd, if_neg hx]

/-- The recorded number of valid pages of its block follows. -/
theorem recount_setValid (q : Nat) (v : Int) (t : Stat) {s : Ssd}
    (h : Recount c s) : Recount c (setValid c q v t s) :=
  (local_set (I := anyBlock) trivial (fun _ => rfl) t).recount h

-- ======================================================= statistics

/-- `stat_ppn_*` and `stat_lpn_valid` are the tallies of the page
states. -/
structure Stats (c : Conf) (s : Ssd) : Prop where
  free : s.stat.ppnFree
    = tally c.pageMappingEntryNb fun q => ind (s.valid c q = 0)
  live : s.stat.ppnValid
    = tally c.pageMappingEntryNb fun q => ind (0 < s.valid c q)
  invalid : s.stat.ppnInvalid
    = tally c.pageMappingEntryNb fun q => ind (s.valid c q = -1)
  n21 : s.stat.ppnN21
    = tally c.pageMappingEntryNb fun q => ind (2 ≤ s.valid c q)
  lpns : s.stat.lpnValid
    = tally c.pageMappingEntryNb fun q => (s.valid c q).toNat

variable {s : Ssd} {q : Nat}

/-- A tally over the page states after one page changed. -/
theorem Geo.tally_setValid (g : Geo c) (hq : q < c.pageMappingEntryNb)
    (v : Int) (t : Stat) (f : Int → Nat) :
    tally c.pageMappingEntryNb
        (fun x => f ((setValid c q v t s).valid c x)) + f (s.valid c q)
      = tally c.pageMappingEntryNb (fun x => f (s.valid c x)) + f v := by
  have h := tally_set (g := fun x => f (s.valid c x))
    (f := fun x => f ((setValid c q v t s).valid c x)) hq ?_
  · rw [h, g.sized.valid_setValid hq, if_pos rfl]
  · intro x _ hx
    rw [g.sized.valid_setValid hq, if_neg hx]

/-- A counter that has room counts up, -/
theorem u64_succ {n : Nat} (h : n + 1 < 2 ^ 64) :
    u64 ((n : Int) + 1) = n + 1 :=
  u64_of_lt (by push_cast; rfl) h

/-- and one that is not zero counts down. -/
theorem u64_pred {n : Nat} (h₀ : 0 < n) (h : n < 2 ^ 64) :
    u64 ((n : Int) - 1) = n - 1 :=
  u64_of_lt (by omega) (by omega)

/-- The counters of programmed and erased pages are the same. -/
structure SameWrites (t₀ t : Stat) : Prop where
  total : t.totalWriteCount = t₀.totalWriteCount
  host : t.hostWriteCount = t₀.hostWriteCount
  gc : t.gcWriteCount = t₀.gcWriteCount
  erases : t.eraseCount = t₀.eraseCount

theorem SameWrites.refl (t : Stat) : SameWrites t t := ⟨rfl, rfl, rfl, rfl⟩

theorem SameWrites.trans {t₁ t₂ t₃ : Stat} (h : SameWrites t₁ t₂)
    (h' : SameWrites t₂ t₃) : SameWrites t₁ t₃ :=
  ⟨h'.total.trans h.total, h'.host.trans h.host, h'.gc.trans h.gc,
    h'.erases.trans h.erases⟩

/-- The counters of page states are not those of writes, whichever way a page
goes. -/
theorem sameWrites_statValid (v v' : Int) (t : Stat) :
    SameWrites t (statValid v v' t) := by
  unfold statValid
  split_ifs <;> exact ⟨rfl, rfl, rfl, rfl⟩

theorem sameWrites_statInvalid (v : Int) (t : Stat) :
    SameWrites t (statInvalid v t) := by
  unfold statInvalid
  split_ifs <;> exact ⟨rfl, rfl, rfl, rfl⟩

theorem sameWrites_statFree (v : Int) (t : Stat) :
    SameWrites t (statFree v t) := by
  unfold statFree
  split_ifs <;> exact ⟨rfl, rfl, rfl, rfl⟩

/-- `t` is `t₀` with the five page statistics moved from a page in
state `v` to one in state `v'`. -/
structure Moved (v v' : Int) (t₀ t : Stat) : Prop where
  free : t.ppnFree + ind (v = 0) = t₀.ppnFree + ind (v' = 0)
  live : t.ppnValid + ind (0 < v) = t₀.ppnValid + ind (0 < v')
  invalid : t.ppnInvalid + ind (v = -1) = t₀.ppnInvalid + ind (v' = -1)
  n21 : t.ppnN21 + ind (2 ≤ v) = t₀.ppnN21 + ind (2 ≤ v')
  lpns : t.lpnValid + v.toNat = t₀.lpnValid + v'.toNat

/-- A page moves from one counter of the statistics to another. -/
theorem Geo.stats_setValid (g : Geo c) (hq : q < c.pageMappingEntryNb)
    (h : Stats c s) {v : Int} {t : Stat}
    (ht : Moved (s.valid c q) v s.stat t) :
    Stats c (setValid c q v t s) where
  free := by
    have := g.tally_setValid (s := s) hq v t fun v => ind (v = 0)
    have := ht.free
    have := h.free
    change t.ppnFree = _
    omega
  live := by
    have := g.tally_setValid (s := s) hq v t fun v => ind (0 < v)
    have := ht.live
    have := h.live
    change t.ppnValid = _
    omega
  invalid := by
    have := g.tally_setValid (s := s) hq v t fun v => ind (v = -1)
    have := ht.invalid
    have := h.invalid
    change t.ppnInvalid = _
    omega
  n21 := by
    have := g.tally_setValid (s := s) hq v t fun v => ind (2 ≤ v)
    have := ht.n21
    have := h.n21
    change t.ppnN21 = _
    omega
  lpns := by
    have := g.tally_setValid (s := s) hq v t Int.toNat
    have := ht.lpns
    have := h.lpns
    change t.lpnValid = _
    omega

/-- No counter is near the width of its type, and each holds at least
what one page contributes. -/
structure Roomy (v : Int) (t : Stat) : Prop where
  small : t.ppnFree < 2 ^ 40 ∧ t.ppnValid < 2 ^ 40
    ∧ t.ppnInvalid < 2 ^ 40 ∧ t.ppnN21 < 2 ^ 40 ∧ t.lpnValid < 2 ^ 40
  free : ind (v = 0) ≤ t.ppnFree
  live : ind (0 < v) ≤ t.ppnValid
  invalid : ind (v = -1) ≤ t.ppnInvalid
  n21 : ind (2 ≤ v) ≤ t.ppnN21
  lpns : v.toNat ≤ t.lpnValid

/-- The counters have room: they count pages of the device. -/
theorem Geo.stats_roomy (g : Geo c) (hq : q < c.pageMappingEntryNb)
    (h : Stats c s)
    (hr : ∀ x, x < c.pageMappingEntryNb → s.valid c x ≤ 127) :
    Roomy (s.valid c q) s.stat := by
  have htot := g.total
  have hcount : ∀ (P : Nat → Prop) [DecidablePred P],
      tally c.pageMappingEntryNb (fun x => ind (P x)) < 2 ^ 40 := by
    intro P _
    have := tally_le (n := c.pageMappingEntryNb) (k := 1)
      fun x _ => ind_le (P x)
    omega
  have hsum : tally c.pageMappingEntryNb (fun x => (s.valid c x).toNat)
      < 2 ^ 40 := by
    have := tally_le (n := c.pageMappingEntryNb) (k := 127)
      (g := fun x => (s.valid c x).toNat)
      fun x hx => by have := hr x hx; omega
    omega
  -- room to count up: five sums over the pages; and to count down: the page
  -- at hand is in its own sum
  refine ⟨⟨?_, ?_, ?_, ?_, ?_⟩, ?_, ?_, ?_, ?_, ?_⟩
  · rw [h.free]; exact hcount _
  · rw [h.live]; exact hcount _
  · rw [h.invalid]; exact hcount _
  · rw [h.n21]; exact hcount _
  · rw [h.lpns]; exact hsum
  · rw [h.free]; exact le_tally (g := fun x => ind (s.valid c x = 0)) hq
  · rw [h.live]; exact le_tally (g := fun x => ind (0 < s.valid c x)) hq
  · rw [h.invalid]
    exact le_tally (g := fun x => ind (s.valid c x = -1)) hq
  · rw [h.n21]; exact le_tally (g := fun x => ind (2 ≤ s.valid c x)) hq
  · rw [h.lpns]; exact le_tally (g := fun x => (s.valid c x).toNat) hq

/-- `UPDATE_BLOCK_STATE_ENTRY(VALID)` moves the statistics. -/
theorem Roomy.statValid {v : Int} {t : Stat} (h : Roomy v t)
    (hv : 0 ≤ v) : Moved v (v + 1) t (statValid v (v + 1) t) := by
  obtain ⟨⟨h₁, h₂, h₃, h₄, h₅⟩, hf, hl, hi, hn, hs⟩ := h
  have e₁ : u64 ((t.lpnValid : Int) + 1) = t.lpnValid + 1 :=
    u64_succ (by omega)
  obtain rfl | rfl | hv2 : v = 0 ∨ v = 1 ∨ 2 ≤ v := by omega
  · -- the page's first reference
    have hpos : 1 ≤ t.ppnFree := by simpa [ind] using hf
    have e₂ := u64_pred hpos (by omega)
    have e₃ := u64_succ (n := t.ppnValid) (by omega)
    constructor <;> simp [FemuRemap.statValid, e₁, e₂, e₃, ind]
    omega
  · have e₂ := u64_succ (n := t.ppnN21) (by omega)
    constructor <;> simp [FemuRemap.statValid, e₁, e₂, ind]
  · have h0 : v ≠ 0 := by omega
    have h1 : v ≠ 1 := by omega
    have h2 : v + 1 ≠ 0 := by omega
    have h3 : v ≠ -1 ∧ v + 1 ≠ -1 ∧ 0 < v ∧ 0 < v + 1 ∧ 2 ≤ v + 1 := by
      omega
    constructor <;>
      simp [FemuRemap.statValid, e₁, ind, h0, h1, h2, h3, hv2]
    omega

/-- `UPDATE_BLOCK_STATE_ENTRY(INVALID)` moves the statistics. -/
theorem Roomy.statInvalid {v : Int} {t : Stat} (h : Roomy v t)
    (hv : 0 < v) :
    Moved v (if v = 1 then -1 else v - 1) t (statInvalid v t) := by
  obtain ⟨⟨h₁, h₂, h₃, h₄, h₅⟩, hf, hl, hi, hn, hs⟩ := h
  have e₁ := u64_pred (n := t.lpnValid) (by omega) (by omega)
  obtain rfl | rfl | hv3 : v = 1 ∨ v = 2 ∨ 3 ≤ v := by omega
  · -- the page's last reference
    have hpos : 1 ≤ t.ppnValid := by simpa [ind] using hl
    have e₂ := u64_pred hpos (by omega)
    have e₃ := u64_succ (n := t.ppnInvalid) (by omega)
    constructor <;> simp [FemuRemap.statInvalid, e₁, e₂, e₃, ind] <;>
      omega
  · have hpos : 1 ≤ t.ppnN21 := by simpa [ind] using hn
    have e₂ := u64_pred hpos (by omega)
    constructor <;> simp [FemuRemap.statInvalid, e₁, e₂, ind] <;> omega
  · have h1 : v ≠ 1 := by omega
    have h2 : v ≠ 2 := by omega
    have h3 : v ≠ 0 ∧ v - 1 ≠ 0 ∧ v ≠ -1 ∧ v - 1 ≠ -1 ∧ 0 < v - 1
        ∧ 2 ≤ v ∧ 2 ≤ v - 1 := by
      omega
    constructor <;>
      simp only [FemuRemap.statInvalid, e₁, ind, h1, h2, h3, hv, if_true,
        if_false]
    omega

/-- `UPDATE_BLOCK_STATE_ENTRY(0)` moves the statistics, whether the page
was drained or invalid. -/
theorem Roomy.statFree {v : Int} {t : Stat} (h : Roomy v t)
    (hv : 0 < v ∨ v = -1) : Moved v 0 t (statFree v t) := by
  obtain ⟨⟨h₁, h₂, h₃, h₄, h₅⟩, hf, hl, hi, hn, hs⟩ := h
  have e₁ := u64_succ (n := t.ppnFree) (by omega)
  rcases hv with hv | rfl
  · have hpos : 1 ≤ t.ppnValid := by simpa [ind, hv] using hl
    have e₂ := u64_pred hpos (by omega)
    have e₃ : u64 ((t.lpnValid : Int) - v) = t.lpnValid - v.toNat :=
      u64_of_lt (by omega) (by omega)
    by_cases hv2 : 2 ≤ v
    · have hpos₂ : 1 ≤ t.ppnN21 := by simpa [ind, hv2] using hn
      have e₄ := u64_pred hpos₂ (by omega)
      have h1 : 1 < v := by omega
      constructor <;>
        simp [FemuRemap.statFree, e₁, e₂, e₃, e₄, ind, hv, h1, hv2] <;>
        omega
    · have h1 : ¬ 1 < v := by omega
      constructor <;>
        simp [FemuRemap.statFree, e₁, e₂, e₃, ind, hv, h1, hv2] <;> omega
  · have hpos : 1 ≤ t.ppnInvalid := by simpa [ind] using hi
    have e₂ := u64_pred hpos (by omega)
    constructor <;> simp [FemuRemap.statFree, e₁, e₂, ind]
    omega

-- ====================================================== used pages

/-- A page handed out since its last erase: by the pool, or before its
superblock was taken out. -/
def Used (c : Conf) (p : Pool) (out : List Nat) (q : Nat) : Prop :=
  p.Used (blockOf c q) (posOf c q) ∨ blockOf c q ∈ out

variable {p p' : Pool} {out : List Nat} {b k : Nat}

/-- Allocation marks the page it hands out and no other. -/
theorem Geo.used_next (g : Geo c) (hp : PoolOk c out p)
    (hn : p.next c.sbPages = some (b, k, p')) {x : Nat}
    (hx : x < c.pageMappingEntryNb) :
    Used c p' out x ↔ Used c p out x ∨ x = pageAt c b k := by
  obtain ⟨hb, hk⟩ := Pool.next_lt hp g.sbPages_pos hn
  have heq : (blockOf c x = b ∧ posOf c x = k) ↔ x = pageAt c b k := by
    constructor
    · rintro ⟨rfl, rfl⟩
      exact (g.pageAt_of hx).symm
    · rintro rfl
      exact ⟨blockOf_pageAt hb hk, posOf_pageAt hb hk⟩
  unfold Used
  rw [Pool.used_next hn _ (g.posOf_lt hx), heq]
  tauto

/-- The page that is handed out next is not in use. -/
theorem Geo.not_used_next (g : Geo c) (hp : PoolOk c out p)
    (hn : p.next c.sbPages = some (b, k, p')) :
    ¬ Used c p out (pageAt c b k) := by
  obtain ⟨hb, hk⟩ := Pool.next_lt hp g.sbPages_pos hn
  have hf := Pool.next_fresh hp hn
  unfold Used
  rw [blockOf_pageAt hb hk, posOf_pageAt hb hk]
  tauto

/-- Within a block, pages are handed out in order. -/
theorem Geo.used_before (g : Geo c) (hp : PoolOk c out p)
    (hn : p.next c.sbPages = some (b, k, p')) {j : Nat}
    (hj : j < pageAt c b k % c.pageNb) :
    Used c p out (pageAt c b k / c.pageNb * c.pageNb + j) := by
  obtain ⟨hb, hk⟩ := Pool.next_lt hp g.sbPages_pos hn
  have hpg := pos_div_lt hk
  have hmod : pageAt c b k % c.pageNb = k / c.flashNb :=
    pageOf_ppnAt (k % c.flashNb) b hpg
  rw [hmod] at hj
  have hx : pageAt c b k / c.pageNb * c.pageNb + j
      = ppnAt c (k % c.flashNb) b j := by
    rw [pageAt, ppnAt_div _ _ hpg]
    rfl
  have hlt : j * c.flashNb + k % c.flashNb < k := by
    have h₁ := Nat.div_add_mod k c.flashNb
    have h₂ : (j + 1) * c.flashNb ≤ k / c.flashNb * c.flashNb :=
      Nat.mul_le_mul_right _ hj
    have h₃ := g.pos_mod_lt k
    rw [Nat.succ_mul] at h₂
    rw [Nat.mul_comm] at h₁
    omega
  left
  rw [hx, blockOf_ppnAt _ hb (by omega), posOf,
    pageOf_ppnAt _ _ (by omega), flashOf_ppnAt _ hb (by omega)]
  exact Pool.used_below hn hlt

-- ==================================================== the invariant

/-- Page states against the pool `p` with the superblocks `out` taken
out, the hole `H` and the drained pages `D`. -/
structure Pages (c : Conf) (p : Pool) (out : List Nat) (H : Option Nat)
    (D : Nat → Prop) (s : Ssd) : Prop extends Aligned c out p s where
  drained : ∀ q, D q → blockOf c q ∈ out
  cnt : ∀ q, q < c.pageMappingEntryNb →
    (s.inverseMappingTable q).lpnCnt = (s.refs q).length
  le : ∀ q, q < c.pageMappingEntryNb → (s.refs q).length ≤ 127
  lower : ∀ q, q < c.pageMappingEntryNb → -1 ≤ s.valid c q
  upper : ∀ q, q < c.pageMappingEntryNb → s.valid c q ≤ 127
  live : ∀ q, q < c.pageMappingEntryNb → ¬ D q → s.refs q ≠ [] →
    s.valid c q = (s.refs q).length
  dead : ∀ q, q < c.pageMappingEntryNb → ¬ D q → s.refs q = [] →
    s.valid c q ≤ 0
  fresh : ∀ q, q < c.pageMappingEntryNb →
    (s.valid c q = 0 ↔ ¬ Used c p out q ∨ H = some q)
  stats : Stats c s
  /-- The pages handed out from a block are its first ones. -/
  ledger : ∀ i, i < c.blockNb * c.flashNb → ∃ m,
    s.handed i = List.range m
      ∧ ∀ k, k < c.pageNb → (k < m ↔ Used c p out (i * c.pageNb + k))

variable {H H' : Option Nat} {D : Nat → Prop} {s' : Ssd}

/-- What the invariant reads. -/
theorem Pages.of_eq (h : Pages c p out H D s) (h₁ : s'.lists = s.lists)
    (h₂ : s'.inverseMappingTable = s.inverseMappingTable)
    (hv : ∀ q, s'.valid c q = s.valid c q)
    (h₃ : Recount c s → Recount c s')
    (h₀ : Totals c s.nvram → Totals c s'.nvram)
    (h₄ : s'.handed = s.handed)
    (h₅ : s'.stat.ppnFree = s.stat.ppnFree
      ∧ s'.stat.ppnValid = s.stat.ppnValid
      ∧ s'.stat.ppnInvalid = s.stat.ppnInvalid
      ∧ s'.stat.ppnN21 = s.stat.ppnN21
      ∧ s'.stat.lpnValid = s.stat.lpnValid) :
    Pages c p out H D s' := by
  have hr : ∀ q, s'.refs q = s.refs q := by
    intro q
    rw [Ssd.refs, h₂]
    rfl
  obtain ⟨f₁, f₂, f₃, f₄, f₅⟩ := h₅
  refine
    { pool := h.pool
      lists := h₁ ▸ h.lists
      recount := h₃ h.recount
      totals := h₀ h.totals
      drained := h.drained
      cnt := fun q hq => by rw [h₂, hr]; exact h.cnt q hq
      le := fun q hq => by rw [hr]; exact h.le q hq
      lower := fun q hq => by rw [hv]; exact h.lower q hq
      upper := fun q hq => by rw [hv]; exact h.upper q hq
      live := fun q hq hD => by rw [hr, hv]; exact h.live q hq hD
      dead := fun q hq hD => by rw [hr, hv]; exact h.dead q hq hD
      fresh := fun q hq => by rw [hv]; exact h.fresh q hq
      stats := ?_
      ledger := fun i hi => by rw [h₄]; exact h.ledger i hi }
  constructor
  · simp only [f₁, hv, h.stats.free]
  · simp only [f₂, hv, h.stats.live]
  · simp only [f₃, hv, h.stats.invalid]
  · simp only [f₄, hv, h.stats.n21]
  · simp only [f₅, hv, h.stats.lpns]

/-- A page that is not drained has an empty list when it is free. -/
theorem Pages.refs_of_free (h : Pages c p out H D s)
    (hq : q < c.pageMappingEntryNb) (hD : ¬ D q)
    (hv : s.valid c q = 0) : s.refs q = [] := by
  by_contra hne
  have := h.live q hq hD hne
  rw [hv] at this
  have := List.length_pos_iff.2 hne
  omega

/-- `GET_NEW_PAGE` hands out a page with a free state and an empty
list, next in the order of its block. -/
theorem Geo.pages_next (g : Geo c) (h : Pages c p out none D s)
    (hn : p.next c.sbPages = some (b, k, p')) :
    s.valid c (pageAt c b k) = 0 ∧ s.refs (pageAt c b k) = []
      ∧ s.handed (pageAt c b k / c.pageNb)
        = List.range (pageAt c b k % c.pageNb) := by
  obtain ⟨hb, hk⟩ := Pool.next_lt h.pool g.sbPages_pos hn
  have hq := g.pageAt_lt hb hk
  have hnot := g.not_used_next h.pool hn
  have hv : s.valid c (pageAt c b k) = 0 :=
    (h.fresh _ hq).2 (.inl hnot)
  have hD : ¬ D (pageAt c b k) := fun hD => by
    have := h.drained _ hD
    rw [blockOf_pageAt hb hk] at this
    exact (Pool.next_fresh h.pool hn).2 this
  refine ⟨hv, h.refs_of_free hq hD hv, ?_⟩
  have hi : pageAt c b k / c.pageNb < c.blockNb * c.flashNb :=
    Nat.div_lt_of_lt_mul (by
      rw [← Nat.mul_assoc]
      exact hq)
  obtain ⟨m, hm, hused⟩ := h.ledger _ hi
  have hpg : pageAt c b k % c.pageNb < c.pageNb := Nat.mod_lt _ g.page
  have h₁ : ¬ pageAt c b k % c.pageNb < m := by
    rw [hused _ hpg, Nat.mul_comm, Nat.div_add_mod]
    exact hnot
  have h₂ : ∀ j, j < pageAt c b k % c.pageNb → j < m := fun j hj =>
    (hused j (by omega)).2 (g.used_before h.pool hn hj)
  -- the pages of a block are handed out in order, so the ledger ends right
  -- before this one
  obtain rfl : m = pageAt c b k % c.pageNb := by
    by_contra hne
    exact absurd (h₂ m (by omega)) (Nat.lt_irrefl m)
  exact hm

-- ============================================================= steps

/-- A page is handed out and becomes the hole. -/
theorem Geo.pages_take (g : Geo c) (h : Pages c p out none D s)
    (hn : p.next c.sbPages = some (b, k, p')) {l : BlockLists}
    (hl : Lists c p' l) :
    Pages c p' out (some (pageAt c b k)) D
      (takePage c (pageAt c b k) l s) := by
  obtain ⟨-, -, hhand⟩ := g.pages_next h hn
  refine
    { pool := h.pool.next g.sbPages_pos hn
      lists := hl
      recount := h.recount
      totals := h.totals
      drained := h.drained
      cnt := h.cnt
      le := h.le
      lower := h.lower
      upper := h.upper
      live := h.live
      dead := h.dead
      fresh := fun x hx => ?_
      stats := ⟨h.stats.free, h.stats.live, h.stats.invalid, h.stats.n21,
        h.stats.lpns⟩
      ledger := fun i hi => ?_ }
  · refine (h.fresh x hx).trans ?_
    rw [g.used_next h.pool hn hx]
    simp only [reduceCtorEq, or_false, Option.some.injEq]
    constructor
    · intro hnu
      by_cases he : x = pageAt c b k
      · exact .inr he.symm
      · exact .inl fun hu => hu.elim hnu he
    · rintro (hnu | rfl)
      · exact fun hu => hnu (.inl hu)
      · exact g.not_used_next h.pool hn
  · obtain ⟨m, hm, hused⟩ := h.ledger i hi
    have hbound : ∀ j, j < c.pageNb →
        i * c.pageNb + j < c.pageMappingEntryNb := fun j hj => by
      calc i * c.pageNb + j < (i + 1) * c.pageNb := by
            rw [Nat.succ_mul]; omega
        _ ≤ c.blockNb * c.flashNb * c.pageNb := Nat.mul_le_mul_right _ hi
        _ = c.pageMappingEntryNb := by
            rw [Conf.pageMappingEntryNb]; ring
    unfold takePage
    simp only [Table.get_set]
    by_cases hib : i = pageAt c b k / c.pageNb
    · -- the block of the page: its list grows by that page
      rw [if_pos hib, hhand]
      refine ⟨pageAt c b k % c.pageNb + 1, List.range_succ.symm, ?_⟩
      rw [hib, hhand] at hm
      have hm' : pageAt c b k % c.pageNb = m := by
        simpa using congrArg List.length hm
      intro j hj
      rw [g.used_next h.pool hn (hbound j hj), ← hused j hj, ← hm']
      have hiff : i * c.pageNb + j = pageAt c b k
          ↔ j = pageAt c b k % c.pageNb := by
        have h₁ := Nat.div_add_mod (pageAt c b k) c.pageNb
        rw [Nat.mul_comm] at h₁
        rw [hib]
        omega
      rw [hiff]
      omega
    · rw [if_neg hib]
      refine ⟨m, hm, fun j hj => ?_⟩
      rw [g.used_next h.pool hn (hbound j hj), ← hused j hj]
      have hne : i * c.pageNb + j ≠ pageAt c b k := by
        intro he
        apply hib
        rw [← he, Nat.mul_comm, Nat.mul_add_div g.page,
          Nat.div_eq_of_lt hj, Nat.add_zero]
      tauto

/-- A page that is in use gets another list and the count that goes
with it. -/
theorem Geo.pages_update (g : Geo c) (h : Pages c p out H D s)
    (hq : q < c.pageMappingEntryNb) (hD : ¬ D q) (hu : Used c p out q)
    {l : List Nat} {v : Int} {t : Stat} (hlen : l.length ≤ 127)
    (hv : v = if l = [] then -1 else (l.length : Int))
    (hH : ∀ x, x ≠ q → (H = some x ↔ H' = some x)) (hq' : H' ≠ some q)
    (ht : Moved (s.valid c q) v s.stat t) :
    Pages c p out H' D (setValid c q v t (setRefs q l s)) := by
  have hval := g.sized.valid_setValid hq v t (setRefs q l s)
  have hvs : ∀ x, (setRefs q l s).valid c x = s.valid c x := fun _ => rfl
  have hrefs : ∀ x, (setValid c q v t (setRefs q l s)).refs x
      = if x = q then l else s.refs x := refs_setRefs q l s
  have hnil : l ≠ [] → v = l.length := fun hne => by rw [hv, if_neg hne]
  have hnil' : l = [] → v = -1 := fun he => by rw [hv, if_pos he]
  have hpos : l ≠ [] → 0 < l.length := List.length_pos_iff.2
  -- an empty list of lpns is the mark of a dead page, never zero
  have hv0 : v ≠ 0 := by
    by_cases hl : l = []
    · rw [hnil' hl]; decide
    · rw [hnil hl]
      have := hpos hl
      omega
  refine
    { pool := h.pool
      lists := h.lists
      recount := recount_setValid q v t h.recount
      totals := h.totals
      drained := h.drained
      cnt := fun x hx => ?_
      le := fun x hx => ?_
      lower := fun x hx => ?_
      upper := fun x hx => ?_
      live := fun x hx hDx hne => ?_
      dead := fun x hx hDx he => ?_
      fresh := fun x hx => ?_
      stats := g.stats_setValid (s := setRefs q l s) hq
        ⟨h.stats.free, h.stats.live, h.stats.invalid, h.stats.n21,
          h.stats.lpns⟩ ht
      ledger := h.ledger }
  · rw [hrefs]
    refine (lpnCnt_setRefs q l s x).trans ?_
    split
    · rfl
    · exact h.cnt x hx
  · rw [hrefs]
    split
    · exact hlen
    · exact h.le x hx
  · rw [hval]
    split
    · by_cases hl : l = []
      · rw [hnil' hl]
      · rw [hnil hl]
        omega
    · exact h.lower x hx
  · rw [hval]
    split
    · by_cases hl : l = []
      · rw [hnil' hl]
        decide
      · rw [hnil hl]
        omega
    · exact h.upper x hx
  · rw [hrefs] at hne ⊢
    rw [hval]
    split
    · next he => exact hnil (by rwa [if_pos he] at hne)
    · next he => exact h.live x hx hDx (by rwa [if_neg he] at hne)
  · rw [hrefs] at he
    rw [hval]
    split
    · next hxq =>
        rw [if_pos hxq] at he
        rw [hnil' he]
        decide
    · next hxq => exact h.dead x hx hDx (by rwa [if_neg hxq] at he)
  · -- of the page itself, only that it is in use now; of the others, what was
    -- known
    rw [hval]
    by_cases hxq : x = q
    · subst hxq
      rw [if_pos rfl]
      constructor
      · exact fun he => absurd he hv0
      · rintro (hnu | he)
        · exact absurd hu hnu
        · exact absurd he hq'
    · rw [if_neg hxq, hvs, h.fresh x hx, hH x hxq]

/-- A reference is added to a page in use; a hole is filled by it. -/
theorem Geo.pages_share (g : Geo c) (h : Pages c p out H D s)
    (hq : q < c.pageMappingEntryNb) (hD : ¬ D q) (hu : Used c p out q)
    (hv : s.valid c q = (s.refs q).length)
    (hlt : (s.refs q).length < 127) (hH : H = none ∨ H = some q)
    (L : Nat) :
    Pages c p out none D
      (setValid c q (s.valid c q + 1)
        (statValid (s.valid c q) (s.valid c q + 1) s.stat)
        (setRefs q (s.refs q ++ [L]) s)) := by
  have hroom := g.stats_roomy hq h.stats h.upper
  refine g.pages_update h hq hD hu ?_ ?_ ?_ (by simp)
    (hroom.statValid (by omega))
  · simp only [List.length_append, List.length_singleton]
    omega
  · rw [if_neg (by simp)]
    simp [hv]
  · intro x hx
    rcases hH with rfl | rfl
    · simp
    · simp only [Option.some.injEq, reduceCtorEq, iff_false]
      exact fun he => hx he.symm

/-- A reference is taken from a page. -/
theorem Geo.pages_drop (g : Geo c) (h : Pages c p out H D s)
    (hq : q < c.pageMappingEntryNb) (hD : ¬ D q) {L : Nat}
    (hL : L ∈ s.refs q) :
    Pages c p out H D
      (setValid c q (if s.valid c q = 1 then -1 else s.valid c q - 1)
        (statInvalid (s.valid c q) s.stat)
        (setRefs q ((s.refs q).erase L) s)) := by
  have hne : s.refs q ≠ [] := List.ne_nil_of_mem hL
  have hv := h.live q hq hD hne
  have hpos := List.length_pos_iff.2 hne
  have hlen := List.length_erase_of_mem hL
  have hroom := g.stats_roomy hq h.stats h.upper
  have hused : Used c p out q ∧ H ≠ some q := by
    have h0 : ¬ s.valid c q = 0 := by omega
    rw [h.fresh q hq, not_or, not_not] at h0
    exact h0
  have hnil : (s.refs q).erase L = [] ↔ s.valid c q = 1 := by
    rw [← List.length_eq_zero_iff, hlen, hv]
    omega
  refine g.pages_update h hq hD hused.1 ?_ ?_ (fun x _ => Iff.rfl)
    hused.2 (hroom.statInvalid (by omega))
  · have := h.le q hq
    omega
  · by_cases h1 : s.valid c q = 1
    · rw [if_pos h1, if_pos (hnil.2 h1)]
    · rw [if_neg h1, if_neg (fun he => h1 (hnil.1 he)), hlen, hv]
      omega

/-- A drained page loses a reference; its `valid_array` is left as it
is. -/
theorem Pages.drain (h : Pages c p out H D s) (hD : D q)
    {l : List Nat} (hl : l.length ≤ 127) :
    Pages c p out H D (setRefs q l s) := by
  have hrefs := refs_setRefs q l s
  refine
    { pool := h.pool
      lists := h.lists
      recount := h.recount
      totals := h.totals
      drained := h.drained
      cnt := fun x hx => ?_
      le := fun x hx => ?_
      lower := h.lower
      upper := h.upper
      live := fun x hx hDx hne => ?_
      dead := fun x hx hDx he => ?_
      fresh := h.fresh
      stats := ⟨h.stats.free, h.stats.live, h.stats.invalid, h.stats.n21,
        h.stats.lpns⟩
      ledger := h.ledger }
  · rw [hrefs, lpnCnt_setRefs]
    split
    · rfl
    · exact h.cnt x hx
  · rw [hrefs]
    split
    · exact hl
    · exact h.le x hx
  · -- what is said of live pages does not include a page being drained
    have hxq : x ≠ q := fun he => hDx (he ▸ hD)
    rw [hrefs, if_neg hxq] at hne ⊢
    exact h.live x hx hDx hne
  · have hxq : x ≠ q := fun he => hDx (he ▸ hD)
    rw [hrefs, if_neg hxq] at he
    exact h.dead x hx hDx he

/-- More pages may be excepted. -/
theorem Pages.mono {D' : Nat → Prop} (h : Pages c p out H D s)
    (hD : ∀ q, D q → D' q) (hout : ∀ q, D' q → blockOf c q ∈ out) :
    Pages c p out H D' s :=
  { h with
    drained := hout
    live := fun q hq hD' => h.live q hq fun hq' => hD' (hD q hq')
    dead := fun q hq hD' => h.dead q hq fun hq' => hD' (hD q hq') }

/-- A superblock is taken out of the pool: its pages stay in use. -/
theorem used_eject (h : PoolOk c [] p) {i : Nat}
    (hi : p.full[i]? = some b) (x : Nat) :
    Used c (p.eject i) [b] x ↔ Used c p [] x := by
  unfold Used
  rw [Pool.used_eject h hi]
  simp only [List.mem_singleton, List.not_mem_nil, or_false]
  constructor
  · rintro (⟨hu, -⟩ | rfl)
    · exact hu
    · exact .inl (List.mem_of_getElem? hi)
  · intro hu
    by_cases hx : blockOf c x = b
    · exact .inr hx
    · exact .inl ⟨hu, hx⟩

/-- Taking a victim off the lists changes no page. -/
theorem Pages.eject (h : Pages c p [] none (fun _ => False) s) {i : Nat}
    (hi : p.full[i]? = some b) {l : BlockLists}
    (hl : Lists c (p.eject i) l) :
    Pages c (p.eject i) [b] none (fun _ => False)
      { s with lists := l } := by
  have hused := used_eject h.pool hi
  refine
    { h with
      pool := h.pool.eject hi
      lists := hl
      drained := fun _ hD => hD.elim
      fresh := fun x hx => ?_
      stats := ⟨h.stats.free, h.stats.live, h.stats.invalid, h.stats.n21,
        h.stats.lpns⟩
      ledger := fun j hj => ?_ }
  · rw [hused]
    exact h.fresh x hx
  · obtain ⟨m, hm, hiff⟩ := h.ledger j hj
    exact ⟨m, hm, fun k hk => by rw [hused]; exact hiff k hk⟩

/-- An erased superblock, drained before, returns to the pool. -/
theorem Geo.pages_release (g : Geo c) (h : Pages c p [b] none D s)
    (hdone : ∀ q, q < c.pageMappingEntryNb → blockOf c q = b →
      s.refs q = [])
    (hl : Lists c (p.release b) s'.lists)
    (hr : s'.inverseMappingTable = s.inverseMappingTable)
    (hrec : Recount c s') (hn : Totals c s'.nvram) (hs : Stats c s')
    (hv : ∀ q, q < c.pageMappingEntryNb → s'.valid c q
      = if blockOf c q = b then 0 else s.valid c q)
    (hh : ∀ i, i < c.blockNb * c.flashNb → s'.handed i
      = if i % c.blockNb = b then [] else s.handed i) :
    Pages c (p.release b) [] none (fun _ => False) s' := by
  have hrefs : ∀ q, s'.refs q = s.refs q := by
    intro q
    rw [Ssd.refs, hr]
    rfl
  -- the pages of `b` leave the device for the pool, all others stay as they
  -- are
  have hin : ∀ q, blockOf c q = b → ¬ Used c (p.release b) [] q := by
    rintro q rfl (hu | hu)
    · exact h.pool.out_not_used (by simp) ((Pool.used_release _ _).1 hu)
    · simp at hu
  have hout : ∀ q, blockOf c q ≠ b →
      (Used c (p.release b) [] q ↔ Used c p [b] q) := by
    intro q hq
    unfold Used
    rw [Pool.used_release]
    simp [hq]
  have hnotD : ∀ q, blockOf c q ≠ b → ¬ D q := by
    intro q hq hD
    exact hq (by simpa using h.drained q hD)
  refine
    { pool := h.pool.release
      lists := hl
      recount := hrec
      totals := hn
      drained := fun _ hD => hD.elim
      cnt := fun q hq => by rw [hr, hrefs]; exact h.cnt q hq
      le := fun q hq => by rw [hrefs]; exact h.le q hq
      lower := fun q hq => ?_
      upper := fun q hq => ?_
      live := fun q hq _ hne => ?_
      dead := fun q hq _ he => ?_
      fresh := fun q hq => ?_
      stats := hs
      ledger := fun i hi => ?_ }
  · rw [hv q hq]
    split
    · decide
    · exact h.lower q hq
  · rw [hv q hq]
    split
    · decide
    · exact h.upper q hq
  · rw [hrefs] at hne ⊢
    have hb : blockOf c q ≠ b := fun hb => hne (hdone q hq hb)
    rw [hv q hq, if_neg hb]
    exact h.live q hq (hnotD q hb) hne
  · rw [hrefs] at he
    rw [hv q hq]
    split
    · exact Int.le_refl 0
    · next hb => exact h.dead q hq (hnotD q hb) he
  · rw [hv q hq]
    by_cases hb : blockOf c q = b
    · rw [if_pos hb]
      exact ⟨fun _ => .inl (hin q hb), fun _ => rfl⟩
    · rw [if_neg hb, hout q hb]
      exact h.fresh q hq
  · -- the ledger is kept by block index, so the erased superblock is found by
    -- the index modulo the blocks of a flash
    have hblk : ∀ k, k < c.pageNb →
        blockOf c (i * c.pageNb + k) = i % c.blockNb := by
      intro k hk
      unfold blockOf
      rw [Nat.mul_comm, Nat.mul_add_div g.page, Nat.div_eq_of_lt hk,
        Nat.add_zero]
    rw [hh i hi]
    by_cases hb : i % c.blockNb = b
    · rw [if_pos hb]
      refine ⟨0, rfl, fun k hk => ?_⟩
      exact iff_of_false (Nat.not_lt_zero k)
        (hin _ ((hblk k hk).trans hb))
    · rw [if_neg hb]
      obtain ⟨m, hm, hiff⟩ := h.ledger i hi
      refine ⟨m, hm, fun k hk => ?_⟩
      rw [hout _ (by rw [hblk k hk]; exact hb)]
      exact hiff k hk

/-- All pages of a new device are free. -/
theorem Geo.pages_init (g : Geo c) :
    Pages c (.init c.blockNb) [] none (fun _ => False) (ftlInit c) := by
  have hv : ∀ q, (ftlInit c).valid c q = 0 := fun _ => rfl
  have hnot : ∀ q, ¬ Used c (.init c.blockNb) [] q := by
    intro q
    simp [Used, Pool.Used, Pool.init]
  refine
    { g.aligned_init with
      drained := fun _ hD => hD.elim
      cnt := fun _ _ => rfl
      le := fun _ _ => Nat.zero_le _
      lower := fun q _ => by rw [hv]; decide
      upper := fun q _ => by rw [hv]; decide
      live := fun _ _ _ hne => absurd rfl hne
      dead := fun q _ _ _ => by rw [hv]
      fresh := fun q _ => by simp [hv, hnot]
      stats := ?_
      ledger := fun i _ => ⟨0, rfl, fun k _ => by simp [hnot]⟩ }
  constructor <;> simp only [hv]
  · simp [ind, tally_const, ftlInit, initStatCount]
  · simp [ind, tally_const, ftlInit, initStatCount]
  · simp [ind, tally_const, ftlInit, initStatCount]
  · simp [ind, tally_const, ftlInit, initStatCount]
  · simp [tally_const, ftlInit, initStatCount]

end FemuRemap
