/-
`SELECT_VICTIM_SUPERBLOCK` over victim lists that are abreast: it takes
the first of the superblocks with the least total of valid pages out of
every list, and fails only when there is none or when no total is below
`PAGE_NB * FLASH_NB * PLANES_PER_FLASH`. Totals, product and count are
`int`s.

The two nested loops read the state and report nothing, so each is
first evaluated to its result; the fold over the positions is then an
ordinary first-minimum search (`foldl_better`). The lists of a pool are
abreast (`Lists.abreast`) and no `int` overflows on a device with fewer
than `2 ^ 31` pages, which gives the result for runs.
-/
import FemuRemap.Lib.Tally
import FemuRemap.Proofs.Lists

namespace FemuRemap

open Lib

variable {c : Conf}

-- =========================================================== alignment

/-- The victim lists of all roots hold the same superblocks `bs` in the
same order, and are counted. -/
structure Abreast (c : Conf) (l : BlockLists) (bs : List Nat) : Prop where
  nb : ∀ j, j < c.victimTableEntryNb →
    (l.victimBlockList j).victimBlockNb = bs.length
  blocks : ∀ j, j < c.victimTableEntryNb →
    (l.victimBlockList j).entries.map (·.phyBlockNb) = bs
  total : l.totalVictimBlockNb = (c.victimTableEntryNb * bs.length : Nat)
  few : bs.length < 2 ^ 32

/-- Each entry lies in the root that its own flash and plane index. -/
def Filed (c : Conf) (l : BlockLists) : Prop :=
  ∀ j, j < c.victimTableEntryNb → ∀ v ∈ (l.victimBlockList j).entries,
    rootIndex c v.phyFlashNb v.phyBlockNb = j

/-- `valid_page_nb` of the block at position `i` of list `j`. -/
def entryPages (c : Conf) (s : Ssd) (i j : Nat) : Nat :=
  ((s.lists.victimBlockList j).entries[i]?.map fun v =>
    (getBlockStateEntry c s v.phyFlashNb v.phyBlockNb).validPageNb).getD 0

/-- Its total over the roots. -/
def superPages (c : Conf) (s : Ssd) (i : Nat) : Nat :=
  ((List.range c.victimTableEntryNb).map (entryPages c s i)).sum

/-- `PAGE_NB * FLASH_NB * PLANES_PER_FLASH`. -/
def fullPages (c : Conf) : Nat := c.pageNb * c.flashNb * c.planesPerFlash

/-- The total as the `int` that it is added up in. -/
def intPages (c : Conf) (s : Ssd) (i : Nat) : Int := i32 (superPages c s i)

/-- The positions that the loop over an `int` count of `n` goes through. -/
def scanned (n : Nat) : Nat := (i32 n).toNat

theorem scanned_of_lt {n : Nat} (h : n < 2 ^ 31) : scanned n = n := by
  rw [scanned, i32_of_lt rfl h, Int.toNat_natCast]

/-- An `unsigned int` that is no `int` counts no positions. -/
theorem scanned_of_ge {n : Nat} (h : 2 ^ 31 ≤ n) (hn : n < 2 ^ 32) :
    scanned n = 0 := by
  unfold scanned i32
  omega

theorem scanned_le {n : Nat} (hn : n < 2 ^ 32) : scanned n ≤ n := by
  unfold scanned i32
  omega

/-- The product as the code computes it. -/
theorem i32_fullPages (c : Conf) :
    i32 (i32 (c.pageNb * c.flashNb) * c.planesPerFlash)
      = i32 (fullPages c) := by
  rw [i32_i32_mul, fullPages]
  push_cast
  rfl

variable {s : Ssd} {bs : List Nat}

theorem Abreast.entry (h : Abreast c s.lists bs) {i b j : Nat}
    (hi : bs[i]? = some b) (hj : j < c.victimTableEntryNb) :
    ∃ v, (s.lists.victimBlockList j).entries[i]? = some v
      ∧ v.phyBlockNb = b
      ∧ entryPages c s i j
        = (getBlockStateEntry c s v.phyFlashNb v.phyBlockNb).validPageNb := by
  have hmap := congrArg (·[i]?) (h.blocks j hj)
  simp only [List.getElem?_map, hi, Option.map_eq_some_iff] at hmap
  obtain ⟨v, hv, hvb⟩ := hmap
  refine ⟨v, hv, hvb, ?_⟩
  simp [entryPages, hv]

-- ========================================================== scanning

/-- The loop over the roots adds up the blocks of one superblock. Its
first block number is set by root `0`. -/
theorem Abreast.sumSuperblock_run (h : Abreast c s.lists bs) {i b : Nat}
    (hi : bs[i]? = some b) (js : List Nat)
    (hjs : ∀ j ∈ js, j < c.victimTableEntryNb) (first : Nat) (sum : Int)
    (hf : js = [] ∨ js.head? = some 0 ∨ first = b) :
    sumSuperblock c i (i32 bs.length) js first (i32 sum) s
      = ⟨.ok (some (i32 (sum + (js.map (entryPages c s i)).sum))), s, []⟩ := by
  induction js generalizing first sum with
  | nil => simp [sumSuperblock]
  | cons j js ih =>
      have hj := hjs j (by simp)
      have hnb := h.nb j hj
      obtain ⟨v, hent, hvb, hpages⟩ := h.entry hi hj
      have hfirst : (if j = 0 then b else first) = b := by
        rcases hf with hf | hf | hf
        · simp at hf
        · simp only [List.head?_cons, Option.some.injEq] at hf
          rw [if_pos hf]
        · rw [hf, ite_self]
      rw [sumSuperblock, Prog.run_bind, Prog.run_get, Prog.andThen_ok]
      simp only [hnb, hent, hvb, hfirst, ne_eq, not_true_eq_false,
        and_false, if_false, i32_i32_add]
      rw [ih (fun j' hj' => hjs j' (by simp [hj'])) b _
        (.inr (.inr rfl)), List.map_cons, List.sum_cons, hpages, hvb]
      simp [Int.add_assoc]

/-- The same loop as `SELECT_VICTIM_SUPERBLOCK` starts it. -/
theorem Abreast.sumSuperblock_range (h : Abreast c s.lists bs) {i b : Nat}
    (hi : bs[i]? = some b) :
    sumSuperblock c i (i32 bs.length) (List.range c.victimTableEntryNb) 0 0 s
      = ⟨.ok (some (intPages c s i)), s, []⟩ := by
  have hzero : i32 0 = 0 := rfl
  rw [← hzero, h.sumSuperblock_run hi _ (by simp)]
  · simp [intPages, superPages]
  · cases c.victimTableEntryNb with
    | zero => exact .inl rfl
    | succ n => exact .inr (.inl (by rw [List.range_succ_eq_map]; rfl))

/-- Keep the first strictly better candidate. -/
def better (score : Nat → Int) (best : Nat × Int) (i : Nat) : Nat × Int :=
  if score i < best.2 then (i, score i) else best

/-- The search ends at its start or at the first minimum. -/
theorem foldl_better (score : Nat → Int) (l : List Nat)
    (best : Nat × Int) :
    (l.foldl (better score) best = best ∧ ∀ i ∈ l, best.2 ≤ score i)
      ∨ ∃ l₁ i l₂, l = l₁ ++ i :: l₂
        ∧ l.foldl (better score) best = (i, score i)
        ∧ score i < best.2 ∧ (∀ j ∈ l₁, score i < score j)
        ∧ ∀ j ∈ l₂, score i ≤ score j := by
  induction l generalizing best with
  | nil => exact .inl ⟨rfl, by simp⟩
  | cons a l ih =>
      rw [List.foldl_cons]
      rcases lt_or_ge (score a) best.2 with ha | ha
      · -- `a` is the best so far, and stays or gives way to a later one
        have hb : better score best a = (a, score a) := by
          rw [better, if_pos ha]
        rw [hb]
        rcases ih (a, score a) with ⟨he, hall⟩ | ⟨l₁, i, l₂, rfl, he, hlt,
          h₁, h₂⟩
        · exact .inr ⟨[], a, l, rfl, he, ha, by simp, hall⟩
        · refine .inr ⟨a :: l₁, i, l₂, rfl, he, ?_, ?_, h₂⟩
          · exact Int.lt_trans hlt ha
          · simpa using ⟨hlt, h₁⟩
      · have hb : better score best a = best := by
          rw [better, if_neg (Int.not_lt.2 ha)]
        rw [hb]
        rcases ih best with ⟨he, hall⟩ | ⟨l₁, i, l₂, rfl, he, hlt, h₁, h₂⟩
        · exact .inl ⟨he, by simpa using ⟨ha, hall⟩⟩
        · refine .inr ⟨a :: l₁, i, l₂, rfl, he, hlt, ?_, h₂⟩
          simpa using ⟨Int.lt_of_lt_of_le hlt ha, h₁⟩

/-- The first of `n` positions with the least score. -/
structure FirstLeast {α : Type} [LT α] [LE α] (n : Nat) (score : Nat → α)
    (i : Nat) : Prop where
  lt : i < n
  least : ∀ k, k < n → score i ≤ score k
  first : ∀ k, k < i → score i < score k

/-- There is only one. -/
theorem FirstLeast.unique {n i k : Nat} {score : Nat → Int}
    (hi : FirstLeast n score i) (hk : FirstLeast n score k) : i = k := by
  rcases Nat.lt_trichotomy i k with hlt | he | hlt
  · exact absurd (hi.least k hk.lt) (Int.not_le.2 (hk.first i hlt))
  · exact he
  · exact absurd (hk.least i hi.lt) (Int.not_le.2 (hi.first k hlt))

/-- The position that the search ends at, and its total. -/
def pick (c : Conf) (s : Ssd) (n : Nat) : Nat × Int :=
  (List.range n).foldl (better (intPages c s)) (0, i32 (fullPages c))

/-- It finds nothing, or the first of the superblocks with the least
total. -/
theorem pick_spec (c : Conf) (s : Ssd) (n : Nat) :
    ((pick c s n).2 = i32 (fullPages c)
        ∧ ∀ i, i < n → i32 (fullPages c) ≤ intPages c s i)
      ∨ FirstLeast n (intPages c s) (pick c s n).1
        ∧ intPages c s (pick c s n).1 = (pick c s n).2
        ∧ (pick c s n).2 < i32 (fullPages c) := by
  unfold pick
  rcases foldl_better (intPages c s) (List.range n) (0, i32 (fullPages c))
    with ⟨he, hall⟩ | ⟨l₁, i, l₂, hl, he, hlt, h₁, h₂⟩
  · rw [he]
    exact .inl ⟨rfl, fun i hi => hall i (List.mem_range.2 hi)⟩
  · obtain ⟨rfl, hi⟩ := Sat.range_split hl.symm
    rw [he]
    refine .inr ⟨⟨hi, fun j hj => ?_, fun j hj =>
      h₁ j (List.mem_range.2 hj)⟩, rfl, hlt⟩
    have hmem : j ∈ List.range i ++ i :: l₂ := hl ▸ List.mem_range.2 hj
    rcases List.mem_append.1 hmem with hm | hm
    · exact Int.le_of_lt (h₁ j hm)
    · rcases List.mem_cons.1 hm with rfl | hm
      · exact Int.le_refl _
      · exact h₂ j hm

/-- What the search finds is the first of the least totals. -/
theorem pick_first {n : Nat} (h : (pick c s n).2 ≠ i32 (fullPages c)) :
    FirstLeast n (intPages c s) (pick c s n).1
      ∧ intPages c s (pick c s n).1 < i32 (fullPages c) := by
  rcases pick_spec c s n with ⟨he, -⟩ | ⟨hfirst, hscore, hlt⟩
  · exact absurd he h
  · exact ⟨hfirst, hscore.symm ▸ hlt⟩

/-- It finds something as soon as a total is below the product. -/
theorem pick_ne {n i : Nat} (hi : i < n)
    (hlt : intPages c s i < i32 (fullPages c)) :
    (pick c s n).2 ≠ i32 (fullPages c) := by
  rcases pick_spec c s n with ⟨-, hall⟩ | ⟨-, -, hbelow⟩
  · exact absurd (hall i hi) (Int.not_le.2 hlt)
  · exact Int.ne_of_lt hbelow

/-- The loop over the positions is that search. -/
theorem Abreast.scanVictims_run (h : Abreast c s.lists bs)
    (is : List Nat) (his : ∀ i ∈ is, i < bs.length) (off : Nat)
    (min : Int) :
    scanVictims c (i32 bs.length) is off min s
      = ⟨.ok (some (is.foldl (better (intPages c s)) (off, min))),
        s, []⟩ := by
  induction is generalizing off min with
  | nil => rfl
  | cons i is ih =>
      have hi := List.getElem?_eq_getElem (his i (by simp))
      have ih' := ih fun j hj => his j (by simp [hj])
      rw [scanVictims, Prog.run_bind, h.sumSuperblock_range hi,
        Prog.andThen_ok, List.foldl_cons, better]
      dsimp only
      split
      · rw [ih']
        rfl
      · rw [ih']
        rfl

theorem Abreast.scanVictims_pick (h : Abreast c s.lists bs) :
    scanVictims c (i32 bs.length) (List.range (scanned bs.length)) 0
        (i32 (fullPages c)) s
      = ⟨.ok (some (pick c s (scanned bs.length))), s, []⟩ := by
  refine h.scanVictims_run _ (fun i hi => ?_) 0 _
  exact Nat.lt_of_lt_of_le (List.mem_range.1 hi) (scanned_le h.few)

-- ========================================================== ejection

variable {rely guar : Event → Prop} {E : Fault → Ssd → Prop}

/-- A victim list without its entry at `off`. -/
def VictimRoot.without (off : Nat) (r : VictimRoot) : VictimRoot :=
  ⟨r.entries.eraseIdx off, r.victimBlockNb - 1⟩

/-- The lists without the superblock at position `off`. -/
def Ejects (c : Conf) (off : Nat) (l l' : BlockLists) : Prop :=
  ∃ v, Table.Upto (fun j => (l.victimBlockList j).without off)
      c.victimTableEntryNb l.victimBlockList v
    ∧ l' = { l with
        victimBlockList := v
        totalVictimBlockNb := l.totalVictimBlockNb - c.victimTableEntryNb }

/-- `EJECT_VICTIM_BLOCK` at position `off` of every root. -/
theorem Abreast.eject_sat (h : Abreast c s.lists bs)
    (hfiled : Filed c s.lists) {off b : Nat} (hoff : bs[off]? = some b) :
    Sat rely guar
      (Prog.each (ejectAt c off) (List.range c.victimTableEntryNb)) s
      (fun _ s' => ∃ l, s' = { s with lists := l }
        ∧ Ejects c off s.lists l) E := by
  obtain ⟨hlt, -⟩ := List.getElem?_eq_some_iff.1 hoff
  have hfew := h.few
  -- list by list, each without its block at `off`
  refine Sat.mono (Sat.each_range (fun n s' => ∃ v,
    Table.Upto (fun j => (s.lists.victimBlockList j).without off) n
      s.lists.victimBlockList v
    ∧ s' = { s with lists := { s.lists with
        victimBlockList := v
        totalVictimBlockNb := s.lists.totalVictimBlockNb - n } })
    ?_ ⟨_, Table.Upto.zero _ _, by simp⟩) ?_ fun _ _ h => h
  · rintro j s' hj ⟨v, hv, rfl⟩
    obtain ⟨w, hent, -, -⟩ := h.entry hoff hj
    have hown := hfiled j hj w (List.mem_of_getElem? hent)
    have hroot : v j = s.lists.victimBlockList j :=
      hv.get_ge (Nat.le_refl j)
    have hnew : (⟨(v j).entries.eraseIdx off,
        u32 ((v j).victimBlockNb - 1)⟩ : VictimRoot)
        = (s.lists.victimBlockList j).without off := by
      have hnb := h.nb j hj
      rw [hroot, VictimRoot.without,
        u32_of_lt (n := (s.lists.victimBlockList j).victimBlockNb - 1)
          (by omega) (by omega)]
    unfold ejectAt
    refine Sat.get_bind ?_
    simp only [hroot, hent]
    refine Sat.modify ⟨_, hv.set, ?_⟩
    simp only [ejectVictimBlock, hown, hnew]
    congr 2
    push_cast
    omega
  · rintro _ s' ⟨v, hv, rfl⟩
    exact ⟨_, rfl, v, hv, rfl⟩

-- ========================================================= selection

/-- What `SELECT_VICTIM_SUPERBLOCK` does to lists that are abreast. -/
def Picked (c : Conf) (bs : List Nat) (s : Ssd) : Option Nat → Ssd → Prop
  | none, s' => (pick c s (scanned bs.length)).2 = i32 (fullPages c)
      ∧ ∃ t, s' = { s with stat := { s.stat with failCnt := t } }
  | some b, s' => (pick c s (scanned bs.length)).2 ≠ i32 (fullPages c)
      ∧ bs[(pick c s (scanned bs.length)).1]? = some b
      ∧ ∃ l, s' = { s with lists := l }
        ∧ Ejects c (pick c s (scanned bs.length)).1 s.lists l

/-- The position of a superblock with a page that is not valid. -/
theorem Abreast.pick_lt (h : Abreast c s.lists bs)
    (hsome : (pick c s (scanned bs.length)).2 ≠ i32 (fullPages c)) :
    (pick c s (scanned bs.length)).1 < bs.length :=
  Nat.lt_of_lt_of_le (pick_first hsome).1.lt (scanned_le h.few)

theorem Abreast.selectVictimSuperblock_sat (h : Abreast c s.lists bs)
    (hfiled : Filed c s.lists) (hpos : 0 < c.victimTableEntryNb)
    (hg : (pick c s (scanned bs.length)).2 = i32 (fullPages c) →
      guar (.error .noVictimBlock) ∧ guar (.error .tooManyValid)) :
    Sat rely guar (selectVictimSuperblock c) s (Picked c bs s) E := by
  have hnb := h.nb 0 hpos
  have hcount : (i32 bs.length).toNat = scanned bs.length := rfl
  unfold selectVictimSuperblock
  refine Sat.get_bind ?_
  simp only [hnb, h.total, i32_fullPages, hcount]
  rcases Nat.eq_zero_or_pos bs.length with hnil | hne
  · have hnone : (pick c s (scanned bs.length)).2 = i32 (fullPages c) := by
      rw [hnil, scanned_of_lt (by decide), pick, List.range_zero,
        List.foldl_nil]
    rw [if_pos (by simp [hnil])]
    exact Sat.emit_bind fun _ =>
      ⟨(hg hnone).1, Sat.pure ⟨hnone, s.stat.failCnt, rfl⟩⟩
  · have htotal : ((c.victimTableEntryNb * bs.length : Nat) : Int) ≠ 0 := by
      have := Nat.mul_pos hpos hne
      omega
    rw [if_neg htotal, if_neg (Nat.ne_of_gt hne)]
    -- the pair is named before the code takes it apart
    have hscan := h.scanVictims_pick
    have hoff := h.pick_lt
    cases hpick : pick c s (scanned bs.length) with
    | mk off min =>
        rw [hpick] at hscan hg hoff
        refine Sat.silent_bind hscan ?_
        dsimp only at hg hoff ⊢
        by_cases hall : min = i32 (fullPages c)
        · rw [if_pos hall]
          refine Sat.modify_bind (Sat.emit_bind fun _ =>
            ⟨(hg hall).2, Sat.pure ?_⟩)
          exact ⟨by rw [hpick]; exact hall, _, rfl⟩
        · rw [if_neg hall]
          have hib := List.getElem?_eq_getElem (hoff hall)
          obtain ⟨v, hent, hvb, -⟩ := h.entry hib hpos
          simp only [hent]
          refine Sat.bind (h.eject_sat hfiled hib) ?_
          rintro _ _ ⟨l, rfl, hl⟩
          refine Sat.pure ?_
          rw [Picked, hpick]
          exact ⟨hall, hvb ▸ hib, l, rfl, hl⟩

-- ============================================================ the pool

variable {p : Pool}

/-- The victim lists of a pool are abreast. -/
theorem Geo.lists_abreast (g : Geo c) (h : Lists c p s.lists)
    (hlen : p.full.length < 2 ^ 32) : Abreast c s.lists p.full where
  nb j hj := by
    rw [g.victimTableEntryNb] at hj
    simp [h.victims j hj, victimRootOf]
  blocks j hj := by
    rw [g.victimTableEntryNb] at hj
    rw [h.victims j hj, victimRootOf, List.map_map]
    exact List.map_id _
  total := by rw [g.victimTableEntryNb]; exact h.totalVictim
  few := hlen

theorem Geo.lists_filed (g : Geo c) (h : Lists c p s.lists) :
    Filed c s.lists := by
  intro j hj v hv
  rw [g.victimTableEntryNb] at hj
  rw [h.victims j hj, victimRootOf] at hv
  obtain ⟨b, -, rfl⟩ := List.mem_map.1 hv
  exact g.rootIndex j b

/-- Their totals are those of the superblocks. -/
theorem Geo.superPages_eq (g : Geo c) (h : Lists c p s.lists) {i b : Nat}
    (hi : p.full[i]? = some b) : superPages c s i = livePages c s b := by
  unfold superPages livePages
  rw [g.victimTableEntryNb]
  refine congrArg List.sum (List.map_congr_left fun f hf => ?_)
  have hv := h.victims f (List.mem_range.1 hf)
  simp [entryPages, hv, victimRootOf, hi]

/-- The pool without a superblock. -/
theorem Geo.lists_eject (g : Geo c) (h : Lists c p s.lists) {off : Nat}
    (hlt : off < p.full.length) {l : BlockLists}
    (hl : Ejects c off s.lists l) : Lists c (p.eject off) l := by
  obtain ⟨v, hv, rfl⟩ := hl
  rw [g.victimTableEntryNb] at hv
  refine { toRep := ?_, plane := h.plane, block := h.block }
  refine
    { roots := h.roots
      victims := fun f hf => ?_
      totalEmpty := h.totalEmpty
      totalVictim := ?_
      index := h.index }
  · show v f = victimRootOf (p.eject off) f
    rw [hv.get_lt hf, h.victims f hf]
    simp [VictimRoot.without, victimRootOf, Pool.eject,
      List.eraseIdx_map, List.length_eraseIdx_of_lt hlt]
  · simp only [h.totalVictim, Pool.eject, List.length_eraseIdx_of_lt hlt,
      g.victimTableEntryNb]
    obtain ⟨n, hn⟩ : ∃ n, p.full.length = n + 1 :=
      ⟨p.full.length - 1, by omega⟩
    rw [hn, Nat.add_sub_cancel, Nat.mul_succ]
    push_cast
    omega

/-- `valid_page_nb` is the number of valid pages, in every block. -/
def Recount (c : Conf) (s : Ssd) : Prop :=
  ∀ i, (s.blockStateTable i).validPageNb
    = countValid c (s.blockStateTable i).validArray

theorem Recount.le (h : Recount c s) (f b : Nat) :
    (getBlockStateEntry c s f b).validPageNb ≤ c.pageNb := by
  rw [getBlockStateEntry, h]
  refine Nat.le_trans List.countP_le_length ?_
  rw [List.length_range]

/-- The live pages of a superblock are among its pages. -/
theorem Recount.livePages_le (h : Recount c s) (b : Nat) :
    livePages c s b ≤ c.sbPages := by
  rw [livePages, sum_range, Conf.sbPages, Nat.mul_comm]
  exact tally_le fun f _ => h.le f b

/-- On a device with fewer than `2 ^ 31` pages the `int` totals are the
numbers of live pages. -/
theorem Geo.intPages_eq (g : Geo c) (h : Lists c p s.lists)
    (hrec : Recount c s) {i b : Nat} (hi : p.full[i]? = some b) :
    intPages c s i = livePages c s b := by
  have hle := hrec.livePages_le b
  have hsb := g.sized.sbPages_le
  have htot := g.total
  rw [intPages, g.superPages_eq h hi]
  exact i32_of_lt rfl (by omega)

/-- What `SELECT_VICTIM_SUPERBLOCK` does to the pool: the first full
superblock with the fewest valid pages leaves it, or there is none with
a page that is not valid. -/
def Selected (c : Conf) (p : Pool) (s : Ssd) : Option Nat → Ssd → Prop
  | none, s' => (∀ b ∈ p.full, c.sbPages ≤ livePages c s b)
      ∧ ∃ t, s' = { s with stat := { s.stat with failCnt := t } }
  | some b, s' => ∃ i l, p.full[i]? = some b
      ∧ s' = { s with lists := l } ∧ Lists c (p.eject i) l
      ∧ livePages c s b < c.sbPages
      ∧ (∀ b' ∈ p.full, livePages c s b ≤ livePages c s b')
      ∧ ∀ j b', j < i → p.full[j]? = some b' →
          livePages c s b < livePages c s b'

theorem Geo.selectVictimSuperblock_sat (g : Geo c) {out : List Nat}
    (h : Lists c p s.lists) (hp : PoolOk c out p) (hrec : Recount c s)
    (hg : (∀ b ∈ p.full, c.sbPages ≤ livePages c s b) →
      guar (.error .noVictimBlock) ∧ guar (.error .tooManyValid)) :
    Sat rely guar (selectVictimSuperblock c) s (Selected c p s) E := by
  have hlen := PoolOk.length_le hp
  have hblk := g.sized.blockNb_le
  have hsb := g.sized.sbPages_le
  have htot := g.total
  have hfull : fullPages c = c.sbPages := by
    rw [fullPages, g.planes, Nat.mul_one]
    rfl
  -- the minimum starts at an `int`, which holds the pages of a superblock
  have hint : i32 (fullPages c) = (c.sbPages : Int) := by
    rw [hfull]
    exact i32_of_lt rfl (by omega)
  have hab := g.lists_abreast h (by omega)
  have hscan : scanned p.full.length = p.full.length :=
    scanned_of_lt (by omega)
  -- the scan ends at its start value only if every superblock is full of live
  -- pages
  have hvalid : (pick c s (scanned p.full.length)).2 = i32 (fullPages c) →
      ∀ b ∈ p.full, c.sbPages ≤ livePages c s b := by
    intro hnone b hb
    obtain ⟨i, hi⟩ := List.getElem?_of_mem hb
    have hlt : i < scanned p.full.length := by
      rw [hscan]
      exact (List.getElem?_eq_some_iff.1 hi).1
    by_contra hfew
    refine pick_ne hlt ?_ hnone
    rw [g.intPages_eq h hrec hi, hint]
    exact Int.ofNat_lt.2 (Nat.not_le.1 hfew)
  refine Sat.mono (hab.selectVictimSuperblock_sat (g.lists_filed h) ?_
    fun hnone => hg (hvalid hnone)) ?_ fun _ _ he => he
  · rw [g.victimTableEntryNb]
    exact g.flash_pos
  · intro r s' hr
    cases r with
    | none => exact ⟨hvalid hr.1, hr.2⟩
    | some b =>
        obtain ⟨hsome, hib, l, hs', hl⟩ := hr
        obtain ⟨hfirst, hlt⟩ := pick_first hsome
        have hat := g.intPages_eq h hrec hib
        rw [hat, hint] at hlt
        refine ⟨_, l, hib, hs', g.lists_eject h (hab.pick_lt hsome) hl,
          Int.ofNat_lt.1 hlt, ?_, ?_⟩
        · intro b' hb'
          obtain ⟨j, hj⟩ := List.getElem?_of_mem hb'
          have hlt' : j < scanned p.full.length := by
            rw [hscan]
            exact (List.getElem?_eq_some_iff.1 hj).1
          have hle := hfirst.least j hlt'
          rw [hat, g.intPages_eq h hrec hj] at hle
          exact Int.ofNat_le.1 hle
        · intro j b' hji hj
          have hlt' := hfirst.first j hji
          rw [hat, g.intPages_eq h hrec hj] at hlt'
          exact Int.ofNat_lt.1 hlt'

end FemuRemap
