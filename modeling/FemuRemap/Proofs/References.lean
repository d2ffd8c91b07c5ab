/-
References and their records: the forward map against the inverse
lists, and against the reverse-mapping entries in the NVRAM.

# Ahead of the mapping

No operation changes the map, a list and a record at once, and they do
not agree on the order. Both invariants are therefore stated against a
map `m` (and flags `nv`) that need not be the tables of the moment:

- `Maps c m x s`: the inverse lists hold what `m` says, and `x` once
  more, a reference entered ahead of the mapping.
- `Records c out m nv y n`: each superblock's stored entries that are
  not invalid are the NVRAM references into it, and one more for `y`,
  an entry stored ahead of the reference. The superblocks `out` are
  excepted: a collection released their segments.

Between requests `m` and `nv` are the tables and nothing is ahead. A
mapping update is a *detach* (the old reference goes) and an *attach*
(the reference and the record that are ahead are taken into the map),
around whatever the code does in between.
-/
import FemuRemap.Proofs.Pages

namespace FemuRemap

open Lib

variable {c : Conf} {s s' : Ssd} {q o L : Nat}

-- ============================================================== lists

/-- Removing one occurrence, without subtraction. -/
theorem count_erase_add (l : List Nat) {a : Nat} (ha : a ∈ l) (x : Nat) :
    (l.erase a).count x + ind (x = a) = l.count x := by
  by_cases hx : x = a
  · subst hx
    have := List.count_pos_iff.2 ha
    rw [List.count_erase_self, ind_true rfl]
    omega
  · rw [List.count_erase_of_ne hx, ind_false hx, Nat.add_zero]

/-- The inverse lists are those of `m`, with `x` ahead of it. -/
structure Maps (c : Conf) (m : Nat → Option Nat)
    (x : Option (Nat × Nat)) (s : Ssd) : Prop where
  count : ∀ q, q < c.pageMappingEntryNb → ∀ L,
    (s.refs q).count L = ind (m L = some q) + ind (x = some (q, L))
  bound : ∀ L q, m L = some q →
    q < c.pageMappingEntryNb ∧ L < c.pageMappingEntryNb

variable {m : Nat → Option Nat} {x : Option (Nat × Nat)}

theorem Maps.congr (h : Maps c m x s) (hr : ∀ q, s'.refs q = s.refs q) :
    Maps c m x s' :=
  ⟨fun q hq L => by rw [hr]; exact h.count q hq L, h.bound⟩

/-- A mapped lpn is recorded at its page. -/
theorem Maps.mem_refs (h : Maps c m x s) (hL : m L = some q) :
    L ∈ s.refs q := by
  have := h.count q (h.bound L q hL).1 L
  rw [ind_true hL] at this
  exact List.count_pos_iff.1 (by omega)

/-- With none set aside, exactly the mapped ones are, -/
theorem Maps.mem_iff (h : Maps c m none s)
    (hq : q < c.pageMappingEntryNb) : L ∈ s.refs q ↔ m L = some q := by
  have hc := h.count q hq L
  rw [ind_false (P := none = some (q, L)) (by simp)] at hc
  by_cases hm : m L = some q
  · exact ⟨fun _ => hm, fun _ => h.mem_refs hm⟩
  · rw [ind_false hm] at hc
    rw [← List.count_pos_iff, hc]
    simp [hm]

/-- each once. -/
theorem Maps.nodup (h : Maps c m none s)
    (hq : q < c.pageMappingEntryNb) : (s.refs q).Nodup := by
  rw [List.nodup_iff_count_le_one]
  intro L
  rw [h.count q hq L, ind_false (P := none = some (q, L)) (by simp)]
  have := ind_le (m L = some q)
  omega

/-- A reference is entered. -/
theorem Maps.share (h : Maps c m none s)
    (hr : ∀ x, s'.refs x = if x = q then s.refs q ++ [L] else s.refs x) :
    Maps c m (some (q, L)) s' := by
  refine ⟨fun y hy K => ?_, h.bound⟩
  have hc := h.count y hy K
  rw [ind_false (P := none = some (y, K)) (by simp)] at hc
  rw [hr]
  by_cases hyq : y = q
  · subst hyq
    rw [if_pos rfl, List.count_append, hc, List.count_singleton]
    by_cases hK : L = K
    · subst hK
      simp
    · have : ¬ (some (y, L) = some (y, K)) := by simp [hK]
      simp [hK]
  · have : ¬ (some (q, L) = some (y, K)) := by
      simp only [Option.some.injEq, Prod.mk.injEq, not_and]
      exact fun he => absurd he.symm hyq
    rw [if_neg hyq, hc, ind_false this]

/-- The old reference of an lpn goes. -/
theorem Maps.detach (h : Maps c m x s) (hL : m L = some o)
    (hr : ∀ q, s'.refs q
      = if q = o then (s.refs o).erase L else s.refs q) :
    Maps c (Function.update m L none) x s' := by
  have hmem := h.mem_refs hL
  constructor
  · intro q hq K
    have hc := h.count q hq K
    rw [hr]
    -- the lpn's own count at its page goes down by one, every other stays
    by_cases hK : K = L
    · subst hK
      rw [Function.update_self, ind_false (P := none = some q) (by simp)]
      rw [hL] at hc
      split
      · next hqo =>
          subst hqo
          have := count_erase_add (s.refs q) hmem K
          rw [ind_true rfl] at hc this
          omega
      · next hqo =>
          rw [hc, ind_false]
          simp only [Option.some.injEq]
          exact fun he => hqo he.symm
    · rw [Function.update_of_ne hK, ← hc]
      split
      · next hqo =>
          rw [hqo, List.count_erase_of_ne hK]
      · rfl
  · intro K q hK
    by_cases hKL : K = L
    · subst hKL
      simp [Function.update_self] at hK
    · rw [Function.update_of_ne hKL] at hK
      exact h.bound K q hK

/-- The reference that is ahead is taken into the map. -/
theorem Maps.attach (h : Maps c m (some (q, L)) s) (hm : m L = none)
    (hq : q < c.pageMappingEntryNb) (hL : L < c.pageMappingEntryNb) :
    Maps c (Function.update m L (some q)) none s := by
  constructor
  · intro y hy K
    rw [h.count y hy K, ind_false (P := none = some (y, K)) (by simp)]
    by_cases hK : K = L
    · subst hK
      rw [Function.update_self, hm,
        ind_false (P := none = some y) (by simp)]
      have : (some (q, K) = some (y, K)) ↔ some q = some y := by simp
      rw [ind_congr this]
      omega
    · rw [Function.update_of_ne hK, ind_false (P := some (q, L) = _)]
      simp only [Option.some.injEq, Prod.mk.injEq, not_and]
      exact fun _ he => hK he.symm
  · intro K y hK
    by_cases hKL : K = L
    · subst hKL
      rw [Function.update_self, Option.some.injEq] at hK
      exact ⟨hK ▸ hq, hL⟩
    · rw [Function.update_of_ne hKL] at hK
      exact h.bound K y hK

-- ============================================================ records

/-- The lpns whose NVRAM record belongs to superblock `b`. -/
def nvramRefs (c : Conf) (m : Nat → Option Nat) (nv : Nat → Int)
    (b : Nat) : Nat :=
  tally c.pageMappingEntryNb fun L =>
    ind (nv L = 1 ∧ (m L).map (blockOf c) = some b)

/-- Where the record of a reference is: in the flash (`0`), for at most
one reference of a page, or in the NVRAM (`1`). -/
structure Flags (m : Nat → Option Nat) (nv : Nat → Int) : Prop where
  flag : ∀ L q, m L = some q → nv L = 0 ∨ nv L = 1
  single : ∀ L L' q, m L = some q → m L' = some q → nv L = 0 →
    nv L' = 0 → L = L'

/-- Every reference of `m` has one record, flagged by `nv`; those in the
NVRAM are the live entries of the superblock. -/
structure Records (c : Conf) (out : List Nat) (m : Nat → Option Nat)
    (nv : Nat → Int) (y : Option Nat) (n : Nvram) : Prop
    extends Flags m nv where
  entries : ∀ b, b < c.blockNb → b ∉ out →
    stored c (n.oobTable b) - (n.oobTable b).invalidEntry
      = (nvramRefs c m nv b + ind (y = some b) : Nat)
  cleared : ∀ b, b ∈ out → n.oobTable b = ⟨0, 0, 0⟩

variable {nv : Nat → Int} {y : Option Nat} {n n' : Nvram} {out : List Nat}
  {b : Nat}

/-- An unmapped lpn is not asked for. -/
theorem Flags.detach (h : Flags m nv) (L : Nat) :
    Flags (Function.update m L none) nv := by
  have hof : ∀ K q, Function.update m L none K = some q →
      m K = some q := by
    intro K q hK
    rcases eq_or_ne K L with rfl | hKL
    · simp [Function.update_self] at hK
    · rwa [Function.update_of_ne hKL] at hK
  exact ⟨fun K q hK => h.flag K q (hof K q hK),
    fun K K' q hK hK' => h.single K K' q (hof K q hK) (hof K' q hK')⟩

/-- A reference with its record in the NVRAM. -/
theorem Flags.attach_nvram (h : Flags m nv) (L q : Nat) :
    Flags (Function.update m L (some q)) (Function.update nv L 1) := by
  refine ⟨fun K y hK => ?_, fun K K' y hK hK' hf hf' => ?_⟩
  · rcases eq_or_ne K L with rfl | hKL
    · exact .inr (by rw [Function.update_self])
    · rw [Function.update_of_ne hKL] at hK ⊢
      exact h.flag K y hK
  · rcases eq_or_ne K L with rfl | hKL
    · simp [Function.update_self] at hf
    · rcases eq_or_ne K' L with rfl | hKL'
      · simp [Function.update_self] at hf'
      · rw [Function.update_of_ne hKL] at hK hf
        rw [Function.update_of_ne hKL'] at hK' hf'
        exact h.single K K' y hK hK' hf hf'

/-- A reference with its record in the flash page, the first of its
page. -/
theorem Flags.attach_flash (h : Flags m nv) (L : Nat)
    (hq : ∀ K, m K ≠ some q) :
    Flags (Function.update m L (some q)) (Function.update nv L 0) := by
  refine ⟨fun K y hK => ?_, fun K K' y hK hK' hf hf' => ?_⟩
  · rcases eq_or_ne K L with rfl | hKL
    · exact .inl (by rw [Function.update_self])
    · rw [Function.update_of_ne hKL] at hK ⊢
      exact h.flag K y hK
  · by_cases hKL : K = L <;> by_cases hKL' : K' = L
    · rw [hKL, hKL']
    · rw [hKL, Function.update_self, Option.some.injEq] at hK
      rw [Function.update_of_ne hKL', ← hK] at hK'
      exact absurd hK' (hq K')
    · rw [hKL', Function.update_self, Option.some.injEq] at hK'
      rw [Function.update_of_ne hKL, ← hK'] at hK
      exact absurd hK (hq K)
    · rw [Function.update_of_ne hKL] at hK hf
      rw [Function.update_of_ne hKL'] at hK' hf'
      exact h.single K K' y hK hK' hf hf'

/-- Only the table of segments matters. -/
theorem Records.congr (h : Records c out m nv y n)
    (ht : ∀ b, n'.oobTable b = n.oobTable b) :
    Records c out m nv y n' :=
  { h with
    entries := fun b hb ho => by rw [ht]; exact h.entries b hb ho
    cleared := fun b hb => by rw [ht]; exact h.cleared b hb }

/-- The NVRAM references after one lpn changed. -/
theorem nvramRefs_update (m m' : Nat → Option Nat) (nv nv' : Nat → Int)
    (hL : L < c.pageMappingEntryNb)
    (hm : ∀ K, K ≠ L → m' K = m K ∧ nv' K = nv K) (b : Nat) :
    nvramRefs c m' nv' b
        + ind (nv L = 1 ∧ (m L).map (blockOf c) = some b)
      = nvramRefs c m nv b
        + ind (nv' L = 1 ∧ (m' L).map (blockOf c) = some b) := by
  refine tally_set
    (g := fun L => ind (nv L = 1 ∧ (m L).map (blockOf c) = some b))
    (f := fun L => ind (nv' L = 1 ∧ (m' L).map (blockOf c) = some b))
    hL ?_
  intro K _ hK
  obtain ⟨h₁, h₂⟩ := hm K hK
  rw [h₁, h₂]

/-- Detaching `L` takes its NVRAM reference away, if it had one. -/
theorem nvramRefs_detach (nv : Nat → Int)
    (hL : L < c.pageMappingEntryNb) (hm : m L = some o) (b : Nat) :
    nvramRefs c (Function.update m L none) nv b
        + ind (nv L = 1 ∧ blockOf c o = b)
      = nvramRefs c m nv b := by
  have h := nvramRefs_update m (Function.update m L none) nv nv hL
    (fun K hK => ⟨Function.update_of_ne hK _ _, rfl⟩) b
  rw [hm, Function.update_self] at h
  simpa using h

/-- Attaching `L` with flag `w`. -/
theorem nvramRefs_attach (nv : Nat → Int)
    (hL : L < c.pageMappingEntryNb) (hm : m L = none) (q : Nat) (w : Int)
    (b : Nat) :
    nvramRefs c (Function.update m L (some q)) (Function.update nv L w) b
      = nvramRefs c m nv b + ind (w = 1 ∧ blockOf c q = b) := by
  have h := nvramRefs_update m (Function.update m L (some q)) nv
    (Function.update nv L w) hL (fun K hK => ⟨Function.update_of_ne hK _ _,
      Function.update_of_ne hK _ _⟩) b
  rw [hm, Function.update_self, Function.update_self] at h
  simpa using h

/-- The reference of `L` goes, and its entry is marked invalid. -/
theorem Records.detach_nvram (h : Records c out m nv y n)
    (hL : L < c.pageMappingEntryNb) (hm : m L = some o)
    (hnv : nv L = 1) (ho : blockOf c o ∉ out)
    (ht : ∀ x, n'.oobTable x = if x = blockOf c o
      then { n.oobTable x with
        invalidEntry := (n.oobTable x).invalidEntry + 1 }
      else n.oobTable x) :
    Records c out (Function.update m L none) nv y n' where
  toFlags := h.toFlags.detach L
  entries x hx hxo := by
    have h₁ := h.entries x hx hxo
    have h₂ := nvramRefs_detach nv hL hm x
    rw [ht]
    by_cases hxb : x = blockOf c o
    · rw [ind_true ⟨hnv, hxb.symm⟩] at h₂
      rw [if_pos hxb]
      simp only [stored] at h₁ ⊢
      omega
    · rw [ind_false fun hc => hxb hc.2.symm] at h₂
      rw [if_neg hxb]
      omega
  cleared x hx := by
    rw [ht, if_neg (by rintro rfl; exact ho hx)]
    exact h.cleared x hx

/-- The reference of `L` goes with no entry to mark: its record is in
the flash, or its superblock's segments were released. -/
theorem Records.detach_keep (h : Records c out m nv y n)
    (hL : L < c.pageMappingEntryNb) (hm : m L = some o)
    (ho : nv L ≠ 1 ∨ blockOf c o ∈ out) :
    Records c out (Function.update m L none) nv y n where
  toFlags := h.toFlags.detach L
  entries x hx hxo := by
    have h₁ := h.entries x hx hxo
    have h₂ := nvramRefs_detach nv hL hm x
    have h₃ : ¬ (nv L = 1 ∧ blockOf c o = x) := by
      rintro ⟨hnv, rfl⟩
      exact ho.elim (fun h => h hnv) hxo
    rw [ind_false h₃] at h₂
    omega
  cleared := h.cleared

/-- The entry stored ahead becomes the record of `L`. -/
theorem Records.attach_nvram
    (h : Records c out m nv (some (blockOf c q)) n)
    (hL : L < c.pageMappingEntryNb) (hm : m L = none) :
    Records c out (Function.update m L (some q))
      (Function.update nv L 1) none n where
  toFlags := h.toFlags.attach_nvram L q
  entries x hx hxo := by
    have h₁ := h.entries x hx hxo
    have h₂ := nvramRefs_attach nv hL hm q 1 x
    have h₃ : ind ((1 : Int) = 1 ∧ blockOf c q = x)
        = ind (some (blockOf c q) = some x) := ind_congr (by simp)
    rw [h₁, h₂, h₃, ind_false (P := none = some x) (by simp)]
    rfl
  cleared := h.cleared

/-- `L` is the first reference of its page: the record is there. -/
theorem Records.attach_flash (h : Records c out m nv none n)
    (hL : L < c.pageMappingEntryNb) (hm : m L = none)
    (hq : ∀ K, m K ≠ some q) :
    Records c out (Function.update m L (some q))
      (Function.update nv L 0) none n where
  toFlags := h.toFlags.attach_flash L hq
  entries x hx hxo := by
    have h₁ := h.entries x hx hxo
    have h₂ := nvramRefs_attach nv hL hm q 0 x
    rw [ind_false (by simp)] at h₂
    rw [h₁, h₂]
    rfl
  cleared := h.cleared

-- ========================================================= segments

/-- An entry is stored ahead of its reference. -/
theorem Records.store (h : Records c out m nv none n) (ho : b ∉ out)
    (ht : ∀ x, n'.oobTable x
      = if x = b then putEntry c (n.oobTable b) else n.oobTable x) :
    Records c out m nv (some b) n' where
  toFlags := h.toFlags
  entries x hx hxo := by
    have h₁ := h.entries x hx hxo
    rw [ind_false (P := none = some x) (by simp)] at h₁
    rw [ht]
    by_cases hxb : x = b
    · subst hxb
      obtain ⟨h₂, h₃⟩ := stored_putEntry (c := c) (n.oobTable x)
      rw [if_pos rfl, h₂, h₃, ind_true rfl]
      omega
    · rw [if_neg hxb, h₁, ind_false (by simpa using fun he => hxb he.symm)]
  cleared x hx := by
    rw [ht, if_neg (by rintro rfl; exact ho hx)]
    exact h.cleared x hx

/-- A collection releases the segments of its victim. -/
theorem Records.release (h : Records c [] m nv none n)
    (ht : ∀ x, n'.oobTable x
      = if x = b then ⟨0, 0, 0⟩ else n.oobTable x) :
    Records c [b] m nv none n' where
  toFlags := h.toFlags
  entries x hx hxo := by
    rw [ht, if_neg (by simpa using hxo)]
    exact h.entries x hx (by simp)
  cleared x hx := by
    rw [ht, if_pos (by simpa using hx)]

/-- Once nothing maps into the victim, its released segments are its
records. -/
theorem Records.settle (h : Records c [b] m nv none n)
    (hb : ∀ L q, m L = some q → blockOf c q ≠ b) :
    Records c [] m nv none n where
  toFlags := h.toFlags
  entries x hx _ := by
    by_cases hxb : x = b
    · subst hxb
      have hz : nvramRefs c m nv x = 0 := by
        refine tally_eq_zero fun L _ => ind_false ?_
        rintro ⟨-, hL⟩
        cases hm : m L with
        | none => simp [hm] at hL
        | some q => exact hb L q hm (by simpa [hm] using hL)
      rw [h.cleared x (by simp), hz]
      simp [stored]
    · exact h.entries x hx (by simpa using hxb)
  cleared x hx := absurd hx (by simp)

end FemuRemap
