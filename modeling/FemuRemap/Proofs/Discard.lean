/-
What a discard drops: the pages that its sectors touch, whether it covers
them or not.

`Consistent` is what `femu_discard_process` needs of a state, and what
every run without wrapped counts gives it; the geometry does not enter.
From such a state one lpn after the other is dropped (`Dropped`), and the
drops of a request compose. A page that the range covers in part is
dropped as well, after a diagnostic, and that is the only way in which
the pages dropped differ from the pages covered.
-/
import FemuRemap.Proofs.Agreement
import FemuRemap.Proofs.CutLoops
import FemuRemap.Proofs.Effects

namespace FemuRemap

open Lib Cutting

variable {c : Conf} {s s' s'' : Ssd} {D E : List Nat} {L : Nat}

-- ========================================================= one lpn

/-- The map, the lists and the counts of a state agree, and no count is
larger than an `int8_t`. -/
structure Consistent (c : Conf) (s : Ssd) : Prop where
  target : ∀ L P, s.mappingTable L = some P → P < c.pageMappingEntryNb
  lists : ∀ P, P < c.pageMappingEntryNb → ∀ L,
    (s.refs P).count L = if s.mappingTable L = some P then 1 else 0
  cnt : ∀ P, P < c.pageMappingEntryNb →
    (s.inverseMappingTable P).lpnCnt = (s.refs P).length
  few : ∀ P, P < c.pageMappingEntryNb → (s.refs P).length ≤ 127
  live : ∀ P, P < c.pageMappingEntryNb → s.refs P ≠ [] →
    s.valid c P = (s.refs P).length

/-- In a run without wrapped counts every state is. -/
theorem Reach.consistent {tr : List Event} (g : Geo c) (h : Reach c s tr)
    (hr : ∀ e ∈ tr, NoWrap e) : Consistent c s := by
  obtain ⟨⟨p, hp⟩, -⟩ := h.visited.sound g hr
  exact
    { target := fun L P hL => (hp.maps.bound L P hL).1
      lists := hp.agrees.lists
      cnt := hp.pages.cnt
      few := hp.pages.le
      live := fun P hP hne => hp.pages.live P hP id hne }

namespace Consistent

/-- The lpns recorded at a page are those mapped to it, -/
theorem mem_iff (h : Consistent c s) {P : Nat}
    (hP : P < c.pageMappingEntryNb) :
    L ∈ s.refs P ↔ s.mappingTable L = some P := by
  rw [← List.count_pos_iff, h.lists P hP L]
  split <;> simp_all

/-- each once. -/
theorem nodup (h : Consistent c s) {P : Nat}
    (hP : P < c.pageMappingEntryNb) : (s.refs P).Nodup := by
  refine List.nodup_iff_count_le_one.2 fun L => ?_
  rw [h.lists P hP L]
  split <;> decide

end Consistent

/-- `valid_array` of a page that had `n` references and has `n'`. -/
def recount (v : Int) (n n' : Nat) : Int :=
  if n' = n then v else if n' = 0 then -1 else n'

/-- Counted down twice is counted down once. -/
theorem recount_trans {v : Int} {n n' n'' : Nat} (h : n' ≤ n)
    (h' : n'' ≤ n') :
    recount (recount v n n') n' n'' = recount v n n'' := by
  unfold recount
  split
  · next heq => rw [heq]
  · next hne =>
      rw [if_neg (by omega : n'' ≠ n)]

/-- The lpns of `D` are unmapped and gone from the lists. -/
structure Dropped (c : Conf) (D : List Nat) (s s' : Ssd) : Prop where
  mapping : ∀ L, s'.mappingTable L
    = if L ∈ D then none else s.mappingTable L
  refs : ∀ P, P < c.pageMappingEntryNb →
    s'.refs P = (s.refs P).filter (· ∉ D)
  cnt : ∀ P, P < c.pageMappingEntryNb →
    (s'.inverseMappingTable P).lpnCnt = (s'.refs P).length
  valid : ∀ P, P < c.pageMappingEntryNb →
    s'.valid c P
      = recount (s.valid c P) (s.refs P).length (s'.refs P).length
  inNvram : s'.inNvram = s.inNvram

namespace Dropped

theorem nil (h : Consistent c s) : Dropped c [] s s where
  mapping _ := by simp
  refs _ _ := by simp
  cnt := h.cnt
  valid P _ := by simp [recount]
  inNvram := rfl

/-- Dropping adds no lpn to a page. -/
theorem length_le (h : Dropped c D s s') {P : Nat}
    (hP : P < c.pageMappingEntryNb) :
    (s'.refs P).length ≤ (s.refs P).length := by
  rw [h.refs P hP]
  exact List.length_filter_le _ _

theorem trans (h : Dropped c D s s') (h' : Dropped c E s' s'') :
    Dropped c (D ++ E) s s'' where
  mapping L := by
    rw [h'.mapping, h.mapping]
    by_cases hD : L ∈ D <;> by_cases hE : L ∈ E <;> simp [hD, hE]
  refs P hP := by
    rw [h'.refs P hP, h.refs P hP, List.filter_filter]
    refine List.filter_congr fun L _ => ?_
    by_cases hD : L ∈ D <;> by_cases hE : L ∈ E <;> simp [hD, hE]
  cnt := h'.cnt
  valid P hP := by
    rw [h'.valid P hP, h.valid P hP,
      recount_trans (h.length_le hP) (h'.length_le hP)]
  inNvram := h'.inNvram.trans h.inNvram

theorem consistent (h : Dropped c D s s') (hc : Consistent c s) :
    Consistent c s' where
  target L P hL := by
    rw [h.mapping] at hL
    split at hL
    · cases hL
    · exact hc.target L P hL
  lists P hP L := by
    rw [h.refs P hP, h.mapping]
    by_cases hD : L ∈ D
    · rw [List.count_eq_zero_of_not_mem (by simp [hD])]
      simp [hD]
    · rw [List.count_filter (by simpa using hD), hc.lists P hP L,
        if_neg hD]
  cnt := h.cnt
  few P hP := Nat.le_trans (h.length_le hP) (hc.few P hP)
  live P hP hne := by
    have hle := h.length_le hP
    have hpos := List.length_pos_iff.2 hne
    have hlive := hc.live P hP fun hnil => by
      rw [hnil] at hle
      simp only [List.length_nil] at hle
      omega
    rw [h.valid P hP, recount]
    split
    · next heq => rw [heq, hlive]
    · rw [if_neg (by omega)]

end Dropped

/-- A program that ends normally, whatever it reports. -/
abbrev Completes {α : Type} (m : Ftl α) (s : Ssd) (Q : α → Ssd → Prop) :
    Prop :=
  Sat anyEvent anyEvent m s Q fun _ _ => False

theorem Completes.run {α : Type} {m : Ftl α} {Q : α → Ssd → Prop}
    (h : Completes m s Q) : ∃ a, (m s).res = .ok a ∧ Q a (m s).st := by
  have hend := (h fun _ _ => trivial).2
  cases hres : (m s).res with
  | ok a => rw [hres] at hend; exact ⟨a, rfl, hend⟩
  | error e => rw [hres] at hend; exact hend.elim

/-- An unmapped lpn is recorded nowhere. -/
theorem Consistent.not_mem (h : Consistent c s)
    (hL : s.mappingTable L = none) {P : Nat}
    (hP : P < c.pageMappingEntryNb) : L ∉ s.refs P := by
  rw [h.mem_iff hP, hL]
  exact nofun

/-- Dropping an lpn that is not mapped. -/
theorem Consistent.dropped_unmapped (h : Consistent c s)
    (hL : s.mappingTable L = none) :
    Dropped c [L] s { s with mappingTable := s.mappingTable.set L none } where
  mapping K := by
    rw [Table.get_set]
    simp
  refs P hP := by
    refine (List.filter_eq_self.2 fun K hK => ?_).symm
    have hne : K ≠ L := fun he => h.not_mem hL hP (he ▸ hK)
    simpa using hne
  cnt := h.cnt
  valid P _ := by
    show s.valid c P = recount (s.valid c P) _ (s.refs P).length
    simp [recount]
  inNvram := rfl

/-- Dropping one that is, from its page `P`. -/
theorem Consistent.dropped_mapped (h : Consistent c s) {P : Nat}
    (hL : s.mappingTable L = some P)
    (hmap : s'.mappingTable = s.mappingTable.set L none)
    (hinv : s'.inverseMappingTable = s.inverseMappingTable.set P
      ⟨((s.refs P).erase L).length, (s.refs P).erase L⟩)
    (hval : ∀ q, s'.valid c q = if q = P
      then (if s.valid c P = 1 then -1 else s.valid c P - 1)
      else s.valid c q)
    (hnv : s'.inNvram = s.inNvram) : Dropped c [L] s s' := by
  have hP := h.target L P hL
  have hmem := (h.mem_iff hP).2 hL
  have hlen := List.length_erase_of_mem hmem
  have hpos := List.length_pos_of_mem hmem
  have hrefs : ∀ q, s'.refs q
      = if q = P then (s.refs P).erase L else s.refs q := by
    intro q
    unfold Ssd.refs
    rw [hinv, Table.get_set]
    split <;> rfl
  refine ⟨fun K => ?_, fun q hq => ?_, fun q hq => ?_, fun q hq => ?_, hnv⟩
  · rw [hmap, Table.get_set]
    simp
  · rw [hrefs]
    split
    · next he =>
        rw [he, (h.nodup hP).erase_eq_filter]
        refine List.filter_congr fun K _ => ?_
        by_cases hK : K = L <;> simp [hK]
    · next hne =>
        refine (List.filter_eq_self.2 fun K hK => ?_).symm
        -- an lpn of another page is another lpn
        have hKL : K ≠ L := by
          rintro rfl
          have hq' := (h.mem_iff hq).1 hK
          rw [hL] at hq'
          exact hne (Option.some.inj hq').symm
        simpa using hKL
  · rw [hrefs, hinv, Table.get_set]
    split
    · rfl
    · exact h.cnt q hq
  · rw [hval, hrefs]
    split
    · next he =>
        rw [he, h.live P hP (List.ne_nil_of_mem hmem), hlen]
        unfold recount
        split <;> split <;> omega
    · simp [recount]

/-- The two states have the same map, lists, page states and flags. -/
structure SameMaps (s s' : Ssd) : Prop where
  mapping : s'.mappingTable = s.mappingTable
  inverse : s'.inverseMappingTable = s.inverseMappingTable
  blocks : s'.blockStateTable = s.blockStateTable
  inNvram : s'.inNvram = s.inNvram

/-- The NVRAM is not one of the maps. -/
theorem increaseInvalidOobEntryCount_sameMaps (b : Nat) :
    Completes (increaseInvalidOobEntryCount c b) s fun _ s' =>
      SameMaps s s' := by
  unfold increaseInvalidOobEntryCount
  split
  · exact Sat.emit fun _ => ⟨trivial, rfl, rfl, rfl, rfl⟩
  · exact Sat.modify ⟨rfl, rfl, rfl, rfl⟩

/-- The lpn is off the list of its page, and the page has one reference
less. -/
def unlinked (c : Conf) (P L : Nat) (s : Ssd) : Ssd :=
  setValid c P (if s.valid c P = 1 then -1 else s.valid c P - 1)
    (statInvalid (s.valid c P) s.stat) (setRefs P ((s.refs P).erase L) s)

/-- The lpn leaves its old page, which dies when it was the last one there. -/
theorem Sized.updateOldPageMapping_unlinks (g : Sized c)
    (h : Consistent c s) {P : Nat} (hL : s.mappingTable L = some P) :
    Completes (updateOldPageMapping c L) s fun _ s' =>
      SameMaps (unlinked c P L s) s' := by
  have hP := h.target L P hL
  have hmem := (h.mem_iff hP).2 hL
  have hlive := h.live P hP (List.ne_nil_of_mem hmem)
  have hpos := List.length_pos_of_mem hmem
  have hfew := h.few P hP
  have hpage := g.updatePageState_invalid_eq
    (s := setRefs P ((s.refs P).erase L) s) hP
    (show 0 < s.valid c P by omega) (show s.valid c P ≤ 127 by omega)
  unfold updateOldPageMapping
  refine Sat.get_bind ?_
  rw [hL]
  refine Sat.silent_bind
    (decreaseInverseMapping_eq (h.cnt P hP) hfew hmem) ?_
  refine Sat.bind (R := fun _ s₁ => s₁ = unlinked c P L s) ?_ ?_
  · unfold Sat
    rw [hpage]
    exact fun _ => ⟨fun _ _ => trivial, rfl⟩
  · rintro _ _ rfl
    refine Sat.get_bind ?_
    split
    · exact increaseInvalidOobEntryCount_sameMaps _
    · exact Sat.pure ⟨rfl, rfl, rfl, rfl⟩

/-- `UPDATE_OLD_PAGE_MAPPING; mapping_table[lpn] = -1`. -/
theorem Sized.unmapLpn_dropped (g : Sized c) (h : Consistent c s)
    (L : Nat) :
    Completes (unmapLpn c L) s fun _ s' => Dropped c [L] s s' := by
  unfold unmapLpn
  cases hL : s.mappingTable L with
  | none =>
      refine Sat.bind (R := fun _ s₁ => s₁ = s) ?_ ?_
      · unfold updateOldPageMapping
        refine Sat.get_bind ?_
        rw [hL]
        exact Sat.pure rfl
      · rintro _ _ rfl
        exact Sat.modify (h.dropped_unmapped hL)
  | some P =>
      refine Sat.bind (g.updateOldPageMapping_unlinks h hL) ?_
      intro _ s₁ hs₁
      refine Sat.modify (h.dropped_mapped hL ?_ hs₁.inverse (fun q => ?_)
        hs₁.inNvram)
      · show s₁.mappingTable.set L none = s.mappingTable.set L none
        rw [hs₁.mapping]
        rfl
      · have hvalid := g.valid_setValid (h.target L P hL)
          (if s.valid c P = 1 then -1 else s.valid c P - 1)
          (statInvalid (s.valid c P) s.stat)
          (setRefs P ((s.refs P).erase L) s) q
        rw [← unlinked] at hvalid
        unfold Ssd.valid at hvalid ⊢
        rw [show Ssd.blockStateTable _ = (unlinked c P L s).blockStateTable
          from hs₁.blocks]
        exact hvalid

-- ==================================================== one request

/-- The lpns of the slots of a request. -/
def discardLpns (c : Conf) (sectorNb length : Nat) : List Nat :=
  (slots c sectorNb length).map (·.lpn)

/-- The loop over the pages of the range. -/
theorem Sized.femuDiscardProcess_dropped (g : Sized c)
    (h : Consistent c s) {sectorNb length : Nat}
    (hle : sectorNb + length ≤ c.sectorNb) :
    Completes (femuDiscardProcess c length sectorNb) s fun r s' =>
      r = .success ∧ Dropped c (discardLpns c sectorNb length) s s' := by
  unfold femuDiscardProcess
  rw [if_neg (Nat.not_lt.2 hle)]
  refine Sat.bind (Sat.each
    (fun done s' => Dropped c (done.map (·.lpn)) s s') ?_ (.nil h)) ?_
  · intro done slot rest s' _ hdone
    refine Sat.bind (R := fun _ s₁ => s₁ = s') ?_ ?_
    · unfold printErrorIf
      split
      · exact Sat.emit fun _ => ⟨trivial, rfl⟩
      · exact Sat.pure rfl
    · rintro _ _ rfl
      refine Sat.mono (g.unmapLpn_dropped (hdone.consistent h) slot.lpn)
        (fun _ s'' hs'' => ?_) fun _ _ => id
      rw [List.map_append]
      exact hdone.trans hs''
  · exact fun _ _ hs' => Sat.pure ⟨rfl, hs'⟩

-- ==================================================== pages and sectors

/-- All sectors of the page lie in the range. -/
def Covered (c : Conf) (sectorNb length L : Nat) : Prop :=
  ∀ k, k < c.sectorsPerPage → sectorNb ≤ L * c.sectorsPerPage + k ∧
    L * c.sectorsPerPage + k < sectorNb + length

instance (c : Conf) (sectorNb length L : Nat) :
    Decidable (Covered c sectorNb length L) :=
  Nat.decidableBallLT _ _

/-- Some sector of it does. -/
def Touched (c : Conf) (sectorNb length L : Nat) : Prop :=
  ∃ k, k < c.sectorsPerPage ∧ sectorNb ≤ L * c.sectorsPerPage + k ∧
    L * c.sectorsPerPage + k < sectorNb + length

/-- A page that is covered is touched. -/
theorem Covered.touched {sectorNb length : Nat}
    (hspp : 0 < c.sectorsPerPage) (h : Covered c sectorNb length L) :
    Touched c sectorNb length L := ⟨0, hspp, h 0 hspp⟩

/-- The pages touched, by the number of the first and of the last. -/
theorem touched_iff {sectorNb length : Nat} (hspp : 0 < c.sectorsPerPage) :
    Touched c sectorNb length L ↔
      0 < length ∧ sectorNb / c.sectorsPerPage ≤ L ∧
        L ≤ (sectorNb + length - 1) / c.sectorsPerPage := by
  have hfirst : sectorNb / c.sectorsPerPage ≤ L ↔
      sectorNb < L * c.sectorsPerPage + c.sectorsPerPage := by
    rw [← Nat.lt_add_one_iff, Nat.div_lt_iff_lt_mul hspp, Nat.succ_mul]
  rw [hfirst, Nat.le_div_iff_mul_le hspp]
  constructor
  · rintro ⟨k, hk, hlo, hhi⟩
    omega
  · rintro ⟨hlen, hlo, hhi⟩
    exact ⟨sectorNb - L * c.sectorsPerPage, by omega, by omega, by omega⟩

/-- A discard visits the pages that it touches. -/
theorem mem_discardLpns {sectorNb length : Nat}
    (hspp : 0 < c.sectorsPerPage) (hint : c.sectorsPerPage < 2 ^ 31)
    (hlen : length < 2 ^ 32) (hend : sectorNb + length < 2 ^ 63) :
    L ∈ discardLpns c sectorNb length ↔ Touched c sectorNb length L := by
  obtain ⟨l, _, -, hexact, hslots⟩ := slots_exact c hspp hint hlen hend
  have hlpns : discardLpns c sectorNb length
      = List.range' (sectorNb / c.sectorsPerPage)
        (pageSpan c.sectorsPerPage sectorNb length) := by
    have hmap := congrArg (List.map Int.toNat) hexact.lpns
    rw [List.map_map, List.map_map] at hmap
    rw [discardLpns, ← hslots, List.map_map]
    refine Eq.trans hmap ?_
    exact List.map_id _
  rw [hlpns, List.mem_range'_1, touched_iff hspp, pageSpan]
  split
  · omega
  · have hle : sectorNb / c.sectorsPerPage
        ≤ (sectorNb + length - 1) / c.sectorsPerPage :=
      Nat.div_le_div_right (by omega)
    omega

-- ================================================== exactly the covered

/-- A discard drops the pages it covers and nothing else. -/
structure DropsExactly (c : Conf) (sectorNb length : Nat) (s s' : Ssd) :
    Prop where
  unmapped : ∀ L P, s.mappingTable L = some P →
    (s'.mappingTable L = none ↔ Covered c sectorNb length L)
  others : ∀ L, ¬ Covered c sectorNb length L →
    s'.mappingTable L = s.mappingTable L
  refs : ∀ P, P < c.pageMappingEntryNb →
    s'.refs P = (s.refs P).filter (¬ Covered c sectorNb length ·)
  lpnCnt : ∀ P, P < c.pageMappingEntryNb →
    (s'.inverseMappingTable P).lpnCnt = (s.inverseMappingTable P).lpnCnt
      - ((s.refs P).filter (Covered c sectorNb length ·)).length
  /-- The count falls by the lpns unmapped; at none it is `-1`. -/
  valid : ∀ P, P < c.pageMappingEntryNb →
    s'.valid c P =
      if (s.refs P).filter (Covered c sectorNb length ·) = [] then
        s.valid c P
      else if s'.refs P = [] then -1
      else s.valid c P
        - ((s.refs P).filter (Covered c sectorNb length ·)).length
  inNvram : ∀ L, s'.inNvram L = s.inNvram L

/-- What was dropped, in the terms of the range. -/
theorem Dropped.exactly {sectorNb length : Nat} (h : Consistent c s)
    (hd : Dropped c D s s')
    (hD : ∀ L P, s.mappingTable L = some P →
      (L ∈ D ↔ Covered c sectorNb length L)) :
    DropsExactly c sectorNb length s s' := by
  have hrefs : ∀ P, P < c.pageMappingEntryNb →
      s'.refs P = (s.refs P).filter (¬ Covered c sectorNb length ·) := by
    intro P hP
    rw [hd.refs P hP]
    refine List.filter_congr fun L hL => ?_
    simp only [decide_eq_decide]
    exact not_congr (hD L P ((h.mem_iff hP).1 hL))
  -- the lpns of a page are those covered and those left
  have hsplit : ∀ P, P < c.pageMappingEntryNb →
      ((s.refs P).filter (Covered c sectorNb length ·)).length
        + (s'.refs P).length = (s.refs P).length := by
    intro P hP
    rw [hrefs P hP]
    have hsum := List.length_eq_length_filter_add (l := s.refs P)
      (Covered c sectorNb length ·)
    simp only [decide_not]
    omega
  refine ⟨fun L P hL => ?_, fun L hL => ?_, hrefs, fun P hP => ?_,
    fun P hP => ?_, fun L => by rw [hd.inNvram]⟩
  · rw [hd.mapping, ← hD L P hL]
    split <;> simp_all
  · rw [hd.mapping]
    split
    · next hmem =>
        cases hm : s.mappingTable L with
        | none => rfl
        | some P => exact absurd ((hD L P hm).1 hmem) hL
    · rfl
  · have := hsplit P hP
    rw [hd.cnt P hP, h.cnt P hP]
    omega
  · -- a page whose last lpn goes is dead; otherwise its count goes down by
    -- those covered
    have hsum := hsplit P hP
    have hlive := h.live P hP
    rw [hd.valid P hP, recount]
    simp only [← List.length_eq_zero_iff]
    rw [← List.length_pos_iff] at hlive
    by_cases hk : ((s.refs P).filter
        (Covered c sectorNb length ·)).length = 0
    · rw [if_pos hk, if_pos (by omega)]
    · rw [if_neg hk, if_neg (by omega)]
      split
      · rfl
      · rw [hlive (by omega)]
        omega

/-- From a state of a run without wrapped counts, and from any consistent
one, a discard ends and drops exactly the pages it covers just when no
page that it touches only in part is mapped. -/
theorem discard_exact_iff {c : Conf} (g : Sized c)
    (hspp : 0 < c.sectorsPerPage) (hint : c.sectorsPerPage < 2 ^ 31) :
    (∀ s tr, Geo c → Reach c s tr → (∀ e ∈ tr, NoWrap e) →
      Consistent c s)
    ∧ ∀ s, Consistent c s → ∀ sectorNb length, length < 2 ^ 32 →
      sectorNb + length ≤ c.sectorNb →
      ((femuDiscardProcess c length sectorNb s).res = .ok .success
          ∧ DropsExactly c sectorNb length s
            (femuDiscardProcess c length sectorNb s).st
        ↔ ∀ L, Touched c sectorNb length L → s.mappingTable L ≠ none →
          Covered c sectorNb length L) := by
  refine ⟨fun s tr gc h hr => h.consistent gc hr, ?_⟩
  intro s h sectorNb length hlen hle
  -- no bound of the cut wraps
  have hend : sectorNb + length < 2 ^ 63 := by
    have htotal := g.total
    calc sectorNb + length ≤ c.sectorsPerPage * c.pageMappingEntryNb := hle
      _ ≤ 2 ^ 31 * 2 ^ 31 := Nat.mul_le_mul (by omega) (by omega)
      _ < 2 ^ 63 := by decide
  obtain ⟨_, hres, rfl, hd⟩ := (g.femuDiscardProcess_dropped h hle).run
  have hmem : ∀ L, L ∈ discardLpns c sectorNb length ↔
      Touched c sectorNb length L := fun L =>
    mem_discardLpns hspp hint hlen hend
  constructor
  · rintro ⟨-, hex⟩ L htouch hmap
    obtain ⟨P, hP⟩ := Option.ne_none_iff_exists'.1 hmap
    refine (hex.unmapped L P hP).1 ?_
    rw [hd.mapping, if_pos ((hmem L).2 htouch)]
  · intro hcov
    refine ⟨hres, hd.exactly h fun L P hL => ?_⟩
    rw [hmem]
    exact ⟨fun ht => hcov L ht (by rw [hL]; exact nofun),
      fun hc => hc.touched hspp⟩

/-- A whole page that is shared, and one that is not mapped. -/
theorem discard_exact_tiny :
    (femuDiscardProcess tinyConf 3 1 tinyOut.st).res = .ok .success
      ∧ DropsExactly tinyConf 1 3 tinyOut.st
        (femuDiscardProcess tinyConf 3 1 tinyOut.st).st := by
  obtain ⟨hreach, hdiscard⟩ :=
    discard_exact_iff tinyConf_geo.sized (by decide) (by decide)
  refine (hdiscard _ (hreach _ _ tinyConf_geo tinyOut_reach
    tinyOut_noWrap) 1 3 (by decide) (by decide)).2 ?_
  rintro L ⟨k, hk, hlo, hhi⟩ - j hj
  change k < 1 at hk
  change j < 1 at hj
  obtain rfl : k = 0 := by omega
  obtain rfl : j = 0 := by omega
  exact ⟨hlo, hhi⟩

-- ====================================================== half a page

/-- Pages of two sectors. -/
def halfConf : Conf := initSsdConfig 2 8 2 2

/-- Page zero is written. -/
def halfRun : List Cmd := [.write ⟨2, 0, fun _ => ⟨0, -1, some 10⟩⟩]

def halfOut : Out Ssd Event Fault Unit :=
  runCmds halfConf 40 halfRun (ftlInit halfConf)

theorem halfOut_reach : Reach halfConf halfOut.st halfOut.log := by
  refine (Ran.start 40 halfRun ?_ (by decide +kernel)).reach
  intro cmd hc
  obtain rfl := List.mem_singleton.1 hc
  exact fun _ => (by decide : (-1 : Int) < halfConf.pageMappingEntryNb)

/-- A discard of the first sector of the page unmaps the page, whose
second sector lies outside. -/
theorem discard_drops_half :
    Reach halfConf halfOut.st halfOut.log
      ∧ (∀ e ∈ halfOut.log, NoWrap e)
      ∧ halfOut.st.mappingTable 0 = some 0
      ∧ ¬ Covered halfConf 0 1 0
      ∧ (femuDiscardProcess halfConf 1 0 halfOut.st).st.mappingTable 0
        = none :=
  ⟨halfOut_reach, by decide +kernel, by decide +kernel, by decide +kernel,
    by decide +kernel⟩

end FemuRemap
