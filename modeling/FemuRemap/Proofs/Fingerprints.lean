/-
Fingerprints through the updates of one reference.

# Which pages are marked

A page is `Referred` to when some lpn maps to it or its reference is
ahead of the map, as in `Tracked`. `Marked` says of the two tables what
`Lib.Indexed` says of an index: a page that `fingerprint` names is
referred to and records that fingerprint, and every page that is
referred to records one. The references of `Tracked` decide when
`UPDATE_BLOCK_STATE_ENTRY` clears a name: the count of a page is `1` just
when the reference that goes is the last one.
-/
import FemuRemap.Lib.Index
import FemuRemap.Model.Dedup
import FemuRemap.Proofs.Addresses
import FemuRemap.Proofs.NewPage

namespace FemuRemap.Dedup

open Lib

variable {c : Conf} {u : Nat} {d : State}

-- ======================================================== the judgement

/-- What every event of a run satisfies: no fingerprint is out of range,
and a page that is written is then found on a live page of its
fingerprint. -/
def Fitting : Event → Prop
  | .fingRange => False
  | .written fing page => ∃ v, page = some (v, some fing) ∧ 0 < v
  | _ => True

/-- The judgement of the functions with fingerprints: as long as no count
wraps, they stay within `fingerprint`. -/
abbrev Keeps {α : Type} (m : Dd α) (d : State) (Q : α → State → Prop) :
    Prop :=
  Sat (layer.relies NoWrap) Fitting m d Q fun e _ => e ≠ .fingerprintIndex

section Lifting

variable {α β : Type} {m : Ftl α} {G : FemuRemap.Event → Prop}
  {R : α → Ssd → Prop} {E : FemuRemap.Fault → Ssd → Prop}

/-- A function of the translation layer leaves the two tables alone. -/
theorem keeps_lift {Q : α → State → Prop} (h : Sat NoWrap G m d.ssd R E)
    (hQ : ∀ a s, R a s → Q a { d with ssd := s }) :
    Keeps (layer.lift m) d Q := by
  refine Sat.mono ((layer.lift_sat h).weaken ?_) ?_ ?_
  · intro _ hpost
    obtain ⟨e, rfl, -⟩ := hpost
    exact trivial
  · intro a _ hpost
    obtain ⟨s, l, rfl, hR⟩ := hpost
    exact hQ a s hR
  · intro _ _ hpost
    obtain ⟨e, rfl⟩ := hpost
    exact nofun

/-- An FTL function that keeps the FTL's invariant, followed by a layer
function. -/
theorem keeps_lift_bind {f : α → Dd β} {Q : β → State → Prop}
    (h : Sat NoWrap G m d.ssd R E)
    (hf : ∀ a s, R a s → Keeps (f a) { d with ssd := s } Q) :
    Keeps (layer.lift m >>= f) d Q := by
  refine Sat.bind (keeps_lift (Q := fun a d' =>
    ∃ s, d' = { d with ssd := s } ∧ R a s) h ?_) ?_
  · intro a s hR
    exact ⟨s, rfl, hR⟩
  · intro a _ hpost
    obtain ⟨s, rfl, hR⟩ := hpost
    exact hf a s hR

theorem keeps_modify {f : Ssd → Ssd} {Q : Unit → State → Prop}
    (h : Q () { d with ssd := f d.ssd }) :
    Keeps (layer.lift (Prog.modify f)) d Q :=
  fun _ => ⟨by simp [Layer.lift], h⟩

theorem keeps_modify_bind {f : Ssd → Ssd} {k : Unit → Dd β}
    {Q : β → State → Prop} (h : Keeps (k ()) { d with ssd := f d.ssd } Q) :
    Keeps (layer.lift (Prog.modify f) >>= k) d Q := h

end Lifting

-- ===================================================== seen from below

/-- A warning of the layer is not an event of the FTL. -/
theorem warnIf_own (b : Prop) [Decidable b] (e : Event)
    (he : layer.base e = none) (d : State) :
    Sat (fun _ => True) (fun e' => layer.base e' = none) (warnIf b e) d
      (fun _ d' => d' = d) fun e' _ => layer.cause e' = none := by
  unfold warnIf
  split
  · exact Sat.emit fun _ => ⟨he, rfl⟩
  · exact Sat.pure rfl

/-- The table of fingerprints is the layer's own. -/
theorem setFingerprint_own (fing ppn : Option Nat) (d : State) :
    layer.Own (setFingerprint u fing ppn) (fun a => a = ()) d := by
  unfold setFingerprint
  cases fing with
  | none => exact Sat.fault rfl
  | some f =>
      dsimp only
      split
      · exact Sat.fault rfl
      · exact Sat.modify ⟨rfl, rfl⟩

/-- `forgetPage` touches nothing of the translation layer. -/
theorem forgetPage_own (ppn : Nat) (d : State) :
    layer.Own (forgetPage u ppn) (fun a => a = ()) d := by
  refine Sat.get_bind (Sat.bind (warnIf_own _ _ rfl d) ?_)
  intro _ _ hst
  subst hst
  refine Sat.bind (warnIf_own _ _ rfl _) ?_
  intro _ _ hst
  subst hst
  exact setFingerprint_own _ _ _

/-- The layer marks a page as the FTL does. -/
theorem updatePageState_shadows (ppn : Nat) (mark : PageMark) (d : State) :
    layer.Shadows (fun _ => ()) (updatePageState c u ppn mark)
      (FemuRemap.updatePageState c ppn mark) d := by
  refine Layer.Shadows.get_aside ?_
  refine (Layer.Shadows.lift _ d).followed fun _ d' => ?_
  split
  · exact forgetPage_own _ d'
  · exact Sat.pure ⟨rfl, rfl⟩

/-- Below, `UPDATE_OLD_PAGE_MAPPING` is what it is without
fingerprints. -/
theorem updateOldPageMapping_shadows (lpn : Nat) (d : State) :
    layer.Shadows id (updateOldPageMapping c u lpn)
      (FemuRemap.updateOldPageMapping c lpn) d := by
  refine Layer.Shadows.get_bind ?_
  rw [show layer.get d = d.ssd from rfl]
  cases d.ssd.mappingTable lpn with
  | none => exact Layer.Shadows.pure _
  | some old =>
      refine (Layer.Shadows.lift _ d).bind fun r d₁ _ _ => ?_
      cases r with
      | fail => exact Layer.Shadows.pure _
      | success =>
          refine (updatePageState_shadows _ _ _).bind fun _ d₂ _ _ => ?_
          refine Layer.Shadows.get_bind ?_
          rw [show layer.get d₂ = d₂.ssd from rfl]
          split
          · exact Layer.Shadows.lift _ _
          · exact Layer.Shadows.pure _

-- ========================================================== references

/-- Some lpn maps to the page, or its reference is ahead of the map. -/
def Referred (m : Nat → Option Nat) (x : Option (Nat × Nat)) (q : Nat) :
    Prop :=
  (∃ L, m L = some q) ∨ ∃ L, x = some (q, L)

variable {m : Nat → Option Nat} {x : Option (Nat × Nat)} {L o q r : Nat}

/-- With no lpn set aside, a page is referred to by a mapping. -/
theorem referred_none : Referred m none r ↔ ∃ L, m L = some r := by
  simp [Referred]

/-- The page of the reference that is ahead is one more. -/
theorem referred_ahead :
    Referred m (some (q, L)) r ↔ Referred m none r ∨ r = q := by
  simp [Referred, eq_comm]

theorem referred_attach : Referred (Function.update m L (some q)) none r
    ↔ Referred (Function.update m L none) none r ∨ r = q := by
  rw [referred_none, referred_none]
  constructor
  · rintro ⟨K, hK⟩
    by_cases hKL : K = L
    · rw [hKL, Function.update_self, Option.some.injEq] at hK
      exact .inr hK.symm
    · rw [Function.update_of_ne hKL] at hK
      exact .inl ⟨K, by rw [Function.update_of_ne hKL, hK]⟩
  · rintro (⟨K, hK⟩ | rfl)
    · have hKL : K ≠ L := by
        intro hst
        subst hst
        simp at hK
      rw [Function.update_of_ne hKL] at hK
      exact ⟨K, by rw [Function.update_of_ne hKL, hK]⟩
    · exact ⟨L, Function.update_self ..⟩

/-- Without the reference of `L`, the other pages stay referred to. -/
theorem referred_detach (hL : m L = some o) :
    Referred (Function.update m L none) x r ↔ Referred m x r
      ∧ (r = o → Referred (Function.update m L none) x o) := by
  constructor
  · intro h
    refine ⟨?_, fun hr => hr ▸ h⟩
    rcases h with ⟨K, hK⟩ | hx
    · have hKL : K ≠ L := by
        intro hst
        subst hst
        simp at hK
      exact .inl ⟨K, by rwa [Function.update_of_ne hKL] at hK⟩
    · exact .inr hx
  · rintro ⟨h, ho⟩
    by_cases hro : r = o
    · exact hro ▸ ho hro
    · rcases h with ⟨K, hK⟩ | hx
      · have hKL : K ≠ L := by
          intro hst
          subst hst
          exact hro (Option.some.inj (hK.symm.trans hL))
        exact .inl ⟨K, by rw [Function.update_of_ne hKL, hK]⟩
      · exact .inr hx

/-- The list of a page has one node just when `L`'s reference is the
last one. -/
theorem length_refs_eq_one_iff {s : Ssd} (h : Maps c m x s)
    (hL : m L = some o) : (s.refs o).length = 1
      ↔ ¬ Referred (Function.update m L none) x o := by
  have hmem := h.mem_refs hL
  have hcount := h.count o (h.bound L o hL).1
  constructor
  · -- a second reference would be a second entry of the page's list
    intro h1
    obtain ⟨a, ha⟩ := List.length_eq_one_iff.1 h1
    have haL : L = a := List.mem_singleton.1 (ha ▸ hmem)
    rw [ha, ← haL] at hcount
    rintro (⟨K, hK⟩ | ⟨K, hK⟩)
    · have hKL : K ≠ L := by
        intro hst
        subst hst
        simp at hK
      rw [Function.update_of_ne hKL] at hK
      have hc := hcount K
      rw [ind_true hK, List.count_singleton, if_neg (by
        simpa using hKL.symm)] at hc
      omega
    · have hc := hcount L
      rw [ind_true hL, List.count_singleton_self] at hc
      by_cases hKL : K = L
      · rw [ind_true (P := x = some (o, L)) (hKL ▸ hK)] at hc
        omega
      · have hcK := hcount K
        rw [ind_true hK, List.count_singleton, if_neg (by
          simpa using Ne.symm hKL)] at hcK
        omega
  · intro hn
    have hx : ∀ K, x ≠ some (o, K) := fun K hK => hn (.inr ⟨K, hK⟩)
    have hall : ∀ K ∈ s.refs o, L = K := by
      intro K hK
      by_contra hKL
      have hc := hcount K
      have hpos := List.count_pos_iff.2 hK
      have hm : m K ≠ some o := fun hm => hn (.inl ⟨K, by
        rw [Function.update_of_ne (Ne.symm hKL), hm]⟩)
      rw [ind_false hm, ind_false (hx K)] at hc
      omega
    have hc := hcount L
    rw [ind_true hL, ind_false (hx L), List.count_eq_length.2 hall] at hc
    omega

-- =============================================================== marks

/-- A fingerprint that may be drawn. -/
def Fing (u f : Nat) : Prop := 1 ≤ f ∧ f ≤ u

/-- The two tables agree with the references. -/
abbrev Marked (u : Nat) (m : Nat → Option Nat) (x : Option (Nat × Nat))
    (d : State) : Prop :=
  Indexed (Referred m x) d.recorded.get (Fing u) d.fingerprint.get

/-- A reference goes, and with the last one of its page the name. -/
theorem Marked.detach {s : Ssd} {f : Nat} {d' : State} (h : Marked u m x d)
    (hmaps : Maps c m x s) (hL : m L = some o) (hf : d.recorded o = some f)
    (hr : d'.recorded = d.recorded)
    (hfp : d'.fingerprint = if (s.refs o).length = 1
      then d.fingerprint.set f none else d.fingerprint) :
    Marked u (Function.update m L none) x d' := by
  have hlast := length_refs_eq_one_iff hmaps hL
  unfold Marked
  rw [hr, hfp]
  by_cases h1 : (s.refs o).length = 1
  · rw [if_pos h1, Table.get_set_eq]
    refine h.drop hf fun j => ?_
    rw [referred_detach hL]
    simp only [hlast.1 h1, imp_false]
  · rw [if_neg h1]
    refine h.congr fun j => ?_
    rw [referred_detach hL]
    have ho := not_not.1 (mt hlast.2 h1)
    exact ⟨fun hj => hj.1, fun hj => ⟨hj, fun _ => ho⟩⟩

theorem keeps_warnIf {b : Prop} [Decidable b] {e : Event}
    (h : b → Fitting e) : Keeps (warnIf b e) d fun _ d' => d' = d := by
  unfold warnIf
  split
  · next hb => exact Sat.emit fun _ => ⟨h hb, rfl⟩
  · exact Sat.pure rfl

/-- A fingerprint that was drawn is within the table, so the entry is
written. -/
theorem keeps_setFingerprint {f : Nat} (hf : Fing u f) (ppn : Option Nat) :
    Keeps (setFingerprint u (some f) ppn) d fun _ d' =>
      d' = { d with fingerprint := d.fingerprint.set f ppn } := by
  unfold setFingerprint
  dsimp only
  rw [if_neg (Nat.not_lt.2 hf.2)]
  exact Sat.modify rfl

/-- And the check of the source passes. -/
theorem inRange_eq {f : Nat} (hf : Fing u f) :
    inRange u (some f) = true :=
  decide_eq_true hf

-- ================================================= losing a reference

/-- `INVALID` clears the name of a page whose count is `1`. -/
theorem keeps_updatePageState_invalid (g : Sized c) {f : Nat}
    (ho : o < c.pageMappingEntryNb) (hf : d.recorded o = some f)
    (hfu : Fing u f) :
    Keeps (updatePageState c u o .invalid) d fun _ d' =>
      d'.recorded = d.recorded
        ∧ d'.fingerprint = if d.ssd.valid c o = 1
          then d.fingerprint.set f none else d.fingerprint := by
  unfold updatePageState
  rw [g.calcFlash_eq ho, g.calcBlock_eq, g.calcPage_eq]
  refine Sat.get_bind (keeps_lift_bind Sat.any fun _ s _ => ?_)
  rw [g.validArray_page d.ssd ho, addressPpn_eq,
    g.encodePpn_eq (flashOf_lt ho) (g.blockOf_lt o) (g.pageOf_lt o),
    ppnAt_of]
  by_cases h1 : d.ssd.valid c o = 1
  · rw [if_pos ⟨rfl, flashOf_lt ho, g.blockOf_lt o, g.pageOf_lt o, h1⟩,
      if_pos h1]
    refine Sat.get_bind (Sat.bind (keeps_warnIf fun _ => trivial) ?_)
    intro _ _ hst
    subst hst
    refine Sat.bind (keeps_warnIf (e := .fingRange) fun hout => ?_) ?_
    · rw [hf, inRange_eq hfu] at hout
      cases hout
    intro _ _ hst
    subst hst
    rw [hf]
    refine Sat.mono (keeps_setFingerprint hfu none) ?_ fun _ _ he => he
    intro _ _ hst
    subst hst
    exact ⟨rfl, rfl⟩
  · rw [if_neg fun h => h1 h.2.2.2.2, if_neg h1]
    exact Sat.pure ⟨rfl, rfl⟩

variable {p : Pool} {out : List Nat} {H : Option Nat} {D : Nat → Prop}
  {nv : Nat → Int} {y : Option Nat}

/-- What `UPDATE_OLD_PAGE_MAPPING` does to the marks. -/
theorem keeps_updateOldPageMapping_marked (g : Geo c)
    (h : Tracked c p out H D m nv x y d.ssd)
    (hm : d.ssd.mappingTable L = m L) (hold : ∀ o, m L = some o → ¬ D o)
    (hk : Marked u m x d) :
    Keeps (updateOldPageMapping c u L) d fun _ d' =>
      d'.recorded = d.recorded
        ∧ Marked u (Function.update m L none) x d' := by
  refine Sat.get_bind ?_
  rw [hm]
  cases ho : m L with
  | none =>
      have he : Function.update m L none = m := by
        rw [← ho, Function.update_eq_self]
      rw [he]
      exact Sat.pure ⟨rfl, hk⟩
  | some o =>
      obtain ⟨hoN, -, hv, -⟩ := h.in_use ho (hold o ho)
      obtain ⟨f, hf, hfu⟩ := hk.keyed o (.inl ⟨L, ho⟩)
      refine Sat.silent_bind (layer.lift_run (decreaseInverseMapping_eq
        (h.pages.cnt o hoN) (h.pages.le o hoN) (h.maps.mem_refs ho))) ?_
      refine Sat.bind (keeps_updatePageState_invalid g.sized hoN hf hfu) ?_
      intro _ d₂ hpost
      obtain ⟨hr, hfp⟩ := hpost
      have hone : d.ssd.valid c o = 1 ↔ (d.ssd.refs o).length = 1 := by
        rw [hv]
        omega
      have hmark : Marked u (Function.update m L none) x d₂ := by
        refine hk.detach h.maps ho hf hr (hfp.trans ?_)
        exact if_congr hone rfl rfl
      refine Sat.get_bind ?_
      split
      · exact keeps_lift Sat.any fun _ _ _ => ⟨hr, hmark⟩
      · exact Sat.pure ⟨hr, hmark⟩

/-- The lpn was detached, and the name of its page went with the last
reference. -/
structure Detached (c : Conf) (u : Nat) (p : Pool) (H : Option Nat)
    (m : Nat → Option Nat) (nv : Nat → Int) (x : Option (Nat × Nat))
    (y : Option Nat) (L : Nat) (d d' : State) : Prop where
  tracked : Tracked c p [] H noPage (Function.update m L none) nv x y d'.ssd
  kept : Kept d.ssd d'.ssd
  recorded : d'.recorded = d.recorded
  marked : Marked u (Function.update m L none) x d'

/-- The old page of an lpn loses a reference, and its fingerprint with the
last one. -/
theorem keeps_updateOldPageMapping (g : Geo c)
    (h : Tracked c p [] H noPage m nv x y d.ssd)
    (hm : d.ssd.mappingTable L = m L) (hnv : d.ssd.inNvram L = nv L)
    (hk : Marked u m x d) :
    Keeps (updateOldPageMapping c u L) d fun _ d' =>
      Detached c u p H m nv x y L d d' := by
  have hbelow := g.updateOldPageMapping_step h hm hnv
    fun _ _ => ⟨id, by simp⟩
  refine Sat.mono (Sat.both
    (keeps_updateOldPageMapping_marked g h hm (fun _ _ => id) hk)
    ((updateOldPageMapping_shadows L d).sat hbelow)) ?_ fun _ _ he => he
  intro _ d' hpost
  obtain ⟨⟨hr, hmark⟩, ht, hkept, -⟩ := hpost
  exact ⟨ht, hkept, hr, hmark⟩

-- ===================================================== between updates

/-- A sound state with its marks. -/
structure Sharing (c : Conf) (u : Nat) (p : Pool) (d : State) : Prop where
  sound : Sound c p d.ssd
  marked : Marked u d.ssd.mappingTable.get none d

/-- Such a state with the map `m`, the pages recording what they did. -/
structure Reshared (c : Conf) (u : Nat) (p : Pool) (d : State)
    (m : Nat → Option Nat) (d' : State) : Prop where
  sharing : Sharing c u p d'
  mapping : d'.ssd.mappingTable.get = m
  recorded : d'.recorded = d.recorded

/-- Unmapping an lpn, with the marks in step. -/
theorem keeps_unmapLpn (g : Geo c) (h : Sharing c u p d) (L : Nat) :
    Keeps (unmapLpn c u L) d fun _ d' =>
      Reshared c u p d (Function.update d.ssd.mappingTable.get L none)
        d' := by
  refine Sat.bind (keeps_updateOldPageMapping g h.sound rfl rfl h.marked) ?_
  intro _ d₁ h₁
  have hmap : (d₁.ssd.mappingTable.set L none).get
      = Function.update d.ssd.mappingTable.get L none := by
    rw [Table.get_set_eq, h₁.kept.mapping]
  refine keeps_modify ⟨⟨h₁.tracked.sound_unmapped h₁.kept, ?_⟩, hmap,
    h₁.recorded⟩
  show Marked u (d₁.ssd.mappingTable.set L none).get none _
  rw [hmap]
  exact h₁.marked

/-- The same of a remap's source, if it has one. -/
theorem keeps_unmapSource (g : Geo c) (h : Sharing c u p d)
    (src : Option Nat) :
    Keeps (unmapSource c u src) d fun _ d' =>
      Reshared c u p d (dropSource d.ssd.mappingTable.get src) d' := by
  cases src with
  | none => exact Sat.pure ⟨h, rfl, rfl⟩
  | some K => exact keeps_unmapLpn g h K

/-- `VALID` touches no fingerprint. -/
theorem keeps_updatePageState_valid {Q : Ssd → Prop} (q : Nat)
    (h : Step c (FemuRemap.updatePageState c q .valid) d.ssd
      fun _ s => Q s) :
    Keeps (updatePageState c u q .valid) d fun _ d' =>
      ∃ s, d' = { d with ssd := s } ∧ Q s := by
  refine Sat.get_bind (keeps_lift_bind h fun _ s hs => ?_)
  rw [if_neg fun hmark => nomatch hmark.1]
  exact Sat.pure ⟨s, rfl, hs⟩

/-- `remapLpn` makes the lpn share a marked page. -/
theorem keeps_remapLpn (g : Geo c) (h : Sharing c u p d) {K : Nat}
    (hK : d.ssd.mappingTable K = some q) (hL : L < c.pageMappingEntryNb)
    (charge host : Bool) (src : Option Nat) :
    Keeps (remapLpn c u charge host src (some q) L) d fun _ d' =>
      Reshared c u p d (dropSource
        (Function.update d.ssd.mappingTable.get L (some q)) src) d' := by
  obtain ⟨hq, hu, hv, -⟩ := h.sound.in_use hK id
  have hpages := h.sound.pages
  have hroom := g.stats_roomy hq hpages.stats hpages.upper
  refine keeps_lift_bind (increaseInverseMapping_step (c := c)
    (hpages.cnt q hq)) ?_
  intro _ s₁ hpost
  obtain ⟨rfl, hlt, rfl⟩ := hpost
  refine Sat.bind (keeps_updatePageState_valid q (g.updatePageState_valid
    (s := setRefs q (d.ssd.refs q ++ [L]) d.ssd) hq
    (show 0 ≤ d.ssd.valid c q by omega)
    (show d.ssd.valid c q < 127 by omega) hroom)) ?_
  intro _ _ hpost
  obtain ⟨s₂, rfl, rfl⟩ := hpost
  have h₂ := g.tracked_share h.sound hq id hu hv hlt (.inl rfl) L
  rw [g.sized.calcBlock_eq]
  refine keeps_lift_bind (updateNvramOob_step h₂ (g.sized.blockOf_lt q)
    (by simp)) ?_
  intro _ s₃ hpost
  obtain ⟨h₃, hk₃, -⟩ := hpost
  have hm₃ : s₃.mappingTable = d.ssd.mappingTable := hk₃.mapping
  have hnv₃ : s₃.inNvram = d.ssd.inNvram := hk₃.inNvram
  refine keeps_lift_bind (R := fun _ s => s = s₃) (G := fun _ => True)
    (E := fun _ _ => True) ?_ ?_
  · cases charge with
    | true => exact Sat.emit fun _ => ⟨trivial, rfl⟩
    | false => exact Sat.pure rfl
  intro _ s₃ hst
  subst hst
  -- the reference that is ahead is of a page already referred to
  have hmark : Marked u d.ssd.mappingTable.get (some (q, L))
      { d with ssd := s₃ } := by
    refine h.marked.congr fun r => ?_
    rw [referred_ahead]
    refine or_iff_left_of_imp fun hr => ?_
    exact hr ▸ .inl ⟨K, hK⟩
  refine Sat.bind (keeps_updateOldPageMapping g h₃ (by rw [hm₃])
    (by rw [hnv₃]) hmark) ?_
  intro _ d₄ h₄
  have hm₄ : d₄.ssd.mappingTable = d.ssd.mappingTable :=
    h₄.kept.mapping.trans hm₃
  have hnv₄ : d₄.ssd.inNvram = d.ssd.inNvram := h₄.kept.inNvram.trans hnv₃
  refine keeps_modify_bind (keeps_modify_bind ?_)
  have hmap : (d₄.ssd.mappingTable.set L (some q)).get
      = Function.update d.ssd.mappingTable.get L (some q) := by
    rw [Table.get_set_eq, hm₄]
  refine Sat.bind (keeps_unmapSource g ⟨h₄.tracked.sound_shared
    (s := d.ssd) hm₄ hnv₄ hq hL, ?_⟩ src) ?_
  · show Marked u (d₄.ssd.mappingTable.set L (some q)).get none _
    rw [hmap]
    refine h₄.marked.congr fun r => ?_
    rw [referred_attach, referred_ahead]
  · intro _ d₅ h₅
    refine keeps_modify ⟨⟨h₅.sharing.sound.alike (by constructor <;> rfl),
      h₅.sharing.marked⟩, ?_, h₅.recorded.trans h₄.recorded⟩
    exact h₅.mapping.trans (congrArg (dropSource · src) hmap)

-- ============================================================== writing

/-- The lpn maps to a page that records the fingerprint. -/
def Carries (d : State) (lpn fing : Nat) : Prop :=
  ∃ q, d.ssd.mappingTable lpn = some q ∧ d.recorded q = some fing

/-- Programming a page that was just handed out marks it. -/
theorem keeps_storePage (g : Geo c)
    (h : Tracked c p [] (some q) noPage d.ssd.mappingTable.get
      d.ssd.inNvram.get none none d.ssd)
    (hk : Marked u d.ssd.mappingTable.get none d)
    (hq : q < c.pageMappingEntryNb) (hu : Used c p [] q)
    (hm : ∀ K, d.ssd.mappingTable K ≠ some q) {fing : Nat}
    (hf : Fing u fing) {slot : Slot}
    (hL : slot.lpn < c.pageMappingEntryNb) :
    Keeps (storePage c u fing slot q) d fun _ d' =>
      Sharing c u p d' ∧ Carries d' slot.lpn fing := by
  refine Sat.get_bind (keeps_lift_bind (R := fun _ s => ∃ r w,
    s = { accessed r w d.ssd with
      content := d.ssd.content.set q (some fing) })
    (Sat.bind (accessPage_step slot _ q) ?_) ?_)
  · intro _ _ hpost
    obtain ⟨r, w, rfl⟩ := hpost
    exact Sat.modify ⟨r, w, rfl⟩
  intro _ _ hpost
  obtain ⟨r, w, rfl⟩ := hpost
  refine Sat.bind (keeps_updateOldPageMapping g
    (h.alike (by constructor <;> rfl)) rfl rfl hk) ?_
  intro _ d₁ h₁
  -- the page was just handed out, so no lpn is mapped to it
  have hm₁ := update_none_ne (L := slot.lpn) hm
  obtain ⟨hr₁, hv₁⟩ := h₁.tracked.hole hq hm₁
  refine keeps_lift_bind (R := fun _ s => Sound c p s
    ∧ s.mappingTable.get
      = Function.update d.ssd.mappingTable.get slot.lpn (some q))
    (Sat.bind (g.updateNewPageMapping_step h₁.tracked hq id hu
      (by rw [hr₁, hv₁]; rfl) (.inr rfl) slot.lpn) ?_) ?_
  · intro _ s₂ hpost
    obtain ⟨h₂, hk₂, -⟩ := hpost
    have hmap : s₂.mappingTable.get
        = Function.update d.ssd.mappingTable.get slot.lpn (some q) := by
      rw [hk₂.mapping, Table.get_set_eq, h₁.kept.mapping]
      rfl
    exact Sat.modify ⟨h₂.sound_stored (s := d.ssd) hmap
      (hk₂.inNvram.trans h₁.kept.inNvram) hq hL hm₁, hmap⟩
  intro _ s₂ hpost
  obtain ⟨h₂, hmap⟩ := hpost
  have hpos : 0 < fing := hf.1
  dsimp only
  rw [if_pos hpos]
  refine Sat.bind (keeps_setFingerprint hf (some q)) ?_
  intro _ _ hst
  subst hst
  refine Sat.modify_bind (keeps_modify ⟨⟨h₂.alike
    (by constructor <;> rfl), ?_⟩, q, ?_, ?_⟩)
  · -- both tables change at once: the page's mark and the fingerprint's page
    show Indexed (Referred s₂.mappingTable.get none)
      (d₁.recorded.set q (some fing)).get (Fing u)
      (d₁.fingerprint.set fing (some q)).get
    rw [hmap, Table.get_set_eq, Table.get_set_eq]
    refine h₁.marked.store ?_ hf fun r => referred_attach
    rw [referred_none]
    rintro ⟨K, hK⟩
    exact hm₁ K hK
  · show s₂.mappingTable.get slot.lpn = some q
    rw [hmap, Function.update_self]
  · exact Table.get_set_self ..

/-- The branch of `_FTL_WRITE` that programs a page. -/
theorem keeps_programPage (g : Geo c) (h : Sharing c u p d) (fuel : Nat)
    {fing : Nat} (hf : Fing u fing) {slot : Slot}
    (hL : slot.lpn < c.pageMappingEntryNb) :
    Keeps (programPage c u fuel fing slot) d fun r d' =>
      (∃ q, r = some q) ∧ (∃ p', Sharing c u p' d')
        ∧ Carries d' slot.lpn fing := by
  refine keeps_lift_bind (g.getNewPage_runs (A := True) h.sound fuel
    fun _ => trivial) ?_
  intro _ _ hpost
  obtain ⟨q, p₁, rfl, ⟨b, k, l, -, -, rfl, -⟩, hfr, h₁⟩ := hpost
  refine Sat.bind (keeps_storePage g
    (d := { d with ssd := takePage c q l d.ssd }) h₁ h.marked hfr.lt
    ((hfr.used q hfr.lt).2 (.inr rfl))
    (h.sound.unmapped hfr.unused id) hf hL) ?_
  intro _ d₂ hpost
  obtain ⟨h₂, hc⟩ := hpost
  exact Sat.pure ⟨⟨q, rfl⟩, ⟨p₁, h₂⟩, hc⟩

end FemuRemap.Dedup
