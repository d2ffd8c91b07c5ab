/-
`GC_CHECK`: collections do not change what the lpns read, and with space
to spare they end with the thresholds met.

# Why it ends

Each successful collection raises the room of the pool by the pages that
were not live, at least one, and the room is at most all pages. The loop
of the model therefore stops within as many rounds.
-/
import FemuRemap.Proofs.Budget
import FemuRemap.Proofs.Space
import FemuRemap.Spec.Logical

namespace FemuRemap

open Lib

variable {c : Conf} {p p' : Pool} {s s' : Ssd} {b : Nat} {ρ : Nat → Nat}
  {l : List (Nat × Nat)} {A B : Prop} {fuel : Nat}

-- ============================================================= the view

/-- What the lpns read. -/
def view (s : Ssd) : LogicalMap :=
  fun L => (s.mappingTable L).map s.content.get

/-- A mapped lpn shows its page's data. -/
theorem view_some {L q : Nat} (h : s.mappingTable L = some q) :
    view s L = some (s.content q) := by
  simp [view, h]

/-- An lpn shows nothing when it is not mapped. -/
theorem view_eq_none {L : Nat} : view s L = none ↔ s.mappingTable L = none := by
  simp [view]

/-- A relocation is invisible. -/
theorem Relocated.view_eq (h : Sound c p s)
    (hr : Relocated c p s b ρ l p' s') : view s' = view s := by
  funext L
  cases hL : s.mappingTable L with
  | none =>
      have hm := (hr.stayed L (by simp [hL])).1
      rw [view_eq_none.2 hL, view_eq_none.2 (hm.trans hL)]
  | some q =>
      rw [view_some hL]
      by_cases hb : blockOf c q = b
      · rw [view_some (hr.moved L q hL hb),
          hr.carried q (hb ▸ h.live hL)]
      · have hm := (hr.stayed L (by simpa [hL] using hb)).1
        rw [view_some (hm.trans hL), hr.kept q (h.in_use hL id).2.1 hb]

/-- A relocation gains the pages that were not live. -/
theorem Relocated.room (g : Geo c) (hr : Relocated c p s b ρ l p' s') :
    p'.room c.sbPages + livePages c s b
      = p.room c.sbPages + c.sbPages := by
  obtain ⟨i, p₂, -, hchain, rfl⟩ := hr.pool
  have hroom := hchain.room g.sbPages_pos
  rw [Pool.room_eject, hr.count] at hroom
  rw [Pool.room_release]
  omega

-- ======================================================== the invariant

/-- A sound state within the NVRAM budget, if that is relied on. -/
structure Held (c : Conf) (B : Prop) (p : Pool) (s : Ssd) : Prop where
  sound : Sound c p s
  budget : B → Budget c s

/-- Only lpns below `M` are in use. -/
def Below (M : Nat) (s : Ssd) : Prop := ∀ L, M ≤ L → view s L = none

/-- A mapped lpn is an exposed one. -/
theorem Below.lt {M L q : Nat} (h : Below M s)
    (hL : s.mappingTable L = some q) : L < M := by
  by_contra hle
  have := view_eq_none.1 (h L (Nat.le_of_not_lt hle))
  rw [hL] at this
  cases this

/-- The room is never more than all pages. -/
theorem Geo.room_le (g : Geo c) (h : Sound c p s) :
    p.room c.sbPages ≤ c.pageMappingEntryNb := by
  have htotal := h.pages.total
  have hfree := g.ppnFree_eq h.pages
  omega

/-- Both thresholds are met once the room reaches that of the pages. -/
theorem Geo.needsGc_iff (g : Geo c) (h : Sound c p s) :
    needsGc c s
      ↔ p.room c.sbPages < c.gcThresholdBlockNb * c.pageNb := by
  unfold needsGc
  rw [g.ppnFree_eq h.pages, h.pages.lists.totalEmpty]
  constructor
  · rintro (hlt | hlt)
    · -- an empty or active block has at most its pages left
      have hmul := Nat.mul_lt_mul_of_pos_right (Int.ofNat_lt.1 hlt) g.page
      have hle : p.room c.sbPages ≤ _ := Pool.room_le
      unfold Conf.sbPages at hle
      rw [Nat.mul_comm _ c.pageNb, ← Nat.mul_assoc] at hmul
      exact Nat.lt_of_le_of_lt hle hmul
    · exact hlt
  · exact .inr

/-- Space for collections: few lpns, and the pages of a superblock. -/
structure Spacious (c : Conf) (M : Nat) (p : Pool) (s : Ssd) : Prop where
  lpns : M + c.gcThresholdBlockNb * c.pageNb + c.sbPages
    ≤ c.pageMappingEntryNb
  below : Below M s
  room : c.sbPages ≤ p.room c.sbPages

/-- With the spare room, the victim's live pages fit. -/
theorem Spacious.canCollect {M : Nat} (g : Geo c) (h : Sound c p s)
    (hs : Spacious c M p s) (hn : needsGc c s) : CanCollect c p s := by
  have hroom := (g.needsGc_iff h).1 hn
  have hlpns := hs.lpns
  exact ⟨g.exists_victim h (fun L q => hs.below.lt) (by omega),
    fun b _ hfew => Nat.le_trans (Nat.le_of_lt hfew) hs.room⟩

-- ============================================================= the loop

/-- The loop of `GC_CHECK`. -/
theorem Geo.gcCheckLoop_serves (g : Geo c) {M : Nat} (fuel rounds : Nat)
    (h : Held c B p s) (hA : A ∨ Spacious c M p s)
    (hf : fuel ≤ fuelBound c
      ∨ c.pageMappingEntryNb < rounds + p.room c.sbPages) :
    Serves c B fuel A (gcCheckLoop c fuel rounds) s fun _ s' =>
      ∃ p', Held c B p' s' ∧ view s' = view s ∧ (A ∨ ¬ needsGc c s') := by
  induction rounds generalizing s p with
  | zero =>
      have hle := g.room_le h.sound
      exact Sat.fault (.inl ⟨rfl, hf.resolve_right (by omega)⟩)
  | succ rounds ih =>
      refine Sat.get_bind ?_
      split
      case isFalse hn => exact Sat.pure ⟨p, h, rfl, .inr hn⟩
      case isTrue hn =>
        have hA' : A ∨ CanCollect c p s :=
          hA.imp_right fun hs => hs.canCollect g h.sound hn
        refine Sat.bind (g.sbGarbageCollection_serves h.sound fuel hA') ?_
        intro r s₁ hr
        cases r with
        | fail =>
            obtain ⟨ha, -, t, rfl⟩ := hr
            exact Sat.pure ⟨p, ⟨h.sound.alike (by constructor <;> rfl),
              h.budget⟩, rfl, .inl ha⟩
        | success =>
            obtain ⟨b, ρ, l, p₁, hr, -, hfits⟩ := hr
            have hroom := hr.room g
            have hfew := hr.few
            have hview := hr.view_eq h.sound
            have hbudget : B → Budget c s₁ := fun hB =>
              hr.budget h.sound (h.budget hB) (hfits hB)
            -- a collection gains at least one page, so the rounds run out
            -- after the pages do
            refine Sat.modify_bind (Sat.mono (ih (p := p₁) ?_ ?_ ?_) ?_
              fun _ _ h => h)
            · exact ⟨hr.sound.alike (by constructor <;> rfl), hbudget⟩
            · refine hA.imp_right fun hs => ⟨hs.lpns, fun L hL => ?_, ?_⟩
              · exact (congrFun hview L).trans (hs.below L hL)
              · have := hs.room
                omega
            · exact hf.imp_right fun _ => by omega
            · rintro _ s' ⟨p', h', hv, hn'⟩
              exact ⟨p', h', hv.trans hview, hn'⟩

/-- `GC_CHECK`: invisible, and it ends with the thresholds met unless
space may run out. -/
theorem Geo.gcCheck_serves (g : Geo c) {M : Nat} (fuel : Nat)
    (h : Held c B p s) (hA : A ∨ Spacious c M p s) :
    Serves c B fuel A (gcCheck c fuel) s fun _ s' =>
      ∃ p', Held c B p' s' ∧ view s' = view s
        ∧ (A ∨ c.gcThresholdBlockNb * c.pageNb ≤ p'.room c.sbPages) := by
  refine Sat.bind (g.gcCheckLoop_serves fuel fuel h hA ?_) ?_
  · unfold fuelBound
    omega
  rintro _ s₁ ⟨p₁, h₁, hv, hn⟩
  refine Sat.get_bind (Sat.emit fun _ => ⟨?_, p₁, h₁, hv, ?_⟩)
  · refine hn.imp_right fun hn => ?_
    unfold needsGc at hn
    omega
  · refine hn.imp_right fun hn => ?_
    rw [g.needsGc_iff h₁.sound] at hn
    exact Nat.le_of_not_lt hn

end FemuRemap
