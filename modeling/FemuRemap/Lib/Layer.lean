/-
State kept over the state of other programs.

A `Layer` adds to a base state what the base programs do not know of: it
follows their runs through the state they leave and the events they
report. `Layer.lift` runs a base program in the layer.

Programs of the layer that interleave lifted parts with work of their
own are compared with a base program by `Layer.Shadows`: seen from
below, the run is the base program's. What is proved of the base program
then holds of them (`Shadows.sat`).
-/
import FemuRemap.Lib.Prog

namespace FemuRemap.Lib

open Prog

/-- A state `τ` over a base state `σ`. Events and faults of the base are
among those of the layer. -/
structure Layer (σ ω ε τ ω' ε' : Type) where
  get : τ → σ
  /-- The layer after a base program that left this state and reported
  these events. -/
  put : τ → σ → List ω → τ
  event : ω → ω'
  fault : ε → ε'
  base : ω' → Option ω
  cause : ε' → Option ε
  get_put : ∀ t s l, get (put t s l) = s
  base_event : ∀ e, base (event e) = some e
  cause_fault : ∀ e, cause (fault e) = some e

namespace Layer

variable {σ ω ε τ ω' ε' α β α' β' : Type} (L : Layer σ ω ε τ ω' ε')

/-- The end of a base program, in the layer. -/
def raise : Except ε α → Except ε' α
  | .ok a => .ok a
  | .error e => .error (L.fault e)

/-- Run a base program. -/
def lift (m : Prog σ ω ε α) : Prog τ ω' ε' α := fun t =>
  let o := m (L.get t)
  ⟨L.raise o.res, L.put t o.st o.log, o.log.map L.event⟩

theorem lift_run {m : Prog σ ω ε α} {t : τ} {a : α} {s : σ} {l : List ω}
    (h : m (L.get t) = ⟨.ok a, s, l⟩) :
    L.lift m t = ⟨.ok a, L.put t s l, l.map L.event⟩ := by
  unfold lift
  rw [h]
  rfl

/-- A lifted run comes from one below. -/
theorem lift_ok {m : Prog σ ω ε α} {t t' : τ} {a : α} {l' : List ω'}
    (h : L.lift m t = ⟨.ok a, t', l'⟩) :
    ∃ s l, m (L.get t) = ⟨.ok a, s, l⟩ ∧ t' = L.put t s l
      ∧ l' = l.map L.event := by
  unfold lift at h
  cases hm : m (L.get t) with
  | mk res s l =>
      rw [hm] at h
      cases res with
      | error e => cases h
      | ok a' =>
          cases h
          exact ⟨s, l, rfl, rfl, rfl⟩

/-- Its events are those of the layer below. -/
theorem filterMap_event (l : List ω) :
    (l.map L.event).filterMap L.base = l := by
  rw [List.filterMap_map]
  have hfun : L.base ∘ L.event = some := funext L.base_event
  rw [hfun, List.filterMap_some]

-- ======================================================== judgements

/-- What is relied on below, asked of the layer's events. -/
def relies (rely : ω → Prop) (e' : ω') : Prop :=
  ∀ e, L.base e' = some e → rely e

/-- Relying on events below is relying on their images. -/
theorem relies_iff {rely : ω → Prop} {l : List ω'} :
    (∀ e' ∈ l, L.relies rely e') ↔ ∀ e ∈ l.filterMap L.base, rely e := by
  constructor
  · intro h e he
    obtain ⟨e', he', hbase⟩ := List.mem_filterMap.1 he
    exact h e' he' e hbase
  · intro h e' he' e hbase
    exact h e (List.mem_filterMap.2 ⟨e', he', hbase⟩)

/-- A judgement of a base program, in the layer. -/
theorem lift_sat {rely guar : ω → Prop} {m : Prog σ ω ε α} {t : τ}
    {Q : α → σ → Prop} {E : ε → σ → Prop}
    (h : Sat rely guar m (L.get t) Q E) :
    Sat (L.relies rely) (fun e' => ∃ e, e' = L.event e ∧ guar e)
      (L.lift m) t (fun a t' => ∃ s l, t' = L.put t s l ∧ Q a s)
      fun e' _ => ∃ e, e' = L.fault e := by
  intro hr
  have hrely : ∀ e ∈ (m (L.get t)).log, rely e := fun e he =>
    hr (L.event e) (List.mem_map_of_mem he) e (L.base_event e)
  obtain ⟨hg, hend⟩ := h hrely
  refine ⟨fun e' he' => ?_, ?_⟩
  · obtain ⟨e, he, rfl⟩ := List.mem_map.1 he'
    exact ⟨e, rfl, hg e he⟩
  · unfold lift
    dsimp only
    cases hres : (m (L.get t)).res with
    | ok a =>
        rw [hres] at hend
        exact ⟨_, _, rfl, hend⟩
    | error e => exact ⟨e, rfl⟩

/-- A program of the layer alone: it leaves the base as it is, and
reports and stops with nothing of the base. -/
def Own (k : Prog τ ω' ε' α) (P : α → Prop) (t : τ) : Prop :=
  Sat (fun _ => True) (fun e' => L.base e' = none) k t
    (fun a t' => L.get t' = L.get t ∧ P a) fun e' _ => L.cause e' = none

-- ========================================================= shadowing

/-- From `t` on, `m'` does below what `m` does; `r` reads the base's
result off the layer's. -/
def Shadows (r : α' → α) (m' : Prog τ ω' ε' α') (m : Prog σ ω ε α)
    (t : τ) : Prop :=
  match (m' t).res with
  | .ok a => m (L.get t)
      = ⟨.ok (r a), L.get (m' t).st, (m' t).log.filterMap L.base⟩
  | .error e' => ∀ e, L.cause e' = some e → m (L.get t)
      = ⟨.error e, L.get (m' t).st, (m' t).log.filterMap L.base⟩

namespace Shadows

variable {L} {r : α' → α} {t : τ} {m' : Prog τ ω' ε' α'} {m : Prog σ ω ε α}

/-- A normal end, seen from below. -/
theorem ok (h : L.Shadows r m' m t) {a : α'} {t' : τ} {l : List ω'}
    (hm : m' t = ⟨.ok a, t', l⟩) :
    m (L.get t) = ⟨.ok (r a), L.get t', l.filterMap L.base⟩ := by
  unfold Shadows at h
  rw [hm] at h
  exact h

/-- A lifted program shadows itself. -/
theorem lift (m : Prog σ ω ε α) (t : τ) : L.Shadows id (L.lift m) m t := by
  unfold Shadows Layer.lift
  cases hm : m (L.get t) with
  | mk res s l =>
      cases res with
      | ok a => simp only [raise, L.get_put, filterMap_event, id]
      | error e =>
          intro e' he'
          have hcause : some e = some e' := (L.cause_fault e).symm.trans he'
          cases hcause
          simp only [L.get_put, filterMap_event]

theorem pure (a : α') :
    L.Shadows r (Pure.pure a) (Pure.pure (r a)) t := rfl

theorem bind {r₂ : β' → β} {f' : α' → Prog τ ω' ε' β'}
    {f : α → Prog σ ω ε β} (hm : L.Shadows r m' m t)
    (hf : ∀ a t' l, m' t = ⟨.ok a, t', l⟩ →
      L.Shadows r₂ (f' a) (f (r a)) t') :
    L.Shadows r₂ (m' >>= f') (m >>= f) t := by
  unfold Shadows at hm ⊢
  rw [run_bind, run_bind]
  cases hrun : m' t with
  | mk res t' l =>
      rw [hrun] at hm
      cases res with
      | error e' =>
          intro e he
          rw [hm e he]
          rfl
      | ok a =>
          have hcont := hf a t' l hrun
          rw [show m (L.get t) = _ from hm]
          simp only [andThen_ok]
          unfold Shadows at hcont
          cases hrun' : f' a t' with
          | mk res' t'' l' =>
              rw [hrun'] at hcont
              cases res' with
              | ok b =>
                  rw [show f (r a) (L.get t') = _ from hcont]
                  simp
              | error e' =>
                  intro e he
                  rw [hcont e he]
                  simp

/-- What the layer does on its own at the end is not seen. -/
theorem followed {r₂ : β' → α} {k : α' → Prog τ ω' ε' β'}
    (hm : L.Shadows r m' m t)
    (hk : ∀ a t', L.Own (k a) (fun b => r₂ b = r a) t') :
    L.Shadows r₂ (m' >>= k) m t := by
  unfold Shadows at hm ⊢
  rw [run_bind]
  cases hrun : m' t with
  | mk res t' l =>
      rw [hrun] at hm
      cases res with
      | error e' => exact hm
      | ok a =>
          obtain ⟨hlog, hend⟩ := hk a t' fun _ _ => trivial
          have hnil := List.filterMap_eq_nil_iff.2 hlog
          rw [show m (L.get t) = _ from hm, andThen_ok]
          cases hres : (k a t').res with
          | ok b =>
              rw [hres] at hend
              simp [hend.1, hend.2, hnil]
          | error e' =>
              rw [hres] at hend
              intro e he
              rw [show L.cause e' = none from hend] at he
              cases he

/-- The result is read another way. -/
theorem map {r₂ : β' → α} {g : α' → β'} (hm : L.Shadows r m' m t)
    (hg : ∀ a, r₂ (g a) = r a) :
    L.Shadows r₂ (m' >>= fun a => Pure.pure (g a)) m t :=
  hm.followed fun a _ => Sat.pure ⟨rfl, hg a⟩

/-- Reading the state on both sides. -/
theorem get_bind {r₂ : β' → β} {f' : τ → Prog τ ω' ε' β'}
    {f : σ → Prog σ ω ε β} (hf : L.Shadows r₂ (f' t) (f (L.get t)) t) :
    L.Shadows r₂ (Prog.get >>= f') (Prog.get >>= f) t := hf

/-- Reading the state of the layer only. -/
theorem get_aside {r₂ : β' → β} {f' : τ → Prog τ ω' ε' β'}
    {m : Prog σ ω ε β} (hf : L.Shadows r₂ (f' t) m t) :
    L.Shadows r₂ (Prog.get >>= f') m t := hf

/-- What a base program satisfies, the programs that shadow it satisfy
below. -/
theorem sat {rely guar : ω → Prop} {Q : α → σ → Prop} {E : ε → σ → Prop}
    (h : L.Shadows r m' m t) (hm : Sat rely guar m (L.get t) Q E) :
    Sat (L.relies rely) (fun _ => True) m' t
      (fun a t' => Q (r a) (L.get t'))
      (fun e' t' => ∀ e, L.cause e' = some e → E e (L.get t')) := by
  intro hrely
  refine ⟨fun _ _ => trivial, ?_⟩
  have hbase := L.relies_iff.1 hrely
  unfold Shadows at h
  unfold Sat at hm
  cases hres : (m' t).res with
  | ok a =>
      rw [hres] at h
      rw [show m (L.get t) = _ from h] at hm
      exact (hm hbase).2
  | error e' =>
      rw [hres] at h
      intro e he
      rw [h e he] at hm
      exact (hm hbase).2

end Shadows

end Layer

end FemuRemap.Lib
