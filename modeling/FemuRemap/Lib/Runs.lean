/-
Runs of a machine whose steps may fail.

`runs step s as` takes the actions `as` one after the other and stops at
the first failure. What every step keeps, a run keeps (`invariant`); a
machine whose actions are actions of a larger one runs inside it
(`map_ok`).
-/
import Mathlib.Tactic.Common

namespace FemuRemap.Lib

variable {σ τ α β ε : Type}

/-- When a mapped computation succeeds. -/
theorem map_ok_iff {x : Except ε α} {f : α → β} {b : β} :
    x.map f = .ok b ↔ ∃ a, x = .ok a ∧ f a = b := by
  cases x with
  | error e => exact iff_of_false nofun (fun ⟨_, h, _⟩ => nomatch h)
  | ok a =>
      constructor
      · intro h
        cases h
        exact ⟨a, rfl, rfl⟩
      · intro h
        obtain ⟨_, h, rfl⟩ := h
        cases h
        rfl

@[simp] theorem ok_bind {a : α} {f : α → Except ε β} :
    (Except.ok a >>= f) = f a := rfl

/-- All steps in order, stopping at the first error. -/
def runs (step : σ → α → Except ε σ) (s : σ) (as : List α) : Except ε σ :=
  as.foldlM step s

namespace runs

variable {step : σ → α → Except ε σ} {s s' : σ} {a : α} {as bs : List α}

@[simp] theorem nil : runs step s [] = .ok s := rfl

/-- A run succeeds when its first step does and the rest from there. -/
theorem cons_ok_iff : runs step s (a :: as) = .ok s' ↔
    ∃ t, step s a = .ok t ∧ runs step t as = .ok s' := by
  rw [runs, List.foldlM_cons]
  cases hstep : step s a with
  | error e => exact iff_of_false nofun (fun ⟨_, ht, _⟩ => nomatch ht)
  | ok t =>
      constructor
      · exact fun h => ⟨t, rfl, h⟩
      · intro h
        obtain ⟨_, ht, h⟩ := h
        cases ht
        exact h

/-- A first step that succeeds can be taken off. -/
theorem cons_ok {t : σ} (h : step s a = .ok t) :
    runs step s (a :: as) = runs step t as := by
  rw [runs, List.foldlM_cons, h]
  rfl

/-- A first step that fails is how the run fails. -/
theorem cons_error {e : ε} (h : step s a = .error e) :
    runs step s (a :: as) = .error e := by
  rw [runs, List.foldlM_cons, h]
  rfl

theorem append_ok_iff : runs step s (as ++ bs) = .ok s' ↔
    ∃ t, runs step s as = .ok t ∧ runs step t bs = .ok s' := by
  induction as generalizing s with
  | nil => simp
  | cons a as ih =>
      rw [List.cons_append, cons_ok_iff]
      constructor
      · intro h
        obtain ⟨t, ht, h⟩ := h
        obtain ⟨u, hu, h⟩ := ih.1 h
        exact ⟨u, cons_ok_iff.2 ⟨t, ht, hu⟩, h⟩
      · intro h
        obtain ⟨u, hu, h⟩ := h
        obtain ⟨t, ht, hu⟩ := cons_ok_iff.1 hu
        exact ⟨t, ht, ih.2 ⟨u, hu, h⟩⟩

/-- What every step keeps holds after a run. -/
theorem invariant {P : σ → Prop}
    (hstep : ∀ s a s', P s → step s a = .ok s' → P s')
    (hs : P s) (h : runs step s as = .ok s') : P s' := by
  induction as generalizing s with
  | nil =>
      cases h
      exact hs
  | cons a as ih =>
      obtain ⟨t, ht, h⟩ := cons_ok_iff.1 h
      exact ih (hstep s a t hs ht) h

/-- A run in which every step does its own part and spoils no other. -/
theorem each (P : σ → Prop) (done : σ → α → Prop)
    (hstep : ∀ s a, P s → ∃ s', step s a = .ok s' ∧ P s' ∧ done s' a ∧
      ∀ b, done s b → done s' b)
    (hs : P s) :
    ∃ s', runs step s as = .ok s' ∧ P s' ∧ (∀ a ∈ as, done s' a) ∧
      ∀ b, done s b → done s' b := by
  induction as generalizing s with
  | nil => exact ⟨s, rfl, hs, nofun, fun _ => id⟩
  | cons a as ih =>
      obtain ⟨t, ht, hP, ha, hkeep⟩ := hstep s a hs
      obtain ⟨s', hs', hP', has, hkeep'⟩ := ih hP
      exact ⟨s', cons_ok_iff.2 ⟨t, ht, hs'⟩, hP',
        List.forall_mem_cons.2 ⟨hkeep' a ha, has⟩,
        fun b hb => hkeep' b (hkeep b hb)⟩

/-- The small machine is a part `put` of the large one. -/
theorem map_ok {step' : τ → β → Except ε τ} (put : σ → τ) {f : α → β}
    (hstep : ∀ s a s', step s a = .ok s' → step' (put s) (f a) = .ok (put s'))
    (h : runs step s as = .ok s') :
    runs step' (put s) (as.map f) = .ok (put s') := by
  induction as generalizing s with
  | nil =>
      cases h
      rfl
  | cons a as ih =>
      obtain ⟨t, ht, h⟩ := cons_ok_iff.1 h
      rw [List.map_cons]
      exact cons_ok_iff.2 ⟨put t, hstep s a t ht, ih h⟩

end runs

end FemuRemap.Lib
