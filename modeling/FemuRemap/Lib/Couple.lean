/-
Two programs run side by side.

`Couples ev m m' s s' Q` says that `m` from `s` and `m'` from `s'` end
alike: both with a fault, or both with a value, and then the two values
and the two states are related by `Q`. Their events agree pairwise by
`ev`. The rules pair the two programs off statement by statement, so
what two versions of one function have in common is argued once for
both.
-/
import Mathlib.Data.List.Forall2
import FemuRemap.Lib.Prog

namespace FemuRemap.Lib

variable {σ σ' ω ω' ε ε' α α' β β' : Type}

/-- How two ends compare. -/
def Ended (Q : α → α' → Prop) : Except ε α → Except ε' α' → Prop
  | .ok a, .ok a' => Q a a'
  | .error _, .error _ => True
  | _, _ => False

/-- The two runs end alike, and their values and states are related. -/
def Couples (ev : ω → ω' → Prop) (m : Prog σ ω ε α) (m' : Prog σ' ω' ε' α')
    (s : σ) (s' : σ') (Q : α → α' → σ → σ' → Prop) : Prop :=
  List.Forall₂ ev (m s).log (m' s').log
    ∧ Ended (fun a a' => Q a a' (m s).st (m' s').st) (m s).res (m' s').res

namespace Couples

variable {ev : ω → ω' → Prop} {m : Prog σ ω ε α} {m' : Prog σ' ω' ε' α'}
  {f : α → Prog σ ω ε β} {f' : α' → Prog σ' ω' ε' β'} {s : σ} {s' : σ'}
  {Q R : α → α' → σ → σ' → Prop} {Q' : β → β' → σ → σ' → Prop}

theorem mono (h : Couples ev m m' s s' Q)
    (hQ : ∀ a a' t t', Q a a' t t' → R a a' t t') :
    Couples ev m m' s s' R := by
  obtain ⟨hlog, hend⟩ := h
  refine ⟨hlog, ?_⟩
  revert hend
  cases (m s).res with
  | error e =>
      cases (m' s').res with
      | error e' => exact id
      | ok a' => exact id
  | ok a =>
      cases (m' s').res with
      | error e' => exact id
      | ok a' => exact hQ a a' _ _

theorem bind (hm : Couples ev m m' s s' Q)
    (hf : ∀ a a' t t', Q a a' t t' →
      Couples ev (f a) (f' a') t t' Q') :
    Couples ev (m >>= f) (m' >>= f') s s' Q' := by
  obtain ⟨hlog, hend⟩ := hm
  unfold Couples
  rw [Prog.run_bind, Prog.run_bind]
  unfold Prog.andThen
  cases hres : (m s).res with
  | error e =>
      cases hres' : (m' s').res with
      | error e' => exact ⟨hlog, trivial⟩
      | ok a' =>
          rw [hres, hres'] at hend
          exact hend.elim
  | ok a =>
      cases hres' : (m' s').res with
      | error e' =>
          rw [hres, hres'] at hend
          exact hend.elim
      | ok a' =>
          rw [hres, hres'] at hend
          obtain ⟨hlog', hend'⟩ := hf a a' _ _ hend
          exact ⟨List.rel_append hlog hlog', hend'⟩

theorem pure {a : α} {a' : α'} (h : Q a a' s s') :
    Couples ev (Pure.pure a : Prog σ ω ε α) (Pure.pure a' : Prog σ' ω' ε' α')
      s s' Q :=
  ⟨.nil, h⟩

/-- Two faults are coupled, whatever the states. -/
theorem fault (e : ε) (e' : ε') :
    Couples ev (Prog.fault e : Prog σ ω ε α) (Prog.fault e' : Prog σ' ω' ε' α')
      s s' Q :=
  ⟨.nil, trivial⟩

theorem get_bind {g : σ → Prog σ ω ε β} {g' : σ' → Prog σ' ω' ε' β'}
    (h : Couples ev (g s) (g' s') s s' Q') :
    Couples ev (Prog.get >>= g) (Prog.get >>= g') s s' Q' := by
  unfold Couples
  rw [Prog.run_get_bind, Prog.run_get_bind]
  exact h

theorem modify {u : σ → σ} {u' : σ' → σ'} {Q : Unit → Unit → σ → σ' → Prop}
    (h : Q () () (u s) (u' s')) :
    Couples ev (Prog.modify u : Prog σ ω ε Unit)
      (Prog.modify u' : Prog σ' ω' ε' Unit) s s' Q :=
  ⟨.nil, h⟩

theorem modify_bind {u : σ → σ} {u' : σ' → σ'} {k : Unit → Prog σ ω ε β}
    {k' : Unit → Prog σ' ω' ε' β'}
    (h : Couples ev (k ()) (k' ()) (u s) (u' s') Q') :
    Couples ev (Prog.modify u >>= k) (Prog.modify u' >>= k') s s' Q' := by
  unfold Couples
  rw [Prog.run_modify_bind, Prog.run_modify_bind]
  exact h

theorem emit {e : ω} {e' : ω'} (he : ev e e')
    {Q : Unit → Unit → σ → σ' → Prop} (h : Q () () s s') :
    Couples ev (Prog.emit e : Prog σ ω ε Unit)
      (Prog.emit e' : Prog σ' ω' ε' Unit) s s' Q :=
  ⟨.cons he .nil, h⟩

/-- Two loops over the same elements. -/
theorem each {ι : Type} {g : ι → Prog σ ω ε Unit} {g' : ι → Prog σ' ω' ε' Unit}
    (J : List ι → σ → σ' → Prop) (l : List ι)
    (hg : ∀ l₁ j l₂ t t', l = l₁ ++ j :: l₂ → J l₁ t t' →
      Couples ev (g j) (g' j) t t' fun _ _ => J (l₁ ++ [j]))
    (h : J [] s s') :
    Couples ev (Prog.each g l) (Prog.each g' l) s s' fun _ _ => J l := by
  suffices key : ∀ l₂ l₁ t t', l = l₁ ++ l₂ → J l₁ t t' →
      Couples ev (Prog.each g l₂) (Prog.each g' l₂) t t'
        fun _ _ => J l from
    key l [] s s' rfl h
  intro l₂
  induction l₂ with
  | nil =>
      rintro l₁ t t' rfl hJ
      exact pure ((List.append_nil l₁).symm ▸ hJ)
  | cons j l₂ ih =>
      rintro l₁ t t' hl hJ
      exact bind (hg l₁ j l₂ t t' hl hJ) fun _ _ u u' hJ' =>
        ih (l₁ ++ [j]) u u' (by simpa using hl) hJ'

/-- Two loops over `0 .. n - 1`. -/
theorem each_range {g : Nat → Prog σ ω ε Unit} {g' : Nat → Prog σ' ω' ε' Unit}
    {n : Nat} (J : Nat → σ → σ' → Prop)
    (hg : ∀ j t t', j < n → J j t t' →
      Couples ev (g j) (g' j) t t' fun _ _ => J (j + 1))
    (h : J 0 s s') :
    Couples ev (Prog.each g (List.range n)) (Prog.each g' (List.range n)) s s'
      fun _ _ => J n := by
  refine mono (each (fun l => J l.length) _ ?_ h) fun _ _ t t' hJ => ?_
  · intro l₁ j l₂ t t' hl hJ
    obtain ⟨rfl, hj⟩ := Sat.range_split hl.symm
    rw [List.length_range] at hJ
    refine mono (hg j t t' hj hJ) fun _ _ u u' hJ' => ?_
    rw [List.length_append, List.length_range]
    exact hJ'
  · rw [List.length_range] at hJ
    exact hJ

/-- A value of the second run is matched by one of the first. -/
theorem ok_of_ok (h : Couples ev m m' s s' Q) {a' : α'}
    (ha : (m' s').res = .ok a') :
    ∃ a, (m s).res = .ok a ∧ Q a a' (m s).st (m' s').st := by
  obtain ⟨-, hend⟩ := h
  rw [ha] at hend
  cases hres : (m s).res with
  | error e =>
      rw [hres] at hend
      exact hend.elim
  | ok a =>
      rw [hres] at hend
      exact ⟨a, rfl, hend⟩

end Couples

end FemuRemap.Lib
