/-
`while` loops, by their body: from a state it gives what one iteration
visits and the next state, or nothing once the guard fails.

`Loops body s l t` says that the loop ends: it goes from `s` to `t` and
visits `l`. No measure is asked for; a loop that runs on is in no such
relation.
-/
import Mathlib.Tactic.Common

namespace FemuRemap.Lib

variable {σ τ α β : Type}

/-- A run of a loop to its end. -/
inductive Loops (body : σ → Option (α × σ)) : σ → List α → σ → Prop
  | stop {s : σ} : body s = none → Loops body s [] s
  | next {s s' t : σ} {a : α} {l : List α} : body s = some (a, s') →
      Loops body s' l t → Loops body s (a :: l) t

namespace Loops

variable {body : σ → Option (α × σ)} {s t : σ} {l : List α}

/-- A loop whose iterations are those of another, seen through `R` and
with visits mapped by `f`, runs as that one does. -/
theorem simulate {body' : τ → Option (β × τ)} {R : σ → τ → Prop}
    (f : α → β) (hstop : ∀ s u, R s u → body s = none → body' u = none)
    (hnext : ∀ s u a s', R s u → body s = some (a, s') →
      ∃ u', body' u = some (f a, u') ∧ R s' u')
    (h : Loops body s l t) {u : τ} (hR : R s u) :
    ∃ v, Loops body' u (l.map f) v ∧ R t v := by
  induction h generalizing u with
  | stop hnone => exact ⟨u, .stop (hstop _ u hR hnone), hR⟩
  | next hsome _ ih =>
      obtain ⟨u', hbody, hR'⟩ := hnext _ u _ _ hR hsome
      obtain ⟨v, hrun, hend⟩ := ih hR'
      exact ⟨v, .next hbody hrun, hend⟩

end Loops

end FemuRemap.Lib
