/-
Programs that follow a transition system with their events.

`act` reads some of a program's events as actions of a labelled
transition system `path`. `Follows path act guar m x s Q` says that the
actions among the events of `m`, run from `s`, lead from `x` to a state
of that system, also where `m` stops at a fault, and that what `m`
returns relates to it by `Q`. Unlike `Sat` this speaks of the events in
their order. The actions of a run are those of its parts one after the
other (`Follows.bind`), so a system that composes can be followed
function by function.
-/
import FemuRemap.Lib.Prog

namespace FemuRemap.Lib

variable {X A σ ω ε α β : Type}

/-- A labelled transition relation that composes. -/
structure Paths (path : X → List A → X → Prop) : Prop where
  nil : ∀ x, path x [] x
  trans : ∀ {x y z l l'}, path x l y → path y l' z → path x (l ++ l') z

/-- The events of the run are allowed and its actions lead on from `x`. -/
def Follows (path : X → List A → X → Prop) (act : ω → Option A)
    (guar : ω → Prop) (m : Prog σ ω ε α) (x : X) (s : σ)
    (Q : α → X → σ → Prop) : Prop :=
  (∀ e ∈ (m s).log, guar e)
    ∧ ∃ y, path x ((m s).log.filterMap act) y
      ∧ ∀ a, (m s).res = .ok a → Q a y (m s).st

namespace Follows

variable {path : X → List A → X → Prop} {act : ω → Option A}
  {guar : ω → Prop} {m : Prog σ ω ε α} {f : α → Prog σ ω ε β}
  {x y : X} {s : σ} {Q R : α → X → σ → Prop} {Q' : β → X → σ → Prop}

theorem mono (h : Follows path act guar m x s Q)
    (hQ : ∀ a y s', Q a y s' → R a y s') :
    Follows path act guar m x s R := by
  obtain ⟨hg, y, hp, hr⟩ := h
  exact ⟨hg, y, hp, fun a ha => hQ a y _ (hr a ha)⟩

/-- One after the other, where the path is left off. -/
theorem bind (hp : Paths path) (hm : Follows path act guar m x s Q)
    (hf : ∀ a y s', Q a y s' → Follows path act guar (f a) y s' Q') :
    Follows path act guar (m >>= f) x s Q' := by
  obtain ⟨hg, y, hpath, hQ⟩ := hm
  unfold Follows
  rw [Prog.run_bind]
  cases hres : (m s).res with
  | error e =>
      have hout : m s = ⟨.error e, (m s).st, (m s).log⟩ := by rw [← hres]
      rw [hout, Prog.andThen_error]
      exact ⟨hg, y, hpath, nofun⟩
  | ok a =>
      have hout : m s = ⟨.ok a, (m s).st, (m s).log⟩ := by rw [← hres]
      obtain ⟨hg', z, hpath', hQ'⟩ := hf a y _ (hQ a hres)
      rw [hout, Prog.andThen_ok]
      refine ⟨List.forall_mem_append.2 ⟨hg, hg'⟩, z, ?_, hQ'⟩
      rw [List.filterMap_append]
      exact hp.trans hpath hpath'

theorem pure (hp : Paths path) {a : α} (h : Q a x s) :
    Follows path act guar (Pure.pure a : Prog σ ω ε α) x s Q := by
  refine ⟨by simp, x, hp.nil x, ?_⟩
  rintro _ ⟨⟩
  exact h

theorem get_bind {g : σ → Prog σ ω ε β}
    (h : Follows path act guar (g s) x s Q') :
    Follows path act guar (Prog.get >>= g) x s Q' := by
  unfold Follows
  rw [Prog.run_get_bind]
  exact h

/-- A fault leaves the path where it is. -/
theorem fault (hp : Paths path) (e : ε) :
    Follows path act guar (Prog.fault e : Prog σ ω ε α) x s Q :=
  ⟨by simp [Prog.fault], x, hp.nil x, nofun⟩

/-- An update of the state is not seen on the path. -/
theorem modify_bind {g : σ → σ} {k : Unit → Prog σ ω ε β}
    (h : Follows path act guar (k ()) x (g s) Q') :
    Follows path act guar (Prog.modify g >>= k) x s Q' := by
  unfold Follows
  rw [Prog.run_modify_bind]
  exact h

theorem modify (hp : Paths path) {g : σ → σ} {Q : Unit → X → σ → Prop}
    (h : Q () x (g s)) :
    Follows path act guar (Prog.modify g : Prog σ ω ε Unit) x s Q := by
  refine ⟨by simp, x, hp.nil x, ?_⟩
  rintro _ ⟨⟩
  exact h

/-- An event that is an action. -/
theorem emit {e : ω} {Q : Unit → X → σ → Prop}
    (hg : guar e) (hy : path x (act e).toList y) (h : Q () y s) :
    Follows path act guar (Prog.emit e : Prog σ ω ε Unit) x s Q := by
  refine ⟨by simpa using hg, y, ?_, ?_⟩
  · rw [Prog.run_emit]
    cases he : act e <;> simpa [he] using hy
  · rintro _ ⟨⟩
    exact h

/-- The system moves on its own when the program has ended. -/
theorem after (hp : Paths path) (h : Follows path act guar m x s Q)
    (hR : ∀ a y s', Q a y s' → ∃ z, path y [] z ∧ R a z s') :
    Follows path act guar m x s R := by
  obtain ⟨hg, y, hpath, hQ⟩ := h
  refine ⟨hg, ?_⟩
  cases hres : (m s).res with
  | error e => exact ⟨y, hpath, nofun⟩
  | ok a =>
      obtain ⟨z, hz, hRz⟩ := hR a y _ (hQ a hres)
      refine ⟨z, ?_, ?_⟩
      · have := hp.trans hpath hz
        rwa [List.append_nil] at this
      · rintro _ ⟨⟩
        exact hRz

/-- A loop over a list, with an invariant on the part that is done. -/
theorem each (hp : Paths path) {ι : Type} {g : ι → Prog σ ω ε Unit}
    (J : List ι → X → σ → Prop) (l : List ι)
    (hg : ∀ l₁ j l₂ y s', l = l₁ ++ j :: l₂ → J l₁ y s' →
      Follows path act guar (g j) y s' fun _ => J (l₁ ++ [j]))
    (h : J [] x s) :
    Follows path act guar (Prog.each g l) x s fun _ => J l := by
  suffices key : ∀ l₂ l₁ y s', l = l₁ ++ l₂ → J l₁ y s' →
      Follows path act guar (Prog.each g l₂) y s' fun _ => J l from
    key l [] x s rfl h
  intro l₂
  induction l₂ with
  | nil =>
      rintro l₁ y s' rfl hJ
      exact pure hp ((List.append_nil l₁).symm ▸ hJ)
  | cons j l₂ ih =>
      rintro l₁ y s' hl hJ
      exact bind hp (hg l₁ j l₂ y s' hl hJ) fun _ z s'' hJ' =>
        ih (l₁ ++ [j]) z s'' (by simpa using hl) hJ'

/-- A loop over `0 .. n - 1`. -/
theorem each_range (hp : Paths path) {g : Nat → Prog σ ω ε Unit} {n : Nat}
    (J : Nat → X → σ → Prop)
    (hg : ∀ j y s', j < n → J j y s' →
      Follows path act guar (g j) y s' fun _ => J (j + 1))
    (h : J 0 x s) :
    Follows path act guar (Prog.each g (List.range n)) x s
      fun _ => J n := by
  refine mono (each hp (fun l => J l.length) _ ?_ h) fun _ y s' hJ => ?_
  · intro l₁ j l₂ y s' hl hJ
    obtain ⟨rfl, hj⟩ := Sat.range_split hl.symm
    rw [List.length_range] at hJ
    simpa using hg j y s' hj hJ
  · rwa [List.length_range] at hJ

/-- A program without actions stays where it is. -/
theorem of_sat (hp : Paths path) {rely guar' : ω → Prop}
    {E : ε → σ → Prop} {P : α → σ → Prop} (hr : ∀ e, rely e)
    (h : Sat rely guar' m s P E)
    (hg : ∀ e, guar' e → guar e ∧ act e = none) :
    Follows path act guar m x s fun a y s' => x = y ∧ P a s' := by
  have hlog := h fun e _ => hr e
  refine ⟨fun e he => (hg e (hlog.1 e he)).1, x, ?_, fun a ha => ?_⟩
  · rw [List.filterMap_eq_nil_iff.2 fun e he => (hg e (hlog.1 e he)).2]
    exact hp.nil x
  · have hP := hlog.2
    rw [ha] at hP
    exact ⟨rfl, hP⟩

/-- What remains when the order of the actions is forgotten. -/
theorem sat {rely : ω → Prop} (h : Follows path act guar m x s Q) :
    Sat rely guar m s (fun a s' => ∃ y, Q a y s') fun _ _ => True := by
  obtain ⟨hg, y, -, hQ⟩ := h
  refine fun _ => ⟨hg, ?_⟩
  cases hres : (m s).res with
  | ok a => exact ⟨y, hQ a hres⟩
  | error e => trivial

end Follows

end FemuRemap.Lib
