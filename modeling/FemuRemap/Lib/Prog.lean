/-
Programs over an explicit state that may stop with a fault and that
report events as they go.

# The monad

`Prog σ ω ε α` reads and writes a state `σ`, reports events `ω`, and
ends with a value or with a fault `ε`. The events are an output and not
part of the state: a program cannot take back what it reported, so
whatever holds of all events of a run holds of all events of each of
its parts. A fault keeps the state and the events up to it.

# The judgement

`Sat rely guar m s Q E` is a weakest precondition with a rely and a
guarantee on events: if every event that `m` reports from `s` satisfies
`rely`, then every one of them satisfies `guar`, a normal end satisfies
`Q` and a fault satisfies `E`. The rules below take a program apart
along its binds; a callee enters a caller's proof through `Sat.bind`
with its own judgement. `Within` is the weaker judgement for what a
program leaves alone, from any state and whatever its end.
-/
import Mathlib.Tactic.Common

namespace FemuRemap.Lib

/-- What a program did: its end, the state it left, and the events it
reported, oldest first. -/
structure Out (σ ω ε α : Type) where
  res : Except ε α
  st : σ
  log : List ω

/-- An outcome by its result. -/
theorem Out.eq_of_res {σ ω ε α : Type} {o : Out σ ω ε α} {a : α}
    (h : o.res = .ok a) :
    o = ⟨.ok a, o.st, o.log⟩ := by
  rw [← h]

/-- A program: from a state to an outcome. -/
def Prog (σ ω ε α : Type) : Type := σ → Out σ ω ε α

namespace Prog

variable {σ ω ε α β : Type}

/-- Run the continuation of a finished program. -/
def andThen (o : Out σ ω ε α) (f : α → Prog σ ω ε β) : Out σ ω ε β :=
  match o.res with
  | .ok a =>
      let o' := f a o.st
      ⟨o'.res, o'.st, o.log ++ o'.log⟩
  | .error e => ⟨.error e, o.st, o.log⟩

instance : Monad (Prog σ ω ε) where
  pure a := fun s => ⟨.ok a, s, []⟩
  bind m f := fun s => andThen (m s) f

/-- The current state. -/
def get : Prog σ ω ε σ := fun s => ⟨.ok s, s, []⟩

/-- Change the state. -/
def modify (f : σ → σ) : Prog σ ω ε Unit := fun s => ⟨.ok (), f s, []⟩

/-- Report an event. -/
def emit (e : ω) : Prog σ ω ε Unit := fun s => ⟨.ok (), s, [e]⟩

/-- Stop with a fault. -/
def fault (e : ε) : Prog σ ω ε α := fun s => ⟨.error e, s, []⟩

/-- Run a body once for each element: `for` without an early exit. -/
def each {ι : Type} (f : ι → Prog σ ω ε Unit) :
    List ι → Prog σ ω ε Unit
  | [] => pure ()
  | i :: is => do f i; each f is

-- ======================================================= running

@[simp] theorem run_pure (a : α) (s : σ) :
    (pure a : Prog σ ω ε α) s = ⟨.ok a, s, []⟩ := rfl

/-- A sequence runs the rest where the first part ends. -/
theorem run_bind (m : Prog σ ω ε α) (f : α → Prog σ ω ε β) (s : σ) :
    (m >>= f) s = andThen (m s) f := rfl

@[simp] theorem run_get (s : σ) :
    (get : Prog σ ω ε σ) s = ⟨.ok s, s, []⟩ := rfl

@[simp] theorem run_modify (f : σ → σ) (s : σ) :
    (modify f : Prog σ ω ε Unit) s = ⟨.ok (), f s, []⟩ := rfl

@[simp] theorem run_emit (e : ω) (s : σ) :
    (emit e : Prog σ ω ε Unit) s = ⟨.ok (), s, [e]⟩ := rfl

@[simp] theorem run_fault (e : ε) (s : σ) :
    (fault e : Prog σ ω ε α) s = ⟨.error e, s, []⟩ := rfl

/-- The trace goes on after a result, -/
@[simp] theorem andThen_ok (a : α) (s : σ) (l : List ω)
    (f : α → Prog σ ω ε β) :
    andThen ⟨.ok a, s, l⟩ f
      = ⟨(f a s).res, (f a s).st, l ++ (f a s).log⟩ := rfl

/-- and stops at a fault. -/
@[simp] theorem andThen_error (e : ε) (s : σ) (l : List ω)
    (f : α → Prog σ ω ε β) :
    andThen ⟨.error e, s, l⟩ f = ⟨.error e, s, l⟩ := rfl

theorem run_get_bind (f : σ → Prog σ ω ε β) (s : σ) :
    (get >>= f) s = f s s := rfl

theorem run_modify_bind (g : σ → σ) (f : Unit → Prog σ ω ε β) (s : σ) :
    (modify g >>= f) s = f () (g s) := rfl

/-- A first part whose run is known and silent. -/
theorem run_silent_bind {m : Prog σ ω ε α} {f : α → Prog σ ω ε β} {a : α}
    {s s' : σ} (h : m s = ⟨.ok a, s', []⟩) : (m >>= f) s = f a s' := by
  rw [run_bind, h]
  rfl

/-- A sequence that ends normally, taken apart. -/
theorem bind_ok {m : Prog σ ω ε α} {f : α → Prog σ ω ε β} {s s' : σ}
    {b : β} {l : List ω} (h : (m >>= f) s = ⟨.ok b, s', l⟩) :
    ∃ a s₁ l₁ l₂, m s = ⟨.ok a, s₁, l₁⟩ ∧ f a s₁ = ⟨.ok b, s', l₂⟩
      ∧ l = l₁ ++ l₂ := by
  rw [run_bind, andThen] at h
  cases hm : m s with
  | mk res st log =>
      cases res with
      | error e =>
          rw [hm] at h
          cases h
      | ok a =>
          rw [hm] at h
          cases hf : f a st with
          | mk res' st' log' =>
              simp only [hf] at h
              cases h
              exact ⟨a, st, log, log', rfl, hf, rfl⟩

/-- A result that is replaced does not hide the run. -/
theorem bind_pure_ok {m : Prog σ ω ε α} {b b' : β} {s s' : σ} {l : List ω}
    (h : (m >>= fun _ => pure b) s = ⟨.ok b', s', l⟩) :
    ∃ a, m s = ⟨.ok a, s', l⟩ := by
  obtain ⟨a, s₁, l₁, _, hm, hend, rfl⟩ := bind_ok h
  cases hend
  exact ⟨a, by rw [hm, List.append_nil]⟩

end Prog

open Prog

variable {σ ω ε α β : Type}

-- ===================================================== the judgement

/-- Under `rely` on the events, `m` run from `s` guarantees `guar` of
them and ends in `Q` or faults in `E`. -/
def Sat (rely guar : ω → Prop) (m : Prog σ ω ε α) (s : σ)
    (Q : α → σ → Prop) (E : ε → σ → Prop) : Prop :=
  (∀ e ∈ (m s).log, rely e) →
    (∀ e ∈ (m s).log, guar e) ∧
      match (m s).res with
      | .ok a => Q a (m s).st
      | .error e => E e (m s).st

namespace Sat

variable {rely guar : ω → Prop} {s : σ}

theorem pure {a : α} {Q : α → σ → Prop} {E : ε → σ → Prop}
    (h : Q a s) : Sat rely guar (Pure.pure a : Prog σ ω ε α) s Q E :=
  fun _ => ⟨by simp, h⟩

theorem get {Q : σ → σ → Prop} {E : ε → σ → Prop}
    (h : Q s s) : Sat rely guar (Prog.get : Prog σ ω ε σ) s Q E :=
  fun _ => ⟨by simp, h⟩

theorem modify {f : σ → σ} {Q : Unit → σ → Prop} {E : ε → σ → Prop}
    (h : Q () (f s)) :
    Sat rely guar (Prog.modify f : Prog σ ω ε Unit) s Q E :=
  fun _ => ⟨by simp, h⟩

theorem emit {e : ω} {Q : Unit → σ → Prop} {E : ε → σ → Prop}
    (h : rely e → guar e ∧ Q () s) :
    Sat rely guar (Prog.emit e : Prog σ ω ε Unit) s Q E := by
  intro hr
  obtain ⟨hg, hq⟩ := h (hr e (by simp))
  exact ⟨by simpa using hg, hq⟩

theorem fault {e : ε} {Q : α → σ → Prop} {E : ε → σ → Prop}
    (h : E e s) : Sat rely guar (Prog.fault e : Prog σ ω ε α) s Q E :=
  fun _ => ⟨by simp, h⟩

/-- Weakening the two postconditions. -/
theorem mono {m : Prog σ ω ε α} {Q Q' : α → σ → Prop}
    {E E' : ε → σ → Prop} (h : Sat rely guar m s Q E)
    (hQ : ∀ a s', Q a s' → Q' a s') (hE : ∀ e s', E e s' → E' e s') :
    Sat rely guar m s Q' E' := by
  intro hr
  obtain ⟨hg, hm⟩ := h hr
  refine ⟨hg, ?_⟩
  cases hres : (m s).res with
  | ok a => rw [hres] at hm; exact hQ _ _ hm
  | error e => rw [hres] at hm; exact hE _ _ hm

/-- Sequencing: the callee's judgement, then the continuation's from
every state the callee may leave. -/
theorem bind {m : Prog σ ω ε α} {f : α → Prog σ ω ε β}
    {R : α → σ → Prop} {Q : β → σ → Prop} {E : ε → σ → Prop}
    (hm : Sat rely guar m s R E)
    (hf : ∀ a s', R a s' → Sat rely guar (f a) s' Q E) :
    Sat rely guar (m >>= f) s Q E := by
  intro hr
  rw [run_bind] at hr ⊢
  unfold andThen at hr ⊢
  cases hres : (m s).res with
  | error e =>
      rw [hres] at hr
      obtain ⟨hg, hE⟩ := hm hr
      rw [hres] at hE
      exact ⟨hg, hE⟩
  | ok a =>
      rw [hres] at hr
      have hr₁ : ∀ e ∈ (m s).log, rely e := fun e he =>
        hr e (List.mem_append_left _ he)
      obtain ⟨hg₁, hR⟩ := hm hr₁
      rw [hres] at hR
      have hr₂ : ∀ e ∈ (f a (m s).st).log, rely e := fun e he =>
        hr e (List.mem_append_right _ he)
      obtain ⟨hg₂, hQ⟩ := hf a _ hR hr₂
      refine ⟨fun e he => ?_, hQ⟩
      rcases List.mem_append.1 he with he | he
      · exact hg₁ e he
      · exact hg₂ e he

theorem pure_bind {a : α} {f : α → Prog σ ω ε β} {Q : β → σ → Prop}
    {E : ε → σ → Prop} (h : Sat rely guar (f a) s Q E) :
    Sat rely guar (Pure.pure a >>= f) s Q E := h

/-- Reading the state continues with it. -/
theorem get_bind {f : σ → Prog σ ω ε β} {Q : β → σ → Prop}
    {E : ε → σ → Prop} (h : Sat rely guar (f s) s Q E) :
    Sat rely guar (Prog.get >>= f) s Q E := h

/-- A change of state continues from the new one. -/
theorem modify_bind {g : σ → σ} {f : Unit → Prog σ ω ε β}
    {Q : β → σ → Prop} {E : ε → σ → Prop}
    (h : Sat rely guar (f ()) (g s) Q E) :
    Sat rely guar (Prog.modify g >>= f) s Q E := h

/-- A reported event may be relied on in the continuation. -/
theorem emit_bind {e : ω} {f : Unit → Prog σ ω ε β} {Q : β → σ → Prop}
    {E : ε → σ → Prop}
    (h : rely e → guar e ∧ Sat rely guar (f ()) s Q E) :
    Sat rely guar (Prog.emit e >>= f) s Q E := by
  refine Sat.bind (R := fun _ s' => s' = s ∧ rely e) ?_ ?_
  · exact Sat.emit fun hr => ⟨(h hr).1, rfl, hr⟩
  · rintro _ _ ⟨rfl, hr⟩
    exact (h hr).2

/-- A callee whose run is known and silent. -/
theorem silent_bind {m : Prog σ ω ε α} {f : α → Prog σ ω ε β} {a : α}
    {s' : σ} {Q : β → σ → Prop} {E : ε → σ → Prop}
    (hm : m s = ⟨.ok a, s', []⟩) (h : Sat rely guar (f a) s' Q E) :
    Sat rely guar (m >>= f) s Q E := by
  unfold Sat at h ⊢
  rw [Prog.run_bind, hm]
  exact h

/-- How a program ends, when nothing is asked of its events. -/
theorem ends {m : Prog σ ω ε α} {Q : α → σ → Prop} {E : ε → σ → Prop}
    (h : Sat (fun _ => True) (fun _ => True) m s Q E) :
    match (m s).res with
    | .ok a => Q a (m s).st
    | .error e => E e (m s).st :=
  (h fun _ _ => trivial).2

/-- Nothing is asked of a program. -/
theorem any {m : Prog σ ω ε α} :
    Sat rely (fun _ => True) m s (fun _ _ => True) fun _ _ => True := by
  refine fun _ => ⟨fun _ _ => trivial, ?_⟩
  cases (m s).res <;> trivial

/-- Two postconditions under one assumption on the events. -/
theorem both {G : ω → Prop} {m : Prog σ ω ε α} {Q Q' : α → σ → Prop}
    {E E' : ε → σ → Prop} (h : Sat rely guar m s Q E)
    (h' : Sat rely G m s Q' E') :
    Sat rely guar m s (fun a s' => Q a s' ∧ Q' a s') E := by
  intro hr
  obtain ⟨hg, hend⟩ := h hr
  have hend' := (h' hr).2
  refine ⟨hg, ?_⟩
  cases hres : (m s).res with
  | error e =>
      rw [hres] at hend
      exact hend
  | ok a =>
      rw [hres] at hend hend'
      exact ⟨hend, hend'⟩

/-- A stronger guarantee gives a weaker one. -/
theorem weaken {guar' : ω → Prop} {m : Prog σ ω ε α}
    {Q : α → σ → Prop} {E : ε → σ → Prop}
    (h : Sat rely guar m s Q E) (hg : ∀ e, guar e → guar' e) :
    Sat rely guar' m s Q E := fun hr =>
  ⟨fun e he => hg e ((h hr).1 e he), (h hr).2⟩

/-- A stronger rely asks for less. -/
theorem relying {rely' : ω → Prop} {m : Prog σ ω ε α}
    {Q : α → σ → Prop} {E : ε → σ → Prop}
    (h : Sat rely guar m s Q E) (hr : ∀ e, rely' e → rely e) :
    Sat rely' guar m s Q E := fun hr' =>
  h fun e he => hr e (hr' e he)

/-- What needs no assumption on the events holds besides. -/
theorem and {G : ω → Prop} {m : Prog σ ω ε α} {Q Q' : α → σ → Prop}
    {E E' : ε → σ → Prop} (h : Sat rely guar m s Q E)
    (h' : Sat (fun _ => True) G m s Q' E') :
    Sat rely guar m s (fun a s' => Q a s' ∧ Q' a s') E :=
  h.both (h'.relying fun _ _ => trivial)

/-- A judgement read off a finished run. -/
theorem of_ok {m : Prog σ ω ε α} {Q : α → σ → Prop} {E : ε → σ → Prop}
    {a : α} {s' : σ} {log : List ω} (h : Sat rely guar m s Q E)
    (hm : m s = ⟨.ok a, s', log⟩) (hr : ∀ e ∈ log, rely e) :
    (∀ e ∈ log, guar e) ∧ Q a s' := by
  have hend := h (by rw [hm]; exact hr)
  rw [hm] at hend
  exact hend

/-- One more step of a run. -/
theorem extend {m : Prog σ ω ε α} {P : σ → Prop} {E : ε → σ → Prop}
    {a : α} {s' : σ} {tr log : List ω}
    (ih : (∀ e ∈ tr, rely e) → P s ∧ ∀ e ∈ tr, guar e)
    (h : P s → Sat rely guar m s (fun _ s' => P s') E)
    (hm : m s = ⟨.ok a, s', log⟩) (hr : ∀ e ∈ tr ++ log, rely e) :
    P s' ∧ ∀ e ∈ tr ++ log, guar e := by
  obtain ⟨hr₁, hr₂⟩ := List.forall_mem_append.1 hr
  obtain ⟨hP, hg⟩ := ih hr₁
  obtain ⟨hg', hP'⟩ := of_ok (h hP) hm hr₂
  exact ⟨hP', List.forall_mem_append.2 ⟨hg, hg'⟩⟩

/-- The result in the postcondition is the one returned. -/
theorem and_res {m : Prog σ ω ε α} {Q : α → σ → Prop} {E : ε → σ → Prop}
    (h : Sat rely guar m s Q E) :
    Sat rely guar m s (fun a s' => Q a s' ∧ (m s).res = .ok a) E := by
  intro hr
  obtain ⟨hg, hQ⟩ := h hr
  refine ⟨hg, ?_⟩
  cases hres : (m s).res with
  | ok a => rw [hres] at hQ; exact ⟨hQ, rfl⟩
  | error e => rw [hres] at hQ; exact hQ

/-- The state in the postcondition is the one it ends in. -/
theorem and_st {m : Prog σ ω ε α} {Q : α → σ → Prop} {E : ε → σ → Prop}
    (h : Sat rely guar m s Q E) :
    Sat rely guar m s (fun a s' => Q a s' ∧ s' = (m s).st) E := by
  intro hr
  obtain ⟨hg, hQ⟩ := h hr
  refine ⟨hg, ?_⟩
  cases hres : (m s).res with
  | ok a => rw [hres] at hQ; exact ⟨hQ, rfl⟩
  | error e => rw [hres] at hQ; exact hQ

/-- The rule of `each`: an invariant indexed by what has been run so
far. -/
theorem each {ι : Type} {f : ι → Prog σ ω ε Unit} {l : List ι}
    {E : ε → σ → Prop} (I : List ι → σ → Prop)
    (hstep : ∀ done i rest s', done ++ i :: rest = l → I done s' →
      Sat rely guar (f i) s' (fun _ s'' => I (done ++ [i]) s'') E)
    (hinit : I [] s) :
    Sat rely guar (Prog.each f l) s (fun _ s' => I l s') E := by
  suffices key : ∀ rest done s', done ++ rest = l → I done s' →
      Sat rely guar (Prog.each f rest) s' (fun _ s'' => I l s'') E from
    key l [] s rfl hinit
  intro rest
  induction rest with
  | nil =>
      intro done s' hl hi
      rw [List.append_nil] at hl
      subst hl
      exact Sat.pure hi
  | cons i rest ih =>
      intro done s' hl hi
      refine Sat.bind (hstep done i rest s' hl hi) fun _ s'' hi' => ?_
      exact ih (done ++ [i]) s'' (by simpa using hl) hi'

/-- The rule of a loop with an accumulator. A step continues with the
rest of the loop from every state and value that keep the invariant. -/
theorem loop {ι γ : Type} {F : List ι → γ → Prog σ ω ε β} {l : List ι}
    {Q : β → σ → Prop} {E : ε → σ → Prop} (I : List ι → γ → σ → Prop)
    (hnil : ∀ a s', I l a s' → Sat rely guar (F [] a) s' Q E)
    (hstep : ∀ done i rest a s', done ++ i :: rest = l → I done a s' →
      (∀ a' s'', I (done ++ [i]) a' s'' →
        Sat rely guar (F rest a') s'' Q E) →
      Sat rely guar (F (i :: rest) a) s' Q E)
    {a : γ} (hinit : I [] a s) : Sat rely guar (F l a) s Q E := by
  suffices key : ∀ rest done a s', done ++ rest = l → I done a s' →
      Sat rely guar (F rest a) s' Q E from key l [] a s rfl hinit
  intro rest
  induction rest with
  | nil =>
      intro done a s' hl hi
      rw [List.append_nil] at hl
      subst hl
      exact hnil a s' hi
  | cons i rest ih =>
      intro done a s' hl hi
      refine hstep done i rest a s' hl hi fun a' s'' hi' => ?_
      exact ih (done ++ [i]) a' s'' (by simpa using hl) hi'

/-- Where a counting loop stands: what was run is the range below. -/
theorem range_split {l₁ l₂ : List Nat} {i n : Nat}
    (h : l₁ ++ i :: l₂ = List.range n) : l₁ = List.range i ∧ i < n := by
  rw [List.range_eq_range', eq_comm, List.range'_eq_append_iff] at h
  obtain ⟨k, hk, h₁, h₂⟩ := h
  rw [eq_comm, List.range'_eq_cons_iff] at h₂
  obtain ⟨h₃, h₄, -⟩ := h₂
  obtain rfl : k = i := by omega
  exact ⟨by rw [h₁, List.range_eq_range'], by omega⟩

/-- The rule of a counting loop. -/
theorem each_range {f : Nat → Prog σ ω ε Unit} {n : Nat}
    {E : ε → σ → Prop} (I : Nat → σ → Prop)
    (hstep : ∀ i s', i < n → I i s' →
      Sat rely guar (f i) s' (fun _ s'' => I (i + 1) s'') E)
    (hinit : I 0 s) :
    Sat rely guar (Prog.each f (List.range n)) s (fun _ s' => I n s')
      E := by
  have h : Sat rely guar (Prog.each f (List.range n)) s
      (fun _ s' => I (List.range n).length s') E := by
    refine Sat.each (fun done s' => I done.length s') ?_ hinit
    intro done i rest s' hl hi
    obtain ⟨rfl, hn⟩ := range_split hl
    rw [List.length_range] at hi
    rw [List.length_append, List.length_range, List.length_singleton]
    exact hstep i s' hn hi
  simpa using h

end Sat

-- ============================================================ frames

/-- Whatever `m` does, it moves the state along `R` and reports events
in `G`. -/
def Within (R : σ → σ → Prop) (G : ω → Prop) (m : Prog σ ω ε α) : Prop :=
  ∀ s, R s (m s).st ∧ ∀ e ∈ (m s).log, G e

/-- The relations a program can be confined to step by step. -/
structure Steps (R : σ → σ → Prop) : Prop where
  refl : ∀ s, R s s
  trans : ∀ {s₁ s₂ s₃}, R s₁ s₂ → R s₂ s₃ → R s₁ s₃

namespace Within

variable {R : σ → σ → Prop} {G : ω → Prop}

theorem pure (hR : Steps R) (a : α) :
    Within R G (Pure.pure a : Prog σ ω ε α) :=
  fun s => ⟨hR.refl s, by simp⟩

theorem fault (hR : Steps R) (e : ε) :
    Within R G (Prog.fault e : Prog σ ω ε α) :=
  fun s => ⟨hR.refl s, by simp⟩

theorem emit (hR : Steps R) {e : ω} (h : G e) :
    Within R G (Prog.emit e : Prog σ ω ε Unit) :=
  fun s => ⟨hR.refl s, by simpa using h⟩

theorem modify {f : σ → σ} (h : ∀ s, R s (f s)) :
    Within R G (Prog.modify f : Prog σ ω ε Unit) :=
  fun s => ⟨h s, by simp⟩

theorem bind (hR : Steps R) {m : Prog σ ω ε α} {f : α → Prog σ ω ε β}
    (hm : Within R G m) (hf : ∀ a, Within R G (f a)) :
    Within R G (m >>= f) := by
  intro s
  obtain ⟨h₁, h₂⟩ := hm s
  rw [run_bind]
  unfold andThen
  cases (m s).res with
  | error e => exact ⟨h₁, h₂⟩
  | ok a =>
      obtain ⟨h₃, h₄⟩ := hf a (m s).st
      refine ⟨hR.trans h₁ h₃, fun e he => ?_⟩
      rcases List.mem_append.1 he with he | he
      · exact h₂ e he
      · exact h₄ e he

/-- Whatever state is read. -/
theorem get_bind {f : σ → Prog σ ω ε β} (h : ∀ s, Within R G (f s)) :
    Within R G (Prog.get >>= f) := fun s => h s s

theorem each (hR : Steps R) {ι : Type} {f : ι → Prog σ ω ε Unit}
    (h : ∀ i, Within R G (f i)) (l : List ι) :
    Within R G (Prog.each f l) := by
  induction l with
  | nil => exact pure hR ()
  | cons i l ih => exact bind hR (h i) fun _ => ih

theorem ite {b : Prop} [Decidable b] {m m' : Prog σ ω ε α}
    (h : Within R G m) (h' : Within R G m') :
    Within R G (if b then m else m') := by
  split
  · exact h
  · exact h'

theorem mono {R' : σ → σ → Prop} {m : Prog σ ω ε α}
    (h : Within R G m) (hR : ∀ s s', R s s' → R' s s') :
    Within R' G m := fun s => ⟨hR _ _ (h s).1, (h s).2⟩

/-- A confined program in a judgement. -/
theorem sat {rely : ω → Prop} {m : Prog σ ω ε α} (h : Within R G m)
    (s : σ) :
    Sat rely G m s (fun _ s' => R s s') (fun _ s' => R s s') := by
  intro _
  refine ⟨(h s).2, ?_⟩
  cases (m s).res with
  | ok a => exact (h s).1
  | error e => exact (h s).1

/-- What a program satisfies and what it is confined to. -/
theorem and_sat {rely guar : ω → Prop} {m : Prog σ ω ε α} {s : σ}
    {Q : α → σ → Prop} {E : ε → σ → Prop} (hm : Within R G m)
    (h : Sat rely guar m s Q E) :
    Sat rely guar m s (fun a s' => Q a s' ∧ R s s') E := by
  intro hr
  obtain ⟨hg, hQ⟩ := h hr
  refine ⟨hg, ?_⟩
  cases hres : (m s).res with
  | ok a =>
      rw [hres] at hQ
      exact ⟨hQ, (hm s).1⟩
  | error e =>
      rw [hres] at hQ
      exact hQ

end Within

end FemuRemap.Lib
