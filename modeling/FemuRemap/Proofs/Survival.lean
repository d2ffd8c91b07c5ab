/-
What the controller survives.

After any run the queues and their requests are in order, and the next
step fails exactly as `Step.Fails` says: at an index beyond the arrays,
with one request for events too many, with an abort that finds no free
request or whose search fails, at an entry of a queue in pieces or of size
zero, at an event for which there is no timer, in the code of a command,
and in a callback for a queue that was freed. The last one needs a reset
or a deletion while something is under way.
-/
import FemuRemap.Proofs.Lifecycle

namespace FemuRemap.Lifecycle

open Lib

variable {g : Config} {c : Ctrl} {steps : List Step}

/-- One pair of queues beside the admin queues. -/
def onePair : Config where
  numIoQueues := 1
  aerl := 0
  mqes := 7
  cqr := true
  dbStride := 0
  pageSize := 4096
  queues_le := by decide
  stride_le := by decide

/-- The pair is created, without an interrupt, and gets doorbells. A command
waits for the block layer, and a discard of another one is under way. -/
def setUp : List Step :=
  [.writeCc ⟨true, false⟩ ⟨true, 3, 3⟩,
    .doorbell (.sq 0 3),
    .admin (.cmd 1 (.createCq ⟨1, 1, 3, 4096, true, true, true, false⟩)),
    .admin (.cmd 2 (.createSq ⟨1, 1, 3, 4096, true, true⟩)),
    .admin (.cmd 3 (.setDbMemory 8192 12288)),
    .pollSq 2 2 [.cmd 4 .noComplete, .cmd 5 (.complete 0 1)]]

/-- A reset, and then the callbacks. -/
def resetRun : List Step :=
  setUp ++ [.writeCc ⟨false, false⟩ ⟨true, 3, 3⟩]

/-- The shadow doorbell holds an index beyond the queue, and a command is
aborted that is not there. -/
def strayRun : List Step :=
  setUp ++ [.pollSq 2 9 [], .doorbell (.sq 0 0)]

/-- A run in which `CC` is only written while nothing is under way, and a
queue deleted while no discard for it is. -/
def IdleRun (g : Config) : Ctrl → List Step → Prop
  | _, [] => True
  | c, e :: es => e.Idle g c ∧ ∀ c', step g c e = .ok c' → IdleRun g c' es

/-- The faults of the bookkeeping: a queue or a request that was freed is
used, or an assertion fails. -/
def Fault.Bookkeeping (f : Fault) : Prop :=
  f = .useAfterFree ∨ f = .assertion

/-- The ways to fail that are the driver's: none of them touches what the
device keeps. -/
theorem AbortFails.not_bookkeeping {f : Fault} {sqid cid : Nat}
    {ring : Nat → Nat} (h : AbortFails g c sqid cid ring f) :
    ¬ f.Bookkeeping := by
  obtain ⟨-, s, -, -, -, hwhy⟩ := h
  rcases hwhy with (⟨rfl, -⟩ | ⟨rfl, -⟩) | ⟨rfl, -⟩
  · nofun
  · nofun
  · nofun

theorem Cmd.Fails.not_bookkeeping {f : Fault} {cmd : Cmd}
    (h : cmd.Fails g c f) : ¬ f.Bookkeeping := by
  cases cmd with
  | createSq r => exact h.1 ▸ nofun
  | createCq r => exact h.1 ▸ nofun
  | delSq qid count => exact h.1 ▸ nofun
  | asyncReq => exact h.1 ▸ nofun
  | abort sqid cid ring => exact AbortFails.not_bookkeeping h
  | other st =>
      cases st with
      | none => exact h ▸ nofun
      | some st => cases h
  | delCq qid => cases h
  | setDbMemory dbs eis => cases h

/-- While the queues of all callbacks exist, the bookkeeping does not
fail. -/
theorem Step.Fails.not_bookkeeping (h : Inv g True c []) {e : Step}
    {f : Fault} (he : e.Fails g c f) : ¬ f.Bookkeeping := by
  cases e with
  | writeCc => cases he
  | doorbell d => exact he.1 ▸ nofun
  | admin e =>
      obtain ⟨_, _, _, _, _, _, _, _, _, hcmd⟩ := he
      exact hcmd.not_bookkeeping
  | pollSq p tail found =>
      obtain ⟨-, -, -, ⟨rfl, -⟩ | ⟨rfl, -⟩⟩ := he
      · nofun
      · nofun
  | pollCq q count => exact he.1 ▸ nofun
  | miscCb r =>
      have hlive := h.live trivial r (List.mem_append_left _ he.2.1)
      rw [he.2.2] at hlive
      cases hlive
  | discardCb r =>
      have hlive := h.live trivial r (List.mem_append_right _ he.2.1)
      rw [he.2.2] at hlive
      cases hlive
  | aer => cases he

/-- By the steps: each of them is taken from a controller in order. -/
theorem run_idle (h : Inv g True c []) (hidle : IdleRun g c steps)
    {f : Fault} (hrun : run g c steps = .error f) : ¬ f.Bookkeeping := by
  induction steps generalizing c with
  | nil => cases hrun
  | cons e es ih =>
      rcases step_spec h e fun _ => hidle.1 with ⟨c', hc', h'⟩ | ⟨f', hf'⟩
      · rw [run, runs.cons_ok hc'] at hrun
        exact ih h' (hidle.2 c' hc') hrun
      · rw [run, runs.cons_error (step_fault h hf')] at hrun
        cases hrun
        exact hf'.not_bookkeeping h

theorem IdleRun.cons {e : Step} {es : List Step} {c' : Ctrl}
    (he : e.Idle g c) (hstep : step g c e = .ok c') (h : IdleRun g c' es) :
    IdleRun g c (e :: es) := by
  refine ⟨he, fun c₁ hc₁ => ?_⟩
  rw [hstep] at hc₁
  cases hc₁
  exact h

/-- The callbacks come before the queue is deleted and the controller
reset. -/
def quietRun : List Step :=
  setUp ++ [.miscCb (2, 0), .discardCb (2, 1), .doorbell (.sq 0 0),
    .admin (.cmd 6 (.delSq 1 0)), .writeCc ⟨false, false⟩ ⟨true, 3, 3⟩]

/-- A queue of either kind. -/
inductive Queue where
  | sq (p : Nat)
  | cq (q : Nat)
deriving DecidableEq, Repr

/-- The shadow doorbell of a queue, if it has one. -/
def Ctrl.doorbell (c : Ctrl) : Queue → Option Nat
  | .sq p => ((c.sqs p).map (·.dbAddr)).filter (· ≠ 0)
  | .cq q => ((c.cqs q).map (·.dbAddr)).filter (· ≠ 0)

/-- The queue whose doorbell is the `i`th. -/
def Ctrl.holder (c : Ctrl) (i : Nat) : Option Queue :=
  if i % 2 = 0 then (c.sq (i / 2)).map .sq else (c.cq (i / 2)).map .cq

/-- A doorbell is where the index of its queue says. -/
theorem doorbell_index (h : Inv g False c []) {x : Queue} {a : Nat}
    (ha : c.doorbell x = some a) :
    ∃ i, c.holder i = some x ∧
      a = (c.dbsAddr + i * dbbufEntrySz g) % 2 ^ 64 ∧
      i < 2 * (g.numIoQueues + 1) := by
  -- even indices are those of submission queues, odd ones of completion
  -- queues
  cases x with
  | sq p =>
      obtain ⟨hmap, hne⟩ := Option.filter_eq_some_iff.1 ha
      obtain ⟨s, hs, rfl⟩ := Option.map_eq_some_iff.1 hmap
      have hbell := h.bells.sq (view_sqs hs)
      have hlisted := h.shape.sqs.listed (view_sqs hs)
      have hle : s.sqid ≤ g.numIoQueues := h.shape.sq_le hlisted
      dsimp only at hbell
      split at hbell
      · next hcond =>
        refine ⟨2 * s.sqid, ?_, hbell, by omega⟩
        rw [Ctrl.holder, if_pos (Nat.mul_mod_right 2 _),
          Nat.mul_div_cancel_left _ Nat.two_pos,
          show c.sq s.sqid = some p from hlisted]
        rfl
      · rw [hbell] at hne
        simp at hne
  | cq q =>
      obtain ⟨hmap, hne⟩ := Option.filter_eq_some_iff.1 ha
      obtain ⟨t, ht, rfl⟩ := Option.map_eq_some_iff.1 hmap
      have hbell := h.bells.cq (view_cqs ht)
      have hlisted := h.shape.cqs.listed (view_cqs ht)
      have hle : t.cqid ≤ g.numIoQueues := h.shape.cq_le hlisted
      dsimp only at hbell
      split at hbell
      · next hcond =>
        refine ⟨2 * t.cqid + 1, ?_, hbell, by omega⟩
        rw [Ctrl.holder, if_neg (by omega),
          show (2 * t.cqid + 1) / 2 = t.cqid by omega,
          show c.cq t.cqid = some q from hlisted]
        rfl
      · rw [hbell] at hne
        simp at hne

/-- The stride of the doorbells is at most 16 KiB. -/
theorem dbbufEntrySz_le : dbbufEntrySz g ≤ 2 ^ 14 := by
  show 2 ^ (2 + g.dbStride) ≤ 2 ^ 14
  have := g.stride_le
  exact Nat.pow_le_pow_right Nat.two_pos (by omega)

theorem four_dvd_dbbufEntrySz : 4 ∣ dbbufEntrySz g := by
  show 2 ^ 2 ∣ 2 ^ (2 + g.dbStride)
  exact Nat.pow_dvd_pow 2 (Nat.le_add_right 2 _)

/-- The doorbells of all queues take less than the address space. -/
theorem doorbells_lt : 2 * (g.numIoQueues + 1) * dbbufEntrySz g < 2 ^ 64 := by
  have hle := Nat.mul_le_mul (Nat.mul_le_mul_left 2
    (Nat.succ_le_succ g.queues_le)) (dbbufEntrySz_le (g := g))
  exact Nat.lt_of_le_of_lt hle (by decide)

/-- Different indices are at least a word apart. -/
theorem index_apart {k l : Nat} (hkl : k < l) :
    k * dbbufEntrySz g + 4 ≤ l * dbbufEntrySz g := by
  have hpos : 0 < dbbufEntrySz g := Nat.two_pow_pos _
  have hsize : 4 ≤ dbbufEntrySz g := Nat.le_of_dvd hpos four_dvd_dbbufEntrySz
  calc k * dbbufEntrySz g + 4 ≤ k * dbbufEntrySz g + dbbufEntrySz g :=
        Nat.add_le_add_left hsize _
    _ = (k + 1) * dbbufEntrySz g := (Nat.succ_mul _ _).symm
    _ ≤ l * dbbufEntrySz g := Nat.mul_le_mul_right _ hkl

/-- Words that are a multiple of their size apart, and less than the address
space, stay apart when the addresses wrap. -/
theorem wrapped_apart {d u v : Nat} (hu : 4 ∣ u) (hv : 4 ∣ v)
    (hlt : u + 4 ≤ v) (hv' : v < 2 ^ 64) :
    (d + u) % 2 ^ 64 + 4 ≤ (d + v) % 2 ^ 64 ∨
      (d + v) % 2 ^ 64 + 4 ≤ (d + u) % 2 ^ 64 := by
  omega

/-- The shadow doorbells of two queues are different words. They are within
what the last command has set up for them, unless the addresses wrap
there. -/
theorem doorbells_apart (g : Config) (steps : List Step) {c : Ctrl}
    (hrun : run g .new steps = .ok c) {x y : Queue} {a b : Nat}
    (ha : c.doorbell x = some a) (hb : c.doorbell y = some b) :
    (x ≠ y → a + 4 ≤ b ∨ b + 4 ≤ a) ∧
    (∃ k, k + 4 ≤ 2 * (g.numIoQueues + 1) * dbbufEntrySz g ∧
      a = (c.dbsAddr + k) % 2 ^ 64) ∧
    (c.dbsAddr + 2 * (g.numIoQueues + 1) * dbbufEntrySz g ≤ 2 ^ 64 →
      c.dbsAddr ≤ a ∧
      a + 4 ≤ c.dbsAddr + 2 * (g.numIoQueues + 1) * dbbufEntrySz g) := by
  have h := run_inv hrun
  obtain ⟨i, hi, rfl, hin⟩ := doorbell_index h ha
  obtain ⟨j, hj, rfl, hjn⟩ := doorbell_index h hb
  have hrange := doorbells_lt (g := g)
  have hi₄ := index_apart (g := g) hin
  have hj₄ := index_apart (g := g) hjn
  refine ⟨fun hxy => ?_, ⟨_, hi₄, rfl⟩, fun hfits => ?_⟩
  · -- one index has one holder
    have hij : i ≠ j := by
      rintro rfl
      rw [hi] at hj
      exact hxy (Option.some.inj hj)
    have hdvd : ∀ k, 4 ∣ k * dbbufEntrySz g := fun k =>
      Nat.dvd_mul_left_of_dvd four_dvd_dbbufEntrySz k
    rcases Nat.lt_or_gt_of_ne hij with hlt | hgt
    · exact wrapped_apart (hdvd i) (hdvd j) (index_apart hlt) (by omega)
    · exact (wrapped_apart (hdvd j) (hdvd i) (index_apart hgt)
        (by omega)).symm
  · rw [Nat.mod_eq_of_lt (by omega)]
    omega

theorem doorbells_apart_pair :
    ∃ c, run onePair .new setUp = .ok c ∧ c.doorbell (.sq 2) = some 8200 ∧
      c.doorbell (.cq 1) = some 8204 ∧ (8200 + 4 ≤ 8204 ∨ 8204 + 4 ≤ 8200) :=
  ⟨_, rfl, rfl, rfl, (doorbells_apart onePair setUp rfl (x := .sq 2)
    (y := .cq 1) rfl rfl).1 nofun⟩

end FemuRemap.Lifecycle
