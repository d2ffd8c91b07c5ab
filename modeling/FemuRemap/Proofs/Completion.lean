/-
Completions leave the queue in expiry order, as long as every callback of
a flush or write-zeroes command finds no later request on the list.

`Kept` is what every event keeps: each enqueue is either posted or still
on the list, once, and nothing is posted early. `Sorted` is what the
insertion of `nvme_enqueue_req_completion_io` keeps and the append of
`nvme_enqueue_req_completion` may break: a request that comes back from
`nvme_misc_cb` has the `expire_time` of whatever command used it before.
-/
import FemuRemap.Model.Completion
import Mathlib.Data.List.Perm.Basic

namespace FemuRemap.Completion

open Lib

/-- The order of the queue: by expire time, then by enqueue. -/
def Before (p q : Pending) : Prop :=
  p.expireTime < q.expireTime ∨
    p.expireTime = q.expireTime ∧ p.arrival < q.arrival

instance : DecidableRel Before := fun _ _ =>
  inferInstanceAs (Decidable (_ ∨ _))

/-- The waiting completions are in the order of their expiry, and of their
arrival among equals. -/
def Sorted (c : Ctl) : Prop := c.cq.reqList.Pairwise Before

instance (c : Ctl) : Decidable (Sorted c) :=
  inferInstanceAs (Decidable (List.Pairwise _ _))

/-- What holds of a state in order. -/
structure Orderly (c : Ctl) : Prop where
  sorted : Sorted c
  /-- Every enqueue is posted or waits, and not both, nor twice. -/
  once : (c.posted.map (·.req) ++ c.cq.reqList).Perm c.enqueued
  distinct : c.enqueued.Nodup
  timely : ∀ x ∈ c.posted, x.req.expireTime ≤ x.clock
  /-- Another round will come for those that wait. -/
  armed : c.cq.reqList ≠ [] → c.cq.timer.isSome

/-- The expire times that a round has passed when it stops. -/
def Stop.passed : Stop → Int → Prop
  | .drained, _ => True
  | .full, _ => False
  | .unexpired clock _, expireTime => expireTime ≤ clock

instance : ∀ stop expireTime, Decidable (Stop.passed stop expireTime)
  | .drained, _ => .isTrue trivial
  | .full, _ => .isFalse id
  | .unexpired _ _, _ => inferInstanceAs (Decidable (_ ≤ _))

/-- What holds of an event: a round that was not stopped by a full queue
leaves no request that has expired. -/
def Complete (c : Ctl) : Event → Prop
  | .postCqes rd =>
      ∀ p ∈ c.enqueued, (nvmePostCqesIo rd c).1.passed p.expireTime →
        p ∈ (nvmePostCqesIo rd c).2.posted.map (·.req) ∧
        p ∉ (nvmePostCqesIo rd c).2.cq.reqList
  | _ => True

instance (c : Ctl) : ∀ e, Decidable (Complete c e)
  | .postCqes _ => inferInstanceAs (Decidable (∀ p ∈ _, _ → _))
  | .processSq _ _ | .miscCb _ _ _ _ => .isTrue trivial

/-- What a round found where its loop stopped, having posted `n`
requests: the end of the list, a queue that is full with the head it had
just read, or a request that has not expired by the clock it had just
read. -/
def Stop.Found (rd : Readings) (n : Nat) (cq : CQueue) : Stop → Prop
  | .drained => cq.reqList = []
  | .full => cq.reqList ≠ [] ∧ cq.head = rd.head n ∧ nvmeCqFull cq = true
  | .unexpired clock expireTime =>
      cq.head = rd.head n ∧ nvmeCqFull cq = false ∧ clock = rd.clock n ∧
        clock < expireTime ∧
        ∃ p ∈ cq.reqList.head?, p.expireTime = expireTime

/-- A round posts a first part of the list in its order, takes it off the
list, and goes on until one of the three reasons holds; nothing else
posts. -/
def Rounded (c : Ctl) : Event → Prop
  | .postCqes rd => ∃ xs : List Posting,
      c.cq.reqList = xs.map (·.req) ++ (nvmePostCqesIo rd c).2.cq.reqList ∧
      (nvmePostCqesIo rd c).2.posted = c.posted ++ xs ∧
      (nvmePostCqesIo rd c).1.Found rd xs.length (nvmePostCqesIo rd c).2.cq
  | e => (step c e).posted = c.posted

/-- A callback comes for a request that expires no earlier than those
that wait. -/
def Punctual (c : Ctl) : Event → Prop
  | .miscCb _ _ sqid slot =>
      ∀ req ∈ (c.sqs sqid).outReqList.find? (·.slot == slot),
        ∀ p ∈ c.cq.reqList, p.expireTime ≤ req.expireTime
  | _ => True

-- ==================================================== what events keep

/-- What every event keeps, whatever the readings of the clock. -/
structure Kept (c : Ctl) : Prop where
  io : c.cq.cqid ≠ 0
  once : (c.posted.map (·.req) ++ c.cq.reqList).Perm c.enqueued
  numbered : c.enqueued.map (·.arrival) = List.range c.enqueued.length
  timely : ∀ x ∈ c.posted, x.req.expireTime ≤ x.clock
  armed : c.cq.reqList ≠ [] → c.cq.timer.isSome

/-- Numbered by arrival, no two are the same. -/
theorem Kept.distinct {c : Ctl} (h : Kept c) : c.enqueued.Nodup :=
  List.Nodup.of_map (·.arrival) (h.numbered ▸ List.nodup_range)

/-- With the list sorted, this is what was asked. -/
theorem Kept.orderly {c : Ctl} (h : Kept c) (hs : Sorted c) :
    Orderly c where
  sorted := hs
  once := h.once
  distinct := h.distinct
  timely := h.timely
  armed := h.armed

theorem kept_initCtl (sqs : Table SQueue) {cqid : Nat} (size : Nat)
    (h : cqid ≠ 0) : Kept (initCtl sqs cqid size) where
  io := h
  once := .nil
  numbered := rfl
  timely _ hx := nomatch hx
  armed hne := absurd rfl hne

/-- Those that wait were enqueued before the next one will be. -/
theorem Kept.arrival_lt {c : Ctl} (h : Kept c) {p : Pending}
    (hp : p ∈ c.cq.reqList) : p.arrival < c.enqueued.length := by
  have hen : p ∈ c.enqueued :=
    h.once.subset (List.mem_append_right _ hp)
  rw [← List.mem_range, ← h.numbered]
  exact List.mem_map_of_mem hen

variable {c c' : Ctl}

/-- An enqueue, wherever it puts the request. -/
theorem Kept.enqueue {put : Pending → List Pending → List Pending}
    {timer : Option Int} (h : Kept c) (req : Request)
    (hput : ∀ p l, (put p l).Perm (p :: l)) (ht : timer.isSome) :
    Kept (c.enqueue put timer req) where
  io := h.io
  once := by
    show (c.posted.map (·.req) ++ put (c.pending req) c.cq.reqList).Perm
      (c.enqueued ++ [c.pending req])
    calc c.posted.map (·.req) ++ put (c.pending req) c.cq.reqList
      _ |>.Perm (c.posted.map (·.req) ++ c.pending req :: c.cq.reqList) :=
          (hput _ _).append_left _
      _ |>.Perm (c.pending req :: (c.posted.map (·.req) ++ c.cq.reqList)) :=
          List.perm_middle
      _ |>.Perm (c.pending req :: c.enqueued) := h.once.cons _
      _ |>.Perm (c.enqueued ++ [c.pending req]) :=
          (List.perm_append_singleton _ _).symm
  numbered := by
    show (c.enqueued ++ [c.pending req]).map (·.arrival)
      = List.range (c.enqueued ++ [c.pending req]).length
    rw [List.map_append, h.numbered, List.length_append,
      List.length_singleton, List.range_succ]
    rfl
  timely := h.timely
  armed _ := ht

/-- An event that does not touch the completion queue. -/
theorem Kept.of_eq (h : Kept c) (hcq : c'.cq = c.cq)
    (hen : c'.enqueued = c.enqueued) (hpo : c'.posted = c.posted) :
    Kept c' where
  io := hcq ▸ h.io
  once := by rw [hcq, hen, hpo]; exact h.once
  numbered := by rw [hen]; exact h.numbered
  timely := hpo ▸ h.timely
  armed := hcq ▸ h.armed

/-- A new completion gets the next number, and the timer is armed. -/
theorem Kept.enqueueIo (h : Kept c) (req : Request) :
    Kept (nvmeEnqueueReqCompletionIo req c) := by
  unfold nvmeEnqueueReqCompletionIo
  refine h.enqueue req (fun p l => List.perm_orderedInsert _ p l) ?_
  split
  case isTrue => rfl
  case isFalse hne => exact h.armed hne

/-- A callback enqueues one, or finds no request and does nothing. -/
theorem Kept.miscCb (h : Kept c) (now : Int) (failed : Bool)
    (sqid slot : Nat) : Kept (nvmeMiscCb now failed sqid slot c) := by
  unfold nvmeMiscCb
  split
  · exact h
  · exact h.enqueue _ (fun p l => List.perm_append_singleton p l) rfl

-- ========================================================== insertion

/-- The new request has the largest number, so the loop stops at the
first one it has to come before. -/
theorem pairwise_orderedInsert {p : Pending} {l : List Pending}
    (hl : l.Pairwise Before) (hlt : ∀ q ∈ l, q.arrival < p.arrival) :
    (l.orderedInsert (fun p q => p.expireTime < q.expireTime) p).Pairwise
      Before := by
  induction l with
  | nil => exact List.pairwise_singleton _ _
  | cons q l ih =>
      obtain ⟨hq, hl'⟩ := List.pairwise_cons.1 hl
      rw [List.orderedInsert_cons]
      split
      case isTrue hpq =>
        refine List.pairwise_cons.2 ⟨fun r hr => ?_, hl⟩
        refine .inl ?_
        rcases List.mem_cons.1 hr with rfl | hr
        · exact hpq
        · rcases hq r hr with hlt' | ⟨heq, -⟩ <;> omega
      case isFalse hpq =>
        have hlt' : ∀ r ∈ l, r.arrival < p.arrival := fun r hr =>
          hlt r (List.mem_cons_of_mem _ hr)
        refine List.pairwise_cons.2 ⟨fun r hr => ?_, ih hl' hlt'⟩
        rcases List.mem_cons.1
          ((List.perm_orderedInsert _ p l).subset hr) with rfl | hr
        · have := hlt q List.mem_cons_self
          unfold Before
          omega
        · exact hq r hr

/-- The insertion searches the place by the order, so it keeps it. -/
theorem sorted_enqueueIo (h : Kept c) (hs : Sorted c) (req : Request) :
    Sorted (nvmeEnqueueReqCompletionIo req c) :=
  pairwise_orderedInsert hs fun _ hq => h.arrival_lt hq

/-- An append keeps the order just when nothing on the list expires
later. -/
theorem sorted_enqueue_iff (h : Kept c) (hs : Sorted c) (now : Int)
    (req : Request) :
    Sorted (nvmeEnqueueReqCompletion now req c) ↔
      ∀ p ∈ c.cq.reqList, p.expireTime ≤ req.expireTime := by
  show (c.cq.reqList ++ [c.pending req]).Pairwise Before ↔ _
  rw [List.pairwise_append]
  constructor
  · intro hp p hmem
    rcases hp.2.2 p hmem _ (List.mem_singleton_self _) with hlt | ⟨heq, -⟩
    · exact Int.le_of_lt hlt
    · exact Int.le_of_eq heq
  · intro hle
    refine ⟨hs, List.pairwise_singleton _ _, fun p hp q hq => ?_⟩
    obtain rfl := List.mem_singleton.1 hq
    have hpa := h.arrival_lt hp
    have hpe := hle p hp
    show p.expireTime < req.expireTime ∨
      p.expireTime = req.expireTime ∧ p.arrival < c.enqueued.length
    omega

/-- The callback appends without a search: the order survives when the
completion is not due before the last. -/
theorem sorted_miscCb_iff (h : Kept c) (hs : Sorted c) (now : Int)
    (failed : Bool) (sqid slot : Nat) :
    Sorted (nvmeMiscCb now failed sqid slot c) ↔
      Punctual c (.miscCb now failed sqid slot) := by
  simp only [nvmeMiscCb, Punctual]
  split
  case h_1 hnone => simp [hnone, hs]
  case h_2 req hsome =>
    rw [sorted_enqueue_iff h hs, hsome]
    simp

-- ========================================================= submission

/-- What a property of the queue and its history has to survive in
`nvme_process_sq_io`: changes to the submission queues, and insertions. -/
theorem processSq_induct {P : Ctl → Prop}
    (hsqs : ∀ c sqs, P c → P { c with sqs := sqs })
    (hio : ∀ c req, P c → P (nvmeEnqueueReqCompletionIo req c))
    (sqid : Nat) (cmds : List Command) (h : P c) :
    P (nvmeProcessSqIo sqid cmds c) := by
  have hcmd : ∀ c req free cmd, P c →
      P (processCommand sqid req free cmd c) := by
    intro c req free cmd hc
    cases cmd with
    | aborted => exact hsqs _ _ hc
    | io cid verdict =>
        cases verdict with
        | noComplete => exact hsqs _ _ (hsqs _ _ hc)
        | complete status expireTime => exact hio _ _ (hsqs _ _ (hsqs _ _ hc))
  have hloop : ∀ cmds processed c, P c →
      P (processSqLoop sqid cmds processed c).2 := by
    intro cmds
    induction cmds with
    | nil => exact fun _ _ hc => hc
    | cons cmd cmds ih =>
        intro processed c hc
        unfold processSqLoop
        split
        · exact hc
        · split
          · exact ih _ _ (hcmd _ _ _ _ hc)
          · exact hc
  exact hsqs _ _ (hloop cmds 0 c h)

theorem Kept.processSq (h : Kept c) (sqid : Nat) (cmds : List Command) :
    Kept (nvmeProcessSqIo sqid cmds c) :=
  processSq_induct (fun _ _ hc => hc.of_eq rfl rfl rfl)
    (fun _ req hc => hc.enqueueIo req) sqid cmds h

theorem sorted_processSq (h : Kept c) (hs : Sorted c) (sqid : Nat)
    (cmds : List Command) : Sorted (nvmeProcessSqIo sqid cmds c) :=
  (processSq_induct (P := fun c => Kept c ∧ Sorted c)
    (fun _ _ hc => ⟨hc.1.of_eq rfl rfl rfl, hc.2⟩)
    (fun _ req hc => ⟨hc.1.enqueueIo req, sorted_enqueueIo hc.1 hc.2 req⟩)
    sqid cmds ⟨h, hs⟩).2

-- ============================================================ posting

/-- A round that is at its `i`th request posts a first part of the list,
nothing of it early, and stops for the reason it gives. -/
structure Posts (rd : Readings) (i : Nat) (c : Ctl) (stop : Stop)
    (c' : Ctl) : Prop where
  io : c'.cq.cqid = c.cq.cqid
  enqueued : c'.enqueued = c.enqueued
  list : ∃ xs : List Posting,
    c.cq.reqList = xs.map (·.req) ++ c'.cq.reqList ∧
    c'.posted = c.posted ++ xs ∧ (∀ x ∈ xs, x.req.expireTime ≤ x.clock) ∧
    stop.Found rd (i + xs.length) c'.cq

@[simp] theorem nvmeIncCqTail_cqid (cq : CQueue) :
    (nvmeIncCqTail cq).cqid = cq.cqid := by
  unfold nvmeIncCqTail
  split <;> rfl

@[simp] theorem nvmeIncCqTail_reqList (cq : CQueue) :
    (nvmeIncCqTail cq).reqList = cq.reqList := by
  unfold nvmeIncCqTail
  split <;> rfl

/-- A round that posts the first request and then goes on. -/
theorem Posts.cons {rd : Readings} {i : Nat} {stop : Stop} {p : Pending}
    {ps : List Pending} {clock : Int} {head : Nat}
    (hl : c.cq.reqList = p :: ps) (hdue : p.expireTime ≤ clock)
    (h : Posts rd (i + 1)
      (nvmePostCqe clock p
        { c with cq := { c.cq with head := head, reqList := ps } })
      stop c') : Posts rd i c stop c' := by
  obtain ⟨xs, hxs, hpo, htime, hstop⟩ := h.list
  refine ⟨h.io.trans (nvmeIncCqTail_cqid _), h.enqueued,
    ⟨_ :: xs, ?_, hpo.trans (List.append_assoc _ _ _), ?_, ?_⟩⟩
  · have hps : ps = xs.map (·.req) ++ c'.cq.reqList :=
      (nvmeIncCqTail_reqList _).symm.trans hxs
    rw [hl, hps]
    rfl
  · intro x hx
    rcases List.mem_cons.1 hx with rfl | hx
    · exact hdue
    · exact htime x hx
  · rw [List.length_cons, Nat.add_comm xs.length 1, ← Nat.add_assoc]
    exact hstop

/-- A round that stops before it posts anything. -/
theorem Posts.stop {rd : Readings} {i : Nat} {stop : Stop} (head : Nat)
    (h : stop.Found rd i { c.cq with head := head }) :
    Posts rd i c stop { c with cq := { c.cq with head := head } } :=
  ⟨rfl, rfl, [], rfl, (List.append_nil _).symm, nofun, h⟩

/-- The loop, by induction on the waiting completions: posted are those it
passed, up to where it stopped. -/
theorem postCqesLoop_posts (rd : Readings) (l : List Pending) (i : Nat)
    (c : Ctl) (hio : c.cq.cqid ≠ 0) (hl : c.cq.reqList = l) :
    Posts rd i c (postCqesLoop rd i l c).1 (postCqesLoop rd i l c).2.2 := by
  induction l generalizing i c with
  | nil => exact Posts.stop c.cq.head hl
  | cons p ps ih =>
      unfold postCqesLoop
      dsimp only
      split
      case isTrue hfull =>
        refine Posts.stop _ ⟨?_, rfl, hfull⟩
        rw [hl]
        exact List.cons_ne_nil p ps
      case isFalse hfull =>
        -- a completion that is not due ends the loop: those behind it are due
        -- later still
        split
        case isTrue hearly =>
          refine Posts.stop _
            ⟨rfl, Bool.eq_false_iff.2 hfull, rfl, hearly.2, p, ?_, rfl⟩
          rw [hl]
          exact rfl
        case isFalse hearly =>
          have hdue : p.expireTime ≤ rd.clock i :=
            Int.not_lt.1 (not_and.1 hearly hio)
          refine Posts.cons hl hdue (ih (i + 1) _ ?_ ?_)
          · exact (nvmeIncCqTail_cqid _).trans_ne hio
          · exact nvmeIncCqTail_reqList _

/-- The timer and the interrupt at the end of a round have no part in
what it found. -/
theorem Stop.Found.timer {rd : Readings} {n : Nat} {cq : CQueue}
    {stop : Stop} (h : stop.Found rd n cq) (timer : Option Int) :
    stop.Found rd n { cq with timer := timer } := by
  cases stop with
  | drained => exact h
  | full => exact h
  | unexpired clock expireTime => exact h

/-- The whole call, from the first reading of the clock. -/
theorem postCqesIo_posts (rd : Readings) (h : c.cq.cqid ≠ 0) :
    Posts rd 0 c (nvmePostCqesIo rd c).1 (nvmePostCqesIo rd c).2 := by
  have hp := postCqesLoop_posts rd c.cq.reqList 0 c h rfl
  obtain ⟨xs, hxs, hpo, htime, hstop⟩ := hp.list
  exact ⟨hp.io, hp.enqueued, xs, hxs, hpo, htime, hstop.timer _⟩

/-- Posting moves completions and makes none. -/
theorem Kept.postCqes (h : Kept c) (rd : Readings) :
    Kept (nvmePostCqesIo rd c).2 := by
  have hp := postCqesIo_posts rd h.io
  obtain ⟨xs, hxs, hpo, htime, -⟩ := hp.list
  refine ⟨hp.io ▸ h.io, ?_, ?_, ?_, fun _ => rfl⟩
  · rw [hp.enqueued, hpo, List.map_append, List.append_assoc, ← hxs]
    exact h.once
  · rw [hp.enqueued]
    exact h.numbered
  · intro x hx
    rw [hpo] at hx
    exact (List.mem_append.1 hx).elim (h.timely x) (htime x)

/-- What remains is a tail of a sorted list. -/
theorem Posts.sorted {rd : Readings} {i : Nat} {stop : Stop}
    (hp : Posts rd i c stop c') (hs : Sorted c) : Sorted c' := by
  obtain ⟨xs, hxs, -⟩ := hp.list
  unfold Sorted at hs
  rw [hxs] at hs
  exact (List.pairwise_append.1 hs).2.1

/-- Behind the request at which a sorted round stops, all expire later. -/
theorem Posts.not_passed {rd : Readings} {i : Nat} {stop : Stop}
    (hp : Posts rd i c stop c') (hs : Sorted c) {p : Pending}
    (hmem : p ∈ c'.cq.reqList) : ¬ stop.passed p.expireTime := by
  intro hpass
  have hs' := hp.sorted hs
  obtain ⟨xs, -, -, -, hstop⟩ := hp.list
  cases stop with
  | drained =>
      rw [show c'.cq.reqList = [] from hstop] at hmem
      cases hmem
  | full => exact hpass
  | unexpired clock expireTime =>
      obtain ⟨-, -, -, hlt, q, hq, rfl⟩ := hstop
      obtain ⟨l, hl⟩ := List.head?_eq_some_iff.1 hq
      rw [Sorted, hl] at hs'
      have hle : p.expireTime ≤ clock := hpass
      rw [hl] at hmem
      rcases List.mem_cons.1 hmem with rfl | hmem
      · omega
      · rcases (List.pairwise_cons.1 hs').1 p hmem with h | ⟨h, -⟩ <;> omega

/-- In a sorted queue the rounds are complete. -/
theorem complete_of_sorted (h : Kept c) (hs : Sorted c) (e : Event) :
    Complete c e := by
  cases e with
  | processSq | miscCb => trivial
  | postCqes rd =>
      intro p hp hpass
      have hposts := postCqesIo_posts rd h.io
      have hnot : p ∉ (nvmePostCqesIo rd c).2.cq.reqList := fun hmem =>
        hposts.not_passed hs hmem hpass
      have hmem := (h.postCqes rd).once.mem_iff.2 (hposts.enqueued ▸ hp)
      exact ⟨(List.mem_append.1 hmem).resolve_right hnot, hnot⟩

-- =============================================================== runs

/-- Rounds stop for the reason they give, in any order of the list. -/
theorem rounded (h : Kept c) (e : Event) : Rounded c e := by
  cases e with
  | processSq sqid cmds =>
      exact processSq_induct (P := fun c' => c'.posted = c.posted)
        (fun _ _ hc => hc) (fun _ _ hc => hc) sqid cmds rfl
  | miscCb now failed sqid slot =>
      show (nvmeMiscCb now failed sqid slot c).posted = c.posted
      unfold nvmeMiscCb
      split
      · rfl
      · rfl
  | postCqes rd =>
      obtain ⟨xs, hxs, hpo, -, hstop⟩ := (postCqesIo_posts rd h.io).list
      exact ⟨xs, hxs, hpo, Nat.zero_add xs.length ▸ hstop⟩

theorem Kept.step (h : Kept c) (e : Event) : Kept (step c e) := by
  cases e with
  | processSq sqid cmds => exact h.processSq sqid cmds
  | miscCb now failed sqid slot => exact h.miscCb now failed sqid slot
  | postCqes rd => exact h.postCqes rd

/-- One event, from a sorted queue. -/
theorem sorted_step_iff (h : Kept c) (hs : Sorted c) (e : Event) :
    Sorted (step c e) ↔ Punctual c e := by
  cases e with
  | processSq sqid cmds =>
      exact iff_of_true (sorted_processSq h hs sqid cmds) trivial
  | miscCb now failed sqid slot =>
      exact sorted_miscCb_iff h hs now failed sqid slot
  | postCqes rd =>
      exact iff_of_true ((postCqesIo_posts rd h.io).sorted hs) trivial

/-- One event from a sorted list: it ends well exactly when it was
punctual. -/
theorem orderly_step_iff (h : Kept c) (hs : Sorted c) (e : Event) :
    Orderly (step c e) ∧ Rounded c e ∧ Complete c e ↔ Punctual c e := by
  rw [← sorted_step_iff h hs e]
  constructor
  · exact fun ho => ho.1.sorted
  · intro hs'
    exact ⟨(h.step e).orderly hs', rounded h e, complete_of_sorted h hs e⟩

/-- The run, by induction on the events; sortedness is what one event hands to
the next. -/
theorem trace_orderly_iff (h : Kept c) (hs : Sorted c) (es : List Event) :
    (∀ x ∈ trace c es,
        Orderly (step x.1 x.2) ∧ Rounded x.1 x.2 ∧ Complete x.1 x.2) ↔
      ∀ x ∈ trace c es, Punctual x.1 x.2 := by
  induction es generalizing c with
  | nil => simp [trace]
  | cons e es ih =>
      simp only [trace, List.forall_mem_cons]
      rw [orderly_step_iff h hs e]
      refine and_congr_right fun hpunct => ?_
      exact ih (h.step e) ((sorted_step_iff h hs e).2 hpunct)

/-- In a run of an I/O completion queue, whatever its clocks, every state
is in order, every round posts what it may and stops at a full queue or an
unexpired request only, and leaves nothing that has expired, just when
every callback of a flush or write-zeroes command is punctual. -/
theorem completions_in_expiry_order_iff (sqs : Table SQueue)
    (cqid size : Nat) (hio : cqid ≠ 0) (es : List Event) :
    (∀ x ∈ trace (initCtl sqs cqid size) es,
        Orderly (step x.1 x.2) ∧ Rounded x.1 x.2 ∧ Complete x.1 x.2) ↔
      ∀ x ∈ trace (initCtl sqs cqid size) es, Punctual x.1 x.2 :=
  trace_orderly_iff (kept_initCtl sqs size hio) .nil es

/-- One submission queue with two requests that have not been used. -/
def twoSlots : Table SQueue :=
  .fill
    { head := 0
      size := 4
      arbBurst := 8
      completed := 0
      reqList := [⟨1, 0, 0, 0, 0⟩, ⟨1, 1, 0, 0, 0⟩]
      outReqList := [] }

/-- A round with an empty queue behind it and a clock that stands. -/
def roundAt (now : Int) : Event := .postCqes ⟨fun _ => 0, fun _ => now, now⟩

/-- Two writes, the second of which expires first, and two rounds. -/
def twoWrites : List Event :=
  [.processSq 1 [.io 7 (.complete 0 (some 200)),
    .io 8 (.complete 0 (some 100))], roundAt 150, roundAt 250]

/-- Each round posts one of them, the later command first. -/
theorem completions_in_expiry_order_two_writes :
    (∀ x ∈ trace (initCtl twoSlots 1 4) twoWrites,
        Orderly (step x.1 x.2) ∧ Rounded x.1 x.2 ∧ Complete x.1 x.2) ∧
      (twoWrites.foldl step (initCtl twoSlots 1 4)).posted.map
          (fun x => (x.req.cid, x.clock, x.index))
        = [(8, 150, 0), (7, 250, 1)] ∧
      (twoWrites.foldl step (initCtl twoSlots 1 4)).cq.reqList = [] :=
  ⟨(completions_in_expiry_order_iff twoSlots 1 4 (by decide) _).2
    (by simp [trace, Punctual, twoWrites, roundAt]), by decide, by decide⟩

/-- A flush goes out on one request, a write on the other is to expire at
100, and the flush comes back with the zero of a request never timed. -/
def flushLate : Ctl :=
  [.processSq 1 [.io 7 .noComplete, .io 8 (.complete 0 (some 100))],
    .miscCb 50 false 1 0].foldl step (initCtl twoSlots 1 4)

/-- The flush waits behind the write: the list is not sorted, and a round
at 50 stops at the write and leaves the flush, which has expired. -/
theorem flush_waits_behind_write :
    flushLate.cq.reqList.map (·.expireTime) = [100, 0] ∧
      ¬ Sorted flushLate ∧ ¬ Complete flushLate (roundAt 50) := by
  decide +kernel

end FemuRemap.Completion
