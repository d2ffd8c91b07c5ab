/-
The requests of a submission queue: each of them is free, out, or waits
for its completion to be posted, whatever the guest writes.

`Stays`, `Takes` and `Gives` are all that the controller does with them.
A request is known by its slot, and the command that it serves by its
`cid`: a free request is taken for a command, may pass from the queue's
list of those that are out to the list of the completion queue, and is
given back when its completion is posted.
-/
import FemuRemap.Model.Queues
import FemuRemap.Proofs.Completion

namespace FemuRemap.Rings

open Lib Completion

variable {c c' c'' : Ctl} {q q' : Queues} {s t slot cid : Nat}

/-- A request and the command that it serves. -/
def tag (r : Request) : Nat × Nat := (r.slot, r.cid)

/-- The slots on the free list of queue `s`. -/
def free (s : Nat) (c : Ctl) : List Nat := (c.sqs s).reqList.map (·.slot)

/-- The requests of a queue on `cq->req_list`. -/
def waiting (s : Nat) (c : Ctl) : List (Nat × Nat) :=
  (c.cq.reqList.filter (·.sqid == s)).map fun p => tag p.toRequest

/-- The requests that serve a command. -/
def inFlight (s : Nat) (c : Ctl) : List (Nat × Nat) :=
  (c.sqs s).outReqList.map tag ++ waiting s c

/-- Every slot of every queue is in one place. -/
def Pooled (c : Ctl) : Prop :=
  ∀ s, (free s c ++ (inFlight s c).map Prod.fst).Perm
    (List.range (c.sqs s).size)

-- ==================================================== what can happen

/-- The fields of the rings that no use of a request touches. -/
structure SameEnds (c c' : Ctl) : Prop where
  size : ∀ s, (c'.sqs s).size = (c.sqs s).size
  head : ∀ s, (c'.sqs s).head = (c.sqs s).head
  cqSize : c'.cq.size = c.cq.size
  cqHead : c'.cq.head = c.cq.head

/-- No request is taken or given back. -/
structure Stays (c c' : Ctl) : Prop where
  ends : SameEnds c c'
  tail : c'.cq.tail = c.cq.tail
  phase : c'.cq.phase = c.cq.phase
  free : ∀ s, free s c' = free s c
  inFlight : ∀ s, (inFlight s c').Perm (inFlight s c)
  posted : c'.posted = c.posted

/-- The first free request of queue `s` is taken for a command. -/
structure Takes (s slot cid : Nat) (c c' : Ctl) : Prop where
  ends : SameEnds c c'
  tail : c'.cq.tail = c.cq.tail
  phase : c'.cq.phase = c.cq.phase
  free : Rings.free s c = slot :: Rings.free s c'
  inFlight : (Rings.inFlight s c').Perm ((slot, cid) :: Rings.inFlight s c)
  free_ne : ∀ t, t ≠ s → Rings.free t c' = Rings.free t c
  inFlight_ne : ∀ t, t ≠ s →
    (Rings.inFlight t c').Perm (Rings.inFlight t c)
  posted : c'.posted = c.posted

/-- The completion of `p` is posted and its request given back. -/
structure Gives (clock : Int) (p : Pending) (c c' : Ctl) : Prop where
  ends : SameEnds c c'
  cq : c'.cq.tail = (nvmeIncCqTail c.cq).tail ∧
    c'.cq.phase = (nvmeIncCqTail c.cq).phase
  free : Rings.free p.sqid c' = Rings.free p.sqid c ++ [p.slot]
  inFlight : (Rings.inFlight p.sqid c).Perm
    ((p.slot, p.cid) :: Rings.inFlight p.sqid c')
  free_ne : ∀ t, t ≠ p.sqid → Rings.free t c' = Rings.free t c
  inFlight_ne : ∀ t, t ≠ p.sqid → Rings.inFlight t c' = Rings.inFlight t c
  posted : c'.posted = c.posted ++ [⟨p, clock, c.cq.tail, cqeOf p c⟩]

theorem SameEnds.refl (c : Ctl) : SameEnds c c :=
  ⟨fun _ => rfl, fun _ => rfl, rfl, rfl⟩

theorem Stays.refl (c : Ctl) : Stays c c :=
  ⟨.refl c, rfl, rfl, fun _ => rfl, fun _ => .refl _, rfl⟩

/-- A step that moves no request keeps the pool whole. -/
theorem Stays.pooled (h : Stays c c') (hp : Pooled c) : Pooled c' := by
  intro s
  rw [h.free s, h.ends.size s]
  exact (((h.inFlight s).map _).append_left _).trans (hp s)

/-- So does one that takes a request off the free list, -/
theorem Takes.pooled (h : Takes s slot cid c c') (hp : Pooled c) :
    Pooled c' := by
  intro t
  rw [h.ends.size t]
  by_cases ht : t = s
  · subst ht
    have hmap := (h.inFlight.map Prod.fst).append_left (Rings.free t c')
    have hpt := hp t
    rw [h.free, List.cons_append] at hpt
    rw [List.map_cons] at hmap
    exact (hmap.trans List.perm_middle).trans hpt
  · rw [h.free_ne t ht]
    exact (((h.inFlight_ne t ht).map _).append_left _).trans (hp t)

/-- and one that gives the request of a completion back. -/
theorem Gives.pooled {clock : Int} {p : Pending} (h : Gives clock p c c')
    (hp : Pooled c) : Pooled c' := by
  intro t
  rw [h.ends.size t]
  by_cases ht : t = p.sqid
  · subst ht
    have hmap := (h.inFlight.map Prod.fst).append_left (Rings.free p.sqid c)
    rw [List.map_cons] at hmap
    rw [h.free, List.append_assoc]
    exact hmap.symm.trans (hp p.sqid)
  · rw [h.free_ne t ht, h.inFlight_ne t ht]
    exact hp t

/-- No slot of a queue is in two places. -/
theorem Pooled.nodup (h : Pooled c) (s : Nat) :
    (free s c ++ (inFlight s c).map Prod.fst).Nodup :=
  (h s).nodup_iff.2 List.nodup_range

theorem Pooled.slots_nodup (h : Pooled c) (s : Nat) :
    ((c.sqs s).outReqList.map (·.slot)).Nodup := by
  have hout := (h.nodup s).of_append_right
  rw [inFlight, List.map_append, List.map_map] at hout
  exact hout.of_append_left

/-- A free request is not out. -/
theorem Pooled.not_out (h : Pooled c) {r : Request} {l : List Request}
    (hl : (c.sqs s).reqList = r :: l) :
    r.slot ∉ (c.sqs s).outReqList.map (·.slot) := by
  have hnodup := h.nodup s
  rw [Rings.free, hl, List.map_cons, List.cons_append, List.nodup_cons,
    inFlight, List.map_append, List.map_map] at hnodup
  intro hmem
  exact hnodup.1 (List.mem_append_right _ (List.mem_append_left _ hmem))

-- ============================================================ enqueues

/-- `QTAILQ_REMOVE` takes out the request with the slot, as there is one
only. -/
theorem perm_leaveOut {l : List Request} {r : Request}
    (hnodup : (l.map (·.slot)).Nodup) (hr : r ∈ l) :
    l.Perm (r :: l.eraseP (·.slot == r.slot)) := by
  induction l with
  | nil => cases hr
  | cons a l ih =>
      rw [List.map_cons, List.nodup_cons] at hnodup
      rcases List.mem_cons.1 hr with rfl | hmem
      · rw [List.eraseP_cons_of_pos (by simp)]
      · have hne : a.slot ≠ r.slot := fun heq =>
          hnodup.1 (heq ▸ List.mem_map_of_mem hmem)
        rw [List.eraseP_cons_of_neg (by simpa using hne)]
        exact ((ih hnodup.2 hmem).cons a).trans (.swap _ _ _)

variable {put : Pending → List Pending → List Pending}
  {timer : Option Int} {req r : Request}

/-- Enqueueing a completion takes the request off its queue's list of requests
that are out. -/
theorem enqueue_sqs : (c.enqueue put timer req).sqs
    = c.sqs.set req.sqid ((c.sqs req.sqid).leaveOut req.slot) := rfl

/-- An enqueue moves a request that is out to the list of the completion
queue. -/
theorem enqueue_stays (hput : ∀ p l, (put p l).Perm (p :: l))
    (hnodup : ((c.sqs req.sqid).outReqList.map (·.slot)).Nodup)
    (hr : r ∈ (c.sqs req.sqid).outReqList) (htag : tag r = tag req) :
    Stays c (c.enqueue put timer req) where
  ends :=
    ⟨Table.apply_set SQueue.size c.sqs rfl,
      Table.apply_set SQueue.head c.sqs rfl, rfl, rfl⟩
  tail := rfl
  phase := rfl
  free := Table.apply_set (a := (c.sqs req.sqid).leaveOut req.slot)
    (fun sq => sq.reqList.map (·.slot)) c.sqs rfl
  inFlight s := by
    have hlist : (put (c.pending req) c.cq.reqList).Perm
        (c.pending req :: c.cq.reqList) := hput _ _
    have hfilter := (hlist.filter (·.sqid == s)).map fun p => tag p.toRequest
    unfold Rings.inFlight
    rw [enqueue_sqs]
    -- of its own queue the request changes lists; the others see nothing
    by_cases hs : s = req.sqid
    · subst hs
      have hout := (perm_leaveOut hnodup hr).map tag
      rw [List.filter_cons_of_pos (by simp [Ctl.pending]),
        List.map_cons] at hfilter
      have hslot : r.slot = req.slot := congrArg Prod.fst htag
      rw [List.map_cons, htag, hslot] at hout
      rw [Table.get_set_self]
      exact ((hfilter.append_left _).trans List.perm_middle).trans
        (hout.symm.append_right _)
    · rw [List.filter_cons_of_neg (by simpa [Ctl.pending] using Ne.symm hs)]
        at hfilter
      rw [Table.get_set_ne _ _ hs]
      exact hfilter.append_left _
  posted := rfl

/-- The callback of a flush or of write-zeroes: the request moves from the
list of those that are out to the completions, still in flight. -/
theorem miscCb_stays (h : Pooled c) (now : Int) (failed : Bool)
    (s slot : Nat) : Stays c (nvmeMiscCb now failed s slot c) := by
  unfold nvmeMiscCb
  split
  case h_1 => exact .refl c
  case h_2 r hr =>
    refine enqueue_stays (r := r) (fun p l => ?_) (h.slots_nodup s)
      (List.mem_of_find?_eq_some hr) rfl
    exact List.perm_append_singleton p l

-- ========================================================== commands

/-- A free request goes out, to be enqueued or not. -/
def goOut (s : Nat) (req : Request) (l : List Request) (c : Ctl) : Ctl :=
  { c with
    sqs := c.sqs.set s
      { c.sqs s with
        reqList := l
        outReqList := (c.sqs s).outReqList ++ [req] } }

/-- A request put on the list of those that are out. -/
theorem goOut_takes {l : List Request} (req : Request)
    (hl : (c.sqs s).reqList = r :: l) (hslot : req.slot = r.slot) :
    Takes s r.slot req.cid c (goOut s req l c) where
  ends :=
    ⟨Table.apply_set SQueue.size c.sqs rfl,
      Table.apply_set SQueue.head c.sqs rfl, rfl, rfl⟩
  tail := rfl
  phase := rfl
  free := by
    show (c.sqs s).reqList.map _ = _ :: ((c.sqs.set s _) s).reqList.map _
    rw [hl, Table.get_set_self, List.map_cons]
  inFlight := by
    show (((c.sqs.set s _) s).outReqList.map tag ++ waiting s c).Perm
      (_ :: ((c.sqs s).outReqList.map tag ++ waiting s c))
    rw [Table.get_set_self, List.map_append, List.append_assoc, ← hslot]
    exact List.perm_middle
  free_ne t ht := by
    show ((c.sqs.set s _) t).reqList.map _ = _
    rw [Table.get_set_ne _ _ ht]
    rfl
  inFlight_ne t ht := by
    show (((c.sqs.set s _) t).outReqList.map tag ++ waiting t c).Perm _
    rw [Table.get_set_ne _ _ ht]
    exact .refl _
  posted := rfl

/-- What follows without moving a request changes nothing. -/
theorem Takes.stays (h : Takes s slot cid c c') (h' : Stays c' c'') :
    Takes s slot cid c c'' where
  ends :=
    ⟨fun t => (h'.ends.size t).trans (h.ends.size t),
      fun t => (h'.ends.head t).trans (h.ends.head t),
      h'.ends.cqSize.trans h.ends.cqSize, h'.ends.cqHead.trans h.ends.cqHead⟩
  tail := h'.tail.trans h.tail
  phase := h'.phase.trans h.phase
  free := by rw [h'.free s, h.free]
  inFlight := (h'.inFlight s).trans h.inFlight
  free_ne t ht := (h'.free t).trans (h.free_ne t ht)
  inFlight_ne t ht := (h'.inFlight t).trans (h.inFlight_ne t ht)
  posted := h'.posted.trans h.posted

/-- A request that goes out and is enqueued at once. -/
theorem goOut_enqueue_takes {l : List Request} (h : Pooled c)
    (req : Request) (hput : ∀ p l, (put p l).Perm (p :: l))
    (hl : (c.sqs s).reqList = r :: l) (hslot : req.slot = r.slot)
    (hsqid : req.sqid = s) :
    Takes s r.slot req.cid c ((goOut s req l c).enqueue put timer req) := by
  have hout : ((goOut s req l c).sqs req.sqid).outReqList
      = (c.sqs s).outReqList ++ [req] := by
    rw [hsqid]
    show ((c.sqs.set s _) s).outReqList = _
    rw [Table.get_set_self]
  refine (goOut_takes req hl hslot).stays
    (enqueue_stays (r := req) hput ?_ ?_ rfl)
  · rw [hout, List.map_append, List.map_singleton, hslot]
    exact (h.slots_nodup s).append (List.nodup_singleton _)
      (List.disjoint_singleton.2 (h.not_out hl))
  · rw [hout]
    exact List.mem_append_right _ (List.mem_singleton_self _)

/-- Whatever the verdict, a served command takes the first free request. -/
theorem serveCommand_takes {l : List Request} (h : Pooled c)
    (hl : (c.sqs s).reqList = r :: l) (cid : Nat) (verdict : Verdict) :
    Takes s r.slot cid c (serveCommand s cid verdict r l c) := by
  cases verdict with
  | noComplete => exact goOut_takes { r with sqid := s, cid := cid } hl rfl
  | complete status expireTime =>
      exact goOut_enqueue_takes h
        { r with
          sqid := s
          cid := cid
          status := status
          expireTime := expireTime.getD r.expireTime }
        (fun p l => List.perm_orderedInsert _ p l) hl rfl rfl

-- ============================================================ posting

@[simp] theorem nvmeIncCqTail_size (cq : CQueue) :
    (nvmeIncCqTail cq).size = cq.size := by
  unfold nvmeIncCqTail
  split <;> rfl

@[simp] theorem nvmeIncCqTail_head (cq : CQueue) :
    (nvmeIncCqTail cq).head = cq.head := by
  unfold nvmeIncCqTail
  split <;> rfl

/-- Moving the tail keeps the waiting completions. -/
theorem nvmeIncCqTail_ends (cq : CQueue) (ps : List Pending) :
    (nvmeIncCqTail { cq with reqList := ps }).tail = (nvmeIncCqTail cq).tail
      ∧ (nvmeIncCqTail { cq with reqList := ps }).phase
        = (nvmeIncCqTail cq).phase := by
  unfold nvmeIncCqTail
  dsimp only
  split <;> exact ⟨rfl, rfl⟩

/-- Posting touches no list of requests that are out. -/
theorem nvmePostCqe_out (clock : Int) (p : Pending) (c : Ctl) (t : Nat) :
    ((nvmePostCqe clock p c).sqs t).outReqList = (c.sqs t).outReqList :=
  Table.apply_set SQueue.outReqList c.sqs (by rfl) t

theorem nvmePostCqe_reqList (clock : Int) (p : Pending) (c : Ctl) :
    (nvmePostCqe clock p c).cq.reqList = c.cq.reqList :=
  nvmeIncCqTail_reqList c.cq

/-- Posting gives the request of the entry back to its queue. -/
theorem postCqe_gives {p : Pending} {ps : List Pending}
    (hl : c.cq.reqList = p :: ps) (clock : Int) :
    Gives clock p c
      (nvmePostCqe clock p { c with cq := { c.cq with reqList := ps } }) where
  ends :=
    ⟨Table.apply_set SQueue.size c.sqs rfl,
      Table.apply_set SQueue.head c.sqs rfl, nvmeIncCqTail_size _,
      nvmeIncCqTail_head _⟩
  cq := nvmeIncCqTail_ends c.cq ps
  free := by
    show ((c.sqs.set p.sqid _) p.sqid).reqList.map _ = _
    rw [Table.get_set_self, List.map_append]
    rfl
  inFlight := by
    rw [Rings.inFlight, Rings.inFlight, waiting, waiting, nvmePostCqe_out,
      nvmePostCqe_reqList, hl, List.filter_cons_of_pos (by simp),
      List.map_cons]
    exact List.perm_middle
  free_ne t ht := by
    show ((c.sqs.set p.sqid _) t).reqList.map _ = _
    rw [Table.get_set_ne _ _ ht]
    rfl
  inFlight_ne t ht := by
    rw [Rings.inFlight, Rings.inFlight, waiting, waiting, nvmePostCqe_out,
      nvmePostCqe_reqList, hl,
      List.filter_cons_of_neg (by simpa using Ne.symm ht)]
  posted := rfl

/-- The queues once the list of the completion queue is `ps`. -/
def withList (q : Queues) (ps : List Pending) : Queues :=
  { q with ctl := { q.ctl with cq := { q.ctl.cq with reqList := ps } } }

/-- What an iteration of a posting round comes to. -/
theorem post_cases (q : Queues) (clock : Int) :
    Rings.post q clock = q ∨ Rings.post q clock = nvmeUpdateCqHead q ∨
      ∃ p ps, q.ctl.cq.reqList = p :: ps ∧
        nvmeCqFull (nvmeUpdateCqHead q).ctl.cq = false ∧
        Rings.post q clock
          = postCqe (withList (nvmeUpdateCqHead q) ps) clock p := by
  unfold Rings.post
  split
  case h_1 => exact .inl rfl
  case h_2 p ps hl =>
    unfold postNext
    dsimp only
    split
    case isTrue => exact .inr (.inl rfl)
    case isFalse hfull =>
      split
      case isTrue => exact .inr (.inl rfl)
      case isFalse =>
        exact .inr (.inr ⟨p, ps, hl, Bool.eq_false_iff.2 hfull, rfl⟩)

-- ========================================================= fetching

/-- `nvme_inc_sq_head`. -/
def advance (s : Nat) (c : Ctl) : Ctl :=
  { c with sqs := c.sqs.set s (nvmeIncSqHead (c.sqs s)) }

theorem advance_size (s t : Nat) (c : Ctl) :
    ((advance s c).sqs t).size = (c.sqs t).size :=
  Table.apply_set SQueue.size c.sqs (by rfl) t

theorem advance_reqList (s t : Nat) (c : Ctl) :
    ((advance s c).sqs t).reqList = (c.sqs t).reqList :=
  Table.apply_set SQueue.reqList c.sqs (by rfl) t

/-- Moving the head of a submission queue moves no request. -/
theorem advance_free (s t : Nat) (c : Ctl) :
    free t (advance s c) = free t c := by
  rw [free, free, advance_reqList]

/-- Nor does it change what is in flight. -/
theorem advance_inFlight (s t : Nat) (c : Ctl) :
    inFlight t (advance s c) = inFlight t c := by
  have hout : ((advance s c).sqs t).outReqList = (c.sqs t).outReqList :=
    Table.apply_set SQueue.outReqList c.sqs (by rfl) t
  rw [inFlight, inFlight, hout]
  rfl

theorem advance_pooled (h : Pooled c) (s : Nat) : Pooled (advance s c) := by
  intro t
  rw [advance_free, advance_inFlight, advance_size]
  exact h t

/-- What a fetch comes to: the head moves on, and unless the entry is an
aborted one, a request is taken for it. -/
theorem fetch_cases (h : fetch s q = some q') :
    ∃ r l e, (q.ctl.sqs s).reqList = r :: l ∧
      (q.ctl.sqs s).head ≠ (q.sqr s).tail ∧
      e = (q.sqr s).entries (q.ctl.sqs s).head ∧
      q' =
        { q with
          ctl := processCommand s r l e.command q.ctl
          fetched := q.fetched.set s (q.fetched s ++ [e]) } := by
  unfold fetch at h
  dsimp only at h
  split at h
  case isTrue => cases h
  case isFalse hne =>
    split at h
    case h_1 => cases h
    case h_2 r l hl =>
      cases h
      exact ⟨r, l, _, hl, hne, rfl, rfl⟩

/-- A command that was aborted in the ring is skipped. -/
theorem processCommand_aborted (s : Nat) (r : Request) (l : List Request)
    (c : Ctl) : processCommand s r l .aborted c = advance s c := rfl

/-- Any other is served, by the first free request. -/
theorem processCommand_takes {l : List Request} (h : Pooled c)
    (hl : (c.sqs s).reqList = r :: l) (cid : Nat) (verdict : Verdict) :
    Takes s r.slot cid (advance s c)
      (processCommand s r l (.io cid verdict) c) :=
  serveCommand_takes (advance_pooled h s)
    ((advance_reqList s s c).trans hl) cid verdict

/-- Taking one command off the ring, of either kind. -/
theorem fetch_pooled (hp : Pooled q.ctl) (h : fetch s q = some q') :
    Pooled q'.ctl := by
  obtain ⟨r, l, e, hl, -, -, rfl⟩ := fetch_cases h
  show Pooled (processCommand s r l e.command q.ctl)
  cases e.command with
  | aborted => exact advance_pooled hp s
  | io cid verdict =>
      exact (processCommand_takes hp hl cid verdict).pooled
        (advance_pooled hp s)

-- ============================================================== abort

/-- An abort of a waiting command takes a request for its completion. -/
theorem abortEntry_takes {l : List Request} (h : Pooled q.ctl)
    (hl : (q.ctl.sqs s).reqList = r :: l) (now : Int) (cid slot : Nat) :
    Takes s r.slot cid q.ctl (abortEntry s q now cid slot r l).ctl :=
  goOut_enqueue_takes h
    { r with sqid := s, cid := cid, status := abortStatus }
    (fun p l => List.perm_append_singleton p l) hl rfl rfl

/-- What an abort comes to. -/
theorem abortReq_cases {now : Int} {failed : Bool} {res : Nat}
    (h : nvmeAbortReq s q now failed cid = .ok (res, q')) :
    (∃ r ∈ (q.ctl.sqs s).outReqList, res = 0 ∧
        q' = { q with ctl := nvmeMiscCb now failed s r.slot q.ctl }) ∨
      (res = 1 ∧ q' = q) ∨
      ∃ r l slot, (q.ctl.sqs s).reqList = r :: l ∧ res = 0 ∧
        findEntry (q.ctl.sqs s).size (q.ctl.sqs s).head cid (q.sqr s)
          (q.ctl.sqs s).size 0 = some (some slot) ∧
        q' = abortEntry s q now cid slot r l := by
  unfold nvmeAbortReq at h
  dsimp only at h
  split at h
  case h_1 r hr =>
    cases h
    exact .inl ⟨r, List.mem_of_find?_eq_some hr, rfl, rfl⟩
  case h_2 =>
    split at h
    case h_1 => cases h
    case h_2 =>
      cases h
      exact .inr (.inl ⟨rfl, rfl⟩)
    case h_3 slot hslot =>
      split at h
      case h_1 => cases h
      case h_2 r l hl =>
        cases h
        exact .inr (.inr ⟨r, l, slot, hl, rfl, hslot, rfl⟩)

/-- The abort as a whole, found or not. -/
theorem abortReq_pooled {now : Int} {failed : Bool} {res : Nat}
    (hp : Pooled q.ctl)
    (h : nvmeAbortReq s q now failed cid = .ok (res, q')) :
    Pooled q'.ctl := by
  rcases abortReq_cases h with
    ⟨r, -, -, rfl⟩ | ⟨-, rfl⟩ | ⟨r, l, slot, hl, -, -, rfl⟩
  · exact (miscCb_stays hp now failed s r.slot).pooled hp
  · exact hp
  · exact (abortEntry_takes hp hl now cid slot).pooled hp

-- =============================================================== runs

/-- The invariant reads the lists and the sizes only. -/
theorem Pooled.congr (h : Pooled c) (hsqs : ∀ s, (c'.sqs s).size
      = (c.sqs s).size ∧ (c'.sqs s).reqList = (c.sqs s).reqList ∧
        (c'.sqs s).outReqList = (c.sqs s).outReqList)
    (hcq : c'.cq.reqList = c.cq.reqList) : Pooled c' := by
  intro s
  have hs := h s
  obtain ⟨hsize, hreq, hout⟩ := hsqs s
  rw [free, inFlight, waiting] at hs ⊢
  rw [hsize, hreq, hout, hcq]
  exact hs

/-- The case of queues that did not change at all. -/
theorem Pooled.of_sqs (h : Pooled c) (hsqs : c'.sqs = c.sqs)
    (hcq : c'.cq.reqList = c.cq.reqList) : Pooled c' :=
  h.congr (fun _ => by rw [hsqs]; exact ⟨rfl, rfl, rfl⟩) hcq

/-- Nothing that a guest writes reaches the requests. -/
theorem Guest.step_ctl (q : Queues) (g : Guest) :
    (g.step q).ctl.sqs = q.ctl.sqs ∧
      (g.step q).ctl.cq.reqList = q.ctl.cq.reqList := by
  cases g with
  | entry | cqe | sqShadow | cqShadow => exact ⟨rfl, rfl⟩
  | sqDoorbell s val =>
      simp only [Guest.step, Rings.sqDoorbell]
      split
      · exact ⟨rfl, rfl⟩
      · split <;> exact ⟨rfl, rfl⟩
  | cqDoorbell val =>
      simp only [Guest.step, Rings.cqDoorbell]
      split <;> exact ⟨rfl, rfl⟩

theorem inFlight_congr (hsqs : c'.sqs = c.sqs)
    (hcq : c'.cq.reqList = c.cq.reqList) (s : Nat) :
    inFlight s c' = inFlight s c := by
  rw [inFlight, inFlight, waiting, waiting, hsqs, hcq]

/-- The loop that posts completions, by its steps. -/
theorem post_pooled (hp : Pooled q.ctl) (clock : Int) :
    Pooled (Rings.post q clock).ctl := by
  rcases post_cases q clock with heq | heq | ⟨p, ps, hl, -, heq⟩
  · rw [heq]
    exact hp
  · rw [heq]
    exact hp.of_sqs rfl rfl
  · rw [heq]
    have hhead : Pooled (nvmeUpdateCqHead q).ctl := hp.of_sqs rfl rfl
    exact (postCqe_gives (c := (nvmeUpdateCqHead q).ctl) hl clock).pooled hhead

/-- One step of the device, by its kind. -/
theorem Device.step_pooled {d : Device} (hp : Pooled q.ctl)
    (h : d.step q = .ok q') : Pooled q'.ctl := by
  cases d with
  | updateSqTail s | rearm ntt nc =>
      cases h
      exact hp.of_sqs rfl rfl
  | fetch s =>
      cases h
      cases hf : Rings.fetch s q with
      | none => exact hp
      | some q' => exact fetch_pooled hp hf
  | addCompleted s processed =>
      cases h
      refine hp.congr (fun t => ⟨?_, ?_, ?_⟩) rfl
      · exact Table.apply_set SQueue.size q.ctl.sqs (by rfl) t
      · exact Table.apply_set SQueue.reqList q.ctl.sqs (by rfl) t
      · exact Table.apply_set SQueue.outReqList q.ctl.sqs (by rfl) t
  | post clock =>
      cases h
      exact post_pooled hp clock
  | miscCb now failed s slot =>
      cases h
      exact (miscCb_stays hp now failed s slot).pooled hp
  | abortReq now failed s cid =>
      obtain ⟨a, ha, rfl⟩ := map_ok_iff.1 h
      exact abortReq_pooled hp ha

theorem step_pooled {e : Event} (hp : Pooled q.ctl)
    (h : Rings.step q e = .ok q') : Pooled q'.ctl := by
  cases e with
  | inl g =>
      cases h
      exact hp.of_sqs (g.step_ctl q).1 (g.step_ctl q).2
  | inr d => exact Device.step_pooled hp h

theorem run_pooled {es : List Event} (hp : Pooled q.ctl)
    (h : run q es = .ok q') : Pooled q'.ctl :=
  runs.invariant (P := fun q => Pooled q.ctl)
    (fun _ _ _ hp hs => step_pooled hp hs) hp h

end FemuRemap.Rings
