/-
The protocol of the queues: whatever the two ends do, in whatever order,
no command and no completion is lost, doubled, or taken before its time.

# The invariant

`Linked` puts the pieces of `Proofs.Rings` together: every submission
queue and the completion queue are linked, the heads that completions
report are in order, every request is in one place and the commands of
each queue are balanced. An act changes one queue, or the requests of
one, so that each act has the lemma of its piece and leaves the others
as they were (`Linked.at_sq`, `Linked.at_cq`, `Linked.stays`).

# What it gives

`fetched ++ unfetched` is what was submitted and `reaped ++ unreaped` is
what was posted, in order; the driver sees the phase it waits for just
when there is something to take. Counting commands instead, each one is
completed once for each time it is aborted after the first, and once
more.
-/
import FemuRemap.Proofs.Requests
import FemuRemap.Proofs.Rings

namespace FemuRemap.Rings

open Lib Completion

variable {l l' : Link} {k : Nat → SqCounts} {kc : CqCounts}
  {heads : List (Nat × Nat)} {s : Nat}

/-- The two ends of one submission ring: the driver's and the device's. -/
def Link.sq (l : Link) (s : Nat) : SqEnds where
  size := (l.dev.ctl.sqs s).size
  head := (l.dev.ctl.sqs s).head
  tail := (l.dev.sqr s).tail
  shadow := (l.dev.sqr s).shadow
  entries := (l.dev.sqr s).entries
  hostTail := (l.host.sqs s).tail
  hostHead := (l.host.sqs s).head
  fetched := l.dev.fetched s
  submitted := l.host.submitted s

/-- The two ends of the completion ring. -/
def Link.cq (l : Link) : CqEnds where
  size := l.dev.ctl.cq.size
  head := l.dev.ctl.cq.head
  tail := l.dev.ctl.cq.tail
  phase := l.dev.ctl.cq.phase
  shadow := l.dev.cqr.shadow
  entries := l.dev.cqr.entries
  hostHead := l.host.cqHead
  hostPhase := l.host.cqPhase
  reaped := l.host.reaped
  posted := l.dev.ctl.posted.map (·.cqe)

/-- The counts `k` and `kc` explain both rings, and `heads` the entries in the
completion ring. -/
structure Linked (l : Link) (k : Nat → SqCounts) (kc : CqCounts)
    (heads : List (Nat × Nat)) : Prop where
  sq : ∀ s, SqLinked (l.sq s) (k s)
  cq : CqLinked l.cq kc
  reports : Reports (fun s => (l.sq s).size)
    (fun s => (l.sq s).fetched.length) (fun s => (k s).known) l.cq.posted
    l.cq.reaped.length heads
  pooled : Pooled l.dev.ctl
  balanced : ∀ s, Balanced s l.cq.posted (inFlight s l.dev.ctl)
    (l.sq s).fetched.length (k s).log (l.dev.again s)

-- ============================================================== frames

/-- An act on one submission queue. -/
theorem Linked.at_sq (h : Linked l k kc heads) {e : SqEnds} {k' : SqCounts}
    (he : l'.sq = Function.update l.sq s e) (hcq : l'.cq = l.cq)
    (hsq : SqLinked e k') (hsize : e.size = (l.sq s).size)
    (hfetched : (l.sq s).fetched.length ≤ e.fetched.length)
    (hknown : k'.known = (k s).known) (hpooled : Pooled l'.dev.ctl)
    (hbalanced : Balanced s l.cq.posted (inFlight s l'.dev.ctl)
      e.fetched.length k'.log (l'.dev.again s))
    (hlive : ∀ t, t ≠ s →
      (inFlight t l'.dev.ctl).Perm (inFlight t l.dev.ctl) ∧
        l'.dev.again t = l.dev.again t) :
    ∃ k, Linked l' k kc heads := by
  refine ⟨Function.update k s k', fun t => ?_, hcq ▸ h.cq, ?_, hpooled,
    fun t => ?_⟩
  · rw [he]
    by_cases ht : t = s
    · rw [ht, Function.update_self, Function.update_self]
      exact hsq
    · rw [Function.update_of_ne ht, Function.update_of_ne ht]
      exact h.sq t
  · -- the reports are of all rings at once; only how far this one is fetched
    -- has changed
    have hknown' : (fun t => (Function.update k s k' t).known)
        = fun t => (k t).known := by
      funext t
      rw [Function.update_apply]
      split
      case isTrue ht => rw [ht, hknown]
      case isFalse => rfl
    have hsize' : (fun t => (l'.sq t).size) = fun t => (l.sq t).size := by
      funext t
      rw [he, Function.update_apply]
      split
      case isTrue ht => rw [ht, hsize]
      case isFalse => rfl
    rw [hknown', hsize', hcq]
    refine h.reports.fetch fun t => ?_
    rw [he, Function.update_apply]
    split
    case isTrue ht => rwa [ht]
    case isFalse => exact Nat.le_refl _
  · rw [hcq, he]
    by_cases ht : t = s
    · rw [ht, Function.update_self, Function.update_self]
      exact hbalanced
    · rw [Function.update_of_ne ht, Function.update_of_ne ht,
        (hlive t ht).2]
      exact (h.balanced t).perm (hlive t ht).1

/-- An act on the completion queue that posts and takes nothing. -/
theorem Linked.at_cq (h : Linked l k kc heads) {kc' : CqCounts}
    (hcq : CqLinked l'.cq kc') (hsq : ∀ s, l'.sq s = l.sq s)
    (hposted : l'.cq.posted = l.cq.posted)
    (hreaped : l'.cq.reaped = l.cq.reaped) (hpooled : Pooled l'.dev.ctl)
    (hlive : ∀ s, (inFlight s l'.dev.ctl).Perm (inFlight s l.dev.ctl))
    (hagain : l'.dev.again = l.dev.again) :
    Linked l' k kc' heads where
  sq s := hsq s ▸ h.sq s
  cq := hcq
  reports := by
    simp only [hsq, hposted, hreaped]
    exact h.reports
  pooled := hpooled
  balanced s := by
    rw [hposted, hsq s, hagain]
    exact (h.balanced s).perm (hlive s)

/-- An act of the controller on its requests alone. -/
theorem Linked.stays {c : Ctl} (h : Linked l k kc heads)
    (hc : Stays l.dev.ctl c) :
    Linked { l with dev := { l.dev with ctl := c } } k kc heads := by
  have hsq : ∀ s, Link.sq { l with dev := { l.dev with ctl := c } } s
      = l.sq s := by
    intro s
    simp only [Link.sq, hc.ends.size, hc.ends.head]
  have hcq : Link.cq { l with dev := { l.dev with ctl := c } } = l.cq := by
    simp only [Link.cq, hc.ends.cqSize, hc.ends.cqHead, hc.tail, hc.phase,
      hc.posted]
  exact h.at_cq (hcq ▸ h.cq) hsq (by rw [hcq]) (by rw [hcq])
    (hc.pooled h.pooled) hc.inFlight rfl

-- ========================================================== the driver

/-- A step that touches one submission ring updates the family at one
place. -/
theorem sq_eq_update {e : SqEnds} (hs : l'.sq s = e)
    (hne : ∀ t, t ≠ s → l'.sq t = l.sq t) :
    l'.sq = Function.update l.sq s e := by
  funext t
  rw [Function.update_apply]
  split
  case isTrue ht => rw [ht, hs]
  case isFalse ht => exact hne t ht

/-- The driver adds a command, or finds the ring full and does nothing. -/
theorem Linked.submit (h : Linked l k kc heads) (s cid : Nat)
    (verdict : Verdict) :
    ∃ k, Linked (Rings.submit l s cid verdict) k kc heads := by
  unfold Rings.submit
  dsimp only
  split
  case isTrue => exact ⟨k, h⟩
  case isFalse hroom =>
    refine h.at_sq (sq_eq_update ?_ fun t ht => ?_) rfl
      ((h.sq s).submit ⟨cid, verdict, 0⟩ hroom) rfl (Nat.le_refl _) rfl
      h.pooled ((h.balanced s).submit (h.sq s).fetched_le rfl)
      fun _ _ => ⟨.refl _, rfl⟩
    · simp [Link.sq, Guest.step, Table.get_set_eq]
    · simp only [Link.sq, Guest.step, Table.get_set_ne _ _ ht]

/-- The driver publishes its tail. -/
theorem Linked.ringSq (h : Linked l k kc heads) (s : Nat) :
    ∃ k, Linked (Rings.ringSq l s) k kc heads := by
  cases hshadow : (l.dev.sqr s).shadow with
  | some v =>
      simp only [Rings.ringSq, hshadow, Option.isSome_some, if_true]
      refine h.at_sq (sq_eq_update ?_ fun t ht => ?_) rfl (h.sq s).publish
        rfl (Nat.le_refl _) rfl h.pooled (h.balanced s)
        fun _ _ => ⟨.refl _, rfl⟩
      · simp [Link.sq, Guest.step]
      · simp only [Link.sq, Guest.step, Table.get_set_ne _ _ ht]
  | none =>
      have hlt : ¬ (l.dev.ctl.sqs s).size ≤ (l.host.sqs s).tail := by
        rw [Nat.not_le, show (l.host.sqs s).tail = _ from (h.sq s).hostTail]
        exact Nat.mod_lt _ (h.sq s).size_pos
      simp only [Rings.ringSq, hshadow, Option.isSome_none,
        Bool.false_eq_true, if_false, Guest.step, sqDoorbell, if_neg hlt]
      refine h.at_sq (sq_eq_update ?_ fun t ht => ?_) rfl
        ((h.sq s).ring hshadow) rfl (Nat.le_refl _) rfl h.pooled
        (h.balanced s) fun _ _ => ⟨.refl _, rfl⟩
      · simp [Link.sq, hshadow]
      · simp only [Link.sq, Table.get_set_ne _ _ ht]

/-- The driver publishes its head. -/
theorem Linked.ringCq (h : Linked l k kc heads) :
    ∃ kc, Linked (Rings.ringCq l) k kc heads := by
  cases hshadow : l.dev.cqr.shadow with
  | some v =>
      simp only [Rings.ringCq, hshadow, Option.isSome_some, if_true]
      exact ⟨_, h.at_cq h.cq.publish (fun _ => rfl) rfl rfl h.pooled
        (fun _ => .refl _) rfl⟩
  | none =>
      have hlt : ¬ l.dev.ctl.cq.size ≤ l.host.cqHead := by
        rw [Nat.not_le, show l.host.cqHead = _ from h.cq.hostHead]
        exact Nat.mod_lt _ h.cq.size_pos
      simp only [Rings.ringCq, hshadow, Option.isSome_none,
        Bool.false_eq_true, if_false, Guest.step, cqDoorbell, if_neg hlt,
        nvmeUpdateCqHead]
      exact ⟨_, h.at_cq (h.cq.ring hshadow) (fun _ => rfl) rfl rfl
        (h.pooled.of_sqs rfl rfl) (fun _ => .refl _) rfl⟩

/-- The completion that the driver takes next. -/
def Link.nextCqe (l : Link) : Cqe := l.cq.entries l.cq.hostHead

/-- Taking a completion tells the driver the head of that ring. -/
theorem reap_sq (h : ready l = true) :
    (Rings.reap l).sq = Function.update l.sq l.nextCqe.sqId
      { l.sq l.nextCqe.sqId with hostHead := l.nextCqe.sqHead } := by
  rw [Rings.reap, if_pos h]
  refine sq_eq_update ?_ fun t ht => ?_
  · simp [Link.sq, Link.nextCqe, Link.cq]
  · simp only [Link.sq]
    rw [Table.get_set_ne (m := t) _ _ (by exact ht)]

/-- And moves the driver's end of the completion ring by one. -/
theorem reap_cq (h : ready l = true) :
    (Rings.reap l).cq =
      { l.cq with
        hostHead := if l.cq.size ≤ l.cq.hostHead + 1 then 0
          else l.cq.hostHead + 1
        hostPhase := if l.cq.size ≤ l.cq.hostHead + 1 then !l.cq.hostPhase
          else l.cq.hostPhase
        reaped := l.cq.reaped ++ [l.nextCqe] } := by
  rw [Rings.reap, if_pos h]
  rfl

theorem reap_dev (l : Link) : (Rings.reap l).dev = l.dev := by
  unfold Rings.reap
  split <;> rfl

/-- The driver takes a completion when the phase says there is one. -/
theorem Linked.reap (h : Linked l k kc heads) :
    ∃ k, Linked (Rings.reap l) k kc heads := by
  by_cases hready : ready l = true
  case neg =>
    rw [Rings.reap, if_neg hready]
    exact ⟨k, h⟩
  case pos =>
    -- the phase of the slot tells the driver that it was written in this lap
    have hlt := h.cq.tag_eq_iff.1 (beq_iff_eq.1 hready)
    obtain ⟨v, hhead, hknown, hv, hreports⟩ := h.reports.next hlt
    rw [← h.cq.next hlt] at hhead hknown hv hreports
    have hk : ∀ t, (Function.update k l.nextCqe.sqId
        { k l.nextCqe.sqId with known := v } t).log = (k t).log := by
      intro t
      rw [Function.update_apply]
      split
      case isTrue ht => rw [ht]
      case isFalse => rfl
    have hk' : (fun t => (Function.update k l.nextCqe.sqId
          { k l.nextCqe.sqId with known := v } t).known)
        = Function.update (fun t => (k t).known) l.nextCqe.sqId v := by
      funext t
      rw [Function.update_apply, Function.update_apply]
      split <;> rfl
    refine ⟨Function.update k l.nextCqe.sqId
      { k l.nextCqe.sqId with known := v }, fun t => ?_, ?_, ?_, ?_,
      fun t => ?_⟩
    · rw [reap_sq hready, Function.update_apply, Function.update_apply]
      split
      case isTrue ht =>
        rw [Link.nextCqe, hhead]
        exact (h.sq _).learn hknown hv
      case isFalse => exact h.sq t
    · rw [reap_cq hready]
      exact h.cq.reap hlt
    · rw [reap_cq hready, hk', List.length_append, List.length_singleton]
      simp only [Link.sq, reap_dev] at hreports ⊢
      exact hreports
    · rw [reap_dev]
      exact h.pooled
    · rw [reap_cq hready, reap_dev, hk]
      simpa only [Link.sq, reap_dev] using h.balanced t

-- ====================================================== the controller

/-- The device reads a published tail. -/
theorem Linked.updateSqTail (h : Linked l k kc heads) (s : Nat) :
    ∃ k, Linked { l with dev := nvmeUpdateSqTail s l.dev } k kc heads := by
  refine h.at_sq (sq_eq_update ?_ fun t ht => ?_) rfl (h.sq s).sync rfl
    (Nat.le_refl _) rfl h.pooled (h.balanced s) fun _ _ => ⟨.refl _, rfl⟩
  · simp [Link.sq, nvmeUpdateSqTail]
  · simp only [Link.sq, nvmeUpdateSqTail, Table.get_set_ne _ _ ht]

/-- The device reads the published head. -/
theorem Linked.updateCqHead (h : Linked l k kc heads) :
    ∃ kc, Linked { l with dev := nvmeUpdateCqHead l.dev } k kc heads :=
  ⟨_, h.at_cq h.cq.sync (fun _ => rfl) rfl rfl (h.pooled.of_sqs rfl rfl)
    (fun _ => .refl _) rfl⟩

/-- A count of completed commands moves nothing. -/
theorem addCompleted_stays (c : Ctl) (s n : Nat) :
    Stays c
      { c with
        sqs := c.sqs.set s
          { c.sqs s with completed := (c.sqs s).completed + n } }
    where
  ends :=
    ⟨Table.apply_set SQueue.size c.sqs rfl,
      Table.apply_set SQueue.head c.sqs rfl, rfl, rfl⟩
  tail := rfl
  phase := rfl
  free := Table.apply_set (fun sq => sq.reqList.map (·.slot)) c.sqs (by rfl)
  inFlight t := by
    have hout := Table.apply_set (n := s)
      (a := { c.sqs s with completed := (c.sqs s).completed + n })
      SQueue.outReqList c.sqs rfl t
    rw [Rings.inFlight, Rings.inFlight, hout]
    rfl
  posted := rfl

theorem rearm_stays (c : Ctl) (ntt : Int) (n : Nat) :
    Stays c
      { c with
        cq := { c.cq with timer := some ntt }
        isrNotified := n } :=
  ⟨⟨fun _ => rfl, fun _ => rfl, rfl, rfl⟩, rfl, rfl, fun _ => rfl,
    fun _ => .refl _, rfl⟩

/-- The head goes on, whatever becomes of the entry. -/
theorem Linked.fetched {c : Ctl} {x : Entry} (h : Linked l k kc heads)
    (hne : (l.sq s).head ≠ (l.sq s).tail)
    (hx : x = (l.sq s).entries (l.sq s).head)
    (hc : SameEnds (advance s l.dev.ctl) c)
    (htail : c.cq.tail = l.dev.ctl.cq.tail)
    (hphase : c.cq.phase = l.dev.ctl.cq.phase)
    (hposted : c.posted = l.dev.ctl.posted) (hpooled : Pooled c)
    (hbalanced : Balanced s l.cq.posted (inFlight s c)
      ((l.sq s).fetched.length + 1) (k s).log (l.dev.again s))
    (hlive : ∀ t, t ≠ s → (inFlight t c).Perm (inFlight t l.dev.ctl)) :
    ∃ k, Linked
      { l with
        dev := { l.dev with
          ctl := c
          fetched := l.dev.fetched.set s (l.dev.fetched s ++ [x]) } }
      k kc heads := by
  have hsq := (h.sq s).fetch hne
  rw [← hx] at hsq
  refine h.at_sq (sq_eq_update ?_ fun t ht => ?_) ?_ hsq rfl ?_ rfl hpooled
    ?_ fun t ht => ⟨hlive t ht, rfl⟩
  · simp [Link.sq, hc.size, hc.head, advance, nvmeIncSqHead]
  · simp only [Link.sq, hc.size, hc.head, advance, Table.get_set_ne _ _ ht]
  · simp only [Link.cq, hc.cqSize, hc.cqHead, htail, hphase, hposted]
    rfl
  · simp
  · simpa using hbalanced

/-- The device takes a command: its head moves by one. -/
theorem Linked.fetch {dev : Queues} (h : Linked l k kc heads)
    (hf : Rings.fetch s l.dev = some dev) :
    ∃ k, Linked { l with dev := dev } k kc heads := by
  have hpooled := fetch_pooled h.pooled hf
  obtain ⟨r, free, x, hl, hne, hx, rfl⟩ := fetch_cases hf
  obtain ⟨hlt, hentry⟩ := (h.sq s).next hne
  have hlog : (k s).log[(l.sq s).fetched.length] = x := (hx.trans hentry).symm
  by_cases hzero : x.aborts = 0
  · have htakes := processCommand_takes h.pooled hl x.cid x.verdict
    rw [show Command.io x.cid x.verdict = x.command from (if_pos hzero).symm]
      at htakes
    have hlive := htakes.inFlight
    rw [advance_inFlight] at hlive
    refine h.fetched hne hx htakes.ends htakes.tail htakes.phase
      htakes.posted hpooled
      ((h.balanced s).fetch hlt (by rwa [hlog]) (by rwa [hlog]))
      fun t ht => ?_
    rw [← advance_inFlight s t l.dev.ctl]
    exact htakes.inFlight_ne t ht
  · rw [show x.command = .aborted from if_neg hzero]
    refine h.fetched hne hx (.refl _) rfl rfl rfl
      (advance_pooled h.pooled s) ?_ fun t ht => ?_
    · rw [processCommand_aborted, advance_inFlight]
      exact (h.balanced s).drop hlt (by rwa [hlog])
    · rw [processCommand_aborted, advance_inFlight]

/-- The tail wraps at the size. -/
theorem nvmeIncCqTail_tail (cq : CQueue) : (nvmeIncCqTail cq).tail
    = if cq.size ≤ cq.tail + 1 then 0 else cq.tail + 1 := by
  unfold nvmeIncCqTail
  split <;> rfl

/-- The phase turns with the wrap. -/
theorem nvmeIncCqTail_phase (cq : CQueue) : (nvmeIncCqTail cq).phase
    = if cq.size ≤ cq.tail + 1 then !cq.phase else cq.phase := by
  unfold nvmeIncCqTail
  split <;> rfl

/-- An entry carries the phase of the moment it is posted. -/
theorem phaseTag_cqeOf (p : Pending) (c : Ctl) :
    phaseTag (cqeOf p c) = c.cq.phase := by
  have hmod : (2 * p.status + c.cq.phase.toNat) % 2 ^ 16 % 2
      = c.cq.phase.toNat := by
    have := Bool.toNat_le c.cq.phase
    omega
  rw [phaseTag, cqeOf, hmod]
  cases c.cq.phase <;> rfl

/-- The completion of a request is posted. -/
theorem Linked.postCqe (h : Linked l k kc heads) {p : Pending}
    {ps : List Pending} (hl : l.dev.ctl.cq.reqList = p :: ps)
    (hfull : nvmeCqFull l.dev.ctl.cq = false) (clock : Int) :
    Linked { l with dev := Rings.postCqe (withList l.dev ps) clock p } k kc
      (heads ++ [(p.sqid, (l.sq p.sqid).fetched.length)]) := by
  have hgives := postCqe_gives hl clock
  have hsq : ∀ t, Link.sq
      { l with dev := Rings.postCqe (withList l.dev ps) clock p } t
      = l.sq t := by
    intro t
    simp only [Link.sq, Rings.postCqe, withList, hgives.ends.size,
      hgives.ends.head]
  have hcq : Link.cq
      { l with dev := Rings.postCqe (withList l.dev ps) clock p }
      = { l.cq with
          tail := if l.cq.size ≤ l.cq.tail + 1 then 0 else l.cq.tail + 1
          phase := if l.cq.size ≤ l.cq.tail + 1 then !l.cq.phase
            else l.cq.phase
          entries := Function.update l.cq.entries l.cq.tail
            (cqeOf p l.dev.ctl)
          posted := l.cq.posted ++ [cqeOf p l.dev.ctl] } := by
    simp only [Link.cq, Rings.postCqe, withList, hgives.ends.cqSize,
      hgives.ends.cqHead, hgives.cq.1, hgives.cq.2, hgives.posted,
      nvmeIncCqTail_tail, nvmeIncCqTail_phase, Table.get_set_eq,
      List.map_append, List.map_singleton]
    rfl
  refine ⟨fun t => hsq t ▸ h.sq t, ?_, ?_, hgives.pooled h.pooled,
    fun t => ?_⟩
  · rw [hcq]
    exact h.cq.post _ (phaseTag_cqeOf p l.dev.ctl)
      (beq_eq_false_iff_ne.1 hfull)
  · rw [hcq]
    simp only [hsq]
    refine h.reports.post h.cq.flow.read_le ?_ (h.sq p.sqid).flow.known_le
    -- the head is below the size, and the size fits into the field
    have hhead := (h.sq p.sqid).head
    have hlt := Nat.mod_lt (l.sq p.sqid).fetched.length (h.sq p.sqid).size_pos
    have hsize := (h.sq p.sqid).size_lt
    show (l.sq p.sqid).head % 2 ^ 16 = _
    rw [hhead]
    exact Nat.mod_eq_of_lt (by omega)
  · rw [hcq, hsq]
    by_cases ht : t = p.sqid
    · subst ht
      exact (h.balanced _).post rfl hgives.inFlight
    · refine Balanced.post_ne ?_ ht
      have hlive := hgives.inFlight_ne t ht
      exact (h.balanced t).perm (.of_eq hlive)

/-- The device posts completions until the ring is full. -/
theorem Linked.post (h : Linked l k kc heads) (clock : Int) :
    ∃ kc heads, Linked { l with dev := Rings.post l.dev clock } k kc heads := by
  rcases post_cases l.dev clock with heq | heq | ⟨p, ps, hl, hfull, heq⟩
  · rw [heq]
    exact ⟨kc, heads, h⟩
  · rw [heq]
    obtain ⟨kc, h⟩ := h.updateCqHead
    exact ⟨kc, heads, h⟩
  · rw [heq]
    obtain ⟨kc, h⟩ := h.updateCqHead
    exact ⟨kc, _, h.postCqe hl hfull clock⟩

/-- The search of an abort goes through what the controller has seen and
not fetched, and ends there. -/
theorem findEntry_cases {n f t : Nat} {r : SqRing} (cid fuel index : Nat)
    (htail : r.tail = t % n) (hle : f + index ≤ t)
    (hfuel : t < f + index + fuel) :
    findEntry n (f % n) cid r fuel index = some none ∨
      ∃ i, f + index ≤ i ∧ i < t ∧ (r.entries (i % n)).cid = cid ∧
        findEntry n (f % n) cid r fuel index = some (some (i % n)) := by
  induction fuel generalizing index with
  | zero => omega
  | succ fuel ih =>
      rw [findEntry, Nat.mod_add_mod]
      split
      case isTrue => exact .inl rfl
      case isFalse hne =>
        have hless : f + index < t :=
          Nat.lt_of_le_of_ne hle fun heq => hne (by rw [heq, htail])
        split
        case isTrue hcid =>
          exact .inr ⟨f + index, Nat.le_refl _, hless, hcid, rfl⟩
        case isFalse =>
          rcases ih (index + 1) (by omega) (by omega) with hnone | hsome
          · exact .inl hnone
          · obtain ⟨i, hi, hrest⟩ := hsome
            exact .inr ⟨i, by omega, hrest⟩

/-- What the abort's search finds is a command that was submitted and not yet
fetched, at the slot the driver wrote it to. -/
theorem Linked.find (h : Linked l k kc heads) (s cid : Nat) :
    findEntry (l.sq s).size (l.sq s).head cid (l.dev.sqr s) (l.sq s).size 0
        = some none ∨
      ∃ i, (l.sq s).fetched.length ≤ i ∧
        ∃ hi : i < (k s).log.length, (k s).log[i].cid = cid ∧
          (l.sq s).entries (i % (l.sq s).size) = (k s).log[i] ∧
          findEntry (l.sq s).size (l.sq s).head cid (l.dev.sqr s)
            (l.sq s).size 0 = some (some (i % (l.sq s).size)) := by
  have hroom := (h.sq s).room
  have hseen := (h.sq s).flow.seen_le
  rw [(h.sq s).head]
  rcases findEntry_cases cid (l.sq s).size 0 (h.sq s).tail
    (h.sq s).flow.read_le (by omega) with hnone | hsome
  · exact .inl hnone
  · obtain ⟨i, hle, hlt, hcid, hfind⟩ := hsome
    have hi : i < (k s).log.length := by omega
    have hentry := (h.sq s).holds.entry i hi (by omega)
    refine .inr ⟨i, hle, hi, ?_, hentry, hfind⟩
    rw [← hentry]
    exact hcid

/-- An entry is marked, and a request taken for its command. -/
theorem Linked.marked {c : Ctl} {slot i : Nat} (h : Linked l k kc heads)
    (hle : (l.sq s).fetched.length ≤ i) (hi : i < (k s).log.length)
    (hc : Takes s slot (k s).log[i].cid l.dev.ctl c) :
    ∃ k', Linked
      { l with
        dev := { l.dev with
          ctl := c
          sqr := l.dev.sqr.set s
            { l.dev.sqr s with
              entries := (l.dev.sqr s).entries.set (i % (l.sq s).size)
                { (k s).log[i] with aborts := (k s).log[i].aborts + 1 } }
          again := if (k s).log[i].aborts = 0 then l.dev.again
            else l.dev.again.set s
              (l.dev.again s ++ [(k s).log[i].cid]) } }
      k' kc heads := by
  refine h.at_sq (sq_eq_update ?_ fun t ht => ?_) ?_
    ((h.sq s).mark hle hi
      (x := { (k s).log[i] with aborts := (k s).log[i].aborts + 1 }) rfl)
    rfl (Nat.le_refl _) rfl (hc.pooled h.pooled) ?_
    fun t ht => ⟨hc.inFlight_ne t ht, ?_⟩
  · simp [Link.sq, hc.ends.size, hc.ends.head, Table.get_set_eq]
  · simp only [Link.sq, hc.ends.size, hc.ends.head, Table.get_set_ne _ _ ht]
  · simp only [Link.cq, hc.ends.cqSize, hc.ends.cqHead, hc.tail, hc.phase,
      hc.posted]
  · -- the first abort of a command answers it; a later one answers it again
    have hbalanced := (h.balanced s).mark hle hi
      (x := { (k s).log[i] with aborts := (k s).log[i].aborts + 1 }) rfl rfl
      hc.inFlight
    dsimp only
    split
    case isTrue hzero => rwa [if_pos hzero] at hbalanced
    case isFalse hzero =>
      rw [Table.get_set_self]
      rwa [if_neg hzero] at hbalanced
  · dsimp only
    split
    · rfl
    · rw [Table.get_set_ne _ _ ht]

/-- An abort rewrites one waiting entry and moves no index. -/
theorem Linked.abortReq {dev : Queues} {now : Int} {failed : Bool}
    {res cid : Nat} (h : Linked l k kc heads)
    (ha : nvmeAbortReq s l.dev now failed cid = .ok (res, dev)) :
    ∃ k, Linked { l with dev := dev } k kc heads := by
  rcases abortReq_cases ha with
    ⟨r, -, -, rfl⟩ | ⟨-, rfl⟩ | ⟨r, free, slot, hl, -, hfind, rfl⟩
  · exact ⟨k, h.stays (miscCb_stays h.pooled now failed s r.slot)⟩
  · exact ⟨k, h⟩
  · rcases h.find s cid with hnone | ⟨i, hle, hi, rfl, hentry, hsome⟩
    · cases hfind.symm.trans hnone
    · cases hfind.symm.trans hsome
      have hmarked := h.marked hle hi
        (abortEntry_takes h.pooled hl now _ (i % (l.sq s).size))
      rw [← hentry] at hmarked ⊢
      exact hmarked

-- =============================================================== runs

/-- There are counts behind the indices. -/
def InStep (l : Link) : Prop := ∃ k kc heads, Linked l k kc heads

/-- One step of the device, by the kind of step. -/
theorem Device.step_inStep {d : Device} {dev : Queues} (h : InStep l)
    (hd : d.step l.dev = .ok dev) : InStep { l with dev := dev } := by
  obtain ⟨k, kc, heads, h⟩ := h
  cases d with
  | updateSqTail s =>
      cases hd
      obtain ⟨k, h⟩ := h.updateSqTail s
      exact ⟨k, kc, heads, h⟩
  | fetch s =>
      cases hd
      cases hf : Rings.fetch s l.dev with
      | none => exact ⟨k, kc, heads, h⟩
      | some dev =>
          obtain ⟨k, h⟩ := h.fetch hf
          exact ⟨k, kc, heads, h⟩
  | addCompleted s n =>
      cases hd
      exact ⟨k, kc, heads, h.stays (addCompleted_stays l.dev.ctl s n)⟩
  | post clock =>
      cases hd
      obtain ⟨kc, heads, h⟩ := h.post clock
      exact ⟨k, kc, heads, h⟩
  | rearm ntt nc =>
      cases hd
      exact ⟨k, kc, heads, h.stays (rearm_stays l.dev.ctl ntt _)⟩
  | miscCb now failed s slot =>
      cases hd
      exact ⟨k, kc, heads,
        h.stays (miscCb_stays h.pooled now failed s slot)⟩
  | abortReq now failed s cid =>
      obtain ⟨a, ha, rfl⟩ := map_ok_iff.1 hd
      obtain ⟨k, h⟩ := h.abortReq ha
      exact ⟨k, kc, heads, h⟩

theorem Act.step_inStep {a : Act} (h : InStep l) (ha : a.step l = .ok l') :
    InStep l' := by
  cases a with
  | submit s cid verdict =>
      cases ha
      obtain ⟨k, kc, heads, h⟩ := h
      obtain ⟨k, h⟩ := h.submit s cid verdict
      exact ⟨k, kc, heads, h⟩
  | ringSq s =>
      cases ha
      obtain ⟨k, kc, heads, h⟩ := h
      obtain ⟨k, h⟩ := h.ringSq s
      exact ⟨k, kc, heads, h⟩
  | reap =>
      cases ha
      obtain ⟨k, kc, heads, h⟩ := h
      obtain ⟨k, h⟩ := h.reap
      exact ⟨k, kc, heads, h⟩
  | ringCq =>
      cases ha
      obtain ⟨k, kc, heads, h⟩ := h
      obtain ⟨kc, h⟩ := h.ringCq
      exact ⟨k, kc, heads, h⟩
  | device d =>
      obtain ⟨dev, hd, rfl⟩ := map_ok_iff.1 ha
      exact Device.step_inStep h hd

theorem Link.run_inStep {acts : List Act} (h : InStep l)
    (hr : l.run acts = .ok l') : InStep l' :=
  runs.invariant (fun _ _ _ h ha => Act.step_inStep h ha) h hr

/-- At the start every request is free. -/
theorem new_pooled {sqs : Table SQueue} (hsqs : ∀ s, NewSq (sqs s))
    (cqid size : Nat) : Pooled (initCtl sqs cqid size) := by
  intro s
  show (((sqs s).reqList.map (·.slot))
    ++ ((sqs s).outReqList.map tag ++ []).map Prod.fst).Perm _
  rw [(hsqs s).out, (hsqs s).slots]
  simp
  rfl

theorem Link.new_inStep {sqs : Table SQueue} (hsqs : ∀ s, NewSq (sqs s))
    (cqid : Nat) {size : Nat} (hsize : 0 < size) (shadow : Bool) :
    InStep (Link.new sqs cqid size shadow) := by
  refine ⟨fun _ => ⟨fun _ => ⟨0, .noComplete, 0⟩, [], 0, 0, 0⟩, ⟨0, 0⟩, [],
    ?_⟩
  -- with or without shadow doorbells, what they hold is zero
  have hshadow : ∀ v ∈ (if shadow then some 0 else none : Option Nat),
      v = 0 := by
    cases shadow with
    | true =>
        intro v hv
        cases hv
        rfl
    | false => nofun
  constructor
  case sq =>
    intro s
    have hpos : 0 < (sqs s).size := by
      have := (hsqs s).two_le
      omega
    exact
      { size_lt := (hsqs s).size_lt
        head := (hsqs s).head.trans (Nat.zero_mod _).symm
        tail := (Nat.zero_mod _).symm
        shadow := fun v hv => (hshadow v hv).trans (Nat.zero_mod _).symm
        hostTail := (Nat.zero_mod _).symm
        hostHead := (Nat.zero_mod _).symm
        flow := ⟨Nat.le_refl _, Nat.le_refl _, Nat.le_refl _, by simpa⟩
        tail_le := Nat.le_refl _
        shadow_le := Nat.le_refl _
        fetched := rfl
        submitted := rfl
        holds := .nil _ _ }
  case cq =>
    exact
      { head := (Nat.zero_mod _).symm
        tail := (Nat.zero_mod _).symm
        phase := (Ring.phase_of_lt hsize).symm
        shadow := fun v hv => (hshadow v hv).trans (Nat.zero_mod _).symm
        hostHead := (Nat.zero_mod _).symm
        hostPhase := (Ring.phase_of_lt hsize).symm
        flow := ⟨Nat.le_refl _, Nat.le_refl _, Nat.le_refl _, by simpa⟩
        known_le := Nat.le_refl _
        shadow_le := Nat.le_refl _
        reaped := rfl
        tags := nofun
        holds := .nil _ _ }
  case reports =>
    exact ⟨rfl, nofun, .nil, nofun⟩
  case pooled => exact new_pooled hsqs cqid size
  case balanced =>
    intro s cid
    simp [Link.new, Link.cq, Link.sq, initCtl, inFlight, waiting, initCq,
      (hsqs s).out]

end FemuRemap.Rings
