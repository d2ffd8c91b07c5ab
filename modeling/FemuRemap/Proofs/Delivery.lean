/-
What the protocol of the queues gives to a driver.

The results are about every run of both ends from new queues: what is
fetched is what was submitted and what is taken is what was posted, in
order (`submissions_in_order`, `completions_in_order`); commands are
counted (`commands_balance`), an abort is survived as long as the driver
keeps below the number of requests (`abort_survived`), and from wherever
a run has got, all commands can still be completed (`commands_complete`).

The last one goes by a measure, `Link.left`. A command that is not
fetched counts four, one that is out three, one that waits for its
completion to be posted two, and a completion that is not taken one; as
long as there is something of any kind, one of the two ends can do
something about the one that is furthest.
-/
import FemuRemap.Proofs.Protocol

namespace FemuRemap.Rings

open Lib Completion

variable {l l' : Link} {k : Nat → SqCounts} {kc : CqCounts}
  {heads : List (Nat × Nat)} {s : Nat}

-- ============================================================ contents

/-- What lies between the device's head and the driver's tail is the rest of
the log. -/
theorem Linked.unfetched_eq (h : Linked l k kc heads) (s : Nat) :
    unfetched l s = (k s).log.drop (l.dev.fetched s).length := by
  have hroom := (h.sq s).room
  have hslots := (h.sq s).holds.between_eq (l.sq s).size (h.sq s).fetched_le
    hroom (by omega)
  rw [← (h.sq s).hostTail, ← (h.sq s).head] at hslots
  exact hslots

/-- So the log is what was fetched and what was not. -/
theorem Linked.fetched_append (h : Linked l k kc heads) (s : Nat) :
    l.dev.fetched s ++ unfetched l s = (k s).log := by
  rw [h.unfetched_eq]
  nth_rewrite 1 [show l.dev.fetched s = _ from (h.sq s).fetched]
  exact List.take_append_drop _ _

/-- The same of the completion ring, -/
theorem Linked.unreaped_eq (h : Linked l k kc heads) :
    unreaped l = l.cq.posted.drop l.host.reaped.length := by
  have hroom := h.cq.room
  have hslots := h.cq.holds.between_eq l.cq.size h.cq.flow.read_le hroom
    (by omega)
  rw [← h.cq.hostHead, ← h.cq.tail] at hslots
  exact hslots

/-- and of all completions posted. -/
theorem Linked.reaped_append (h : Linked l k kc heads) :
    l.host.reaped ++ unreaped l = l.cq.posted := by
  rw [h.unreaped_eq]
  nth_rewrite 1 [show l.host.reaped = _ from h.cq.reaped]
  exact List.take_append_drop _ _

/-- The cids of the entries, and whether the driver has been told. -/
theorem Linked.commands_perm (h : Linked l k kc heads) (s : Nat) :
    (((l.host.reaped ++ unreaped l).filter (·.sqId == s)).map (·.cid)
        ++ (inFlight s l.dev.ctl).map Prod.snd
        ++ ((unfetched l s).filter (·.aborts == 0)).map (·.cid)).Perm
      ((l.host.submitted s).map (·.cid) ++ l.dev.again s) := by
  have hcids : (k s).log.map (·.cid) = (l.host.submitted s).map (·.cid) := by
    have := congrArg (List.map Prod.fst) (h.sq s).submitted
    rwa [List.map_map, List.map_map] at this
  rw [h.reaped_append, h.unfetched_eq, ← hcids, List.perm_iff_count]
  intro cid
  have hcid := h.balanced s cid
  have hmap : ∀ {α : Type} (f : α → Nat) (as : List α),
      (as.map f).count cid = as.countP fun a => f a == cid := by
    intro α f as
    rw [List.count_eq_countP, List.countP_map]
    rfl
  simp only [List.count_append, hmap, List.countP_filter, Bool.and_comm]
    at hcid ⊢
  exact hcid

/-- An entry keeps a free request as long as the driver has fewer commands
open than the queue has requests. -/
theorem Linked.free_ne_nil (h : Linked l k kc heads)
    (hopen : (l.host.submitted s).length + (l.dev.again s).length
      < ((l.host.reaped ++ unreaped l).filter (·.sqId == s)).length
        + (l.dev.ctl.sqs s).size) :
    (l.dev.ctl.sqs s).reqList ≠ [] := by
  have hcommands := (h.commands_perm s).length_eq
  have hpool := (h.pooled s).length_eq
  simp only [List.length_append, List.length_map, List.length_range, free]
    at hcommands hpool hopen
  intro hnil
  rw [hnil, List.length_nil] at hpool
  omega

-- ============================================================= draining

/-- What is left to do for the commands of a queue. -/
def Link.left (l : Link) (s : Nat) : Nat :=
  4 * ((l.host.submitted s).length - (l.dev.fetched s).length)
    + 3 * (l.dev.ctl.sqs s).outReqList.length
    + 2 * l.dev.ctl.cq.reqList.length
    + (l.dev.ctl.posted.length - l.host.reaped.length)

/-- A run that asks for nothing new. -/
structure Works (s : Nat) (l l' : Link) : Prop where
  run : ∃ acts, l.run acts = .ok l'
  submitted : l'.host.submitted s = l.host.submitted s
  again : l'.dev.again s = l.dev.again s
  cqSize : l'.dev.ctl.cq.size = l.dev.ctl.cq.size

theorem Works.refl (s : Nat) (l : Link) : Works s l l :=
  ⟨⟨[], rfl⟩, rfl, rfl, rfl⟩

theorem Works.trans {l'' : Link} (h : Works s l l') (h' : Works s l' l'') :
    Works s l l'' := by
  obtain ⟨acts, hr⟩ := h.run
  obtain ⟨acts', hr'⟩ := h'.run
  exact ⟨⟨acts ++ acts', runs.append_ok_iff.2 ⟨l', hr, hr'⟩⟩,
    h'.submitted.trans h.submitted, h'.again.trans h.again,
    h'.cqSize.trans h.cqSize⟩

theorem Works.act (a : Act) (ha : a.step l = .ok l')
    (hsubmitted : l'.host.submitted s = l.host.submitted s)
    (hagain : l'.dev.again s = l.dev.again s)
    (hsize : l'.dev.ctl.cq.size = l.dev.ctl.cq.size) : Works s l l' :=
  ⟨⟨[a], runs.cons_ok_iff.2 ⟨l', ha, rfl⟩⟩, hsubmitted, hagain, hsize⟩

/-- An abort rewrites an entry of the log and removes none. -/
theorem Linked.submitted_length (h : Linked l k kc heads) (s : Nat) :
    (l.host.submitted s).length = (k s).log.length := by
  have := congrArg List.length (h.sq s).submitted
  rw [List.length_map, List.length_map] at this
  exact this.symm

/-- Take a completion. -/
theorem Linked.work_reap (h : Linked l k kc heads)
    (hlt : l.host.reaped.length < l.dev.ctl.posted.length) (s : Nat) :
    ∃ l', Works s l l' ∧ l'.left s < l.left s := by
  have hready : ready l = true :=
    beq_iff_eq.2 (h.cq.tag_eq_iff.2 (by simpa [Link.cq] using hlt))
  refine ⟨Rings.reap l, .act .reap rfl ?_ ?_ ?_, ?_⟩
  · rw [Rings.reap, if_pos hready]
  · rw [reap_dev]
  · rw [reap_dev]
  · have hreaped : (Rings.reap l).host.reaped.length
        = l.host.reaped.length + 1 := by
      rw [Rings.reap, if_pos hready, List.length_append,
        List.length_singleton]
    have hsubmitted : (Rings.reap l).host.submitted = l.host.submitted := by
      rw [Rings.reap, if_pos hready]
    rw [Link.left, Link.left, reap_dev, hreaped, hsubmitted]
    omega

/-- Nothing that a guest writes is work done. -/
theorem Guest.step_rest (q : Queues) (g : Guest) :
    (g.step q).fetched = q.fetched ∧ (g.step q).again = q.again ∧
      (g.step q).ctl.posted = q.ctl.posted ∧
      (g.step q).ctl.cq.size = q.ctl.cq.size := by
  cases g with
  | entry | cqe | sqShadow | cqShadow => exact ⟨rfl, rfl, rfl, rfl⟩
  | sqDoorbell s val =>
      simp only [Guest.step, Rings.sqDoorbell]
      split
      · exact ⟨rfl, rfl, rfl, rfl⟩
      · split <;> exact ⟨rfl, rfl, rfl, rfl⟩
  | cqDoorbell val =>
      simp only [Guest.step, Rings.cqDoorbell]
      split <;> exact ⟨rfl, rfl, rfl, rfl⟩

/-- A guest's act moves none of what is left to do. -/
theorem Works.guest (l : Link) (g : Guest) (s : Nat)
    (hrun : ∃ acts, l.run acts = .ok { l with dev := g.step l.dev }) :
    Works s l { l with dev := g.step l.dev } ∧
      Link.left { l with dev := g.step l.dev } s = l.left s := by
  obtain ⟨hfetched, hagain, hposted, hcqSize⟩ := g.step_rest l.dev
  obtain ⟨hsqs, hlist⟩ := g.step_ctl l.dev
  refine ⟨⟨hrun, rfl, ?_, hcqSize⟩, ?_⟩
  · rw [hagain]
  · simp only [Link.left, hfetched, hposted, hsqs, hlist]

theorem Works.ringCq (l : Link) (s : Nat) : Works s l (Rings.ringCq l) ∧
    (Rings.ringCq l).left s = l.left s :=
  Works.guest l _ s ⟨[.ringCq], rfl⟩

theorem Works.ringSq (l : Link) (s : Nat) : Works s l (Rings.ringSq l s) ∧
    (Rings.ringSq l s).left s = l.left s :=
  Works.guest l _ s ⟨[.ringSq s], rfl⟩

/-- The head that the controller has once the driver has published its
own and the controller has looked. -/
theorem Linked.ringCq_head (h : Linked l k kc heads) :
    (nvmeUpdateCqHead (Rings.ringCq l).dev).ctl.cq
      = { l.dev.ctl.cq with head := l.host.cqHead } := by
  have hlt : ¬ l.dev.ctl.cq.size ≤ l.host.cqHead := by
    rw [Nat.not_le, show l.host.cqHead = _ from h.cq.hostHead]
    exact Nat.mod_lt _ h.cq.size_pos
  cases hshadow : l.dev.cqr.shadow with
  | some v => simp [Rings.ringCq, Guest.step, nvmeUpdateCqHead, hshadow]
  | none =>
      simp [Rings.ringCq, Guest.step, cqDoorbell, nvmeUpdateCqHead, hshadow,
        if_neg hlt]

/-- Post a completion, if there is room. -/
theorem work_post_of_room {p : Pending} {ps : List Pending}
    (hl : l.dev.ctl.cq.reqList = p :: ps)
    (hroom : nvmeCqFull (nvmeUpdateCqHead l.dev).ctl.cq = false) (s : Nat) :
    ∃ l', Works s l l' ∧ l'.left s < l.left s := by
  have hpost : Rings.post l.dev p.expireTime
      = Rings.postCqe (withList (nvmeUpdateCqHead l.dev) ps) p.expireTime
        p := by
    simp [Rings.post, hl, postNext, hroom, withList]
  refine ⟨{ l with dev := Rings.post l.dev p.expireTime },
    .act (.device (.post p.expireTime)) rfl rfl ?_ ?_, ?_⟩
  · rw [hpost]
    rfl
  · rw [hpost]
    exact nvmeIncCqTail_size _
  · rw [hpost, Link.left, Link.left, hl]
    have hout := nvmePostCqe_out p.expireTime p
      (withList (nvmeUpdateCqHead l.dev) ps).ctl s
    have hlist := nvmePostCqe_reqList p.expireTime p
      (withList (nvmeUpdateCqHead l.dev) ps).ctl
    have hposted : (nvmePostCqe p.expireTime p
        (withList (nvmeUpdateCqHead l.dev) ps).ctl).posted.length
        = l.dev.ctl.posted.length + 1 := List.length_append
    simp only [Rings.postCqe, hout, hlist, hposted]
    simp only [withList, nvmeUpdateCqHead, List.length_cons]
    omega

/-- Post a completion, once all that were posted are taken. -/
theorem Linked.work_post (h : Linked l k kc heads)
    (hsize : 2 ≤ l.dev.ctl.cq.size)
    (hge : l.dev.ctl.posted.length ≤ l.host.reaped.length)
    {p : Pending} {ps : List Pending} (hl : l.dev.ctl.cq.reqList = p :: ps)
    (s : Nat) : ∃ l', Works s l l' ∧ l'.left s < l.left s := by
  have hlen : l.host.reaped.length = l.dev.ctl.posted.length := by
    have := h.cq.flow.read_le
    simp only [Link.cq, List.length_map] at this
    omega
  have hroom : nvmeCqFull (nvmeUpdateCqHead (Rings.ringCq l).dev).ctl.cq
      = false := by
    have htail := h.cq.tail
    have hhead := h.cq.hostHead
    simp only [Link.cq, List.length_map] at htail hhead
    rw [h.ringCq_head, nvmeCqFull, htail, hhead, hlen, beq_eq_false_iff_ne,
      ne_eq, Ring.full_iff (Nat.le_refl _) (by omega)]
    omega
  obtain ⟨hworks, hleft⟩ := Works.ringCq l s
  have hl' : (Rings.ringCq l).dev.ctl.cq.reqList = p :: ps :=
    (Guest.step_ctl _ _).2.trans hl
  obtain ⟨l', hworks', hlt⟩ := work_post_of_room hl' hroom s
  exact ⟨l', hworks.trans hworks', hleft ▸ hlt⟩

/-- Finish a request that is out. -/
theorem Linked.work_miscCb {r : Request} {rs : List Request}
    (hl : (l.dev.ctl.sqs s).outReqList = r :: rs) :
    ∃ l', Works s l l' ∧ l'.left s < l.left s := by
  have hcb : nvmeMiscCb 0 false s r.slot l.dev.ctl
      = nvmeEnqueueReqCompletion 0
        { r with sqid := s, status := miscStatus false } l.dev.ctl := by
    simp [nvmeMiscCb, hl]
  refine ⟨_, .act (.device (.miscCb 0 false s r.slot)) rfl rfl rfl ?_, ?_⟩
  · dsimp only
    rw [hcb]
    rfl
  · dsimp only [Link.left]
    rw [hcb]
    simp [nvmeEnqueueReqCompletion, Ctl.enqueue, SQueue.leaveOut, hl]
    omega

/-- After the driver rang, the device sees its tail. -/
theorem Linked.ringSq_tail (h : Linked l k kc heads) (s : Nat) :
    ((nvmeUpdateSqTail s (Rings.ringSq l s).dev).sqr s).tail
      = (l.host.sqs s).tail := by
  have hlt : ¬ (l.dev.ctl.sqs s).size ≤ (l.host.sqs s).tail := by
    rw [Nat.not_le, show (l.host.sqs s).tail = _ from (h.sq s).hostTail]
    exact Nat.mod_lt _ (h.sq s).size_pos
  cases hshadow : (l.dev.sqr s).shadow with
  | some v => simp [Rings.ringSq, Guest.step, nvmeUpdateSqTail, hshadow]
  | none =>
      simp [Rings.ringSq, Guest.step, sqDoorbell, nvmeUpdateSqTail, hshadow,
        if_neg hlt]

/-- A command on its way weighs three, a completion that waits two: serving
adds at most one command. -/
theorem serveCommand_weight (s cid : Nat) (verdict : Verdict) (r : Request)
    (free : List Request) (c : Ctl) :
    3 * ((serveCommand s cid verdict r free c).sqs s).outReqList.length
        + 2 * (serveCommand s cid verdict r free c).cq.reqList.length
      ≤ 3 * (c.sqs s).outReqList.length + 2 * c.cq.reqList.length + 3 := by
  cases verdict with
  | noComplete =>
      simp [serveCommand]
      omega
  | complete status expireTime =>
      have hmem : ∀ req : Request, req.slot = r.slot →
          (((c.sqs s).outReqList ++ [req]).eraseP (·.slot == r.slot)).length
            = (c.sqs s).outReqList.length := by
        intro req hslot
        rw [List.length_eraseP_of_mem (a := req) (by simp) (by simp [hslot]),
          List.length_append, List.length_singleton, Nat.add_sub_cancel]
      simp only [serveCommand, nvmeEnqueueReqCompletionIo, Ctl.enqueue,
        SQueue.leaveOut, Table.get_set_self, hmem, List.orderedInsert_length]
      omega

/-- Taking a command off the ring, which weighed four, makes the rest
lighter. -/
theorem processCommand_rest (s : Nat) (r : Request) (free : List Request)
    (cmd : Command) (c : Ctl) :
    (processCommand s r free cmd c).cq.size = c.cq.size ∧
      (processCommand s r free cmd c).posted = c.posted ∧
      3 * ((processCommand s r free cmd c).sqs s).outReqList.length
          + 2 * (processCommand s r free cmd c).cq.reqList.length
        ≤ 3 * (c.sqs s).outReqList.length + 2 * c.cq.reqList.length + 3 := by
  have hout : ((advance s c).sqs s).outReqList = (c.sqs s).outReqList :=
    Table.apply_set SQueue.outReqList c.sqs (by rfl) s
  cases cmd with
  | aborted =>
      rw [processCommand_aborted, hout]
      exact ⟨rfl, rfl, Nat.le_add_right _ _⟩
  | io cid verdict =>
      have hweight := serveCommand_weight s cid verdict r free (advance s c)
      rw [hout] at hweight
      refine ⟨?_, ?_, hweight⟩
      · cases verdict <;> rfl
      · cases verdict <;> rfl

/-- Fetch a command, if the controller sees one. -/
theorem Linked.work_fetch_of_ne (h : Linked l k kc heads)
    (hne : (l.dev.ctl.sqs s).head ≠ (l.dev.sqr s).tail)
    (hflight : inFlight s l.dev.ctl = []) :
    ∃ l', Works s l l' ∧ l'.left s < l.left s := by
  have hlt : (l.dev.fetched s).length < (l.host.submitted s).length := by
    rw [h.submitted_length]
    exact ((h.sq s).next hne).1
  obtain ⟨dev, hfetch⟩ : ∃ dev, Rings.fetch s l.dev = some dev := by
    cases hl : (l.dev.ctl.sqs s).reqList with
    | nil =>
        -- every request is free, and there is one
        have hpool := (h.pooled s).length_eq
        have hpos := (h.sq s).size_pos
        simp only [free, hl, hflight, List.map_nil, List.append_nil,
          List.length_nil, List.length_range] at hpool
        exact absurd hpool (Nat.ne_of_lt hpos)
    | cons r rs => exact ⟨_, by simp only [Rings.fetch, if_neg hne, hl]; rfl⟩
  refine ⟨{ l with dev := dev }, .act (.device (.fetch s)) ?_ rfl ?_ ?_, ?_⟩
  · simp only [Act.step, Device.step, hfetch]
    rfl
  all_goals
    obtain ⟨r, rs, e, hl, -, -, rfl⟩ := fetch_cases hfetch
    obtain ⟨hsize, hposted, hweight⟩ :=
      processCommand_rest s r rs e.command l.dev.ctl
  · rfl
  · exact hsize
  · simp only [Link.left, hposted, Table.get_set_self, List.length_append,
      List.length_singleton]
    omega

/-- Fetch a command, once none is in flight. -/
theorem Linked.work_fetch (h : Linked l k kc heads)
    (hlt : (l.dev.fetched s).length < (l.host.submitted s).length)
    (hflight : inFlight s l.dev.ctl = []) :
    ∃ l', Works s l l' ∧ l'.left s < l.left s := by
  obtain ⟨hworks, hleft⟩ := Works.ringSq l s
  have hsync : Works s (Rings.ringSq l s)
      { Rings.ringSq l s with
        dev := nvmeUpdateSqTail s (Rings.ringSq l s).dev } :=
    .act (.device (.updateSqTail s)) rfl rfl rfl rfl
  obtain ⟨k', h'⟩ := h.ringSq s
  obtain ⟨k', h'⟩ := h'.updateSqTail s
  obtain ⟨hsqs, hlist⟩ := Guest.step_ctl l.dev
    (if (l.dev.sqr s).shadow.isSome then .sqShadow s (l.host.sqs s).tail
     else .sqDoorbell s (l.host.sqs s).tail)
  -- less than a lap apart, the device's head and the driver's tail differ
  have hne : (l.dev.ctl.sqs s).head ≠ (l.host.sqs s).tail := by
    rw [h.submitted_length] at hlt
    rw [show (l.dev.ctl.sqs s).head = _ from (h.sq s).head,
      show (l.host.sqs s).tail = _ from (h.sq s).hostTail]
    exact Ring.slot_ne hlt (h.sq s).room
  obtain ⟨l', hworks', hless⟩ := h'.work_fetch_of_ne (s := s)
    (by
      rw [h.ringSq_tail s]
      show ((Rings.ringSq l s).dev.ctl.sqs s).head ≠ _
      rw [show (Rings.ringSq l s).dev.ctl.sqs = _ from hsqs]
      exact hne)
    (by
      rw [← hflight]
      exact inFlight_congr hsqs hlist s)
  exact ⟨l', (hworks.trans hsync).trans hworks', hleft ▸ hless⟩

/-- Whatever is left, one of the two sides can do something about it: the
measure goes down. -/
theorem Linked.work (h : Linked l k kc heads)
    (hsize : 2 ≤ l.dev.ctl.cq.size) (hleft : l.left s ≠ 0) :
    ∃ l', Works s l l' ∧ l'.left s < l.left s := by
  rcases Nat.lt_or_ge l.host.reaped.length l.dev.ctl.posted.length with
    hlt | hge
  · exact h.work_reap hlt s
  · cases hl : l.dev.ctl.cq.reqList with
    | cons p ps => exact h.work_post hsize hge hl s
    | nil =>
        cases hout : (l.dev.ctl.sqs s).outReqList with
        | cons r rs => exact Linked.work_miscCb hout
        | nil =>
            refine h.work_fetch ?_ ?_
            · simp only [Link.left, hl, hout, List.length_nil] at hleft
              omega
            · simp [inFlight, waiting, hl, hout]

/-- Both ends can finish what is left. -/
theorem exists_drained (h : InStep l) (hsize : 2 ≤ l.dev.ctl.cq.size)
    (s : Nat) : ∃ l', Works s l l' ∧ l'.left s = 0 := by
  induction hn : l.left s using Nat.strong_induction_on generalizing l with
  | h n ih =>
      by_cases hzero : l.left s = 0
      · exact ⟨l, .refl s l, hzero⟩
      · obtain ⟨k, kc, heads, hl⟩ := h
        obtain ⟨l', hworks, hlt⟩ := hl.work hsize hzero
        obtain ⟨acts, hrun⟩ := hworks.run
        have h' : InStep l' := Link.run_inStep ⟨k, kc, heads, hl⟩ hrun
        obtain ⟨l'', hworks', hdone⟩ := ih (l'.left s) (hn ▸ hlt) h'
          (by rw [hworks.cqSize]; exact hsize) rfl
        exact ⟨l'', hworks.trans hworks', hdone⟩

/-- With nothing left, the driver has taken every completion. -/
theorem Linked.commands_perm_of_left (h : Linked l k kc heads)
    (hleft : l.left s = 0) :
    ((l.host.reaped.filter (·.sqId == s)).map (·.cid)).Perm
      ((l.host.submitted s).map (·.cid) ++ l.dev.again s) := by
  have hlog := h.submitted_length s
  simp only [Link.left] at hleft
  have hout : (l.dev.ctl.sqs s).outReqList = [] :=
    List.eq_nil_of_length_eq_zero (by omega)
  have hlist : l.dev.ctl.cq.reqList = [] :=
    List.eq_nil_of_length_eq_zero (by omega)
  have hunfetched : unfetched l s = [] := by
    rw [h.unfetched_eq]
    exact List.drop_eq_nil_of_le (by omega)
  have hunreaped : unreaped l = [] := by
    rw [h.unreaped_eq]
    refine List.drop_eq_nil_of_le ?_
    simp only [Link.cq, List.length_map]
    omega
  have hflight : inFlight s l.dev.ctl = [] := by
    simp [inFlight, waiting, hout, hlist]
  have hperm := h.commands_perm s
  rw [hunfetched, hunreaped, hflight] at hperm
  simpa using hperm

theorem Device.step_cqSize {d : Device} {q q' : Queues}
    (h : d.step q = .ok q') : q'.ctl.cq.size = q.ctl.cq.size := by
  have hcb : ∀ now failed s slot,
      (nvmeMiscCb now failed s slot q.ctl).cq.size = q.ctl.cq.size := by
    intro now failed s slot
    unfold nvmeMiscCb
    split <;> rfl
  cases d with
  | updateSqTail | addCompleted | rearm =>
      cases h
      rfl
  | fetch s =>
      cases h
      cases hf : Rings.fetch s q with
      | none => rfl
      | some q' =>
          obtain ⟨r, rs, e, -, -, -, rfl⟩ := fetch_cases hf
          exact (processCommand_rest s r rs e.command q.ctl).1
  | post clock =>
      cases h
      rcases post_cases q clock with heq | heq | ⟨p, ps, -, -, heq⟩
      · rw [heq]
      · rw [heq]
        rfl
      · rw [heq]
        exact nvmeIncCqTail_size _
  | miscCb now failed s slot =>
      cases h
      exact hcb now failed s slot
  | abortReq now failed s cid =>
      obtain ⟨a, ha, rfl⟩ := map_ok_iff.1 h
      rcases abortReq_cases ha with
        ⟨r, -, -, heq⟩ | ⟨-, heq⟩ | ⟨r, rs, slot, -, -, -, heq⟩
      · rw [heq]
        exact hcb now failed s r.slot
      · rw [heq]
      · rw [heq]
        rfl

theorem Act.step_cqSize {a : Act} (h : a.step l = .ok l') :
    l'.dev.ctl.cq.size = l.dev.ctl.cq.size := by
  cases a with
  | submit s cid verdict =>
      cases h
      unfold Rings.submit
      dsimp only
      split <;> rfl
  | ringSq s =>
      cases h
      exact (Guest.step_rest _ _).2.2.2
  | reap =>
      cases h
      rw [reap_dev]
  | ringCq =>
      cases h
      exact (Guest.step_rest _ _).2.2.2
  | device d =>
      obtain ⟨dev, hd, rfl⟩ := map_ok_iff.1 h
      exact Device.step_cqSize hd

-- ========================================================== the results

/-- Queues of two entries. -/
def pairs : Table SQueue :=
  .fill ⟨0, 2, 1, 0, [⟨0, 0, 0, 0, 0⟩, ⟨0, 1, 0, 0, 0⟩], []⟩

theorem pairs_new (s : Nat) : NewSq (pairs s) :=
  ⟨rfl, rfl, rfl, Nat.le_refl 2, (by decide : 2 < 2 ^ 16)⟩

/-- A command goes all the way and another one is submitted. -/
def twoCommands : List Act :=
  [.submit 1 7 (.complete 0 none), .ringSq 1, .device (.updateSqTail 1),
    .device (.fetch 1), .device (.post 0), .reap, .submit 1 8 .noComplete]

theorem twoCommands_run :
    ∃ l, (Link.new pairs 1 2 true).run twoCommands = .ok l := ⟨_, rfl⟩

/-- Queues of four entries. -/
def quads : Table SQueue :=
  .fill ⟨0, 4, 1, 0, [⟨0, 0, 0, 0, 0⟩, ⟨0, 1, 0, 0, 0⟩, ⟨0, 2, 0, 0, 0⟩,
    ⟨0, 3, 0, 0, 0⟩], []⟩

theorem quads_new (s : Nat) : NewSq (quads s) :=
  ⟨rfl, rfl, rfl, (by decide : 2 ≤ 4), (by decide : 4 < 2 ^ 16)⟩

/-- Two commands wait in the ring, and the second one is aborted twice. -/
def abortedTwice : List Act :=
  [.submit 1 7 (.complete 0 none), .submit 1 8 .noComplete, .ringSq 1,
    .device (.updateSqTail 1), .device (.abortReq 0 false 1 8),
    .device (.abortReq 0 false 1 8), .device (.post 0)]

section Runs

variable {sqs : Table SQueue} {cqid size : Nat} {shadow : Bool}
  {acts : List Act}

/-- What a run from empty rings has kept. -/
theorem Link.new_run (hsqs : ∀ s, NewSq (sqs s)) (hsize : 0 < size)
    (h : (Link.new sqs cqid size shadow).run acts = .ok l) :
    ∃ k kc heads, Linked l k kc heads :=
  Link.run_inStep (Link.new_inStep hsqs cqid hsize shadow) h

/-- The ring has the size it was created with. -/
theorem Link.run_cqSize
    (h : (Link.new sqs cqid size shadow).run acts = .ok l) :
    l.dev.ctl.cq.size = size :=
  runs.invariant (P := fun l => l.dev.ctl.cq.size = size)
    (fun _ _ _ hs ha => (Act.step_cqSize ha).trans hs) rfl h

/-- The controller fetches what the driver submitted, in its order and
each entry once, and what it has not fetched is still there. -/
theorem submissions_in_order (hsqs : ∀ s, NewSq (sqs s)) (hsize : 0 < size)
    (h : (Link.new sqs cqid size shadow).run acts = .ok l) (s : Nat) :
    (l.dev.fetched s ++ unfetched l s).map Entry.asked
      = (l.host.submitted s).map Entry.asked := by
  obtain ⟨k, kc, heads, h⟩ := Link.new_run hsqs hsize h
  rw [h.fetched_append s]
  exact (h.sq s).submitted

/-- Two commands through a ring of two slots. -/
theorem submissions_in_order_two : ∃ l,
    (Link.new pairs 1 2 true).run twoCommands = .ok l ∧
      (l.dev.fetched 1 ++ unfetched l 1).map Entry.asked
        = (l.host.submitted 1).map Entry.asked := by
  obtain ⟨l, h⟩ := twoCommands_run
  exact ⟨l, h, submissions_in_order pairs_new (by decide) h 1⟩

/-- The driver takes what the controller posted, in its order and each
entry once, and sees the phase it waits for just when there is one left
to take. -/
theorem completions_in_order (hsqs : ∀ s, NewSq (sqs s)) (hsize : 0 < size)
    (h : (Link.new sqs cqid size shadow).run acts = .ok l) :
    l.host.reaped ++ unreaped l = l.dev.ctl.posted.map (·.cqe) ∧
      (ready l = true ↔ unreaped l ≠ []) := by
  obtain ⟨k, kc, heads, h⟩ := Link.new_run hsqs hsize h
  refine ⟨h.reaped_append, ?_⟩
  rw [h.unreaped_eq, ne_eq, List.drop_eq_nil_iff, Nat.not_le]
  exact beq_iff_eq.trans h.cq.tag_eq_iff

/-- Their completions, through a ring of two slots. -/
theorem completions_in_order_two : ∃ l,
    (Link.new pairs 1 2 true).run twoCommands = .ok l ∧
      l.host.reaped ++ unreaped l = l.dev.ctl.posted.map (·.cqe) ∧
      (ready l = true ↔ unreaped l ≠ []) := by
  obtain ⟨l, h⟩ := twoCommands_run
  exact ⟨l, h, completions_in_order pairs_new (by decide) h⟩

/-- Each command is completed, in flight, or waits unmarked in its queue;
only a command that was aborted again is there more than once. -/
theorem commands_balance (hsqs : ∀ s, NewSq (sqs s)) (hsize : 0 < size)
    (h : (Link.new sqs cqid size shadow).run acts = .ok l) (s : Nat) :
    (((l.host.reaped ++ unreaped l).filter (·.sqId == s)).map (·.cid)
        ++ (inFlight s l.dev.ctl).map Prod.snd
        ++ ((unfetched l s).filter (·.aborts == 0)).map (·.cid)).Perm
      ((l.host.submitted s).map (·.cid) ++ l.dev.again s) := by
  obtain ⟨k, kc, heads, h⟩ := Link.new_run hsqs hsize h
  exact h.commands_perm s

/-- One completion of the aborted command is posted, the other one in
flight, and the first command still waits. -/
theorem commands_balance_aborts : ∃ l,
    (Link.new quads 1 2 true).run abortedTwice = .ok l ∧
      (unreaped l).map (·.cid) = [8] ∧
      (inFlight 1 l.dev.ctl).map Prod.snd = [8] ∧
      ((unfetched l 1).filter (·.aborts == 0)).map (·.cid) = [7] ∧
      l.dev.again 1 = [8] ∧
      (((l.host.reaped ++ unreaped l).filter (·.sqId == 1)).map (·.cid)
          ++ (inFlight 1 l.dev.ctl).map Prod.snd
          ++ ((unfetched l 1).filter (·.aborts == 0)).map (·.cid)).Perm
        ((l.host.submitted 1).map (·.cid) ++ l.dev.again 1) :=
  ⟨_, rfl, rfl, rfl, rfl, rfl, commands_balance quads_new (by decide)
    (show (Link.new quads 1 2 true).run abortedTwice = .ok _ from rfl) 1⟩

/-- An abort comes to an end and finds a request, if the driver has fewer
commands open in the queue than the queue has entries. -/
theorem abort_survived (hsqs : ∀ s, NewSq (sqs s)) (hsize : 0 < size)
    (h : (Link.new sqs cqid size shadow).run acts = .ok l)
    (hopen : (l.host.submitted s).length + (l.dev.again s).length
      < ((l.host.reaped ++ unreaped l).filter (·.sqId == s)).length
        + (l.dev.ctl.sqs s).size)
    (now : Int) (failed : Bool) (cid : Nat) :
    ∃ res dev, nvmeAbortReq s l.dev now failed cid = .ok (res, dev) := by
  obtain ⟨k, kc, heads, h⟩ := Link.new_run hsqs hsize h
  unfold nvmeAbortReq
  dsimp only
  split
  case h_1 => exact ⟨_, _, rfl⟩
  case h_2 =>
    split
    case h_1 hhang =>
      rcases h.find s cid with hnone | ⟨_, -, -, -, -, hsome⟩
      · cases hhang.symm.trans hnone
      · cases hhang.symm.trans hsome
    case h_2 => exact ⟨_, _, rfl⟩
    case h_3 =>
      split
      case h_1 hnil => exact absurd hnil (h.free_ne_nil hopen)
      case h_2 => exact ⟨_, _, rfl⟩

/-- After two aborts of one entry the other entry is found, and there is a
request for it. -/
theorem abort_survived_aborts : ∃ l,
    (Link.new quads 1 2 true).run abortedTwice = .ok l ∧
      (nvmeAbortReq 1 l.dev 0 false 7).toOption.map Prod.fst = some 0 ∧
      ∃ res dev, nvmeAbortReq 1 l.dev 0 false 7 = .ok (res, dev) :=
  ⟨_, rfl, rfl, abort_survived quads_new (by decide)
    (show (Link.new quads 1 2 true).run abortedTwice = .ok _ from rfl)
    (by decide) 0 false 7⟩

/-- From wherever a run of both ends has got, they can go on until every
command of a queue is completed and taken. -/
theorem commands_complete (hsqs : ∀ s, NewSq (sqs s)) (hsize : 2 ≤ size)
    (h : (Link.new sqs cqid size shadow).run acts = .ok l) (s : Nat) :
    ∃ more l', l.run more = .ok l' ∧
      l'.host.submitted s = l.host.submitted s ∧
      ((l'.host.reaped.filter (·.sqId == s)).map (·.cid)).Perm
        ((l.host.submitted s).map (·.cid) ++ l.dev.again s) := by
  have hin := Link.new_run hsqs (Nat.lt_of_succ_lt hsize) h
  have hcqSize := Link.run_cqSize h
  obtain ⟨l', hworks, hdone⟩ := exists_drained hin (hcqSize ▸ hsize) s
  obtain ⟨more, hmore⟩ := hworks.run
  obtain ⟨k, kc, heads, h'⟩ := Link.run_inStep hin hmore
  refine ⟨more, l', hmore, hworks.submitted, ?_⟩
  rw [← hworks.submitted, ← hworks.again]
  exact h'.commands_perm_of_left hdone

theorem commands_complete_two : ∃ l,
    (Link.new pairs 1 2 true).run twoCommands = .ok l ∧
      ∃ more l', l.run more = .ok l' ∧
        l'.host.submitted 1 = l.host.submitted 1 ∧
        ((l'.host.reaped.filter (·.sqId == 1)).map (·.cid)).Perm
          ((l.host.submitted 1).map (·.cid) ++ l.dev.again 1) := by
  obtain ⟨l, h⟩ := twoCommands_run
  exact ⟨l, h, commands_complete pairs_new (by decide) h 1⟩

/-- Whatever a guest writes, and in whatever order the two sides go on,
every request of a queue is in one place: free, out, or on the list of
the completion queue. -/
theorem requests_conserved (hsqs : ∀ s, NewSq (sqs s)) {es : List Event}
    {q : Queues} (h : run (Link.new sqs cqid size shadow).dev es = .ok q)
    (s : Nat) :
    (free s q.ctl ++ (inFlight s q.ctl).map Prod.fst).Perm
      (List.range (q.ctl.sqs s).size) := by
  refine run_pooled ?_ h s
  exact new_pooled hsqs cqid size

/-- A guest sets a tail that is not in the ring, so that the controller
goes round. -/
def strayTail : List Event :=
  [.inl (.entry 1 0 ⟨7, .complete 0 none, 0⟩), .inl (.sqShadow 1 5),
    .inr (.updateSqTail 1), .inr (.fetch 1), .inr (.fetch 1),
    .inr (.fetch 1)]

/-- A tail beyond the ring does not lose a request. -/
theorem requests_conserved_stray : ∃ q,
    run (Link.new pairs 1 2 true).dev strayTail = .ok q ∧
      (free 1 q.ctl ++ (inFlight 1 q.ctl).map Prod.fst).Perm
        (List.range (q.ctl.sqs 1).size) :=
  ⟨_, rfl, requests_conserved pairs_new
    (show run (Link.new pairs 1 2 true).dev strayTail = .ok _ from rfl) 1⟩

end Runs

end FemuRemap.Rings
