/-
The loops of the polling timers, as runs of single iterations and as the
loops of `Model.Completion`.

With no guest in between, a round of `nvme_process_sq_io` or
`nvme_post_cqes_io` is a run of the controller's events, so that what
holds in every order of events holds for rounds as well: the results of
`Proofs.Delivery` are about runs of single iterations, and these lemmas
say that the loops of the source are such runs. To the lists of requests a
round does what the round of `Model.Completion` does: there the commands
are given as a list and the heads as readings, here they are read from the
rings. So the two models of the queues are models of the same loops.
-/
import FemuRemap.Lib.Ring
import FemuRemap.Proofs.Requests
import FemuRemap.Spec.Driver

namespace FemuRemap.Rings

open Lib Completion

variable {q q' : Queues} {s : Nat}

-- ============================================================ as events

/-- By the burst: each iteration that fetches is one event. -/
theorem processSqLoop_run (s burst processed : Nat) (q : Queues) :
    ∃ ds, runs Device.step q ds
      = .ok (processSqLoop s burst processed q).2 := by
  induction burst generalizing processed q with
  | zero => exact ⟨[], rfl⟩
  | succ burst ih =>
      rw [processSqLoop]
      cases hf : Rings.fetch s q with
      | none => exact ⟨[], rfl⟩
      | some q' =>
          obtain ⟨ds, hds⟩ := ih (processed + 1) q'
          refine ⟨.fetch s :: ds, runs.cons_ok_iff.2 ⟨q', ?_, hds⟩⟩
          simp [Device.step, hf]

/-- A round of `nvme_process_sq_io` is a run of single iterations; with
`Link.run_device` it is one of the runs that the results of
`Proofs.Delivery` on submissions and commands are about. -/
theorem nvmeProcessSqIo_run (s : Nat) (q : Queues) :
    ∃ ds, runs Device.step q ds = .ok (nvmeProcessSqIo s q) := by
  obtain ⟨ds, hds⟩ := processSqLoop_run s
    ((nvmeUpdateSqTail s q).ctl.sqs s).arbBurst 0 (nvmeUpdateSqTail s q)
  let processed := (processSqLoop s
    ((nvmeUpdateSqTail s q).ctl.sqs s).arbBurst 0 (nvmeUpdateSqTail s q)).1
  exact ⟨.updateSqTail s :: (ds ++ [.addCompleted s processed]),
    runs.cons_ok_iff.2 ⟨_, rfl, runs.append_ok_iff.2 ⟨_, hds, rfl⟩⟩⟩

/-- What is left of the list once a request is posted. -/
theorem postNext_reqList {clock : Int} {p : Pending} {ps : List Pending}
    (h : postNext q clock p ps = (none, q')) : q'.ctl.cq.reqList = ps := by
  unfold postNext at h
  dsimp only at h
  split at h
  case isTrue => cases h
  case isFalse =>
    split at h
    case isTrue => cases h
    case isFalse =>
      cases h
      exact nvmePostCqe_reqList _ _ _

/-- By the list: each request that is posted is one event. -/
theorem postCqesLoop_run (clock : Nat → Int) (i : Nat) {ps : List Pending}
    (hl : q.ctl.cq.reqList = ps) :
    ∃ ds, runs Device.step q ds
      = .ok (postCqesLoop clock i ps q).2.2 := by
  induction ps generalizing i q with
  | nil => exact ⟨[], rfl⟩
  | cons p ps ih =>
      have hpost : Rings.post q (clock i) = (postNext q (clock i) p ps).2 := by
        rw [Rings.post, hl]
      rw [postCqesLoop]
      cases hn : postNext q (clock i) p ps with
      | mk stop q' =>
          rw [hn] at hpost
          cases stop with
          | some stop =>
              refine ⟨[.post (clock i)], runs.cons_ok_iff.2 ⟨q', ?_, rfl⟩⟩
              rw [Device.step, hpost]
          | none =>
              obtain ⟨ds, hds⟩ := ih (i + 1) (postNext_reqList hn)
              refine ⟨.post (clock i) :: ds,
                runs.cons_ok_iff.2 ⟨q', ?_, hds⟩⟩
              rw [Device.step, hpost]

/-- A round of `nvme_post_cqes_io` is a run of single iterations, and so
one of the runs that the results on completions and requests are about. -/
theorem nvmePostCqesIo_run (q : Queues) (clock : Nat → Int) (last : Int) :
    ∃ ds, runs Device.step q ds = .ok (nvmePostCqesIo q clock last) := by
  obtain ⟨ds, hds⟩ := postCqesLoop_run clock 0 (q := q) rfl
  let round := postCqesLoop clock 0 q.ctl.cq.reqList q
  exact ⟨ds ++ [.rearm (round.1.ntt last) round.2.1],
    runs.append_ok_iff.2 ⟨_, hds, rfl⟩⟩

/-- The events of the controller are acts of the two ends, so that a round
can stand anywhere in a run of both. -/
theorem Link.run_device {l : Link} {dev : Queues} {ds : List Device}
    (h : runs Device.step l.dev ds = .ok dev) :
    l.run (ds.map .device) = .ok { l with dev := dev } := by
  refine runs.map_ok (fun dev => { l with dev := dev }) ?_ h
  intro q d q' hd
  rw [Act.step, hd]
  rfl

-- ====================================================== as the old loops

/-- What a round reads, if no guest comes in between. -/
def readings (q : Queues) (clock : Nat → Int) (last : Int) : Readings where
  head := fun _ => q.cqr.shadow.getD q.ctl.cq.head
  clock := clock
  last := last

/-- The outcome of a loop, for the lists alone. -/
def onLists (r : Stop × Nat × Queues) : Stop × Nat × Ctl :=
  (r.1, r.2.1, r.2.2.ctl)

theorem postCqesLoop_onLists (rd : Readings) (i : Nat) (ps : List Pending)
    (hhead : ∀ i, rd.head i = q.cqr.shadow.getD q.ctl.cq.head) :
    onLists (postCqesLoop rd.clock i ps q)
      = Completion.postCqesLoop rd i ps q.ctl := by
  induction ps generalizing i q with
  | nil => rfl
  | cons p ps ih =>
      rw [Completion.postCqesLoop, hhead i, postCqesLoop, postNext]
      dsimp only
      by_cases hfull : nvmeCqFull (nvmeUpdateCqHead q).ctl.cq = true
      · rw [if_pos hfull]
        exact (if_pos hfull).symm
      · rw [if_neg hfull]
        refine Eq.trans ?_ (if_neg hfull).symm
        by_cases hclock : (nvmeUpdateCqHead q).ctl.cq.cqid ≠ 0 ∧
            rd.clock i < p.expireTime
        · rw [if_pos hclock]
          exact (if_pos hclock).symm
        · rw [if_neg hclock]
          refine Eq.trans (ih (i + 1) fun j => ?_) (if_neg hclock).symm
          -- the next look at the doorbell finds the same head
          rw [hhead j]
          show _ = q.cqr.shadow.getD (nvmeIncCqTail _).head
          rw [nvmeIncCqTail_head]
          cases h : q.cqr.shadow <;> simp [nvmeUpdateCqHead, h]

/-- A round of `nvme_post_cqes_io` does to the lists what that of
`Model.Completion` does: the order of completions shown there holds of the
loop that reads the rings. -/
theorem nvmePostCqesIo_ctl (q : Queues) (clock : Nat → Int) (last : Int) :
    (nvmePostCqesIo q clock last).ctl
      = (Completion.nvmePostCqesIo (readings q clock last) q.ctl).2 := by
  have hloop := postCqesLoop_onLists (q := q) (readings q clock last) 0
    q.ctl.cq.reqList fun _ => rfl
  rw [Completion.nvmePostCqesIo, ← hloop]
  rfl

/-- The head of the queue goes on, its size and burst stay. -/
theorem processCommand_fields (s : Nat) (r : Request) (free : List Request)
    (cmd : Command) (c : Ctl) :
    let sq := (processCommand s r free cmd c).sqs s
    sq.head = ((c.sqs s).head + 1) % (c.sqs s).size ∧
      sq.size = (c.sqs s).size ∧ sq.arbBurst = (c.sqs s).arbBurst := by
  cases cmd with
  | aborted => simp [processCommand, nvmeIncSqHead]
  | io cid verdict =>
      cases verdict with
      | noComplete => simp [processCommand, serveCommand, nvmeIncSqHead]
      | complete status expireTime =>
          simp [processCommand, serveCommand, nvmeEnqueueReqCompletionIo,
            Ctl.enqueue, SQueue.leaveOut, nvmeIncSqHead]

/-- The commands from the head to the tail, of at most `fuel`. -/
def commands (s fuel : Nat) (q : Queues) : List Command :=
  (Ring.between (q.ctl.sqs s).size (q.sqr s).entries (q.sqr s).tail fuel
    (q.ctl.sqs s).head).map Entry.command

/-- A loop that stops has no command to look at, or no request for it. -/
theorem fetch_none (h : Rings.fetch s q = none) (fuel processed : Nat) :
    Completion.processSqLoop s (commands s (fuel + 1) q) processed q.ctl
      = (processed, q.ctl) := by
  by_cases htail : (q.ctl.sqs s).head = (q.sqr s).tail
  · rw [commands, Ring.between, if_pos htail]
    rfl
  · rw [Rings.fetch, if_neg htail] at h
    cases hl : (q.ctl.sqs s).reqList with
    | nil =>
        cases commands s (fuel + 1) q with
        | nil => rfl
        | cons cmd cmds => rw [Completion.processSqLoop, hl]
    | cons r free =>
        rw [hl] at h
        cases h

/-- A fetch looks at the first of the commands and leaves the others. -/
theorem fetch_commands (h : Rings.fetch s q = some q') (fuel : Nat) :
    ∃ r free cmd, (q.ctl.sqs s).reqList = r :: free ∧
      q'.ctl = processCommand s r free cmd q.ctl ∧
      commands s (fuel + 1) q = cmd :: commands s fuel q' := by
  obtain ⟨r, free, e, hl, hne, he, rfl⟩ := fetch_cases h
  obtain ⟨hhead, hsize, -⟩ := processCommand_fields s r free e.command q.ctl
  refine ⟨r, free, e.command, hl, rfl, ?_⟩
  rw [commands, commands, hhead, hsize, Ring.between, if_neg hne, ← he]
  rfl

theorem processSqLoop_ctl (s burst processed : Nat) {q : Queues}
    (hburst : (q.ctl.sqs s).arbBurst = processed + burst) :
    Completion.processSqLoop s (commands s (burst + 1) q) processed q.ctl
      = ((processSqLoop s burst processed q).1,
          (processSqLoop s burst processed q).2.ctl) := by
  induction burst generalizing processed q with
  | zero =>
      rw [processSqLoop]
      cases hf : Rings.fetch s q with
      | none => exact fetch_none hf 0 processed
      | some q' =>
          obtain ⟨r, free, cmd, hl, -, hcommands⟩ := fetch_commands hf 0
          rw [hcommands, Completion.processSqLoop, hl]
          simp [hburst]
  | succ burst ih =>
      rw [processSqLoop]
      cases hf : Rings.fetch s q with
      | none => exact fetch_none hf (burst + 1) processed
      | some q' =>
          obtain ⟨r, free, cmd, hl, hctl, hcommands⟩ :=
            fetch_commands hf (burst + 1)
          have hsame := (processCommand_fields s r free cmd q.ctl).2.2
          rw [← hctl] at hsame
          rw [hcommands, Completion.processSqLoop, hl]
          dsimp only
          rw [if_pos (by omega), ← hctl]
          exact ih (processed + 1) (by omega)

/-- A round of `nvme_process_sq_io` does to the lists what that of
`Model.Completion` does with the commands in the ring. With
`nvmePostCqesIo_ctl` this makes the lists of the two models the same. -/
theorem nvmeProcessSqIo_ctl (s : Nat) (q : Queues) :
    (nvmeProcessSqIo s q).ctl
      = Completion.nvmeProcessSqIo s
        (commands s ((q.ctl.sqs s).arbBurst + 1) (nvmeUpdateSqTail s q))
        q.ctl := by
  have hloop : Completion.processSqLoop s
      (commands s ((q.ctl.sqs s).arbBurst + 1) (nvmeUpdateSqTail s q)) 0
      q.ctl = _ :=
    processSqLoop_ctl s (q.ctl.sqs s).arbBurst 0
      (q := nvmeUpdateSqTail s q) (Nat.zero_add _).symm
  rw [Completion.nvmeProcessSqIo, hloop]
  rfl

end FemuRemap.Rings
