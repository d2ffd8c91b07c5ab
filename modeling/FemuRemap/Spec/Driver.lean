/-
A driver at the guest's end of the queues, by the rules of the interface:
it fills a submission queue up to the head that the last completion
reported, and takes a completion when the phase of its slot is the one it
waits for.

The driver may publish its indices as late as it likes: filling a slot
and ringing the doorbell are two acts, and so are taking a completion and
giving its slot back. It uses the shadow doorbells if the queues have
them, and the registers otherwise. `submitted` and `reaped` are history.
-/
import FemuRemap.Lib.Ring
import FemuRemap.Model.Queues

namespace FemuRemap.Rings

open Lib Completion

/-- The driver's end of a submission queue: the slot it fills next, and
the head that it was told last. -/
structure HostSq where
  tail : Nat
  head : Nat
deriving DecidableEq, Repr

/-- The driver: its ends of the rings and what it did. -/
structure Host where
  sqs : Table HostSq
  cqHead : Nat
  cqPhase : Bool
  submitted : Table (List Entry)
  reaped : List Cqe

/-- The two ends of the queues. -/
structure Link where
  dev : Queues
  host : Host

/-- The phase tag, in the lowest bit of the status. -/
def phaseTag (e : Cqe) : Bool := e.status % 2 == 1

/-- What either side may do next. -/
inductive Act where
  | submit (sqid cid : Nat) (verdict : Verdict)
  | ringSq (sqid : Nat)
  | reap
  | ringCq
  | device (d : Device)

variable (l : Link)

/-- Fill the next slot, unless the queue may be full. -/
def submit (sqid cid : Nat) (verdict : Verdict) : Link :=
  let h := l.host.sqs sqid
  let next := (h.tail + 1) % (l.dev.ctl.sqs sqid).size
  if next = h.head then l
  else
    let e : Entry := ⟨cid, verdict, 0⟩
    { dev := Guest.step l.dev (.entry sqid h.tail e)
      host := { l.host with
        sqs := l.host.sqs.set sqid { h with tail := next }
        submitted :=
          l.host.submitted.set sqid (l.host.submitted sqid ++ [e]) } }

/-- Publish the tail, as the driver's doorbell write does. -/
def ringSq (sqid : Nat) : Link :=
  let tail := (l.host.sqs sqid).tail
  { l with
    dev := Guest.step l.dev
      (if (l.dev.sqr sqid).shadow.isSome then .sqShadow sqid tail
       else .sqDoorbell sqid tail) }

/-- There is a completion to take. -/
def ready : Bool := phaseTag (l.dev.cqr.entries l.host.cqHead) == l.host.cqPhase

/-- Take the next completion, if there is one. -/
def reap : Link :=
  if ready l then
    let size := l.dev.ctl.cq.size
    let head := l.host.cqHead
    let e := l.dev.cqr.entries head
    { l with
      host := { l.host with
        sqs := l.host.sqs.set e.sqId
          { l.host.sqs e.sqId with head := e.sqHead }
        cqHead := if size ≤ head + 1 then 0 else head + 1
        cqPhase :=
          if size ≤ head + 1 then !l.host.cqPhase else l.host.cqPhase
        reaped := l.host.reaped ++ [e] } }
  else l

/-- Publish the head. -/
def ringCq : Link :=
  { l with
    dev := Guest.step l.dev
      (if l.dev.cqr.shadow.isSome then .cqShadow l.host.cqHead
       else .cqDoorbell l.host.cqHead) }

def Act.step (l : Link) : Act → Except Fault Link
  | .submit sqid cid verdict => .ok (Rings.submit l sqid cid verdict)
  | .ringSq sqid => .ok (Rings.ringSq l sqid)
  | .reap => .ok (Rings.reap l)
  | .ringCq => .ok (Rings.ringCq l)
  | .device d => (d.step l.dev).map fun dev => { l with dev := dev }

/-- The acts of both ends, in any order. -/
def Link.run (l : Link) (acts : List Act) : Except Fault Link :=
  runs Act.step l acts

-- ========================================================== new queues

/-- What `nvme_init_sq` leaves: all requests free. -/
structure NewSq (sq : SQueue) : Prop where
  head : sq.head = 0
  out : sq.outReqList = []
  slots : sq.reqList.map (·.slot) = List.range sq.size
  two_le : 2 ≤ sq.size
  size_lt : sq.size < 2 ^ 16

/-- New queues, whose rings are cleared, with shadow doorbells or
without. -/
def Link.new (sqs : Table SQueue) (cqid size : Nat) (shadow : Bool) :
    Link where
  dev :=
    { ctl := initCtl sqs cqid size
      sqr := .fill
        { tail := 0
          shadow := if shadow then some 0 else none
          entries := .fill ⟨0, .noComplete, 0⟩ }
      cqr :=
        { shadow := if shadow then some 0 else none
          entries := .fill ⟨0, 0, 0, 0⟩ }
      fetched := .fill []
      again := .fill [] }
  host :=
    { sqs := .fill ⟨0, 0⟩
      cqHead := 0
      cqPhase := true
      submitted := .fill []
      reaped := [] }

-- ============================================================= contents

/-- What was submitted to a queue and not fetched. -/
def unfetched (sqid : Nat) : List Entry :=
  let sq := l.dev.ctl.sqs sqid
  Ring.between sq.size (l.dev.sqr sqid).entries (l.host.sqs sqid).tail
    sq.size sq.head

/-- What was posted and not taken. -/
def unreaped : List Cqe :=
  let cq := l.dev.ctl.cq
  Ring.between cq.size l.dev.cqr.entries cq.tail cq.size l.host.cqHead

end FemuRemap.Rings
