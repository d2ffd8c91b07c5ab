/-
The rings of `nvme.c`: the submission queues and the completion queue as
they lie in guest memory, the doorbells, and the controller's end of
them.

The lists of requests behind the rings are those of `Model.Completion`,
and so is what is done to them; here a command is read from the slot at
`sq->head`, a completion is written to the slot at `cq->tail`, and
`nvme_abort_req` searches the slots between. Slot `i` is the entry at
`dma_addr + i * entry size`; the queues are contiguous (`CAP.CQR` is set
unless configured otherwise), and a guest does not let their rings
overlap.

# Granularity

The queues are polled by timers without the lock of the main loop, so
that a guest may write between any two iterations of a loop. `Device`
has one event for each iteration, and `Guest` one for each write of the
guest. `nvmeProcessSqIo` and `nvmePostCqesIo` are the loops of the
source, made of the same iterations.

`fetched` and `again` are history, which the source does not have. The
admin queue, asynchronous events and the vectors of interrupts are left
out.
-/
import FemuRemap.Lib.Runs
import FemuRemap.Model.Completion

namespace FemuRemap.Rings

open Lib Completion

/-- An entry of a submission queue, with what `nvme_io_cmd` will make of
it. Its opcode is `NVME_OP_ABORTED` once `nvme_abort_req` has found it,
and `aborts` says how often that was. -/
structure Entry where
  cid : Nat
  verdict : Verdict
  aborts : Nat
deriving DecidableEq, Repr

/-- The entry, as the loop of `nvme_process_sq_io` sees it. -/
def Entry.command (e : Entry) : Command :=
  if e.aborts = 0 then .io e.cid e.verdict else .aborted

/-- The ring of a submission queue. -/
structure SqRing where
  /-- `sq->tail`. -/
  tail : Nat
  /-- What the guest keeps at `sq->db_addr`, once that is set. -/
  shadow : Option Nat
  entries : Table Entry

/-- The ring of the completion queue. -/
structure CqRing where
  /-- What the guest keeps at `cq->db_addr`, once that is set. -/
  shadow : Option Nat
  entries : Table Cqe

/-- The controller, its rings and what it has read of them. -/
structure Queues where
  ctl : Ctl
  sqr : Table SqRing
  cqr : CqRing
  /-- What each queue was seen to hold, in order. -/
  fetched : Table (List Entry)
  /-- The commands that were aborted another time. -/
  again : Table (List Nat)

/-- What the source does not survive. -/
inductive Fault where
  /-- `QTAILQ_REMOVE` of the first request of an empty list. -/
  | noRequest
  /-- The search of `nvme_abort_req` goes round for ever. -/
  | hang
deriving DecidableEq, Repr

variable (sqid : Nat) (q : Queues)

-- ========================================================== doorbells

def nvmeUpdateSqTail : Queues :=
  let r := q.sqr sqid
  { q with sqr := q.sqr.set sqid { r with tail := r.shadow.getD r.tail } }

def nvmeUpdateCqHead : Queues :=
  { q with
    ctl := { q.ctl with
      cq := { q.ctl.cq with head := q.cqr.shadow.getD q.ctl.cq.head } } }

/-- `nvme_process_db` for the tail of a submission queue. -/
def sqDoorbell (val : Nat) : Queues :=
  let r := q.sqr sqid
  if (q.ctl.sqs sqid).size ≤ val then q
  else if r.shadow.isSome then q
  else { q with sqr := q.sqr.set sqid { r with tail := val } }

/-- `nvme_process_db` for the head of the completion queue. -/
def cqDoorbell (val : Nat) : Queues :=
  if q.ctl.cq.size ≤ val then q
  else
    let q := nvmeUpdateCqHead q
    let full := nvmeCqFull q.ctl.cq
    let head := if q.cqr.shadow.isSome then q.ctl.cq.head else val
    let notify := !full && q.ctl.cq.tail != head
    { q with
      ctl := { q.ctl with
        cq := { q.ctl.cq with head := head }
        isrNotified := q.ctl.isrNotified + notify.toNat } }

-- ========================================================= submission

/-- One iteration of the loop of `nvme_process_sq_io`, unless its guard
ends the loop. -/
def fetch : Option Queues :=
  let sq := q.ctl.sqs sqid
  let e := (q.sqr sqid).entries sq.head
  if sq.head = (q.sqr sqid).tail then none
  else
    match sq.reqList with
    | [] => none
    | req :: free =>
        some
          { q with
            ctl := processCommand sqid req free e.command q.ctl
            fetched := q.fetched.set sqid (q.fetched sqid ++ [e]) }

/-- The loop of `nvme_process_sq_io` with what is left of the burst, and
`processed`. -/
def processSqLoop (sqid : Nat) : Nat → Nat → Queues → Nat × Queues
  | 0, processed, q =>
      (if (fetch sqid q).isSome then processed + 1 else processed, q)
  | burst + 1, processed, q =>
      match fetch sqid q with
      | none => (processed, q)
      | some q => processSqLoop sqid burst (processed + 1) q

/-- `sq->completed += processed`. -/
def addCompleted (processed : Nat) : Queues :=
  let sq := q.ctl.sqs sqid
  { q with
    ctl := { q.ctl with
      sqs := q.ctl.sqs.set sqid
        { sq with completed := sq.completed + processed } } }

def nvmeProcessSqIo : Queues :=
  let q := nvmeUpdateSqTail sqid q
  let (processed, q) :=
    processSqLoop sqid (q.ctl.sqs sqid).arbBurst 0 q
  addCompleted sqid q processed

-- ============================================================ posting

/-- The entry that `nvme_post_cqe` writes. -/
def cqeOf (p : Pending) (c : Ctl) : Cqe where
  cid := p.cid
  status := (2 * p.status + c.cq.phase.toNat) % 2 ^ 16
  sqId := p.sqid
  sqHead := (c.sqs p.sqid).head % 2 ^ 16

/-- `nvme_post_cqe`. -/
def postCqe (clock : Int) (p : Pending) : Queues :=
  { q with
    ctl := nvmePostCqe clock p q.ctl
    cqr := { q.cqr with
      entries := q.cqr.entries.set q.ctl.cq.tail (cqeOf p q.ctl) } }

/-- One iteration of the loop of `nvme_post_cqes_io`, for the request `p`
with which the list starts, and the reason if the loop ends here. -/
def postNext (clock : Int) (p : Pending) (ps : List Pending) :
    Option Stop × Queues :=
  let q := nvmeUpdateCqHead q
  if nvmeCqFull q.ctl.cq then (some .full, q)
  else if q.ctl.cq.cqid ≠ 0 ∧ clock < p.expireTime then
    (some (.unexpired clock p.expireTime), q)
  else
    (none,
      postCqe { q with
        ctl := { q.ctl with cq := { q.ctl.cq with reqList := ps } } } clock p)

/-- The same for whatever the list starts with. -/
def post (clock : Int) : Queues :=
  match q.ctl.cq.reqList with
  | [] => q
  | p :: ps => (postNext q clock p ps).2

/-- The loop of `nvme_post_cqes_io`, with its readings of the clock. -/
def postCqesLoop (clock : Nat → Int) :
    Nat → List Pending → Queues → Stop × Nat × Queues
  | i, [], q => (.drained, i, q)
  | i, p :: ps, q =>
      match postNext q (clock i) p ps with
      | (some stop, q) => (stop, i, q)
      | (none, q) => postCqesLoop clock (i + 1) ps q

/-- `timer_mod` and `nvme_isr_notify` at the end of a round. -/
def rearm (ntt : Int) (nc : Nat) : Queues :=
  { q with
    ctl := { q.ctl with
      cq := { q.ctl.cq with timer := some ntt }
      isrNotified := q.ctl.isrNotified + if 0 < nc then 1 else 0 } }

def nvmePostCqesIo (clock : Nat → Int) (last : Int) : Queues :=
  let (stop, nc, q) := postCqesLoop clock 0 q.ctl.cq.reqList q
  rearm q (stop.ntt last) nc

-- ============================================================== abort

/-- The search of `nvme_abort_req` for a command that is not fetched yet,
from `head + index` on; `none` if it does not end. Behind `size` slots it
would come to the first one again. -/
def findEntry (size head cid : Nat) (r : SqRing) :
    Nat → Nat → Option (Option Nat)
  | 0, _ => none
  | fuel + 1, index =>
      let slot := (head + index) % size
      if slot = r.tail then some none
      else if (r.entries slot).cid = cid then some (some slot)
      else findEntry size head cid r fuel (index + 1)

/-- `NVME_CMD_ABORT_REQ`. -/
def abortStatus : Nat := 7

/-- Complete the command at `slot` with the free request `req`, and mark
its entry. -/
def abortEntry (now : Int) (cid slot : Nat) (req : Request)
    (free : List Request) : Queues :=
  let req := { req with sqid := sqid, cid := cid, status := abortStatus }
  let sq := q.ctl.sqs sqid
  let r := q.sqr sqid
  let e := r.entries slot
  { q with
    ctl := nvmeEnqueueReqCompletion now req
      { q.ctl with
        sqs := q.ctl.sqs.set sqid
          { sq with reqList := free, outReqList := sq.outReqList ++ [req] } }
    sqr := q.sqr.set sqid
      { r with entries := r.entries.set slot { e with aborts := e.aborts + 1 } }
    again := if e.aborts = 0 then q.again
      else q.again.set sqid (q.again sqid ++ [cid]) }

/-- `nvme_abort_req` for an I/O queue, with its result. A request that is
out is cancelled: its callback runs before `bdrv_aio_cancel` returns, and
`failed` says with which outcome. -/
def nvmeAbortReq (now : Int) (failed : Bool) (cid : Nat) :
    Except Fault (Nat × Queues) :=
  let sq := q.ctl.sqs sqid
  match sq.outReqList.find? (·.cid == cid) with
  | some req =>
      .ok (0, { q with ctl := nvmeMiscCb now failed sqid req.slot q.ctl })
  | none =>
      match findEntry sq.size sq.head cid (q.sqr sqid) sq.size 0 with
      | none => .error .hang
      | some none => .ok (1, q)
      | some (some slot) =>
          match sq.reqList with
          | [] => .error .noRequest
          | req :: free => .ok (0, abortEntry sqid q now cid slot req free)

-- ============================================================= events

/-- What a guest can write. -/
inductive Guest where
  | entry (sqid slot : Nat) (e : Entry)
  | cqe (slot : Nat) (e : Cqe)
  | sqShadow (sqid val : Nat)
  | cqShadow (val : Nat)
  | sqDoorbell (sqid val : Nat)
  | cqDoorbell (val : Nat)

/-- What the controller does, one iteration at a time. -/
inductive Device where
  | updateSqTail (sqid : Nat)
  | fetch (sqid : Nat)
  | addCompleted (sqid processed : Nat)
  | post (clock : Int)
  | rearm (ntt : Int) (nc : Nat)
  | miscCb (now : Int) (failed : Bool) (sqid slot : Nat)
  | abortReq (now : Int) (failed : Bool) (sqid cid : Nat)

/-- What a guest's write does. -/
def Guest.step (q : Queues) : Guest → Queues
  | .entry sqid slot e =>
      let r := q.sqr sqid
      { q with
        sqr := q.sqr.set sqid { r with entries := r.entries.set slot e } }
  | .cqe slot e =>
      { q with cqr := { q.cqr with entries := q.cqr.entries.set slot e } }
  | .sqShadow sqid val =>
      let r := q.sqr sqid
      { q with
        sqr := q.sqr.set sqid { r with shadow := r.shadow.map fun _ => val } }
  | .cqShadow val =>
      { q with cqr := { q.cqr with shadow := q.cqr.shadow.map fun _ => val } }
  | .sqDoorbell sqid val => Rings.sqDoorbell sqid q val
  | .cqDoorbell val => Rings.cqDoorbell q val

/-- What each of the device's steps runs. -/
def Device.step (q : Queues) : Device → Except Fault Queues
  | .updateSqTail sqid => .ok (nvmeUpdateSqTail sqid q)
  | .fetch sqid => .ok ((Rings.fetch sqid q).getD q)
  | .addCompleted sqid processed => .ok (Rings.addCompleted sqid q processed)
  | .post clock => .ok (Rings.post q clock)
  | .rearm ntt nc => .ok (Rings.rearm q ntt nc)
  | .miscCb now failed sqid slot =>
      .ok { q with ctl := nvmeMiscCb now failed sqid slot q.ctl }
  | .abortReq now failed sqid cid =>
      (nvmeAbortReq sqid q now failed cid).map (·.2)

/-- The events of the guest and of the controller, in any order. -/
abbrev Event : Type := Guest ⊕ Device

/-- Either side. -/
def step (q : Queues) : Event → Except Fault Queues
  | .inl g => .ok (g.step q)
  | .inr d => d.step q

/-- All steps in order. -/
def run (q : Queues) (es : List Event) : Except Fault Queues :=
  runs step q es

end FemuRemap.Rings
