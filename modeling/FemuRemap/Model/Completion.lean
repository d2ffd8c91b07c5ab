/-
The I/O completion queue of `nvme.c`: commands taken from the submission
queues that share it, the two functions that put finished requests on
`cq->req_list`, and the posting rounds of its timer.

What a command does to the device is given by its `Verdict`: the status
that `nvme_io_cmd` returns and the `expire_time` that `nvme_rw` computed,
if it did. A request is an entry of `sq->io_req`; it goes round
`sq->req_list`, `sq->out_req_list` and `cq->req_list`, and keeps its
`expire_time` until a later command sets it again.

Three fields of `Ctl` are history, which the source does not have:
`enqueued`, `posted` and the number `arrival` of an enqueue. Addresses of
the queues in guest memory, interrupt vectors and the white-box mode are
left out.
-/
import FemuRemap.Lib.Table
import Mathlib.Algebra.Order.Ring.Int
import Mathlib.Data.List.Sort

namespace FemuRemap.Completion

open Lib

/-- `NvmeRequest`, by its index in the `io_req` of its queue. -/
structure Request where
  sqid : Nat
  slot : Nat
  cid : Nat
  status : Nat
  expireTime : Int
deriving DecidableEq, Repr

/-- A request on `cq->req_list`. -/
structure Pending extends Request where
  arrival : Nat
deriving DecidableEq, Repr

/-- `NvmeSQueue`. -/
structure SQueue where
  head : Nat
  size : Nat
  arbBurst : Nat
  completed : Nat
  reqList : List Request
  outReqList : List Request
deriving DecidableEq, Repr

/-- `NvmeCQueue`. -/
structure CQueue where
  cqid : Nat
  head : Nat
  tail : Nat
  size : Nat
  phase : Bool
  reqList : List Pending
  timer : Option Int
deriving DecidableEq, Repr

/-- `NvmeCqe`. -/
structure Cqe where
  cid : Nat
  status : Nat
  sqId : Nat
  sqHead : Nat
deriving DecidableEq, Repr

/-- An entry written at `index` of the completion queue, by a round that
had read the clock as `clock`. -/
structure Posting where
  req : Pending
  clock : Int
  index : Nat
  cqe : Cqe
deriving DecidableEq, Repr

/-- The submission queues and the completion queue they share. -/
structure Ctl where
  sqs : Table SQueue
  cq : CQueue
  isrNotified : Nat
  enqueued : List Pending
  posted : List Posting

/-- Where `nvme_create_cq` leaves the queue. -/
def initCq (cqid size : Nat) : CQueue where
  cqid := cqid
  head := 0
  tail := 0
  size := size
  phase := true
  reqList := []
  timer := none

/-- A new completion queue for the given submission queues. -/
def initCtl (sqs : Table SQueue) (cqid size : Nat) : Ctl where
  sqs := sqs
  cq := initCq cqid size
  isrNotified := 0
  enqueued := []
  posted := []

-- ======================================================== the queues

def nvmeIncCqTail (cq : CQueue) : CQueue :=
  if cq.size ≤ cq.tail + 1 then { cq with tail := 0, phase := !cq.phase }
  else { cq with tail := cq.tail + 1 }

/-- `nvme_cq_full`, once the head is up to date. -/
def nvmeCqFull (cq : CQueue) : Bool := (cq.tail + 1) % cq.size == cq.head

def nvmeIncSqHead (sq : SQueue) : SQueue :=
  { sq with head := (sq.head + 1) % sq.size }

/-- `QTAILQ_REMOVE` from `out_req_list`. -/
def SQueue.leaveOut (slot : Nat) (sq : SQueue) : SQueue :=
  { sq with outReqList := sq.outReqList.eraseP (·.slot == slot) }

/-- The next enqueue of a request, numbered. -/
def Ctl.pending (c : Ctl) (req : Request) : Pending :=
  { req with arrival := c.enqueued.length }

/-- Take a request off its queue and record that it is enqueued, at the
place that `put` finds for it. -/
def Ctl.enqueue (put : Pending → List Pending → List Pending)
    (timer : Option Int) (req : Request) (c : Ctl) : Ctl :=
  { c with
    sqs := c.sqs.set req.sqid ((c.sqs req.sqid).leaveOut req.slot)
    cq := { c.cq with
      reqList := put (c.pending req) c.cq.reqList
      timer := timer }
    enqueued := c.enqueued ++ [c.pending req] }

/-- `nvme_enqueue_req_completion_io`: before the first request that
expires later, and behind all of them if there is none. -/
def nvmeEnqueueReqCompletionIo (req : Request) (c : Ctl) : Ctl :=
  let timer :=
    if c.cq.reqList = [] then some req.expireTime else c.cq.timer
  c.enqueue
    (List.orderedInsert fun p q => p.expireTime < q.expireTime) timer req

/-- `nvme_enqueue_req_completion`: at the tail. -/
def nvmeEnqueueReqCompletion (now : Int) (req : Request) (c : Ctl) : Ctl :=
  c.enqueue (fun p l => l ++ [p]) (some (now + 500)) req

-- ======================================================== submission

/-- The outcome of `nvme_io_cmd`. -/
inductive Verdict where
  /-- The command is done. Only `nvme_rw` sets an expire time. -/
  | complete (status : Nat) (expireTime : Option Int)
  /-- `NVME_NO_COMPLETE`: a callback will finish the request. -/
  | noComplete
deriving DecidableEq, Repr

/-- An entry of a submission queue. -/
inductive Command where
  /-- `NVME_OP_ABORTED`. -/
  | aborted
  | io (cid : Nat) (verdict : Verdict)
deriving DecidableEq, Repr

/-- Take `req`, the first of the free requests, for a command. -/
def serveCommand (sqid cid : Nat) (verdict : Verdict) (req : Request)
    (free : List Request) (c : Ctl) : Ctl :=
  let req := { req with sqid := sqid, cid := cid }
  let sq := c.sqs sqid
  let out (req : Request) : SQueue :=
    { sq with reqList := free, outReqList := sq.outReqList ++ [req] }
  match verdict with
  | .noComplete => { c with sqs := c.sqs.set sqid (out req) }
  | .complete status expireTime =>
      let req :=
        { req with
          status := status
          expireTime := expireTime.getD req.expireTime }
      nvmeEnqueueReqCompletionIo req
        { c with sqs := c.sqs.set sqid (out req) }

/-- One command of the loop of `nvme_process_sq_io`. -/
def processCommand (sqid : Nat) (req : Request) (free : List Request)
    (cmd : Command) (c : Ctl) : Ctl :=
  let c := { c with sqs := c.sqs.set sqid (nvmeIncSqHead (c.sqs sqid)) }
  match cmd with
  | .aborted => c
  | .io cid verdict => serveCommand sqid cid verdict req free c

/-- The loop of `nvme_process_sq_io` over the commands up to the tail,
with `processed`. -/
def processSqLoop (sqid : Nat) : List Command → Nat → Ctl → Nat × Ctl
  | [], processed, c => (processed, c)
  | cmd :: cmds, processed, c =>
      match (c.sqs sqid).reqList with
      | [] => (processed, c)
      | req :: free =>
          if processed < (c.sqs sqid).arbBurst then
            processSqLoop sqid cmds (processed + 1)
              (processCommand sqid req free cmd c)
          else (processed + 1, c)

def nvmeProcessSqIo (sqid : Nat) (cmds : List Command) (c : Ctl) : Ctl :=
  let (processed, c) := processSqLoop sqid cmds 0 c
  let sq := c.sqs sqid
  { c with
    sqs := c.sqs.set sqid { sq with completed := sq.completed + processed } }

/-- `NVME_SUCCESS` and `NVME_INTERNAL_DEV_ERROR`. -/
def miscStatus (failed : Bool) : Nat := if failed then 6 else 0

/-- `nvme_misc_cb`, for the request of a flush or write-zeroes command
that is out. -/
def nvmeMiscCb (now : Int) (failed : Bool) (sqid slot : Nat) (c : Ctl) :
    Ctl :=
  match (c.sqs sqid).outReqList.find? (·.slot == slot) with
  | none => c
  | some req =>
      nvmeEnqueueReqCompletion now
        { req with sqid := sqid, status := miscStatus failed } c

-- =========================================================== posting

/-- What a round reads at its `i`th request: the head that the guest has
written, and the clock. -/
structure Readings where
  head : Nat → Nat
  clock : Nat → Int
  /-- The clock once the loop is over. -/
  last : Int

/-- Why the loop of a round stopped. -/
inductive Stop where
  | drained
  | full
  | unexpired (clock expireTime : Int)
deriving DecidableEq, Repr

/-- `nvme_post_cqe`. -/
def nvmePostCqe (clock : Int) (p : Pending) (c : Ctl) : Ctl :=
  let sq := c.sqs p.sqid
  let cqe : Cqe :=
    { cid := p.cid
      status := (2 * p.status + c.cq.phase.toNat) % 2 ^ 16
      sqId := p.sqid
      sqHead := sq.head % 2 ^ 16 }
  { c with
    sqs := c.sqs.set p.sqid
      { sq with reqList := sq.reqList ++ [p.toRequest] }
    cq := nvmeIncCqTail c.cq
    posted := c.posted ++ [⟨p, clock, c.cq.tail, cqe⟩] }

/-- The loop of `nvme_post_cqes_io` from the `i`th request on. The
requests still to visit are those on `req_list`, as the loop removes each
one that it goes past. -/
def postCqesLoop (rd : Readings) :
    Nat → List Pending → Ctl → Stop × Nat × Ctl
  | i, [], c => (.drained, i, c)
  | i, p :: ps, c =>
      let c := { c with cq := { c.cq with head := rd.head i } }
      if nvmeCqFull c.cq then (.full, i, c)
      else if c.cq.cqid ≠ 0 ∧ rd.clock i < p.expireTime then
        (.unexpired (rd.clock i) p.expireTime, i, c)
      else
        postCqesLoop rd (i + 1) ps
          (nvmePostCqe (rd.clock i) p
            { c with cq := { c.cq with reqList := ps } })

def cqPollingPeriodNs : Int := 5000

/-- The next time of the timer: `ntt` if the loop has set it. -/
def Stop.ntt (last : Int) : Stop → Int
  | .unexpired _ expireTime =>
      if expireTime = 0 then last + cqPollingPeriodNs else expireTime
  | _ => last + cqPollingPeriodNs

/-- `nvme_post_cqes_io`, with the reason for which its loop stopped. -/
def nvmePostCqesIo (rd : Readings) (c : Ctl) : Stop × Ctl :=
  let (stop, nc, c) := postCqesLoop rd 0 c.cq.reqList c
  (stop,
    { c with
      cq := { c.cq with timer := some (stop.ntt rd.last) }
      isrNotified := c.isrNotified + if 0 < nc then 1 else 0 })

-- ============================================================== runs

/-- What happens to the queues, in any order. -/
inductive Event where
  | processSq (sqid : Nat) (cmds : List Command)
  | miscCb (now : Int) (failed : Bool) (sqid slot : Nat)
  | postCqes (rd : Readings)

def step (c : Ctl) : Event → Ctl
  | .processSq sqid cmds => nvmeProcessSqIo sqid cmds c
  | .miscCb now failed sqid slot => nvmeMiscCb now failed sqid slot c
  | .postCqes rd => (nvmePostCqesIo rd c).2

/-- The events of a run, each with the state it happens in. -/
def trace (c : Ctl) : List Event → List (Ctl × Event)
  | [] => []
  | e :: es => (c, e) :: trace (step c e) es

end FemuRemap.Completion
