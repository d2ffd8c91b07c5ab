/-
The queues of `nvme.c` as objects: how they are created, deleted and
reset, and which of them hold references to which.

# Objects

A queue lies at an address, and a request is the address of its
submission queue and its index in `io_req`. `sqs` and `cqs` are the
objects that exist; an address is not used again, so that a reference to
a freed object can be told from one to its successor. The queues of the
admin commands are embedded in the controller, at address zero, but their
requests are freed as those of the others are.

# Granularity

The steps are the callbacks of the timers and of the block layer, the
admin commands one by one, and writes to `CC` and to the doorbells. What
the guest's memory holds is an argument where the source reads it: the
tail of a shadow doorbell, the entries of a ring, the lists of pages. So
is what the source leaves to other code: what an I/O command or another
admin command does (`Verdict`), whether the interrupt of a completion
queue can be set up, how many completions find room and have expired, and
where a completion is put among those that wait. That another callback
runs while one request is cancelled or one command executed is left out,
and so are a reset in the middle of a poll, which does not hold the lock
of the main loop, and the delivery of interrupts.
-/
import FemuRemap.Lib.Runs
import FemuRemap.Lib.Table
import Mathlib.Algebra.Order.Ring.Int

namespace FemuRemap.Lifecycle

open Lib

/-- What stays as it is while a submission queue exists, apart from its
doorbell. -/
structure SqInfo where
  sqid : Nat
  cqid : Nat
  size : Nat
  /-- `phys_contig`. -/
  contig : Bool
  /-- `db_addr`, zero if there is none. -/
  dbAddr : Nat
deriving DecidableEq, Repr

/-- `NvmeSQueue`, with the lists of its requests. -/
structure SQueue extends SqInfo where
  head : Nat
  tail : Nat
  /-- `cqe.cid` of the requests. -/
  cids : Table Nat
  reqList : List Nat
  outReqList : List Nat

/-- A request: its queue and its index there. -/
abbrev Req : Type := Nat × Nat

/-- The part of `NvmeCQueue` set when it is created. -/
structure CqInfo where
  cqid : Nat
  size : Nat
  contig : Bool
  dbAddr : Nat
  sqList : List Nat
deriving DecidableEq, Repr

/-- `NvmeCQueue`, with the requests that wait in it. -/
structure CQueue extends CqInfo where
  reqList : List Req
deriving DecidableEq, Repr

/-- What the guest cannot change; the bounds are those of
`nvme_check_constraints`. -/
structure Config where
  numIoQueues : Nat
  aerl : Nat
  /-- `CAP.MQES`. -/
  mqes : Nat
  /-- `CAP.CQR`: queues have to be contiguous. -/
  cqr : Bool
  dbStride : Nat
  pageSize : Nat
  queues_le : numIoQueues ≤ 2047
  stride_le : dbStride ≤ 12

/-- The bits of `CC` that start and stop the controller. -/
structure Cc where
  en : Bool
  shn : Bool
deriving DecidableEq, Repr

/-- `NvmeBar.csts`. -/
structure Csts where
  ready : Bool
  failed : Bool
  shutdown : Bool
deriving DecidableEq, Repr

/-- `NvmeCtrl`: the tables, the queues by address, and what is under way. -/
structure Ctrl where
  cc : Cc
  csts : Csts
  /-- `n->sq` and `n->cq`. -/
  sq : Table (Option Nat)
  cq : Table (Option Nat)
  sqs : Table (Option SQueue)
  cqs : Table (Option CQueue)
  /-- The next address that `g_malloc0` gives. -/
  fresh : Nat
  /-- The requests that their callbacks will complete. -/
  aios : List Req
  /-- The requests to whose status a discard is still to be written. -/
  discards : List Req
  /-- The requests in `aer_reqs`, the last one first. -/
  aers : List Nat
  /-- The requests of admin commands that returned `NVME_NO_COMPLETE`
  though nothing will complete them. -/
  lost : List Nat
  /-- `aer_timer` is there. -/
  aerTimer : Bool
  dbsAddr : Nat
  eisAddr : Nat

/-- What the source does not survive. -/
inductive Fault where
  | outOfBounds
  | useAfterFree
  | nullPointer
  | assertion
  | divideByZero
  /-- A loop that does not end. -/
  | endless
  /-- The code of a command does not survive, whatever it is. -/
  | command
deriving DecidableEq, Repr

/-- The status of an admin command. -/
inductive Status where
  | success
  | invalidField
  | invalidQid
  | invalidCqid
  | invalidIrqVector
  | invalidQueueDel
  | maxQsizeExceeded
  | aerLimitExceeded
deriving DecidableEq, Repr

section

variable (g : Config)

-- ============================================================= objects

/-- A reference to a submission queue is followed. -/
def getSq (c : Ctrl) (p : Nat) : Except Fault SQueue :=
  match c.sqs p with
  | some sq => .ok sq
  | none => .error .useAfterFree

/-- The completion queue at an address. -/
def getCq (c : Ctrl) (q : Nat) : Except Fault CQueue :=
  match c.cqs q with
  | some cq => .ok cq
  | none => .error .useAfterFree

/-- `n->cq[cqid]`, which is then followed. -/
def cqOf (c : Ctrl) (cqid : Nat) : Except Fault (Nat × CQueue) :=
  match c.cq cqid with
  | some q => (getCq c q).map (q, ·)
  | none => .error .nullPointer

def setSq (c : Ctrl) (p : Nat) (sq : SQueue) : Ctrl :=
  { c with sqs := c.sqs.set p (some sq) }

def setCq (c : Ctrl) (q : Nat) (cq : CQueue) : Ctrl :=
  { c with cqs := c.cqs.set q (some cq) }

/-- The queue at an index that passes `nvme_check_sqid`. -/
def nvmeCheckSqid (c : Ctrl) (sqid : Nat) : Option Nat :=
  if sqid ≤ g.numIoQueues then c.sq sqid else none

/-- `nvme_check_cqid`. -/
def nvmeCheckCqid (c : Ctrl) (cqid : Nat) : Option Nat :=
  if cqid ≤ g.numIoQueues then c.cq cqid else none

-- =============================================================== rings

/-- The address of an entry. `nvme_discontig` takes the index for the size
of a page and divides by the number of entries in that; the first index
is zero, and no second one is ever reached. -/
def entryAddr (contig : Bool) : Except Fault Unit :=
  if contig then .ok () else .error .divideByZero

/-- What a ring holds: an entry that was aborted, or a command with its
identifier. -/
inductive Entry (α : Type) where
  | aborted
  | cmd (cid : Nat) (a : α)

/-- `nvme_inc_sq_head`. -/
def nvmeIncSqHead (sq : SQueue) : SQueue :=
  { sq with head := (sq.head + 1) % sq.size }

/-- `nvme_update_sq_tail`, with what the shadow doorbell holds. -/
def nvmeUpdateSqTail (sq : SQueue) (tail : Nat) : SQueue :=
  if sq.dbAddr ≠ 0 then { sq with tail := tail } else sq

-- ============================================================ requests

/-- The first of the free requests is taken, for the command `cid`. -/
def takeReq (c : Ctrl) (p : Nat) (sq : SQueue) (slot : Nat)
    (free : List Nat) (cid : Nat) : Ctrl :=
  setSq c p
    { sq with
      cids := sq.cids.set slot cid
      reqList := free
      outReqList := sq.outReqList ++ [slot] }

/-- `nvme_enqueue_req_completion` with `n->cq[sq->cqid]`, and the same for
`_admin` and for `_io`, which puts the request at some place among those
that wait and not at the end. -/
def nvmeEnqueueReqCompletion (c : Ctrl) (r : Req) (pos : Option Nat) :
    Except Fault Ctrl := do
  let sq ← getSq c r.1
  let (q, cq) ← cqOf c sq.cqid
  if cq.cqid = sq.cqid then
    let len := cq.reqList.length
    let c := setSq c r.1 { sq with outReqList := sq.outReqList.erase r.2 }
    .ok (setCq c q
      { cq with reqList := cq.reqList.insertIdx (min (pos.getD len) len) r })
  else .error .assertion

/-- The callback of a request, `nvme_misc_cb`. -/
def nvmeMiscCb (c : Ctrl) (r : Req) : Except Fault Ctrl :=
  nvmeEnqueueReqCompletion { c with aios := c.aios.erase r } r none

/-- The callback of a discard, `nvme_discard_cb`: it writes to the request,
which is not on a list for it. -/
def nvmeDiscardCb (c : Ctrl) (r : Req) : Except Fault Ctrl := do
  let _ ← getSq c r.1
  .ok { c with discards := c.discards.erase r }

/-- `nvme_post_cqe` for the request with which the list starts. -/
def nvmePostCqe (c : Ctrl) (q : Nat) (cq : CQueue) (r : Req)
    (rest : List Req) : Except Fault Ctrl := do
  entryAddr cq.contig
  let sq ← getSq c r.1
  .ok (setCq (setSq c r.1 { sq with reqList := sq.reqList ++ [r.2] }) q
    { cq with reqList := rest })

/-- `nvme_cq_full`, which divides by the size; what it answers is left to
the number of completions that can be posted. -/
def nvmeCqFull (cq : CQueue) : Except Fault Unit :=
  if cq.size = 0 then .error .divideByZero else .ok ()

/-- `nvme_post_cqes_admin`, `nvme_post_cqes_io` and `nvme_post_cqes`, if
`count` completions can be posted. -/
def nvmePostCqes (q : Nat) : Nat → Ctrl → Except Fault Ctrl
  | 0, c => do
      let cq ← getCq c q
      if cq.reqList = [] then .ok c
      else do
        nvmeCqFull cq
        .ok c
  | count + 1, c => do
      let cq ← getCq c q
      match cq.reqList with
      | [] => .ok c
      | r :: rest => do
          nvmeCqFull cq
          nvmePostCqes q count (← nvmePostCqe c q cq r rest)

/-- What `nvme_io_cmd` makes of a command: it is completed, and its
completion put somewhere among those that wait, while discards of it may
still be under way; or a callback will come; or its code fails. -/
inductive Verdict where
  | complete (pos discards : Nat)
  | noComplete
  | crash

/-- What is done with a command that was fetched. -/
def nvmeIoCmd (c : Ctrl) (r : Req) : Verdict → Except Fault Ctrl
  | .complete pos discards =>
      nvmeEnqueueReqCompletion
        { c with discards := List.replicate discards r ++ c.discards } r
        (some pos)
  | .noComplete => .ok { c with aios := r :: c.aios }
  | .crash => .error .command

/-- The next entry is fetched; there is a request for it. -/
def fetch (c : Ctrl) (p : Nat) (sq : SQueue) (slot : Nat)
    (free : List Nat) : Entry Verdict → Except Fault Ctrl
  | .aborted => do
      entryAddr sq.contig
      .ok (setSq c p (nvmeIncSqHead sq))
  | .cmd cid v => do
      entryAddr sq.contig
      nvmeIoCmd (takeReq c p (nvmeIncSqHead sq) slot free cid) (p, slot) v

/-- The loop of `nvme_process_sq_io`, for at most as many entries as are
given. -/
def sqIoLoop (p : Nat) : List (Entry Verdict) → Ctrl → Except Fault Ctrl
  | [], c => .ok c
  | e :: es, c => do
      let sq ← getSq c p
      if sq.head = sq.tail then .ok c
      else
        match sq.reqList with
        | [] => .ok c
        | slot :: free => sqIoLoop p es (← fetch c p sq slot free e)

/-- `nvme_process_sq_io`. -/
def nvmeProcessSqIo (c : Ctrl) (p tail : Nat)
    (found : List (Entry Verdict)) : Except Fault Ctrl := do
  let sq ← getSq c p
  sqIoLoop p found (setSq c p (nvmeUpdateSqTail sq tail))

-- ============================================================ creation

/-- `1 << (2 + stride)`. -/
def dbbufEntrySz : Nat := 2 ^ (2 + g.dbStride)

/-- The doorbells of the queues, as addresses of 64 bits. -/
def sqDoorbell (dbs sqid : Nat) : Nat :=
  (dbs + 2 * sqid * dbbufEntrySz g) % 2 ^ 64

def cqDoorbell (dbs cqid : Nat) : Nat :=
  (dbs + (2 * cqid + 1) * dbbufEntrySz g) % 2 ^ 64

/-- Shadow doorbells are set up. -/
def Ctrl.Shadowed (c : Ctrl) : Prop := c.dbsAddr ≠ 0 ∧ c.eisAddr ≠ 0

instance (c : Ctrl) : Decidable c.Shadowed := by
  unfold Ctrl.Shadowed
  infer_instance

/-- The object that `nvme_init_sq` fills in. -/
def newSq (c : Ctrl) (sqid cqid size : Nat) (contig : Bool) : SQueue where
  sqid := sqid
  cqid := cqid
  size := size
  contig := contig
  head := 0
  tail := 0
  cids := .fill 0
  dbAddr := if sqid ≠ 0 ∧ c.Shadowed then sqDoorbell g c.dbsAddr sqid else 0
  reqList := List.range size
  outReqList := []

/-- The object that `nvme_init_cq` fills in. -/
def newCq (c : Ctrl) (cqid size : Nat) (contig : Bool) : CQueue where
  cqid := cqid
  size := size
  contig := contig
  dbAddr := if cqid ≠ 0 ∧ c.Shadowed then cqDoorbell g c.dbsAddr cqid else 0
  sqList := []
  reqList := []

/-- `nvme_init_sq` for an object at `p`. -/
def nvmeInitSq (c : Ctrl) (p sqid cqid size : Nat) (contig : Bool) :
    Except Fault Ctrl :=
  match c.cq cqid with
  | none => .error .assertion
  | some q => do
      let cq ← getCq c q
      let c := setSq c p (newSq g c sqid cqid size contig)
      let c := setCq c q { cq with sqList := cq.sqList ++ [p] }
      if sqid ≤ g.numIoQueues then
        .ok { c with sq := c.sq.set sqid (some p) }
      else .error .outOfBounds

/-- `nvme_init_cq` for an object at `q`. -/
def nvmeInitCq (c : Ctrl) (q cqid size : Nat) (contig : Bool) :
    Except Fault Ctrl :=
  let c := setCq c q (newCq g c cqid size contig)
  if cqid ≤ g.numIoQueues then .ok { c with cq := c.cq.set cqid (some q) }
  else .error .outOfBounds

/-- The next address. -/
def malloc (c : Ctrl) : Nat × Ctrl := (c.fresh, { c with fresh := c.fresh + 1 })

/-- `size`, a `uint16_t`: the largest `qsize` wraps to zero. -/
def queueSize (qsize : Nat) : Nat := (qsize + 1) % 2 ^ 16

/-- `nvme_setup_discontig` gives a list: all its pages are there, and it is
not empty. -/
def setupDiscontig (listed : Bool) (size : Nat) : Bool :=
  listed ∧ size ≠ 0

/-- `NvmeCreateSq` and `NvmeCreateCq`; `contig` is the flag `PC` and `ien`
the flag `IEN`. That the pages of a list exist for a queue that is not
contiguous is `listed`, that the interrupt can be set up `routed`. -/
structure CreateSq where
  sqid : Nat
  cqid : Nat
  qsize : Nat
  prp1 : Nat
  contig : Bool
  listed : Bool

structure CreateCq where
  cqid : Nat
  vector : Nat
  qsize : Nat
  prp1 : Nat
  contig : Bool
  listed : Bool
  ien : Bool
  routed : Bool

/-- The checks of `nvme_create_sq`; `none` if all are passed. The index of
a queue is only rejected if there is a queue. -/
def CreateSq.check (r : CreateSq) (c : Ctrl) : Option Status :=
  if r.cqid = 0 ∨ nvmeCheckCqid g c r.cqid = none then some .invalidCqid
  else if r.sqid = 0 ∨ nvmeCheckSqid g c r.sqid ≠ none then some .invalidQid
  else if r.qsize = 0 ∨ g.mqes < r.qsize then some .maxQsizeExceeded
  else if r.prp1 = 0 ∨ r.prp1 % g.pageSize ≠ 0 then some .invalidField
  else if !r.contig ∧ g.cqr then some .invalidField
  else if !r.contig ∧ !setupDiscontig r.listed (queueSize r.qsize) then
    some .invalidField
  else none

/-- `nvme_create_sq`. -/
def nvmeCreateSq (c : Ctrl) (r : CreateSq) : Except Fault (Status × Ctrl) :=
  match r.check g c with
  | some st => .ok (st, c)
  | none =>
      let (p, c) := malloc c
      (nvmeInitSq g c p r.sqid r.cqid (queueSize r.qsize) r.contig).map
        (.success, ·)

/-- The checks of `nvme_create_cq`, which do not ask for the alignment. -/
def CreateCq.check (r : CreateCq) (c : Ctrl) : Option Status :=
  if r.cqid = 0 ∨ nvmeCheckCqid g c r.cqid ≠ none then some .invalidCqid
  else if r.qsize = 0 ∨ g.mqes < r.qsize then some .maxQsizeExceeded
  else if r.prp1 = 0 then some .invalidField
  else if g.numIoQueues < r.vector then some .invalidIrqVector
  else if !r.contig ∧ g.cqr then some .invalidField
  else none

/-- `nvme_create_cq`. The entry that it looks at once more is that of an
index which `nvme_check_cqid` did not find. It returns `-1` if there is no
interrupt, and that is `NVME_NO_COMPLETE`, `none`; the queue stays. -/
def nvmeCreateCq (c : Ctrl) (r : CreateCq) :
    Except Fault (Option Status × Ctrl) :=
  match r.check g c with
  | some st => .ok (some st, c)
  | none =>
      if g.numIoQueues < r.cqid then .error .outOfBounds
      else if !r.contig ∧ !setupDiscontig r.listed (queueSize r.qsize) then
        .ok (some .invalidField, c)
      else
        let (q, c) := malloc c
        (nvmeInitCq g c q r.cqid (queueSize r.qsize) r.contig).map
          (if r.ien ∧ !r.routed then none else some .success, ·)

-- ============================================================ deletion

/-- `nvme_free_sq`. -/
def nvmeFreeSq (c : Ctrl) (p : Nat) : Except Fault Ctrl := do
  let sq ← getSq c p
  .ok { c with sq := c.sq.set sq.sqid none, sqs := c.sqs.set p none }

/-- `nvme_free_cq`. -/
def nvmeFreeCq (c : Ctrl) (q : Nat) : Except Fault Ctrl := do
  let cq ← getCq c q
  .ok { c with cq := c.cq.set cq.cqid none, cqs := c.cqs.set q none }

/-- `blk_aio_cancel` for the requests that are out: their callbacks run. -/
def cancelAll (p : Nat) : List Nat → Ctrl → Except Fault Ctrl
  | [], c => .ok c
  | slot :: slots, c => do
      if (p, slot) ∈ c.aios then cancelAll p slots (← nvmeMiscCb c (p, slot))
      else cancelAll p slots c

/-- The completion queue is left: `count` completions can be posted, and
those of the queue that are still on the list are taken off it. -/
def leaveCq (c : Ctrl) (p cqid count : Nat) : Except Fault Ctrl :=
  match nvmeCheckCqid g c cqid with
  | none => .ok c
  | some q => do
      let cq ← getCq c q
      let c ← nvmePostCqes q count
        (setCq c q { cq with sqList := cq.sqList.erase p })
      let cq ← getCq c q
      .ok (setCq c q { cq with reqList := cq.reqList.filter (·.1 ≠ p) })

/-- `nvme_del_sq`. -/
def nvmeDelSq (c : Ctrl) (qid count : Nat) : Except Fault (Status × Ctrl) :=
  if qid = 0 then .ok (.invalidQid, c)
  else
    match nvmeCheckSqid g c qid with
    | none => .ok (.invalidQid, c)
    | some p => do
        let sq ← getSq c p
        let c ← cancelAll p sq.outReqList c
        let c ← leaveCq g c p sq.cqid count
        let c ← nvmeFreeSq c p
        .ok (.success, c)

/-- `nvme_del_cq`. -/
def nvmeDelCq (c : Ctrl) (qid : Nat) : Except Fault (Status × Ctrl) :=
  if qid = 0 then .ok (.invalidCqid, c)
  else
    match nvmeCheckCqid g c qid with
    | none => .ok (.invalidCqid, c)
    | some q => do
        let cq ← getCq c q
        if cq.sqList ≠ [] then .ok (.invalidQueueDel, c)
        else (nvmeFreeCq c q).map (.success, ·)

-- ============================================================ commands

/-- `nvme_set_db_memory` for the queues with index `i`. -/
def setSqDb (c : Ctrl) (i : Nat) : Except Fault Ctrl :=
  match c.sq i with
  | none => .ok c
  | some p => do
      let sq ← getSq c p
      .ok (setSq c p { sq with dbAddr := sqDoorbell g c.dbsAddr i })

def setCqDb (c : Ctrl) (i : Nat) : Except Fault Ctrl :=
  match c.cq i with
  | none => .ok c
  | some q => do
      let cq ← getCq c q
      .ok (setCq c q { cq with dbAddr := cqDoorbell g c.dbsAddr i })

def setDb (c : Ctrl) (i : Nat) : Except Fault Ctrl := do
  setCqDb g (← setSqDb g c i) i

/-- `nvme_set_db_memory`. -/
def nvmeSetDbMemory (c : Ctrl) (dbs eis : Nat) :
    Except Fault (Status × Ctrl) :=
  if dbs = 0 ∨ dbs % g.pageSize ≠ 0 ∨ eis = 0 ∨ eis % g.pageSize ≠ 0 then
    .ok (.invalidField, c)
  else
    let c := { c with dbsAddr := dbs, eisAddr := eis }
    (((List.range g.numIoQueues).map (· + 1)).foldlM (setDb g) c).map
      (.success, ·)

/-- The request that is out for the command `cid`, and has a callback to
cancel. -/
def SQueue.findOut (sq : SQueue) (aios : List Req) (p cid : Nat) :
    Option Nat :=
  if sq.sqid = 0 then none
  else sq.outReqList.find? fun slot => (p, slot) ∈ aios ∧ sq.cids slot = cid

/-- The loop of `nvme_abort_req`, from the `i`th entry on, with the
identifiers that the ring holds. After `k` more entries it has been at
every one of them. -/
def SQueue.search (sq : SQueue) (ring : Nat → Nat) (cid : Nat) :
    Nat → Nat → Except Fault Bool
  | 0, _ => .error .endless
  | k + 1, i =>
      if (sq.head + i) % sq.size = sq.tail then .ok false
      else do
        entryAddr sq.contig
        if ring ((sq.head + i) % sq.size) = cid then .ok true
        else sq.search ring cid k (i + 1)

/-- Whether the ring has an entry of `cid` that was not fetched. -/
def SQueue.findEntry (sq : SQueue) (ring : Nat → Nat) (cid : Nat) :
    Except Fault Bool :=
  if sq.size = 0 then .error .divideByZero else sq.search ring cid sq.size 0

/-- `nvme_abort_req`: a request that is out is cancelled, and for an entry
that was not fetched a free request is completed. -/
def nvmeAbortReq (c : Ctrl) (sqid cid : Nat) (ring : Nat → Nat) :
    Except Fault Ctrl :=
  match nvmeCheckSqid g c sqid with
  | none => .ok c
  | some p => do
      let sq ← getSq c p
      match sq.findOut c.aios p cid with
      | some slot => nvmeMiscCb c (p, slot)
      | none =>
          if ← sq.findEntry ring cid then
            match sq.reqList with
            | [] => .error .nullPointer
            | slot :: free =>
                nvmeEnqueueReqCompletion (takeReq c p sq slot free cid)
                  (p, slot) none
          else .ok c

/-- The admin commands, as far as they have to do with the queues. -/
inductive Cmd where
  | createSq (r : CreateSq)
  | createCq (r : CreateCq)
  | delSq (qid count : Nat)
  | delCq (qid : Nat)
  | asyncReq
  | abort (sqid cid : Nat) (ring : Nat → Nat)
  | setDbMemory (dbs eis : Nat)
  /-- Another command: its status, or that its code fails. -/
  | other (st : Option Status)

/-- `timer_mod` of `aer_timer`. -/
def modAerTimer (c : Ctrl) : Except Fault Ctrl :=
  if c.aerTimer then .ok c else .error .nullPointer

/-- `nvme_enqueue_event`; what the events are is left out. -/
def nvmeEnqueueEvent (c : Ctrl) : Except Fault Ctrl :=
  if c.csts.ready then modAerTimer c else .ok c

/-- `nvme_async_req`; `none` is `NVME_NO_COMPLETE`. The limit is counted
from zero, and compared as if it was not. -/
def nvmeAsyncReq (c : Ctrl) (slot : Nat) :
    Except Fault (Option Status × Ctrl) :=
  if g.aerl + 1 < c.aers.length then .ok (some .aerLimitExceeded, c)
  else if c.aers.length < g.aerl + 1 then
    (modAerTimer { c with aers := slot :: c.aers }).map (none, ·)
  else .error .outOfBounds

/-- A command that is completed. -/
def completed (x : Except Fault (Status × Ctrl)) :
    Except Fault (Option Status × Ctrl) :=
  x.map fun r => (some r.1, r.2)

/-- A request that is not completed, though nothing else will do it. -/
def stranded (slot : Nat) (x : Except Fault (Option Status × Ctrl)) :
    Except Fault (Option Status × Ctrl) :=
  x.map fun r =>
    (r.1, if r.1.isSome then r.2 else { r.2 with lost := slot :: r.2.lost })

/-- `nvme_admin_cmd` with the request at `slot`. -/
def nvmeAdminCmd (c : Ctrl) (slot : Nat) :
    Cmd → Except Fault (Option Status × Ctrl)
  | .createSq r => completed (nvmeCreateSq g c r)
  | .createCq r => stranded slot (nvmeCreateCq g c r)
  | .delSq qid count => completed (nvmeDelSq g c qid count)
  | .delCq qid => completed (nvmeDelCq g c qid)
  | .asyncReq => nvmeAsyncReq g c slot
  | .abort sqid cid ring =>
      completed ((nvmeAbortReq g c sqid cid ring).map (.success, ·))
  | .setDbMemory dbs eis => completed (nvmeSetDbMemory g c dbs eis)
  | .other (some st) => .ok (some st, c)
  | .other none => .error .command

/-- A command of the admin queue, and the completion of its request. -/
def runAdmin (c : Ctrl) (slot : Nat) (cmd : Cmd) : Except Fault Ctrl := do
  let (st, c) ← nvmeAdminCmd g c slot cmd
  if st.isSome then nvmeEnqueueReqCompletion c (0, slot) none else .ok c

/-- The loop of `nvme_process_sq_admin` for one entry. The admin queue has
no shadow doorbell. -/
def nvmeProcessSqAdmin (c : Ctrl) (e : Entry Cmd) : Except Fault Ctrl :=
  match c.sqs 0 with
  | none => .ok c
  | some sq =>
      if sq.head = sq.tail then .ok c
      else
        match sq.reqList with
        | [] => .ok c
        | slot :: free => do
            entryAddr sq.contig
            let sq := nvmeIncSqHead sq
            match e with
            | .aborted => .ok (setSq c 0 sq)
            | .cmd cid cmd =>
                runAdmin g (takeReq c 0 sq slot free cid) slot cmd

/-- `nvme_aer_process_cb` for one event. -/
def nvmeAerProcessCb (c : Ctrl) : Except Fault Ctrl :=
  match c.aers with
  | [] => .ok c
  | slot :: aers =>
      nvmeEnqueueReqCompletion { c with aers := aers } (0, slot) none

-- =============================================================== resets

def freeSqAt (c : Ctrl) (i : Nat) : Except Fault Ctrl :=
  match c.sq i with
  | none => .ok c
  | some p => nvmeFreeSq c p

def freeCqAt (c : Ctrl) (i : Nat) : Except Fault Ctrl :=
  match c.cq i with
  | none => .ok c
  | some q => nvmeFreeCq c q

/-- `nvme_clear_ctrl`. No request is cancelled, and the doorbells are
kept. -/
def nvmeClearCtrl (c : Ctrl) : Except Fault Ctrl := do
  let c ← (List.range (g.numIoQueues + 1)).foldlM freeSqAt c
  let c ← (List.range (g.numIoQueues + 1)).foldlM freeCqAt c
  .ok { c with
    cc := ⟨false, false⟩, aers := [], lost := [], aerTimer := false }

/-- The registers that `nvme_start_ctrl` reads: whether they pass its
checks, and the sizes in `AQA`. -/
structure Regs where
  fits : Bool
  asqs : Nat
  acqs : Nat

/-- `nvme_start_ctrl`. -/
def nvmeStartCtrl (c : Ctrl) (regs : Regs) : Except Fault (Bool × Ctrl) :=
  if (c.cq 0).isSome ∨ (c.sq 0).isSome ∨ !regs.fits then .ok (false, c)
  else do
    let c ← nvmeInitCq g c 0 0 (regs.acqs + 1) true
    let c ← nvmeInitSq g c 0 0 0 (regs.asqs + 1) true
    .ok (true, { c with aerTimer := true })

/-- `nvme_write_bar` for `CC.EN`. -/
def writeEn (c : Ctrl) (data : Cc) (regs : Regs) : Except Fault Ctrl :=
  if data.en ∧ !c.cc.en then do
    let (ok, c) ← nvmeStartCtrl g { c with cc := data } regs
    .ok { c with csts := ⟨ok, !ok, false⟩ }
  else if !data.en ∧ c.cc.en then do
    let c ← nvmeClearCtrl g c
    .ok { c with csts := { c.csts with ready := false } }
  else .ok c

/-- `nvme_write_bar` for `CC.SHN`. -/
def writeShn (c : Ctrl) (data : Cc) : Except Fault Ctrl :=
  if data.shn ∧ !c.cc.shn then do
    let c ← nvmeClearCtrl g c
    .ok { c with cc := data, csts := { c.csts with shutdown := true } }
  else if !data.shn ∧ c.cc.shn then
    .ok { c with cc := data, csts := { c.csts with shutdown := false } }
  else .ok c

/-- `nvme_write_bar` at offset `0x14`. -/
def nvmeWriteCc (c : Ctrl) (data : Cc) (regs : Regs) :
    Except Fault Ctrl := do
  writeShn g (← writeEn g c data regs) data

-- =========================================================== doorbells

/-- A write to the doorbells: at no doorbell, or the head of a completion
queue or the tail of a submission queue. -/
inductive Doorbell where
  | misaligned
  | cq (qid val : Nat)
  | sq (qid val : Nat)

/-- `nvme_process_db`. The heads of the completion queues are left out. -/
def nvmeProcessDb (c : Ctrl) : Doorbell → Except Fault Ctrl
  | .misaligned => nvmeEnqueueEvent c
  | .cq qid val =>
      match nvmeCheckCqid g c qid with
      | none => nvmeEnqueueEvent c
      | some q => do
          let cq ← getCq c q
          if cq.size ≤ val then nvmeEnqueueEvent c else .ok c
  | .sq qid val =>
      match nvmeCheckSqid g c qid with
      | none => nvmeEnqueueEvent c
      | some p => do
          let sq ← getSq c p
          if sq.size ≤ val then nvmeEnqueueEvent c
          else if sq.dbAddr = 0 then .ok (setSq c p { sq with tail := val })
          else .ok c

-- ================================================================ steps

/-- What happens, in any order. A timer is deleted with its queue. -/
inductive Step where
  | writeCc (data : Cc) (regs : Regs)
  | doorbell (d : Doorbell)
  | admin (e : Entry Cmd)
  | pollSq (p tail : Nat) (found : List (Entry Verdict))
  | pollCq (q count : Nat)
  | miscCb (r : Req)
  | discardCb (r : Req)
  | aer

/-- What each step runs. -/
def step (c : Ctrl) : Step → Except Fault Ctrl
  | .writeCc data regs => nvmeWriteCc g c data regs
  | .doorbell d => nvmeProcessDb g c d
  | .admin e => nvmeProcessSqAdmin g c e
  | .pollSq p tail found =>
      if (c.sqs p).isSome ∧ p ≠ 0 then nvmeProcessSqIo c p tail found
      else .ok c
  | .pollCq q count =>
      if (c.cqs q).isSome then nvmePostCqes q count c else .ok c
  | .miscCb r => if r ∈ c.aios then nvmeMiscCb c r else .ok c
  | .discardCb r => if r ∈ c.discards then nvmeDiscardCb c r else .ok c
  | .aer => nvmeAerProcessCb c

/-- All steps in order. -/
def run (c : Ctrl) (steps : List Step) : Except Fault Ctrl :=
  runs (step g) c steps

end

/-- The controller before it is enabled for the first time. -/
def Ctrl.new : Ctrl where
  cc := ⟨false, false⟩
  csts := ⟨false, false, false⟩
  sq := .fill none
  cq := .fill none
  sqs := .fill none
  cqs := .fill none
  fresh := 1
  aios := []
  discards := []
  aers := []
  lost := []
  aerTimer := false
  dbsAddr := 0
  eisAddr := 0

end FemuRemap.Lifecycle
