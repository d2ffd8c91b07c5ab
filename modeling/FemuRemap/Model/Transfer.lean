/-
The data of a command (`nvme.c`): where `nvme_map_prp` finds it in the
memory of the guest, and what `nvme_heap_storage_rw` and `nvme_remap`
copy.

# Memory

`Memory` is the memory of the guest and the controller memory buffer, if
there is one. An access goes to the buffer if its first byte lies there.
The memory of the guest is unbounded here; that the mapped parts of it
exist is left out, and so is `dma_memory_map` mapping less than it is
asked for. `heap_storage` ends after `blkLength` bytes.

# The list of entries

`prp_list` is an array on the stack. An entry that was never read from
memory is `none`, and using it is a fault. `len` is a `uint32_t`.
-/
import FemuRemap.Lib.Runs
import FemuRemap.Lib.Spans
import FemuRemap.Model.Nvme

namespace FemuRemap.Transfer

open Lib

/-- The page size of `CC.MPS`, as it fits into the `uint16_t` of the
controller. -/
structure Paging where
  pageBits : Nat
  pageBits_ge : 12 ≤ pageBits
  pageBits_le : pageBits ≤ 15

/-- `n->page_size`. -/
def Paging.pageSize (p : Paging) : Nat := 2 ^ p.pageBits

/-- `n->max_prp_ents`. -/
def Paging.maxPrpEnts (p : Paging) : Nat := p.pageSize / 8

/-- The controller memory buffer at its address. -/
structure Cmb where
  base : Nat
  size : Nat
  buf : Bytes

/-- The guest's memory and, if there is one, the controller's buffer. -/
structure Memory where
  guest : Bytes
  cmb : Option Cmb

/-- The buffer, if the address lies in it. -/
def Memory.cmbAt (m : Memory) (addr : Nat) : Option Cmb :=
  m.cmb.filter fun c => c.base ≤ addr && addr < c.base + c.size

/-- `nvme_addr_read`. -/
def nvmeAddrRead (m : Memory) (addr size : Nat) : List UInt8 :=
  match m.cmbAt addr with
  | some c => load c.buf (addr - c.base) size
  | none => load m.guest addr size

/-- What the source does not survive. -/
inductive Fault where
  /-- An entry of `prp_list` is used that was not read. -/
  | uninitialised
  /-- The loop does not end. -/
  | endless
  /-- `assert((nlb << data_shift) == req->qsg.size)`. -/
  | assertion
  /-- A copy that is not within `heap_storage`. -/
  | outside
  /-- A `memcpy` between places that overlap. -/
  | overlap
deriving DecidableEq, Repr

-- ============================================================== entries

section Map

variable (p : Paging) (m : Memory)

/-- A page, as the entries of a list have to be. -/
def Paging.Page (addr : Nat) : Prop := addr ≠ 0 ∧ addr % p.pageSize = 0

instance (addr : Nat) : Decidable (p.Page addr) := by
  unfold Paging.Page
  infer_instance

/-- How many entries are left for `len` bytes, in 32 bits. -/
def nents (len : Nat) : Nat := u32 (len + p.pageSize - 1 : Nat) / p.pageSize

/-- `prp_list` once a list was read from `addr` for `len` bytes. -/
def readList (addr len : Nat) (list : Nat → Option Nat) : Nat → Option Nat :=
  let count := min p.maxPrpEnts (nents p len)
  let bytes := nvmeAddrRead m addr (8 * count)
  fun i =>
    if i < count then some (leWord ((bytes.drop (8 * i)).take 8)) else list i

/-- The entry that one iteration uses, with the list and the index: the
last entry of a full list leads to the next list, if more than a page is
left. -/
def nextEnt (list : Nat → Option Nat) (i len : Nat) :
    Except Fault (Option (Nat × (Nat → Option Nat) × Nat)) :=
  match list i with
  | none => .error .uninitialised
  | some ent =>
      if i = p.maxPrpEnts - 1 ∧ p.pageSize < len then
        if p.Page ent then
          let list := readList p m ent len list
          match list 0 with
          | none => .error .uninitialised
          | some ent => .ok (some (ent, list, 0))
        else .ok none
      else .ok (some (ent, list, i))

/-- The loop of `nvme_map_prp` over the entries of a list. -/
def mapList : Nat → (Nat → Option Nat) → Nat → Nat →
    Except Fault (Option (List Span))
  | 0, _, _, _ => .error .endless
  | fuel + 1, list, i, len =>
      if len = 0 then .ok (some [])
      else
        match nextEnt p m list i len with
        | .error f => .error f
        | .ok none => .ok none
        | .ok (some (ent, list, i)) =>
            if p.Page ent then
              let transLen := min len p.pageSize
              (mapList fuel list (i + 1) (len - transLen)).map
                (·.map (⟨ent, transLen⟩ :: ·))
            else .ok none

/-- What is mapped, and whether it is taken for a part of the controller
memory buffer. -/
structure Mapping where
  cmb : Bool
  segs : List Span
deriving DecidableEq, Repr

/-- `nvme_map_prp`; `none` is `NVME_INVALID_FIELD`. Whether the buffer is
meant is decided by the first entry. -/
def nvmeMapPrp (prp1 prp2 len : Nat) : Except Fault (Option Mapping) :=
  let transLen := min len (p.pageSize - prp1 % p.pageSize)
  if prp1 = 0 then .ok none
  else
    let cmb := (m.cmbAt prp1).isSome
    let first : Span := ⟨prp1, transLen⟩
    let len := len - transLen
    if len = 0 then .ok (some ⟨cmb, [first]⟩)
    else if prp2 = 0 then .ok none
    else if p.pageSize < len then
      (mapList p m (len + 1) (readList p m prp2 len fun _ => none) 0 len).map
        (·.map fun segs => ⟨cmb, first :: segs⟩)
    else if prp2 % p.pageSize ≠ 0 then .ok none
    else .ok (some ⟨cmb, [first, ⟨prp2, if cmb then transLen else len⟩]⟩)

end Map

-- ============================================================== copies

/-- The memory and `heap_storage`. -/
structure Disk where
  mem : Memory
  heap : Bytes

/-- The loop that copies a write to the heap. -/
def copyIn (guest : Bytes) : List Span → Nat → Bytes → Bytes
  | [], _, heap => heap
  | s :: ss, off, heap =>
      copyIn guest ss (off + s.len) (store heap off (load guest s.base s.len))

/-- The loop that copies a read to the guest. -/
def copyOut (heap : Bytes) : List Span → Nat → Bytes → Bytes
  | [], _, guest => guest
  | s :: ss, off, guest =>
      copyOut heap ss (off + s.len) (store guest s.base (load heap off s.len))

/-- `qemu_iovec_discard_back`, on the parts from the last one on. -/
def discardBack : Nat → List Span → List Span
  | _, [] => []
  | bytes, s :: ss =>
      if bytes < s.len then { s with len := s.len - bytes } :: ss
      else discardBack (bytes - s.len) ss

/-- What is left of a list that is no multiple of a sector: its whole
sectors are discarded, and the remainder is kept. -/
def alignedSegs (segs : List Span) : List Span :=
  if total segs % 512 = 0 then segs
  else (discardBack (total segs / 512 * 512) segs.reverse).reverse

/-- `nvme_heap_storage_rw`. -/
def nvmeHeapStorageRw (isWrite : Bool) (segs : List Span) (off : Nat)
    (d : Disk) : Disk :=
  let segs := alignedSegs segs
  if isWrite then { d with heap := copyIn d.mem.guest segs off d.heap }
  else
    { d with
      mem := { d.mem with guest := copyOut d.heap segs off d.mem.guest } }

/-- A read or write command with its entries. `stale` is the `qsg.size`
that the request has from its last use. -/
structure RwCmd extends NvmeRwCmd where
  prp1 : Nat
  prp2 : Nat
  stale : Nat

/-- Whether a copy of `len` bytes at `off` is within `heap_storage`. -/
def inHeap (n : NvmeCtrl) (off len : Nat) : Prop :=
  len = 0 ∨ off + len ≤ n.blkLength

instance (n : NvmeCtrl) (off len : Nat) : Decidable (inHeap n off len) := by
  unfold inHeap
  infer_instance

/-- `nvme_rw`, without what the FTL does; `p` is the page size of `n` with
its bounds. The list that a mapping of the controller memory buffer leaves
is empty, and its size the old one. -/
def nvmeRw (n : NvmeCtrl) (p : Paging) (t : RwCmd) (d : Disk) :
    Except Fault (NvmeStatus × Disk) :=
  if n.sos = 0 then .ok (.enomem, d)
  else
    match nvmeRwCheckReq n t.toNvmeRwCmd 0 with
    | .success =>
        match nvmeMapPrp p d.mem t.prp1 t.prp2 (u32 (t.dataSize n)) with
        | .error f => .error f
        | .ok none => .ok (.invalidField, d)
        | .ok (some mapping) =>
            let segs := if mapping.cmb then [] else mapping.segs
            let size := if mapping.cmb then t.stale else total mapping.segs
            if u32 (t.blocks * 2 ^ n.ds : Nat) ≠ size then .error .assertion
            else if inHeap n (t.dataOffset n) (total (alignedSegs segs)) then
              .ok (.success,
                nvmeHeapStorageRw t.isWrite segs (t.dataOffset n) d)
            else .error .outside
    | err => .ok (err, d)

/-- The `memcpy` of `nvme_remap`, which checks nothing. -/
def nvmeRemapCopy (n : NvmeCtrl) (r : NvmeRemap) (d : Disk) :
    Except Fault Disk :=
  let dst := pageOffset n r.dstLpn
  let src := pageOffset n r.srcLpn
  let len := r.copyLen n
  if inHeap n dst len ∧ inHeap n src len then
    if len = 0 ∨ dst + len ≤ src ∨ src + len ≤ dst then
      .ok { d with heap := heapCopy dst src len d.heap }
    else .error .overlap
  else .error .outside

/-- What happens to the data, in any order; in between the guest may do
anything to its memory. -/
inductive Step where
  | rw (t : RwCmd)
  | remap (r : NvmeRemap)
  | guest (mem : Bytes)

/-- What each step runs. -/
def step (n : NvmeCtrl) (p : Paging) (d : Disk) : Step → Except Fault Disk
  | .rw t => (nvmeRw n p t d).map (·.2)
  | .remap r => nvmeRemapCopy n r d
  | .guest mem => .ok { d with mem := { d.mem with guest := mem } }

/-- All steps in order. -/
def run (n : NvmeCtrl) (p : Paging) (d : Disk) (steps : List Step) :
    Except Fault Disk :=
  runs (step n p) d steps

end FemuRemap.Transfer
