/-
The controller (`nvme.c`): what `nvme_rw`, `nvme_dsm` and `nvme_remap`
decode, check, hand to the FTL and copy.

# Widths

The fields of a command are the fixed-width integers of the wire. Sums,
shifts and products of them are computed in the widths of the source:
`u32` and `u64` stand where the source stores an unsigned result, `i64`
where an unsigned one becomes a signed sector number or offset.

# Which entries a command indexes

The model of the FTL takes natural numbers, so it cannot go below entry
zero. The page cutting loop is therefore written once more at the widths
of the source (`cutSectors`), and `rwLpns`, `dsmLpns` and `remapLpns`
list the entries of `mapping_table` that a command reads or writes. Which
way a page goes depends on the tables; `Branch` names the ways, and a
command is given one for each of its pages.

# The heap

`heap_storage` is a table of bytes. `ByteRange` is what a copy touches.
The transfer of `nvme_heap_storage_rw` is the whole request: the source
asserts that the scatter list has its size.
-/
import FemuRemap.Model.Ftl

namespace FemuRemap

open Lib

-- =================================================== the controller

/-- `femu_mode`; `oc` says that a white box is an open channel
device. -/
inductive FemuMode where
  | whitebox (oc : Bool)
  | blackbox
  | nossd
deriving DecidableEq

/-- The controller with its one namespace, which starts with the block
device: the fields of `NvmeCtrl`, `NvmeIdNs` and `ssdparams` that the
commands read. -/
structure NvmeCtrl where
  conf : Conf
  femuMode : FemuMode
  /-- `id_ns.nsze`, in blocks. -/
  nsze : Nat
  /-- `lbaf[lba_index].ds`. -/
  ds : Nat
  mdts : Nat
  /-- `n->page_size`, of the host's memory. -/
  pageSize : Nat
  dps : Nat
  uncorrectable : Nat → Bool
  /-- `ssdparams.PAGE_SIZE`. -/
  flashPageSize : Nat
  /-- `blk_getlength`: the bytes of the block device, and of
  `heap_storage`. -/
  blkLength : Nat
  /-- Every format is set up with `DATA_BITS_NVME`, 12; the shifts allowed
  here are those of blocks from one sector on. -/
  ds_ge : 9 ≤ ds
  ds_le : ds ≤ 24
  /-- The size of the namespace is an `int64_t`. -/
  bytes_lt : nsze * 2 ^ ds < 2 ^ 63
  /-- The namespace has at most `SECTOR_NB` sectors. -/
  sectors_le : nsze * 2 ^ (ds - 9) ≤ conf.sectorNb
  /-- `SECTORS_PER_PAGE` is an `int`, and the bytes of the device an
  `int64_t`. -/
  spp_pos : 0 < conf.sectorsPerPage
  spp_lt : conf.sectorsPerPage < 2 ^ 31
  entries_pos : 0 < conf.pageMappingEntryNb
  sectorNb_lt : conf.sectorNb < 2 ^ 54

/-- `ssdparams.sos`: `INIT_SSD_CONFIG` sets it to `PI_BYTES_NVME`, and is
called for a black box only. Elsewhere `nvme_rw` asks `g_malloc0` for
nothing, takes the `NULL` that it gets for a lack of memory, and returns
`-ENOMEM` before it does anything. -/
def NvmeCtrl.sos (n : NvmeCtrl) : Nat :=
  if n.femuMode = .blackbox then 24 else 0

/-- `struct t10_pi_tuple`: the record of one page, in the host's byte
order. -/
structure T10PiTuple where
  flag : UInt32
  hLpn : UInt64

/-- `NvmeRwCmd` with the opcode decoded, the records at `mptr`, and the
content of the written pages as ghost data. -/
structure NvmeRwCmd where
  isWrite : Bool
  control : UInt16
  slba : UInt64
  /-- Counted from zero. -/
  nlb : UInt16
  mptr : UInt64
  records : Nat → T10PiTuple
  data : Nat → Option Nat

structure NvmeDsmRange where
  nlb : UInt32
  slba : UInt64

structure NvmeRemap where
  srcLpn : UInt64
  dstLpn : UInt64
  len : UInt32
  ope : UInt32

-- ======================================================== nvme_rw

section Rw

variable (n : NvmeCtrl) (r : NvmeRwCmd)

/-- `nlb` as `nvme_rw` decodes it. -/
def NvmeRwCmd.blocks : Nat := r.nlb.toNat + 1

/-- `elba = slba + nlb`, in 64 bits. -/
def NvmeRwCmd.elba : Nat := u64 (r.slba.toNat + r.blocks : Nat)

/-- `data_size = (uint64_t)nlb << data_shift`. -/
def NvmeRwCmd.dataSize : Nat := u64 (r.blocks * 2 ^ n.ds : Nat)

/-- `data_offset = slba << data_shift`. -/
def NvmeRwCmd.dataOffset : Nat := u64 (r.slba.toNat * 2 ^ n.ds : Nat)

/-- `n_pages = data_size / 4096`. -/
def NvmeRwCmd.nPages : Nat := u32 (r.dataSize n / 4096 : Nat)

/-- What a check answers. -/
inductive NvmeStatus where
  | success
  /-- `-ENOMEM`, which is no status of the interface. -/
  | enomem
  | lbaRange
  | invalidField
  | unrecoveredRead
deriving DecidableEq

end Rw

/-- What `nvme_rw_check_req` reads of the controller and the namespace. -/
structure CheckLimits where
  nsze : Nat
  mdts : Nat
  pageSize : Nat
  dps : Nat
  uncorrectable : Nat → Bool
  /-- A white box that is an open channel device. -/
  ocDev : Bool

/-- The other arguments of `nvme_rw_check_req`. -/
structure CheckArgs where
  isWrite : Bool
  slba : Nat
  elba : Nat
  control : Nat
  dataSize : Nat
  metaSize : Nat

/-- `find_next_bit(uncorrectable, elba, slba) < elba`. -/
def CheckLimits.anyUncorrectable (n : CheckLimits) (slba elba : Nat) :
    Bool :=
  (List.range' slba (elba - slba)).any n.uncorrectable

/-- `nvme_rw_check_req`. -/
def checkReq (n : CheckLimits) (a : CheckArgs) : NvmeStatus :=
  if n.nsze < a.elba then .lbaRange
  else if n.mdts ≠ 0 ∧ n.pageSize * 2 ^ n.mdts < a.dataSize then
    .invalidField
  else if a.metaSize ≠ 0 then .invalidField
  else if a.control.testBit 13 ∧ n.dps % 8 = 0 then
    if n.ocDev then .success else .invalidField
  else if ¬ a.isWrite ∧ n.anyUncorrectable a.slba a.elba then
    .unrecoveredRead
  else .success

section Rw

variable (n : NvmeCtrl) (r : NvmeRwCmd)

def NvmeCtrl.limits : CheckLimits where
  nsze := n.nsze
  mdts := n.mdts
  pageSize := n.pageSize
  dps := n.dps
  uncorrectable := n.uncorrectable
  ocDev := n.femuMode = .whitebox true

/-- `nvme_rw_check_req` as `nvme_rw` calls it. -/
def nvmeRwCheckReq (metaSize : Nat) : NvmeStatus :=
  checkReq n.limits ⟨r.isWrite, r.slba.toNat, r.elba, r.control.toNat,
    r.dataSize n, metaSize⟩

/-- The filter of `ftl_meta_write`. -/
def MetaKept (c : Conf) (t : T10PiTuple) : Prop :=
  (t.flag.toNat = walWrite ∨ t.flag.toNat = walWrite + 1
      ∨ t.flag.toNat = cpWrite ∨ t.flag.toNat = fsGcWrite)
    ∧ 0 ≤ i64 t.hLpn.toNat ∧ i64 t.hLpn.toNat ≤ c.pageMappingEntryNb

instance (c : Conf) (t : T10PiTuple) : Decidable (MetaKept c t) := by
  unfold MetaKept
  infer_instance

/-- `ftl_meta_write`: the record of a page, or a plain write. -/
def ftlMetaWrite (c : Conf) (t : T10PiTuple) (data : Option Nat) :
    LpnInfo :=
  if MetaKept c t then ⟨t.flag.toNat, i64 t.hLpn.toNat, data⟩
  else ⟨0, -1, data⟩

/-- `lpns_info` after the metadata loop. It was zeroed before, and
without a metadata pointer it stays so. -/
def NvmeRwCmd.lpnsInfo (i : Nat) : LpnInfo :=
  if r.mptr ≠ 0 ∧ i < r.nPages n then
    ftlMetaWrite n.conf (r.records i) (r.data i)
  else ⟨0, 0, r.data i⟩

/-- `request1`. -/
def NvmeRwCmd.request : RequestMeta where
  length := u32 (r.dataSize n / 512 : Nat)
  sectorNb := r.dataOffset n / 512
  lpnsInfo := r.lpnsInfo n

end Rw

-- ================================================ the cutting loop

/-- The page cutting loop of `_FTL_READ`, `_FTL_WRITE` and
`femu_discard_process` at the widths of the source: `lba` is an
`int64_t`, the other three are `unsigned int`, and division rounds
towards zero. -/
def cutSectors (spp : Nat) : Nat → Int → Nat → Nat → List Int
  | 0, _, _, _ => []
  | fuel + 1, lba, remain, leftSkip =>
      if remain = 0 then []
      else
        let rightSkip :=
          if (spp : Int) - leftSkip < remain then 0
          else u32 ((spp : Int) - leftSkip - remain)
        let sects := u32 ((spp : Int) - leftSkip - rightSkip)
        lba.tdiv spp
          :: cutSectors spp fuel (lba + sects) (u32 ((remain : Int) - sects)) 0

/-- The lpns of the sectors `sectorNb` to `sectorNb + length`. -/
def sectorLpns (c : Conf) (fuel : Nat) (sectorNb : Int) (length : Nat) :
    List Int :=
  cutSectors c.sectorsPerPage fuel sectorNb length
    (u32 (sectorNb.tmod c.sectorsPerPage))

-- =============================================== entries indexed

/-- The way one page of a write or of a remap goes. -/
inductive Branch where
  /-- `USE_REMAP` grants the page and its source is mapped. -/
  | remapped
  /-- It grants the page, but `INCREASE_INVERSE_MAPPING` refuses the
  source. -/
  | skipped
  /-- The page is programmed. -/
  | rewritten
  /-- `GET_NEW_PAGE` fails. -/
  | noPage
deriving DecidableEq

/-- The loop of `_FTL_WRITE` from page `i` on. A hint above zero is
looked up first, and a page that is not to be had ends the request. -/
def writeLpns (info : Nat → LpnInfo) (way : Nat → Branch) :
    List Int → Nat → List Int
  | [], _ => []
  | lpn :: rest, i =>
      let hint := if 0 < (info i).hLpn then [(info i).hLpn] else []
      if way i = .noPage then hint
      else hint ++ lpn :: writeLpns info way rest (i + 1)

/-- The entries of `lpns_info` that the same loop reads. -/
def writeRecords (way : Nat → Branch) : List Int → Nat → List Nat
  | [], _ => []
  | _ :: rest, i =>
      i :: if way i = .noPage then [] else writeRecords way rest (i + 1)

/-- The records that the metadata loop of a write reads from its buffer
and writes to `lpns_info`. -/
def metaRecords (n : NvmeCtrl) (r : NvmeRwCmd) : List Nat :=
  if n.sos ≠ 0 ∧ r.isWrite ∧ r.mptr ≠ 0 then List.range (r.nPages n)
  else []

/-- `_FTL_READ` and `_FTL_WRITE` refuse sectors beyond `SECTOR_NB`. -/
def NvmeRwCmd.exceeds (n : NvmeCtrl) (r : NvmeRwCmd) : Prop :=
  n.conf.sectorNb < (r.request n).sectorNb + (r.request n).length

instance (n : NvmeCtrl) (r : NvmeRwCmd) : Decidable (r.exceeds n) := by
  unfold NvmeRwCmd.exceeds
  infer_instance

/-- Entries that `nvme_rw` indexes, through `SSD_WRITE` or
`SSD_READ`. -/
def rwLpns (n : NvmeCtrl) (fuel : Nat) (way : Nat → Branch)
    (r : NvmeRwCmd) : List Int :=
  if n.femuMode = .blackbox ∧ ¬ r.exceeds n then
    let lpns := sectorLpns n.conf fuel (r.request n).sectorNb
      (r.request n).length
    if r.isWrite then writeLpns (r.request n).lpnsInfo way lpns 0 else lpns
  else []

/-- The records of `lpns_info` that `_FTL_WRITE` reads. -/
def ftlRecords (n : NvmeCtrl) (fuel : Nat) (way : Nat → Branch)
    (r : NvmeRwCmd) : List Nat :=
  if r.isWrite ∧ n.femuMode = .blackbox ∧ ¬ r.exceeds n then
    writeRecords way (sectorLpns n.conf fuel (r.request n).sectorNb
      (r.request n).length) 0
  else []

section Dsm

variable (n : NvmeCtrl) (g : NvmeDsmRange)

/-- `nlb << data_shift`, as the `uint32_t` that `femu_discard_process`
takes. -/
def NvmeDsmRange.length : Nat := u32 (g.nlb.toNat * 2 ^ (n.ds - 9) : Nat)

/-- `slba << data_shift`, as the `int64_t` that it takes. -/
def NvmeDsmRange.sectorNb : Int :=
  i64 (u64 (g.slba.toNat * 2 ^ (n.ds - 9) : Nat))

/-- The range checks of `nvme_dsm`, and in a black box that of
`femu_discard_process`. -/
def NvmeDsmRange.admitted : Prop :=
  u64 (g.slba.toNat + g.nlb.toNat : Nat) ≤ n.nsze
    ∧ (n.femuMode = .blackbox →
      g.sectorNb n + g.length n ≤ n.conf.sectorNb)

instance : Decidable (g.admitted n) := by
  unfold NvmeDsmRange.admitted
  infer_instance

/-- `blk_check_byte_request` of a discard, whose `int` count becomes a
`size_t`. -/
def blkCheckByteRequest (offset count : Int) : Prop :=
  0 ≤ count ∧ 0 ≤ offset ∧ offset ≤ n.blkLength
    ∧ count ≤ n.blkLength - offset

instance (offset count : Int) :
    Decidable (blkCheckByteRequest n offset count) := by
  unfold blkCheckByteRequest
  infer_instance

/-- `nvme_dsm` goes on to the FTL: `blk_aio_pdiscard`, which gets the
sectors for bytes, does not refuse, and neither does `bitmap_clear`
assert, to which `slba` is a `long`. -/
def NvmeDsmRange.discards : Prop :=
  blkCheckByteRequest n (g.sectorNb n) (i32 (g.length n))
    ∧ 0 ≤ i64 g.slba.toNat

instance : Decidable (g.discards n) := by
  unfold NvmeDsmRange.discards
  infer_instance

/-- Entries that `nvme_dsm` indexes for an admitted range, through
`femu_discard_process`. -/
def dsmLpns (fuel : Nat) : List Int :=
  if n.femuMode = .blackbox ∧ g.discards n then
    sectorLpns n.conf fuel (g.sectorNb n) (g.length n)
  else []

end Dsm

/-- Entries that the fallback of `SSD_REMAP` indexes, through
`_FTL_WRITE` and its check. Its one record has no hint. -/
def fallbackLpns (c : Conf) (fuel dLpn : Nat) : List Int :=
  let sectorNb := i64 (u64 (dLpn * c.sectorsPerPage : Nat))
  if (c.sectorNb : Int) < sectorNb + u32 c.sectorsPerPage then []
  else sectorLpns c fuel sectorNb (u32 c.sectorsPerPage)

/-- Entries that one page of `SSD_REMAP` indexes. -/
def remapPageLpns (c : Conf) (fuel : Nat) (ope : RemapOpe) (way : Branch)
    (sLpn dLpn : Nat) : List Int :=
  let source : List Int := if ope = .move then [(sLpn : Int)] else []
  (sLpn : Int) :: match way with
    | .remapped => (dLpn : Int) :: source
    | .skipped => []
    | .rewritten => fallbackLpns c fuel dLpn ++ source
    | .noPage => source

/-- The loop of `SSD_REMAP` from page `i` on; `s_lpn` and `d_lpn` are
`uint64_t`. -/
def remapLoopLpns (c : Conf) (fuel : Nat) (ope : RemapOpe)
    (way : Nat → Branch) : Nat → Nat → Nat → Nat → List Int
  | 0, _, _, _ => []
  | remain + 1, i, sLpn, dLpn =>
      remapPageLpns c fuel ope (way i) sLpn dLpn
        ++ remapLoopLpns c fuel ope way remain (i + 1)
          (u64 ((sLpn : Int) + 1)) (u64 ((dLpn : Int) + 1))

/-- Entries that `nvme_remap` indexes, through `SSD_REMAP`. -/
def remapLpns (n : NvmeCtrl) (fuel : Nat) (way : Nat → Branch)
    (m : NvmeRemap) : List Int :=
  match n.femuMode, remapOpe m.ope.toNat with
  | .blackbox, some ope =>
      remapLoopLpns n.conf fuel ope way
        (if m.len.toNat < 2 ^ 31 then m.len.toNat else 0) 0
        m.srcLpn.toNat m.dstLpn.toNat
  | _, _ => []

-- ========================================================== the heap

/-- Bytes that a copy reads or writes, from an offset on. -/
structure ByteRange where
  off : Int
  len : Nat
deriving DecidableEq

/-- The range is empty or within the first `total` bytes. -/
def ByteRange.Inside (total : Nat) (b : ByteRange) : Prop :=
  b.len = 0 ∨ 0 ≤ b.off ∧ b.off + b.len ≤ total

instance (total : Nat) (b : ByteRange) : Decidable (b.Inside total) := by
  unfold ByteRange.Inside
  infer_instance

/-- `nvme_heap_storage_rw`. -/
def rwCopies (n : NvmeCtrl) (r : NvmeRwCmd) : List ByteRange :=
  if n.sos = 0 then [] else [⟨i64 (r.dataOffset n), r.dataSize n⟩]

/-- `len * PAGE_SIZE`: a product of a `uint32_t` and an `int`. -/
def NvmeRemap.copyLen (n : NvmeCtrl) (m : NvmeRemap) : Nat :=
  u32 (m.len.toNat * n.flashPageSize : Nat)

/-- `lpn * PAGE_SIZE`: a product of a `uint64_t` and an `int`. -/
def pageOffset (n : NvmeCtrl) (lpn : UInt64) : Nat :=
  u64 (lpn.toNat * n.flashPageSize : Nat)

/-- The `memcpy` of `nvme_remap`: what it writes and what it reads. -/
def remapCopies (n : NvmeCtrl) (m : NvmeRemap) : List ByteRange :=
  [⟨pageOffset n m.dstLpn, m.copyLen n⟩,
    ⟨pageOffset n m.srcLpn, m.copyLen n⟩]

/-- `memcpy(hs + dst, hs + src, len)`. -/
def heapCopy (dst src len : Nat) (hs : Nat → UInt8) (b : Nat) : UInt8 :=
  if dst ≤ b ∧ b < dst + len then hs (src + (b - dst)) else hs b

/-- The FTL and the data of the device. -/
structure Device where
  ssd : Ssd
  heapStorage : Nat → UInt8

/-- `nvme_remap`: the FTL first, then the copy, whatever the operation
is. -/
def nvmeRemap (n : NvmeCtrl) (fuel : Nat) (m : NvmeRemap) :
    Prog Device Event Fault NvmeStatus := fun d =>
  let o : Out Ssd Event Fault Ret :=
    if n.femuMode = .blackbox then
      ssdRemap n.conf fuel m.srcLpn.toNat m.dstLpn.toNat m.len.toNat
        m.ope.toNat d.ssd
    else ⟨.ok .success, d.ssd, []⟩
  match o.res with
  | .error e => ⟨.error e, { d with ssd := o.st }, o.log⟩
  | .ok _ =>
      ⟨.ok .success,
        ⟨o.st, heapCopy (pageOffset n m.dstLpn) (pageOffset n m.srcLpn)
          (m.copyLen n) d.heapStorage⟩, o.log⟩

-- ====================================================== commands

/-- The commands, as they arrive. -/
inductive NvmeCmd where
  | rw (r : NvmeRwCmd)
  | dsm (g : NvmeDsmRange)
  | remap (m : NvmeRemap)

/-- No range check rejects the command. `nvme_remap` has none. -/
def NvmeCmd.Admitted (n : NvmeCtrl) : NvmeCmd → Prop
  | .rw r => nvmeRwCheckReq n r 0 = .success
      ∧ (n.femuMode = .blackbox → ¬ r.exceeds n)
  | .dsm g => g.admitted n
  | .remap _ => True

/-- Some content of the tables makes the command index entry `lpn` of
`mapping_table`. -/
def NvmeCmd.Indexes (n : NvmeCtrl) (lpn : Int) : NvmeCmd → Prop
  | .rw r => ∃ fuel way, lpn ∈ rwLpns n fuel way r
  | .dsm g => ∃ fuel, lpn ∈ dsmLpns n g fuel
  | .remap m => ∃ fuel way, lpn ∈ remapLpns n fuel way m

/-- What the command copies to or from `heap_storage`. -/
def NvmeCmd.copies (n : NvmeCtrl) : NvmeCmd → List ByteRange
  | .rw r => rwCopies n r
  | .dsm _ => []
  | .remap m => remapCopies n m

end FemuRemap
