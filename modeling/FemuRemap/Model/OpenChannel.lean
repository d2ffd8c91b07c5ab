/-
The sector metadata of OpenChannel mode (`femu-oc.c`).

`meta_buf` holds one record for each sector: `int_meta_size` bytes of
state and then `sos` bytes of the host's metadata. The state of a sector
is read and written at the record's offset, `ppa * meta_len` as a
`uint32_t`; `femu_oc_meta_write` and `femu_oc_meta_read` use no offset.

`femuOcRw` is `femu_oc_rw` as far as the buffer goes: the checks before
the loop with `nvme_rw_check_req`, the assertions of the emulated timing,
the loop over the sectors and the replies. The times themselves and the
data transfer that follows the loop are left out.
-/
import FemuRemap.Lib.Bytes
import FemuRemap.Model.Nvme

namespace FemuRemap.OpenChannel

open Lib

/-- The masks and offsets of `ppaf` that `femu_oc_rw` asserts about. -/
structure Ppaf where
  secMask : Nat
  chMask : Nat
  chOffset : Nat
  lunMask : Nat
  lunOffset : Nat

/-- The parameters that `femu_oc_rw` and the metadata depend on. -/
structure Params where
  sos : Nat
  totalSecs : Nat
  maxSecPerRq : Nat
  secPerPl : Nat
  secSize : Nat
  numCh : Nat
  numLun : Nat
  dom : Nat
  ppaf : Ppaf
  /-- `ds` and `ms` of the format in use. -/
  dataShift : Nat
  ms : Nat
  limits : CheckLimits

/-- `PI_BYTES_NVME`: the `ms` that `nvme_init_namespaces` gives to every
format. -/
def piBytesNvme : Nat := 24

/-- `FEMU_OC_MetaState`. -/
inductive MetaState where
  | unknown
  | written
  | erased
deriving DecidableEq

def MetaState.code : MetaState → Nat
  | .unknown => 0x0
  | .written => 0xAC
  | .erased => 0xDC

/-- `int_meta_size`. -/
def intMetaSize : Nat := 4

def Params.metaLen (c : Params) : Nat := intMetaSize + c.sos

/-- `meta_tbytes`, an `int`. -/
def Params.metaTbytes (c : Params) : Int :=
  i32 (u32 (c.metaLen * c.totalSecs))

/-- `femu_oc_hybrid_dev`. -/
def Params.hybridDev (c : Params) : Bool := c.dom = 1

/-- What ends a command outside the C language or at an assertion. -/
inductive Fault where
  | assertFailed
  | divideByZero
  | outOfBuffer
  | outOfLayout
  | uninitialisedState
  | noSector
deriving DecidableEq

/-- Programs over `meta_buf`. -/
abbrev Oc : Type → Type := Prog Bytes Empty Fault

/-- `femu_oc_init_meta`: every byte is `FEMU_OC_SEC_UNKNOWN`. -/
def initMeta : Bytes := fun _ => UInt8.ofNat MetaState.unknown.code

variable (c : Params)

/-- `memcpy` into `meta_buf`. -/
def copyTo (o : Nat) (bs : List UInt8) : Oc Unit :=
  if (o + bs.length : Nat) ≤ c.metaTbytes then
    Prog.modify fun m => store m o bs
  else Prog.fault .outOfBuffer

/-- `memcpy` out of `meta_buf`. -/
def copyFrom (o n : Nat) : Oc (List UInt8) := do
  let m ← Prog.get
  if (o + n : Nat) ≤ c.metaTbytes then return load m o n
  else Prog.fault .outOfBuffer

/-- `femu_oc_meta_write`. -/
def metaWrite (bs : List UInt8) : Oc Unit := copyTo c 0 bs

/-- `femu_oc_meta_read`. -/
def metaRead : Oc (List UInt8) := copyFrom c 0 c.sos

/-- The record of a sector, as the `uint32_t oft`. -/
def recordOft (ppa : Nat) : Nat := u32 (ppa * c.metaLen)

/-- `femu_oc_meta_state_get`. -/
def metaStateGet (ppa : Nat) : Oc Nat := do
  let oft := recordOft c ppa
  if u32 (oft + c.metaLen) ≤ u32 c.metaTbytes then
    let bs ← copyFrom c oft intMetaSize
    return leWord bs
  else Prog.fault .assertFailed

/-- `femu_oc_meta_state_set_written`. -/
def metaStateSetWritten (ppa : Nat) : Oc Unit :=
  copyTo c (recordOft c ppa) (leBytes intMetaSize MetaState.written.code)

/-- `femu_oc_meta_index`: entry `i` of the host's metadata. -/
def metaIndex (msl : Bytes) (i : Nat) : List UInt8 :=
  load msl (i * c.sos) c.sos

-- ======================================================== femu_oc_rw

/-- A read or write command, with the host memory it points to. -/
structure RwCmd where
  isWrite : Bool
  nlb : UInt16
  control : UInt16
  spba : Nat
  ppaList : Nat → Nat
  metadata : Option Bytes

/-- `nlb` as a `uint16_t`: the largest count wraps to zero. -/
def RwCmd.blocks (r : RwCmd) : Nat := (r.nlb.toNat + 1) % 2 ^ 16

/-- `data_size`. -/
def dataSize (r : RwCmd) : Nat := r.blocks * 2 ^ c.dataShift

/-- `meta_size`: the product of two `int`s. -/
def metaSize (r : RwCmd) : Nat := u64 (i32 (r.blocks * c.ms : Nat))

/-- `n_pages`. -/
def nPages (r : RwCmd) : Nat := u32 (dataSize c r / c.secSize : Nat)

/-- `psl`: one sector is given directly, several by a list. -/
def psl (r : RwCmd) : List Nat :=
  (List.range (nPages c r)).map fun i =>
    if nPages c r > 1 then r.ppaList i else r.spba

/-- `msl`: zeroed, and for a write filled from the host. -/
def msl (r : RwCmd) : Bytes := fun i =>
  match r.metadata with
  | some host => if r.isWrite ∧ i < nPages c r * c.sos then host i else 0
  | none => 0

/-- The values `femu_oc_rw` returns. -/
inductive Status where
  | success
  | enomem
  | invalidField
  | einval
  | checkFailed (err : NvmeStatus)
  | notWritten
deriving DecidableEq

/-- The reply: the status (`notWritten` is `0x42ff`), the arguments of
`bitmap_set` for the sectors not read, `msl` at the end, and what is
copied to the host. -/
structure Reply where
  status : Status
  unread : Option (Nat × Nat)
  msl : Bytes
  toHost : Option (List UInt8)

def reject (s : Status) : Oc Reply := return ⟨s, none, fun _ => 0, none⟩

/-- The write of one sector and of its metadata `bs`. -/
def writeSector (r : RwCmd) (ppa : Nat) (bs : List UInt8) : Oc Unit := do
  if c.hybridDev then pure () else metaStateSetWritten c ppa
  if r.metadata.isSome then metaWrite c bs else pure ()

/-- The state of a sector to be read. In hybrid mode it is not read, and
the variable has no value. -/
def stateToRead (ppa : Nat) : Oc Nat :=
  if c.hybridDev then Prog.fault .uninitialisedState
  else metaStateGet c ppa

/-- The loop over the sectors, from sector `i` on. -/
def rwLoop (r : RwCmd) : List Nat → Nat → Bytes → Oc Reply
  | [], _, buf => return ⟨.success, none, buf, none⟩
  | ppa :: ppas, i, buf =>
      if r.isWrite then do
        writeSector c r ppa (metaIndex c buf i)
        rwLoop r ppas (i + 1) buf
      else do
        let state ← stateToRead c ppa
        if state ≠ MetaState.written.code then
          return ⟨.notWritten, some (i, nPages c r - i), buf,
            if r.metadata.isSome then some (load buf 0 (nPages c r * c.sos))
            else none⟩
        else if r.metadata.isSome then do
          let bs ← metaRead c
          rwLoop r ppas (i + 1) (store buf (i * c.sos) bs)
        else rwLoop r ppas (i + 1) buf

/-- The page of a sector: the address without the bits of the sector. -/
def pageAddr (ppa : Nat) : Nat := ppa &&& (2 ^ 64 - 1 - c.ppaf.secMask)

/-- `secs_layout`: the runs of sectors of one page, each with its first
sector and its length. -/
def secsLayout : List Nat → List (Nat × Nat)
  | [] => []
  | ppa :: ppas =>
      match secsLayout ppas with
      | [] => [(ppa, 1)]
      | (next, k) :: runs =>
          if pageAddr c ppa = pageAddr c next then (ppa, k + 1) :: runs
          else (ppa, 1) :: (next, k) :: runs

/-- `ch < c->num_ch && lun < c->num_lun`. -/
def ChipExists (ppa : Nat) : Prop :=
  i32 ((ppa &&& c.ppaf.chMask) >>> c.ppaf.chOffset : Nat) < c.numCh
    ∧ i32 ((ppa &&& c.ppaf.lunMask) >>> c.ppaf.lunOffset : Nat) < c.numLun

instance (ppa : Nat) : Decidable (ChipExists c ppa) := by
  unfold ChipExists
  infer_instance

/-- What the emulated timing asserts: of a write only the first sector is
looked at, of a read each page. -/
def Timed (r : RwCmd) : Prop :=
  if r.isWrite then ∀ ppa ∈ (psl c r).head?, ChipExists c ppa
  else ∀ run ∈ secsLayout c (psl c r), ChipExists c run.1 ∧ run.2 ≤ 8

instance (r : RwCmd) : Decidable (Timed c r) := by
  unfold Timed
  infer_instance

/-- The timing, as far as it can end the command; `secs_layout` has 64
entries. -/
def emulate (r : RwCmd) : Oc Unit :=
  if ¬ r.isWrite ∧ 64 < (secsLayout c (psl c r)).length then
    Prog.fault .outOfLayout
  else if Timed c r then pure ()
  else Prog.fault .assertFailed

/-- `FEMU_OC_PBA_UNMAPPED`, which is also `-1` as a `uint64_t`. -/
def pbaUnmapped : Nat := 2 ^ 64 - 1

/-- `nvme_rw_check_req` as `femu_oc_rw` calls it. -/
def checkSectors (r : RwCmd) (sppa eppa : Nat) : NvmeStatus :=
  checkReq c.limits ⟨r.isWrite, sppa, eppa, r.control.toNat, dataSize c r,
    metaSize c r⟩

/-- `femu_oc_rw`. Without room for metadata `g_malloc0` gives `NULL`, and
without a sector `psl[n_pages - 1]` is outside `psl`. -/
def femuOcRw (r : RwCmd) : Oc Reply :=
  if c.secSize = 0 then Prog.fault .divideByZero
  else if c.sos * c.maxSecPerRq = 0 then reject .enomem
  else if nPages c r > c.maxSecPerRq then reject .invalidField
  else if r.isWrite ∧ c.dom = 0 ∧ nPages c r < c.secPerPl then
    reject .invalidField
  else if r.spba = pbaUnmapped then reject .invalidField
  else
    match (psl c r).head?, (psl c r).getLast? with
    | some sppa, some eppa =>
        if sppa = pbaUnmapped ∨ eppa = pbaUnmapped then reject .einval
        else if checkSectors c r sppa eppa ≠ .success then
          reject (.checkFailed (checkSectors c r sppa eppa))
        else do
          emulate c r
          rwLoop c r (psl c r) 0 (msl c r)
    | _, _ => Prog.fault .noSector

end FemuRemap.OpenChannel
