/-
`ssd_io_manager.c`: the timestamps of the chips, channels and NVRAM
superblocks, and the latency that a page access returns to the host.

The rest of the model reports the accesses of a run (`Io`) and leaves out
time. Here they are charged: every call reads the clock (`now`), moves
`chip_next_avail_time` and `chnl_next_avail_time`, and returns
`cur_need_to_emulate_tt`, which an erase and `UPDATE_FLASH_TS` do not
have.

Block and page numbers only enter `reg`, which nothing reads, and are
left out.

# Range

Clock readings and timestamps are `int64_t`s of nanoseconds, and integers
here. The two agree while the latest clock reading and all the time
charged add up to less than `2 ^ 63` (`runCalls_fits`), which is 292 years;
what is shown of the timestamps is about runs within that range.
-/
import FemuRemap.Lib.Serial
import FemuRemap.Model.State

namespace FemuRemap.Timing

open Lib

/-- The delays of `struct ssdconf`, none of them negative, and the number
of chips and channels. -/
structure NandConf where
  flashNb : Nat
  channelNb : Nat
  regWriteDelay : Nat
  cellProgramDelay : Nat
  regReadDelay : Nat
  cellReadDelay : Nat
  blockEraseDelay : Nat

/-- The timestamps of `struct ssdstate`. -/
structure FlashTs where
  chipNextAvailTime : Table Int
  chnlNextAvailTime : Table Int
  nvramNextAvailTime : Table Int

/-- `SSD_IO_INIT` leaves the cleared arrays as they are. -/
def initFlashTs : FlashTs := ⟨.fill 0, .fill 0, .fill 0⟩

variable (n : NandConf)

/-- The channel of a chip. -/
def numChannel (flash : Nat) : Nat := flash % n.channelNb

/-- `SSD_PAGE_WRITE`. -/
def ssdPageWrite (now : Int) (flash : Nat) (ts : FlashTs) :
    FlashTs × Int :=
  let ch := numChannel n flash
  let chnl := ts.chnlNextAvailTime ch
  let start := if now < chnl then chnl else now
  let chnl := start + n.regWriteDelay
  let chip := ts.chipNextAvailTime flash
  let chip :=
    if chnl < chip then chip + n.cellProgramDelay
    else chnl + n.cellProgramDelay
  ({ ts with
      chnlNextAvailTime := ts.chnlNextAvailTime.set ch chnl
      chipNextAvailTime := ts.chipNextAvailTime.set flash chip },
    chip - now)

/-- `SSD_PAGE_PARTIAL_WRITE`: what is left of it charges the chip of the
old page, as a write. -/
def ssdPagePartialWrite (now : Int) (oldFlash _newFlash : Nat)
    (ts : FlashTs) : FlashTs × Int :=
  ssdPageWrite n now oldFlash ts

/-- `SSD_PAGE_READ`. -/
def ssdPageRead (now : Int) (flash : Nat) (ts : FlashTs) :
    FlashTs × Int :=
  let ch := numChannel n flash
  let chip := ts.chipNextAvailTime flash
  let start :=
    if now < chip then chip + n.cellReadDelay else now + n.cellReadDelay
  let chnl := ts.chnlNextAvailTime ch
  let chnl :=
    if start < chnl then chnl + n.regReadDelay else start + n.regReadDelay
  ({ ts with
      chnlNextAvailTime := ts.chnlNextAvailTime.set ch chnl
      chipNextAvailTime := ts.chipNextAvailTime.set flash chnl },
    chnl - now)

/-- `SSD_BLOCK_ERASE`. -/
def ssdBlockErase (now : Int) (flash : Nat) (ts : FlashTs) : FlashTs :=
  let chnl := ts.chnlNextAvailTime (numChannel n flash)
  let ss := if now < chnl then chnl else now
  let chip := ts.chipNextAvailTime flash
  let chip :=
    if ss < chip then chip + n.blockEraseDelay else ss + n.blockEraseDelay
  { ts with chipNextAvailTime := ts.chipNextAvailTime.set flash chip }

/-- One round of the loop of `UPDATE_FLASH_TS`. -/
def delayChip (now : Int) (needTime : Nat) (chips : Table Int) (i : Nat) :
    Table Int :=
  chips.set i
    (if chips i < now then now + needTime else chips i + needTime)

/-- `UPDATE_FLASH_TS`. Its only caller passes a positive time. -/
def updateFlashTs (now : Int) (needTime : Nat) (ts : FlashTs) : FlashTs :=
  { ts with
    chipNextAvailTime := (List.range n.flashNb).foldl
      (delayChip now needTime) ts.chipNextAvailTime }

/-- `UPDATE_NVRAM_TS`. -/
def updateNvramTs (now : Int) (block : Nat) (needTime : Int) (ts : FlashTs) :
    FlashTs × Int :=
  let avail := ts.nvramNextAvailTime block
  let avail := if now < avail then avail + needTime else now + needTime
  ({ ts with nvramNextAvailTime := ts.nvramNextAvailTime.set block avail },
    avail - now)

-- ============================================================ runs

/-- The calls that charge chips and channels. -/
inductive FlashOp where
  | pageRead (flash : Nat)
  | pageWrite (flash : Nat)
  | pagePartialWrite (oldFlash newFlash : Nat)
  | blockErase (flash : Nat)
  | updateFlashTs (needTime : Nat)
deriving DecidableEq

/-- A call and the clock it reads. -/
structure Call where
  now : Int
  op : FlashOp

/-- What a call does to the timestamps. -/
def Call.serve (ts : FlashTs) (call : Call) : FlashTs :=
  match call.op with
  | .pageRead flash => (ssdPageRead n call.now flash ts).1
  | .pageWrite flash => (ssdPageWrite n call.now flash ts).1
  | .pagePartialWrite old new =>
      (ssdPagePartialWrite n call.now old new ts).1
  | .blockErase flash => ssdBlockErase n call.now flash ts
  | .updateFlashTs needTime => updateFlashTs n call.now needTime ts

/-- A run of calls. -/
def runCalls (calls : List Call) (ts : FlashTs) : FlashTs :=
  calls.foldl (Call.serve n) ts

/-- The calls that an access of the translation layer makes. The
collector delays every chip by what the NVRAM asks for. -/
def ioCalls (now : Int) (ts : FlashTs) : Io → List Call
  | .pageRead flash _ _ => [⟨now, .pageRead flash⟩]
  | .pageWrite flash _ _ => [⟨now, .pageWrite flash⟩]
  | .partialWrite old _ _ new _ _ => [⟨now, .pagePartialWrite old new⟩]
  | .blockErase flash _ => [⟨now, .blockErase flash⟩]
  | .nvram _ _ => []
  | .nvramGc _ _ => []
  | .gcNvramRead block needTime =>
      let blocking := (updateNvramTs now block needTime ts).2
      if 0 < blocking then [⟨now, .updateFlashTs blocking.toNat⟩] else []

/-- The timestamps after an access of the translation layer. -/
def chargeIo (now : Int) (ts : FlashTs) (io : Io) : FlashTs :=
  let ts' := runCalls n (ioCalls now ts io) ts
  match io with
  | .nvram block needTime | .gcNvramRead block needTime =>
      { ts' with nvramNextAvailTime :=
          (updateNvramTs now block needTime ts).1.nvramNextAvailTime }
  | .nvramGc block needTime =>
      { ts' with nvramNextAvailTime :=
          (updateNvramTs now block needTime ts).1.nvramNextAvailTime }
  | _ => ts'

end FemuRemap.Timing
