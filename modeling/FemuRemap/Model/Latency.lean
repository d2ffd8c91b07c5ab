/-
The latency of a request: `FTL_WRITE` and `FTL_READ` (`ftl.c`) over the
timestamps of `ssd_io_manager.c`.

`Timed` puts the timestamps and the clock over the translation layer.
Every access that a program of `Ftl` reports is charged, each with a
reading of the clock of its own; the pages of a request keep, besides,
the time that their access returns. `_FTL_WRITE` computes the slowest of
them in an `int64_t`, and `FTL_WRITE` returns it through an `int`.

The averages and extremes of the delays, which are only printed, and
`gc_slot`, which only counts blocked requests, are left out.

The clock and the timestamps are integers, within the range that
`Model.Timing` states: an `int64_t` holds the backlog of a chip, a channel
or the NVRAM. The `int` of `FTL_WRITE` need not hold it, and is modelled
(`i32`).
-/
import FemuRemap.Lib.Layer
import FemuRemap.Model.Ftl
import FemuRemap.Model.Timing

namespace FemuRemap.Timed

open Lib
open Timing (FlashTs NandConf)

/-- The state with the timestamps; `clock` gives the readings to
come. -/
structure State where
  ssd : Ssd
  ts : FlashTs
  clock : Nat → Int

/-- An event of the translation layer, or the access of a page of a
request: the clock and the timestamps it found, and the time it
returned. -/
inductive Event where
  | ftl (e : FemuRemap.Event)
  | page (now : Int) (ts : FlashTs) (io : Io) (emulated : Int)

/-- Programs over the timed state. -/
abbrev Tm : Type → Type := Prog State Event Fault

variable (c : Conf) (n : NandConf)

/-- Charge what is reported, if it is an access. -/
def State.charge (t : State) : FemuRemap.Event → State
  | .io io =>
      { t with
        ts := Timing.chargeIo n (t.clock 0) t.ts io
        clock := fun i => t.clock (i + 1) }
  | _ => t

/-- The timestamps over the translation layer. -/
def layer : Layer Ssd FemuRemap.Event Fault State Event Fault where
  get t := t.ssd
  put t s l := { l.foldl (State.charge n) t with ssd := s }
  event := .ftl
  fault e := e
  base
    | .ftl e => some e
    | .page _ _ _ _ => none
  cause := some
  get_put _ _ _ := rfl
  base_event _ := rfl
  cause_fault _ := rfl

-- ========================================================= accesses

/-- What an access returns; an erase, the read of a victim's entries and
`NVRAM_OOB_GC` return nothing. -/
def emulated (now : Int) (ts : FlashTs) : Io → Int
  | .pageRead flash _ _ => (Timing.ssdPageRead n now flash ts).2
  | .pageWrite flash _ _ => (Timing.ssdPageWrite n now flash ts).2
  | .partialWrite old _ _ new _ _ =>
      (Timing.ssdPagePartialWrite n now old new ts).2
  | .nvram block needTime => (Timing.updateNvramTs now block needTime ts).2
  | .blockErase _ _ => 0
  | .nvramGc _ _ => 0
  | .gcNvramRead _ _ => 0

/-- Make the access of a page and keep the time it returns. -/
def access (io : Io) (m : Ftl Unit) : Tm Int := do
  let t ← Prog.get
  (layer n).lift m
  let cur := emulated n (t.clock 0) t.ts io
  Prog.emit (.page (t.clock 0) t.ts io cur)
  return cur

/-- `SSD_PAGE_READ`. -/
def ssdPageRead (flash block page : Nat) : Tm Int :=
  access n (.pageRead flash block page)
    (FemuRemap.ssdPageRead flash block page)

/-- `SSD_PAGE_WRITE`. -/
def ssdPageWrite (flash block page : Nat) : Tm Int :=
  access n (.pageWrite flash block page)
    (FemuRemap.ssdPageWrite flash block page)

/-- `SSD_PAGE_PARTIAL_WRITE`. -/
def ssdPagePartialWrite (oldFlash oldBlock oldPage flash block page : Nat) :
    Tm Int :=
  access n (.partialWrite oldFlash oldBlock oldPage flash block page)
    (FemuRemap.ssdPagePartialWrite oldFlash oldBlock oldPage flash block
      page)

/-- `UPDATE_NVRAM_TS`. -/
def updateNvramTs (block needTime : Nat) : Tm Int :=
  access n (.nvram block needTime) (FemuRemap.updateNvramTs block needTime)

/-- `max_need_to_emulate_tt` after a page. -/
def slower (max cur : Int) : Int := if max < cur then cur else max

/-- `FING_DELAY`, without `DUP_RATIO`. -/
def fingDelay : Int := 0

-- ====================================================== _FTL_WRITE

/-- The bodies of the remapping branches of `_FTL_WRITE`; the result is
the maximum after it. -/
def remapLpn (host : Bool) (src ppn : Option Nat) (lpn : Nat) (max : Int) :
    Tm Int := do
  match ppn, ← (layer n).lift (increaseInverseMapping ppn lpn) with
  | some p, .success => do
      (layer n).lift (updatePageState c p .valid)
      (layer n).lift (updateNvramOob c (calcBlock c p) true)
      let cur ← updateNvramTs n (calcBlock c p) (nvramWriteDelay / 4)
      (layer n).lift do
        updateOldPageMapping c lpn
        setMapping lpn (some p)
        setInNvram lpn 1
        unmapSource c src
        modifyStat fun t =>
          { t with
            remapCnt := u32 (t.remapCnt + 1)
            reducedWrite := u32 (t.reducedWrite + 1)
            hostWriteCount :=
              if host then u32 (t.hostWriteCount + 1)
              else t.hostWriteCount }
      return slower max cur
  | _, _ => return max

/-- The branch taken for the flag. -/
def remapHinted (info : LpnInfo) (hPpn : Option Nat) (lpn : Nat)
    (max : Int) : Tm Int :=
  if info.flag = cpWrite then remapLpn c n false none hPpn lpn max
  else if info.flag = dedupWrite then remapLpn c n true none hPpn lpn max
  else remapLpn c n false (some info.hLpn.toNat) hPpn lpn max

/-- The flash access of a written page. -/
def accessPage (slot : Slot) (old : Option Nat) (newPpn : Nat) : Tm Int :=
  let flash := calcFlash c newPpn
  let block := calcBlock c newPpn
  let page := calcPage c newPpn
  match old with
  | some old =>
      if slot.leftSkip ≠ 0 ∨ slot.rightSkip ≠ 0 then
        ssdPagePartialWrite n (calcFlash c old) (calcBlock c old)
          (calcPage c old) flash block page
      else ssdPageWrite n flash block page
  | none => ssdPageWrite n flash block page

/-- Program `newPpn` and map the lpn to it. -/
def storePage (info : LpnInfo) (slot : Slot) (newPpn : Nat) (max : Int) :
    Tm Int := do
  let t ← Prog.get
  let cur ← accessPage c n slot (t.ssd.mappingTable slot.lpn) newPpn
  (layer n).lift do
    Prog.modify fun s =>
      { s with content := s.content.set newPpn (pageData s info) }
    updateOldPageMapping c slot.lpn
    updateNewPageMapping c slot.lpn newPpn .dataBlock
    setInNvram slot.lpn 0
    modifyStat fun t =>
      { t with hostWriteCount := u32 (t.hostWriteCount + 1) }
  return slower max (cur + fingDelay)

/-- The branch that programs a flash page: the page and the maximum, or
`none` when there is no page. -/
def programPage (fuel : Nat) (info : LpnInfo) (slot : Slot) (max : Int) :
    Tm (Option (Nat × Int)) := do
  match ← (layer n).lift (getNewPage c fuel) with
  | none => do
      (layer n).lift (printError .writeGetNewPage)
      return none
  | some newPpn => do
      let max ← storePage c n info slot newPpn max
      return some (newPpn, max)

/-- One page: `new_ppn` and the maximum after it, or `none` for the
`FAIL` return. -/
def writePage (fuel : Nat) (info : LpnInfo) (slot : Slot)
    (newPpn : Option Nat) (max : Int) : Tm (Option (Option Nat × Int)) := do
  let t ← Prog.get
  let hPpn := hintedPpn t.ssd info
  match ← (layer n).lift (askRemap c info hPpn) with
  | .success => do
      let max ← remapHinted c n info hPpn slot.lpn max
      return some (newPpn, max)
  | .fail => do
      match ← programPage c n fuel info slot max with
      | none => return none
      | some (p, max) => return some (some p, max)

/-- The loop of `_FTL_WRITE` from page `i` of the request on. -/
def writePages (fuel : Nat) (info : Nat → LpnInfo) :
    List Slot → Nat → Option Nat → Int → Tm (Option (Option Nat × Int))
  | [], _, newPpn, max => return some (newPpn, max)
  | slot :: rest, i, newPpn, max => do
      match ← writePage c n fuel (info i) slot newPpn max with
      | none => return none
      | some (newPpn, max) => writePages fuel info rest (i + 1) newPpn max

/-- `FAIL`. -/
def fail : Int := 0

/-- `_FTL_WRITE`; `none` is `FAIL`. -/
def ftlWriteInner (fuel : Nat) (req : RequestMeta) : Tm (Option Int) := do
  if c.sectorNb < req.sectorNb + req.length then
    (layer n).lift (printError .exceedSector)
    return none
  else
    match ← writePages c n fuel req.lpnsInfo
        (slots c req.sectorNb req.length) 0 none 0 with
    | none => return none
    | some (newPpn, max) => do
        (layer n).lift (gcCheckAfter c fuel newPpn)
        return some max

/-- `FTL_WRITE`, whose `ret` is an `int`. -/
def ftlWrite (fuel : Nat) (req : RequestMeta) : Tm Int := do
  let ret ← ftlWriteInner c n fuel req
  return i32 (ret.getD fail)

/-- `SSD_WRITE`. -/
def ssdWrite (fuel : Nat) (req : RequestMeta) : Tm Int :=
  ftlWrite c n fuel req

-- ======================================================= _FTL_READ

/-- One page of `_FTL_READ`: a page that is not mapped is read as page
0. -/
def readPage (slot : Slot) (max : Int) : Tm Int := do
  let t ← Prog.get
  let ppn := (t.ssd.mappingTable slot.lpn).getD 0
  let cur ← ssdPageRead n (calcFlash c ppn) (calcBlock c ppn) (calcPage c ppn)
  return slower max cur

/-- The loop of `_FTL_READ`. -/
def readPages : List Slot → Int → Tm Int
  | [], max => return max
  | slot :: rest, max => do
      let max ← readPage c n slot max
      readPages rest max

/-- `_FTL_READ`, which `FTL_READ` and `SSD_READ` return as it is. -/
def ssdRead (length sectorNb : Nat) : Tm Int := do
  if c.sectorNb < sectorNb + length then
    (layer n).lift (printError .exceedSector)
    return fail
  else readPages c n (slots c sectorNb length) 0

end FemuRemap.Timed
