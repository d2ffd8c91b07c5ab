/-
`_FTL_WRITE` (`ftl.c`), `femu_discard_process` and `SSD_REMAP`
(`ssd.c`), and the runs made of them.

# Remapping

Six places of the source make an lpn share the page of another one:
the `CP_WRITE`, `DEDUP_WRITE` and `FS_GC_WRITE` branches of
`_FTL_WRITE` and the `CKPT`, `COPY` and `MOVE` loops of `SSD_REMAP`.
They run the same statements in the same order and differ in three
points, the parameters of `remapLpn`: whether the NVRAM is charged for
the entry, whether the write counts as a host write, and whether a
source lpn is unmapped at the end.

# Runs

`Ran c cmds s tr` says that the commands `cmds` lead from `FTL_INIT` to
state `s`, reporting the events `tr`, and `Reach c s tr` that some
commands do. A command that faults has no successor. `Visited` adds the
states inside a command in which the collector may be called.
-/
import FemuRemap.Model.Gc

namespace FemuRemap

open Lib

variable (c : Conf)

-- ==================================================== requests

/-- `WAL_WRITE`. -/
def walWrite : Nat := 100

/-- `CP_WRITE`. -/
def cpWrite : Nat := 102

/-- `DEDUP_WRITE`. -/
def dedupWrite : Nat := 103

/-- `FS_GC_WRITE`. -/
def fsGcWrite : Nat := 104

/-- `struct lpn_info`, with the page's content as ghost data. -/
structure LpnInfo where
  flag : Nat
  hLpn : Int
  data : Option Nat

/-- `struct request_meta`. -/
structure RequestMeta where
  length : Nat
  sectorNb : Nat
  lpnsInfo : Nat → LpnInfo

/-- One iteration of the page cutting loop. -/
structure Slot where
  lpn : Nat
  leftSkip : Nat
  rightSkip : Nat
  sects : Nat
deriving DecidableEq

/-- The page cutting loop that `_FTL_WRITE` and `femu_discard_process`
share. Every iteration takes at least one sector, so `remain` bounds
their number. -/
def cutPages (spp : Nat) : Nat → Nat → Nat → Nat → List Slot
  | 0, _, _, _ => []
  | fuel + 1, lba, remain, leftSkip =>
      if remain = 0 then []
      else
        let rightSkip :=
          if spp - leftSkip < remain then 0 else spp - leftSkip - remain
        let sects := spp - leftSkip - rightSkip
        ⟨lba / spp, leftSkip, rightSkip, sects⟩
          :: cutPages spp fuel (lba + sects) (remain - sects) 0

/-- The slots of a request. -/
def slots (sectorNb length : Nat) : List Slot :=
  cutPages c.sectorsPerPage length sectorNb length
    (sectorNb % c.sectorsPerPage)

-- =================================================== remapping

/-- Unmap an lpn: `UPDATE_OLD_PAGE_MAPPING; mapping_table[lpn] = -1`. -/
def unmapLpn (lpn : Nat) : Ftl Unit := do
  updateOldPageMapping c lpn
  setMapping lpn none

/-- Unmap the source of a move. -/
def unmapSource : Option Nat → Ftl Unit
  | some h => unmapLpn c h
  | none => pure ()

/-- Charge the NVRAM for one entry. -/
def chargeNvram (charge : Bool) (block : Nat) : Ftl Unit :=
  if charge then updateNvramTs block (nvramWriteDelay / 4) else pure ()

/-- Make `lpn` share page `ppn`; `charge`: the NVRAM write is timed,
`host`: it counts as a host write, `src`: the lpn a move takes the page
from. -/
def remapLpn (charge host : Bool) (src : Option Nat) (ppn : Option Nat)
    (lpn : Nat) : Ftl Unit := do
  match ppn, ← increaseInverseMapping ppn lpn with
  | some p, .success => do
      updatePageState c p .valid
      updateNvramOob c (calcBlock c p) true
      chargeNvram charge (calcBlock c p)
      updateOldPageMapping c lpn
      setMapping lpn (some p)
      setInNvram lpn 1
      unmapSource c src
      modifyStat fun t =>
        { t with
          remapCnt := u32 (t.remapCnt + 1)
          reducedWrite := u32 (t.reducedWrite + 1)
          hostWriteCount :=
            if host then u32 (t.hostWriteCount + 1) else t.hostWriteCount }
  | _, _ => return ()

-- ================================================== _FTL_WRITE

/-- Ghost: what a page of a write carries. A `CP_WRITE` page carries
the content of its `h_lpn`, which is what the host promises by the
flag. -/
def pageData (s : Ssd) (info : LpnInfo) : Option Nat :=
  if info.flag = cpWrite ∧ 0 ≤ info.hLpn then
    match s.mappingTable info.hLpn.toNat with
    | some p => s.content p
    | none => info.data
  else info.data

/-- The flash access of a written page: merging with the old page when
the request covers only part of it. -/
def accessPage (slot : Slot) (old : Option Nat) (newPpn : Nat) :
    Ftl Unit :=
  let flash := calcFlash c newPpn
  let block := calcBlock c newPpn
  let page := calcPage c newPpn
  match old with
  | some old =>
      if slot.leftSkip ≠ 0 ∨ slot.rightSkip ≠ 0 then
        ssdPagePartialWrite (calcFlash c old) (calcBlock c old)
          (calcPage c old) flash block page
      else ssdPageWrite flash block page
  | none => ssdPageWrite flash block page

/-- Program `newPpn` with a page of the request and map the lpn to
it. -/
def storePage (info : LpnInfo) (slot : Slot) (newPpn : Nat) :
    Ftl Unit := do
  let s ← Prog.get
  accessPage c slot (s.mappingTable slot.lpn) newPpn
  Prog.modify fun s =>
    { s with content := s.content.set newPpn (pageData s info) }
  updateOldPageMapping c slot.lpn
  updateNewPageMapping c slot.lpn newPpn .dataBlock
  setInNvram slot.lpn 0
  modifyStat fun t =>
    { t with hostWriteCount := u32 (t.hostWriteCount + 1) }

/-- The branch of `_FTL_WRITE` that programs a flash page: the page, or
`none` when there is none. -/
def programPage (fuel : Nat) (info : LpnInfo) (slot : Slot) :
    Ftl (Option Nat) := do
  match ← getNewPage c fuel with
  | none =>
      printError .writeGetNewPage
      return none
  | some newPpn => do
      storePage c info slot newPpn
      return some newPpn

/-- `h_ppn`: the page of the hinted lpn. An `h_lpn` of zero is not a
hint. -/
def hintedPpn (s : Ssd) (info : LpnInfo) : Option Nat :=
  if 0 < info.hLpn then s.mappingTable info.hLpn.toNat else none

/-- The conditions of the three remapping branches: a flag that asks for
it, a hinted page, and `USE_REMAP` on its block. -/
def askRemap (info : LpnInfo) (hPpn : Option Nat) : Ftl Ret :=
  if info.flag = cpWrite ∨ info.flag = dedupWrite ∨ info.flag = fsGcWrite
  then
    match hPpn with
    | none => pure .fail
    | some p => useRemap c (calcBlock c p)
  else pure .fail

/-- The bodies of the three remapping branches. -/
def remapHinted (info : LpnInfo) (hPpn : Option Nat) (lpn : Nat) :
    Ftl Unit :=
  if info.flag = cpWrite then remapLpn c true false none hPpn lpn
  else if info.flag = dedupWrite then remapLpn c true true none hPpn lpn
  else remapLpn c true false (some info.hLpn.toNat) hPpn lpn

/-- One page of `_FTL_WRITE`. The result is `new_ppn` after the page,
or `none` for the `FAIL` return. -/
def writePage (fuel : Nat) (info : LpnInfo) (slot : Slot)
    (newPpn : Option Nat) : Ftl (Option (Option Nat)) := do
  let s ← Prog.get
  let hPpn := hintedPpn s info
  match ← askRemap c info hPpn with
  | .success => do
      remapHinted c info hPpn slot.lpn
      return some newPpn
  | .fail => do
      match ← programPage c fuel info slot with
      | none => return none
      | some p => return some (some p)

/-- The loop of `_FTL_WRITE` from page `i` of the request on. -/
def writePages (fuel : Nat) (info : Nat → LpnInfo) :
    List Slot → Nat → Option Nat → Ftl (Option (Option Nat))
  | [], _, newPpn => return some newPpn
  | slot :: rest, i, newPpn => do
      match ← writePage c fuel (info i) slot newPpn with
      | none => return none
      | some newPpn => writePages fuel info rest (i + 1) newPpn

/-- The collector is called only when the last page allocated has a
positive number. -/
def gcCheckAfter (fuel : Nat) : Option Nat → Ftl Unit
  | none => pure ()
  | some p => if 0 < p then gcCheck c fuel else pure ()

/-- `_FTL_WRITE`. -/
def ftlWrite (fuel : Nat) (req : RequestMeta) : Ftl Ret := do
  if c.sectorNb < req.sectorNb + req.length then
    printError .exceedSector
    return .fail
  else
    match ← writePages c fuel req.lpnsInfo
        (slots c req.sectorNb req.length) 0 none with
    | none => return .fail
    | some newPpn => do
        gcCheckAfter c fuel newPpn
        return .success

-- ====================================================== discard

/-- One page of `femu_discard_process`. -/
def discardPage (slot : Slot) : Ftl Unit := do
  printErrorIf (slot.leftSkip ≠ 0 ∨ slot.rightSkip ≠ 0) .partialTrim
  unmapLpn c slot.lpn

/-- `femu_discard_process`. -/
def femuDiscardProcess (length sectorNb : Nat) : Ftl Ret := do
  if c.sectorNb < sectorNb + length then
    printError .exceedSector
    return .fail
  else
    Prog.each (discardPage c) (slots c sectorNb length)
    return .success

-- ==================================================== SSD_REMAP

/-- The operations of `SSD_REMAP`. -/
inductive RemapOpe where
  | ckpt
  | copy
  | move
deriving DecidableEq

/-- Decode `ope`: `REMAP_CKPT`, `REMAP_COPY`, `REMAP_MOVE`. -/
def remapOpe : Nat → Option RemapOpe
  | 2 => some .ckpt
  | 3 => some .copy
  | 4 => some .move
  | _ => none

/-- The request of the rewriting fallback, whole page `dLpn`; the page
carries the content of the source. -/
def fallbackRequest (s : Ssd) (sPpn : Option Nat) (dLpn : Nat) :
    RequestMeta where
  length := c.sectorsPerPage
  sectorNb := dLpn * c.sectorsPerPage
  lpnsInfo := fun _ => ⟨0, -1, sPpn.bind s.content⟩

/-- One page of `SSD_REMAP`. -/
def remapPage (fuel : Nat) (ope : RemapOpe) (sLpn dLpn : Nat) :
    Ftl Unit := do
  let s ← Prog.get
  let sPpn := s.mappingTable sLpn
  let src := if ope = .move then some sLpn else none
  match ← useRemap c (calcBlock c (ppnValue sPpn)) with
  | .success => remapLpn c false false src sPpn dLpn
  | .fail => do
      let _ ← ftlWrite c fuel (fallbackRequest c s sPpn dLpn)
      unmapSource c src

/-- The loop of `SSD_REMAP`, by the value of `remain`. -/
def remapPages (fuel : Nat) (ope : RemapOpe) : Nat → Nat → Nat → Ftl Unit
  | 0, _, _ => return ()
  | remain + 1, sLpn, dLpn => do
      remapPage c fuel ope sLpn dLpn
      remapPages fuel ope remain (sLpn + 1) (dLpn + 1)

/-- `SSD_REMAP`. `remain` is an `int32_t`: a length from `2 ^ 31` on is
negative there and nothing is done. -/
def ssdRemap (fuel : Nat) (srcLpn dstLpn len ope : Nat) : Ftl Ret := do
  match remapOpe ope with
  | none => do
      printError .remapOpe
      return .success
  | some o => do
      remapPages c fuel o (if len < 2 ^ 31 then len else 0) srcLpn dstLpn
      return .success

-- ========================================================= runs

/-- What the host asks for. -/
inductive Cmd where
  | write (req : RequestMeta)
  | remap (srcLpn dstLpn len ope : Nat)
  | discard (length sectorNb : Nat)

/-- Serve one command. -/
def exec (fuel : Nat) : Cmd → Ftl Unit
  | .write req => do
      let _ ← ftlWrite c fuel req
  | .remap srcLpn dstLpn len ope => do
      let _ ← ssdRemap c fuel srcLpn dstLpn len ope
  | .discard length sectorNb => do
      let _ ← femuDiscardProcess c length sectorNb

/-- The lpns a command names are entries of the mapping table. Writes
and discards check their sectors themselves, so only the hints of a
write and the ranges of a remap are constrained. -/
def InRange : Cmd → Prop
  | .write req => ∀ i, (req.lpnsInfo i).hLpn < c.pageMappingEntryNb
  | .remap srcLpn dstLpn len _ =>
      srcLpn + len ≤ c.pageMappingEntryNb
        ∧ dstLpn + len ≤ c.pageMappingEntryNb
  | .discard _ _ => True

/-- A run: the commands served, the state after them and their
events. -/
inductive Ran : List Cmd → Ssd → List Event → Prop
  | init : Ran [] (ftlInit c) []
  | cmd {cmds : List Cmd} {s s' : Ssd} {tr log : List Event} (fuel : Nat)
      (cmd : Cmd) : Ran cmds s tr → InRange c cmd →
      exec c fuel cmd s = ⟨.ok (), s', log⟩ →
      Ran (cmds ++ [cmd]) s' (tr ++ log)

/-- States between requests, with the events of the whole run. -/
inductive Reach : Ssd → List Event → Prop
  | init : Reach (ftlInit c) []
  | cmd {s s' : Ssd} {tr log : List Event} (fuel : Nat) (cmd : Cmd) :
      Reach s tr → InRange c cmd → exec c fuel cmd s = ⟨.ok (), s', log⟩ →
      Reach s' (tr ++ log)

/-- States at which the collector may be called: those between
requests, those after the pages of a write — also of a write that
`SSD_REMAP` falls back to once `USE_REMAP` refused — and those between
two collections. -/
inductive Visited : Ssd → List Event → Prop
  | init : Visited (ftlInit c) []
  | cmd {s s' : Ssd} {tr log : List Event} (fuel : Nat) (cmd : Cmd) :
      Visited s tr → InRange c cmd →
      exec c fuel cmd s = ⟨.ok (), s', log⟩ → Visited s' (tr ++ log)
  | pages {s s' : Ssd} {tr log : List Event} {r : Option (Option Nat)}
      (fuel : Nat) (req : RequestMeta) :
      Visited s tr → InRange c (.write req) →
      req.sectorNb + req.length ≤ c.sectorNb →
      writePages c fuel req.lpnsInfo (slots c req.sectorNb req.length) 0 none s
        = ⟨.ok r, s', log⟩ →
      Visited s' (tr ++ log)
  | asked {s s' : Ssd} {tr log : List Event} {r : Ret} (b : Nat) :
      Visited s tr → useRemap c b s = ⟨.ok r, s', log⟩ →
      Visited s' (tr ++ log)
  | gc {s s' : Ssd} {tr log : List Event} (fuel : Nat) :
      Visited s tr →
      sbGarbageCollection c fuel s = ⟨.ok .success, s', log⟩ →
      Visited s' (tr ++ log)

/-- A run of commands, stopping at the first fault. -/
def runCmds (fuel : Nat) : List Cmd → Ftl Unit
  | [] => return ()
  | cmd :: cmds => do
      exec c fuel cmd
      runCmds fuel cmds

end FemuRemap
