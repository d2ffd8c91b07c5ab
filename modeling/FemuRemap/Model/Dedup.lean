/-
Deduplication: the functions of the build with `DUP_RATIO` defined.

Every page of a write draws a fingerprint (`Model.Draw`), which stands
for its content. `fingerprint` names a page for each fingerprint, and the
inverse entry of a page records its fingerprint. A write whose
fingerprint names a page remaps its lpn to it, `UPDATE_BLOCK_STATE_ENTRY`
clears the name when the last reference of a page goes, and a collection
renames the page it has copied.

`Dedup` puts the two tables over the translation layer. The functions
that touch them, or call one that does, stand here again under their
names; the others run as they are. A draw is a parameter: the number
from `1` to `UNIQUE_PAGE_NB`, or `0`, that the search ends with. Of the
request only its sectors matter in this build.
-/
import FemuRemap.Lib.Layer
import FemuRemap.Model.Ftl

namespace FemuRemap.Dedup

open Lib

-- ============================================================== state

/-- The state with `fingerprint`, and the field of this name of every
inverse entry; `-1` is `none` in both. -/
structure State where
  ssd : Ssd
  fingerprint : Table (Option Nat)
  recorded : Table (Option Nat)

/-- An event of the translation layer, or of the deduplication. -/
inductive Event where
  | ftl (e : FemuRemap.Event)
  /-- "fing = 0". -/
  | fingZero
  /-- "fing < 1 || fing > UNIQUE_PAGE_NB". -/
  | fingRange
  /-- "inverse_entry->lpn_cnt !=0". -/
  | lpnCnt
  /-- "Write the same data". -/
  | sameData
  /-- Ghost: a page with this fingerprint is written; the `valid_array`
  and the fingerprint of the page that its lpn now maps to. -/
  | written (fing : Nat) (page : Option (Int × Option Nat))
deriving DecidableEq

/-- How a run stops dead. -/
inductive Fault where
  | ftl (e : FemuRemap.Fault)
  /-- An index that `fingerprint` does not have. -/
  | fingerprintIndex
deriving DecidableEq

abbrev Dd (α : Type) : Type := Prog State Event Fault α

/-- The two tables over the translation layer. -/
def layer : Layer Ssd FemuRemap.Event FemuRemap.Fault State Event Fault where
  get d := d.ssd
  put d s _ := { d with ssd := s }
  event := .ftl
  fault := .ftl
  base
    | .ftl e => some e
    | _ => none
  cause
    | .ftl e => some e
    | .fingerprintIndex => none
  get_put _ _ _ := rfl
  base_event _ := rfl
  cause_fault _ := rfl

/-- `INIT_zipf_AND_fingerprint` after `FTL_INIT`. -/
def init (c : Conf) : State := ⟨ftlInit c, .fill none, .fill none⟩

-- `u` is `UNIQUE_PAGE_NB`
variable (c : Conf) (u : Nat)

-- ======================================================= fingerprints

/-- `fingerprint[fing] = ppn`. -/
def setFingerprint (fing : Option Nat) (ppn : Option Nat) : Dd Unit :=
  match fing with
  | none => Prog.fault .fingerprintIndex
  | some f =>
      if u < f then Prog.fault .fingerprintIndex
      else Prog.modify fun d =>
        { d with fingerprint := d.fingerprint.set f ppn }

/-- `inverse_entry->fingerprint = fing`. -/
def record (ppn : Nat) (fing : Option Nat) : Dd Unit :=
  Prog.modify fun d => { d with recorded := d.recorded.set ppn fing }

/-- `1 <= fing && fing <= UNIQUE_PAGE_NB`. -/
def inRange : Option Nat → Bool
  | none => false
  | some f => 1 ≤ f ∧ f ≤ u

/-- A diagnostic under a condition. -/
def warnIf (b : Prop) [Decidable b] (e : Event) : Dd Unit :=
  if b then Prog.emit e else pure ()

-- ======================================================== page states

/-- The statements of `UPDATE_BLOCK_STATE_ENTRY` for a page that loses
its last reference. -/
def forgetPage (ppn : Nat) : Dd Unit := do
  let d ← Prog.get
  warnIf ((d.ssd.inverseMappingTable ppn).lpnCnt ≠ 0) .lpnCnt
  warnIf (inRange u (d.recorded ppn) = false) .fingRange
  setFingerprint u (d.recorded ppn) none

/-- `UPDATE_BLOCK_STATE_ENTRY`. What `forgetPage` reads and writes, the
rest of the function does not. -/
def updateBlockStateEntry (flash block page : Nat) (mark : PageMark) :
    Dd Unit := do
  let d ← Prog.get
  layer.lift (FemuRemap.updateBlockStateEntry c flash block page mark)
  if mark = .invalid
      ∧ flash < c.flashNb ∧ block < c.blockNb ∧ page < c.pageNb
      ∧ (getBlockStateEntry c d.ssd flash block).validArray page = 1 then
    forgetPage u (addressPpn c flash block page)

/-- `UPDATE_BLOCK_STATE_ENTRY` at the address of a page number. -/
def updatePageState (ppn : Nat) (mark : PageMark) : Dd Unit :=
  updateBlockStateEntry c u (calcFlash c ppn) (calcBlock c ppn)
    (calcPage c ppn) mark

/-- `UPDATE_OLD_PAGE_MAPPING`. -/
def updateOldPageMapping (lpn : Nat) : Dd Unit := do
  let d ← Prog.get
  match d.ssd.mappingTable lpn with
  | none => return ()
  | some old => do
      match ← layer.lift (decreaseInverseMapping (some old) lpn) with
      | .fail => return ()
      | .success => do
          updatePageState c u old .invalid
          let d ← Prog.get
          if d.ssd.inNvram lpn = 1 then
            layer.lift (increaseInvalidOobEntryCount c (calcBlock c old))

/-- Unmap an lpn. -/
def unmapLpn (lpn : Nat) : Dd Unit := do
  updateOldPageMapping c u lpn
  layer.lift (setMapping lpn none)

/-- Unmap the source of a move. -/
def unmapSource : Option Nat → Dd Unit
  | some h => unmapLpn c u h
  | none => pure ()

/-- Make `lpn` share page `ppn`. -/
def remapLpn (charge host : Bool) (src : Option Nat) (ppn : Option Nat)
    (lpn : Nat) : Dd Unit := do
  match ppn, ← layer.lift (increaseInverseMapping ppn lpn) with
  | some p, .success => do
      updatePageState c u p .valid
      layer.lift (updateNvramOob c (calcBlock c p) true)
      layer.lift (chargeNvram charge (calcBlock c p))
      updateOldPageMapping c u lpn
      layer.lift (setMapping lpn (some p))
      layer.lift (setInNvram lpn 1)
      unmapSource c u src
      layer.lift (modifyStat fun t =>
        { t with
          remapCnt := u32 (t.remapCnt + 1)
          reducedWrite := u32 (t.reducedWrite + 1)
          hostWriteCount :=
            if host then u32 (t.hostWriteCount + 1)
            else t.hostWriteCount })
  | _, _ => return ()

-- ========================================================= collection

/-- The statements of `SB_GARBAGE_COLLECTION` after the lpns of a page
have moved. -/
def moveFingerprint (old new : Nat) : Dd Unit := do
  let d ← Prog.get
  let fing := d.recorded old
  record old none
  warnIf (inRange u fing = false) .fingRange
  setFingerprint u fing (some new)
  record new fing

/-- Migrate one live page of the victim. -/
def migratePage (fuel flash block page : Nat) : Dd Ret := do
  match ← layer.lift (getNewPage c fuel) with
  | none =>
      layer.lift (printError .gcGetNewPage)
      return .fail
  | some newPpn => do
      layer.lift (copyPage c fuel flash block page newPpn)
      moveFingerprint u (oldPpn c flash block page) newPpn
      return .success

/-- The loop over the pages of one block. -/
def migratePages (fuel flash block : Nat) :
    List Nat → Nat → Dd (Option Nat)
  | [], copied => return some copied
  | page :: pages, copied => do
      let d ← Prog.get
      if 0 < (getBlockStateEntry c d.ssd flash block).validArray page then
        match ← migratePage c u fuel flash block page with
        | .fail => return none
        | .success => migratePages fuel flash block pages (copied + 1)
      else migratePages fuel flash block pages copied

/-- The loop over the blocks of the victim. -/
def migrateBlocks (fuel block : Nat) : List Nat → Nat → Dd (Option Nat)
  | [], copied => return some copied
  | flash :: flashes, copied => do
      match ← migratePages c u fuel flash block (List.range c.pageNb) 0 with
      | none => return none
      | some n => do
          let d ← Prog.get
          if n ≠ (getBlockStateEntry c d.ssd flash block).validPageNb then
            layer.lift (printError .gcPageCount)
            return none
          else migrateBlocks fuel block flashes (copied + n)

/-- `SB_GARBAGE_COLLECTION`. -/
def sbGarbageCollection (fuel : Nat) : Dd Ret := do
  match ← layer.lift (selectVictimSuperblock c) with
  | none => return .fail
  | some block => do
      layer.lift do
        reportCollect c block
        readVictimOob c block
        updateNvramOob c block false
      match ← migrateBlocks c u fuel block (List.range c.sbBlkNb) 0 with
      | none => return .fail
      | some copied => do
          layer.lift do
            modifyStat fun t =>
              { t with mycopyPageNb := t.mycopyPageNb + copied }
            Prog.each (eraseBlock c block) (List.range c.flashNb)
            modifyStat fun t =>
              { t with
                gcCount := u32 (t.gcCount + 1)
                eraseCount :=
                  u32 (t.eraseCount + c.flashNb * c.planesPerFlash)
                mygcCnt := t.mygcCnt + 1 }
          return .success

/-- The loop of `GC_CHECK`. -/
def gcCheckLoop (fuel : Nat) : Nat → Dd Unit
  | 0 => Prog.fault (.ftl .outOfFuel)
  | rounds + 1 => do
      let d ← Prog.get
      if needsGc c d.ssd then
        match ← sbGarbageCollection c u fuel with
        | .fail => return ()
        | .success => do
            layer.lift (modifyStat fun t =>
              { t with gcRounds := t.gcRounds + 1 })
            gcCheckLoop fuel rounds
      else return ()

/-- `GC_CHECK`. -/
def gcCheck (fuel : Nat) : Dd Unit := do
  gcCheckLoop c u fuel fuel
  let d ← Prog.get
  Prog.emit (.ftl (.checked d.ssd.lists.totalEmptyBlockNb
    d.ssd.stat.ppnFree))

-- ========================================================= _FTL_WRITE

/-- Program `newPpn` with content of this fingerprint and map the lpn to
it. -/
def storePage (fing : Nat) (slot : Slot) (newPpn : Nat) : Dd Unit := do
  let d ← Prog.get
  layer.lift do
    accessPage c slot (d.ssd.mappingTable slot.lpn) newPpn
    Prog.modify fun s =>
      { s with content := s.content.set newPpn (some fing) }
  updateOldPageMapping c u slot.lpn
  layer.lift do
    updateNewPageMapping c slot.lpn newPpn .dataBlock
    setInNvram slot.lpn 0
  if 0 < fing then
    setFingerprint u (some fing) (some newPpn)
    record newPpn (some fing)
  layer.lift (modifyStat fun t =>
    { t with hostWriteCount := u32 (t.hostWriteCount + 1) })

/-- The branch that programs a flash page. -/
def programPage (fuel fing : Nat) (slot : Slot) : Dd (Option Nat) := do
  match ← layer.lift (getNewPage c fuel) with
  | none =>
      layer.lift (printError .writeGetNewPage)
      return none
  | some newPpn => do
      storePage c u fing slot newPpn
      return some newPpn

/-- `flag == DEDUP_WRITE && h_ppn != -1 && USE_REMAP(...)`. -/
def askRemap : Option Nat → Ftl Ret
  | none => pure .fail
  | some p => useRemap c (calcBlock c p)

/-- One page of `_FTL_WRITE`. The result is `new_ppn` after the page,
or `none` for the `FAIL` return. -/
def writePage (fuel fing : Nat) (slot : Slot) (newPpn : Option Nat) :
    Dd (Option (Option Nat)) := do
  warnIf (fing = 0) .fingZero
  let d ← Prog.get
  let hPpn := d.fingerprint fing
  if hPpn ≠ none ∧ hPpn = d.ssd.mappingTable slot.lpn then
    layer.lift (modifyStat fun t =>
      { t with
        remapCnt := u32 (t.remapCnt + 1)
        reducedWrite := u32 (t.reducedWrite + 1) })
    Prog.emit .sameData
    return some newPpn
  else
    match ← layer.lift (askRemap c hPpn) with
    | .success => do
        remapLpn c u true true none hPpn slot.lpn
        return some newPpn
    | .fail => do
        match ← programPage c u fuel fing slot with
        | none => return none
        | some p => return some (some p)

/-- Ghost: report the page that an lpn maps to. -/
def reportWritten (fing lpn : Nat) : Dd Unit := do
  let d ← Prog.get
  Prog.emit (.written fing ((d.ssd.mappingTable lpn).map fun p : Nat =>
    ((getBlockStateEntry c d.ssd (calcFlash c p) (calcBlock c p)).validArray
      (calcPage c p), d.recorded p)))

/-- The loop of `_FTL_WRITE` from page `i` of the request on; `fing i` is
drawn for page `i`. -/
def writePages (fuel : Nat) (fing : Nat → Nat) :
    List Slot → Nat → Option Nat → Dd (Option (Option Nat))
  | [], _, newPpn => return some newPpn
  | slot :: rest, i, newPpn => do
      match ← writePage c u fuel (fing i) slot newPpn with
      | none => return none
      | some newPpn => do
          reportWritten c (fing i) slot.lpn
          writePages fuel fing rest (i + 1) newPpn

/-- The collector is called only when the last page allocated has a
positive number. -/
def gcCheckAfter (fuel : Nat) : Option Nat → Dd Unit
  | none => pure ()
  | some p => if 0 < p then gcCheck c u fuel else pure ()

/-- `_FTL_WRITE`. -/
def ftlWrite (fuel sectorNb length : Nat) (fing : Nat → Nat) :
    Dd Ret := do
  if c.sectorNb < sectorNb + length then
    layer.lift (printError .exceedSector)
    return .fail
  else
    match ← writePages c u fuel fing (slots c sectorNb length) 0 none with
    | none => return .fail
    | some newPpn => do
        gcCheckAfter c u fuel newPpn
        return .success

-- ============================================== discard and SSD_REMAP

/-- One page of `femu_discard_process`. -/
def discardPage (slot : Slot) : Dd Unit := do
  layer.lift (printErrorIf (slot.leftSkip ≠ 0 ∨ slot.rightSkip ≠ 0)
    .partialTrim)
  unmapLpn c u slot.lpn

/-- `femu_discard_process`. -/
def femuDiscardProcess (length sectorNb : Nat) : Dd Ret := do
  if c.sectorNb < sectorNb + length then
    layer.lift (printError .exceedSector)
    return .fail
  else
    Prog.each (discardPage c u) (slots c sectorNb length)
    return .success

/-- One page of `SSD_REMAP`; the rewriting fallback draws `fing`. -/
def remapPage (fuel : Nat) (ope : RemapOpe) (sLpn dLpn fing : Nat) :
    Dd Unit := do
  let d ← Prog.get
  let sPpn := d.ssd.mappingTable sLpn
  let src := if ope = .move then some sLpn else none
  match ← layer.lift (useRemap c (calcBlock c (ppnValue sPpn))) with
  | .success => remapLpn c u false false src sPpn dLpn
  | .fail => do
      let _ ← ftlWrite c u fuel (dLpn * c.sectorsPerPage) c.sectorsPerPage
        fun _ => fing
      unmapSource c u src

/-- The loop of `SSD_REMAP`, by the value of `remain`. -/
def remapPages (fuel : Nat) (ope : RemapOpe) (fing : Nat → Nat) :
    Nat → Nat → Nat → Dd Unit
  | 0, _, _ => return ()
  | remain + 1, sLpn, dLpn => do
      remapPage c u fuel ope sLpn dLpn (fing remain)
      remapPages fuel ope fing remain (sLpn + 1) (dLpn + 1)

/-- `SSD_REMAP`. -/
def ssdRemap (fuel srcLpn dstLpn len ope : Nat) (fing : Nat → Nat) :
    Dd Ret := do
  match remapOpe ope with
  | none => do
      layer.lift (printError .remapOpe)
      return .success
  | some o => do
      remapPages c u fuel o fing (if len < 2 ^ 31 then len else 0) srcLpn
        dstLpn
      return .success

-- =============================================================== runs

/-- What is asked for, with what is drawn on the way; a collection may
also be asked for on its own. -/
inductive Cmd where
  | write (sectorNb length : Nat) (fing : Nat → Nat)
  | remap (srcLpn dstLpn len ope : Nat) (fing : Nat → Nat)
  | discard (length sectorNb : Nat)
  | collect

/-- Serve one command. -/
def exec (fuel : Nat) : Cmd → Dd Unit
  | .write sectorNb length fing => do
      let _ ← ftlWrite c u fuel sectorNb length fing
  | .remap srcLpn dstLpn len ope fing => do
      let _ ← ssdRemap c u fuel srcLpn dstLpn len ope fing
  | .discard length sectorNb => do
      let _ ← femuDiscardProcess c u length sectorNb
  | .collect => do
      let _ ← sbGarbageCollection c u fuel

/-- Every draw is one of the fingerprints. -/
def Draws (fing : Nat → Nat) : Prop := ∀ i, 1 ≤ fing i ∧ fing i ≤ u

/-- The lpns a command names are entries of the mapping table, and the
draws are fingerprints. -/
def InRange : Cmd → Prop
  | .write _ _ fing => Draws u fing
  | .remap srcLpn dstLpn len _ fing =>
      srcLpn + len ≤ c.pageMappingEntryNb
        ∧ dstLpn + len ≤ c.pageMappingEntryNb ∧ Draws u fing
  | .discard _ _ => True
  | .collect => True

/-- States between requests, with the events of the whole run. -/
inductive Reach : State → List Event → Prop
  | init : Reach (init c) []
  | cmd {d d' : State} {tr log : List Event} (fuel : Nat) (cmd : Cmd) :
      Reach d tr → InRange c u cmd → exec c u fuel cmd d = ⟨.ok (), d', log⟩ →
      Reach d' (tr ++ log)

end FemuRemap.Dedup
