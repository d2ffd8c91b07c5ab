/-
`ftl_gc_manager.c`: the choice of a victim superblock, its migration
and erase, and the loop that collects until enough space is free.

A collection touches the victim in a fixed order: it leaves the victim
lists, its NVRAM segments are released, its live pages are migrated one
by one (flash by flash, page by page, each page's lpns from the tail of
its inverse list), and only then are its blocks erased and appended to
the empty lists. A `FAIL` in between returns with what was done so far.
-/
import FemuRemap.Model.Mapping

namespace FemuRemap

open Lib

variable (c : Conf)

-- ============================================= victim selection

/-- The inner loop of `SELECT_VICTIM_SUPERBLOCK` over the roots: total
`valid_page_nb` of the superblock at position `i`, as an `int`, or `none`
after an error. `first` is `first_block_nb`, set by root `0`. -/
def sumSuperblock (i : Nat) (entryNb : Int) :
    List Nat → Nat → Int → Ftl (Option Int)
  | [], _, sum => return some sum
  | j :: js, first, sum => do
      let s ← Prog.get
      let root := s.lists.victimBlockList j
      if i = 0 ∧ i32 root.victimBlockNb ≠ entryNb then
        printError .victimCount
        return none
      else
        match root.entries[i]? with
        | none => Prog.fault .nullBlockEntry
        | some v =>
            let first := if j = 0 then v.phyBlockNb else first
            if v.phyBlockNb ≠ first then
              printError .victimOffset
              return none
            else
              let b := getBlockStateEntry c s v.phyFlashNb v.phyBlockNb
              sumSuperblock i entryNb js first (i32 (sum + b.validPageNb))

/-- The outer loop: position and total of the first superblock with the
fewest valid pages below `min`. -/
def scanVictims (entryNb : Int) :
    List Nat → Nat → Int → Ftl (Option (Nat × Int))
  | [], off, min => return some (off, min)
  | i :: is, off, min => do
      match ← sumSuperblock c i entryNb (List.range c.victimTableEntryNb)
          0 0 with
      | none => return none
      | some sum =>
          if sum < min then scanVictims entryNb is i sum
          else scanVictims entryNb is off min

/-- Take position `off` out of victim list `j`. -/
def ejectAt (off j : Nat) : Ftl Unit := do
  let s ← Prog.get
  match (s.lists.victimBlockList j).entries[off]? with
  | none => Prog.fault .nullBlockEntry
  | some v => modifyLists (ejectVictimBlock c v off)

/-- `SELECT_VICTIM_SUPERBLOCK`: the block number of the ejected
superblock, or `none` for `FAIL`. -/
def selectVictimSuperblock : Ftl (Option Nat) := do
  let s ← Prog.get
  let full := i32 (i32 (c.pageNb * c.flashNb) * c.planesPerFlash)
  let entryNb := i32 (s.lists.victimBlockList 0).victimBlockNb
  if s.lists.totalVictimBlockNb = 0 then
    printError .noVictimBlock
    return none
  else if (s.lists.victimBlockList 0).victimBlockNb = 0 then
    printError .noVictimSuperblock
    return none
  else
    -- `i` runs from 0 to `entry_nb`, of which there may be none
    match ← scanVictims c entryNb (List.range entryNb.toNat) 0 full with
    | none => return none
    | some (off, min) =>
        if min = full then
          modifyStat fun t => { t with failCnt := t.failCnt + 1 }
          printError .tooManyValid
          return none
        else
          match (s.lists.victimBlockList 0).entries[off]? with
          | none => Prog.fault .nullBlockEntry
          | some v => do
              Prog.each (ejectAt c off) (List.range c.victimTableEntryNb)
              return some v.phyBlockNb

-- ==================================================== migration

/-- Record the reverse mapping of a migrated lpn: the first one of a
page in the flash page itself (`in_nvram = 0`), the others in the
NVRAM. -/
def recordOob (oobWrite : Bool) (newPpn lpn : Nat) : Ftl Unit :=
  if oobWrite then do
    updateNvramOob c (calcBlock c newPpn) true
    setInNvram lpn 1
    updateNvramTs (calcBlock c newPpn) (nvramWriteDelay / 4)
  else setInNvram lpn 0

/-- The `while` over the inverse list of the old page: its lpns move to
the new page, tail first. -/
def migrateLpns (oldPpn newPpn : Nat) : Nat → Bool → Ftl Unit
  | 0, _ => Prog.fault .outOfFuel
  | fuel + 1, oobWrite => do
      let s ← Prog.get
      match (s.inverseMappingTable oldPpn).lpns.getLast? with
      | none => return ()
      | some lpn => do
          let _ ← decreaseInverseMapping (some oldPpn) lpn
          updateNewPageMapping c lpn newPpn .dataBlock
          recordOob c oobWrite newPpn lpn
          migrateLpns oldPpn newPpn fuel true

/-- Copy one live page of the victim to `newPpn`, with its lpns. -/
def copyPage (fuel flash block page newPpn : Nat) : Ftl Unit := do
  ssdPageRead flash block page
  ssdPageWrite (calcFlash c newPpn) (calcBlock c newPpn)
    (calcPage c newPpn)
  modifyStat fun t => { t with gcWriteCount := u32 (t.gcWriteCount + 1) }
  let oldPpn := u32 (flash * c.pagesPerFlash + block * c.pageNb + page)
  Prog.modify fun s =>
    { s with content := s.content.set newPpn (s.content oldPpn) }
  let s ← Prog.get
  printErrorIf ((getBlockStateEntry c s flash block).validArray page
    ≠ (s.inverseMappingTable oldPpn).lpnCnt) .gcLpnCnt
  migrateLpns c oldPpn newPpn fuel false

/-- Migrate one live page of the victim. -/
def migratePage (fuel flash block page : Nat) : Ftl Ret := do
  match ← getNewPage c fuel with
  | none =>
      printError .gcGetNewPage
      return .fail
  | some newPpn => do
      copyPage c fuel flash block page newPpn
      return .success

/-- The loop over the pages of one block: how many were migrated, or
`none` after a failed allocation. -/
def migratePages (fuel flash block : Nat) :
    List Nat → Nat → Ftl (Option Nat)
  | [], copied => return some copied
  | page :: pages, copied => do
      let s ← Prog.get
      if 0 < (getBlockStateEntry c s flash block).validArray page then
        match ← migratePage c fuel flash block page with
        | .fail => return none
        | .success => migratePages fuel flash block pages (copied + 1)
      else migratePages fuel flash block pages copied

/-- The loop over the blocks of the victim, with the check of
`valid_page_nb` after each. -/
def migrateBlocks (fuel block : Nat) : List Nat → Nat → Ftl (Option Nat)
  | [], copied => return some copied
  | flash :: flashes, copied => do
      match ← migratePages c fuel flash block (List.range c.pageNb) 0 with
      | none => return none
      | some n => do
          let s ← Prog.get
          if n ≠ (getBlockStateEntry c s flash block).validPageNb then
            printError .gcPageCount
            return none
          else migrateBlocks fuel block flashes (copied + n)

-- ====================================================== erase

/-- The lpns whose page lies in one block. -/
def mappedInto (s : Ssd) (flash block : Nat) : List Nat :=
  (List.range c.pageMappingEntryNb).filter fun lpn =>
    match s.mappingTable lpn with
    | none => false
    | some p => calcFlash c p = flash ∧ calcBlock c p = block

/-- `SSD_BLOCK_ERASE`. -/
def ssdBlockErase (flash block : Nat) : Ftl Unit := do
  let s ← Prog.get
  Prog.emit (.io (.blockErase flash block))
  Prog.emit (.erase flash block (mappedInto c s flash block))
  Prog.modify fun s =>
    { s with
      handed := s.handed.set (blockIndex c flash block) []
      content := (List.range c.pageNb).foldl
        (fun t page => t.set (encodePpn c flash block page) none) s.content }

/-- One round of the erase loop. -/
def eraseBlock (block flash : Nat) : Ftl Unit := do
  ssdBlockErase c flash block
  updateBlockState c flash block .emptyBlock
  modifyLists (insertEmptyBlock c flash block)

-- ================================================== collection

/-- Whether some block of a superblock has a live page: `flag` in
`SB_GARBAGE_COLLECTION`. -/
def hasLivePage (s : Ssd) (block : Nat) : Bool :=
  (List.range c.sbBlkNb).any fun flash =>
    0 < (getBlockStateEntry c s flash block).validPageNb

/-- The read of the victim's NVRAM entries. -/
def readVictimOob (block : Nat) : Ftl Unit := do
  let s ← Prog.get
  let seg := s.nvram.oobTable block
  if hasLivePage c s block ∧ 0 < seg.allocSeg then
    Prog.emit (.io (.gcNvramRead block
      ((seg.allocSeg * c.oobEntryPerSeg - seg.freeEntry)
        * oobEntryBytes * nvramReadDelay / 64).toNat))

/-- Pages of a superblock with a positive reference count. -/
def livePages (s : Ssd) (block : Nat) : Nat :=
  ((List.range c.flashNb).map fun flash =>
    (getBlockStateEntry c s flash block).validPageNb).sum

/-- Pages not yet handed out from the active superblock. -/
def activeRoom (s : Ssd) : Nat :=
  ((List.range c.emptyTableEntryNb).map fun r =>
    match (s.lists.emptyBlockList r).head with
    | none => 0
    | some e => c.pageNb - e.currPhyPageNb).sum

/-- Ghost: report where a collection starts. -/
def reportCollect (block : Nat) : Ftl Unit := do
  let s ← Prog.get
  Prog.emit (.collect (livePages c s block) (activeRoom c s)
    s.nvram.totalAllocSeg)

/-- `SB_GARBAGE_COLLECTION`. -/
def sbGarbageCollection (fuel : Nat) : Ftl Ret := do
  match ← selectVictimSuperblock c with
  | none => return .fail
  | some block => do
      reportCollect c block
      readVictimOob c block
      updateNvramOob c block false
      match ← migrateBlocks c fuel block (List.range c.sbBlkNb) 0 with
      | none => return .fail
      | some copied => do
          modifyStat fun t => { t with mycopyPageNb := t.mycopyPageNb + copied }
          Prog.each (eraseBlock c block) (List.range c.flashNb)
          modifyStat fun t =>
            { t with
              gcCount := u32 (t.gcCount + 1)
              eraseCount :=
                u32 (t.eraseCount + c.flashNb * c.planesPerFlash)
              mygcCnt := t.mygcCnt + 1 }
          return .success

/-- The loop condition of `GC_CHECK`. -/
def needsGc (s : Ssd) : Prop :=
  s.lists.totalEmptyBlockNb < c.gcThresholdBlockNb
    ∨ s.stat.ppnFree < c.gcThresholdBlockNb * c.pageNb

instance (s : Ssd) : Decidable (needsGc c s) := by
  unfold needsGc
  infer_instance

/-- The loop of `GC_CHECK`, at most `rounds` times. -/
def gcCheckLoop (fuel : Nat) : Nat → Ftl Unit
  | 0 => Prog.fault .outOfFuel
  | rounds + 1 => do
      let s ← Prog.get
      if needsGc c s then
        match ← sbGarbageCollection c fuel with
        | .fail => return ()
        | .success => do
            modifyStat fun t => { t with gcRounds := t.gcRounds + 1 }
            gcCheckLoop fuel rounds
      else return ()

/-- `GC_CHECK`. -/
def gcCheck (fuel : Nat) : Ftl Unit := do
  gcCheckLoop c fuel fuel
  let s ← Prog.get
  Prog.emit (.checked s.lists.totalEmptyBlockNb s.stat.ppnFree)

end FemuRemap
