/-
`ftl_inverse_mapping_manager.c`: the empty and victim block lists, the
inverse mapping, the page states with their statistics, and the NVRAM
segments that hold the reverse mappings of remapped pages.

`GET_EMPTY_BLOCK` is modelled for `VICTIM_OVERALL`, the only mode the
default build asks for. Its loop, like every `while` whose end is not
evident from the source, runs on explicit fuel: using the fuel up is
the fault `outOfFuel`, which no other branch raises.
-/
import FemuRemap.Model.State

namespace FemuRemap

open Lib

variable (c : Conf)

-- ==================================================== accesses

/-- `SSD_PAGE_READ`. -/
def ssdPageRead (flash block page : Nat) : Ftl Unit := do
  modifyStat fun t => { t with totalReadCount := u32 (t.totalReadCount + 1) }
  Prog.emit (.io (.pageRead flash block page))

/-- `SSD_PAGE_WRITE`. -/
def ssdPageWrite (flash block page : Nat) : Ftl Unit := do
  modifyStat fun t =>
    { t with totalWriteCount := u32 (t.totalWriteCount + 1) }
  Prog.emit (.io (.pageWrite flash block page))

/-- `SSD_PAGE_PARTIAL_WRITE`. -/
def ssdPagePartialWrite (oldFlash oldBlock oldPage flash block page : Nat) :
    Ftl Unit := do
  modifyStat fun t =>
    { t with totalReadCount := u32 (t.totalReadCount + 1)
             totalWriteCount := u32 (t.totalWriteCount + 1) }
  Prog.emit (.io (.partialWrite oldFlash oldBlock oldPage flash block page))

/-- `UPDATE_NVRAM_TS`. -/
def updateNvramTs (block needTime : Nat) : Ftl Unit :=
  Prog.emit (.io (.nvram block needTime))

-- ================================================== block lists

/-- The root a block belongs to: `plane_nb * FLASH_NB + phy_flash_nb`. -/
def rootIndex (flash block : Nat) : Nat :=
  block % c.planesPerFlash * c.flashNb + flash

/-- `INSERT_EMPTY_BLOCK`. -/
def insertEmptyBlock (flash block : Nat) (l : BlockLists) : BlockLists :=
  let new : EmptyBlock := ⟨flash, block, 0⟩
  let i := rootIndex c flash block
  let root := l.emptyBlockList i
  let root' :=
    if root.emptyHead = [] then
      { root with emptyHead := [new], emptyBlockNb := 1 }
    else
      { root with emptyHead := root.emptyHead ++ [new]
                  emptyBlockNb := u32 (root.emptyBlockNb + 1) }
  { l with emptyBlockList := l.emptyBlockList.set i root'
           totalEmptyBlockNb := l.totalEmptyBlockNb + 1 }

/-- `INSERT_VICTIM_BLOCK`. -/
def insertVictimBlock (full : EmptyBlock) (l : BlockLists) : BlockLists :=
  let new : VictimBlock := ⟨full.phyFlashNb, full.phyBlockNb⟩
  let i := rootIndex c full.phyFlashNb full.phyBlockNb
  let root := l.victimBlockList i
  let root' : VictimRoot :=
    if root.victimBlockNb = 0 then ⟨[new], 1⟩
    else ⟨root.entries ++ [new], u32 (root.victimBlockNb + 1)⟩
  { l with victimBlockList := l.victimBlockList.set i root'
           totalVictimBlockNb := l.totalVictimBlockNb + 1 }

/-- `EJECT_VICTIM_BLOCK` of the entry at position `off` of its list. -/
def ejectVictimBlock (victim : VictimBlock) (off : Nat) (l : BlockLists) :
    BlockLists :=
  let i := rootIndex c victim.phyFlashNb victim.phyBlockNb
  let root := l.victimBlockList i
  { l with
    victimBlockList := l.victimBlockList.set i
      ⟨root.entries.eraseIdx off, u32 (root.victimBlockNb - 1)⟩
    totalVictimBlockNb := l.totalVictimBlockNb - 1 }

/-- `empty_block_table_index++`, back to zero at the table's end. -/
def advanceIndex (l : BlockLists) : BlockLists :=
  { l with emptyBlockTableIndex :=
      if l.emptyBlockTableIndex + 1 = c.emptyTableEntryNb then 0
      else l.emptyBlockTableIndex + 1 }

/-- One round of the activation loop: root `i` takes the first block of
its empty list as its head. -/
def activateRoot (i : Nat) : Ftl Unit := do
  let s ← Prog.get
  let root := s.lists.emptyBlockList i
  match root.emptyHead with
  | [] => Prog.fault .nullBlockEntry
  | e :: es =>
      modifyLists fun l =>
        { l with
          emptyBlockList := l.emptyBlockList.set i
            ⟨es, some e, u32 (root.emptyBlockNb - 1)⟩ }

/-- One round of the retirement loop: the full head of root `i` joins
the victim list. -/
def retireRoot (i : Nat) : Ftl Unit := do
  let s ← Prog.get
  match (s.lists.emptyBlockList i).head with
  | none => Prog.fault .nullBlockEntry
  | some e =>
      modifyLists fun l =>
        let l := insertVictimBlock c e l
        { l with
          totalEmptyBlockNb := l.totalEmptyBlockNb - 1
          emptyBlockList := l.emptyBlockList.set i
            { l.emptyBlockList i with head := none } }

/-- The loop of `GET_EMPTY_BLOCK`: the root whose head has room, or
`none` for `NULL`. -/
def getEmptyBlockLoop : Nat → Ftl (Option Nat)
  | 0 => Prog.fault .outOfFuel
  | fuel + 1 => do
      let s ← Prog.get
      let l := s.lists
      if l.totalEmptyBlockNb = 0 then
        printError .noEmptyBlock
        return none
      else
        let root := l.emptyBlockList l.emptyBlockTableIndex
        match root.head with
        | none =>
            if root.emptyHead = [] then
              modifyLists (advanceIndex c)
              getEmptyBlockLoop fuel
            else if l.emptyBlockTableIndex = 0 then
              Prog.each activateRoot (List.range c.emptyTableEntryNb)
              modifyLists fun l =>
                { l with emptyBlockTableIndex := l.emptyBlockTableIndex + 1 }
              return some 0
            else
              -- nothing changes, so the source spins here for ever
              printError .planeHeadNull
              getEmptyBlockLoop fuel
        | some e =>
            if e.currPhyPageNb = c.pageNb then
              if e.phyFlashNb = c.flashNb - 1
                  ∧ e.phyBlockNb % c.planesPerFlash
                    = c.planesPerFlash - 1 then
                Prog.each (retireRoot c) (List.range c.emptyTableEntryNb)
                printErrorIf
                  (l.emptyBlockTableIndex ≠ c.emptyTableEntryNb - 1)
                  .indexNotLast
                modifyLists fun l => { l with emptyBlockTableIndex := 0 }
                getEmptyBlockLoop fuel
              else
                printErrorIf
                  (l.emptyBlockTableIndex + 1 = c.emptyTableEntryNb)
                  .cannotHappen
                modifyLists (advanceIndex c)
                getEmptyBlockLoop fuel
            else
              modifyLists (advanceIndex c)
              return some l.emptyBlockTableIndex

/-- `GET_EMPTY_BLOCK` with mode `VICTIM_OVERALL`. -/
def getEmptyBlock (fuel : Nat) : Ftl (Option Nat) := do
  let s ← Prog.get
  if s.lists.totalEmptyBlockNb = 0 then
    printError .noEmptyBlock
    return none
  else getEmptyBlockLoop c fuel

-- =============================================== inverse mapping

/-- `INCREASE_INVERSE_MAPPING`: append the lpn, or start the list over
when the counter says it is empty. -/
def increaseInverseMapping (ppn : Option Nat) (lpn : Nat) : Ftl Ret :=
  match ppn with
  | none => do
      printError .increaseNoPpn
      return .fail
  | some p => do
      let s ← Prog.get
      let e := s.inverseMappingTable p
      let e' : InverseEntry :=
        if e.lpnCnt = 0 then ⟨1, [lpn]⟩
        else ⟨i8 (e.lpnCnt + 1), e.lpns ++ [lpn]⟩
      Prog.emit (.share p lpn e.lpns)
      Prog.emit (.count e.lpnCnt e'.lpnCnt)
      Prog.modify fun s =>
        { s with inverseMappingTable := s.inverseMappingTable.set p e' }
      return .success

/-- `DECREASE_INVERSE_MAPPING`: unlink the first node of the lpn. The
search may end at `NULL`; what the unlinking then reads decides whether
that is a fault. -/
def decreaseInverseMapping (ppn : Option Nat) (lpn : Nat) : Ftl Ret :=
  match ppn with
  | none => do
      printError .decreaseNoPpn
      return .fail
  | some p => do
      let s ← Prog.get
      let e := s.inverseMappingTable p
      let put (lpns : List Nat) : Ftl Ret := do
        Prog.modify fun s =>
          { s with inverseMappingTable :=
              s.inverseMappingTable.set p ⟨i8 (e.lpnCnt - 1), lpns⟩ }
        return .success
      if e.lpnCnt = 0 then
        printError .decreaseZero
        return .fail
      else if lpn ∈ e.lpns then
        if e.lpns.head? = some lpn then
          if e.lpnCnt = 1 then put []
          else if e.lpns.tail = [] then Prog.fault .nullInverseNode
          else put e.lpns.tail
        else put (e.lpns.erase lpn)
      -- `NULL` equals the head of an empty list, and only of one
      else if e.lpns = [] ∧ e.lpnCnt = 1 then put []
      else Prog.fault .nullInverseNode

-- ================================================== page states

/-- The marks `UPDATE_BLOCK_STATE_ENTRY` accepts: `VALID`, `INVALID`
and `0`. -/
inductive PageMark where
  | valid
  | invalid
  | free
deriving DecidableEq

/-- Index of a block's entry in `block_state_table`, as
`GET_BLOCK_STATE_ENTRY` computes it. -/
def blockIndex (flash block : Nat) : Nat :=
  u32 (flash * c.blockNb + block)

/-- `GET_BLOCK_STATE_ENTRY`. -/
def getBlockStateEntry (s : Ssd) (flash block : Nat) : BlockState :=
  s.blockStateTable (blockIndex c flash block)

/-- Pages of a block with a positive reference count. -/
def countValid (arr : Table Int) : Nat :=
  (List.range c.pageNb).countP fun i => 0 < arr i

/-- Store a page's new `valid_array` value, recount the block, and
replace the statistics. -/
def putPage (flash block page : Nat) (v : Int) (t : Stat) (s : Ssd) : Ssd :=
  let i := blockIndex c flash block
  let b := s.blockStateTable i
  let arr := b.validArray.set page v
  { s with
    blockStateTable := s.blockStateTable.set i
      { b with validArray := arr, validPageNb := countValid c arr }
    stat := t }

/-- `UPDATE_BLOCK_STATE_ENTRY(VALID)` on the statistics, by the count
before and after. -/
def statValid (v v' : Int) (t : Stat) : Stat :=
  let t :=
    if v = 0 then
      { t with ppnFree := u64 (t.ppnFree - 1)
               ppnValid := u64 (t.ppnValid + 1) }
    else if v = 1 then { t with ppnN21 := u64 (t.ppnN21 + 1) }
    else t
  { t with maxValidArray := max t.maxValidArray v'
           lpnValid := u64 (t.lpnValid + 1) }

/-- `UPDATE_BLOCK_STATE_ENTRY(INVALID)` on the statistics. -/
def statInvalid (v : Int) (t : Stat) : Stat :=
  let t :=
    if v = 1 then
      { t with ppnInvalid := u64 (t.ppnInvalid + 1)
               ppnValid := u64 (t.ppnValid - 1) }
    else if v = 2 then { t with ppnN21 := u64 (t.ppnN21 - 1) }
    else t
  { t with lpnValid := u64 (t.lpnValid - 1) }

/-- `UPDATE_BLOCK_STATE_ENTRY(0)` on the statistics. -/
def statFree (v : Int) (t : Stat) : Stat :=
  if 0 < v then
    { t with ppnValid := u64 (t.ppnValid - 1)
             ppnN21 := if 1 < v then u64 (t.ppnN21 - 1) else t.ppnN21
             lpnValid := u64 (t.lpnValid - v)
             ppnFree := u64 (t.ppnFree + 1) }
  else
    { t with ppnInvalid := u64 (t.ppnInvalid - 1)
             ppnFree := u64 (t.ppnFree + 1) }

/-- The ends of `UPDATE_BLOCK_STATE_ENTRY` that return `SUCCESS`: the
count of the page goes from `v` to `v'` and `f` moves the statistics. -/
def restatePage (flash block page : Nat) (v v' : Int) (f : Stat → Stat) :
    Ftl Unit := do
  let s ← Prog.get
  Prog.emit (.restated v v' s.stat (f s.stat))
  Prog.modify (putPage c flash block page v' (f s.stat))

/-- Its ends that return `FAIL`. -/
def refusePage (m : Msg) : Ftl Unit := do
  printError m
  Prog.emit .refused

/-- `UPDATE_BLOCK_STATE_ENTRY`. No caller looks at what it returns. -/
def updateBlockStateEntry (flash block page : Nat) (mark : PageMark) :
    Ftl Unit := do
  if c.flashNb ≤ flash ∨ c.blockNb ≤ block ∨ c.pageNb ≤ page then
    refusePage .wrongPhysicalAddress
  else
    let s ← Prog.get
    let v := (getBlockStateEntry c s flash block).validArray page
    match mark with
    | .valid =>
        if 0 ≤ v then
          let v' := i8 (v + 1)
          Prog.emit (.count v v')
          restatePage c flash block page v v' (statValid v v')
        else refusePage .validWrong
    | .invalid =>
        if 0 < v then
          let v' := if v = 1 then -1 else i8 (v - 1)
          restatePage c flash block page v v' (statInvalid v)
        else refusePage .invalidWrong
    | .free =>
        if 0 < v ∨ v = -1 then
          restatePage c flash block page v 0 (statFree v)
        else if v = 0 then restatePage c flash block page v 0 id
        else refusePage .freeWrong

/-- `UPDATE_BLOCK_STATE`. -/
def updateBlockState (flash block : Nat) (type : BlockType) : Ftl Unit := do
  Prog.modify fun s =>
    let i := blockIndex c flash block
    { s with
      blockStateTable := s.blockStateTable.set i
        { s.blockStateTable i with type := type } }
  if type = .emptyBlock then
    Prog.each (fun page => updateBlockStateEntry c flash block page .free)
      (List.range c.pageNb)

-- ======================================================== NVRAM

/-- Store one entry for superblock `b`, allocating a segment when none
has room. The loop of `NVRAM_OOB_GC` and `UPDATE_NVRAM_OOB(VALID)`
share this body. -/
def storeEntry (b : Nat) (n : Nvram) : Nvram :=
  let seg := n.oobTable b
  let n' : Nvram :=
    if seg.freeEntry = 0 then
      { n with
        oobTable := n.oobTable.set b
          { seg with allocSeg := seg.allocSeg + 1
                     freeEntry := c.oobEntryPerSeg }
        maxAllocSeg :=
          if (n.maxAllocSeg : Int) < seg.allocSeg + 1
          then u32 (seg.allocSeg + 1) else n.maxAllocSeg
        totalAllocSeg := u64 (n.totalAllocSeg + 1)
        totalSegBytes :=
          u64 (n.totalSegBytes + c.oobEntryPerSeg * oobEntryBytes) }
    else n
  let seg' := n'.oobTable b
  { n' with
    oobTable := n'.oobTable.set b
      { seg' with freeEntry := seg'.freeEntry - 1 }
    totalOobEntry := u64 (n'.totalOobEntry + 1) }

/-- `UPDATE_NVRAM_OOB(0)`: release every segment of superblock `b`. -/
def releaseSegs (b : Nat) (n : Nvram) : Nvram :=
  let seg := n.oobTable b
  { n with
    oobTable := n.oobTable.set b ⟨0, 0, 0⟩
    minAllocSeg :=
      if seg.allocSeg < (n.minAllocSeg : Int) then u32 seg.allocSeg
      else n.minAllocSeg
    totalAllocSeg := u64 (n.totalAllocSeg - seg.allocSeg)
    totalOobEntry := u64 (n.totalOobEntry
      - (seg.allocSeg * c.oobEntryPerSeg - seg.freeEntry))
    totalInvalidEntry := u64 (n.totalInvalidEntry - seg.invalidEntry)
    totalSegBytes := u64 (n.totalSegBytes
      - seg.allocSeg * c.oobEntryPerSeg * oobEntryBytes) }

/-- `UPDATE_NVRAM_OOB` with `VALID` (`add`) or with `0`. -/
def updateNvramOob (b : Nat) (add : Bool) : Ftl Unit := do
  if c.blockNb ≤ b then
    printError .wrongPhysicalAddress
  else if add then
    modifyNvram fun n =>
      let n := if (n.oobTable b).freeEntry = 0
          ∧ n.totalAllocSeg = c.totalOobSeg
        then { n with gcRemapFail := u32 (n.gcRemapFail + 1) } else n
      storeEntry c b n
  else modifyNvram (releaseSegs c b)

/-- `INCREASE_INVALID_OOB_ENTRY_COUNT`. -/
def increaseInvalidOobEntryCount (b : Nat) : Ftl Unit := do
  if c.blockNb ≤ b then
    printError .wrongPhysicalAddress
  else
    modifyNvram fun n =>
      let seg := n.oobTable b
      { n with
        oobTable := n.oobTable.set b
          { seg with invalidEntry := seg.invalidEntry + 1 }
        totalInvalidEntry := u64 (n.totalInvalidEntry + 1) }

/-- The victim of `NVRAM_OOB_GC`: the first superblock with the most
invalid entries, if any has one. -/
def oobVictim (n : Nvram) : Option Nat :=
  ((List.range c.blockNb).foldl
    (fun (best : Int × Option Nat) i =>
      if best.1 < (n.oobTable i).invalidEntry
      then ((n.oobTable i).invalidEntry, some i) else best)
    (0, none)).2

/-- Store `k` entries for superblock `b`. -/
def storeEntries (b : Nat) : Nat → Nvram → Nvram
  | 0, n => n
  | k + 1, n => storeEntries b k (storeEntry c b n)

/-- `NVRAM_OOB_GC`: rewrite the valid entries of the victim. -/
def nvramOobGc : Ftl Ret := do
  let s ← Prog.get
  match oobVictim c s.nvram with
  | none => do
      printError .noVictimSegment
      return .fail
  | some b => do
      let seg := s.nvram.oobTable b
      let entryNb := seg.allocSeg * c.oobEntryPerSeg - seg.freeEntry
      let validEntryNb := entryNb - seg.invalidEntry
      updateNvramOob c b false
      modifyNvram (storeEntries c b validEntryNb.toNat)
      Prog.emit (.io (.nvramGc b
        ((entryNb * oobEntryBytes * nvramReadDelay).tdiv 64
          + (validEntryNb * oobEntryBytes * nvramWriteDelay).tdiv 64)))
      return .success

/-- `stat_use_remap_fail++; return FAIL`. -/
def refuseRemap : Ftl Ret := do
  modifyNvram fun n => { n with useRemapFail := u32 (n.useRemapFail + 1) }
  return .fail

/-- The `do`–`while` of `USE_REMAP`, by the rounds left before `count`
passes `BLOCK_NB`. `ratio` is `invalid_ratio` as a fraction: the C
variable keeps its last value while no entry is stored. The test
against `INVALID_ENTRY_THRE` is exact in doubles for counts below
`2 ^ 53`. -/
def useRemapLoop (b : Nat) : Nat → Nat × Nat → Ftl Ret
  | 0, _ => refuseRemap
  | rounds + 1, ratio => do
      let s ← Prog.get
      let n := s.nvram
      if 0 < (n.oobTable b).freeEntry then return .success
      else if n.totalAllocSeg < c.totalOobSeg then return .success
      else
        let ratio :=
          if 0 < n.totalOobEntry then (n.totalInvalidEntry, n.totalOobEntry)
          else ratio
        if 20 * ratio.1 ≤ ratio.2 then refuseRemap
        else
          match ← nvramOobGc c with
          | .fail => refuseRemap
          | .success => useRemapLoop b rounds ratio

/-- `USE_REMAP`. -/
def useRemap (b : Nat) : Ftl Ret := do
  if c.blockNb ≤ b then
    printError .wrongPhysicalAddress
    return .fail
  else useRemapLoop c b (c.blockNb + 1) (0, 1)

end FemuRemap
