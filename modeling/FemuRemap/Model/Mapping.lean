/-
`ftl_mapping_manager.c`: physical page numbers, the allocation of a
page, and the two halves of a mapping update.

A physical page number is computed in `unsigned int` arithmetic and
stored in an `int64_t`; the decoding divides in 64 bits and truncates
toward zero, which is visible on the `-1` of an unmapped page that
`SSD_REMAP` passes to `CALC_BLOCK`.
-/
import FemuRemap.Model.InverseMapping

namespace FemuRemap

open Lib

variable (c : Conf)

/-- The `int64_t` value of a mapping entry. -/
def ppnValue : Option Nat → Int
  | none => -1
  | some p => p

/-- `CALC_FLASH`. -/
def calcFlash (ppn : Int) : Nat :=
  u32 ((ppn.tdiv c.pageNb).tdiv c.blockNb)

/-- `CALC_BLOCK`. -/
def calcBlock (ppn : Int) : Nat :=
  u32 ((ppn.tdiv c.pageNb).tmod c.blockNb)

/-- `CALC_PAGE`. -/
def calcPage (ppn : Int) : Nat := u32 (ppn.tmod c.pageNb)

/-- The physical page number of an address, as `GET_NEW_PAGE` and the
collector compute it. -/
def encodePpn (flash block page : Nat) : Nat :=
  u32 (flash * c.blockNb * c.pageNb + block * c.pageNb + page)

/-- The same number as `GET_NEW_PAGE` and `UPDATE_BLOCK_STATE_ENTRY`
write it out, an `unsigned int` at every step. -/
def addressPpn (flash block page : Nat) : Nat :=
  u32 ((u32 ((u32 ((u32 (flash * c.blockNb) : Int) * c.pageNb) : Int)
    + (u32 (block * c.pageNb) : Int)) : Int) + page)

/-- And as `SB_GARBAGE_COLLECTION` does for `old_ppn`; `PAGES_PER_FLASH`
is an `int` product. -/
def oldPpn (flash block page : Nat) : Nat :=
  u32 ((u32 ((u32 (flash * i32 (c.pageNb * c.blockNb)) : Int)
    + (u32 (block * c.pageNb) : Int)) : Int) + page)

-- ==================================================== allocation

/-- The end of `GET_NEW_PAGE`: the page number and the block's cursor. -/
def handOut (r : Nat) (e : EmptyBlock) : Ftl (Option Nat) := do
  let s ← Prog.get
  let ppn := encodePpn c e.phyFlashNb e.phyBlockNb e.currPhyPageNb
  let i := blockIndex c e.phyFlashNb e.phyBlockNb
  Prog.emit (.alloc ppn ((s.blockStateTable i).validArray e.currPhyPageNb)
    (s.inverseMappingTable ppn).lpns (s.handed i))
  modifyLists fun l =>
    { l with
      emptyBlockList := l.emptyBlockList.set r
        { l.emptyBlockList r with
          head := some { e with currPhyPageNb := e.currPhyPageNb + 1 } } }
  Prog.modify fun s =>
    { s with handed := s.handed.set i (s.handed i ++ [e.currPhyPageNb]) }
  return some ppn

/-- `GET_NEW_PAGE` with mode `VICTIM_OVERALL`: the new page, or `none`
for `FAIL`. The `SB_DEBUG` block reads the returned entry before the
test for `NULL`. -/
def getNewPage (fuel : Nat) : Ftl (Option Nat) := do
  match ← getEmptyBlock c fuel with
  | none => Prog.fault .nullEmptyBlock
  | some r => do
      let s ← Prog.get
      match (s.lists.emptyBlockList r).head with
      | none => Prog.fault .nullEmptyBlock
      | some e =>
          let planeNb :=
            e.phyFlashNb * c.planesPerFlash + e.phyBlockNb % c.planesPerFlash
          let blockNb := e.phyBlockNb / c.planesPerFlash
          let deb := s.lists.sbDeb
          if planeNb = 0 then
            if deb.planeNb ≠ c.planesPerFlash * c.flashNb - 1 then
              printError .sbLastPlane
              return none
            else
              modifyLists fun l => { l with sbDeb := ⟨0, blockNb⟩ }
              handOut c r e
          else if deb.blockNb ≠ blockNb then
            printError .sbBlockNb
            return none
          else if deb.planeNb ≠ planeNb - 1 then
            printError .sbNextPlane
            return none
          else
            modifyLists fun l =>
              { l with sbDeb := { l.sbDeb with planeNb := planeNb } }
            handOut c r e

-- ================================================= mapping updates

/-- `mapping_table[lpn] = ppn`. -/
def setMapping (lpn : Nat) (ppn : Option Nat) : Ftl Unit :=
  Prog.modify fun s => { s with mappingTable := s.mappingTable.set lpn ppn }

/-- `in_nvram[lpn] = v`. -/
def setInNvram (lpn : Nat) (v : Int) : Ftl Unit :=
  Prog.modify fun s => { s with inNvram := s.inNvram.set lpn v }

/-- `UPDATE_BLOCK_STATE_ENTRY` at the address of a page number. -/
def updatePageState (ppn : Nat) (mark : PageMark) : Ftl Unit :=
  updateBlockStateEntry c (calcFlash c ppn) (calcBlock c ppn)
    (calcPage c ppn) mark

/-- `UPDATE_OLD_PAGE_MAPPING`: take the lpn out of the page it maps to.
The mapping table itself is left to the caller. -/
def updateOldPageMapping (lpn : Nat) : Ftl Unit := do
  let s ← Prog.get
  match s.mappingTable lpn with
  | none => return ()
  | some old => do
      match ← decreaseInverseMapping (some old) lpn with
      | .fail => return ()
      | .success => do
          updatePageState c old .invalid
          let s ← Prog.get
          if s.inNvram lpn = 1 then
            increaseInvalidOobEntryCount c (calcBlock c old)

/-- `UPDATE_NEW_PAGE_MAPPING`. -/
def updateNewPageMapping (lpn ppn : Nat) (type : BlockType) : Ftl Unit := do
  match ← increaseInverseMapping (some ppn) lpn with
  | .fail => return ()
  | .success => do
      setMapping lpn (some ppn)
      updateBlockState c (calcFlash c ppn) (calcBlock c ppn) type
      updatePageState c ppn .valid

end FemuRemap
