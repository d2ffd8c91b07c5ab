/-
The page cutting loops of `_FTL_READ`, `_FTL_WRITE`,
`femu_discard_process` and `ALLOC_IO_REQUEST`, at the widths of the
source: `lba` is an `int64_t`, `remain` and the skips are `unsigned int`,
`io_page_nb` is an `int`. `SECTORS_PER_PAGE` is read into an `int64_t`,
and it is there that the differences are taken.

What the loops do with a page is in `Model.Ftl`, over the slots of a
request. Here an iteration visits its lpn, its sectors and its skips.
-/
import FemuRemap.Lib.CInt
import FemuRemap.Lib.Loop
import FemuRemap.Model.Ftl

namespace FemuRemap.Cutting

open Lib

/-- What one iteration works on. -/
structure Cut where
  lba : Int
  lpn : Int
  leftSkip : Nat
  rightSkip : Nat
  sects : Nat
deriving DecidableEq, Repr

/-- The locals of a loop. -/
structure Cursor where
  lba : Int
  remain : Nat
  leftSkip : Nat
deriving DecidableEq, Repr

/-- `right_skip`. -/
def rightSkip (spp remain leftSkip : Nat) : Nat :=
  if (spp : Int) - leftSkip < remain then 0
  else u32 ((spp : Int) - leftSkip - remain)

/-- `read_sects`, `write_sects` or `sects`. -/
def sects (spp remain leftSkip : Nat) : Nat :=
  u32 ((spp : Int) - leftSkip - rightSkip spp remain leftSkip)

/-- `left_skip` at the start. -/
def firstSkip (spp : Nat) (sectorNb : Int) : Nat := u32 (sectorNb.tmod spp)

/-- The body of the loops that walk over the lbas. -/
def cutBody (spp : Nat) (s : Cursor) : Option (Cut × Cursor) :=
  if 0 < s.remain then
    let n := sects spp s.remain s.leftSkip
    some
      (⟨s.lba, s.lba.tdiv spp, s.leftSkip,
          rightSkip spp s.remain s.leftSkip, n⟩,
        ⟨i64 (s.lba + n), u32 ((s.remain : Int) - n), 0⟩)
  else none

def cutStart (spp : Nat) (sectorNb : Int) (length : Nat) : Cursor :=
  ⟨sectorNb, length, firstSkip spp sectorNb⟩

/-- The first loop of `_FTL_READ`, which looks the pages up. -/
def ftlReadLookupLoop : Nat → Cursor → Option (Cut × Cursor) := cutBody

/-- The second loop of `_FTL_READ`, which reads them. -/
def ftlReadLoop : Nat → Cursor → Option (Cut × Cursor) := cutBody

/-- The loop of `_FTL_WRITE`. -/
def ftlWriteLoop : Nat → Cursor → Option (Cut × Cursor) := cutBody

/-- The loop of `femu_discard_process`. -/
def femuDiscardLoop : Nat → Cursor → Option (Cut × Cursor) := cutBody

/-- The loops that walk over the lbas. -/
def lbaLoops : List (Nat → Cursor → Option (Cut × Cursor)) :=
  [ftlReadLookupLoop, ftlReadLoop, ftlWriteLoop, femuDiscardLoop]

/-- The locals of the loop of `ALLOC_IO_REQUEST`, which has no lba. -/
structure Counter where
  remain : Nat
  leftSkip : Nat
  ioPageNb : Int
deriving DecidableEq, Repr

/-- Its body, by the sectors of an iteration. -/
def allocIoRequestLoop (spp : Nat) (s : Counter) :
    Option (Nat × Counter) :=
  if 0 < s.remain then
    let n := sects spp s.remain s.leftSkip
    some (n, ⟨u32 ((s.remain : Int) - n), 0, i32 (s.ioPageNb + 1)⟩)
  else none

def allocStart (spp : Nat) (sectorNb : Int) (length : Nat) : Counter :=
  ⟨length, firstSkip spp sectorNb, 0⟩

end FemuRemap.Cutting
