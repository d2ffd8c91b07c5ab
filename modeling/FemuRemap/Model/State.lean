/-
The data model of the remapping flash translation layer: the geometry
(`struct ssdconf`), the state (`struct ssdstate`), what a run reports,
and `FTL_INIT`.

# Which build

The default one: page mapping (`PAGE_MAP`, hence `GC_ON`,
`GC_TRIGGER_OVERALL`, `GC_VICTIM_OVERALL`), superblocks with their
debug checks (`SUPERBLOCK`, `SB_DEBUG`), no deduplication
(`DUP_RATIO` undefined), no map cache, no `X_FTL` — so `xl2p_ppn` keeps
the `-1` that `SSD_INIT` gave it and the collector's branch on it is
never taken. `calloc` never fails.

# How C data is rendered

- Arrays are total tables (`Table`). A sentinel `-1` in
  `mapping_table` is `none`.
- The linked lists are lists from head to tail. `lpn_cnt` and
  `valid_array` are `int8_t` and keep their wrapping; the length of an
  inverse list is unbounded, as the heap's is.
- A pointer to the head of an empty-block root is the root's index.
- Time is not part of the state. Every flash and NVRAM access that the
  timing model would charge is reported as an event instead.

# Ghost state

Two tables are instrumentation and steer nothing: `content`, what each
physical page was programmed with, and `handed`, the pages of a block
that `GET_NEW_PAGE` returned since the block was last erased.
-/
import FemuRemap.Lib.Table
import FemuRemap.Lib.Prog
import FemuRemap.Lib.CInt

namespace FemuRemap

open Lib

-- ======================================================= geometry

/-- `struct ssdconf`: the configured geometry, the collection threshold
and the size of the NVRAM. -/
structure Conf where
  flashNb : Nat
  blockNb : Nat
  pageNb : Nat
  planesPerFlash : Nat
  sectorsPerPage : Nat
  gcThresholdBlockNb : Nat
  totalOobSeg : Nat
  oobEntryPerSeg : Nat

namespace Conf

variable (c : Conf)

def pagesPerFlash : Nat := c.pageNb * c.blockNb

def pageMappingEntryNb : Nat := c.pageNb * c.blockNb * c.flashNb

def blockMappingEntryNb : Nat := c.blockNb * c.flashNb

def sectorNb : Nat := c.sectorsPerPage * c.pageMappingEntryNb

def eachEmptyTableEntryNb : Nat := c.blockNb / c.planesPerFlash

def emptyTableEntryNb : Nat := c.flashNb * c.planesPerFlash

def victimTableEntryNb : Nat := c.flashNb * c.planesPerFlash

/-- `SB_BLK_NB`: blocks of one superblock. -/
def sbBlkNb : Nat := c.flashNb * c.planesPerFlash

end Conf

/-- `TOTAL_OOB_SEG`. -/
def totalOobSegDefault : Nat := 20480

/-- `OOB_ENTRY_PER_SEG`. -/
def oobEntryPerSegDefault : Nat := 64

/-- `OOB_ENTRY_BYTES`. -/
def oobEntryBytes : Nat := 16

/-- `NVRAM_READ_DELAY`. -/
def nvramReadDelay : Nat := 50

/-- `NVRAM_WRITE_DELAY`. -/
def nvramWriteDelay : Nat := 500

/-- `INIT_SSD_CONFIG`'s derived threshold for the shipped constants.

`GC_THRESHOLD_BLOCK_NB` is `(int)((1 - 0.9) * n)` on doubles. The
double `1 - 0.9` lies below one tenth by a relative `2 ^ -52`, at least
one unit in the last place of every product, so a multiple of ten
truncates to one less: the value is `(n - 1) / 10`. -/
def initSsdConfig (flashNb blockNb pageNb sectorsPerPage : Nat) : Conf where
  flashNb := flashNb
  blockNb := blockNb
  pageNb := pageNb
  planesPerFlash := 1
  sectorsPerPage := sectorsPerPage
  gcThresholdBlockNb := (blockNb * flashNb - 1) / 10
  totalOobSeg := totalOobSegDefault
  oobEntryPerSeg := oobEntryPerSegDefault

-- ========================================================== state

/-- `empty_block_entry`. -/
structure EmptyBlock where
  phyFlashNb : Nat
  phyBlockNb : Nat
  currPhyPageNb : Nat
deriving DecidableEq

/-- `empty_block_root`: the list from `empty_head`, the active block
`head`, and the count of the list. -/
structure EmptyRoot where
  emptyHead : List EmptyBlock
  head : Option EmptyBlock
  emptyBlockNb : Nat
deriving DecidableEq

/-- `victim_block_entry`. -/
structure VictimBlock where
  phyFlashNb : Nat
  phyBlockNb : Nat
deriving DecidableEq

/-- `victim_block_root`. -/
structure VictimRoot where
  entries : List VictimBlock
  victimBlockNb : Nat
deriving DecidableEq

/-- `sb_debug`: plane and block of the last page handed out. -/
structure SbDebug where
  planeNb : Nat
  blockNb : Nat
deriving DecidableEq

/-- Where every block is: the empty lists with their active heads, the
victim lists, their totals, and the allocation cursor. -/
structure BlockLists where
  emptyBlockList : Table EmptyRoot
  victimBlockList : Table VictimRoot
  totalEmptyBlockNb : Int
  totalVictimBlockNb : Int
  emptyBlockTableIndex : Nat
  sbDeb : SbDebug

/-- `inverse_mapping_entry`: the `int8_t` counter and the nodes. -/
structure InverseEntry where
  lpnCnt : Int
  lpns : List Nat
deriving DecidableEq

/-- The block types in use. -/
inductive BlockType where
  | emptyBlock
  | dataBlock
deriving DecidableEq

/-- `block_state_entry`: `valid_array` holds a page's reference count,
`0` when free and `-1` when invalid. -/
structure BlockState where
  validPageNb : Nat
  type : BlockType
  validArray : Table Int

/-- `NVRAM_OOB_seg`: the segments of one superblock. -/
structure OobSeg where
  allocSeg : Int
  freeEntry : Int
  invalidEntry : Int
deriving DecidableEq

/-- `NVRAM_OOB_TABLE` with the totals kept beside it. -/
structure Nvram where
  oobTable : Table OobSeg
  totalAllocSeg : Nat
  totalOobEntry : Nat
  totalInvalidEntry : Nat
  totalSegBytes : Nat
  maxAllocSeg : Nat
  minAllocSeg : Nat
  useRemapFail : Nat
  gcRemapFail : Nat

/-- The `stat_` counters and the collector's own. -/
structure Stat where
  totalReadCount : Nat
  totalWriteCount : Nat
  hostWriteCount : Nat
  gcCount : Nat
  eraseCount : Nat
  gcWriteCount : Nat
  remapCnt : Nat
  reducedWrite : Nat
  ppnValid : Nat
  ppnN21 : Nat
  ppnInvalid : Nat
  ppnFree : Nat
  lpnValid : Nat
  maxValidArray : Int
  failCnt : Int
  gcRounds : Int
  mycopyPageNb : Int
  mygcCnt : Int
deriving DecidableEq

/-- `struct ssdstate`. -/
structure Ssd where
  lists : BlockLists
  mappingTable : Table (Option Nat)
  inNvram : Table Int
  inverseMappingTable : Table InverseEntry
  blockStateTable : Table BlockState
  nvram : Nvram
  stat : Stat
  /-- Ghost: what a physical page was programmed with. -/
  content : Table (Option Nat)
  /-- Ghost: pages of a block returned since its last erase. -/
  handed : Table (List Nat)

-- ============================================== what a run reports

/-- The diagnostics of the modelled functions, by the condition they
report. -/
inductive Msg where
  /-- "There is no empty block". -/
  | noEmptyBlock
  /-- "Plane!=0, but head == NULL". -/
  | planeHeadNull
  /-- "ssd->empty_block_table_index!=EMPTY_TABLE_ENTRY_NB-1". -/
  | indexNotLast
  /-- "This cannot happen!". -/
  | cannotHappen
  /-- "1ERROR: last_plane, new_plane". -/
  | sbLastPlane
  /-- "ERROR: ssd->sb_deb.block_nb, block_nb". -/
  | sbBlockNb
  /-- "2ERROR: last_plane, new_plane". -/
  | sbNextPlane
  /-- "Wrong physical address". -/
  | wrongPhysicalAddress
  /-- "VALID Wrong valid array". -/
  | validWrong
  /-- "INVALID Wrong valid array". -/
  | invalidWrong
  /-- "FREE Wrong valid array". -/
  | freeWrong
  /-- `INCREASE_INVERSE_MAPPING` on `ppn = -1`. -/
  | increaseNoPpn
  /-- `DECREASE_INVERSE_MAPPING` on `ppn = -1`. -/
  | decreaseNoPpn
  /-- "Decrease inverse mapping at 0 entry". -/
  | decreaseZero
  /-- "No victim NVRAM segment". -/
  | noVictimSegment
  /-- "There is no victim block--1". -/
  | noVictimBlock
  /-- "There is no victim superblock--2". -/
  | noVictimSuperblock
  /-- "Victim block count error". -/
  | victimCount
  /-- "Victim block offset error". -/
  | victimOffset
  /-- "Too many valid pages". -/
  | tooManyValid
  /-- `SB_GARBAGE_COLLECTION`: "Get new page fail". -/
  | gcGetNewPage
  /-- `SB_GARBAGE_COLLECTION`: `valid_array` against `lpn_cnt`. -/
  | gcLpnCnt
  /-- "The number of valid page is not correct". -/
  | gcPageCount
  /-- `_FTL_WRITE`: "Get new page fail". -/
  | writeGetNewPage
  /-- "Exceed Sector number". -/
  | exceedSector
  /-- "Partical page trim!!". -/
  | partialTrim
  /-- "ERROR REMAP ope". -/
  | remapOpe
deriving DecidableEq

/-- An access that the timing model charges. -/
inductive Io where
  | pageRead (flash block page : Nat)
  | pageWrite (flash block page : Nat)
  | partialWrite (oldFlash oldBlock oldPage flash block page : Nat)
  | blockErase (flash block : Nat)
  | nvram (block needTime : Nat)
  /-- The rewrite of a superblock's entries. Its time is negative if more
  entries are invalid than were stored, as after a wrapped count. -/
  | nvramGc (block : Nat) (needTime : Int)
  /-- The collector's read of a victim's entries, which also delays
  every chip. -/
  | gcNvramRead (block needTime : Nat)
deriving DecidableEq

/-- What a run reports. -/
inductive Event where
  | error (m : Msg)
  | io (o : Io)
  /-- `GET_NEW_PAGE` returns a page: its `valid_array`, its inverse
  list, and the pages of its block returned since the last erase, all
  before the call. -/
  | alloc (ppn : Nat) (valid : Int) (lpns handed : List Nat)
  /-- An lpn enters the inverse list of a page; `lpns` is the list
  before. -/
  | share (ppn lpn : Nat) (lpns : List Nat)
  /-- An `int8_t` counter is incremented. -/
  | count (old new : Int)
  /-- `UPDATE_BLOCK_STATE_ENTRY` returns `SUCCESS`; the `valid_array` of
  the page and the statistics, before and after. -/
  | restated (old new : Int) (before after : Stat)
  /-- `UPDATE_BLOCK_STATE_ENTRY` returns `FAIL`. -/
  | refused
  /-- A block is erased while these lpns map into it. -/
  | erase (flash block : Nat) (mapped : List Nat)
  /-- A collection starts on a victim with `live` live pages, with
  `room` pages left in the active superblock and `segs` segments
  allocated in the NVRAM. -/
  | collect (live room segs : Nat)
  /-- `GC_CHECK` ends with `total_empty_block_nb` and
  `stat_ppn_free`. -/
  | checked (emptyBlockNb : Int) (ppnFree : Nat)
deriving DecidableEq

/-- How a run stops dead. -/
inductive Fault where
  /-- `curr_empty_block->phy_flash_nb` with `curr_empty_block == NULL`. -/
  | nullEmptyBlock
  /-- A list walk in the allocator or the victim lists ran off its
  end. -/
  | nullBlockEntry
  /-- `victim_inverse_node->pre` or `->next` on a missing node. -/
  | nullInverseNode
  /-- The bound on loop iterations was used up. -/
  | outOfFuel
deriving DecidableEq

/-- The modelled functions: state, events, faults. -/
abbrev Ftl (α : Type) : Type := Prog Ssd Event Fault α

/-- `SUCCESS` and `FAIL`. -/
inductive Ret where
  | success
  | fail
deriving DecidableEq

/-- `printf("ERROR ...")`. -/
def printError (m : Msg) : Ftl Unit := Prog.emit (.error m)

/-- A diagnostic under a condition. -/
def printErrorIf (b : Prop) [Decidable b] (m : Msg) : Ftl Unit :=
  if b then printError m else pure ()

/-- Change the block lists. -/
def modifyLists (f : BlockLists → BlockLists) : Ftl Unit :=
  Prog.modify fun s => { s with lists := f s.lists }

/-- Change the NVRAM accounting. -/
def modifyNvram (f : Nvram → Nvram) : Ftl Unit :=
  Prog.modify fun s => { s with nvram := f s.nvram }

/-- Change the statistics. -/
def modifyStat (f : Stat → Stat) : Ftl Unit :=
  Prog.modify fun s => { s with stat := f s.stat }

-- ===================================================== FTL_INIT

/-- `INIT_EMPTY_BLOCK_LIST`, the list of root `i * FLASH_NB + j`: every
block of plane `i` of flash `j`. -/
def initEmptyRoot (c : Conf) (r : Nat) : EmptyRoot :=
  let plane := r / c.flashNb
  let flash := r % c.flashNb
  { emptyHead := ((List.range c.blockNb).filter
      fun k => k % c.planesPerFlash = plane).map fun k => ⟨flash, k, 0⟩
    head := none
    emptyBlockNb := c.eachEmptyTableEntryNb }

/-- `INIT_EMPTY_BLOCK_LIST` and `INIT_VICTIM_BLOCK_LIST`. -/
def initBlockLists (c : Conf) : BlockLists where
  emptyBlockList :=
    .ofFn ⟨[], none, 0⟩ c.emptyTableEntryNb (initEmptyRoot c)
  victimBlockList := .fill ⟨[], 0⟩
  totalEmptyBlockNb := c.blockMappingEntryNb
  totalVictimBlockNb := 0
  emptyBlockTableIndex := 0
  sbDeb := ⟨c.planesPerFlash * c.flashNb - 1, 0⟩

/-- `INIT_NVRAM_OOB`. -/
def initNvramOob : Nvram where
  oobTable := .fill ⟨0, 0, 0⟩
  totalAllocSeg := 0
  totalOobEntry := 0
  totalInvalidEntry := 0
  totalSegBytes := 0
  maxAllocSeg := 0
  minAllocSeg := 100
  useRemapFail := 0
  gcRemapFail := 0

/-- `INIT_STAT_COUNT`. -/
def initStatCount (c : Conf) : Stat where
  totalReadCount := 0
  totalWriteCount := 0
  hostWriteCount := 0
  gcCount := 0
  eraseCount := 0
  gcWriteCount := 0
  remapCnt := 0
  reducedWrite := 0
  ppnValid := 0
  ppnN21 := 0
  ppnInvalid := 0
  ppnFree := c.pageMappingEntryNb
  lpnValid := 0
  maxValidArray := 0
  failCnt := 0
  gcRounds := 0
  mycopyPageNb := 0
  mygcCnt := 0

/-- `FTL_INIT`: nothing mapped, every page free, every block empty. -/
def ftlInit (c : Conf) : Ssd where
  lists := initBlockLists c
  mappingTable := .fill none
  inNvram := .fill (-1)
  inverseMappingTable := .fill ⟨0, []⟩
  blockStateTable := .fill ⟨0, .emptyBlock, .fill 0⟩
  nvram := initNvramOob
  stat := initStatCount c
  content := .fill none
  handed := .fill []

end FemuRemap
