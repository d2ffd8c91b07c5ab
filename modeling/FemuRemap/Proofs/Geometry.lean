/-
Addresses: how page numbers, blocks and superblocks relate under the
geometry the results assume.

A page number `q` splits into flash, block and page (`flashOf`,
`blockOf`, `pageOf`); `ppnAt` puts it together again. Superblock `b` is
block `b` of every flash. `GET_NEW_PAGE` fills a superblock page by
page across the flashes, so its `k`-th page in allocation order is
`pageAt c b k` and `posOf` is the inverse. The 32-bit arithmetic of the
source agrees with these because there are fewer than `2 ^ 31` pages.
-/
import FemuRemap.Model.Ftl
import Mathlib.Tactic.Ring

namespace FemuRemap

open Lib

/-- The geometry: one plane per flash, at least two flashes, fewer than
`2 ^ 31` pages, and no size zero. -/
structure Geo (c : Conf) : Prop where
  planes : c.planesPerFlash = 1
  flash : 2 ≤ c.flashNb
  block : 0 < c.blockNb
  page : 0 < c.pageNb
  sectors : 0 < c.sectorsPerPage
  total : c.pageMappingEntryNb < 2 ^ 31
  entries : 0 < c.oobEntryPerSeg

/-- What the addresses ask for: no size zero, and fewer than `2 ^ 31`
pages. -/
structure Sized (c : Conf) : Prop where
  flash : 0 < c.flashNb
  block : 0 < c.blockNb
  page : 0 < c.pageNb
  total : c.pageMappingEntryNb < 2 ^ 31

/-- A geometry of the FTL has the sizes the address arithmetic needs. -/
theorem Geo.sized {c : Conf} (g : Geo c) : Sized c where
  flash := Nat.lt_of_lt_of_le (by decide) g.flash
  block := g.block
  page := g.page
  total := g.total

/-- Pages of one superblock. -/
def Conf.sbPages (c : Conf) : Nat := c.pageNb * c.flashNb

variable (c : Conf)

-- ========================================================= addresses

/-- The flash of a page number, without the wrap of the C types. -/
def flashOf (q : Nat) : Nat := q / c.pageNb / c.blockNb

/-- The block of a page number, without the wrap. -/
def blockOf (q : Nat) : Nat := q / c.pageNb % c.blockNb

/-- The page within its block, without the wrap. -/
def pageOf (q : Nat) : Nat := q % c.pageNb

/-- The page at an address. -/
def ppnAt (flash block page : Nat) : Nat :=
  (flash * c.blockNb + block) * c.pageNb + page

/-- Place of a page in the allocation order of its superblock. -/
def posOf (q : Nat) : Nat := pageOf c q * c.flashNb + flashOf c q

/-- The `k`-th page of superblock `b` in allocation order. -/
def pageAt (b k : Nat) : Nat :=
  ppnAt c (k % c.flashNb) b (k / c.flashNb)

section

variable {c} (g : Sized c)
include g

/-- One flash holds fewer blocks than there are pages. -/
theorem Sized.blocks_le : c.blockNb * c.flashNb ≤ c.pageMappingEntryNb := by
  unfold Conf.pageMappingEntryNb
  rw [Nat.mul_assoc]
  exact Nat.le_mul_of_pos_left _ g.page

/-- No dimension exceeds the number of pages, which fits its type; so none of
them wraps. -/
theorem Sized.blockNb_le : c.blockNb ≤ c.pageMappingEntryNb :=
  Nat.le_trans (Nat.le_mul_of_pos_right _ g.flash) g.blocks_le

theorem Sized.flashNb_le : c.flashNb ≤ c.pageMappingEntryNb :=
  Nat.le_trans (Nat.le_mul_of_pos_left _ g.block) g.blocks_le

theorem Sized.sbPages_le : c.sbPages ≤ c.pageMappingEntryNb := by
  unfold Conf.sbPages Conf.pageMappingEntryNb
  rw [Nat.mul_right_comm]
  exact Nat.le_mul_of_pos_right _ g.block

theorem Sized.pageNb_le : c.pageNb ≤ c.pageMappingEntryNb := by
  unfold Conf.pageMappingEntryNb
  rw [Nat.mul_assoc]
  exact Nat.le_mul_of_pos_right _ (Nat.mul_pos g.block g.flash)

end

section

variable {c} (g : Geo c)
include g

theorem Geo.flash_pos : 0 < c.flashNb := g.sized.flash

theorem Geo.sbPages_pos : 0 < c.sbPages :=
  Nat.mul_pos g.page g.flash_pos

/-- The empty and victim tables have one root per flash. -/
theorem Geo.emptyTableEntryNb : c.emptyTableEntryNb = c.flashNb := by
  unfold Conf.emptyTableEntryNb
  rw [g.planes, Nat.mul_one]

theorem Geo.victimTableEntryNb : c.victimTableEntryNb = c.flashNb := by
  unfold Conf.victimTableEntryNb
  rw [g.planes, Nat.mul_one]

/-- One block of every flash makes a superblock. -/
theorem Geo.sbBlkNb : c.sbBlkNb = c.flashNb := by
  unfold Conf.sbBlkNb
  rw [g.planes, Nat.mul_one]

/-- The root of a block is its flash. -/
theorem Geo.rootIndex (flash block : Nat) :
    rootIndex c flash block = flash := by
  unfold FemuRemap.rootIndex
  rw [g.planes, Nat.mod_one, Nat.zero_mul, Nat.zero_add]

omit g in
/-- A block's place in the table of blocks. -/
theorem blockIndex_lt {f b : Nat} (hf : f < c.flashNb)
    (hb : b < c.blockNb) : f * c.blockNb + b < c.blockNb * c.flashNb := by
  calc f * c.blockNb + b < f * c.blockNb + c.blockNb := by omega
    _ = (f + 1) * c.blockNb := (Nat.succ_mul f c.blockNb).symm
    _ ≤ c.flashNb * c.blockNb := Nat.mul_le_mul_right _ hf
    _ = c.blockNb * c.flashNb := Nat.mul_comm _ _

omit g in
/-- A page's number is within the mapping table. -/
theorem ppnAt_lt {f b k : Nat} (hf : f < c.flashNb)
    (hb : b < c.blockNb) (hk : k < c.pageNb) :
    ppnAt c f b k < c.pageMappingEntryNb := by
  have h := blockIndex_lt hf hb
  unfold ppnAt Conf.pageMappingEntryNb
  calc (f * c.blockNb + b) * c.pageNb + k
      < (f * c.blockNb + b) * c.pageNb + c.pageNb := by omega
    _ = (f * c.blockNb + b + 1) * c.pageNb := (Nat.succ_mul _ _).symm
    _ ≤ c.blockNb * c.flashNb * c.pageNb := Nat.mul_le_mul_right _ h
    _ = c.pageNb * c.blockNb * c.flashNb := by ring

omit g in
/-- Dropping the page leaves the block's place in the table. -/
theorem ppnAt_div (f b : Nat) {k : Nat} (hk : k < c.pageNb) :
    ppnAt c f b k / c.pageNb = f * c.blockNb + b := by
  unfold ppnAt
  rw [Nat.mul_comm, Nat.mul_add_div (by omega), Nat.div_eq_of_lt hk,
    Nat.add_zero]

omit g in
/-- The page is read back from the number it was put in. -/
theorem pageOf_ppnAt (f b : Nat) {k : Nat} (hk : k < c.pageNb) :
    pageOf c (ppnAt c f b k) = k := by
  unfold pageOf ppnAt
  rw [Nat.mul_comm, Nat.mul_add_mod, Nat.mod_eq_of_lt hk]

omit g in
theorem blockOf_ppnAt (f : Nat) {b k : Nat} (hb : b < c.blockNb)
    (hk : k < c.pageNb) : blockOf c (ppnAt c f b k) = b := by
  unfold blockOf
  rw [ppnAt_div f b hk, Nat.mul_comm, Nat.mul_add_mod,
    Nat.mod_eq_of_lt hb]

omit g in
theorem flashOf_ppnAt (f : Nat) {b k : Nat} (hb : b < c.blockNb)
    (hk : k < c.pageNb) : flashOf c (ppnAt c f b k) = f := by
  unfold flashOf
  rw [ppnAt_div f b hk, Nat.mul_comm, Nat.mul_add_div (by omega),
    Nat.div_eq_of_lt hb, Nat.add_zero]

omit g in
/-- An address determines its page number. -/
theorem ppnAt_of (q : Nat) :
    ppnAt c (flashOf c q) (blockOf c q) (pageOf c q) = q := by
  unfold ppnAt flashOf blockOf pageOf
  rw [Nat.mul_comm (q / c.pageNb / c.blockNb), Nat.div_add_mod,
    Nat.mul_comm, Nat.div_add_mod]

omit g in
/-- The block entry of a page. -/
theorem blockIndex_of (q : Nat) :
    flashOf c q * c.blockNb + blockOf c q = q / c.pageNb := by
  unfold flashOf blockOf
  rw [Nat.mul_comm, Nat.div_add_mod]

omit g in
/-- What is read back is within its dimension. -/
theorem Sized.pageOf_lt (g : Sized c) (q : Nat) : pageOf c q < c.pageNb :=
  Nat.mod_lt _ g.page

omit g in
theorem Sized.blockOf_lt (g : Sized c) (q : Nat) : blockOf c q < c.blockNb :=
  Nat.mod_lt _ g.block

omit g in
/-- The flash only for numbers within the table. -/
theorem flashOf_lt {q : Nat} (hq : q < c.pageMappingEntryNb) :
    flashOf c q < c.flashNb := by
  unfold flashOf
  rw [Nat.div_div_eq_div_mul]
  exact Nat.div_lt_of_lt_mul hq

-- ================================================== superblock order

omit g in
/-- The place of a page in its superblock, taken across the flashes. -/
theorem pos_lt {f k : Nat} (hf : f < c.flashNb) (hk : k < c.pageNb) :
    k * c.flashNb + f < c.sbPages := by
  unfold Conf.sbPages
  calc k * c.flashNb + f < k * c.flashNb + c.flashNb := by omega
    _ = (k + 1) * c.flashNb := (Nat.succ_mul _ _).symm
    _ ≤ c.pageNb * c.flashNb := Nat.mul_le_mul_right _ hk

theorem Geo.posOf_lt {q : Nat} (hq : q < c.pageMappingEntryNb) :
    posOf c q < c.sbPages :=
  pos_lt (flashOf_lt hq) (g.sized.pageOf_lt q)

omit g in
/-- A place determines a page of the block, -/
theorem pos_div_lt {k : Nat} (hk : k < c.sbPages) :
    k / c.flashNb < c.pageNb :=
  Nat.div_lt_of_lt_mul (by rwa [Nat.mul_comm])

/-- and a flash. -/
theorem Geo.pos_mod_lt (k : Nat) : k % c.flashNb < c.flashNb :=
  Nat.mod_lt _ g.flash_pos

omit g in
theorem pos_mod {f : Nat} (hf : f < c.flashNb) (k : Nat) :
    (k * c.flashNb + f) % c.flashNb = f := by
  rw [Nat.mul_comm, Nat.mul_add_mod, Nat.mod_eq_of_lt hf]

theorem Geo.pos_div {f : Nat} (hf : f < c.flashNb) (k : Nat) :
    (k * c.flashNb + f) / c.flashNb = k := by
  rw [Nat.mul_comm, Nat.mul_add_div g.flash_pos, Nat.div_eq_of_lt hf,
    Nat.add_zero]

/-- A place of a superblock is a page of the device. -/
theorem Geo.pageAt_lt {b k : Nat} (hb : b < c.blockNb)
    (hk : k < c.sbPages) : pageAt c b k < c.pageMappingEntryNb :=
  ppnAt_lt (g.pos_mod_lt k) hb (pos_div_lt hk)

omit g in
/-- Its block is the superblock's number. -/
theorem blockOf_pageAt {b k : Nat} (hb : b < c.blockNb)
    (hk : k < c.sbPages) : blockOf c (pageAt c b k) = b :=
  blockOf_ppnAt _ hb (pos_div_lt hk)

omit g in
/-- Its place is the one it was taken from. -/
theorem posOf_pageAt {b k : Nat} (hb : b < c.blockNb)
    (hk : k < c.sbPages) : posOf c (pageAt c b k) = k := by
  unfold posOf pageAt
  rw [pageOf_ppnAt _ _ (pos_div_lt hk), flashOf_ppnAt _ hb (pos_div_lt hk),
    Nat.mul_comm, Nat.div_add_mod]

/-- Every page number is at its place of its superblock. -/
theorem Geo.pageAt_of {q : Nat} (hq : q < c.pageMappingEntryNb) :
    pageAt c (blockOf c q) (posOf c q) = q := by
  have hf := flashOf_lt hq
  unfold pageAt posOf
  rw [pos_mod hf, g.pos_div hf, ppnAt_of]

end

-- ============================================= the source's arithmetic

section

variable {c} (g : Sized c)
include g

/-- The code's division wraps nowhere for a page of the device. -/
theorem Sized.calcFlash_eq {q : Nat} (hq : q < c.pageMappingEntryNb) :
    calcFlash c q = flashOf c q := by
  have h₁ := flashOf_lt hq
  have h₂ := g.flashNb_le
  have h₃ := g.total
  unfold calcFlash
  refine u32_of_lt ?_ (by omega)
  rw [← Int.ofNat_tdiv, ← Int.ofNat_tdiv, flashOf]

theorem Sized.calcBlock_eq (q : Nat) : calcBlock c q = blockOf c q := by
  have h₁ := g.blockOf_lt q
  have h₂ := g.blockNb_le
  have h₃ := g.total
  unfold calcBlock
  refine u32_of_lt ?_ (by omega)
  rw [← Int.ofNat_tdiv, ← Int.ofNat_tmod, blockOf]

theorem Sized.calcPage_eq (q : Nat) : calcPage c q = pageOf c q := by
  have h₁ := g.pageOf_lt q
  have h₂ := g.pageNb_le
  have h₃ := g.total
  unfold calcPage
  refine u32_of_lt ?_ (by omega)
  rw [← Int.ofNat_tmod, pageOf]

/-- The code's index of a block, without its casts. -/
theorem Sized.blockIndex_eq {f b : Nat} (hf : f < c.flashNb)
    (hb : b < c.blockNb) : blockIndex c f b = f * c.blockNb + b := by
  have h₁ := blockIndex_lt hf hb
  have h₂ := g.blocks_le
  have h₃ := g.total
  unfold blockIndex
  exact u32_of_lt (by push_cast; rfl) (by omega)

theorem Sized.blockIndex_mod {f b : Nat} (hf : f < c.flashNb)
    (hb : b < c.blockNb) : blockIndex c f b % c.blockNb = b := by
  rw [g.blockIndex_eq hf hb, Nat.mul_comm, Nat.mul_add_mod,
    Nat.mod_eq_of_lt hb]

/-- The block of a page is one of its superblock. -/
theorem Sized.pageIndex_mod {q : Nat} (hq : q < c.pageMappingEntryNb) :
    blockIndex c (calcFlash c q) (calcBlock c q) % c.blockNb
      = blockOf c q := by
  rw [g.calcFlash_eq hq, g.calcBlock_eq]
  exact g.blockIndex_mod (flashOf_lt hq) (g.blockOf_lt q)

/-- The code's page number, without its casts. -/
theorem Sized.encodePpn_eq {f b k : Nat} (hf : f < c.flashNb)
    (hb : b < c.blockNb) (hk : k < c.pageNb) :
    encodePpn c f b k = ppnAt c f b k := by
  have h₁ := ppnAt_lt hf hb hk
  have h₃ := g.total
  unfold encodePpn
  refine u32_of_lt ?_ (by omega)
  unfold ppnAt
  push_cast
  ring

/-- The collector's spelling of the same address. -/
theorem Sized.oldPpn_eq {f b k : Nat} (hf : f < c.flashNb)
    (hb : b < c.blockNb) (hk : k < c.pageNb) :
    u32 (f * c.pagesPerFlash + b * c.pageNb + k) = ppnAt c f b k := by
  have h₁ := ppnAt_lt hf hb hk
  have h₃ := g.total
  refine u32_of_lt ?_ (by omega)
  unfold ppnAt Conf.pagesPerFlash
  push_cast
  ring

end

-- ========================================================= page states

/-- `valid_array` of a page. -/
def Ssd.valid (s : Ssd) (q : Nat) : Int :=
  (s.blockStateTable (q / c.pageNb)).validArray (q % c.pageNb)

variable {c}

/-- The valid array of a block holds the validity of its pages. -/
theorem Sized.getBlockStateEntry_valid (g : Sized c) (s : Ssd) {f b k : Nat}
    (hf : f < c.flashNb) (hb : b < c.blockNb) (hk : k < c.pageNb) :
    (getBlockStateEntry c s f b).validArray k
      = s.valid c (ppnAt c f b k) := by
  unfold getBlockStateEntry Ssd.valid
  rw [g.blockIndex_eq hf hb, ppnAt_div f b hk]
  exact congrArg _ (pageOf_ppnAt f b hk).symm

/-- The same, from the page's number. -/
theorem Sized.validArray_page (g : Sized c) (s : Ssd) {q : Nat}
    (hq : q < c.pageMappingEntryNb) :
    (getBlockStateEntry c s (flashOf c q) (blockOf c q)).validArray
      (pageOf c q) = s.valid c q := by
  rw [g.getBlockStateEntry_valid s (flashOf_lt hq) (g.blockOf_lt q)
    (g.pageOf_lt q), ppnAt_of]

end FemuRemap