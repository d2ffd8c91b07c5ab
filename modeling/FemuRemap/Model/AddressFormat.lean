/-
The physical addresses of OpenChannel mode (`femu_oc_init` and
`femu_oc_init_id_ctrl`).

An address has a field for each coordinate, from the sector up to the
channel. A field has the bits of its largest value; the sectors of the
device are counted by the plain product. `femu_oc_rw` takes the address
itself as the number of the sector in `meta_buf` and in `heap_storage`:
`femu_oc_ppa_to_off`, which computes the number from the fields, returns
its argument before it comes to that.
-/
import FemuRemap.Lib.CInt
import FemuRemap.Lib.Fields
import FemuRemap.Model.OpenChannel

namespace FemuRemap.OpenChannel

open Lib

/-- The layout that the parameters of the device give. -/
structure Layout where
  numCh : UInt8
  numLun : UInt8
  numPln : UInt8
  pgsPerBlk : UInt16
  secPerPg : UInt8
deriving DecidableEq

/-- The layout with `num_blk` of the group, the blocks of a plane. -/
structure Geometry extends Layout where
  numBlk : UInt16
deriving DecidableEq

/-- `chnl_blks`. -/
def Layout.chnlBlks (l : Layout) (nsBlks : Nat) : Nat :=
  nsBlks / (l.secPerPg.toNat * l.pgsPerBlk.toNat) / l.numCh.toNat

/-- `mpos`, for the plane modes there are. -/
def Layout.mpos (l : Layout) : Option Nat :=
  if l.numPln = 1 then some 0x10101
  else if l.numPln = 2 then some 0x20202
  else if l.numPln = 4 then some 0x40404
  else none

/-- `femu_oc_init` up to the geometry; `none` is `-EINVAL`. -/
def femuOcInit (l : Layout) (nsBlks : Nat) : Option Geometry :=
  l.mpos.map fun _ =>
    { l with
      numBlk := UInt16.ofNat
        (l.chnlBlks nsBlks % 2 ^ 16 / (l.numLun.toNat * l.numPln.toNat)) }

/-- `total_secs`, from `sec_per_pl` up. -/
def Geometry.totalSecs (g : Geometry) : Nat :=
  let secPerPl := u32 (g.secPerPg.toNat * g.numPln.toNat : Nat)
  let secPerBlk := u32 (secPerPl * g.pgsPerBlk.toNat : Nat)
  let secPerLun := u32 (secPerBlk * g.numBlk.toNat : Nat)
  let secPerCh := u32 (secPerLun * g.numLun.toNat : Nat)
  u32 (secPerCh * g.numCh.toNat : Nat)

-- ================================================= the address format

/-- `qemu_fls`: 32 minus the leading zeros of an `int`. -/
def qemuFls (i : Int) : Nat := Fields.bits (u32 i)

/-- A field of an address. -/
structure Field where
  offset : Nat
  len : Nat
deriving DecidableEq

/-- The field of `n` values above another one. -/
def Field.above (f : Field) (n : Nat) : Field :=
  ⟨f.offset + f.len, qemuFls (n - 1)⟩

/-- `FEMU_OC_IdAddrFormat`. -/
structure AddrFormat where
  sect : Field
  pln : Field
  pg : Field
  blk : Field
  lun : Field
  ch : Field
deriving DecidableEq

/-- `femu_oc_init_id_ctrl`: CHANNEL | LUN | BLOCK | PAGE | PLANE |
SECTOR. -/
def Geometry.initIdCtrl (g : Geometry) : AddrFormat :=
  let sect : Field := ⟨0, qemuFls (g.secPerPg.toNat - 1)⟩
  let pln := sect.above g.numPln.toNat
  let pg := pln.above g.pgsPerBlk.toNat
  let blk := pg.above g.numBlk.toNat
  let lun := blk.above g.numLun.toNat
  let ch := lun.above g.numCh.toNat
  ⟨sect, pln, pg, blk, lun, ch⟩

/-- A mask, computed as an `int` and stored in a `uint64_t`. -/
def Field.mask (f : Field) : Nat :=
  u64 (i32 (i32 (i32 (2 ^ f.len) - 1) * 2 ^ f.offset))

/-- `(ppa & mask) >> offset`. -/
def Field.select (f : Field) (ppa : Nat) : Nat := (ppa &&& f.mask) >>> f.offset

/-- The coordinates of a sector. -/
structure Coord where
  ch : Nat
  lun : Nat
  blk : Nat
  pg : Nat
  pln : Nat
  sec : Nat
deriving DecidableEq

/-- The address of a sector, composed as the host composes it. -/
def Geometry.ppa (g : Geometry) (a : Coord) : Nat :=
  let f := g.initIdCtrl
  a.ch <<< f.ch.offset ||| a.lun <<< f.lun.offset
    ||| a.blk <<< f.blk.offset ||| a.pg <<< f.pg.offset
    ||| a.pln <<< f.pln.offset ||| a.sec <<< f.sect.offset

/-- The coordinates that the masks select. -/
def Geometry.decode (g : Geometry) (ppa : Nat) : Coord :=
  let f := g.initIdCtrl
  { ch := f.ch.select ppa, lun := f.lun.select ppa,
    blk := f.blk.select ppa, pg := f.pg.select ppa,
    pln := f.pln.select ppa, sec := f.sect.select ppa }

/-- An entry of `aio_sector_list`: where the sector's data is in
`heap_storage`. -/
def Params.aioSector (c : Params) (startBlock ppa : Nat) : Nat :=
  u64 (startBlock + u64 (ppa * 2 ^ c.dataShift : Nat) : Nat)

end FemuRemap.OpenChannel
