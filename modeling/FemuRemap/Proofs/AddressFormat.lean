/-
Addresses and the sectors of the device (`femu_oc_init`).

The fields of an address are bit fields of the widths in `Lib.Fields`,
so an address decodes to the coordinates it was composed from. As the
number of a sector it is in range for every tuple just when the sizes
are `Tight`: below any coordinate of several values, every size is a
power of two.
-/
import FemuRemap.Model.AddressFormat

namespace FemuRemap.OpenChannel

open Lib Fields

-- ============================================================ the fields

/-- The sizes of the coordinates, from the sector up. -/
def Geometry.sizes (g : Geometry) : List Nat :=
  [g.secPerPg.toNat, g.numPln.toNat, g.pgsPerBlk.toNat, g.numBlk.toNat,
    g.numLun.toNat, g.numCh.toNat]

/-- The coordinates from the sector up. -/
def Coord.values (a : Coord) : List Nat :=
  [a.sec, a.pln, a.pg, a.blk, a.lun, a.ch]

/-- A tuple within the geometry. -/
def Geometry.Holds (g : Geometry) (a : Coord) : Prop :=
  a.ch < g.numCh.toNat ∧ a.lun < g.numLun.toNat ∧ a.blk < g.numBlk.toNat
    ∧ a.pg < g.pgsPerBlk.toNat ∧ a.pln < g.numPln.toNat
    ∧ a.sec < g.secPerPg.toNat

/-- What `femu_oc_init` accepts: a plane mode there is, and coordinates
with at least one value; all fields together have 31 bits. -/
structure Geometry.Accepted (g : Geometry) : Prop where
  planes : g.numPln = 1 ∨ g.numPln = 2 ∨ g.numPln = 4
  pos : ∀ n ∈ g.sizes, 0 < n
  fits : g.initIdCtrl.ch.offset + g.initIdCtrl.ch.len ≤ 31

theorem Coord.values_injective {a b : Coord} (h : a.values = b.values) :
    a = b := by
  cases a
  cases b
  simp_all [Coord.values]

/-- Within the geometry is within each field's size. -/
theorem Geometry.holds_iff_fits {g : Geometry} {a : Coord} :
    g.Holds a ↔ Fits g.sizes a.values := by
  unfold Geometry.Holds Fits Geometry.sizes Coord.values
  simp only [List.forall₂_cons, List.forall₂_nil_right_iff, and_true]
  tauto

/-- The position of the last bit set is the width of the field. -/
theorem qemuFls_pred {n : Nat} (hn : 0 < n) (hlt : n < 2 ^ 32) :
    qemuFls (n - 1) = width n := by
  unfold qemuFls width
  rw [u32_of_lt (n := n - 1) (by omega) (by omega)]

theorem Geometry.sizes_lt {g : Geometry} : ∀ n ∈ g.sizes, n < 2 ^ 16 := by
  have h₁ := g.secPerPg.toNat_lt
  have h₂ := g.numPln.toNat_lt
  have h₃ := g.pgsPerBlk.toNat_lt
  have h₄ := g.numBlk.toNat_lt
  have h₅ := g.numLun.toNat_lt
  have h₆ := g.numCh.toNat_lt
  simp only [Geometry.sizes, List.forall_mem_cons]
  exact ⟨by omega, by omega, by omega, by omega, by omega, by omega,
    fun _ h => absurd h List.not_mem_nil⟩

/-- The format of the geometry, field by field. -/
theorem Geometry.initIdCtrl_eq {g : Geometry} (h : ∀ n ∈ g.sizes, 0 < n) :
    g.initIdCtrl =
      { sect := ⟨0, width g.secPerPg.toNat⟩
        pln := ⟨span [g.secPerPg.toNat], width g.numPln.toNat⟩
        pg := ⟨span [g.secPerPg.toNat, g.numPln.toNat],
          width g.pgsPerBlk.toNat⟩
        blk := ⟨span [g.secPerPg.toNat, g.numPln.toNat, g.pgsPerBlk.toNat],
          width g.numBlk.toNat⟩
        lun := ⟨span [g.secPerPg.toNat, g.numPln.toNat, g.pgsPerBlk.toNat,
          g.numBlk.toNat], width g.numLun.toNat⟩
        ch := ⟨span [g.secPerPg.toNat, g.numPln.toNat, g.pgsPerBlk.toNat,
          g.numBlk.toNat, g.numLun.toNat], width g.numCh.toNat⟩ } := by
  have hfls : ∀ n ∈ g.sizes, qemuFls (n - 1) = width n := by
    intro n hn
    have hlt := Geometry.sizes_lt n hn
    exact qemuFls_pred (h n hn) (by omega)
  simp only [Geometry.sizes, List.forall_mem_cons] at hfls
  obtain ⟨h₁, h₂, h₃, h₄, h₅, h₆, -⟩ := hfls
  simp only [Geometry.initIdCtrl, Field.above, h₁, h₂, h₃, h₄, h₅, h₆,
    span, List.map_cons, List.map_nil, List.sum_cons, List.sum_nil,
    Nat.add_zero, Nat.zero_add, Nat.add_assoc]

/-- An accepted geometry leaves the sign bit alone. -/
theorem Geometry.Accepted.span_le {g : Geometry} (h : g.Accepted) :
    span g.sizes ≤ 31 := by
  have hfits := h.fits
  rw [Geometry.initIdCtrl_eq h.pos] at hfits
  simp only [span, Geometry.sizes, List.map_cons, List.map_nil,
    List.sum_cons, List.sum_nil] at hfits ⊢
  omega

-- ========================================================== composing

/-- Fields do not overlap, so the sum is the bitwise or of the source. -/
theorem pack_cons_or {n v : Nat} {ns vs : List Nat} (hv : v < n) :
    pack (n :: ns) (v :: vs) = pack ns vs <<< width n ||| v := by
  have hlt : v < 2 ^ width n := lt_of_lt_of_le hv (le_two_pow_width n)
  rw [← Nat.shiftLeft_add_eq_or_of_lt hlt, Nat.shiftLeft_eq, pack,
    Nat.add_comm, Nat.mul_comm]

/-- The address is the fields, packed. -/
theorem Geometry.ppa_eq_pack {g : Geometry} {a : Coord}
    (hpos : ∀ n ∈ g.sizes, 0 < n) (h : g.Holds a) :
    g.ppa a = pack g.sizes a.values := by
  obtain ⟨hch, hlun, hblk, hpg, hpln, hsec⟩ := h
  unfold Geometry.ppa Geometry.sizes Coord.values
  rw [Geometry.initIdCtrl_eq hpos, pack_cons_or hsec, pack_cons_or hpln,
    pack_cons_or hpg, pack_cons_or hblk, pack_cons_or hlun,
    pack_cons_or hch]
  simp only [pack, Nat.zero_shiftLeft, Nat.zero_or, Nat.shiftLeft_zero,
    Nat.shiftLeft_or_distrib, ← Nat.shiftLeft_add, span, List.map_cons,
    List.map_nil, List.sum_cons, List.sum_nil, Nat.zero_add, Nat.add_assoc,
    Nat.add_comm, Nat.add_left_comm]

-- =========================================================== decoding

/-- The arithmetic of a mask stays within an `int`. -/
private theorem mask_arith {A B : Nat} (hA : 0 < A) (hA' : A ≤ 2 ^ 30)
    (hB : 0 < B) (h : A * B ≤ 2 ^ 31) :
    u64 (i32 (i32 (i32 A - 1) * B)) = (A - 1) * B := by
  have hinner : i32 (i32 (A : Int) - 1) = ((A - 1 : Nat) : Int) := by
    unfold i32
    omega
  have hval : (A - 1) * B < 2 ^ 31 := by
    rw [Nat.sub_mul, Nat.one_mul]
    have hle : B ≤ A * B := Nat.le_mul_of_pos_left B hA
    omega
  have houter : i32 (((A - 1) * B : Nat) : Int) = ((A - 1) * B : Nat) :=
    (i32_natCast_iff (by omega)).2 hval
  rw [hinner, ← Int.natCast_mul, houter]
  exact u64_of_lt rfl (by omega)

/-- The mask of the source shifts an `int`: below bit 31 it is the mask one
expects. -/
theorem Field.mask_eq {f : Field} (hlen : f.len ≤ 30)
    (h : f.offset + f.len ≤ 31) :
    f.mask = (2 ^ f.len - 1) <<< f.offset := by
  have hmul : 2 ^ f.len * 2 ^ f.offset ≤ 2 ^ 31 := by
    rw [← Nat.pow_add]
    exact Nat.pow_le_pow_right (by decide) (by omega)
  have harith := mask_arith (Nat.two_pow_pos f.len)
    (Nat.pow_le_pow_right (by decide) hlen) (Nat.two_pow_pos f.offset) hmul
  push_cast at harith
  rw [Field.mask, harith, Nat.shiftLeft_eq]

/-- Masking and shifting back reads one field. -/
theorem Field.select_eq {f : Field} (hlen : f.len ≤ 30)
    (h : f.offset + f.len ≤ 31) (x : Nat) :
    f.select x = x / 2 ^ f.offset % 2 ^ f.len := by
  unfold Field.select
  rw [Field.mask_eq hlen h, Nat.shiftRight_and_distrib,
    Nat.shiftLeft_shiftRight, Nat.and_two_pow_sub_one_eq_mod,
    Nat.shiftRight_eq_div_pow]

/-- The masks of an accepted geometry select the fields of a number. -/
theorem Geometry.Accepted.decode_values {g : Geometry} (h : g.Accepted)
    (x : Nat) : (g.decode x).values = unpack g.sizes x := by
  have hspan := h.span_le
  have hwidth : ∀ n ∈ g.sizes, width n ≤ 30 := by
    intro n hn
    have hlt := Geometry.sizes_lt n hn
    exact bits_le_iff.2 (by omega)
  simp only [Geometry.sizes, List.forall_mem_cons] at hwidth
  obtain ⟨h₁, h₂, h₃, h₄, h₅, h₆, -⟩ := hwidth
  simp only [span, Geometry.sizes, List.map_cons, List.map_nil,
    List.sum_cons, List.sum_nil, Nat.add_zero] at hspan
  simp only [Geometry.decode, Coord.values, Geometry.initIdCtrl_eq h.pos,
    span, List.map_cons, List.map_nil, List.sum_cons, List.sum_nil,
    Nat.add_zero, Geometry.sizes, unpack, Nat.div_div_eq_div_mul,
    ← Nat.pow_add]
  rw [Field.select_eq h₁ (by simp only; omega),
    Field.select_eq h₂ (by simp only; omega),
    Field.select_eq h₃ (by simp only; omega),
    Field.select_eq h₄ (by simp only; omega),
    Field.select_eq h₅ (by simp only; omega),
    Field.select_eq h₆ (by simp only; omega)]
  simp only [Nat.pow_zero, Nat.div_one, Nat.add_assoc]

theorem Geometry.Accepted.decode_ppa {g : Geometry} (h : g.Accepted)
    {a : Coord} (ha : g.Holds a) : g.decode (g.ppa a) = a := by
  apply Coord.values_injective
  rw [h.decode_values, Geometry.ppa_eq_pack h.pos ha,
    unpack_pack (Geometry.holds_iff_fits.1 ha)]

theorem Geometry.Accepted.ppa_injective {g : Geometry} (h : g.Accepted)
    {a b : Coord} (ha : g.Holds a) (hb : g.Holds b)
    (heq : g.ppa a = g.ppa b) : a = b := by
  rw [← h.decode_ppa ha, heq, h.decode_ppa hb]

-- ================================================ the number of sectors

/-- `total_secs` is the product of the sizes: it has 32 bits to spare. -/
theorem Geometry.Accepted.totalSecs_eq {g : Geometry} (h : g.Accepted) :
    g.totalSecs = g.sizes.prod := by
  have hle : g.sizes.prod ≤ 2 ^ 31 :=
    (prod_le g.sizes).trans (Nat.pow_le_pow_right (by decide) h.span_le)
  have hprod : g.sizes.prod = g.secPerPg.toNat * g.numPln.toNat
      * g.pgsPerBlk.toNat * g.numBlk.toNat * g.numLun.toNat
      * g.numCh.toNat := by
    simp only [Geometry.sizes, List.prod_cons, List.prod_nil, Nat.mul_one,
      Nat.mul_assoc]
  simp only [Geometry.totalSecs, Int.natCast_mul, u32_mul]
  rw [hprod] at hle ⊢
  exact u32_of_lt (by push_cast; rfl) (by omega)

/-- The last tuple of the geometry. -/
def Geometry.last (g : Geometry) : Coord where
  ch := g.numCh.toNat - 1
  lun := g.numLun.toNat - 1
  blk := g.numBlk.toNat - 1
  pg := g.pgsPerBlk.toNat - 1
  pln := g.numPln.toNat - 1
  sec := g.secPerPg.toNat - 1

/-- The last coordinate has every field at its top. -/
theorem Geometry.last_values (g : Geometry) :
    g.last.values = top g.sizes := rfl

theorem Geometry.Accepted.holds_last {g : Geometry} (h : g.Accepted) :
    g.Holds g.last := by
  rw [Geometry.holds_iff_fits, Geometry.last_values]
  exact fits_top h.pos

/-- The last address decides whether all are below the number of sectors: it
is, when no width leaves a gap. -/
theorem Geometry.Accepted.ppa_lt_iff {g : Geometry} (h : g.Accepted) :
    (∀ a, g.Holds a → g.ppa a < g.totalSecs) ↔ Tight g.sizes := by
  rw [h.totalSecs_eq]
  constructor
  · intro hall
    have hlast := hall g.last h.holds_last
    rw [Geometry.ppa_eq_pack h.pos h.holds_last, g.last_values] at hlast
    exact (top_lt_prod_iff h.pos).1 hlast
  · intro htight a ha
    rw [Geometry.ppa_eq_pack h.pos ha]
    exact (pack_lt_prod_iff h.pos).2 htight _ (Geometry.holds_iff_fits.1 ha)

/-- The blocks of the group do not take more sectors than the namespace
has. -/
theorem Geometry.Accepted.totalSecs_le_nsBlks {g : Geometry}
    (h : g.Accepted) {nsBlks : Nat}
    (hinit : femuOcInit g.toLayout nsBlks = some g) :
    g.totalSecs ≤ nsBlks := by
  have hblk : g.numBlk.toNat ≤ g.toLayout.chnlBlks nsBlks
      / (g.numLun.toNat * g.numPln.toNat) := by
    obtain ⟨_, -, hg⟩ := Option.map_eq_some_iff.1 hinit
    have hnum := congrArg (fun d : Geometry => d.numBlk.toNat) hg
    simp only [UInt16.toNat_ofNat'] at hnum
    rw [← hnum]
    refine (Nat.mod_le _ _).trans (Nat.div_le_div_right ?_)
    exact Nat.mod_le _ _
  have hsizes : g.sizes.prod = g.numBlk.toNat
      * (g.numLun.toNat * g.numPln.toNat) * g.numCh.toNat
      * (g.secPerPg.toNat * g.pgsPerBlk.toNat) := by
    simp only [Geometry.sizes, List.prod_cons, List.prod_nil, Nat.mul_one]
    ring
  rw [h.totalSecs_eq, hsizes]
  calc g.numBlk.toNat * (g.numLun.toNat * g.numPln.toNat) * g.numCh.toNat
        * (g.secPerPg.toNat * g.pgsPerBlk.toNat)
      ≤ g.toLayout.chnlBlks nsBlks * g.numCh.toNat
        * (g.secPerPg.toNat * g.pgsPerBlk.toNat) := by
        gcongr
        exact (Nat.mul_le_mul_right _ hblk).trans (Nat.div_mul_le_self _ _)
    _ ≤ nsBlks / (g.secPerPg.toNat * g.pgsPerBlk.toNat)
        * (g.secPerPg.toNat * g.pgsPerBlk.toNat) := by
        gcongr
        exact Nat.div_mul_le_self _ _
    _ ≤ nsBlks := Nat.div_mul_le_self _ _

-- =========================================== the index of a sector

/-- The record of a sector below `total_secs` is in `meta_buf`. -/
theorem recordOft_in_buffer {c : Params} {ppa : Nat}
    (hbuf : c.metaLen * c.totalSecs < 2 ^ 31) (h : ppa < c.totalSecs) :
    ((recordOft c ppa + c.metaLen : Nat) : Int) ≤ c.metaTbytes := by
  have hrec : (ppa + 1) * c.metaLen ≤ c.metaLen * c.totalSecs := by
    rw [Nat.mul_comm c.metaLen]
    exact Nat.mul_le_mul_right _ h
  rw [Nat.succ_mul] at hrec
  have hbytes : c.metaTbytes = (c.metaLen * c.totalSecs : Nat) := by
    unfold Params.metaTbytes
    rw [← Int.natCast_mul, u32_of_lt rfl (by omega)]
    exact (i32_natCast_iff (by omega)).2 hbuf
  have hoft : recordOft c ppa = ppa * c.metaLen := by
    unfold recordOft
    exact u32_of_lt (by push_cast; rfl) (by omega)
  rw [hbytes, hoft]
  exact_mod_cast hrec

/-- Its data is in the part of `heap_storage` of the namespace. -/
theorem aioSector_in_heap {c : Params} {startBlock nsBlks ppa : Nat}
    (hheap : startBlock + nsBlks * 2 ^ c.dataShift < 2 ^ 64)
    (h : ppa < nsBlks) :
    startBlock ≤ c.aioSector startBlock ppa
      ∧ c.aioSector startBlock ppa + 2 ^ c.dataShift
        ≤ startBlock + nsBlks * 2 ^ c.dataShift := by
  have hrec : (ppa + 1) * 2 ^ c.dataShift ≤ nsBlks * 2 ^ c.dataShift :=
    Nat.mul_le_mul_right _ h
  rw [Nat.succ_mul] at hrec
  have hpos := Nat.two_pow_pos c.dataShift
  have hsec : c.aioSector startBlock ppa
      = startBlock + ppa * 2 ^ c.dataShift := by
    unfold Params.aioSector
    rw [u64_of_lt rfl (by omega : ppa * 2 ^ c.dataShift < 2 ^ 64),
      u64_of_lt rfl (by omega)]
  omega

/-- Addresses decode to their tuples and tell tuples apart. As the index
of a sector an address is in range for every tuple just when the sizes
are tight; then the sector's record is in `meta_buf` and its data in
`heap_storage`, for a device whose buffers are addressable. -/
theorem addresses_in_device_iff_tight (g : Geometry) (h : g.Accepted) :
    (∀ a, g.Holds a → g.decode (g.ppa a) = a)
      ∧ (∀ a b, g.Holds a → g.Holds b → g.ppa a = g.ppa b → a = b)
      ∧ ((∀ a, g.Holds a → g.ppa a < g.totalSecs) ↔ Tight g.sizes)
      ∧ (Tight g.sizes → ∀ c : Params, c.totalSecs = g.totalSecs →
        ∀ nsBlks startBlock, femuOcInit g.toLayout nsBlks = some g →
          c.metaLen * c.totalSecs < 2 ^ 31 →
          startBlock + nsBlks * 2 ^ c.dataShift < 2 ^ 64 →
          ∀ a, g.Holds a →
            ((recordOft c (g.ppa a) + c.metaLen : Nat) : Int) ≤ c.metaTbytes
              ∧ startBlock ≤ c.aioSector startBlock (g.ppa a)
              ∧ c.aioSector startBlock (g.ppa a) + 2 ^ c.dataShift
                ≤ startBlock + nsBlks * 2 ^ c.dataShift) := by
  refine ⟨fun _ => h.decode_ppa, fun _ _ => h.ppa_injective, h.ppa_lt_iff,
    ?_⟩
  intro htight c hc nsBlks startBlock hinit hbuf hheap a ha
  have hlt : g.ppa a < g.totalSecs := h.ppa_lt_iff.2 htight a ha
  have hns := h.totalSecs_le_nsBlks hinit
  exact ⟨recordOft_in_buffer hbuf (by omega),
    aioSector_in_heap hheap (by omega)⟩

/-- Three channels over fields that are all full. -/
def evenGeometry : Geometry where
  numCh := 3
  numLun := 2
  numPln := 2
  numBlk := 4
  pgsPerBlk := 8
  secPerPg := 4

theorem evenGeometry_accepted : evenGeometry.Accepted where
  planes := by decide
  pos := by decide
  fits := by decide

theorem addresses_in_device_evenGeometry :
    evenGeometry.Accepted ∧ Tight evenGeometry.sizes
      ∧ ∀ a, evenGeometry.Holds a →
        evenGeometry.ppa a < evenGeometry.totalSecs := by
  have htight : Tight evenGeometry.sizes := by decide
  have hall := addresses_in_device_iff_tight evenGeometry
    evenGeometry_accepted
  exact ⟨evenGeometry_accepted, htight, hall.2.2.1.2 htight⟩

/-- Three sectors a page and two pages: the fields leave out the number
3, and the last sector is 6 of 6. -/
def threeSectors : Geometry where
  numCh := 1
  numLun := 1
  numPln := 1
  numBlk := 1
  pgsPerBlk := 2
  secPerPg := 3

/-- Three sectors take two bits: the last address is the number of sectors. -/
theorem threeSectors_address_out_of_range :
    threeSectors.Accepted
      ∧ threeSectors.Holds ⟨0, 0, 0, 1, 0, 2⟩
      ∧ threeSectors.ppa ⟨0, 0, 0, 1, 0, 2⟩ = 6
      ∧ threeSectors.totalSecs = 6 :=
  ⟨⟨by decide, by decide, by decide⟩,
    by unfold Geometry.Holds; decide, by decide, by decide⟩

end FemuRemap.OpenChannel
