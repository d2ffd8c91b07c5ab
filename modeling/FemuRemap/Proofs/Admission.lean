/-
Which commands of the controller stay inside the device: the entries of
`mapping_table` they index, the bytes of `heap_storage` they copy, and
the records of their metadata.

# Where the checks leak

A sum `slba + nlb` is compared with the size of the namespace after it
wrapped, so a start just below `2 ^ 64` passes. The next check stops it:
that of the FTL for a transfer, that of the block layer, or an assertion,
for a deallocation. `nvme_remap` compares nothing with anything. And of
the hints of a write one value beyond the table is let through.
-/
import FemuRemap.Proofs.Cutting

namespace FemuRemap

open Lib

variable {n : NvmeCtrl}

-- ==================================================== deallocations

/-- The command stays inside the logical address space: the table, and
the bytes of the namespace. -/
def NvmeCmd.InBounds (n : NvmeCtrl) (cmd : NvmeCmd) : Prop :=
  (∀ lpn, cmd.Indexes n lpn → 0 ≤ lpn ∧ lpn < n.conf.pageMappingEntryNb)
    ∧ ∀ b ∈ cmd.copies n, b.Inside (n.nsze * 2 ^ n.ds)

/-- Sectors of one block. -/
def NvmeCtrl.blockSectors (n : NvmeCtrl) : Nat := 2 ^ (n.ds - 9)

theorem NvmeCtrl.blockSectors_pos (n : NvmeCtrl) : 0 < n.blockSectors :=
  Nat.two_pow_pos _

/-- A block has at most 2^15 sectors. -/
theorem NvmeCtrl.blockSectors_le (n : NvmeCtrl) : n.blockSectors ≤ 2 ^ 15 :=
  Nat.pow_le_pow_right (by decide) (by have := n.ds_le; omega)

theorem NvmeCtrl.blockBytes_eq (n : NvmeCtrl) :
    2 ^ n.ds = n.blockSectors * 512 := by
  have hds := n.ds_ge
  rw [blockSectors, show 512 = 2 ^ 9 from rfl, ← Nat.pow_add,
    Nat.sub_add_cancel hds]

/-- The sectors of a range wrap at 32 bits. -/
theorem NvmeDsmRange.length_eq (n : NvmeCtrl) (g : NvmeDsmRange) :
    g.length n = g.nlb.toNat * n.blockSectors % 2 ^ 32 :=
  u32_mod _

/-- A range that does not wrap is in the table. -/
theorem NvmeDsmRange.sectorNb_of_lt {g : NvmeDsmRange} (h : g.admitted n)
    (hlt : g.slba.toNat + g.nlb.toNat < 2 ^ 64) :
    g.sectorNb n = (g.slba.toNat * n.blockSectors : Nat)
      ∧ g.slba.toNat * n.blockSectors + g.length n ≤ n.conf.sectorNb := by
  have hle : g.slba.toNat + g.nlb.toNat ≤ n.nsze := by
    have hadm := h.1
    rwa [u64_of_lt rfl hlt] at hadm
  have hsum : (g.slba.toNat + g.nlb.toNat) * n.blockSectors
      ≤ n.conf.sectorNb :=
    Nat.le_trans (Nat.mul_le_mul_right _ hle) n.sectors_le
  have hlen : g.length n ≤ g.nlb.toNat * n.blockSectors := by
    rw [g.length_eq n]
    exact Nat.mod_le _ _
  have htop := n.sectorNb_lt
  rw [Nat.add_mul] at hsum
  refine ⟨?_, by omega⟩
  show i64 (u64 (g.slba.toNat * n.blockSectors : Nat)) = _
  rw [u64_of_lt rfl (show g.slba.toNat * n.blockSectors < 2 ^ 64 by omega),
    i64_of_lt rfl (by omega)]

/-- A deallocation that reaches the FTL has not wrapped: a start that does
is a negative `long`. -/
theorem dsm_inBounds {g : NvmeDsmRange} (h : g.admitted n) :
    (NvmeCmd.dsm g).InBounds n := by
  refine ⟨fun lpn ⟨fuel, hmem⟩ => ?_, nofun⟩
  unfold dsmLpns at hmem
  split at hmem
  · next hreach =>
    have hslba : 0 ≤ i64 g.slba.toNat := hreach.2.2
    have hnlb : g.nlb.toNat < 2 ^ 32 := g.nlb.toNat_lt
    have hslba' : g.slba.toNat < 2 ^ 64 := g.slba.toNat_lt
    have hlt : g.slba.toNat + g.nlb.toNat < 2 ^ 64 := by
      unfold i64 at hslba
      omega
    obtain ⟨hstart, hend⟩ := NvmeDsmRange.sectorNb_of_lt h hlt
    have hlen := u32_lt (g.nlb.toNat * 2 ^ (n.ds - 9) : Nat)
    rw [hstart, n.sectorLpns_eq] at hmem
    exact (cutSectors_inside rfl n.spp_pos n.spp_lt hlen).2 (.inr hend)
      fuel lpn hmem
  · cases hmem

-- =========================================================== remaps

/-- All entries of one page of a remap are in the table exactly when the
two lpns are: a destination beyond it is indexed when the page is
remapped. -/
theorem remapPage_inside {ope : RemapOpe} {sLpn dLpn : Nat} :
    (∀ fuel way, ∀ lpn ∈ remapPageLpns n.conf fuel ope way sLpn dLpn,
        0 ≤ lpn ∧ lpn < n.conf.pageMappingEntryNb)
      ↔ sLpn < n.conf.pageMappingEntryNb
        ∧ dLpn < n.conf.pageMappingEntryNb := by
  constructor
  · intro hall
    have hs := (hall 0 .remapped sLpn (by simp [remapPageLpns])).2
    have hd := (hall 0 .remapped dLpn (by simp [remapPageLpns])).2
    omega
  · rintro ⟨hs, hd⟩ fuel way lpn hmem
    have hfall : ∀ lpn ∈ fallbackLpns n.conf fuel dLpn,
        0 ≤ lpn ∧ lpn < n.conf.pageMappingEntryNb := by
      have hend := page_sectors_le hd
      have htop := n.sectorNb_lt
      have hspp := n.spp_lt
      unfold fallbackLpns sectorLpns
      rw [u64_of_lt rfl (show dLpn * n.conf.sectorsPerPage < 2 ^ 64 by omega),
        i64_of_lt rfl (show dLpn * n.conf.sectorsPerPage < 2 ^ 63 by omega),
        u32_of_lt rfl (show n.conf.sectorsPerPage < 2 ^ 32 by omega)]
      intro lpn hmem
      simp only [Int.natCast_mul, Int.mul_tmod_left] at hmem
      split at hmem
      · cases hmem
      · refine (cutSectors_inside (Nat.mul_mod_left dLpn _) n.spp_pos hspp
          (by omega)).2 (.inr hend) fuel lpn ?_
        exact_mod_cast hmem
    unfold remapPageLpns at hmem
    cases way with
    | remapped => split at hmem <;> simp at hmem <;> omega
    | skipped => simp at hmem; omega
    | rewritten =>
        simp only [List.mem_cons, List.mem_append] at hmem
        rcases hmem with rfl | hmem | hmem
        · omega
        · exact hfall lpn hmem
        · split at hmem <;> simp at hmem
          omega
    | noPage => split at hmem <;> simp at hmem <;> omega

/-- The loop of `SSD_REMAP` stays in the table exactly when both ranges
do. -/
theorem remapLoop_inside {ope : RemapOpe} {remain i sLpn dLpn : Nat} :
    (∀ fuel way,
        ∀ lpn ∈ remapLoopLpns n.conf fuel ope way remain i sLpn dLpn,
          0 ≤ lpn ∧ lpn < n.conf.pageMappingEntryNb)
      ↔ remain = 0 ∨ sLpn + remain ≤ n.conf.pageMappingEntryNb
        ∧ dLpn + remain ≤ n.conf.pageMappingEntryNb := by
  induction remain generalizing i sLpn dLpn with
  | zero => simp [remapLoopLpns]
  | succ remain ih =>
      have htop := n.sectorNb_lt
      have hN : n.conf.pageMappingEntryNb ≤ n.conf.sectorNb :=
        Nat.le_mul_of_pos_left _ n.spp_pos
      -- the branches of the pages are independent, so the two conditions can
      -- be asked one by one
      have hsplit : (∀ fuel way, ∀ lpn ∈ remapLoopLpns n.conf fuel ope way
            (remain + 1) i sLpn dLpn,
            0 ≤ lpn ∧ lpn < n.conf.pageMappingEntryNb)
          ↔ (∀ fuel way, ∀ lpn ∈ remapPageLpns n.conf fuel ope way sLpn dLpn,
              0 ≤ lpn ∧ lpn < n.conf.pageMappingEntryNb)
            ∧ ∀ fuel way, ∀ lpn ∈ remapLoopLpns n.conf fuel ope way remain
              (i + 1) (u64 ((sLpn : Int) + 1)) (u64 ((dLpn : Int) + 1)),
              0 ≤ lpn ∧ lpn < n.conf.pageMappingEntryNb := by
        simp only [remapLoopLpns, List.forall_mem_append]
        refine ⟨fun h => ⟨fun fuel way => (h fuel fun _ => way).1,
          fun fuel way => (h fuel way).2⟩,
          fun h fuel way => ⟨h.1 fuel (way i), h.2 fuel way⟩⟩
      rw [hsplit, remapPage_inside]
      constructor
      · rintro ⟨⟨hs, hd⟩, hrest⟩
        rw [u64_succ (by omega), u64_succ (by omega)] at hrest
        have hend := ih.1 hrest
        omega
      · intro hend
        refine ⟨by omega, ?_⟩
        rw [u64_succ (by omega), u64_succ (by omega)]
        exact ih.2 (by omega)

/-- A remap stays inside: its lpns are in the table if it does anything
to it, and the copied bytes, with their offsets in 64 bits and their
number in 32, are in the namespace. -/
def NvmeRemap.Safe (n : NvmeCtrl) (m : NvmeRemap) : Prop :=
  (n.femuMode = .blackbox → remapOpe m.ope.toNat ≠ none →
    0 < m.len.toNat → m.len.toNat < 2 ^ 31 →
      m.srcLpn.toNat + m.len.toNat ≤ n.conf.pageMappingEntryNb
        ∧ m.dstLpn.toNat + m.len.toNat ≤ n.conf.pageMappingEntryNb)
    ∧ (m.len.toNat * n.flashPageSize % 2 ^ 32 = 0
      ∨ m.dstLpn.toNat * n.flashPageSize % 2 ^ 64
            + m.len.toNat * n.flashPageSize % 2 ^ 32 ≤ n.nsze * 2 ^ n.ds
        ∧ m.srcLpn.toNat * n.flashPageSize % 2 ^ 64
            + m.len.toNat * n.flashPageSize % 2 ^ 32 ≤ n.nsze * 2 ^ n.ds)

/-- A remap has no check before it. -/
theorem remap_inBounds {m : NvmeRemap} :
    (NvmeCmd.remap m).InBounds n ↔ m.Safe n := by
  refine and_congr ?_ ?_
  · have hflat : (∀ lpn, (NvmeCmd.remap m).Indexes n lpn →
          0 ≤ lpn ∧ lpn < n.conf.pageMappingEntryNb)
        ↔ ∀ fuel way, ∀ lpn ∈ remapLpns n fuel way m,
          0 ≤ lpn ∧ lpn < n.conf.pageMappingEntryNb :=
      ⟨fun h fuel way lpn hmem => h lpn ⟨fuel, way, hmem⟩,
        fun h lpn ⟨fuel, way, hmem⟩ => h fuel way lpn hmem⟩
    rw [hflat]
    unfold remapLpns
    split
    · next ope hmode hope =>
        rw [remapLoop_inside]
        constructor
        · intro hend _ _ hpos hlt
          rw [if_pos hlt] at hend
          omega
        · intro hend
          have hend' := hend hmode (by rw [hope]; exact Option.some_ne_none _)
          split <;> omega
    · next hno =>
        refine ⟨fun _ hmode hope => ?_, fun _ fuel way lpn hmem => ?_⟩
        · obtain ⟨ope, hope⟩ := Option.ne_none_iff_exists'.1 hope
          exact (hno ope hmode hope).elim
        · cases hmem
  · have hlen : m.copyLen n = m.len.toNat * n.flashPageSize % 2 ^ 32 :=
      u32_mod _
    have hoff : ∀ lpn : UInt64, pageOffset n lpn
        = lpn.toNat * n.flashPageSize % 2 ^ 64 := fun lpn => u64_mod _
    simp only [NvmeCmd.copies, remapCopies, ByteRange.Inside, hlen, hoff,
      List.mem_cons, List.not_mem_nil, or_false, forall_eq_or_imp, forall_eq]
    omega

-- ======================================================== transfers

/-- What a write may index: the lpns of its pages, and the hints of the
pages. -/
def WriteIndexes (info : Nat → LpnInfo) (lpns : List Int) (i : Nat)
    (x : Int) : Prop :=
  x ∈ lpns ∨ ∃ j < lpns.length,
    0 < (info (i + j)).hLpn ∧ x = (info (i + j)).hLpn

/-- The indexes of the first page, and those of the rest. -/
theorem writeIndexes_cons {info : Nat → LpnInfo} {lpn x : Int}
    {rest : List Int} {i : Nat} :
    WriteIndexes info (lpn :: rest) i x
      ↔ (0 < (info i).hLpn ∧ x = (info i).hLpn) ∨ x = lpn
        ∨ WriteIndexes info rest (i + 1) x := by
  unfold WriteIndexes
  rw [List.mem_cons, List.length_cons, Nat.exists_lt_succ_left]
  simp only [Nat.add_zero, Nat.add_assoc, Nat.add_comm 1]
  tauto

/-- Whatever the branches, these are the indexes used. -/
theorem writeIndexes_of_mem {info : Nat → LpnInfo} {way : Nat → Branch}
    {lpns : List Int} {i : Nat} {x : Int}
    (h : x ∈ writeLpns info way lpns i) : WriteIndexes info lpns i x := by
  induction lpns generalizing i with
  | nil => cases h
  | cons lpn rest ih =>
      have hhint : x ∈ (if 0 < (info i).hLpn then [(info i).hLpn] else []) →
          0 < (info i).hLpn ∧ x = (info i).hLpn := by
        split <;> simp_all
      rw [writeIndexes_cons]
      unfold writeLpns at h
      dsimp only at h
      split at h
      · exact .inl (hhint h)
      · rcases List.mem_append.1 h with h | h
        · exact .inl (hhint h)
        · rcases List.mem_cons.1 h with h | h
          · exact .inr (.inl h)
          · exact .inr (.inr (ih h))

/-- When no page fails, a write indexes all that it may. -/
theorem mem_writeLpns {info : Nat → LpnInfo} {lpns : List Int} {i : Nat}
    {x : Int} (h : WriteIndexes info lpns i x) :
    x ∈ writeLpns info (fun _ => .rewritten) lpns i := by
  induction lpns generalizing i with
  | nil => simp [WriteIndexes] at h
  | cons lpn rest ih =>
      unfold writeLpns
      rw [if_neg (by decide)]
      rcases writeIndexes_cons.1 h with ⟨hpos, rfl⟩ | rfl | h
      · rw [if_pos hpos]
        exact List.mem_cons_self
      · exact List.mem_append_right _ List.mem_cons_self
      · exact List.mem_append_right _ (List.mem_cons_of_mem _ (ih h))

section Rw

variable {r : NvmeRwCmd}

/-- A command has at most 2^16 blocks, -/
theorem NvmeRwCmd.blocks_le (r : NvmeRwCmd) : r.blocks ≤ 2 ^ 16 :=
  r.nlb.toNat_lt

/-- so its sectors fit 32 bits, -/
theorem NvmeRwCmd.sectors_le (n : NvmeCtrl) (r : NvmeRwCmd) :
    r.blocks * n.blockSectors ≤ 2 ^ 31 :=
  Nat.le_trans (Nat.mul_le_mul r.blocks_le n.blockSectors_le) (by decide)

theorem NvmeRwCmd.sectors_pos (n : NvmeCtrl) (r : NvmeRwCmd) :
    0 < r.blocks * n.blockSectors :=
  Nat.mul_pos (Nat.succ_pos _) n.blockSectors_pos

/-- and its bytes are whole sectors. -/
theorem NvmeRwCmd.dataSize_eq (n : NvmeCtrl) (r : NvmeRwCmd) :
    r.dataSize n = r.blocks * n.blockSectors * 512 := by
  have hle := r.sectors_le n
  unfold NvmeRwCmd.dataSize
  rw [n.blockBytes_eq, ← Nat.mul_assoc]
  exact u64_of_lt rfl (by omega)

/-- The request of the FTL has them all. -/
theorem NvmeRwCmd.request_length (n : NvmeCtrl) (r : NvmeRwCmd) :
    (r.request n).length = r.blocks * n.blockSectors := by
  have hle := r.sectors_le n
  show u32 (r.dataSize n / 512 : Nat) = _
  rw [r.dataSize_eq n, Nat.mul_div_cancel _ (by decide)]
  exact u32_of_lt rfl (by omega)

/-- Metadata is counted in pages of 4 KiB. -/
theorem NvmeRwCmd.nPages_eq (n : NvmeCtrl) (r : NvmeRwCmd) :
    r.nPages n = r.blocks * n.blockSectors / 8 := by
  have hle := r.sectors_le n
  unfold NvmeRwCmd.nPages
  rw [r.dataSize_eq n, u32_mod]
  omega

/-- The check compares the last block, after the sum wrapped. -/
theorem elba_le_of_check (h : nvmeRwCheckReq n r 0 = .success) :
    r.elba ≤ n.nsze := by
  unfold nvmeRwCheckReq checkReq at h
  split at h
  · cases h
  · next hle => exact Nat.not_lt.1 hle

/-- A transfer that does not wrap is in the namespace. -/
theorem NvmeRwCmd.dataOffset_of_lt (h : nvmeRwCheckReq n r 0 = .success)
    (hlt : r.slba.toNat + r.blocks < 2 ^ 64) :
    r.dataOffset n = r.slba.toNat * n.blockSectors * 512
      ∧ (r.slba.toNat + r.blocks) * n.blockSectors * 512
        ≤ n.nsze * 2 ^ n.ds := by
  have hle : r.slba.toNat + r.blocks ≤ n.nsze := by
    have helba := elba_le_of_check h
    rwa [NvmeRwCmd.elba, u64_of_lt rfl hlt] at helba
  have hsum : (r.slba.toNat + r.blocks) * n.blockSectors * 512
      ≤ n.nsze * 2 ^ n.ds := by
    rw [n.blockBytes_eq, ← Nat.mul_assoc]
    exact Nat.mul_le_mul_right _ (Nat.mul_le_mul_right _ hle)
  refine ⟨?_, hsum⟩
  have htop := n.bytes_lt
  rw [Nat.add_mul] at hsum
  unfold NvmeRwCmd.dataOffset
  rw [n.blockBytes_eq, ← Nat.mul_assoc]
  exact u64_of_lt rfl (by omega)

/-- Where it did not wrap, the first sector is the command's. -/
theorem NvmeRwCmd.request_sectorNb (h : nvmeRwCheckReq n r 0 = .success)
    (hlt : r.slba.toNat + r.blocks < 2 ^ 64) :
    (r.request n).sectorNb = r.slba.toNat * n.blockSectors := by
  show r.dataOffset n / 512 = _
  rw [(NvmeRwCmd.dataOffset_of_lt h hlt).1, Nat.mul_div_cancel _ (by decide)]

/-- One that wraps starts at most `2 ^ 40` bytes below `2 ^ 64`. -/
theorem NvmeRwCmd.dataOffset_of_wrap (n : NvmeCtrl)
    (hwrap : 2 ^ 64 ≤ r.slba.toNat + r.blocks) :
    ∃ k, 0 < k ∧ k ≤ 2 ^ 40 ∧ r.dataOffset n + k = 2 ^ 64 := by
  have hslba : r.slba.toNat < 2 ^ 64 := r.slba.toNat_lt
  have hblocks := r.blocks_le
  have hbytes : 2 ^ n.ds ≤ 2 ^ 24 :=
    Nat.pow_le_pow_right (by decide) n.ds_le
  have hpos : 0 < (2 ^ 64 - r.slba.toNat) * 2 ^ n.ds :=
    Nat.mul_pos (by omega) (Nat.two_pow_pos _)
  have hle : (2 ^ 64 - r.slba.toNat) * 2 ^ n.ds ≤ 2 ^ 16 * 2 ^ 24 :=
    Nat.mul_le_mul (by omega) hbytes
  have hsum : r.slba.toNat * 2 ^ n.ds + (2 ^ 64 - r.slba.toNat) * 2 ^ n.ds
      = 2 ^ 64 * 2 ^ n.ds := by
    rw [← Nat.add_mul, Nat.add_sub_cancel' (Nat.le_of_lt hslba)]
  refine ⟨_, hpos, Nat.le_trans hle (by decide), ?_⟩
  unfold NvmeRwCmd.dataOffset
  rw [u64_mod]
  omega

/-- The FTL refuses exactly the transfers that wrapped. -/
theorem NvmeRwCmd.exceeds_iff (h : nvmeRwCheckReq n r 0 = .success) :
    ¬ r.exceeds n ↔ r.slba.toNat + r.blocks < 2 ^ 64 := by
  have hlen := r.request_length n
  by_cases hlt : r.slba.toNat + r.blocks < 2 ^ 64
  · refine ⟨fun _ => hlt, fun _ => Nat.not_lt_of_le ?_⟩
    have hle : r.slba.toNat + r.blocks ≤ n.nsze := by
      have helba := elba_le_of_check h
      rwa [NvmeRwCmd.elba, u64_of_lt rfl hlt] at helba
    rw [hlen, NvmeRwCmd.request_sectorNb h hlt, ← Nat.add_mul]
    exact Nat.le_trans (Nat.mul_le_mul_right _ hle) n.sectors_le
  · refine ⟨fun hnot => absurd ?_ hnot, fun hlt' => absurd hlt' hlt⟩
    obtain ⟨k, hk₀, hk, hoff⟩ := NvmeRwCmd.dataOffset_of_wrap n
      (Nat.le_of_not_lt hlt)
    have htop := n.sectorNb_lt
    unfold NvmeRwCmd.exceeds
    show _ < r.dataOffset n / 512 + _
    omega

theorem NvmeCtrl.sos_eq_zero_iff (n : NvmeCtrl) :
    n.sos = 0 ↔ n.femuMode ≠ .blackbox := by
  unfold NvmeCtrl.sos
  split
  · next hbb => simp [hbb]
  · next hbb => simp [hbb]

/-- A transfer that both checks admit is copied inside the namespace; one
outside a black box is not copied. -/
theorem rw_copies_inside (h : (NvmeCmd.rw r).Admitted n) :
    ∀ b ∈ (NvmeCmd.rw r).copies n, b.Inside (n.nsze * 2 ^ n.ds) := by
  obtain ⟨hcheck, hftl⟩ := h
  intro b hb
  simp only [NvmeCmd.copies, rwCopies] at hb
  split at hb
  · cases hb
  · next hsos =>
    have hbb : n.femuMode = .blackbox := by
      rw [n.sos_eq_zero_iff] at hsos
      exact not_not.1 hsos
    have hlt := (NvmeRwCmd.exceeds_iff hcheck).1 (hftl hbb)
    obtain ⟨hoff, hend⟩ := NvmeRwCmd.dataOffset_of_lt hcheck hlt
    have hsize := r.dataSize_eq n
    have htop := n.bytes_lt
    rw [Nat.add_mul, Nat.add_mul] at hend
    rw [List.mem_singleton.1 hb, ByteRange.Inside, hoff,
      i64_of_lt rfl (by omega)]
    dsimp only
    omega

/-- The hint of page `i` is not the one value beyond the table that the
filter of `ftl_meta_write` lets through. -/
def NvmeRwCmd.HintBelow (n : NvmeCtrl) (r : NvmeRwCmd) (i : Nat) : Prop :=
  r.mptr ≠ 0 → i < r.blocks * n.blockSectors / 8 →
    MetaKept n.conf (r.records i) →
      i64 (r.records i).hLpn.toNat ≠ n.conf.pageMappingEntryNb

/-- The hint is in bounds, in the command's terms. -/
theorem NvmeRwCmd.hintBelow_iff (i : Nat) :
    (0 < (r.lpnsInfo n i).hLpn →
        (r.lpnsInfo n i).hLpn < n.conf.pageMappingEntryNb)
      ↔ r.HintBelow n i := by
  have hN := n.entries_pos
  unfold NvmeRwCmd.lpnsInfo NvmeRwCmd.HintBelow ftlMetaWrite
  rw [r.nPages_eq n]
  by_cases hin : r.mptr ≠ 0 ∧ i < r.blocks * n.blockSectors / 8
  · rw [if_pos hin]
    by_cases hkept : MetaKept n.conf (r.records i)
    · rw [if_pos hkept]
      dsimp only
      have hle := hkept.2.2
      refine ⟨fun h _ _ _ heq => ?_, fun h _ => ?_⟩
      · have hlt := h (by omega)
        omega
      · have hne := h hin.1 hin.2 hkept
        omega
    · rw [if_neg hkept]
      dsimp only
      exact ⟨fun _ _ _ h => absurd h hkept, fun _ h => absurd h (by omega)⟩
  · rw [if_neg hin]
    dsimp only
    exact ⟨fun _ h₁ h₂ => absurd ⟨h₁, h₂⟩ hin, fun _ h => absurd h (by omega)⟩

/-- Page `i` of the request exists: it begins before the last sector. -/
def NvmeRwCmd.HasPage (n : NvmeCtrl) (r : NvmeRwCmd) (i : Nat) : Prop :=
  i * n.conf.sectorsPerPage
    < r.slba.toNat * n.blockSectors % n.conf.sectorsPerPage
      + r.blocks * n.blockSectors

/-- The pages that the FTL cuts out of a transfer. -/
theorem NvmeRwCmd.hasPage_iff (h : nvmeRwCheckReq n r 0 = .success)
    (hlt : r.slba.toNat + r.blocks < 2 ^ 64) (i : Nat) :
    (∃ fuel, i < (sectorLpns n.conf fuel ((r.request n).sectorNb : Int)
      (r.request n).length).length) ↔ r.HasPage n i := by
  have hpos := r.sectors_pos n
  have hle := r.sectors_le n
  have hskip := Nat.mod_lt (r.slba.toNat * n.blockSectors) n.spp_pos
  have hcount : ∀ fuel, i < (sectorLpns n.conf fuel
      ((r.request n).sectorNb : Int) (r.request n).length).length
      ↔ i < fuel ∧ r.HasPage n i := by
    intro fuel
    rw [NvmeRwCmd.request_sectorNb h hlt, r.request_length n,
      n.sectorLpns_eq, cutSectors_eq hskip n.spp_lt (by omega),
      List.length_map, lt_length_cutPages hskip (.inl (by omega))]
    rfl
  refine ⟨fun ⟨fuel, hi⟩ => ((hcount fuel).1 hi).2,
    fun hi => ⟨i + 1, (hcount (i + 1)).2 ⟨Nat.lt_succ_self i, hi⟩⟩⟩

/-- A transfer stays inside if none of the hints that the FTL takes from
it is the one beyond the table. -/
def NvmeRwCmd.Safe (n : NvmeCtrl) (r : NvmeRwCmd) : Prop :=
  n.femuMode = .blackbox → r.isWrite →
    ∀ i, r.HasPage n i → r.HintBelow n i

/-- For a command that passed the check, what remains are the wrap and the
hints. -/
theorem rw_inBounds (h : (NvmeCmd.rw r).Admitted n) :
    (NvmeCmd.rw r).InBounds n ↔ r.Safe n := by
  rw [NvmeCmd.InBounds, and_iff_left (rw_copies_inside h)]
  obtain ⟨hcheck, hftl⟩ := h
  by_cases hbb : n.femuMode = .blackbox
  · have hnot := hftl hbb
    have hlt := (NvmeRwCmd.exceeds_iff hcheck).1 hnot
    have hpages : ∀ fuel, ∀ lpn ∈ sectorLpns n.conf fuel
        ((r.request n).sectorNb : Int) (r.request n).length,
        0 ≤ lpn ∧ lpn < n.conf.pageMappingEntryNb := by
      have hle := r.sectors_le n
      simp only [n.sectorLpns_eq]
      refine (cutSectors_inside rfl n.spp_pos n.spp_lt ?_).2 (.inr ?_)
      · rw [r.request_length n]
        omega
      · unfold NvmeRwCmd.exceeds at hnot
        exact Nat.le_of_not_lt hnot
    -- only a write follows its hints, whichever branch the pages take
    by_cases hw : r.isWrite
    · refine ⟨fun hall _ _ i hi => ?_, fun hall lpn ⟨fuel, way, hmem⟩ => ?_⟩
      · obtain ⟨fuel, hlen⟩ := (NvmeRwCmd.hasPage_iff hcheck hlt i).2 hi
        refine (NvmeRwCmd.hintBelow_iff i).1 fun hhint => ?_
        refine (hall _ ⟨fuel, fun _ => .rewritten, ?_⟩).2
        unfold rwLpns
        rw [if_pos ⟨hbb, hnot⟩, if_pos hw]
        refine mem_writeLpns (.inr ⟨i, hlen, ?_⟩)
        rw [Nat.zero_add]
        exact ⟨hhint, rfl⟩
      · unfold rwLpns at hmem
        rw [if_pos ⟨hbb, hnot⟩, if_pos hw] at hmem
        rcases writeIndexes_of_mem hmem with hmem | ⟨i, hlen, hhint, rfl⟩
        · exact hpages fuel lpn hmem
        · rw [Nat.zero_add] at hhint ⊢
          exact ⟨Int.le_of_lt hhint, (NvmeRwCmd.hintBelow_iff i).2
            (hall hbb hw i ((NvmeRwCmd.hasPage_iff hcheck hlt i).1
              ⟨fuel, hlen⟩)) hhint⟩
    · refine ⟨fun _ _ h => absurd h hw, fun _ lpn ⟨fuel, way, hmem⟩ => ?_⟩
      unfold rwLpns at hmem
      rw [if_pos ⟨hbb, hnot⟩, if_neg hw] at hmem
      exact hpages fuel lpn hmem
  · refine ⟨fun _ h => absurd h hbb, fun _ lpn ⟨fuel, way, hmem⟩ => ?_⟩
    unfold rwLpns at hmem
    rw [if_neg fun h => hbb h.1] at hmem
    cases hmem

/-- With pages of at most 4 KiB the FTL is asked for a command that its
runs are made of: there is a page for every record. -/
theorem NvmeRwCmd.Safe.inRange (h : r.Safe n)
    (hbb : n.femuMode = .blackbox) (hw : r.isWrite)
    (hspp : n.conf.sectorsPerPage ≤ 8) :
    InRange n.conf (.write (r.request n)) := by
  intro i
  have hhint : r.HintBelow n i := by
    intro hptr hi
    have hpage : r.HasPage n i := by
      have hle : i * n.conf.sectorsPerPage ≤ i * 8 :=
        Nat.mul_le_mul_left _ hspp
      unfold NvmeRwCmd.HasPage
      omega
    exact h hbb hw i hpage hptr hi
  by_cases hpos : 0 < ((r.request n).lpnsInfo i).hLpn
  · exact (NvmeRwCmd.hintBelow_iff i).2 hhint hpos
  · exact Int.lt_of_le_of_lt (Int.not_lt.1 hpos)
      (Int.natCast_pos.2 n.entries_pos)

end Rw

-- =================================================== the address space

/-- The condition under which an admitted command stays inside. -/
def NvmeCmd.Safe (n : NvmeCtrl) : NvmeCmd → Prop
  | .rw r => r.Safe n
  | .dsm _ => True
  | .remap m => m.Safe n

/-- A device of 1024 pages of 4 KiB, all of them in its namespace, set up
as the controller does by default. -/
def smallCtrl (mode : FemuMode) : NvmeCtrl where
  conf := initSsdConfig 2 8 64 8
  femuMode := mode
  nsze := 1024
  ds := 12
  mdts := 10
  pageSize := 4096
  dps := 11
  uncorrectable := fun _ => false
  flashPageSize := 4096
  blkLength := 1024 * 4096
  ds_ge := by decide
  ds_le := by decide
  bytes_lt := by decide
  sectors_le := by decide
  spp_pos := by decide
  spp_lt := by decide
  entries_pos := by decide
  sectorNb_lt := by decide

/-- A write without metadata. -/
def plainWrite (slba : UInt64) (nlb : UInt16) : NvmeRwCmd where
  isWrite := true
  control := 0
  slba := slba
  nlb := nlb
  mptr := 0
  records := fun _ => ⟨0, 0⟩
  data := fun _ => none

/-- A write from the start of the namespace on, every page of it with the
same hint. -/
def hintWrite (nlb : UInt16) (hLpn : UInt64) : NvmeRwCmd :=
  { plainWrite 0 nlb with mptr := 4096, records := fun _ => ⟨102, hLpn⟩ }

section Metadata

variable {r : NvmeRwCmd}

/-- A write reads the records of the pages it reaches. -/
theorem writeRecords_lt {way : Nat → Branch} {lpns : List Int} {k i : Nat}
    (h : i ∈ writeRecords way lpns k) : i < k + lpns.length := by
  induction lpns generalizing k with
  | nil => cases h
  | cons lpn rest ih =>
      rw [List.length_cons]
      rcases List.mem_cons.1 h with rfl | h
      · omega
      · split at h
        · cases h
        · have := ih h
          omega

/-- Every page of the request reads its record. -/
theorem mem_writeRecords {lpns : List Int} {k j : Nat}
    (h : j < lpns.length) :
    k + j ∈ writeRecords (fun _ => .rewritten) lpns k := by
  induction lpns generalizing k j with
  | nil => cases h
  | cons lpn rest ih =>
      unfold writeRecords
      rw [if_neg (by decide)]
      cases j with
      | zero => exact List.mem_cons_self
      | succ j =>
          have hrest := ih (k := k + 1) (Nat.lt_of_succ_lt_succ h)
          rw [show k + (j + 1) = k + 1 + j by omega]
          exact List.mem_cons_of_mem _ hrest

/-- The FTL reads the record of every page that it cuts out. -/
theorem ftlRecords_all {P : Nat → Prop} (hw : r.isWrite = true)
    (h : nvmeRwCheckReq n r 0 = .success) :
    (∀ fuel way, ∀ i ∈ ftlRecords n fuel way r, P i)
      ↔ (n.femuMode = .blackbox → r.slba.toNat + r.blocks < 2 ^ 64 →
        ∀ i, r.HasPage n i → P i) := by
  constructor
  · intro hall hbb hlt i hi
    obtain ⟨fuel, hlen⟩ := (NvmeRwCmd.hasPage_iff h hlt i).2 hi
    refine hall fuel (fun _ => .rewritten) i ?_
    unfold ftlRecords
    rw [if_pos ⟨hw, hbb, (NvmeRwCmd.exceeds_iff h).2 hlt⟩]
    simpa using mem_writeRecords (k := 0) hlen
  · intro hall fuel way i hmem
    unfold ftlRecords at hmem
    split at hmem
    · next hserved =>
        obtain ⟨-, hbb, hnot⟩ := hserved
        have hlt := (NvmeRwCmd.exceeds_iff h).1 hnot
        have hlen := writeRecords_lt hmem
        rw [Nat.zero_add] at hlen
        exact hall hbb hlt i ((NvmeRwCmd.hasPage_iff h hlt i).1 ⟨fuel, hlen⟩)
    · cases hmem

/-- The 512 records suffice for the pages of a request exactly when it
has at most so many. -/
theorem NvmeRwCmd.hasPage_lt_iff (n : NvmeCtrl) (r : NvmeRwCmd) :
    (∀ i, r.HasPage n i → i < 512)
      ↔ r.slba.toNat * n.blockSectors % n.conf.sectorsPerPage
        + r.blocks * n.blockSectors ≤ 512 * n.conf.sectorsPerPage := by
  unfold NvmeRwCmd.HasPage
  constructor
  · intro hall
    exact Nat.le_of_not_lt fun hlt => Nat.lt_irrefl _ (hall 512 hlt)
  · intro hle i hi
    exact Nat.lt_of_mul_lt_mul_right (Nat.lt_of_lt_of_le hi hle)

end Metadata

end FemuRemap
