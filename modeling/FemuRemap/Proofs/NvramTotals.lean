/-
The NVRAM totals against the sums over the superblocks.

Every change of `NVRAM_OOB_TABLE` goes with the same change of a total:
`Totals` is kept by the functions of the frame one by one, and the
functions that manage blocks touch the NVRAM only through them. So this
invariant needs no other: no geometry, no bound on sharing, not even that
the command before it came to an end.

The totals are `uint64_t` and the fields of a superblock `int`. The
equations hold in the arithmetic of the totals; as equations of numbers
they hold as long as the products of the source fit its `int`.
-/
import FemuRemap.Proofs.Effects

namespace FemuRemap

open Lib

variable {c : Conf}

-- ============================================================ operations

/-- What may happen to the device: a command, a collection, a rewriting
of NVRAM entries. -/
inductive Op where
  | command (cmd : Cmd)
  | collect
  | compact

def runOp (c : Conf) (fuel : Nat) : Op → Ftl Unit
  | .command cmd => exec c fuel cmd
  | .collect => do
      let _ ← sbGarbageCollection c fuel
  | .compact => do
      let _ ← nvramOobGc c

/-- The states after any operations, also after one that stopped at a
fault. -/
inductive Operated (c : Conf) : Ssd → Prop
  | init : Operated c (ftlInit c)
  | op {s : Ssd} (fuel : Nat) (o : Op) :
      Operated c s → Operated c (runOp c fuel o s).st

-- ================================================================= sweep

/-- The totals stay the sums. -/
def KeepsTotals (c : Conf) (s s' : Ssd) : Prop :=
  Totals c s.nvram → Totals c s'.nvram

theorem KeepsTotals.steps : Steps (KeepsTotals c) :=
  ⟨fun _ => id, fun h h' hn => h' (h hn)⟩

/-- Keeps the totals, whatever it prints. -/
abbrev Summing (c : Conf) {α : Type} (m : Ftl α) : Prop :=
  Within (KeepsTotals c) anyEvent m

variable {I : Nat → Prop}

/-- What touches no list but perhaps block states already keeps the totals. -/
theorem Framed.summing {α : Type} {m : Ftl α} (h : Framed c I m) :
    Summing c m :=
  fun s => ⟨(h s).1.totals, fun _ _ => trivial⟩

/-- The allocator does not see the NVRAM. -/
theorem Listing.summing {α : Type} {m : Ftl α} (h : Listing m) :
    Summing c m :=
  Within.mono h fun s s' hl hn => by
    rw [hl]
    exact hn

/-- Nor does the choice of a victim. -/
theorem Choosing.summing {α : Type} {m : Ftl α} (h : Choosing m) :
    Summing c m :=
  Within.mono h fun s s' hl hn => by
    rw [hl]
    exact hn

theorem summing_pure {α : Type} (a : α) : Summing c (pure a : Ftl α) :=
  Within.pure KeepsTotals.steps a

theorem summing_emit (e : Event) : Summing c (Prog.emit e) :=
  Within.emit KeepsTotals.steps trivial

theorem summing_modifyStat (f : Stat → Stat) : Summing c (modifyStat f) :=
  Within.modify fun _ => id

theorem summing_bind {α β : Type} {m : Ftl α} {f : α → Ftl β}
    (hm : Summing c m) (hf : ∀ a, Summing c (f a)) : Summing c (m >>= f) :=
  Within.bind KeepsTotals.steps hm hf

/-- A migrated page is copied, and its lpns beyond the first are recorded in
the NVRAM. -/
theorem summing_migratePage (fuel f b k : Nat) :
    Summing c (migratePage c fuel f b k) := by
  refine summing_bind (listing_getNewPage fuel).summing fun r => ?_
  cases r with
  | none => exact summing_bind (summing_emit _) fun _ => summing_pure _
  | some q =>
      exact summing_bind (framed_copyPage (I := anyBlock) _ _ _ _ _
        trivial).summing fun _ => summing_pure _

theorem summing_migratePages (fuel f b : Nat) (pages : List Nat)
    (copied : Nat) : Summing c (migratePages c fuel f b pages copied) := by
  induction pages generalizing copied with
  | nil => exact summing_pure _
  | cons page pages ih =>
      refine Within.get_bind fun s => Within.ite ?_ (ih _)
      refine summing_bind (summing_migratePage _ _ _ _) fun r => ?_
      cases r with
      | fail => exact summing_pure _
      | success => exact ih _

theorem summing_migrateBlocks (fuel b : Nat) (flashes : List Nat)
    (copied : Nat) : Summing c (migrateBlocks c fuel b flashes copied) := by
  induction flashes generalizing copied with
  | nil => exact summing_pure _
  | cons f flashes ih =>
      refine summing_bind (summing_migratePages _ _ _ _ _) fun r => ?_
      cases r with
      | none => exact summing_pure _
      | some n =>
          refine Within.get_bind fun s => Within.ite ?_ (ih _)
          exact summing_bind (summing_emit _) fun _ => summing_pure _

/-- An erase returns the segments of its superblock. -/
theorem summing_eraseBlock (block flash : Nat) :
    Summing c (eraseBlock c block flash) := by
  refine summing_bind (Within.mono (within_ssdBlockErase (I := anyBlock) _ _)
    fun _ _ hl => hl.totals) fun _ => ?_
  refine summing_bind (framed_updateBlockState (I := anyBlock) _ _ _
    trivial).summing fun _ => ?_
  exact (listing_modifyLists _).summing

/-- One collection, with its early returns. -/
theorem summing_sbGarbageCollection (fuel : Nat) :
    Summing c (sbGarbageCollection c fuel) := by
  refine summing_bind choosing_selectVictimSuperblock.summing fun r => ?_
  cases r with
  | none => exact summing_pure _
  | some b =>
      refine summing_bind (Within.get_bind fun _ => summing_emit _)
        fun _ => ?_
      refine summing_bind (Within.get_bind fun _ => Within.ite
        (summing_emit _) (summing_pure _)) fun _ => ?_
      refine summing_bind (framed_updateNvramOob (I := anyBlock) _
        _).summing fun _ => ?_
      refine summing_bind (summing_migrateBlocks _ _ _ _) fun r => ?_
      cases r with
      | none => exact summing_pure _
      | some n =>
          refine summing_bind (summing_modifyStat _) fun _ => ?_
          refine summing_bind (Within.each KeepsTotals.steps
            (summing_eraseBlock b) _) fun _ => ?_
          exact summing_bind (summing_modifyStat _) fun _ =>
            summing_pure _

theorem summing_gcCheckLoop (fuel rounds : Nat) :
    Summing c (gcCheckLoop c fuel rounds) := by
  induction rounds with
  | zero => exact Within.fault KeepsTotals.steps _
  | succ rounds ih =>
      refine Within.get_bind fun s => Within.ite ?_ (summing_pure _)
      refine summing_bind (summing_sbGarbageCollection fuel) fun r => ?_
      cases r with
      | fail => exact summing_pure _
      | success =>
          exact summing_bind (summing_modifyStat _) fun _ => ih

theorem summing_gcCheckAfter (fuel : Nat) (q : Option Nat) :
    Summing c (gcCheckAfter c fuel q) := by
  cases q with
  | none => exact summing_pure _
  | some q =>
      refine Within.ite ?_ (summing_pure _)
      exact summing_bind (summing_gcCheckLoop fuel fuel) fun _ =>
        Within.get_bind fun _ => summing_emit _

theorem summing_writePage (fuel : Nat) (info : LpnInfo) (slot : Slot)
    (q : Option Nat) : Summing c (writePage c fuel info slot q) := by
  refine Within.get_bind fun s => ?_
  refine summing_bind (framed_askRemap (I := anyBlock) _ _).summing
    fun r => ?_
  cases r with
  | success =>
      exact summing_bind (framed_remapHinted _ _ _).summing fun _ =>
        summing_pure _
  | fail =>
      refine summing_bind ?_ fun r => ?_
      · refine summing_bind (listing_getNewPage fuel).summing fun r => ?_
        cases r with
        | none => exact summing_bind (summing_emit _) fun _ => summing_pure _
        | some x =>
            exact summing_bind (framed_storePage _ _ _).summing fun _ =>
              summing_pure _
      · cases r with
        | none => exact summing_pure _
        | some x => exact summing_pure _

theorem summing_writePages (fuel : Nat) (info : Nat → LpnInfo)
    (l : List Slot) (i : Nat) (q : Option Nat) :
    Summing c (writePages c fuel info l i q) := by
  induction l generalizing i q with
  | nil => exact summing_pure _
  | cons slot l ih =>
      refine summing_bind (summing_writePage _ _ _ _) fun r => ?_
      cases r with
      | none => exact summing_pure _
      | some q => exact ih _ _

theorem summing_ftlWrite (fuel : Nat) (req : RequestMeta) :
    Summing c (ftlWrite c fuel req) := by
  refine Within.ite ?_ ?_
  · exact summing_bind (summing_emit _) fun _ => summing_pure _
  · refine summing_bind (summing_writePages _ _ _ _ _) fun r => ?_
    cases r with
    | none => exact summing_pure _
    | some q =>
        exact summing_bind (summing_gcCheckAfter _ _) fun _ =>
          summing_pure _

theorem summing_remapPages (fuel : Nat) (ope : RemapOpe)
    (remain sLpn dLpn : Nat) :
    Summing c (remapPages c fuel ope remain sLpn dLpn) := by
  induction remain generalizing sLpn dLpn with
  | zero => exact summing_pure _
  | succ remain ih =>
      refine summing_bind (Within.get_bind fun s => ?_) fun _ => ih _ _
      refine summing_bind (framed_useRemap (I := anyBlock) _).summing
        fun r => ?_
      cases r with
      | success => exact (framed_remapLpn _ _ _ _ _).summing
      | fail =>
          exact summing_bind (summing_ftlWrite _ _) fun _ =>
            (framed_unmapSource _).summing

theorem summing_exec (fuel : Nat) (cmd : Cmd) :
    Summing c (exec c fuel cmd) := by
  cases cmd with
  | write req =>
      exact summing_bind (summing_ftlWrite _ _) fun _ => summing_pure _
  | discard length sectorNb =>
      exact summing_bind (framed_femuDiscardProcess _ _).summing fun _ =>
        summing_pure _
  | remap srcLpn dstLpn len ope =>
      refine summing_bind ?_ fun _ => summing_pure _
      unfold ssdRemap
      split
      · exact summing_bind (summing_emit _) fun _ => summing_pure _
      · exact summing_bind (summing_remapPages _ _ _ _ _) fun _ =>
          summing_pure _

/-- The run: initially all totals are zero, and each operation keeps them. -/
theorem Operated.totals (hE : 0 < c.oobEntryPerSeg) {s : Ssd}
    (h : Operated c s) : Totals c s.nvram := by
  induction h with
  | init => exact totals_init hE
  | @op s fuel o _ ih =>
      cases o with
      | command cmd => exact (summing_exec fuel cmd s).1 ih
      | collect =>
          exact (summing_bind (summing_sbGarbageCollection fuel)
            (fun _ => summing_pure ()) s).1 ih
      | compact =>
          exact (summing_bind (framed_nvramOobGc (I := anyBlock)).summing
            (fun _ => summing_pure ()) s).1 ih

-- ================================================================= sums

/-- Sum of a field over all superblocks. -/
def overSuperblocks (c : Conf) (n : Nvram) (f : OobSeg → Int) : Int :=
  ((List.range c.blockNb).map fun b => f (n.oobTable b)).sum

/-- The sum of the statement is the one the proofs use. -/
theorem overSuperblocks_eq (n : Nvram) (f : OobSeg → Int) :
    overSuperblocks c n f = segSum c n f :=
  sum_range _ _

/-- The totals are the sums over the superblocks, in the arithmetic of
the totals. -/
structure TotalsAreSums (c : Conf) (n : Nvram) : Prop where
  allocSeg : n.totalAllocSeg
    = u64 (overSuperblocks c n fun e => e.allocSeg)
  invalidEntry : n.totalInvalidEntry
    = u64 (overSuperblocks c n fun e => e.invalidEntry)
  oobEntry : n.totalOobEntry = u64 (overSuperblocks c n fun e =>
    e.allocSeg * c.oobEntryPerSeg - e.freeEntry)
  segBytes : n.totalSegBytes
    = u64 (n.totalAllocSeg * c.oobEntryPerSeg * oobEntryBytes)

/-- What the source computes in `int` for a superblock fits. -/
def IntsFit (c : Conf) (n : Nvram) : Prop :=
  c.blockNb < 2 ^ 31 ∧ ∀ b, b < c.blockNb →
    (n.oobTable b).allocSeg * c.oobEntryPerSeg * oobEntryBytes < 2 ^ 31
      ∧ (n.oobTable b).invalidEntry < 2 ^ 31

/-- The totals are the sums, as numbers. -/
structure TotalsExact (c : Conf) (n : Nvram) : Prop where
  allocSeg : (n.totalAllocSeg : Int)
    = overSuperblocks c n fun e => e.allocSeg
  invalidEntry : (n.totalInvalidEntry : Int)
    = overSuperblocks c n fun e => e.invalidEntry
  oobEntry : (n.totalOobEntry : Int) = overSuperblocks c n fun e =>
    e.allocSeg * c.oobEntryPerSeg - e.freeEntry
  segBytes : n.totalSegBytes
    = n.totalAllocSeg * c.oobEntryPerSeg * oobEntryBytes

/-- The free entries of each superblock are in its last segment. -/
def FreeInLastSeg (c : Conf) (n : Nvram) : Prop :=
  ∀ b, b < c.blockNb →
    0 ≤ (n.oobTable b).freeEntry
      ∧ (n.oobTable b).freeEntry < c.oobEntryPerSeg
      ∧ ((n.oobTable b).allocSeg = 0 → (n.oobTable b).freeEntry = 0)

variable {n : Nvram}

/-- A constant factor comes out of the sum. -/
theorem segSum_bytes : (segSum c n fun e =>
      e.allocSeg * (c.oobEntryPerSeg * oobEntryBytes))
    = segSum c n OobSeg.allocSeg * c.oobEntryPerSeg * oobEntryBytes := by
  rw [Int.mul_assoc, Int.mul_comm (segSum c n OobSeg.allocSeg), segSum,
    segSum, mul_tally]
  exact tally_congr fun b _ => Int.mul_comm _ _

/-- The invariant says what the statement asks. -/
theorem Totals.areSums (h : Totals c n) : TotalsAreSums c n where
  allocSeg := by rw [overSuperblocks_eq, h.alloc]
  invalidEntry := by rw [overSuperblocks_eq, h.invalid]
  oobEntry := by
    rw [overSuperblocks_eq, h.entries]
    rfl
  segBytes := by
    rw [h.bytes, segSum_bytes, h.alloc, Int.mul_assoc, Int.mul_assoc,
      u64_mul]

theorem Totals.freeInLastSeg (h : Totals c n) : FreeInLastSeg c n :=
  fun b hb => ⟨(h.shape b hb).free, (h.shape b hb).room,
    (h.shape b hb).none⟩

/-- A sum of so many small numbers is a `uint64_t`. -/
theorem segSum_fits (hc : c.blockNb < 2 ^ 31) {f : OobSeg → Int}
    (hf : ∀ b, b < c.blockNb →
      0 ≤ f (n.oobTable b) ∧ f (n.oobTable b) < 2 ^ 31) :
    (u64 (segSum c n f) : Int) = segSum c n f := by
  have hlo : (0 : Int) ≤ segSum c n f := by
    calc (0 : Int) = tally c.blockNb fun _ => (0 : Int) :=
          (tally_eq_zero fun _ _ => rfl).symm
      _ ≤ segSum c n f := tally_mono fun b hb => (hf b hb).1
  have hhi : segSum c n f ≤ c.blockNb * 2 ^ 31 := by
    calc segSum c n f ≤ tally c.blockNb fun _ => (2 ^ 31 : Int) :=
          tally_mono fun b hb => (hf b hb).2.le
      _ = c.blockNb * 2 ^ 31 := by simp [tally]
  unfold u64
  omega

/-- The fields of a superblock whose products fit. -/
theorem SegOk.fits {e : OobSeg} (h : SegOk c e)
    (hfit : e.allocSeg * c.oobEntryPerSeg * oobEntryBytes < 2 ^ 31) :
    e.allocSeg < 2 ^ 31 ∧ 0 ≤ stored c e ∧ stored c e < 2 ^ 31 := by
  have hfit : e.allocSeg * c.oobEntryPerSeg * 16 < 2 ^ 31 := hfit
  have halloc := h.alloc
  have hfree := h.free
  have hroom := h.room
  have hle : e.allocSeg * 1 ≤ e.allocSeg * c.oobEntryPerSeg :=
    Int.mul_le_mul_of_nonneg_left (by omega) halloc
  have hlast : e.freeEntry ≤ e.allocSeg * c.oobEntryPerSeg := by
    by_cases hz : e.allocSeg = 0
    · rw [h.none hz, hz, Int.zero_mul]
    · have := Int.mul_le_mul_of_nonneg_right
        (show (1 : Int) ≤ e.allocSeg by omega)
        (show (0 : Int) ≤ c.oobEntryPerSeg by omega)
      omega
  unfold stored
  omega

/-- With `int` arithmetic that fits, the sums are the totals as numbers and
not only modulo their width. -/
theorem Totals.exact (h : Totals c n) (hfit : IntsFit c n) :
    TotalsExact c n := by
  obtain ⟨hc, hfit⟩ := hfit
  have hseg := fun b hb => (h.shape b hb).fits (hfit b hb).1
  have halloc : (n.totalAllocSeg : Int) = segSum c n OobSeg.allocSeg := by
    rw [h.alloc]
    exact segSum_fits hc fun b hb => ⟨(h.shape b hb).alloc, (hseg b hb).1⟩
  refine ⟨?_, ?_, ?_, ?_⟩
  · rw [overSuperblocks_eq, halloc]
  · rw [overSuperblocks_eq, h.invalid]
    exact segSum_fits hc fun b hb =>
      ⟨(h.shape b hb).invalid, (hfit b hb).2⟩
  · rw [overSuperblocks_eq, h.entries]
    exact segSum_fits hc fun b hb => (hseg b hb).2
  · have hbytes : (n.totalSegBytes : Int)
        = n.totalAllocSeg * c.oobEntryPerSeg * oobEntryBytes := by
      rw [halloc, ← segSum_bytes, h.bytes]
      refine segSum_fits hc fun b hb => ?_
      rw [← Int.mul_assoc]
      refine ⟨Int.mul_nonneg (Int.mul_nonneg (h.shape b hb).alloc ?_) ?_,
        (hfit b hb).1⟩
      · exact Int.natCast_nonneg _
      · exact Int.natCast_nonneg _
    exact_mod_cast hbytes

/-- After any writes, remaps, discards, collections and rewritings of
NVRAM entries, the NVRAM totals are the sums over the superblocks in
`uint64_t` arithmetic, and as numbers while the superblocks' `int`s do not
overflow; and each superblock has its free entries in its last segment. -/
theorem nvram_totals_are_sums (hE : 0 < c.oobEntryPerSeg) {s : Ssd}
    (h : Operated c s) :
    TotalsAreSums c s.nvram ∧ (IntsFit c s.nvram → TotalsExact c s.nvram)
      ∧ FreeInLastSeg c s.nvram :=
  ⟨(h.totals hE).areSums, (h.totals hE).exact, (h.totals hE).freeInLastSeg⟩

/-- Two pages share a flash page, an entry is in the NVRAM. -/
theorem nvram_totals_are_sums_tiny :
    (runOp tinyConf 40 (.command (.remap 0 1 1 3))
        (runOp tinyConf 40 (.command (writeOf 0 10)) (ftlInit tinyConf)).st
      ).st.nvram.totalAllocSeg = 1
    ∧ TotalsExact tinyConf
      (runOp tinyConf 40 (.command (.remap 0 1 1 3))
        (runOp tinyConf 40 (.command (writeOf 0 10)) (ftlInit tinyConf)).st
      ).st.nvram := by
  refine ⟨by decide +kernel, ?_⟩
  refine (nvram_totals_are_sums (by decide)
    (.op _ _ (.op _ _ .init))).2.1 ⟨by decide, ?_⟩
  decide +kernel

end FemuRemap
