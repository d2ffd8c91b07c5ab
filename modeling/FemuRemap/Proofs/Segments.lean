/-
The NVRAM segments: entries per superblock, and the totals kept beside
the table.

An entry is stored by `putEntry`, which opens a segment when none has
room; `storeEntry`, `releaseSegs` and `storeEntries` change the table
by it. `Totals` says that the counters are the sums over the
superblocks, in the 64 bits they have. Every function keeps it, whatever
the state of the mapping, so it is part of the frame.
-/
import FemuRemap.Lib.Tally
import FemuRemap.Model.InverseMapping

namespace FemuRemap

open Lib

variable {c : Conf} {n n' : Nvram} {b : Nat}

-- ======================================================== one superblock

/-- Entries stored in the segments of a superblock. -/
def stored (c : Conf) (e : OobSeg) : Int :=
  e.allocSeg * c.oobEntryPerSeg - e.freeEntry

/-- The counters of one superblock's segments are in range. -/
structure SegOk (c : Conf) (e : OobSeg) : Prop where
  alloc : 0 ≤ e.allocSeg
  free : 0 ≤ e.freeEntry
  room : e.freeEntry < c.oobEntryPerSeg
  invalid : 0 ≤ e.invalidEntry
  none : e.allocSeg = 0 → e.freeEntry = 0

/-- One entry more in the segments of a superblock. -/
def putEntry (c : Conf) (e : OobSeg) : OobSeg :=
  if e.freeEntry = 0
  then ⟨e.allocSeg + 1, c.oobEntryPerSeg - 1, e.invalidEntry⟩
  else ⟨e.allocSeg, e.freeEntry - 1, e.invalidEntry⟩

theorem stored_putEntry (e : OobSeg) :
    stored c (putEntry c e) = stored c e + 1
      ∧ (putEntry c e).invalidEntry = e.invalidEntry := by
  unfold putEntry stored
  split
  · next h0 =>
      refine ⟨?_, rfl⟩
      simp only [h0, Int.add_mul]
      omega
  · refine ⟨?_, rfl⟩
    dsimp only
    omega

/-- Free entries stay below a segment: a new one is taken when none is
left. -/
theorem SegOk.put {e : OobSeg} (h : SegOk c e)
    (hE : 0 < c.oobEntryPerSeg) : SegOk c (putEntry c e) := by
  obtain ⟨h₁, h₂, h₃, h₄, h₅⟩ := h
  unfold putEntry
  split
  · exact ⟨by dsimp only; omega, by dsimp only; omega,
      by dsimp only; omega, h₄, by dsimp only; omega⟩
  · next h0 =>
      refine ⟨h₁, by dsimp only; omega, by dsimp only; omega, h₄, ?_⟩
      intro ha
      exact absurd (h₅ ha) h0

theorem segOk_zero (hE : 0 < c.oobEntryPerSeg) : SegOk c ⟨0, 0, 0⟩ :=
  ⟨Int.le_refl _, Int.le_refl _, by simpa using hE, Int.le_refl _,
    fun _ => rfl⟩

/-- Storing changes one superblock's record. -/
theorem storeEntry_oobTable (n : Nvram) (b x : Nat) :
    (storeEntry c b n).oobTable x
      = if x = b then putEntry c (n.oobTable b) else n.oobTable x := by
  unfold storeEntry putEntry
  by_cases h0 : (n.oobTable b).freeEntry = 0
  · simp only [h0, if_true, Table.get_set]
    split <;> rfl
  · simp only [h0, if_false, Table.get_set]

/-- Storing `k` times puts `k` entries there. -/
theorem storeEntries_oobTable (n : Nvram) (b k x : Nat) :
    (storeEntries c b k n).oobTable x
      = if x = b then (putEntry c)^[k] (n.oobTable b)
        else n.oobTable x := by
  induction k generalizing n with
  | zero =>
      unfold storeEntries
      split
      · next hx => rw [hx]; rfl
      · rfl
  | succ k ih =>
      rw [storeEntries, ih, storeEntry_oobTable, storeEntry_oobTable,
        if_pos rfl, Function.iterate_succ_apply]
      split <;> rfl

theorem stored_iterate (e : OobSeg) (k : Nat) :
    stored c ((putEntry c)^[k] e) = stored c e + k
      ∧ ((putEntry c)^[k] e).invalidEntry = e.invalidEntry := by
  induction k generalizing e with
  | zero => simp
  | succ k ih =>
      obtain ⟨h₁, h₂⟩ := ih (putEntry c e)
      obtain ⟨h₃, h₄⟩ := stored_putEntry (c := c) e
      rw [Function.iterate_succ_apply, h₁, h₂, h₃, h₄]
      refine ⟨?_, rfl⟩
      push_cast
      omega

/-- Releasing clears one superblock's record. -/
theorem releaseSegs_oobTable (n : Nvram) (b x : Nat) :
    (releaseSegs c b n).oobTable x
      = if x = b then ⟨0, 0, 0⟩ else n.oobTable x := by
  unfold releaseSegs
  simp only [Table.get_set]

-- ============================================================== victim

/-- The victim of an NVRAM collection has an invalid entry. -/
theorem oobVictim_spec (hv : oobVictim c n = some b) :
    b < c.blockNb ∧ 0 < (n.oobTable b).invalidEntry := by
  -- the best so far is none, or the entry it was taken from
  suffices key : ∀ (l : List Nat) (best : Int × Option Nat),
      (∀ i ∈ l, i < c.blockNb) →
      0 ≤ best.1 → (∀ y, best.2 = some y → y < c.blockNb
        ∧ 0 < (n.oobTable y).invalidEntry) →
      ∀ y, (l.foldl (fun best i =>
        if best.1 < (n.oobTable i).invalidEntry
        then ((n.oobTable i).invalidEntry, some i) else best) best).2
        = some y → y < c.blockNb ∧ 0 < (n.oobTable y).invalidEntry from
    key _ (0, none) (by simp) (Int.le_refl 0) (by simp) b hv
  intro l
  induction l with
  | nil => exact fun _ _ _ hbest => hbest
  | cons i l ih =>
      intro best hl h0 hbest
      refine ih _ (fun j hj => hl j (by simp [hj])) ?_ ?_
      · dsimp only
        split <;> omega
      · dsimp only
        split
        · next hlt =>
            intro y hy
            obtain rfl : i = y := by simpa using hy
            exact ⟨hl i (by simp), by omega⟩
        · exact hbest

-- ============================================================== totals

/-- A quantity summed over the superblocks. -/
def segSum (c : Conf) (n : Nvram) (f : OobSeg → Int) : Int :=
  tally c.blockNb fun b => f (n.oobTable b)

/-- One superblock's segments changed. -/
theorem segSum_set (f : OobSeg → Int) (hb : b < c.blockNb) {e : OobSeg}
    (h : ∀ x, n'.oobTable x = if x = b then e else n.oobTable x) :
    segSum c n' f = segSum c n f + (f e - f (n.oobTable b)) := by
  have := tally_set (g := fun x => f (n.oobTable x))
    (f := fun x => f (n'.oobTable x)) hb fun x _ hx => by
      rw [h, if_neg hx]
  rw [h, if_pos rfl] at this
  unfold segSum
  omega

/-- The totals of `INIT_NVRAM_OOB`'s table. -/
structure Totals (c : Conf) (n : Nvram) : Prop where
  pos : 0 < c.oobEntryPerSeg
  shape : ∀ b, b < c.blockNb → SegOk c (n.oobTable b)
  alloc : n.totalAllocSeg = u64 (segSum c n OobSeg.allocSeg)
  invalid : n.totalInvalidEntry = u64 (segSum c n OobSeg.invalidEntry)
  entries : n.totalOobEntry = u64 (segSum c n (stored c))
  bytes : n.totalSegBytes = u64 (segSum c n fun e =>
    e.allocSeg * (c.oobEntryPerSeg * oobEntryBytes))

theorem totals_init (hE : 0 < c.oobEntryPerSeg) :
    Totals c initNvramOob := by
  have hz : ∀ f : OobSeg → Int, f ⟨0, 0, 0⟩ = 0 →
      segSum c initNvramOob f = 0 := fun f hf =>
    tally_eq_zero fun _ _ => hf
  refine ⟨hE, fun _ _ => segOk_zero hE, ?_, ?_, ?_, ?_⟩
  · rw [hz _ rfl]; rfl
  · rw [hz _ rfl]; rfl
  · rw [hz _ (by simp [stored])]; rfl
  · rw [hz _ (by simp)]; rfl

/-- What the totals are about. -/
theorem Totals.congr (h : Totals c n)
    (h₀ : ∀ b, n'.oobTable b = n.oobTable b)
    (h₁ : n'.totalAllocSeg = n.totalAllocSeg)
    (h₂ : n'.totalInvalidEntry = n.totalInvalidEntry)
    (h₃ : n'.totalOobEntry = n.totalOobEntry)
    (h₄ : n'.totalSegBytes = n.totalSegBytes) : Totals c n' := by
  have hs : ∀ f, segSum c n' f = segSum c n f := fun f =>
    tally_congr fun b _ => by rw [h₀]
  refine ⟨h.pos, fun b hb => by rw [h₀]; exact h.shape b hb, ?_, ?_, ?_,
    ?_⟩
  · rw [h₁, hs, h.alloc]
  · rw [h₂, hs, h.invalid]
  · rw [h₃, hs, h.entries]
  · rw [h₄, hs, h.bytes]

/-- One superblock changed, and the totals moved along. -/
theorem Totals.set (h : Totals c n) (hb : b < c.blockNb) {e : OobSeg}
    (he : SegOk c e)
    (h₀ : ∀ x, n'.oobTable x = if x = b then e else n.oobTable x)
    (h₁ : n'.totalAllocSeg = u64 (n.totalAllocSeg
      + (e.allocSeg - (n.oobTable b).allocSeg)))
    (h₂ : n'.totalInvalidEntry = u64 (n.totalInvalidEntry
      + (e.invalidEntry - (n.oobTable b).invalidEntry)))
    (h₃ : n'.totalOobEntry = u64 (n.totalOobEntry
      + (stored c e - stored c (n.oobTable b))))
    (h₄ : n'.totalSegBytes = u64 (n.totalSegBytes
      + (e.allocSeg * (c.oobEntryPerSeg * oobEntryBytes)
        - (n.oobTable b).allocSeg
          * (c.oobEntryPerSeg * oobEntryBytes)))) :
    Totals c n' := by
  refine ⟨h.pos, fun x hx => ?_, ?_, ?_, ?_, ?_⟩
  · rw [h₀]
    split
    · exact he
    · exact h.shape x hx
  · rw [h₁, h.alloc, u64_add, segSum_set _ hb h₀]
  · rw [h₂, h.invalid, u64_add, segSum_set _ hb h₀]
  · rw [h₃, h.entries, u64_add, segSum_set _ hb h₀]
  · rw [h₄, h.bytes, u64_add, segSum_set _ hb h₀]

/-- An entry, and the segment it may need, is added to the record and to the
totals alike. -/
theorem Totals.store (h : Totals c n) (hb : b < c.blockNb) :
    Totals c (storeEntry c b n) := by
  obtain ⟨hs, hi⟩ := stored_putEntry (c := c) (n.oobTable b)
  refine h.set hb ((h.shape b hb).put h.pos) (storeEntry_oobTable n b)
    ?_ ?_ ?_ ?_
  · by_cases h0 : (n.oobTable b).freeEntry = 0
    · simp [storeEntry, putEntry, h0]
    · simp [storeEntry, putEntry, h0, h.alloc]
  · rw [hi]
    by_cases h0 : (n.oobTable b).freeEntry = 0 <;>
      simp [storeEntry, h0, h.invalid]
  · rw [hs]
    by_cases h0 : (n.oobTable b).freeEntry = 0 <;> simp [storeEntry, h0]
  · by_cases h0 : (n.oobTable b).freeEntry = 0
    · simp [storeEntry, putEntry, h0, Int.add_mul]
    · simp [storeEntry, putEntry, h0, h.bytes]

theorem Totals.store_many (h : Totals c n) (hb : b < c.blockNb)
    (k : Nat) : Totals c (storeEntries c b k n) := by
  induction k generalizing n with
  | zero => exact h
  | succ k ih => exact ih (h.store hb)

/-- What the record held is taken off the totals. -/
theorem Totals.release (h : Totals c n) (hb : b < c.blockNb) :
    Totals c (releaseSegs c b n) := by
  refine h.set hb (segOk_zero h.pos) (releaseSegs_oobTable n b)
    ?_ ?_ ?_ ?_
  · exact congrArg u64 (by dsimp only; omega)
  · exact congrArg u64 (by dsimp only; omega)
  · exact congrArg u64 (by simp only [stored, Int.zero_mul]; omega)
  · refine congrArg u64 ?_
    rw [Int.zero_mul, Int.zero_sub, Int.mul_assoc]
    rfl

/-- An entry of the superblock becomes invalid. -/
theorem Totals.mark (h : Totals c n) (hb : b < c.blockNb) :
    Totals c
      { n with
        oobTable := n.oobTable.set b
          { n.oobTable b with
            invalidEntry := (n.oobTable b).invalidEntry + 1 }
        totalInvalidEntry := u64 (n.totalInvalidEntry + 1) } := by
  have he := h.shape b hb
  have hi := he.invalid
  refine h.set hb (e := { n.oobTable b with
    invalidEntry := (n.oobTable b).invalidEntry + 1 })
    { he with invalid := by dsimp only; omega }
    (fun x => Table.get_set ..) ?_ ?_ ?_ ?_
  · simp [h.alloc]
  · dsimp only
    rw [add_sub_cancel_left]
  · simp [stored, h.entries]
  · simp [h.bytes]

end FemuRemap
