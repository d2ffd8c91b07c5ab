/-
A chip and a channel serve one operation at a time.

# The argument

Each call combines two timelines, with a formula of its own: what it adds
to a chip or channel always starts when that is available next, or later,
and ends by the instant at which it is available afterwards. So a call is
a booking (`Books`), a run of calls is one as well, and the uses of a
chip or channel in a run follow each other. Nothing is asked of the
clock: it may even go back.
-/
import FemuRemap.Model.Timing

namespace FemuRemap.Timing

open Lib

variable {n : NandConf} {ts : FlashTs}

/-- What a call occupies. -/
inductive Resource where
  | chip (flash : Nat)
  | chnl (channel : Nat)
deriving DecidableEq

/-- When a chip or channel is available next. -/
def FlashTs.avail (ts : FlashTs) : Resource → Int
  | .chip flash => ts.chipNextAvailTime flash
  | .chnl channel => ts.chnlNextAvailTime channel

/-- The cell time and the transfer of a write. -/
def writeUses (n : NandConf) (now : Int) (flash : Nat) (ts : FlashTs) :
    List (Use Resource) :=
  let chnl := max now (ts.chnlNextAvailTime (numChannel n flash))
  let chip := max (chnl + n.regWriteDelay) (ts.chipNextAvailTime flash)
  [⟨.chnl (numChannel n flash), chnl, chnl + n.regWriteDelay⟩,
    ⟨.chip flash, chip, chip + n.cellProgramDelay⟩]

/-- The uses that a call makes. A read holds its chip until the data is
transferred. -/
def Call.uses (n : NandConf) (ts : FlashTs) (call : Call) :
    List (Use Resource) :=
  match call.op with
  | .pageRead flash =>
      let chip := max call.now (ts.chipNextAvailTime flash)
      let chnl := max (chip + n.cellReadDelay)
        (ts.chnlNextAvailTime (numChannel n flash))
      [⟨.chip flash, chip, chnl + n.regReadDelay⟩,
        ⟨.chnl (numChannel n flash), chnl, chnl + n.regReadDelay⟩]
  | .pageWrite flash | .pagePartialWrite flash _ =>
      writeUses n call.now flash ts
  | .blockErase flash =>
      let chip := max (max call.now
        (ts.chnlNextAvailTime (numChannel n flash)))
        (ts.chipNextAvailTime flash)
      [⟨.chip flash, chip, chip + n.blockEraseDelay⟩]
  | .updateFlashTs needTime => (List.range n.flashNb).map fun i =>
      ⟨.chip i, max call.now (ts.chipNextAvailTime i),
        max call.now (ts.chipNextAvailTime i) + needTime⟩

/-- The uses of a run, in the order of its calls. -/
def runUses (n : NandConf) : List Call → FlashTs → List (Use Resource)
  | [], _ => []
  | call :: calls, ts =>
      call.uses n ts ++ runUses n calls (call.serve n ts)

-- ======================================================== one call

/-- The sources choose between two sums; both times it is the later
start. -/
theorem ite_lt_add (a b d : Int) :
    (if a < b then b + d else a + d) = max a b + d := by
  split <;> omega

/-- The comparison of the source is a maximum. -/
theorem ite_lt_eq_max (a b : Int) : (if a < b then b else a) = max a b := by
  split <;> omega

/-- A later value in one entry lowers none. -/
theorem le_get_set {t : Table Int} {i : Nat} {v : Int} (h : t i ≤ v)
    (j : Nat) : t j ≤ t.set i v j := by
  rw [Table.get_set]
  split
  · next hj => rw [hj]; exact h
  · exact Int.le_refl _

/-- Neither does one in a chip's entry and one in a channel's. -/
theorem avail_le_set {ts : FlashTs} {flash channel : Nat} {v w : Int}
    (hv : ts.chipNextAvailTime flash ≤ v)
    (hw : ts.chnlNextAvailTime channel ≤ w) (r : Resource) :
    ts.avail r ≤ FlashTs.avail { ts with
      chipNextAvailTime := ts.chipNextAvailTime.set flash v
      chnlNextAvailTime := ts.chnlNextAvailTime.set channel w } r := by
  cases r with
  | chip i => exact le_get_set hv i
  | chnl i => exact le_get_set hw i

/-- A program books its chip and its channel. -/
theorem ssdPageWrite_books (now : Int) (flash : Nat) (ts : FlashTs) :
    Books ts.avail (ssdPageWrite n now flash ts).1.avail
      (writeUses n now flash ts) := by
  unfold ssdPageWrite writeUses
  simp only [ite_lt_add, ite_lt_eq_max]
  refine Books.two Resource.noConfusion
    (avail_le_set (by omega) (by omega)) ?_ ?_
  · simp only [FlashTs.avail, Table.get_set_self]
    omega
  · simp only [FlashTs.avail, Table.get_set_self]
    omega

theorem ssdPageRead_books (now : Int) (flash : Nat) (ts : FlashTs) :
    Books ts.avail (ssdPageRead n now flash ts).1.avail
      (Call.uses n ts ⟨now, .pageRead flash⟩) := by
  unfold ssdPageRead Call.uses
  simp only [ite_lt_add]
  refine Books.two Resource.noConfusion
    (avail_le_set (by omega) (by omega)) ?_ ?_
  · simp only [FlashTs.avail, Table.get_set_self]
    omega
  · simp only [FlashTs.avail, Table.get_set_self]
    omega

theorem ssdBlockErase_books (now : Int) (flash : Nat) (ts : FlashTs) :
    Books ts.avail (ssdBlockErase n now flash ts).avail
      (Call.uses n ts ⟨now, .blockErase flash⟩) := by
  unfold ssdBlockErase Call.uses
  simp only [ite_lt_add, ite_lt_eq_max]
  refine Books.one _ (fun r => ?_) ?_ ?_
  · cases r with
    | chip i => exact le_get_set (by omega) i
    | chnl i => exact Int.le_refl _
  · simp only [FlashTs.avail]
    omega
  · simp only [FlashTs.avail, Table.get_set_self]
    omega

/-- `UPDATE_FLASH_TS` delays every chip alike. -/
theorem updateFlashTs_chip (now : Int) (needTime : Nat) (ts : FlashTs)
    (i : Nat) : (updateFlashTs n now needTime ts).chipNextAvailTime i
      = if i < n.flashNb then max now (ts.chipNextAvailTime i) + needTime
        else ts.chipNextAvailTime i := by
  unfold updateFlashTs
  dsimp only
  generalize n.flashNb = k
  suffices h : Table.Upto
      (fun i => max now (ts.chipNextAvailTime i) + needTime) k
      ts.chipNextAvailTime ((List.range k).foldl (delayChip now needTime)
        ts.chipNextAvailTime) from h i
  induction k with
  | zero => exact .zero _ _
  | succ k ih =>
      rw [List.range_succ, List.foldl_append, List.foldl_cons, List.foldl_nil]
      -- the entry of this round was not touched by the earlier ones
      have hlater : (if ts.chipNextAvailTime k < now then now + (needTime : Int)
          else ts.chipNextAvailTime k + needTime)
          = max now (ts.chipNextAvailTime k) + needTime := by
        split <;> omega
      rw [delayChip, ih.get_ge (Nat.le_refl k), hlater]
      exact ih.set

/-- The update of all time stamps books every chip and no channel. -/
theorem updateFlashTs_books (now : Int) (needTime : Nat) (ts : FlashTs) :
    Books ts.avail (updateFlashTs n now needTime ts).avail
      (Call.uses n ts ⟨now, .updateFlashTs needTime⟩) where
  mono r := by
    cases r with
    | chip i =>
        rw [FlashTs.avail, FlashTs.avail, updateFlashTs_chip]
        split <;> omega
    | chnl i => exact Int.le_refl _
  apart := by
    refine List.pairwise_map.2 (List.nodup_range.imp fun hne hon => ?_)
    exact absurd (Resource.chip.inj hon) hne
  after u hu := by
    obtain ⟨i, -, rfl⟩ := List.mem_map.1 hu
    exact Int.le_max_right _ _
  before u hu := by
    obtain ⟨i, hi, rfl⟩ := List.mem_map.1 hu
    have hend := updateFlashTs_chip (n := n) now needTime ts i
    rw [if_pos (List.mem_range.1 hi)] at hend
    exact Int.le_of_eq hend.symm

/-- Every call books what it uses. -/
theorem Call.serve_books (call : Call) (ts : FlashTs) :
    Books ts.avail (call.serve n ts).avail (call.uses n ts) := by
  obtain ⟨now, op⟩ := call
  cases op with
  | pageRead flash => exact ssdPageRead_books now flash ts
  | pageWrite flash => exact ssdPageWrite_books now flash ts
  | pagePartialWrite old new => exact ssdPageWrite_books now old ts
  | blockErase flash => exact ssdBlockErase_books now flash ts
  | updateFlashTs needTime => exact updateFlashTs_books now needTime ts

/-- So does a run. -/
theorem runCalls_books (calls : List Call) (ts : FlashTs) :
    Books ts.avail (runCalls n calls ts).avail (runUses n calls ts) := by
  induction calls generalizing ts with
  | nil => exact .refl _
  | cons call calls ih => exact (call.serve_books ts).trans (ih _)

-- ==================================================== the guarantees

/-- What a page access does: chip and channel move on by its cell time
and its transfer, and the host waits for both, and for the chip. -/
def PageCharged (n : NandConf) (now : Int) (flash cell reg : Nat)
    (ts : FlashTs) (r : FlashTs × Int) : Prop :=
  ts.chipNextAvailTime flash + cell ≤ r.1.chipNextAvailTime flash
    ∧ ts.chnlNextAvailTime (numChannel n flash) + reg
      ≤ r.1.chnlNextAvailTime (numChannel n flash)
    ∧ (cell + reg : Int) ≤ r.2
    ∧ ts.chipNextAvailTime flash - now ≤ r.2

/-- What a call does, by the kind of call; no timestamp decreases. -/
def Charged (n : NandConf) (ts : FlashTs) (call : Call) : Prop :=
  (∀ flash, ts.chipNextAvailTime flash
      ≤ (call.serve n ts).chipNextAvailTime flash)
    ∧ (∀ channel, ts.chnlNextAvailTime channel
      ≤ (call.serve n ts).chnlNextAvailTime channel)
    ∧ match call.op with
      | .pageRead flash => PageCharged n call.now flash n.cellReadDelay
          n.regReadDelay ts (ssdPageRead n call.now flash ts)
      | .pageWrite flash => PageCharged n call.now flash n.cellProgramDelay
          n.regWriteDelay ts (ssdPageWrite n call.now flash ts)
      | .pagePartialWrite old new => PageCharged n call.now old
          n.cellProgramDelay n.regWriteDelay ts
          (ssdPagePartialWrite n call.now old new ts)
      | .blockErase flash => ts.chipNextAvailTime flash + n.blockEraseDelay
          ≤ (ssdBlockErase n call.now flash ts).chipNextAvailTime flash
      | .updateFlashTs needTime => ∀ flash < n.flashNb,
          ts.chipNextAvailTime flash + needTime
            ≤ (updateFlashTs n call.now needTime ts).chipNextAvailTime flash

/-- A read charges the cell first, then the register. -/
theorem ssdPageRead_charged (now : Int) (flash : Nat) (ts : FlashTs) :
    PageCharged n now flash n.cellReadDelay n.regReadDelay ts
      (ssdPageRead n now flash ts) := by
  unfold PageCharged ssdPageRead
  simp only [ite_lt_add, Table.get_set_self]
  omega

/-- A program charges the register first, then the cell. -/
theorem ssdPageWrite_charged (now : Int) (flash : Nat) (ts : FlashTs) :
    PageCharged n now flash n.cellProgramDelay n.regWriteDelay ts
      (ssdPageWrite n now flash ts) := by
  unfold PageCharged ssdPageWrite
  simp only [ite_lt_add, ite_lt_eq_max, Table.get_set_self]
  omega

/-- Every call charges what it says. -/
theorem Call.charged (call : Call) (ts : FlashTs) : Charged n ts call := by
  have hmono := (call.serve_books (n := n) ts).mono
  refine ⟨fun flash => hmono (.chip flash), fun ch => hmono (.chnl ch), ?_⟩
  obtain ⟨now, op⟩ := call
  cases op with
  | pageRead flash => exact ssdPageRead_charged now flash ts
  | pageWrite flash => exact ssdPageWrite_charged now flash ts
  | pagePartialWrite old new => exact ssdPageWrite_charged now old ts
  | blockErase flash =>
      unfold ssdBlockErase
      simp only [ite_lt_add, Table.get_set_self]
      omega
  | updateFlashTs needTime =>
      intro flash hflash
      rw [updateFlashTs_chip, if_pos hflash]
      omega

/-- Whatever calls are made, at whatever clock values: each one moves the
timestamps of what it charges by its own time, none back, and returns a
latency that covers its work and the work its chip had left; and no two
uses of a chip or of a channel overlap. -/
theorem flash_uses_exclusive (n : NandConf) (calls : List Call)
    (ts : FlashTs) :
    (∀ i : Fin calls.length,
      Charged n (runCalls n (calls.take i) ts) (calls.get i))
    ∧ (runUses n calls ts).Pairwise Apart :=
  ⟨fun i => (calls.get i).charged (runCalls n (calls.take i) ts),
    (runCalls_books calls ts).apart⟩

-- ============================================================ bounds

/-- The time that a call adds at most. -/
def FlashOp.charge (n : NandConf) : FlashOp → Nat
  | .pageRead _ => n.cellReadDelay + n.regReadDelay
  | .pageWrite _ | .pagePartialWrite _ _ =>
      n.regWriteDelay + n.cellProgramDelay
  | .blockErase _ => n.blockEraseDelay
  | .updateFlashTs needTime => needTime

/-- No timestamp is later than `b`. -/
structure Until (b : Int) (ts : FlashTs) : Prop where
  chip : ∀ flash, ts.chipNextAvailTime flash ≤ b
  chnl : ∀ channel, ts.chnlNextAvailTime channel ≤ b

theorem get_set_le {t : Table Int} {b : Int} (h : ∀ j, t j ≤ b) {i : Nat}
    {v : Int} {d : Nat} (hv : v ≤ b + d) (j : Nat) :
    t.set i v j ≤ b + d := by
  rw [Table.get_set]
  split
  · exact hv
  · have := h j
    omega

theorem Until.later {b : Int} (h : Until b ts) (d : Nat) :
    (∀ flash, ts.chipNextAvailTime flash ≤ b + d)
      ∧ ∀ channel, ts.chnlNextAvailTime channel ≤ b + d :=
  ⟨fun flash => by have := h.chip flash; omega,
    fun channel => by have := h.chnl channel; omega⟩

/-- A call moves the bound by at most what it charges. -/
theorem Until.serve {b : Int} (h : Until b ts) (call : Call)
    (hnow : call.now ≤ b) :
    Until (b + call.op.charge n) (call.serve n ts) := by
  obtain ⟨now, op⟩ := call
  have hnow : now ≤ b := hnow
  -- a whole and a partial write charge alike, the latter its old flash
  have hwrite : ∀ flash, Until (b + (n.regWriteDelay + n.cellProgramDelay
      : Nat)) (ssdPageWrite n now flash ts).1 := by
    intro flash
    have hchip := h.chip flash
    have hchnl := h.chnl (numChannel n flash)
    unfold ssdPageWrite
    simp only [ite_lt_add, ite_lt_eq_max]
    exact ⟨get_set_le h.chip (by omega), get_set_le h.chnl (by omega)⟩
  cases op with
  | pageRead flash =>
      have hchip := h.chip flash
      have hchnl := h.chnl (numChannel n flash)
      unfold Call.serve ssdPageRead FlashOp.charge
      simp only [ite_lt_add]
      exact ⟨get_set_le h.chip (by omega), get_set_le h.chnl (by omega)⟩
  | pageWrite flash => exact hwrite flash
  | pagePartialWrite old new => exact hwrite old
  | blockErase flash =>
      have hchip := h.chip flash
      have hchnl := h.chnl (numChannel n flash)
      unfold Call.serve ssdBlockErase FlashOp.charge
      simp only [ite_lt_add, ite_lt_eq_max]
      exact ⟨get_set_le h.chip (by omega), (h.later _).2⟩
  | updateFlashTs needTime =>
      refine ⟨fun flash => ?_, (h.later _).2⟩
      have hchip := h.chip flash
      unfold Call.serve FlashOp.charge
      simp only [updateFlashTs_chip]
      split <;> omega

/-- The timestamps of a run are no later than the clock and the time that
its calls charge. -/
theorem runCalls_le {b : Int} (calls : List Call) (h : Until b ts)
    (hnow : ∀ call ∈ calls, call.now ≤ b) :
    Until (b + (calls.map fun call => call.op.charge n).sum)
      (runCalls n calls ts) := by
  induction calls generalizing ts b with
  | nil => exact ⟨(h.later 0).1, (h.later 0).2⟩
  | cons call calls ih =>
      have hserve := h.serve (n := n) call (hnow call List.mem_cons_self)
      have hrest := ih hserve fun c hc => by
        have := hnow c (List.mem_cons_of_mem call hc)
        omega
      rw [List.map_cons, List.sum_cons, Int.natCast_add, ← Int.add_assoc]
      exact hrest

/-- So an `int64_t` holds the timestamps of a run, if it holds the clock
and the time that is charged. -/
theorem runCalls_fits {b : Int} (calls : List Call) (h : Until b ts)
    (hpos : ∀ r, 0 ≤ ts.avail r) (hnow : ∀ call ∈ calls, call.now ≤ b)
    (hfit : b + (calls.map fun call => call.op.charge n).sum < 2 ^ 63)
    (r : Resource) :
    i64 ((runCalls n calls ts).avail r) = (runCalls n calls ts).avail r := by
  have hle := runCalls_le (n := n) calls h hnow
  have hmono := (runCalls_books (n := n) calls ts).mono r
  have hlow := hpos r
  have hhigh : (runCalls n calls ts).avail r < 2 ^ 63 := by
    cases r with
    | chip flash => exact Int.lt_of_le_of_lt (hle.chip flash) hfit
    | chnl channel => exact Int.lt_of_le_of_lt (hle.chnl channel) hfit
  unfold i64
  omega

end FemuRemap.Timing
