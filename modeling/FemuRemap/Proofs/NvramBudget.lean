/-
The NVRAM budget over runs. `USE_REMAP` asks for room before an entry is
stored, but a collection stores the entries of the pages it moves without
asking. It may need one segment more than its victim gave back: two
superblocks that take a few entries each take a segment each.

`Fits` is what has to hold where a collection starts. It is needed:
`straddleRun` exceeds the budget.
-/
import FemuRemap.Proofs.Agreement

namespace FemuRemap

open Lib

variable {c : Conf} {s : Ssd} {tr : List Event}

/-- In every run in which no count wraps and every collection starts
with a segment to spare or with a victim whose live pages fit into one
superblock, no more segments are allocated than the NVRAM has. -/
theorem nvram_within_budget (g : Geo c) (h : Visited c s tr)
    (hr : ∀ e ∈ tr, NoWrap e ∧ Fits c e) :
    s.nvram.totalAllocSeg ≤ c.totalOobSeg := by
  rcases Nat.lt_or_ge c.totalOobSeg (2 ^ 64) with hT | hT
  · obtain ⟨⟨p, hp⟩, -⟩ := h.held (B := True) g (fun _ => hT)
      fun e he => ⟨(hr e he).1, fun _ => (hr e he).2⟩
    have hbudget := hp.budget trivial
    have heq := hp.sound.totalAllocSeg_eq hbudget
    have hle := hbudget.1
    omega
  · -- the counter cannot reach such a budget
    obtain ⟨⟨p, hp⟩, -⟩ := h.sound g fun e he => (hr e he).1
    rw [hp.pages.totals.alloc]
    exact Nat.le_trans (Nat.le_of_lt (u64_lt _)) hT

instance (e : Event) : Decidable (Fits c e) := by
  unfold Fits
  split <;> infer_instance

/-- The run of `tinyRun` stays within the segments. -/
theorem nvram_within_budget_tiny :
    tinyOut.st.nvram.totalAllocSeg ≤ tinyConf.totalOobSeg :=
  nvram_within_budget tinyConf_geo tinyOut_reach.visited
    (by decide +kernel)

-- ======================================================== a lost segment

/-- Two flashes of sixteen blocks of two pages, with one segment of four
entries. -/
def straddleConf : Conf :=
  { initSsdConfig 2 16 2 1 with totalOobSeg := 1, oobEntryPerSeg := 4 }

/-- Share two pages of the first superblock, let the other two die, and
fill the device until the active superblock has one page left. -/
def straddleRun : List Cmd :=
  [writeOf 0 1, writeOf 1 1, writeOf 2 1, writeOf 3 1, .remap 0 62 2 3]
    ++ (List.range 55).map fun i => writeOf (i + 2) 1

def straddleOut : Out Ssd Event Fault Unit :=
  runCmds straddleConf 300 straddleRun (ftlInit straddleConf)

theorem straddleRun_inRange :
    ∀ cmd ∈ straddleRun, InRange straddleConf cmd := by
  intro cmd hc
  simp only [straddleRun, List.mem_append, List.mem_cons, List.mem_map,
    List.not_mem_nil, or_false] at hc
  rcases hc with (rfl | rfl | rfl | rfl | rfl) | ⟨i, -, rfl⟩
  · exact inRange_writeOf _ _
  · exact inRange_writeOf _ _
  · exact inRange_writeOf _ _
  · exact inRange_writeOf _ _
  · exact ⟨by decide, by decide⟩
  · exact inRange_writeOf _ _

/-- No page has more than two lpns, and the collection that moves two of
them to two superblocks takes a second segment. -/
theorem nvram_budget_exceeded_straddle :
    Reach straddleConf straddleOut.st straddleOut.log
      ∧ (∀ e ∈ straddleOut.log, NoWrap e)
      ∧ .collect 2 1 1 ∈ straddleOut.log
      ∧ straddleConf.totalOobSeg = 1
      ∧ straddleOut.st.nvram.totalAllocSeg = 2 := by
  have heval : straddleOut.res = .ok ()
      ∧ (∀ e ∈ straddleOut.log, NoWrap e)
      ∧ .collect 2 1 1 ∈ straddleOut.log
      ∧ straddleConf.totalOobSeg = 1
      ∧ straddleOut.st.nvram.totalAllocSeg = 2 := by
    decide +kernel
  exact ⟨(Ran.start 300 straddleRun straddleRun_inRange heval.1).reach,
    heval.2⟩

end FemuRemap
