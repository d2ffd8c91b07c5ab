/-
Runs: what every command keeps, every run keeps.

`Reach.invariant` and `Visited.invariant` package the induction over
runs for the judgement `Sat`: an invariant that each command keeps under
a rely on its events holds in every state reached by a run whose events
all satisfy the rely, and those events satisfy the guarantee.
`Ran.runCmds` goes the other way: a list of commands that runs to its
end is a run to the state it ends in.
-/
import FemuRemap.Proofs.Geometry

namespace FemuRemap

open Lib

variable {c : Conf} {P : Ssd → Prop} {rely guar : Event → Prop}
  {E : Fault → Ssd → Prop} {s s' : Ssd} {tr log : List Event}

/-- What the initial state has and every command keeps holds between
all requests. -/
theorem Reach.invariant (hinit : P (ftlInit c))
    (hstep : ∀ s fuel cmd, P s → InRange c cmd →
      Sat rely guar (exec c fuel cmd) s (fun _ s' => P s') E)
    (h : Reach c s tr) (hr : ∀ e ∈ tr, rely e) :
    P s ∧ ∀ e ∈ tr, guar e := by
  induction h with
  | init => exact ⟨hinit, by simp⟩
  | cmd fuel cmd _ hin hex ih =>
      exact Sat.extend ih (fun hP => hstep _ fuel cmd hP hin) hex hr

/-- The same for the states inside commands at which the collector may
run. -/
theorem Visited.invariant (hinit : P (ftlInit c))
    (hcmd : ∀ s fuel cmd, P s → InRange c cmd →
      Sat rely guar (exec c fuel cmd) s (fun _ s' => P s') E)
    (hpages : ∀ s fuel req, P s → InRange c (.write req) →
      req.sectorNb + req.length ≤ c.sectorNb →
      Sat rely guar (writePages c fuel req.lpnsInfo
        (slots c req.sectorNb req.length) 0 none) s (fun _ s' => P s') E)
    (hasked : ∀ s b, P s →
      Sat rely guar (useRemap c b) s (fun _ s' => P s') E)
    (hgc : ∀ s fuel, P s →
      Sat rely guar (sbGarbageCollection c fuel) s (fun _ s' => P s') E)
    (h : Visited c s tr) (hr : ∀ e ∈ tr, rely e) :
    P s ∧ ∀ e ∈ tr, guar e := by
  induction h with
  | init => exact ⟨hinit, by simp⟩
  | cmd fuel cmd _ hin hex ih =>
      exact Sat.extend ih (fun hP => hcmd _ fuel cmd hP hin) hex hr
  | pages fuel req _ hin hlen hex ih =>
      exact Sat.extend ih (fun hP => hpages _ fuel req hP hin hlen) hex hr
  | asked b _ hex ih =>
      exact Sat.extend ih (fun hP => hasked _ b hP) hex hr
  | gc fuel _ hex ih =>
      exact Sat.extend ih (fun hP => hgc _ fuel hP) hex hr

/-- A run reaches the state it ends in. -/
theorem Ran.reach {cmds : List Cmd} (h : Ran c cmds s tr) :
    Reach c s tr := by
  induction h with
  | init => exact .init
  | cmd fuel cmd _ hin hex ih => exact ih.cmd fuel cmd hin hex

/-- A list of commands that runs to its end is a run. -/
theorem Ran.runCmds (fuel : Nat) (cmds : List Cmd)
    (hin : ∀ cmd ∈ cmds, InRange c cmd) {done : List Cmd}
    (h : Ran c done s tr) (hok : (runCmds c fuel cmds s).res = .ok ()) :
    Ran c (done ++ cmds) (runCmds c fuel cmds s).st
      (tr ++ (runCmds c fuel cmds s).log) := by
  induction cmds generalizing s tr done with
  | nil => simpa [FemuRemap.runCmds] using h
  | cons cmd cmds ih =>
      rw [FemuRemap.runCmds, Prog.run_bind, Prog.andThen] at hok ⊢
      cases hres : (exec c fuel cmd s).res with
      | error e => simp [hres] at hok
      | ok a =>
          simp only [hres] at hok ⊢
          have h₁ : Ran c (done ++ [cmd]) (exec c fuel cmd s).st
              (tr ++ (exec c fuel cmd s).log) :=
            h.cmd fuel cmd (hin cmd (by simp)) (by rw [← hres])
          rw [← List.append_assoc, List.append_cons]
          exact ih (fun cmd' hc => hin cmd' (by simp [hc])) h₁ hok

/-- A run from the new device that ended without a fault. -/
theorem Ran.start (fuel : Nat) (cmds : List Cmd)
    (hin : ∀ cmd ∈ cmds, InRange c cmd)
    (hok : (FemuRemap.runCmds c fuel cmds (ftlInit c)).res = .ok ()) :
    Ran c cmds (FemuRemap.runCmds c fuel cmds (ftlInit c)).st
      (FemuRemap.runCmds c fuel cmds (ftlInit c)).log := by
  have h := Ran.runCmds fuel cmds hin Ran.init hok
  rw [List.nil_append, List.nil_append] at h
  exact h

-- ==================================================== a small device

/-- A host write of one whole page without hints. -/
def writeOf (lpn data : Nat) : Cmd :=
  .write ⟨1, lpn, fun _ => ⟨0, -1, some data⟩⟩

theorem inRange_writeOf (lpn data : Nat) : InRange c (writeOf lpn data) := by
  intro i
  have : (-1 : Int) < 0 := by decide
  have := Int.natCast_nonneg c.pageMappingEntryNb
  simp only
  omega

/-- One sector on one-sector pages is one slot. -/
theorem slots_one (hspp : c.sectorsPerPage = 1) (lpn : Nat) :
    slots c lpn 1 = [⟨lpn, 0, 0, 1⟩] := by
  simp [slots, cutPages, hspp, Nat.mod_one]

/-- Two flashes of eight blocks of two pages, one sector each. -/
def tinyConf : Conf := initSsdConfig 2 8 2 1

theorem tinyConf_geo : Geo tinyConf := by
  constructor <;> decide

/-- Fill the first superblock, overwriting a page and sharing another,
and start the second one. -/
def tinyRun : List Cmd :=
  [writeOf 0 10, writeOf 1 11, writeOf 2 12, writeOf 0 13,
    .remap 1 3 1 3, writeOf 4 14]

/-- How `tinyRun` ends. -/
def tinyOut : Out Ssd Event Fault Unit :=
  runCmds tinyConf 40 tinyRun (ftlInit tinyConf)

theorem tinyRun_inRange : ∀ cmd ∈ tinyRun, InRange tinyConf cmd := by
  intro cmd hc
  simp only [tinyRun, List.mem_cons, List.not_mem_nil, or_false] at hc
  rcases hc with rfl | rfl | rfl | rfl | rfl | rfl
  · exact inRange_writeOf _ _
  · exact inRange_writeOf _ _
  · exact inRange_writeOf _ _
  · exact inRange_writeOf _ _
  · exact ⟨by decide, by decide⟩
  · exact inRange_writeOf _ _

theorem tinyOut_ran : Ran tinyConf tinyRun tinyOut.st tinyOut.log :=
  Ran.start 40 tinyRun tinyRun_inRange (by decide +kernel)

theorem tinyOut_reach : Reach tinyConf tinyOut.st tinyOut.log :=
  tinyOut_ran.reach

/-- Overwrite page 0 three times out of four and write the other pages
in between: every superblock is filled, and the collector moves a page out
of each of the first two before it erases them. -/
def busyRun : List Cmd :=
  (List.range 36).map fun i =>
    writeOf (if i % 4 = 3 then i / 4 + 1 else 0) i

/-- How `busyRun` ends. -/
def busyOut : Out Ssd Event Fault Unit :=
  runCmds tinyConf 200 busyRun (ftlInit tinyConf)

theorem busyRun_inRange : ∀ cmd ∈ busyRun, InRange tinyConf cmd := by
  intro cmd hc
  obtain ⟨i, -, rfl⟩ := List.mem_map.1 hc
  exact inRange_writeOf _ _

theorem busyOut_ran : Ran tinyConf busyRun busyOut.st busyOut.log :=
  Ran.start 200 busyRun busyRun_inRange (by decide +kernel)

theorem busyOut_reach : Reach tinyConf busyOut.st busyOut.log :=
  busyOut_ran.reach

/-- A device with a scarce NVRAM: a segment of 21 entries is all there
is. -/
def scarceConf : Conf :=
  { tinyConf with totalOobSeg := 1, oobEntryPerSeg := 21 }

/-- Its geometry is that of `tinyConf`. -/
theorem scarceConf_geo : Geo scarceConf := by
  constructor <;> decide

end FemuRemap
