/-
The device refines a plain map of contents: along every run in which no
count wraps, what the lpns read is what `Logical` gives for the same
commands. Collections, NVRAM collections and the choice between remapping
and rewriting do not show.

The simulation is `Geo.exec_serves`, one abstract step for each command.
This module chains it over runs.
-/
import FemuRemap.Proofs.Agreement

namespace FemuRemap

open Lib

variable {c : Conf} {s : Ssd} {tr : List Event} {cmds : List Cmd}
  {v v' : LogicalMap}

/-- Whether the last command is plain depends on the view before it. -/
theorem plainRun_append {cmd : Cmd} : PlainRun c v (cmds ++ [cmd])
    ↔ PlainRun c v cmds ∧ Plain c (cmds.foldl (LogicalMap.exec c) v) cmd := by
  induction cmds generalizing v with
  | nil => simp [PlainRun]
  | cons cmd' cmds ih =>
      simp only [List.cons_append, PlainRun, List.foldl_cons, ih, and_assoc]

/-- A run of plain commands has one outcome. -/
theorem LogicalRun.eq_foldl (h : LogicalRun c v cmds v')
    (hp : PlainRun c v cmds) : v' = cmds.foldl (LogicalMap.exec c) v := by
  induction h with
  | nil => rfl
  | snoc _ hlast ih =>
      obtain ⟨hp, hcmd⟩ := plainRun_append.1 hp
      rw [List.foldl_append, List.foldl_cons, List.foldl_nil, ← ih hp]
      exact hlast.eq_exec (ih hp ▸ hcmd)

/-- Each command of a run is one of the logical device's. -/
theorem Ran.logicalRun (g : Geo c) (h : Ran c cmds s tr)
    (hr : ∀ e ∈ tr, NoWrap e) : LogicalRun c .empty cmds (view s) := by
  induction h with
  | init => exact .nil
  | cmd fuel cmd hran hin hex ih =>
      obtain ⟨hr₁, hr₂⟩ := List.forall_mem_append.1 hr
      obtain ⟨⟨p, hp⟩, -⟩ := hran.reach.visited.sound g hr₁
      obtain ⟨-, p', -, hlog, -⟩ := Sat.of_ok (g.exec_serves (M := 0)
        (R := 0) (A := True) (B := False) ⟨hp, False.elim⟩ hin
        (.inl trivial) fuel) hex fun e he => relied_false (hr₂ e he)
      exact .snoc (ih hr₁) hlog

/-- In every run in which no count wraps, what the lpns read follows the
abstract map; if its commands are plain, it is what they compute. -/
theorem view_refines (g : Geo c) (h : Ran c cmds s tr)
    (hr : ∀ e ∈ tr, NoWrap e) :
    LogicalRun c .empty cmds (view s)
      ∧ (PlainRun c .empty cmds →
        view s = cmds.foldl (LogicalMap.exec c) .empty) :=
  ⟨h.logicalRun g hr, (h.logicalRun g hr).eq_foldl⟩

/-- The run of `tinyRun` is one of the logical device. -/
theorem view_refines_tiny :
    LogicalRun tinyConf .empty tinyRun (view tinyOut.st) :=
  (view_refines tinyConf_geo tinyOut_ran tinyOut_noWrap).1

-- ========================================================== a lost page

/-- A copy upwards leaves what is below its target. -/
theorem PageRemaps.copy_frame {len src dst L : Nat}
    (h : PageRemaps .copy len src dst v v') (hL : L < dst) :
    v' L = v L := by
  induction h with
  | zero => rfl
  | succ hp _ ih =>
      rw [ih (by omega)]
      cases hp with
      | mapped _ =>
          rw [LogicalMap.transfer, if_neg (by decide),
            Function.update_of_ne (by omega)]
      | skipped _ => rfl
      | filled _ =>
          rw [LogicalMap.transfer, if_neg (by decide),
            Function.update_of_ne (by omega)]

theorem Logical.copy_frame {K M len L : Nat}
    (h : Logical c (.remap K M len 3) v v') (hL : L < M) : v' L = v L := by
  cases h with
  | remap ho hr =>
      cases ho
      exact hr.copy_frame hL
  | remapUnknown ho => rfl

/-- A write of one page, in range. -/
theorem logical_writeOf {L d : Nat} (hspp : c.sectorsPerPage = 1)
    (hL : L < c.sectorNb) (h : Logical c (writeOf L d) v v') :
    v' = Function.update v L (some (some d)) := by
  have hlpns : lpnsOf c L 1 = [L] := by
    rw [lpnsOf, slots_one hspp]
    rfl
  cases h with
  | write _ hw =>
      have hw : PageWrites _ (lpnsOf c L 1) 0 v v' := hw
      rw [hlpns] at hw
      cases hw with
      | cons hp hnil =>
          cases hnil
          cases hp with
          | store => rfl
          | dedup hf _ _ => cases hf
          | fsGc hf _ _ => cases hf
  | writeBeyond hlt => exact absurd hlt (Nat.not_lt.2 hL)

/-- A run ends with its last command. -/
theorem LogicalRun.last {cmd : Cmd}
    (h : LogicalRun c v (cmds ++ [cmd]) v') :
    ∃ w, LogicalRun c v cmds w ∧ Logical c cmd w v' := by
  generalize hl : cmds ++ [cmd] = l at h
  cases h with
  | nil => simp at hl
  | snoc hrun hlast =>
      obtain ⟨rfl, hcmd⟩ := List.append_inj' hl rfl
      cases hcmd
      exact ⟨_, hrun, hlast⟩

/-- Commands that leave an lpn alone. -/
theorem LogicalRun.frame {done : List Cmd} {L : Nat}
    (hf : ∀ cmd ∈ cmds, ∀ w w', Logical c cmd w w' → w' L = w L)
    (h : LogicalRun c v (done ++ cmds) v') :
    ∃ w, LogicalRun c v done w ∧ v' L = w L := by
  induction cmds using List.reverseRecOn generalizing v' with
  | nil => exact ⟨v', by simpa using h, rfl⟩
  | append_singleton cmds cmd ih =>
      rw [← List.append_assoc] at h
      obtain ⟨w, hrun, hlast⟩ := h.last
      obtain ⟨w', hdone, heq⟩ := ih (fun cmd' hc => hf cmd' (by simp [hc])) hrun
      exact ⟨w', hdone, (hf cmd (by simp) w v' hlast).trans heq⟩

/-- What lpn 0 was written with stays through all of `wrapRun`. -/
theorem logical_wrapRun
    (h : LogicalRun wrapConf .empty (wrapRun ++ [writeOf 1 8]) v) :
    v 0 = some (some 7) := by
  have hsplit : wrapRun ++ [writeOf 1 8] = ([] ++ [writeOf 0 7])
      ++ (List.replicate 120 (writeOf 1 8) ++ wrapRemaps
        ++ [writeOf 1 8]) := by
    simp [wrapRun]
  have hother : ∀ w w', Logical wrapConf (writeOf 1 8) w w' →
      w' 0 = w 0 := fun w w' h => by
    rw [logical_writeOf rfl (by decide) h, Function.update_of_ne (by decide)]
  rw [hsplit] at h
  obtain ⟨w, hfirst, heq⟩ := h.frame (L := 0) fun cmd hc w w' hl => by
    simp only [wrapRemaps, List.mem_append, List.mem_replicate,
      List.mem_cons, List.not_mem_nil, or_false] at hc
    rcases hc with (⟨-, rfl⟩ | hc) | rfl
    · exact hother w w' hl
    · rcases hc with rfl | rfl | rfl | rfl | rfl | rfl | rfl | rfl <;>
        exact hl.copy_frame (by decide)
    · exact hother w w' hl
  obtain ⟨w₀, -, hl⟩ := hfirst.last
  rw [heq, logical_writeOf rfl (by decide) hl, Function.update_self]

/-- At most 127 lpns ever share a page, and yet lpn 0 no longer reads
what was written to it. -/
theorem view_diverges_wrap :
    Ran wrapConf (wrapRun ++ [writeOf 1 8]) lostOut.st
        (wrapOut.log ++ lostOut.log)
      ∧ (∀ e ∈ wrapOut.log ++ lostOut.log, FewSharers e)
      ∧ ¬ LogicalRun wrapConf .empty (wrapRun ++ [writeOf 1 8])
        (view lostOut.st) := by
  refine ⟨lostOut_ran, lostOut_fewSharers, fun h => ?_⟩
  obtain ⟨-, -, -, hm, hc, -⟩ := lostOut_eval
  have h₀ := logical_wrapRun h
  rw [view_some hm, hc] at h₀
  cases h₀

end FemuRemap
