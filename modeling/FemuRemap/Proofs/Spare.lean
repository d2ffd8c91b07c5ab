/-
Spare space: under the conditions of `Enough`, a device never runs out of
pages, and every `GC_CHECK` that runs ends with both thresholds met.

`Reserve` is the invariant and `Geo.exec_serves` keeps it; with `A` false
neither the diagnostics nor the fault of an exhausted device is allowed.
What is left here is the start, the runs, and a run on which the
condition on the counts is needed.
-/
import FemuRemap.Proofs.Agreement

namespace FemuRemap

open Lib

variable {c : Conf} {s : Ssd} {tr : List Event} {cmds : List Cmd}
  {M R : Nat}

/-- Spare space: `M` lpns are exposed and a request writes at most `R`
pages. A page that `SSD_REMAP` rewrites is a request too. -/
structure Enough (c : Conf) (M R : Nat) : Prop where
  one : 0 < R
  threshold : c.flashNb * c.pageNb + 2 * R
    ≤ c.gcThresholdBlockNb * c.pageNb
  lpns : M + c.gcThresholdBlockNb * c.pageNb + c.flashNb * c.pageNb
    ≤ c.pageMappingEntryNb

/-- The diagnostics of `GET_EMPTY_BLOCK`, of `GET_NEW_PAGE` in both
callers and of `SELECT_VICTIM_SUPERBLOCK`. -/
def spaceErrors : List Msg :=
  [.noEmptyBlock, .writeGetNewPage, .gcGetNewPage, .noVictimBlock,
    .noVictimSuperblock, .victimCount, .victimOffset, .tooManyValid]

/-- No lack of space is reported, and `GC_CHECK` meets its thresholds. -/
def Plentiful (c : Conf) : Event → Prop
  | .error m => m ∉ spaceErrors
  | .checked emptyBlockNb ppnFree =>
      c.gcThresholdBlockNb ≤ emptyBlockNb
        ∧ c.gcThresholdBlockNb * c.pageNb ≤ ppnFree
  | _ => True

/-- Without a shortage, no event reports one. -/
theorem Allowed.plentiful {e : Event} (h : Allowed c False e) :
    Plentiful c e := by
  cases e with
  | error m =>
      have hhost : m ∈ hostErrors := h.resolve_right And.left
      have hdisj : ∀ m ∈ hostErrors, m ∉ spaceErrors := by decide
      exact hdisj m hhost
  | checked _ _ => exact h.resolve_left id
  | _ => trivial

/-- At the start every superblock is free. -/
theorem Geo.reserve_init (g : Geo c) (h : Enough c M R) :
    Reserve c M R (.init c.blockNb) (ftlInit c) := by
  have hroom := g.ppnFree_eq g.sound_init.pages
  have hfree : (ftlInit c).stat.ppnFree = c.pageMappingEntryNb := rfl
  have hsb : c.sbPages = c.flashNb * c.pageNb := Nat.mul_comm ..
  have hthr := h.threshold
  have hlpns := h.lpns
  refine ⟨h.one, by omega, by omega, fun L _ => ?_, .inl (by omega)⟩
  exact view_eq_none.2 rfl

/-- A sound state with space between requests. -/
theorem Ran.reserve (g : Geo c) (he : Enough c M R)
    (h : Ran c cmds s tr) (hc : ∀ cmd ∈ cmds, Affordable c M R cmd)
    (hr : ∀ e ∈ tr, NoWrap e) :
    (∃ p, Held c False p s ∧ Reserve c M R p s)
      ∧ ∀ e ∈ tr, Plentiful c e := by
  induction h with
  | init =>
      exact ⟨⟨_, g.held_init False.elim, g.reserve_init he⟩, by simp⟩
  | cmd fuel cmd hran hin hex ih =>
      obtain ⟨hr₁, hr₂⟩ := List.forall_mem_append.1 hr
      obtain ⟨⟨p, hp, hs⟩, hg⟩ := ih
        (fun cmd' hm => hc cmd' (by simp [hm])) hr₁
      obtain ⟨hg', p', hp', -, hs'⟩ := Sat.of_ok (g.exec_serves
        (A := False) hp hin (.inr ⟨hs, hc cmd (by simp)⟩) fuel) hex
        fun e he => relied_false (hr₂ e he)
      exact ⟨⟨p', hp', hs'.resolve_left id⟩, List.forall_mem_append.2
        ⟨hg, fun e he => (hg' e he).plentiful⟩⟩

/-- With enough spare space, in every run in which no count wraps, no
allocation and no choice of a victim fails and every `GC_CHECK` ends with
its thresholds met; the same of any further command, which is served. -/
theorem pages_never_run_out (g : Geo c) (he : Enough c M R)
    (h : Ran c cmds s tr) (hc : ∀ cmd ∈ cmds, Affordable c M R cmd)
    (hr : ∀ e ∈ tr, NoWrap e) :
    (∀ e ∈ tr, Plentiful c e)
      ∧ ∀ fuel cmd, InRange c cmd → Affordable c M R cmd →
        (∀ e ∈ (exec c fuel cmd s).log, NoWrap e) →
        (∀ e ∈ (exec c fuel cmd s).log, Plentiful c e)
          ∧ (exec c fuel cmd s).res ≠ .error .nullEmptyBlock
          ∧ (fuelBound c < fuel → (exec c fuel cmd s).res = .ok ()) := by
  obtain ⟨⟨p, hp, hs⟩, hg⟩ := h.reserve g he hc hr
  refine ⟨hg, fun fuel cmd hin ha hlog => ?_⟩
  obtain ⟨hg', hres⟩ := g.exec_serves (A := False) hp hin (.inr ⟨hs, ha⟩)
    fuel fun e he => relied_false (hlog e he)
  refine ⟨fun e he => (hg' e he).plentiful, ?_⟩
  cases hout : (exec c fuel cmd s).res with
  | ok a => exact ⟨by simp, fun _ => rfl⟩
  | error f =>
      -- only the fuel of the model can have run out
      rw [hout] at hres
      obtain ⟨rfl, hle⟩ := hres.resolve_right fun h => h.2
      exact ⟨by simp, fun hfuel => absurd hle (Nat.not_le.2 hfuel)⟩

-- ========================================================= a tight device

/-- Two flashes of 76 blocks of one page: 135 lpns can be exposed. -/
def spareConf : Conf := initSsdConfig 2 76 1 1

theorem spareConf_geo : Geo spareConf := by
  constructor <;> decide

/-- The 135 lpns, and one of a request, leave it its reserve. -/
theorem spareConf_enough : Enough spareConf 135 1 := by
  constructor <;> decide

/-- A write of one of the exposed lpns. -/
theorem affordable_writeOf {L : Nat} (d : Nat) (hL : L < 135) :
    Affordable spareConf 135 1 (writeOf L d) := by
  show Modest spareConf 135 1 L 1
  unfold Modest lpnsOf
  rw [slots_one rfl]
  exact ⟨Nat.le_refl _, by simpa using hL⟩

/-- Writes at both ends of what is exposed, and a remap. -/
def spareRun : List Cmd :=
  [writeOf 0 7, writeOf 134 8, .remap 0 1 2 3, writeOf 0 9]

def spareOut : Out Ssd Event Fault Unit :=
  runCmds spareConf 300 spareRun (ftlInit spareConf)

theorem pages_never_run_out_spare :
    spareOut.res = .ok () ∧ ∀ e ∈ spareOut.log, Plentiful spareConf e := by
  have heval : spareOut.res = .ok () ∧ ∀ e ∈ spareOut.log, NoWrap e := by
    decide +kernel
  have hcmds : ∀ cmd ∈ spareRun,
      InRange spareConf cmd ∧ Affordable spareConf 135 1 cmd := by
    intro cmd hc
    simp only [spareRun, List.mem_cons, List.not_mem_nil, or_false] at hc
    rcases hc with rfl | rfl | rfl | rfl
    · exact ⟨inRange_writeOf _ _, affordable_writeOf _ (by decide)⟩
    · exact ⟨inRange_writeOf _ _, affordable_writeOf _ (by decide)⟩
    · exact ⟨⟨by decide, by decide⟩, show 1 + 2 ≤ 135 by decide⟩
    · exact ⟨inRange_writeOf _ _, affordable_writeOf _ (by decide)⟩
  exact ⟨heval.1, (pages_never_run_out spareConf_geo spareConf_enough
    (Ran.start 300 spareRun (fun cmd hc => (hcmds cmd hc).1) heval.1)
    (fun cmd hc => (hcmds cmd hc).2) heval.2).1⟩

/-- Let the counts of two pages wrap, then write every lpn, and one of
them again. -/
def squeezeRun : List Cmd :=
  (writeOf 0 7 :: wrapRemaps) ++ (writeOf 0 7 :: wrapRemaps)
    ++ (List.range 135).map (fun L => writeOf L 8) ++ [writeOf 134 8]

def squeezeOut : Out Ssd Event Fault Unit :=
  runCmds spareConf 400 squeezeRun (ftlInit spareConf)

/-- Every command is one the host may issue. -/
theorem squeezeRun_cmds : ∀ cmd ∈ squeezeRun,
    InRange spareConf cmd ∧ Affordable spareConf 135 1 cmd := by
  have hwrite : ∀ L d, L < 135 → InRange spareConf (writeOf L d)
      ∧ Affordable spareConf 135 1 (writeOf L d) := fun L d hL =>
    ⟨inRange_writeOf L d, affordable_writeOf d hL⟩
  have hremap : ∀ cmd ∈ wrapRemaps, InRange spareConf cmd
      ∧ Affordable spareConf 135 1 cmd := by
    intro cmd hc
    simp only [wrapRemaps, List.mem_cons, List.not_mem_nil, or_false] at hc
    rcases hc with rfl | rfl | rfl | rfl | rfl | rfl | rfl | rfl <;>
      exact ⟨⟨by decide, by decide⟩, Nat.le_of_ble_eq_true rfl⟩
  intro cmd hc
  simp only [squeezeRun, List.mem_append, List.mem_cons, List.mem_map,
    List.mem_range, List.not_mem_nil, or_false] at hc
  rcases hc with (((rfl | hc) | (rfl | hc)) | ⟨L, hL, rfl⟩) | rfl
  · exact hwrite 0 7 (by decide)
  · exact hremap cmd hc
  · exact hwrite 0 7 (by decide)
  · exact hremap cmd hc
  · exact hwrite L 8 hL
  · exact hwrite 134 8 (by decide)

/-- At most 127 lpns ever share a page, and yet the choice of a victim
fails and `GC_CHECK` ends below its threshold of free pages. -/
theorem pages_run_out_squeeze :
    Enough spareConf 135 1
      ∧ Ran spareConf squeezeRun squeezeOut.st squeezeOut.log
      ∧ (∀ cmd ∈ squeezeRun, Affordable spareConf 135 1 cmd)
      ∧ (∀ e ∈ squeezeOut.log, FewSharers e)
      ∧ .error .tooManyValid ∈ squeezeOut.log
      ∧ .checked 18 14 ∈ squeezeOut.log
      ∧ ¬ Plentiful spareConf (.error .tooManyValid)
      ∧ ¬ Plentiful spareConf (.checked 18 14) := by
  have heval : squeezeOut.res = .ok ()
      ∧ squeezeOut.log.all fewSharers = true
      ∧ .error .tooManyValid ∈ squeezeOut.log
      ∧ .checked 18 14 ∈ squeezeOut.log := by
    decide +kernel
  obtain ⟨hok, hfew, hfail, hend⟩ := heval
  refine ⟨spareConf_enough, Ran.start 400 squeezeRun
    (fun cmd hc => (squeezeRun_cmds cmd hc).1) hok,
    fun cmd hc => (squeezeRun_cmds cmd hc).2,
    fun e he => .of_check (List.all_eq_true.1 hfew e he), hfail, hend,
    fun h => ?_, fun h => ?_⟩
  · exact absurd (show Msg.tooManyValid ∈ spaceErrors by decide) h
  · exact absurd h.2 (by decide)

end FemuRemap
