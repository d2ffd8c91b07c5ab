/-
The rounds of `GC_CHECK`: how often its loop collects.

# The measure

The loop asks for empty blocks, which a collection uses as well as
produces. What grows in every round is `stat_ppn_free`: the victim's live
pages move to as many free ones and all its pages become free, so the
gain is the number of its pages that were not live. A victim has at least
one of these, and there are never more free pages than pages.

`Rounds` is the loop without its bound: so many collections in a row,
each one asked for and each one successful.
-/
import FemuRemap.Proofs.Relocation

namespace FemuRemap

open Lib

variable {c : Conf} {p : Pool} {s s' s₁ s₂ : Ssd} {tr log : List Event}
  {fuel k : Nat}

/-- `gc_rounds++`, the end of a successful round. -/
def nextRound (s : Ssd) : Ssd :=
  { s with stat := { s.stat with gcRounds := s.stat.gcRounds + 1 } }

/-- The loop of `GC_CHECK` went round `k` times from `s` to `s'`. -/
inductive Rounds (c : Conf) (fuel : Nat) :
    Nat → Ssd → Ssd → List Event → Prop
  | zero (s : Ssd) : Rounds c fuel 0 s s []
  | succ {k : Nat} {s s₁ s' : Ssd} {log tr : List Event} :
      needsGc c s →
      sbGarbageCollection c fuel s = ⟨.ok .success, s₁, log⟩ →
      Rounds c fuel k (nextRound s₁) s' tr →
      Rounds c fuel (k + 1) s s' (log ++ tr)

/-- The loop of `GC_CHECK` goes round until its condition fails or a
collection does. -/
theorem gcCheckLoop_rounds {n : Nat}
    (h : gcCheckLoop c fuel n s = ⟨.ok (), s', log⟩) :
    ∃ k s₁ l₁ l₂, Rounds c fuel k s s₁ l₁ ∧ log = l₁ ++ l₂
      ∧ ((¬ needsGc c s₁ ∧ s' = s₁ ∧ l₂ = [])
        ∨ (needsGc c s₁
          ∧ sbGarbageCollection c fuel s₁ = ⟨.ok .fail, s', l₂⟩)) := by
  induction n generalizing s log with
  | zero => cases h
  | succ n ih =>
      rw [gcCheckLoop, Prog.run_get_bind] at h
      by_cases hn : needsGc c s
      · rw [if_pos hn] at h
        obtain ⟨r, s₁, l₁, l₂, hgc, h, rfl⟩ := Prog.bind_ok h
        cases r with
        | fail =>
            cases h
            exact ⟨0, s, [], l₁, .zero s, by simp, .inr ⟨hn, hgc⟩⟩
        | success =>
            dsimp only at h
            rw [modifyStat, Prog.run_modify_bind] at h
            obtain ⟨k, s₂, l₄, l₅, hrounds, rfl, hend⟩ := ih h
            refine ⟨k + 1, s₂, l₁ ++ l₄, l₅, .succ hn hgc hrounds, ?_, hend⟩
            simp
      · rw [if_neg hn] at h
        cases h
        exact ⟨0, _, [], [], .zero _, rfl, .inl ⟨hn, rfl, rfl⟩⟩

-- ============================================================= progress

/-- A successful collection gains the pages of its victim that were not
live, and at least one. -/
theorem Geo.collection_gains (g : Geo c) (h : Sound c p s)
    (hgc : sbGarbageCollection c fuel s = ⟨.ok .success, s', log⟩)
    (hlog : ∀ e ∈ log, NoWrap e) :
    ∃ b p', (selectVictimSuperblock c s).res = .ok (some b)
      ∧ livePages c s b < c.sbPages ∧ Sound c p' s'
      ∧ s'.stat.ppnFree = s.stat.ppnFree + (c.sbPages - livePages c s b) := by
  obtain ⟨-, hc⟩ := Sat.of_ok (g.sbGarbageCollection_serves (A := True)
    (B := False) h fuel (.inl trivial)) hgc
    fun e he => relied_false (hlog e he)
  obtain ⟨b, ρ, l, p', hrel, hb, -⟩ := hc
  have hroom := hrel.room g
  have hfew := hrel.few
  refine ⟨b, p', hb, hfew, hrel.sound, ?_⟩
  rw [g.ppnFree_eq hrel.sound.pages, g.ppnFree_eq h.pages]
  omega

/-- Rounds from a sound state end in one, with a page gained in each. -/
theorem Rounds.gains (g : Geo c) (hr : Rounds c fuel k s s' tr)
    (h : Sound c p s) (hlog : ∀ e ∈ tr, NoWrap e) :
    ∃ p', Sound c p' s' ∧ s.stat.ppnFree + k ≤ s'.stat.ppnFree := by
  induction hr generalizing p with
  | zero s => exact ⟨p, h, Nat.le_refl _⟩
  | @succ k s s₁ s' log tr _ hgc _ ih =>
      obtain ⟨hl₁, hl₂⟩ := List.forall_mem_append.1 hlog
      obtain ⟨b, p₁, -, hfew, h₁, hfree⟩ := g.collection_gains h hgc hl₁
      have h₂ : Sound c p₁ (nextRound s₁) :=
        h₁.alike (by constructor <;> rfl)
      obtain ⟨p', h', hle⟩ := ih h₂ hl₂
      refine ⟨p', h', ?_⟩
      have hsame : (nextRound s₁).stat.ppnFree = s₁.stat.ppnFree := rfl
      omega

/-- In every run in which no count wraps: a collection that succeeds
raises `stat_ppn_free` by exactly the pages of its victim that were not
live, which is at least one. So the loop of `GC_CHECK` goes round at most
once per page, whatever the threshold, and ends. -/
theorem gc_check_terminates (g : Geo c) (h : Visited c s tr)
    (hr : ∀ e ∈ tr, NoWrap e) :
    (∀ fuel s' log,
      sbGarbageCollection c fuel s = ⟨.ok .success, s', log⟩ →
      (∀ e ∈ log, NoWrap e) →
      ∃ b, (selectVictimSuperblock c s).res = .ok (some b)
        ∧ livePages c s b < c.pageNb * c.flashNb
        ∧ s'.stat.ppnFree = s.stat.ppnFree
          + (c.pageNb * c.flashNb - livePages c s b))
    ∧ (∀ fuel k s' log, Rounds c fuel k s s' log →
      (∀ e ∈ log, NoWrap e) → k ≤ c.pageMappingEntryNb)
    ∧ ∀ fuel n, fuelBound c < fuel → c.pageMappingEntryNb < n →
      (∀ e ∈ (gcCheckLoop c fuel n s).log, NoWrap e) →
      (gcCheckLoop c fuel n s).res ≠ .error .outOfFuel := by
  obtain ⟨⟨p, hp⟩, -⟩ := h.sound g hr
  refine ⟨fun fuel s' log hgc hlog => ?_, fun fuel k s' log hk hlog => ?_,
    fun fuel n hf hn hlog => ?_⟩
  · obtain ⟨b, _, hb, hfew, -, hfree⟩ := g.collection_gains hp hgc hlog
    exact ⟨b, hb, hfew, hfree⟩
  · -- every round gains a page, and there are only so many
    obtain ⟨p', hp', hle⟩ := hk.gains g hp hlog
    have hroom := g.room_le hp'
    have hfree := g.ppnFree_eq hp'.pages
    omega
  · intro hres
    have hheld : Held c False p s := ⟨hp, False.elim⟩
    have hend := (g.gcCheckLoop_serves (A := True) (M := 0) fuel n hheld
      (.inl trivial) (.inr (by omega))
      fun e he => relied_false (hlog e he)).2
    rw [hres] at hend
    rcases hend with ⟨-, hle⟩ | ⟨hne, -⟩
    · omega
    · cases hne

/-- The collection after `busyRun`, which has had two already. -/
def busyGc : Out Ssd Event Fault Ret :=
  sbGarbageCollection tinyConf 200 busyOut.st

/-- A run with collections, and the next one. -/
theorem gc_check_terminates_busy :
    (gcCheckLoop tinyConf 200 200 busyOut.st).res ≠ .error .outOfFuel
      ∧ ∃ b, (selectVictimSuperblock tinyConf busyOut.st).res = .ok (some b)
        ∧ livePages tinyConf busyOut.st b < tinyConf.pageNb * tinyConf.flashNb
        ∧ busyGc.st.stat.ppnFree = busyOut.st.stat.ppnFree
          + (tinyConf.pageNb * tinyConf.flashNb
            - livePages tinyConf busyOut.st b) := by
  have heval : busyGc.res = .ok .success ∧ (∀ e ∈ busyOut.log, NoWrap e)
      ∧ (∀ e ∈ busyGc.log, NoWrap e)
      ∧ ∀ e ∈ (gcCheckLoop tinyConf 200 200 busyOut.st).log, NoWrap e := by
    decide +kernel
  obtain ⟨hok, hrun, hlog, hloop⟩ := heval
  obtain ⟨hgain, -, hend⟩ := gc_check_terminates tinyConf_geo
    busyOut_reach.visited hrun
  exact ⟨hend 200 200 (by decide) (by decide) hloop,
    hgain _ _ _ (Out.eq_of_res hok) hlog⟩

-- ==================================================== a round too short

/-- The 127 lpns that share page zero after `wrapRun` are discarded. -/
def deadOut : Out Ssd Event Fault Unit :=
  runCmds wrapConf 300 [.discard 127 0] wrapOut.st

def deadGc : Out Ssd Event Fault Ret :=
  sbGarbageCollection wrapConf 300 deadOut.st

/-- Nothing is left on page zero but its wrapped count, which
`UPDATE_BLOCK_STATE_ENTRY(0)` refuses. -/
theorem deadGc_eval : deadOut.res = .ok ()
    ∧ deadOut.log.all fewSharers = true
    ∧ deadOut.st.refs 0 = []
    ∧ (selectVictimSuperblock wrapConf deadOut.st).res = .ok (some 0)
    ∧ livePages wrapConf deadOut.st 0 = 0
    ∧ deadGc.res = .ok .success
    ∧ deadGc.st.stat.ppnFree = deadOut.st.stat.ppnFree + 21 := by
  decide +kernel

/-- At most 127 lpns ever share a page, and yet a successful collection
of a superblock without live pages gains fewer free pages than the
superblock has. -/
theorem gc_check_gains_less_wrap :
    Reach wrapConf deadOut.st (wrapOut.log ++ deadOut.log)
      ∧ (∀ e ∈ wrapOut.log ++ deadOut.log, FewSharers e)
      ∧ sbGarbageCollection wrapConf 300 deadOut.st
        = ⟨.ok .success, deadGc.st, deadGc.log⟩
      ∧ (selectVictimSuperblock wrapConf deadOut.st).res = .ok (some 0)
      ∧ deadGc.st.stat.ppnFree ≠ deadOut.st.stat.ppnFree
        + (wrapConf.pageNb * wrapConf.flashNb
          - livePages wrapConf deadOut.st 0) := by
  obtain ⟨hok, hfew, -, hvictim, hlive, hgc, hfree⟩ := deadGc_eval
  have hran := Ran.runCmds 300 [.discard 127 0] (by simp [InRange])
    wrapOut_ran hok
  refine ⟨hran.reach, ?_, Out.eq_of_res hgc, hvictim, ?_⟩
  · exact List.forall_mem_append.2 ⟨wrapOut_fewSharers, fun e he =>
      .of_check (List.all_eq_true.1 hfew e he)⟩
  · have hpages : wrapConf.pageNb * wrapConf.flashNb = 22 := rfl
    omega

end FemuRemap
