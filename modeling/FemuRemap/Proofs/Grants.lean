/-
What `USE_REMAP` answers, and what it leaves.

A round of its loop that does not answer rewrites the live entries of one
superblock that had an invalid one, so the superblocks with an invalid
entry (`dirty`) become fewer with every `NVRAM_OOB_GC`. With none left the
ratio is zero and the round answers: the bound on the rounds is never
reached, whatever it is.

`Fair` is all that this needs of the NVRAM: its totals are sums of `int`s
and no superblock has more invalid entries than it stored. The second
part is lost in runs with a wrapped count (`use_remap_changes_live_wrap`).
-/
import FemuRemap.Proofs.Agreement
import FemuRemap.Proofs.NvramTotals

namespace FemuRemap

open Lib

variable {c : Conf} {n n' : Nvram} {s : Ssd} {b : Nat}

-- ========================================================= the segments

/-- Entries of a superblock that are still in use. -/
def liveEntries (c : Conf) (e : OobSeg) : Int :=
  stored c e - e.invalidEntry

/-- Superblocks with an invalid entry. -/
def dirty (c : Conf) (n : Nvram) : Nat :=
  (List.range c.blockNb).countP fun b => 0 < (n.oobTable b).invalidEntry

/-- The count as a sum of indicators. -/
theorem dirty_eq : dirty c n
    = tally c.blockNb fun b => ind (0 < (n.oobTable b).invalidEntry) :=
  countP_range _ _

/-- The totals are sums of `int`s, and no superblock has more invalid
entries than it stored. -/
structure Fair (c : Conf) (n : Nvram) : Prop where
  totals : Totals c n
  fit : IntsFit c n
  live : ∀ b, b < c.blockNb → 0 ≤ liveEntries c (n.oobTable b)

/-- `NVRAM_OOB_GC` looks at all superblocks. -/
theorem oobVictim_none (hv : oobVictim c n = none) (hb : b < c.blockNb) :
    (n.oobTable b).invalidEntry ≤ 0 := by
  suffices key : ∀ (l : List Nat) (best : Int × Option Nat),
      (l.foldl (fun best i =>
        if best.1 < (n.oobTable i).invalidEntry
        then ((n.oobTable i).invalidEntry, some i) else best) best).2 = none →
      best.2 = none ∧ ∀ i ∈ l, (n.oobTable i).invalidEntry ≤ best.1 from
    (key _ (0, none) hv).2 b (List.mem_range.2 hb)
  intro l
  induction l with
  | nil => exact fun best h => ⟨h, by simp⟩
  | cons i l ih =>
      intro best h
      obtain ⟨hnone, hall⟩ := ih _ h
      dsimp only at hnone hall
      by_cases hlt : best.1 < (n.oobTable i).invalidEntry
      · rw [if_pos hlt] at hnone
        cases hnone
      · rw [if_neg hlt] at hnone hall
        exact ⟨hnone, List.forall_mem_cons.2 ⟨Int.not_lt.1 hlt, hall⟩⟩

/-- The live entries of `b` are rewritten into fresh segments. -/
def rewritten (c : Conf) (b : Nat) (n : Nvram) : Nvram :=
  storeEntries c b (liveEntries c (n.oobTable b)).toNat (releaseSegs c b n)

/-- What a rewriting leaves of each superblock. -/
theorem rewritten_oobTable (b x : Nat) :
    (rewritten c b n).oobTable x = if x = b
      then (putEntry c)^[(liveEntries c (n.oobTable b)).toNat] ⟨0, 0, 0⟩
      else n.oobTable x := by
  rw [rewritten, storeEntries_oobTable, releaseSegs_oobTable,
    releaseSegs_oobTable, if_pos rfl]
  split <;> rfl

/-- After the reclaim a superblock stores what was live. -/
theorem Fair.rewritten_self (h : Fair c n) (hb : b < c.blockNb) :
    stored c ((rewritten c b n).oobTable b) = liveEntries c (n.oobTable b)
      ∧ ((rewritten c b n).oobTable b).invalidEntry = 0 := by
  obtain ⟨hs, hi⟩ := stored_iterate (c := c) ⟨0, 0, 0⟩
    (liveEntries c (n.oobTable b)).toNat
  have hlive := h.live b hb
  have hzero : stored c ⟨0, 0, 0⟩ = 0 := by simp [stored]
  rw [rewritten_oobTable, if_pos rfl, hs, hi, hzero]
  exact ⟨by omega, rfl⟩

/-- No superblock's live entries change. -/
theorem Fair.rewritten_live (h : Fair c n) (hb : b < c.blockNb) (x : Nat) :
    liveEntries c ((rewritten c b n).oobTable x)
      = liveEntries c (n.oobTable x) := by
  rcases eq_or_ne x b with rfl | hne
  · obtain ⟨hs, hi⟩ := h.rewritten_self hb
    rw [liveEntries, hs, hi, Int.sub_zero]
  · rw [rewritten_oobTable, if_neg hne]

/-- No superblock has more segments. -/
theorem Fair.rewritten_alloc_le (h : Fair c n) (hb : b < c.blockNb)
    (x : Nat) : ((rewritten c b n).oobTable x).allocSeg
      ≤ (n.oobTable x).allocSeg := by
  rcases eq_or_ne x b with rfl | hne
  · have htot := (h.totals.release hb).store_many hb
      (liveEntries c (n.oobTable x)).toNat
    refine (h.totals.shape x hb).alloc_le (htot.shape x hb) ?_
    have hinv := (h.totals.shape x hb).invalid
    refine Int.le_trans (Int.le_of_eq (h.rewritten_self hb).1) ?_
    unfold liveEntries
    omega
  · rw [rewritten_oobTable, if_neg hne]

/-- The reclaim keeps the counts fair. -/
theorem Fair.rewrite (h : Fair c n) (hb : b < c.blockNb) :
    Fair c (rewritten c b n) where
  totals := (h.totals.release hb).store_many hb _
  fit := by
    refine ⟨h.fit.1, fun x hx => ?_⟩
    obtain ⟨hbytes, hinv⟩ := h.fit.2 x hx
    constructor
    · refine Int.lt_of_le_of_lt ?_ hbytes
      refine Int.mul_le_mul_of_nonneg_right ?_ (Int.natCast_nonneg _)
      exact Int.mul_le_mul_of_nonneg_right (h.rewritten_alloc_le hb x)
        (Int.natCast_nonneg _)
    · rcases eq_or_ne x b with rfl | hne
      · rw [(h.rewritten_self hb).2]
        decide
      · rwa [rewritten_oobTable, if_neg hne]
  live x hx := by
    rw [h.rewritten_live hb x]
    exact h.live x hx

/-- The victim is clean afterwards. -/
theorem Fair.dirty_rewritten (h : Fair c n) (hb : b < c.blockNb)
    (hinv : 0 < (n.oobTable b).invalidEntry) :
    dirty c (rewritten c b n) < dirty c n := by
  have hset := tally_set (n := c.blockNb)
    (g := fun x => ind (0 < (n.oobTable x).invalidEntry))
    (f := fun x => ind
      (0 < ((rewritten c b n).oobTable x).invalidEntry)) hb
    fun x _ hx => by rw [rewritten_oobTable, if_neg hx]
  have hclean : ¬ 0 < ((rewritten c b n).oobTable b).invalidEntry := by
    rw [(h.rewritten_self hb).2]
    decide
  rw [ind_true hinv, ind_false hclean] at hset
  rw [dirty_eq, dirty_eq]
  omega

-- ============================================================== a round

/-- `NVRAM_OOB_GC` of a victim. -/
theorem nvramOobGc_run (hv : oobVictim c s.nvram = some b) :
    ∃ t, nvramOobGc c s = ⟨.ok .success,
      { s with nvram := rewritten c b s.nvram }, [.io (.nvramGc b t)]⟩ := by
  obtain ⟨hb, -⟩ := oobVictim_spec hv
  unfold nvramOobGc updateNvramOob
  rw [Prog.run_get_bind]
  simp only [hv, if_neg (Nat.not_le.2 hb), Bool.false_eq_true, if_false]
  exact ⟨_, rfl⟩

/-- What `USE_REMAP` answers, and what it leaves. -/
structure Answered (c : Conf) (b : Nat) (s : Ssd) (r : Ret) (s' : Ssd) :
    Prop where
  only : ∃ n, s' = { s with nvram := n }
  live : ∀ x, x < c.blockNb → liveEntries c (s'.nvram.oobTable x)
    = liveEntries c (s.nvram.oobTable x)
  alloc : s'.nvram.totalAllocSeg ≤ s.nvram.totalAllocSeg
  granted : r = .success → Granted c b s'
  refused : r = .fail → (s'.nvram.oobTable b).freeEntry = 0
    ∧ c.totalOobSeg ≤ s'.nvram.totalAllocSeg
    ∧ 20 * s'.nvram.totalInvalidEntry ≤ s'.nvram.totalOobEntry

/-- A segment is allocated for an entry. -/
theorem SegOk.alloc_le_stored {e : OobSeg} (h : SegOk c e) :
    e.allocSeg ≤ stored c e := by
  have hfree := h.free
  have hroom := h.room
  rcases Int.lt_or_eq_of_le h.alloc with hpos | hz
  · -- the free entries are all in the last segment
    have hmul := Int.mul_le_mul_of_nonneg_left
      (show (1 : Int) ≤ c.oobEntryPerSeg by omega)
      (show 0 ≤ e.allocSeg - 1 by omega)
    rw [Int.mul_one, Int.sub_mul, Int.one_mul] at hmul
    unfold stored
    omega
  · rw [stored, ← hz, h.none hz.symm]
    simp

/-- Where nothing is stored no segment is allocated. -/
theorem Fair.alloc_zero (h : Fair c n) (hz : n.totalOobEntry = 0) :
    n.totalAllocSeg = 0 := by
  have hexact := h.totals.exact h.fit
  have hle : overSuperblocks c n (fun e => e.allocSeg)
      ≤ overSuperblocks c n (stored c) := by
    rw [overSuperblocks_eq, overSuperblocks_eq]
    refine tally_mono fun b hb => ?_
    exact (h.totals.shape b hb).alloc_le_stored
  have halloc := hexact.allocSeg
  have hentry : (n.totalOobEntry : Int) = overSuperblocks c n (stored c) :=
    hexact.oobEntry
  omega

/-- Where an entry is invalid there is a victim. -/
theorem Fair.victim (h : Fair c n) (hpos : 0 < n.totalInvalidEntry) :
    ∃ d, oobVictim c n = some d := by
  cases hv : oobVictim c n with
  | some d => exact ⟨d, rfl⟩
  | none =>
      have hle : (segSum c n fun e => e.invalidEntry)
          ≤ tally c.blockNb fun _ => (0 : Int) :=
        tally_mono fun b hb => oobVictim_none hv hb
      have hsum := (h.totals.exact h.fit).invalidEntry
      rw [overSuperblocks_eq] at hsum
      rw [tally_eq_zero fun _ _ => rfl] at hle
      omega

/-- A round answers, or rewrites the entries of a superblock with an
invalid one. -/
theorem Fair.round (h : Fair c s.nvram) (hT : 0 < c.totalOobSeg)
    (hb : b < c.blockNb) (ratio : Nat × Nat) :
    (∃ r s', Answered c b s r s' ∧ ∀ k,
        useRemapLoop c b (k + 1) ratio s = ⟨.ok r, s', []⟩)
      ∨ ∃ d t ratio', d < c.blockNb
        ∧ 0 < (s.nvram.oobTable d).invalidEntry
        ∧ ∀ k, useRemapLoop c b (k + 1) ratio s
          = Prog.andThen ⟨.ok (), { s with nvram := rewritten c d s.nvram },
              [.io (.nvramGc d t)]⟩ fun _ => useRemapLoop c b k ratio' := by
  simp only [useRemapLoop, Prog.run_get_bind]
  by_cases hfree : 0 < (s.nvram.oobTable b).freeEntry
  · refine .inl ⟨.success, s, ⟨⟨_, rfl⟩, fun _ _ => rfl, Nat.le_refl _,
      fun _ => .inl hfree, nofun⟩, fun k => ?_⟩
    rw [if_pos hfree]
    rfl
  by_cases hseg : s.nvram.totalAllocSeg < c.totalOobSeg
  · refine .inl ⟨.success, s, ⟨⟨_, rfl⟩, fun _ _ => rfl, Nat.le_refl _,
      fun _ => .inr hseg, nofun⟩, fun k => ?_⟩
    rw [if_neg hfree, if_pos hseg]
    rfl
  simp only [if_neg hfree, if_neg hseg]
  -- all segments are taken, so something is stored
  have hentry : 0 < s.nvram.totalOobEntry := by
    refine Nat.pos_of_ne_zero fun hz => hseg ?_
    rw [h.alloc_zero hz]
    exact hT
  simp only [if_pos hentry]
  by_cases hratio : 20 * s.nvram.totalInvalidEntry ≤ s.nvram.totalOobEntry
  · have hshape := (h.totals.shape b hb).free
    refine .inl ⟨.fail, (refuseRemap s).st, ⟨⟨_, rfl⟩, fun _ _ => rfl,
      Nat.le_refl _, nofun, fun _ => ⟨?_, Nat.not_lt.1 hseg, hratio⟩⟩,
      fun k => ?_⟩
    · show (s.nvram.oobTable b).freeEntry = 0
      omega
    · rw [if_pos hratio]
      rfl
  · obtain ⟨d, hd⟩ := h.victim (by omega)
    obtain ⟨hdb, hinv⟩ := oobVictim_spec hd
    obtain ⟨t, hgc⟩ := nvramOobGc_run hd
    refine .inr ⟨d, t,
      (s.nvram.totalInvalidEntry, s.nvram.totalOobEntry), hdb, hinv,
      fun k => ?_⟩
    rw [if_neg hratio, Prog.run_bind, hgc]
    rfl

-- ============================================================= the loop

/-- A call of `NVRAM_OOB_GC`: it charges the NVRAM, or reports that it
has no victim. -/
def isNvramGc : Event → Bool
  | .io (.nvramGc _ _) => true
  | .error .noVictimSegment => true
  | _ => false

/-- And frees segments, if anything. -/
theorem Fair.totalAllocSeg_le (h : Fair c n) (hb : b < c.blockNb) :
    (rewritten c b n).totalAllocSeg ≤ n.totalAllocSeg := by
  have hbefore := (h.totals.exact h.fit).allocSeg
  have hafter := ((h.rewrite hb).totals.exact (h.rewrite hb).fit).allocSeg
  rw [overSuperblocks_eq] at hbefore hafter
  have hle : (segSum c (rewritten c b n) fun e => e.allocSeg)
      ≤ segSum c n fun e => e.allocSeg :=
    tally_mono fun x _ => h.rewritten_alloc_le hb x
  omega

/-- A round that goes on leaves the answer to the next. -/
theorem Fair.answered_trans (h : Fair c s.nvram) {d : Nat}
    (hd : d < c.blockNb) {r : Ret} {s' : Ssd}
    (h' : Answered c b { s with nvram := rewritten c d s.nvram } r s') :
    Answered c b s r s' where
  only := h'.only
  live x hx := (h'.live x hx).trans (h.rewritten_live hd x)
  alloc := Nat.le_trans h'.alloc (h.totalAllocSeg_le hd)
  granted := h'.granted
  refused := h'.refused

/-- The loop answers after at most as many rewritings as there are
superblocks with an invalid entry, whatever the bound on its rounds. -/
theorem Fair.useRemapLoop_run (h : Fair c s.nvram)
    (hT : 0 < c.totalOobSeg) (hb : b < c.blockNb) (ratio : Nat × Nat) :
    ∃ r s' log, Answered c b s r s'
      ∧ log.countP isNvramGc ≤ dirty c s.nvram
      ∧ ∀ k, dirty c s.nvram < k →
        useRemapLoop c b k ratio s = ⟨.ok r, s', log⟩ := by
  -- on the superblocks with invalid entries: a round that goes on leaves one
  -- fewer
  induction hm : dirty c s.nvram using Nat.strong_induction_on
    generalizing s ratio with
  | _ m ih =>
      rcases h.round hT hb ratio with ⟨r, s', ha, hrun⟩
        | ⟨d, t, ratio', hd, hinv, hrun⟩
      · refine ⟨r, s', [], ha, Nat.zero_le _, fun k hk => ?_⟩
        obtain ⟨j, rfl⟩ := Nat.exists_eq_succ_of_ne_zero
          (Nat.ne_of_gt (Nat.lt_of_le_of_lt (Nat.zero_le _) hk))
        exact hrun j
      · have hless := h.dirty_rewritten hd hinv
        obtain ⟨r, s', log, ha, hcount, hrest⟩ := ih _ (hm ▸ hless)
          (s := { s with nvram := rewritten c d s.nvram })
          (h.rewrite hd) ratio' rfl
        refine ⟨r, s', .io (.nvramGc d t) :: log, h.answered_trans hd ha, ?_,
          fun k hk => ?_⟩
        · rw [List.countP_cons_of_pos rfl]
          exact Nat.lt_of_le_of_lt hcount (hm ▸ hless)
        · obtain ⟨j, rfl⟩ := Nat.exists_eq_succ_of_ne_zero
            (Nat.ne_of_gt (Nat.lt_of_le_of_lt (Nat.zero_le _) hk))
          have hj : dirty c (rewritten c d s.nvram) < j := by omega
          rw [hrun j, Prog.andThen_ok, hrest j hj]
          rfl

/-- Each round cleans a superblock, so this bounds the rounds. -/
theorem dirty_le (c : Conf) (n : Nvram) : dirty c n ≤ c.blockNb := by
  have := List.countP_le_length (l := List.range c.blockNb)
    (p := fun b => decide (0 < (n.oobTable b).invalidEntry))
  rwa [List.length_range] at this

/-- One entry more takes a segment only if one was granted. -/
theorem Granted.store_le (h : Granted c b s) (hb : b < c.blockNb) :
    (updateNvramOob c b true s).st.nvram.totalAllocSeg
      ≤ max c.totalOobSeg s.nvram.totalAllocSeg := by
  unfold updateNvramOob
  rw [if_neg (Nat.not_le.2 hb), if_pos rfl]
  show (storeEntry c b (if _ then _ else _)).totalAllocSeg ≤ _
  by_cases hfree : (s.nvram.oobTable b).freeEntry = 0
  · have hlt : s.nvram.totalAllocSeg < c.totalOobSeg :=
      h.resolve_left (by omega)
    rw [if_neg fun hfull => Nat.ne_of_lt hlt hfull.2, storeEntry]
    simp only [if_pos hfree]
    refine Nat.le_trans ?_ (Nat.le_max_left _ _)
    have hmod : u64 ((s.nvram.totalAllocSeg : Int) + 1)
        = (s.nvram.totalAllocSeg + 1) % 2 ^ 64 :=
      u64_mod (s.nvram.totalAllocSeg + 1)
    rw [hmod]
    exact Nat.le_trans (Nat.mod_le _ _) hlt
  · rw [if_neg fun hfull => hfree hfull.1, storeEntry]
    simp only [if_neg hfree]
    exact Nat.le_max_right _ _

/-- In every state between requests of a run in which no count wraps, and
with `int`s that do not overflow, `USE_REMAP` of any superblock answers
after at most as many calls of `NVRAM_OOB_GC` as there are superblocks
with an invalid entry, for every bound on its rounds that admits so
many; it grants only what fits, refuses only when no more than 5% of the
entries are invalid, and changes neither the live entries of a superblock
nor anything but the NVRAM. -/
theorem use_remap_exact {tr : List Event} (g : Geo c)
    (hT : 0 < c.totalOobSeg) (h : Reach c s tr)
    (hr : ∀ e ∈ tr, NoWrap e) (hfit : IntsFit c s.nvram)
    (hb : b < c.blockNb) :
    ∃ r s' log, useRemap c b s = ⟨.ok r, s', log⟩
      ∧ (∀ rounds, dirty c s.nvram < rounds →
        useRemapLoop c b rounds (0, 1) s = ⟨.ok r, s', log⟩)
      ∧ log.countP isNvramGc ≤ dirty c s.nvram
      ∧ (r = .success →
        (0 < (s'.nvram.oobTable b).freeEntry
          ∨ s'.nvram.totalAllocSeg < c.totalOobSeg)
        ∧ (updateNvramOob c b true s').st.nvram.totalAllocSeg
          ≤ max c.totalOobSeg s'.nvram.totalAllocSeg)
      ∧ (r = .fail → (s'.nvram.oobTable b).freeEntry = 0
        ∧ c.totalOobSeg ≤ s'.nvram.totalAllocSeg
        ∧ 20 * s'.nvram.totalInvalidEntry ≤ s'.nvram.totalOobEntry)
      ∧ (∀ x, x < c.blockNb → liveEntries c (s'.nvram.oobTable x)
        = liveEntries c (s.nvram.oobTable x))
      ∧ s'.nvram.totalAllocSeg ≤ s.nvram.totalAllocSeg
      ∧ ∃ n, s' = { s with nvram := n } := by
  obtain ⟨⟨p, hp⟩, -⟩ := h.visited.sound g hr
  have hfair : Fair c s.nvram := by
    refine ⟨hp.pages.totals, hfit, fun x hx => ?_⟩
    have := hp.records.entries x hx (by simp)
    unfold liveEntries
    omega
  -- each superblock is cleaned at most once, so the source's bound on the
  -- rounds is never met
  obtain ⟨r, s', log, ha, hcount, hrun⟩ := hfair.useRemapLoop_run hT hb (0, 1)
  have hle := dirty_le c s.nvram
  refine ⟨r, s', log, ?_, hrun, hcount, fun hs => ?_, ha.refused, ha.live,
    ha.alloc, ha.only⟩
  · unfold useRemap
    rw [if_neg (Nat.not_le.2 hb)]
    exact hrun _ (by omega)
  · exact ⟨ha.granted hs, (ha.granted hs).store_le hb⟩

/-- A page is shared by 22 lpns, which takes all entries of the only
segment, and two of the lpns are discarded. -/
def clutteredRun : List Cmd :=
  [writeOf 0 7, .remap 0 1 20 3, .remap 0 21 1 3, .discard 2 20]

def clutteredOut : Out Ssd Event Fault Unit :=
  runCmds scarceConf 40 clutteredRun (ftlInit scarceConf)

theorem clutteredRun_inRange :
    ∀ cmd ∈ clutteredRun, InRange scarceConf cmd := by
  intro cmd hc
  simp only [clutteredRun, List.mem_cons, List.not_mem_nil, or_false] at hc
  rcases hc with rfl | rfl | rfl | rfl
  · exact inRange_writeOf _ _
  · exact ⟨by decide, by decide⟩
  · exact ⟨by decide, by decide⟩
  · exact trivial

theorem clutteredOut_reach :
    Reach scarceConf clutteredOut.st clutteredOut.log :=
  (Ran.start 40 clutteredRun clutteredRun_inRange (by decide +kernel)).reach

/-- No entry is free, and two of 21 are invalid: the first round rewrites
the 19 others, and the second one grants. -/
theorem use_remap_exact_cluttered :
    dirty scarceConf clutteredOut.st.nvram = 1
      ∧ ∃ s' log, useRemap scarceConf 0 clutteredOut.st
          = ⟨.ok .success, s', log⟩
        ∧ log.countP isNvramGc = 1
        ∧ (0 < (s'.nvram.oobTable 0).freeEntry
          ∨ s'.nvram.totalAllocSeg < scarceConf.totalOobSeg)
        ∧ liveEntries scarceConf (s'.nvram.oobTable 0) = 19
        ∧ s'.nvram.totalAllocSeg ≤ 1 := by
  obtain ⟨r, s', log, hrun, -, -, hgrant, -, hlive, halloc, -⟩ :=
    use_remap_exact scarceConf_geo (b := 0) (by decide) clutteredOut_reach
      (by decide +kernel) ⟨by decide, by decide +kernel⟩ (by decide)
  have heval : dirty scarceConf clutteredOut.st.nvram = 1
      ∧ (useRemap scarceConf 0 clutteredOut.st).res = .ok .success
      ∧ (useRemap scarceConf 0 clutteredOut.st).log.countP isNvramGc = 1
      ∧ liveEntries scarceConf (clutteredOut.st.nvram.oobTable 0) = 19
      ∧ clutteredOut.st.nvram.totalAllocSeg = 1 := by
    decide +kernel
  rw [hrun] at heval
  obtain ⟨hdirty, hres, hcount, hbefore, hone⟩ := heval
  cases hres
  exact ⟨hdirty, s', log, hrun, hcount, (hgrant rfl).1,
    (hlive 0 (by decide)).trans hbefore, hone ▸ halloc⟩

-- ========================================================== a lost entry

/-- The device of `wrapRun` with one segment of 128 entries. -/
def oneSegConf : Conf :=
  { wrapConf with totalOobSeg := 1, oobEntryPerSeg := 128 }

/-- The collection after `wrapRun` erases the superblock of the wrapped
page, and its entries, under 126 lpns; a remap takes the segment again,
and one of the lpns is discarded. -/
def unrecordedRun : List Cmd :=
  wrapRun ++ [writeOf 1 8, .remap 1 131 1 3, .discard 1 2]

def unrecordedOut : Out Ssd Event Fault Unit :=
  runCmds oneSegConf 300 unrecordedRun (ftlInit oneSegConf)

theorem unrecordedRun_inRange :
    ∀ cmd ∈ unrecordedRun, InRange oneSegConf cmd := by
  intro cmd hc
  rcases List.mem_append.1 hc with hc | hc
  · exact wrapRun_inRange cmd hc
  · simp only [List.mem_cons, List.not_mem_nil, or_false] at hc
    rcases hc with rfl | rfl | rfl
    · exact inRange_writeOf _ _
    · exact ⟨by decide, by decide⟩
    · exact trivial

/-- More entries are invalid than were stored: the count of live ones is
negative. -/
theorem unrecordedOut_eval : unrecordedOut.res = .ok ()
    ∧ unrecordedOut.log.all fewSharers = true
    ∧ liveEntries oneSegConf (unrecordedOut.st.nvram.oobTable 0) = -1
    ∧ liveEntries oneSegConf
      ((useRemap oneSegConf 4 unrecordedOut.st).st.nvram.oobTable 0) = 0 := by
  decide +kernel

/-- At most 127 lpns ever share a page, and yet an entry is counted
invalid that is not stored: the rewriting of its superblock changes the
live entries. -/
theorem use_remap_changes_live_wrap :
    Reach oneSegConf unrecordedOut.st unrecordedOut.log
      ∧ (∀ e ∈ unrecordedOut.log, FewSharers e)
      ∧ liveEntries oneSegConf (unrecordedOut.st.nvram.oobTable 0) = -1
      ∧ liveEntries oneSegConf ((useRemap oneSegConf 4
        unrecordedOut.st).st.nvram.oobTable 0) = 0 := by
  obtain ⟨hok, hfew, hbefore, hafter⟩ := unrecordedOut_eval
  exact ⟨(Ran.start 300 unrecordedRun unrecordedRun_inRange hok).reach,
    fun e he => .of_check (List.all_eq_true.1 hfew e he), hbefore, hafter⟩

end FemuRemap
