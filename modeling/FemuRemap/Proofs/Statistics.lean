/-
The statistics of the page states against their recomputation.

`UPDATE_BLOCK_STATE_ENTRY` moves the counters by the old value of one
page's `valid_array`. `Stats` carries, through every step of a run
without wrapped counts, that they are the tallies of the whole table, and
every call reports the statistics around it (`Event.restated`). What is
left is to read the tallies as counts of pages and of lpns: `stat_lpn_valid`
adds up the reference counts, and between requests these count each
mapped lpn once.
-/
import FemuRemap.Proofs.Agreement

namespace FemuRemap

open Lib

variable {c : Conf} {p : Pool} {s : Ssd} {tr : List Event}

-- ======================================================= recomputation

/-- The ppns whose `valid_array` satisfies `P`. -/
def ppnCount (c : Conf) (s : Ssd) (P : Int → Bool) : Nat :=
  (List.range c.pageMappingEntryNb).countP fun q => P (s.valid c q)

/-- The lpns with an entry in the mapping table. -/
def mappedCount (c : Conf) (s : Ssd) : Nat :=
  (List.range c.pageMappingEntryNb).countP fun L =>
    (s.mappingTable L).isSome

/-- The page-state statistics are what a scan of the tables counts. -/
structure Recomputed (c : Conf) (s : Ssd) : Prop where
  free : s.stat.ppnFree = ppnCount c s fun v => v = 0
  valid : s.stat.ppnValid = ppnCount c s fun v => 0 < v
  invalid : s.stat.ppnInvalid = ppnCount c s fun v => v = -1
  n21 : s.stat.ppnN21 = ppnCount c s fun v => 2 ≤ v
  total : s.stat.ppnFree + s.stat.ppnValid + s.stat.ppnInvalid
    = c.pageMappingEntryNb
  validPageNb : ∀ flash block, flash < c.flashNb → block < c.blockNb →
    (getBlockStateEntry c s flash block).validPageNb
      = (List.range c.pageNb).countP fun page =>
        0 < (getBlockStateEntry c s flash block).validArray page
  lpns : s.stat.lpnValid = mappedCount c s

/-- `UPDATE_BLOCK_STATE_ENTRY` does not fail, and every counter moves by
the page it restates, as a natural number. -/
def ExactUpdate : Event → Prop
  | .restated old new before after => Moved old new before after
  | .refused => False
  | _ => True

/-- What is allowed counts without a wrap. -/
theorem Allowed.exactUpdate {A : Prop} {e : Event} (h : Allowed c A e) :
    ExactUpdate e := by
  cases e with
  | restated old new before after => exact h
  | refused => exact h
  | _ => trivial

-- =========================================================== the lpns

/-- The count of a live page is the number of lpns that map to it, and a
page that is not live has none. -/
theorem Tracked.valid_eq_tally (h : Sound c p s) {q : Nat}
    (hq : q < c.pageMappingEntryNb) : (s.valid c q).toNat
      = tally c.pageMappingEntryNb fun L =>
        ind (s.mappingTable L = some q) := by
  have hvalid : (s.valid c q).toNat = (s.refs q).length := by
    by_cases hnil : s.refs q = []
    · have := h.pages.dead q hq id hnil
      rw [hnil]
      simpa using this
    · rw [h.pages.live q hq id hnil]
      rfl
  have hperm : (s.refs q).Perm ((List.range c.pageMappingEntryNb).filter
      fun L => s.mappingTable L = some q) := by
    refine (List.perm_ext_iff_of_nodup (h.maps.nodup hq)
      (List.nodup_range.filter _)).2 fun L => ?_
    rw [h.maps.mem_iff hq, List.mem_filter, List.mem_range]
    constructor
    · intro hL
      exact ⟨(h.maps.bound L q hL).2, by simpa using hL⟩
    · intro hL
      simpa using hL.2
  rw [hvalid, hperm.length_eq, ← List.countP_eq_length_filter,
    countP_range]

/-- An lpn maps to one page or to none. -/
theorem Tracked.tally_pages (h : Sound c p s) (L : Nat) :
    (tally c.pageMappingEntryNb fun q => ind (s.mappingTable L = some q))
      = ind ((s.mappingTable L).isSome = true) := by
  cases hm : s.mappingTable L with
  | none => exact tally_eq_zero fun q _ => rfl
  | some o =>
      have ho := (h.maps.bound L o hm).1
      have hle : (tally c.pageMappingEntryNb fun q =>
          ind (some o = some q)) ≤ 1 :=
        tally_ind_le_one fun x y hx hy => by simp_all
      have hge : 1 ≤ tally c.pageMappingEntryNb fun q =>
          ind (some o = some q) :=
        le_tally (g := fun q => ind (some o = some q)) ho |>.trans' (by simp)
      rw [ind_true (P := (some o).isSome = true) rfl]
      omega

/-- The counter of mapped lpns is their number. -/
theorem Tracked.lpnValid_eq (h : Sound c p s) :
    s.stat.lpnValid = mappedCount c s := by
  calc s.stat.lpnValid
      = tally c.pageMappingEntryNb fun q => (s.valid c q).toNat :=
        h.pages.stats.lpns
    _ = tally c.pageMappingEntryNb fun q =>
          tally c.pageMappingEntryNb fun L =>
            ind (s.mappingTable L = some q) :=
        tally_congr fun q hq => h.valid_eq_tally hq
    _ = tally c.pageMappingEntryNb fun L =>
          ind ((s.mappingTable L).isSome = true) := by
        rw [tally_comm]
        exact tally_congr fun L _ => h.tally_pages L
    _ = mappedCount c s := by
        rw [mappedCount, ← countP_range]
        simp

-- ========================================================== the pages

/-- A count over pages as a sum of indicators. -/
theorem ppnCount_eq (s : Ssd) (P : Int → Prop) [DecidablePred P] :
    ppnCount c s (fun v => P v)
      = tally c.pageMappingEntryNb fun q => ind (P (s.valid c q)) :=
  countP_range _ fun q => P (s.valid c q)

/-- The invariant's sums are the recomputed counts. -/
theorem Tracked.recomputed (h : Sound c p s) : Recomputed c s where
  free := by
    rw [h.pages.stats.free, ppnCount_eq s fun v => v = 0]
  valid := by
    rw [h.pages.stats.live, ppnCount_eq s fun v => 0 < v]
  invalid := by
    rw [h.pages.stats.invalid, ppnCount_eq s fun v => v = -1]
  n21 := by
    rw [h.pages.stats.n21, ppnCount_eq s fun v => 2 ≤ v]
  total := h.pages.total
  validPageNb flash block _ _ := h.pages.recount (blockIndex c flash block)
  lpns := h.lpnValid_eq

/-- In every run in which no count wraps: the page-state statistics are
those a scan of the tables would count, no call of
`UPDATE_BLOCK_STATE_ENTRY` fails, and each call moves the counters by
exactly the page it restates. -/
theorem statistics_recomputed (g : Geo c) (h : Visited c s tr)
    (hr : ∀ e ∈ tr, NoWrap e) :
    Recomputed c s ∧ (∀ e ∈ tr, ExactUpdate e)
      ∧ ∀ fuel cmd, InRange c cmd →
        (∀ e ∈ (exec c fuel cmd s).log, NoWrap e) →
        ∀ e ∈ (exec c fuel cmd s).log, ExactUpdate e := by
  obtain ⟨⟨p, hp⟩, hg⟩ := h.sound g hr
  refine ⟨hp.recomputed, fun e he => (hg e he).exactUpdate, ?_⟩
  intro fuel cmd hin hlog e he
  exact ((h.next g hr hin fuel hlog).1 e he).exactUpdate

theorem statistics_recomputed_tiny : Recomputed tinyConf tinyOut.st :=
  (statistics_recomputed tinyConf_geo tinyOut_reach.visited
    tinyOut_noWrap).1

/-- At most 127 lpns ever share a page, and yet a call is refused and the
counters are off. -/
theorem statistics_off_wrap :
    Reach wrapConf wrapOut.st wrapOut.log
      ∧ (∀ e ∈ wrapOut.log, FewSharers e)
      ∧ .refused ∈ wrapOut.log
      ∧ ¬ Recomputed wrapConf wrapOut.st := by
  have heval : wrapOut.log.contains .refused = true
      ∧ wrapOut.st.stat.ppnValid
        ≠ ppnCount wrapConf wrapOut.st (fun v => 0 < v) := by
    decide +kernel
  exact ⟨wrapOut_ran.reach, wrapOut_fewSharers,
    List.contains_iff_mem.1 heval.1, fun h => heval.2 h.valid⟩

end FemuRemap
