/-
The order of the allocations.

`Strides` follows a pool through every function that hands out pages or
erases blocks, so the pages handed out in a run are the positions of a
run of the pool: superblock after superblock, in each the flashes in turn
and page by page (`Pool.Path.stripes`). What the collector hands out
between the host's pages is part of the same run. A superblock joins the
victims only when its last page is gone (`Pool.Path.since_full`).
-/
import FemuRemap.Proofs.Effects
import FemuRemap.Proofs.Exhaustion

namespace FemuRemap

open Lib

variable {c : Conf} {p : Pool} {s : Ssd} {tr : List Event}

-- ================================================================= calls

/-- What allocates, alone or as part of a command. -/
inductive Call where
  | newPage
  | collect
  | command (cmd : Cmd)
  /-- The pages of a write, without the collections after it. -/
  | pages (req : RequestMeta)
  /-- `USE_REMAP`, which runs before a page is programmed. -/
  | ask (b : Nat)

def Call.run (c : Conf) (fuel : Nat) : Call → Ftl Unit
  | .newPage => do
      let _ ← getNewPage c fuel
  | .collect => do
      let _ ← sbGarbageCollection c fuel
  | .command cmd => exec c fuel cmd
  | .pages req => do
      let _ ← writePages c fuel req.lpnsInfo
        (slots c req.sectorNb req.length) 0 none
  | .ask b => do
      let _ ← useRemap c b

/-- The states after calls that returned, with their events. -/
inductive Called (c : Conf) : Ssd → List Event → Prop
  | init : Called c (ftlInit c) []
  | call {s s' : Ssd} {tr log : List Event} (fuel : Nat) (o : Call) :
      Called c s tr → o.run c fuel s = ⟨.ok (), s', log⟩ →
      Called c s' (tr ++ log)

/-- A collection as far as page `k` of the victim's block on flash `f`,
where it calls `GET_NEW_PAGE` if that page is valid. -/
def collectUpto (c : Conf) (fuel f k : Nat) : Ftl Unit := do
  match ← selectVictimSuperblock c with
  | none => return ()
  | some b => do
      reportCollect c b
      readVictimOob c b
      updateNvramOob c b false
      match ← migrateBlocks c fuel b (List.range f) 0 with
      | none => return ()
      | some _ => do
          let _ ← migratePages c fuel f b (List.range k) 0

theorem Reach.called (h : Reach c s tr) : Called c s tr := by
  induction h with
  | init => exact .init
  | cmd fuel cmd _ _ hex ih => exact ih.call fuel (.command cmd) hex

-- ============================================================ following

theorem Geo.call_strides (g : Geo c) (h : Aligned c [] p s) (fuel : Nat)
    (o : Call) :
    Strides c (o.run c fuel) p s fun _ p' s' => Aligned c [] p' s' := by
  cases o with
  | newPage =>
      refine Strides.bind (g.getNewPage_strides h fuel) ?_
      rintro _ p₁ s₁ ⟨q, -, -, -, -, h₁, -⟩
      exact Strides.pure h₁
  | collect =>
      exact Strides.bind (g.sbGarbageCollection_strides h fuel)
        fun _ _ _ h₁ => Strides.pure h₁
  | command cmd => exact g.exec_strides h fuel cmd
  | pages req =>
      exact Strides.bind (g.writePages_strides h fuel _ _ _ _)
        fun _ _ _ h₁ => Strides.pure h₁
  | ask b =>
      exact Strides.bind
        ((framed_useRemap (I := anyBlock) b).strides_aligned h)
        fun _ _ _ h₁ => Strides.pure h₁

/-- The trace is a run of the pool that the lists hold. -/
theorem Called.path (g : Geo c) (h : Called c s tr) :
    ∃ p, Aligned c [] p s ∧ (∀ e ∈ tr, InPlace c e)
      ∧ Pool.Path c.sbPages (.init c.blockNb) (tr.filterMap (actOf c)) p := by
  induction h with
  | init => exact ⟨_, g.aligned_init, by simp, .nil⟩
  | @call s s' tr log fuel o _ hrun ih =>
      obtain ⟨p, hp, hin, hpath⟩ := ih
      obtain ⟨hg, p', hpath', hQ⟩ := g.call_strides hp fuel o
      rw [hrun] at hg hpath' hQ
      refine ⟨p', hQ () rfl, List.forall_mem_append.2 ⟨hin, hg⟩, ?_⟩
      rw [List.filterMap_append]
      exact hpath.trans hpath'

/-- Also with a last call that need not return. -/
theorem Called.path_next (g : Geo c) (h : Called c s tr) (fuel : Nat)
    (o : Call) : (∀ e ∈ tr ++ (o.run c fuel s).log, InPlace c e)
      ∧ ∃ p, Pool.Path c.sbPages (.init c.blockNb)
        ((tr ++ (o.run c fuel s).log).filterMap (actOf c)) p := by
  obtain ⟨p, hp, hin, hpath⟩ := h.path g
  obtain ⟨hg, p', hpath', -⟩ := g.call_strides hp fuel o
  refine ⟨List.forall_mem_append.2 ⟨hin, hg⟩, p', ?_⟩
  rw [List.filterMap_append]
  exact hpath.trans hpath'

/-- In the middle of a collection a superblock is missing. -/
theorem Geo.collectUpto_strides (g : Geo c) (h : Aligned c [] p s)
    (fuel : Nat) {f : Nat} (hf : f < c.flashNb) (k : Nat) :
    Strides c (collectUpto c fuel f k) p s fun _ p' s' =>
      ∃ out, Aligned c out p' s' := by
  refine Strides.bind (g.selectVictimSuperblock_strides h) ?_
  rintro r p₁ s₁ ⟨hb, h₁⟩
  cases r with
  | none => exact Strides.pure ⟨[], h₁⟩
  | some b =>
      refine Strides.bind
        ((framed_reportCollect (I := anyBlock) b).strides_aligned h₁) ?_
      intro _ p₂ s₂ h₂
      refine Strides.bind
        ((framed_readVictimOob (I := anyBlock) b).strides_aligned h₂) ?_
      intro _ p₃ s₃ h₃
      refine Strides.bind ((framed_updateNvramOob (I := anyBlock) b
        false).strides_aligned h₃) ?_
      intro _ p₄ s₄ h₄
      refine Strides.bind (g.migrateBlocks_strides (hb b rfl) h₄ fuel _
        (fun f' hf' => Nat.lt_trans (List.mem_range.1 hf') hf) 0) ?_
      rintro _ p₅ s₅ ⟨⟨n, rfl⟩, h₅⟩
      refine Strides.bind
        (g.migratePages_strides hf (hb b rfl) h₅ fuel _ 0) ?_
      rintro _ p₆ s₆ ⟨-, h₆, -⟩
      exact Strides.pure ⟨[b], h₆⟩

-- ========================================================= GET_EMPTY_BLOCK

/-- `GET_EMPTY_BLOCK` returns after at most `2 * FLASH_NB + 2` rounds of
its loop, and `NULL` only when no page is left. -/
def FindsBlock (c : Conf) (s : Ssd) : Prop :=
  ∀ fuel, 2 * c.flashNb + 2 ≤ fuel →
    ∃ r s' log, getEmptyBlock c fuel s = ⟨.ok r, s', log⟩
      ∧ (r = none → pagesLeft c s = 0)

/-- In such a state the search finds a block, or there is none. -/
theorem Geo.findsBlock (g : Geo c) {out : List Nat}
    (h : Aligned c out p s) : FindsBlock c s := by
  intro fuel hfuel
  have hsat := (g.getEmptyBlock_sat h.lists.toRep h.pool
    (fun _ => trivial) fuel).ends
  cases hres : (getEmptyBlock c fuel s).res with
  | error e =>
      rw [hres] at hsat
      have hle := hsat.2
      omega
  | ok r =>
      rw [hres] at hsat
      refine ⟨r, _, _, Out.eq_of_res hres, ?_⟩
      rintro rfl
      rw [g.pagesLeft_eq h, ← Pool.next_eq_none g.sbPages_pos]
      exact hsat

-- =============================================================== stripes

/-- The pages handed out go round the flashes, `PAGE_NB` rounds with
rising page numbers for each superblock. In particular the pages of a
round have the same block number and the same page number. -/
structure Striped (c : Conf) (tr : List Event) : Prop where
  flash : ∀ i q, (allocPages tr)[i]? = some q →
    flashOf c q = i % c.flashNb
  page : ∀ i q, (allocPages tr)[i]? = some q →
    pageOf c q = i / c.flashNb % c.pageNb
  block : ∀ i j q q', (allocPages tr)[i]? = some q →
    (allocPages tr)[j]? = some q' →
    i / c.flashNb / c.pageNb = j / c.flashNb / c.pageNb →
    blockOf c q = blockOf c q'

/-- The positions of the trace's actions. -/
theorem positions_eq (tr : List Event) :
    (tr.filterMap (actOf c)).filterMap Pool.Act.position
      = (allocPages tr).map fun q => (blockOf c q, posOf c q) := by
  induction tr with
  | nil => rfl
  | cons e tr ih =>
      cases e with
      | alloc q _ _ _ =>
          show (_ :: (tr.filterMap (actOf c)).filterMap _) = _
          rw [ih]
          rfl
      | erase f b m =>
          by_cases hf : f + 1 = c.flashNb
          · rw [List.filterMap_cons_some (b := .free b)
              (show actOf c _ = _ by rw [actOf, if_pos hf])]
            exact ih
          · rw [List.filterMap_cons_none
              (show actOf c _ = _ by rw [actOf, if_neg hf])]
            exact ih
      | _ => exact ih

/-- A page of the list comes from an event. -/
theorem mem_allocPages {q : Nat} (h : q ∈ allocPages tr) :
    ∃ v l d, .alloc q v l d ∈ tr := by
  obtain ⟨e, he, hq⟩ := List.mem_filterMap.1 h
  cases e with
  | alloc x v l d => exact ⟨v, l, d, Option.some.inj hq ▸ he⟩
  | _ => cases hq

/-- The pool's order, read off the page numbers. -/
theorem Geo.striped (g : Geo c) (hin : ∀ e ∈ tr, InPlace c e)
    (h : Pool.Path c.sbPages (.init c.blockNb) (tr.filterMap (actOf c)) p) :
    Striped c tr := by
  obtain ⟨bs, hbs⟩ := h.stripes g.sbPages_pos
  rw [positions_eq] at hbs
  have hat : ∀ i q, (allocPages tr)[i]? = some q →
      flashOf c q < c.flashNb ∧ posOf c q = i % c.sbPages
        ∧ bs[i / c.sbPages]? = some (blockOf c q) := by
    intro i q hi
    obtain ⟨v, l, d, he⟩ := mem_allocPages (List.mem_of_getElem? hi)
    have hq : q < c.pageMappingEntryNb := hin _ he
    exact ⟨flashOf_lt hq, hbs.at_pos i _ _ (by
      rw [List.getElem?_map, hi]
      rfl)⟩
  have hsb : c.sbPages = c.pageNb * c.flashNb := rfl
  refine ⟨fun i q hi => ?_, fun i q hi => ?_, fun i j q q' hi hj hij => ?_⟩
  · obtain ⟨hf, hpos, -⟩ := hat i q hi
    rw [← Nat.mod_mul_left_mod i c.pageNb c.flashNb, ← hsb, ← hpos, posOf,
      pos_mod hf]
  · obtain ⟨hf, hpos, -⟩ := hat i q hi
    rw [← Nat.mod_mul_left_div_self, ← hsb, ← hpos, posOf, g.pos_div hf]
  · obtain ⟨-, -, hb⟩ := hat i q hi
    obtain ⟨-, -, hb'⟩ := hat j q' hj
    rw [Nat.div_div_eq_div_mul, Nat.div_div_eq_div_mul,
      Nat.mul_comm, ← hsb] at hij
    rw [hij, hb'] at hb
    exact (Option.some.inj hb).symm

-- ============================================================== the order

/-- After any calls that returned, and in the middle of any collection,
`GET_EMPTY_BLOCK` returns within `2 * FLASH_NB + 2` rounds, and `NULL`
only when no page is left. A page that `GET_NEW_PAGE` returns is the one
page its trace reports, and the pages handed out so far, and by any
further call, whether or not it returns, are striped; and each superblock
in the victim lists has handed out all its pages since it was last
erased. -/
theorem allocation_striped (g : Geo c) (h : Called c s tr) :
    FindsBlock c s
      ∧ (∀ fuel f k s' log, f < c.flashNb →
        collectUpto c fuel f k s = ⟨.ok (), s', log⟩ → FindsBlock c s')
      ∧ (∀ fuel t t' r log, getNewPage c fuel t = ⟨.ok r, t', log⟩ →
        allocPages log = r.toList)
      ∧ (∀ fuel o, Striped c (tr ++ (Call.run c fuel o s).log))
      ∧ ∀ f, f < c.flashNb → ∀ v ∈ (s.lists.victimBlockList f).entries,
        Pool.since v.phyBlockNb (tr.filterMap (actOf c))
          = List.range (c.pageNb * c.flashNb) := by
  obtain ⟨p, hp, hin, hpath⟩ := h.path g
  refine ⟨g.findsBlock hp, ?_, fun fuel _ _ _ _ hnew =>
    getNewPage_allocPages fuel hnew, fun fuel o => ?_, fun f hf v hv => ?_⟩
  · intro fuel f k s' log hf hrun
    obtain ⟨-, p', -, hQ⟩ := g.collectUpto_strides hp fuel hf k
    rw [hrun] at hQ
    obtain ⟨out, hp'⟩ := hQ () rfl
    exact g.findsBlock hp'
  · obtain ⟨hin', p', hpath'⟩ := h.path_next g fuel o
    exact g.striped hin' hpath'
  · rw [hp.lists.victims f hf] at hv
    obtain ⟨b, hb, rfl⟩ := List.mem_map.1 hv
    exact hpath.since_full g.sbPages_pos hb

/-- The superblocks whose last block is erased, in order. -/
def erasedBlocks (c : Conf) (tr : List Event) : List Nat :=
  tr.filterMap fun e => match e with
    | .erase f b _ => if f + 1 = c.flashNb then some b else none
    | _ => none

/-- In `busyRun` superblocks 0 and 1 are filled, retired and collected;
superblock 0 is then filled and retired again, and the next page is the
third of superblock 1. -/
theorem allocation_striped_busy :
    (allocPages busyOut.log).drop 28
        = [14, 30, 15, 31, 0, 16, 1, 17, 2, 18]
      ∧ erasedBlocks tinyConf busyOut.log = [0, 1]
      ∧ FindsBlock tinyConf busyOut.st
      ∧ (getNewPage tinyConf 200 busyOut.st).res.toOption = some (some 3)
      ∧ allocPages (getNewPage tinyConf 200 busyOut.st).log = [3]
      ∧ Striped tinyConf (busyOut.log
        ++ (Call.run tinyConf 200 (.command (writeOf 0 40)) busyOut.st).log)
      ∧ ((busyOut.st.lists.victimBlockList 0).entries.map
        VictimBlock.phyBlockNb) = [2, 3, 4, 5, 6, 7, 0]
      ∧ ∀ v ∈ (busyOut.st.lists.victimBlockList 0).entries,
        Pool.since v.phyBlockNb (busyOut.log.filterMap (actOf tinyConf))
          = List.range 4 := by
  obtain ⟨hfinds, -, hnew, hstriped, hfull⟩ := allocation_striped
    tinyConf_geo busyOut_reach.called
  have hpage : (getNewPage tinyConf 200 busyOut.st).res = .ok (some 3) := by
    decide +kernel
  refine ⟨by decide +kernel, by decide +kernel, hfinds, by rw [hpage]; rfl,
    hnew 200 _ _ _ _ (Out.eq_of_res hpage), hstriped 200 _,
    by decide +kernel, hfull 0 (by decide)⟩

end FemuRemap
