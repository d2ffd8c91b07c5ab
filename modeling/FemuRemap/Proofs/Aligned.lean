/-
No block is lost or duplicated, and the superblocks stay aligned, in
every run that does not run out of pages.

# The invariant

`Aligned c out p s`: the lists hold the well-formed pool `p` from which
the superblocks `out` are missing, and every block's `valid_page_nb` is
the number of its pages with a positive reference count. The second
half is what lets a collection finish: it compares that number with the
pages it migrated and gives up, with its victim in no list, when they
differ. Neither half depends on the reference counts being right, so
nothing is assumed about sharing.

# The judgement

`Strides c m p s Q`: the pages that `m` hands out and the superblocks it
erases are a run of the pool from `p` on, whether or not `m` comes to an
end. `Quiet` is what remains of it for results that are not about the
order of the allocations.
-/
import FemuRemap.Lib.Follow
import FemuRemap.Lib.PoolRun
import FemuRemap.Proofs.Frame
import FemuRemap.Proofs.Run

namespace FemuRemap

open Lib

variable {c : Conf}

/-- The lists hold pool `p` with the superblocks `out` taken out, and
the recorded numbers of valid pages and of NVRAM entries are right. -/
structure Aligned (c : Conf) (out : List Nat) (p : Pool) (s : Ssd) :
    Prop where
  pool : PoolOk c out p
  lists : Lists c p s.lists
  recount : Recount c s
  totals : Totals c s.nvram

variable {out : List Nat} {p : Pool} {s s' : Ssd} {I : Nat → Prop}

/-- The alignment reads the lists, the totals and the block states through
their counts, all of which a local step keeps. -/
theorem Aligned.of_local (h : Aligned c out p s) (hl : Local c I s s') :
    Aligned c out p s' :=
  ⟨h.pool, hl.lists ▸ h.lists, hl.recount h.recount,
    hl.totals h.totals⟩

/-- Under no assumption on the events, no misalignment is reported;
what a fault leaves behind is not constrained. -/
abbrev Quiet {α : Type} (m : Ftl α) (s : Ssd) (Q : α → Ssd → Prop) :
    Prop :=
  Sat (fun _ => True) NoListError m s Q fun _ _ => True

/-- A function of the frame prints no error of the lists. -/
theorem Framed.quiet {α : Type} {m : Ftl α} (h : Framed c I m)
    (s : Ssd) : Quiet m s fun _ s' => Local c I s s' :=
  Sat.mono ((h.sat s).weaken fun _ => Placid.noListError)
    (fun _ _ hl => hl) fun _ _ _ => trivial

/-- The new device holds the initial pool. -/
theorem Geo.aligned_init (g : Geo c) :
    Aligned c [] (.init c.blockNb) (ftlInit c) where
  pool := Pool.Ok.init
  lists := g.lists_init
  recount := by
    intro i
    simp [ftlInit, countValid]
  totals := totals_init g.entries

-- ======================================================== the judgement

/-- What an event says of the pool: a page is handed out, or the last
block of a superblock is erased. -/
def actOf (c : Conf) : Event → Option Pool.Act
  | .alloc q _ _ _ => some (.give (blockOf c q) (posOf c q))
  | .erase f b _ => if f + 1 = c.flashNb then some (.free b) else none
  | _ => none

/-- No diagnostic of the lists, and no page beyond the last. -/
def InPlace (c : Conf) : Event → Prop
  | .error m => m ∉ listErrors
  | .alloc q _ _ _ => q < c.pageMappingEntryNb
  | _ => True

/-- In particular no error of the lists. -/
theorem InPlace.noListError {e : Event} (h : InPlace c e) :
    NoListError e := by
  intro m hm he
  subst he
  exact h hm

/-- An event of the frame hands out nothing, -/
theorem Placid.inPlace {e : Event} (h : Placid e) : InPlace c e := by
  cases e with
  | alloc _ _ _ _ => exact absurd h id
  | error m => exact h
  | _ => trivial

/-- and says nothing of the pool. -/
theorem Placid.actOf_eq {e : Event} (h : Placid e) : actOf c e = none := by
  cases e with
  | alloc _ _ _ _ => exact absurd h id
  | erase _ _ _ => exact absurd h id
  | _ => rfl

theorem pool_paths (c : Conf) : Paths (Pool.Path c.sbPages) :=
  ⟨fun _ => .nil, .trans⟩

/-- The pool moves with the events of `m`, and no misalignment is
reported. -/
abbrev Strides (c : Conf) {α : Type} (m : Ftl α) (p : Pool) (s : Ssd)
    (Q : α → Pool → Ssd → Prop) : Prop :=
  Follows (Pool.Path c.sbPages) (actOf c) (InPlace c) m p s Q

section Strides

variable {α β : Type} {m : Ftl α} {f : α → Ftl β}
  {Q : α → Pool → Ssd → Prop} {Q' : β → Pool → Ssd → Prop}

/-- The pool passes on from one part to the next. -/
theorem Strides.bind (hm : Strides c m p s Q)
    (hf : ∀ a p' s', Q a p' s' → Strides c (f a) p' s' Q') :
    Strides c (m >>= f) p s Q' :=
  Follows.bind (pool_paths c) hm hf

theorem Strides.pure {a : α} (h : Q a p s) :
    Strides c (Pure.pure a : Ftl α) p s Q :=
  Follows.pure (pool_paths c) h

/-- A function of the frame leaves the pool alone. -/
theorem Framed.strides (h : Framed c I m) (p : Pool) (s : Ssd) :
    Strides c m p s fun _ p' s' => p = p' ∧ Local c I s s' :=
  Follows.of_sat (pool_paths c) (fun _ => trivial) (h.sat s)
    fun _ hp => ⟨hp.inPlace, hp.actOf_eq⟩

/-- It also keeps the alignment. -/
theorem Framed.strides_aligned (hm : Framed c I m) (h : Aligned c out p s) :
    Strides c m p s fun _ p' s' => Aligned c out p' s' :=
  Follows.mono (hm.strides p s) fun _ _ _ ⟨hp, hl⟩ => hp ▸ h.of_local hl

/-- What remains when the order is forgotten. -/
theorem Strides.quiet (h : Strides c m p s Q) :
    Quiet m s fun a s' => ∃ p', Q a p' s' :=
  h.sat.weaken fun _ => InPlace.noListError

end Strides

-- ======================================================== allocation

/-- One page is handed out, if one is returned, and no block erased. -/
def Announces (c : Conf) (o : Out Ssd Event Fault (Option Nat)) : Prop :=
  o.log.filterMap (actOf c) = match o.res with
    | .ok (some q) => [.give (blockOf c q) (posOf c q)]
    | _ => []

theorem announces_ite {P : Prop} [Decidable P] {m m' : Ftl (Option Nat)}
    {s : Ssd} (h : Announces c (m s)) (h' : Announces c (m' s)) :
    Announces c ((if P then m else m') s) := by
  split
  · exact h
  · exact h'

/-- A first part that says nothing of the pool can be skipped. -/
theorem announces_bind {α : Type} {m : Ftl α} {f : α → Ftl (Option Nat)}
    {s : Ssd} (hm : ∀ e ∈ (m s).log, actOf c e = none)
    (hf : ∀ a s', Announces c (f a s')) : Announces c ((m >>= f) s) := by
  have hnil := List.filterMap_eq_nil_iff.2 hm
  rw [Prog.run_bind]
  cases ho : m s with
  | mk res st log =>
      rw [ho] at hnil
      cases res with
      | error e => exact hnil
      | ok a =>
          have h := hf a st
          unfold Announces at h ⊢
          rw [Prog.andThen_ok, List.filterMap_append, hnil]
          exact h

/-- The page that is returned is the page of the event, provided the search
for a block said nothing. -/
theorem announces_getNewPage (fuel : Nat) (s : Ssd)
    (h : ∀ e ∈ (getEmptyBlock c fuel s).log, actOf c e = none) :
    Announces c (getNewPage c fuel s) := by
  refine announces_bind h fun r s₁ => ?_
  cases r with
  | none => rfl
  | some r =>
      dsimp only
      rw [Prog.run_get_bind]
      cases (s₁.lists.emptyBlockList r).head with
      | none => rfl
      | some e =>
          exact announces_ite (announces_ite rfl rfl)
            (announces_ite rfl (announces_ite rfl rfl))

/-- `GET_NEW_PAGE` hands out the next page of the pool and keeps the
alignment; the page is not in a superblock that was taken out. -/
theorem Geo.getNewPage_strides (g : Geo c) (h : Aligned c out p s)
    (fuel : Nat) :
    Strides c (getNewPage c fuel) p s fun r p' s' =>
      ∃ q, r = some q ∧ NewPage c p s q p' s'
        ∧ q < c.pageMappingEntryNb ∧ blockOf c q ∉ out
        ∧ Aligned c out p' s' ∧ s'.blockStateTable = s.blockStateTable := by
  have hquiet : Sat (fun _ => True) (fun e => actOf c e = none)
      (getEmptyBlock c fuel) s (GotBlock c p s) _ :=
    g.getEmptyBlock_sat h.lists.toRep h.pool
      (fun _ => show actOf c _ = none from rfl) fuel
  have hacts := announces_getNewPage (c := c) fuel s
    (hquiet fun _ _ => trivial).1
  have hsat : Sat (fun _ => True) (InPlace c) (getNewPage c fuel) s _ _ :=
    g.getNewPage_sat h.lists h.pool
      (fun _ => show _ ∉ listErrors by decide) (fun b k p' hn => by
        obtain ⟨hb, hk⟩ := Pool.next_lt h.pool g.sbPages_pos hn
        exact g.pageAt_lt hb hk) fuel
  obtain ⟨hg, hres⟩ := hsat fun _ _ => trivial
  unfold Strides Follows
  rw [hacts]
  refine ⟨hg, ?_⟩
  cases hr : (getNewPage c fuel s).res with
  | error e => exact ⟨p, .nil, nofun⟩
  | ok r =>
      rw [hr] at hres
      obtain ⟨q, p', rfl, b, k, l, hn, rfl, hst, hl⟩ := hres
      obtain ⟨hb, hk⟩ := Pool.next_lt h.pool g.sbPages_pos hn
      refine ⟨p', ?_, ?_⟩
      · show Pool.Path _ p [.give (blockOf c _) (posOf c _)] p'
        rw [blockOf_pageAt hb hk, posOf_pageAt hb hk]
        exact .give .nil hn
      · rintro _ ⟨⟩
        refine ⟨_, rfl, ⟨b, k, l, hn, rfl, hst, hl⟩, g.pageAt_lt hb hk, ?_,
          ?_, ?_⟩
        · rw [blockOf_pageAt hb hk]
          exact (Pool.next_fresh h.pool hn).2
        · rw [hst]
          exact ⟨h.pool.next g.sbPages_pos hn, hl, h.recount, h.totals⟩
        · rw [hst]
          rfl

/-- The same without the order. -/
theorem Geo.getNewPage_aligned (g : Geo c) (h : Aligned c out p s)
    (fuel : Nat) :
    Quiet (getNewPage c fuel) s fun r s' =>
      ∃ q p', r = some q ∧ NewPage c p s q p' s'
        ∧ q < c.pageMappingEntryNb ∧ blockOf c q ∉ out
        ∧ Aligned c out p' s' ∧ s'.blockStateTable = s.blockStateTable :=
  Sat.mono (g.getNewPage_strides h fuel).quiet
    (fun _ _ ⟨p', q, hq⟩ => ⟨q, p', hq⟩) fun _ _ h => h

-- ========================================================= migration

/-- The blocks of superblock `b` have the same states. -/
def SameSb (c : Conf) (b : Nat) (s s' : Ssd) : Prop :=
  ∀ i, i % c.blockNb = b → s'.blockStateTable i = s.blockStateTable i

/-- Migrating a page leaves the superblock it comes from alone: the new
page is elsewhere. -/
theorem Geo.migratePage_strides (g : Geo c) {b : Nat}
    (h : Aligned c [b] p s) (fuel f k : Nat) :
    Strides c (migratePage c fuel f b k) p s fun r p' s' =>
      r = .success ∧ Aligned c [b] p' s' ∧ SameSb c b s s' := by
  refine Strides.bind (g.getNewPage_strides h fuel) ?_
  rintro _ p₁ s₁ ⟨q, rfl, -, hq, hqb, h₁, hs₁⟩
  have hi : blockIndex c (calcFlash c q) (calcBlock c q) % c.blockNb
      ≠ b := by
    rw [g.sized.pageIndex_mod hq]
    simpa using hqb
  refine Strides.bind (Framed.strides
    (framed_copyPage (I := fun i => i % c.blockNb ≠ b) fuel f b k q hi)
    p₁ s₁) ?_
  rintro _ _ s₂ ⟨rfl, h₂⟩
  refine Strides.pure ⟨rfl, h₁.of_local h₂, fun i hib => ?_⟩
  rw [h₂.blocks i (by simpa using hib), hs₁]

theorem SameSb.refl (b : Nat) (s : Ssd) : SameSb c b s s :=
  fun _ _ => rfl

theorem SameSb.trans {b : Nat} {s₁ s₂ s₃ : Ssd} (h₁ : SameSb c b s₁ s₂)
    (h₂ : SameSb c b s₂ s₃) : SameSb c b s₁ s₃ :=
  fun i hi => (h₂ i hi).trans (h₁ i hi)

/-- The states read back are the same. -/
theorem SameSb.entry_eq {b f : Nat} {s' : Ssd} (h : SameSb c b s s')
    (g : Geo c) (hf : f < c.flashNb) (hb : b < c.blockNb) :
    getBlockStateEntry c s' f b = getBlockStateEntry c s f b :=
  h _ (g.sized.blockIndex_mod hf hb)

/-- The loop over the pages of a block migrates those that are valid
when it starts. -/
theorem Geo.migratePages_strides (g : Geo c) {f b : Nat}
    (hf : f < c.flashNb) (hb : b < c.blockNb) (h : Aligned c [b] p s)
    (fuel : Nat) (pages : List Nat) (copied : Nat) :
    Strides c (migratePages c fuel f b pages copied) p s fun r p' s' =>
      r = some (copied + pages.countP fun k =>
          0 < (getBlockStateEntry c s f b).validArray k)
        ∧ Aligned c [b] p' s' ∧ SameSb c b s s' := by
  induction pages generalizing s p copied with
  | nil => exact Strides.pure ⟨rfl, h, SameSb.refl b s⟩
  | cons k pages ih =>
      refine Follows.get_bind ?_
      split
      · next hk =>
          refine Strides.bind (g.migratePage_strides h fuel f k) ?_
          rintro _ p₁ s₁ ⟨rfl, h₁, hs₁⟩
          refine Follows.mono (ih h₁ (copied + 1)) ?_
          rintro r p₂ s₂ ⟨hr, h₂, hs₂⟩
          refine ⟨?_, h₂, hs₁.trans hs₂⟩
          rw [hr, hs₁.entry_eq g hf hb,
            List.countP_cons_of_pos (by simpa using hk)]
          congr 1
          omega
      · next hk =>
          refine Follows.mono (ih h copied) ?_
          rintro r p₂ s₂ ⟨hr, hrest⟩
          refine ⟨?_, hrest⟩
          rw [hr, List.countP_cons_of_neg (by simpa using hk)]

/-- The loop over the blocks: the comparison with `valid_page_nb`
succeeds, so every block is gone through. -/
theorem Geo.migrateBlocks_strides (g : Geo c) {b : Nat}
    (hb : b < c.blockNb) (h : Aligned c [b] p s) (fuel : Nat)
    (fs : List Nat) (hfs : ∀ f ∈ fs, f < c.flashNb) (copied : Nat) :
    Strides c (migrateBlocks c fuel b fs copied) p s fun r p' s' =>
      (∃ n, r = some n) ∧ Aligned c [b] p' s' := by
  induction fs generalizing s p copied with
  | nil => exact Strides.pure ⟨⟨_, rfl⟩, h⟩
  | cons f fs ih =>
      have hf := hfs f (by simp)
      refine Strides.bind (g.migratePages_strides hf hb h fuel _ 0) ?_
      rintro _ p₁ s₁ ⟨rfl, h₁, hs₁⟩
      refine Follows.get_bind ?_
      have heq : (getBlockStateEntry c s₁ f b).validPageNb
          = 0 + (List.range c.pageNb).countP fun k =>
            0 < (getBlockStateEntry c s f b).validArray k := by
        rw [hs₁.entry_eq g hf hb, getBlockStateEntry, h.recount,
          Nat.zero_add]
        rfl
      rw [if_neg (by rw [heq]; simp)]
      exact ih h₁ (fun f' hf' => hfs f' (by simp [hf'])) _

-- ============================================================= erase

/-- The erase command itself changes no block state. -/
theorem within_ssdBlockErase (f b : Nat) :
    Within (Local c I) (fun _ => True) (ssdBlockErase c f b) := by
  refine Within.get_bind fun s => ?_
  refine Within.bind (Local.steps I) (Within.emit (Local.steps I) trivial)
    fun _ => ?_
  refine Within.bind (Local.steps I) (Within.emit (Local.steps I) trivial)
    fun _ => ?_
  exact Within.modify fun _ => ⟨rfl, fun _ _ => rfl, id, id⟩

/-- The pool when the blocks of superblock `b` on the first `n` flashes
are erased. -/
def freed (c : Conf) (b n : Nat) (p : Pool) : Pool :=
  if n = c.flashNb then p.release b else p

/-- Erasing the block of the last flash is what frees the superblock: only
then does the pool change. -/
theorem ssdBlockErase_strides {b : Nat} (hb : b ∉ p.blocks) (f : Nat)
    (s : Ssd) :
    Strides c (ssdBlockErase c f b) p s fun _ p' s' =>
      p' = freed c b (f + 1) p ∧ Local c anyBlock s s' := by
  refine Follows.get_bind ?_
  refine Strides.bind ((framed_io (I := anyBlock) _).strides p s) ?_
  rintro _ _ s₁ ⟨rfl, h₁⟩
  refine Strides.bind
    (Q := fun _ p' s' => p' = freed c b (f + 1) p ∧ s' = s₁) ?_ ?_
  · refine Follows.emit trivial ?_ ⟨rfl, rfl⟩
    simp only [actOf, freed]
    split
    · exact .free .nil hb
    · exact .nil
  · rintro _ _ _ ⟨rfl, rfl⟩
    exact Follows.modify (pool_paths c) ⟨rfl, (Local.steps _).trans h₁
      ⟨rfl, fun _ _ => rfl, id, id⟩⟩

/-- The erase loop returns the superblock to the pool. -/
theorem Geo.erase_strides (g : Geo c) {b : Nat} (h : Aligned c [b] p s) :
    Strides c (Prog.each (eraseBlock c b) (List.range c.flashNb)) p s
      fun _ p' s' => Aligned c [] p' s' := by
  have hlen := PoolOk.length_le h.pool
  have hblk := g.sized.blockNb_le
  have htot := g.total
  have hpos := g.flash_pos
  have hout : b ∉ p.blocks := h.pool.out_not_mem List.mem_cons_self
  simp only [List.length_singleton] at hlen
  -- flash by flash; the pool gets the superblock back with the last
  refine Follows.mono (Follows.each_range (pool_paths c)
    (fun n p' s' => p' = freed c b n p
      ∧ (Recount c s' ∧ Totals c s'.nvram) ∧ ∃ t,
    Table.Upto (rootOf c (p.release b)) n s.lists.emptyBlockList t
    ∧ s'.lists = { s.lists with
        emptyBlockList := t
        totalEmptyBlockNb := s.lists.totalEmptyBlockNb + n })
    ?_ ⟨(if_neg (Nat.ne_of_lt hpos)).symm, ⟨h.recount, h.totals⟩, _,
      Table.Upto.zero _ _, by simp⟩) ?_
  · rintro f _ s₁ hf ⟨rfl, ⟨hr, hn⟩, t, ht, hl⟩
    have hfree : freed c b f p = p := if_neg (Nat.ne_of_lt hf)
    rw [hfree]
    refine Strides.bind (ssdBlockErase_strides hout f s₁) ?_
    rintro _ _ s₂ ⟨rfl, h₂⟩
    refine Strides.bind (Framed.strides (I := anyBlock)
      (framed_updateBlockState f b .emptyBlock trivial) _ s₂) ?_
    rintro _ _ s₃ ⟨rfl, h₃⟩
    have hl₃ : s₃.lists = s₁.lists := h₃.lists.trans h₂.lists
    refine Follows.modify (pool_paths c) ⟨rfl,
      ⟨h₃.recount (h₂.recount hr), h₃.totals (h₂.totals hn)⟩, _, ht.set, ?_⟩
    have hroot : s₃.lists.emptyBlockList f = rootOf c p f := by
      rw [hl₃, hl]
      exact (ht.get_ge (Nat.le_refl f)).trans (h.lists.roots f hf)
    simp only [g.insertEmptyBlock_eq hroot (by omega)]
    rw [hl₃, hl]
    simp only [Nat.cast_add, Nat.cast_one, Int.add_assoc]
  · rintro _ _ s₁ ⟨rfl, ⟨hr, hn⟩, t, ht, hl⟩
    rw [freed, if_pos rfl]
    exact ⟨h.pool.release, hl ▸ h.lists.release ht, hr, hn⟩

-- ======================================================== collection

/-- A selection takes its victim out of the pool. -/
theorem Geo.selectVictimSuperblock_strides (g : Geo c)
    (h : Aligned c [] p s) :
    Strides c (selectVictimSuperblock c) p s fun r p' s' =>
      (∀ b, r = some b → b < c.blockNb) ∧ Aligned c r.toList p' s' := by
  have hsel : Sat (fun _ => True) Placid (selectVictimSuperblock c) s
      (Selected c p s) fun _ _ => True :=
    g.selectVictimSuperblock_sat h.lists h.pool h.recount fun _ =>
      ⟨show _ ∉ listErrors by decide, show _ ∉ listErrors by decide⟩
  refine Follows.after (pool_paths c) (Follows.of_sat (pool_paths c)
    (fun _ => trivial) hsel fun _ hp => ⟨hp.inPlace, hp.actOf_eq⟩) ?_
  rintro r _ s₁ ⟨rfl, hr⟩
  cases r with
  | none =>
      obtain ⟨-, t, rfl⟩ := hr
      exact ⟨p, .nil, nofun, h.pool, h.lists, h.recount, h.totals⟩
  | some b =>
      obtain ⟨i, l, hi, rfl, hl, -⟩ := hr
      have hmem : b ∈ p.full := List.mem_of_getElem? hi
      refine ⟨p.eject i, .eject i .nil, ?_, h.pool.eject hi, hl, h.recount,
        h.totals⟩
      rintro _ ⟨⟩
      exact h.pool.lt_of_mem (by simp [Pool.blocks, hmem])

/-- The collector's report is an event. -/
theorem framed_reportCollect (b : Nat) : Framed c I (reportCollect c b) :=
  Within.get_bind fun _ => Within.emit (Local.steps _) trivial

theorem framed_readVictimOob (b : Nat) : Framed c I (readVictimOob c b) :=
  Within.get_bind fun _ => Within.ite (framed_io _) (framed_pure _)

/-- One collection: the victim leaves the lists, its pages go elsewhere, its
blocks are erased and it comes back. -/
theorem Geo.sbGarbageCollection_strides (g : Geo c)
    (h : Aligned c [] p s) (fuel : Nat) :
    Strides c (sbGarbageCollection c fuel) p s fun _ p' s' =>
      Aligned c [] p' s' := by
  refine Strides.bind (g.selectVictimSuperblock_strides h) ?_
  rintro r p₁ s₁ ⟨hb, h₁⟩
  cases r with
  | none => exact Strides.pure h₁
  | some b =>
      refine Strides.bind
        ((framed_reportCollect (I := anyBlock) b).strides_aligned h₁) ?_
      intro _ p₀ s₀ h₀
      refine Strides.bind
        ((framed_readVictimOob (I := anyBlock) b).strides_aligned h₀) ?_
      intro _ p₂ s₂ h₂
      refine Strides.bind ((framed_updateNvramOob (I := anyBlock) b
        false).strides_aligned h₂) ?_
      intro _ p₃ s₃ h₃
      rw [g.sbBlkNb]
      refine Strides.bind
        (g.migrateBlocks_strides (hb b rfl) h₃ fuel _ (by simp) 0) ?_
      rintro _ p₄ s₄ ⟨⟨n, rfl⟩, h₄⟩
      refine Follows.modify_bind ?_
      refine Strides.bind (g.erase_strides
        ⟨h₄.pool, h₄.lists, h₄.recount, h₄.totals⟩) ?_
      intro _ p₅ s₅ h₅
      exact Follows.modify_bind (Strides.pure
        ⟨h₅.pool, h₅.lists, h₅.recount, h₅.totals⟩)

theorem Geo.gcCheckLoop_strides (g : Geo c) (h : Aligned c [] p s)
    (fuel rounds : Nat) :
    Strides c (gcCheckLoop c fuel rounds) p s fun _ p' s' =>
      Aligned c [] p' s' := by
  induction rounds generalizing s p with
  | zero => exact Follows.fault (pool_paths c) _
  | succ rounds ih =>
      refine Follows.get_bind ?_
      split
      · refine Strides.bind (g.sbGarbageCollection_strides h fuel) ?_
        intro r p₁ s₁ h₁
        cases r with
        | fail => exact Strides.pure h₁
        | success =>
            exact Follows.modify_bind (ih ⟨h₁.pool, h₁.lists, h₁.recount,
              h₁.totals⟩)
      · exact Strides.pure h

-- ===================================================== host commands

/-- Some pool is in the lists, with nothing taken out. -/
def AllAligned (c : Conf) (s : Ssd) : Prop := ∃ p, Aligned c [] p s

theorem AllAligned.of_local (h : AllAligned c s) (hl : Local c I s s') :
    AllAligned c s' := by
  obtain ⟨p, hp⟩ := h
  exact ⟨p, hp.of_local hl⟩

/-- A function of the frame keeps the alignment. -/
theorem Framed.aligned {α : Type} {m : Ftl α} (hm : Framed c I m)
    (h : AllAligned c s) : Quiet m s fun _ s' => AllAligned c s' :=
  Sat.mono (hm.quiet s) (fun _ _ hl => h.of_local hl) fun _ _ h => h

/-- A page that is not to be had is a fault, never a refusal. -/
theorem Geo.programPage_strides (g : Geo c) (h : Aligned c [] p s)
    (fuel : Nat) (info : LpnInfo) (slot : Slot) :
    Strides c (programPage c fuel info slot) p s fun r p' s' =>
      r ≠ none ∧ Aligned c [] p' s' := by
  refine Strides.bind (g.getNewPage_strides h fuel) ?_
  rintro _ p₁ s₁ ⟨q, rfl, -, -, -, h₁, -⟩
  refine Strides.bind ((framed_storePage info slot q).strides_aligned h₁) ?_
  intro _ p₂ s₂ h₂
  exact Strides.pure ⟨Option.some_ne_none q, h₂⟩

theorem framed_askRemap (info : LpnInfo) (hPpn : Option Nat) :
    Framed c I (askRemap c info hPpn) := by
  refine Within.ite ?_ (framed_pure _)
  cases hPpn with
  | none => exact framed_pure _
  | some p => exact framed_useRemap _

/-- A remap at the host's hint allocates nothing. -/
theorem framed_remapHinted (info : LpnInfo) (hPpn : Option Nat)
    (lpn : Nat) : Framed c anyBlock (remapHinted c info hPpn lpn) :=
  Within.ite (framed_remapLpn _ _ _ _ _)
    (Within.ite (framed_remapLpn _ _ _ _ _) (framed_remapLpn _ _ _ _ _))

/-- A page is remapped, within the frame, or programmed, which takes a page of
the pool. -/
theorem Geo.writePage_strides (g : Geo c) (h : Aligned c [] p s)
    (fuel : Nat) (info : LpnInfo) (slot : Slot) (newPpn : Option Nat) :
    Strides c (writePage c fuel info slot newPpn) p s
      fun _ p' s' => Aligned c [] p' s' := by
  refine Follows.get_bind ?_
  refine Strides.bind
    ((framed_askRemap (I := anyBlock) _ _).strides_aligned h) ?_
  intro r p₁ s₁ h₁
  cases r with
  | success =>
      refine Strides.bind ((framed_remapHinted _ _ _).strides_aligned h₁) ?_
      intro _ p₂ s₂ h₂
      exact Strides.pure h₂
  | fail =>
      refine Strides.bind (g.programPage_strides h₁ fuel info slot) ?_
      rintro r p₂ s₂ ⟨-, h₂⟩
      cases r with
      | none => exact Strides.pure h₂
      | some q => exact Strides.pure h₂

theorem Geo.writePages_strides (g : Geo c) (h : Aligned c [] p s)
    (fuel : Nat) (info : Nat → LpnInfo) (l : List Slot) (i : Nat)
    (newPpn : Option Nat) :
    Strides c (writePages c fuel info l i newPpn) p s
      fun _ p' s' => Aligned c [] p' s' := by
  induction l generalizing s p i newPpn with
  | nil => exact Strides.pure h
  | cons slot l ih =>
      refine Strides.bind (g.writePage_strides h fuel _ slot newPpn) ?_
      intro r p₁ s₁ h₁
      cases r with
      | none => exact Strides.pure h₁
      | some q => exact ih h₁ _ _

theorem Geo.gcCheckAfter_strides (g : Geo c) (h : Aligned c [] p s)
    (fuel : Nat) (q : Option Nat) :
    Strides c (gcCheckAfter c fuel q) p s
      fun _ p' s' => Aligned c [] p' s' := by
  cases q with
  | none => exact Strides.pure h
  | some q =>
      rw [gcCheckAfter]
      split
      · refine Strides.bind (g.gcCheckLoop_strides h fuel fuel) ?_
        intro _ p₁ s₁ h₁
        exact Follows.get_bind
          (Follows.emit trivial .nil h₁)
      · exact Strides.pure h

theorem Geo.ftlWrite_strides (g : Geo c) (h : Aligned c [] p s)
    (fuel : Nat) (req : RequestMeta) :
    Strides c (ftlWrite c fuel req) p s
      fun _ p' s' => Aligned c [] p' s' := by
  unfold ftlWrite
  split
  · exact Strides.bind ((framed_printError (I := anyBlock)
      (by decide)).strides_aligned h) fun _ _ _ h₁ => Strides.pure h₁
  · refine Strides.bind (g.writePages_strides h fuel _ _ 0 none) ?_
    intro r p₁ s₁ h₁
    cases r with
    | none => exact Strides.pure h₁
    | some q =>
        exact Strides.bind (g.gcCheckAfter_strides h₁ fuel q)
          fun _ _ _ h₂ => Strides.pure h₂

/-- One page of a remap: redirected, or refused and written. -/
theorem Geo.remapPage_strides (g : Geo c) (h : Aligned c [] p s)
    (fuel : Nat) (ope : RemapOpe) (sLpn dLpn : Nat) :
    Strides c (remapPage c fuel ope sLpn dLpn) p s
      fun _ p' s' => Aligned c [] p' s' := by
  refine Follows.get_bind ?_
  refine Strides.bind
    ((framed_useRemap (I := anyBlock) _).strides_aligned h) ?_
  intro r p₁ s₁ h₁
  cases r with
  | success => exact (framed_remapLpn _ _ _ _ _).strides_aligned h₁
  | fail =>
      refine Strides.bind (g.ftlWrite_strides h₁ fuel _) ?_
      intro _ p₂ s₂ h₂
      exact (framed_unmapSource _).strides_aligned h₂

theorem Geo.remapPages_strides (g : Geo c) (h : Aligned c [] p s)
    (fuel : Nat) (ope : RemapOpe) (remain sLpn dLpn : Nat) :
    Strides c (remapPages c fuel ope remain sLpn dLpn) p s
      fun _ p' s' => Aligned c [] p' s' := by
  induction remain generalizing s p sLpn dLpn with
  | zero => exact Strides.pure h
  | succ remain ih =>
      exact Strides.bind (g.remapPage_strides h fuel ope sLpn dLpn)
        fun _ _ _ h₁ => ih h₁ _ _

/-- A discard invalidates pages and allocates none. -/
theorem framed_femuDiscardProcess (length sectorNb : Nat) :
    Framed c anyBlock (femuDiscardProcess c length sectorNb) := by
  refine Within.ite (framed_bind (framed_printError (by decide))
    fun _ => framed_pure _) (framed_bind ?_ fun _ => framed_pure _)
  exact Within.each (Local.steps _) (fun slot => framed_bind
    (framed_printErrorIf (by decide)) fun _ => framed_unmapLpn _) _

theorem Geo.exec_strides (g : Geo c) (h : Aligned c [] p s) (fuel : Nat)
    (cmd : Cmd) :
    Strides c (exec c fuel cmd) p s fun _ p' s' => Aligned c [] p' s' := by
  cases cmd with
  | write req =>
      exact Strides.bind (g.ftlWrite_strides h fuel req)
        fun _ _ _ h₁ => Strides.pure h₁
  | remap srcLpn dstLpn len ope =>
      refine Strides.bind (Q := fun _ p' s' => Aligned c [] p' s') ?_
        fun _ _ _ h₁ => Strides.pure h₁
      unfold ssdRemap
      split
      · exact Strides.bind ((framed_printError (I := anyBlock)
          (by decide)).strides_aligned h) fun _ _ _ h₁ => Strides.pure h₁
      · exact Strides.bind (g.remapPages_strides h fuel _ _ _ _)
          fun _ _ _ h₁ => Strides.pure h₁
  | discard length sectorNb =>
      exact Strides.bind
        ((framed_femuDiscardProcess _ _).strides_aligned h)
        fun _ _ _ h₁ => Strides.pure h₁

section Unordered

variable (g : Geo c) (h : AllAligned c s) (fuel : Nat)
include g h

/-- Programming a page always finds one. -/
theorem Geo.programPage_aligned (info : LpnInfo) (slot : Slot) :
    Quiet (programPage c fuel info slot) s fun r s' =>
      r ≠ none ∧ AllAligned c s' := by
  obtain ⟨p, hp⟩ := h
  exact Sat.mono (g.programPage_strides hp fuel info slot).quiet
    (fun _ _ ⟨p', hr, h'⟩ => ⟨hr, p', h'⟩) fun _ _ h => h

theorem Geo.writePages_aligned (info : Nat → LpnInfo) (l : List Slot)
    (i : Nat) (newPpn : Option Nat) :
    Quiet (writePages c fuel info l i newPpn) s
      fun _ s' => AllAligned c s' := by
  obtain ⟨p, hp⟩ := h
  exact (g.writePages_strides hp fuel info l i newPpn).quiet

theorem Geo.remapPage_aligned (ope : RemapOpe) (sLpn dLpn : Nat) :
    Quiet (remapPage c fuel ope sLpn dLpn) s
      fun _ s' => AllAligned c s' := by
  obtain ⟨p, hp⟩ := h
  exact (g.remapPage_strides hp fuel ope sLpn dLpn).quiet

theorem Geo.sbGarbageCollection_aligned :
    Quiet (sbGarbageCollection c fuel) s fun _ s' => AllAligned c s' := by
  obtain ⟨p, hp⟩ := h
  exact (g.sbGarbageCollection_strides hp fuel).quiet

/-- A whole command keeps the lists aligned, with the pool left out. -/
theorem Geo.exec_aligned (cmd : Cmd) :
    Quiet (exec c fuel cmd) s fun _ s' => AllAligned c s' := by
  obtain ⟨p, hp⟩ := h
  exact (g.exec_strides hp fuel cmd).quiet

end Unordered

-- ============================================================== runs

/-- The block numbers root `f` holds: empty, active, victim. -/
def rootBlocks (l : BlockLists) (f : Nat) : List Nat :=
  (l.emptyBlockList f).emptyHead.map EmptyBlock.phyBlockNb
    ++ (l.emptyBlockList f).head.toList.map EmptyBlock.phyBlockNb
    ++ (l.victimBlockList f).entries.map VictimBlock.phyBlockNb

/-- Every block is in one place, the superblocks are aligned across the
roots, and the counts are those of the lists. -/
structure BlocksInPlace (c : Conf) (l : BlockLists) : Prop where
  /-- Each block of flash `f` is in exactly one list of its root. -/
  once : ∀ f, f < c.flashNb →
    (rootBlocks l f).Perm (List.range c.blockNb)
  /-- What a root holds are blocks of its flash. -/
  flash : ∀ f, f < c.flashNb →
    (∀ e ∈ (l.emptyBlockList f).emptyHead, e.phyFlashNb = f)
      ∧ (∀ e ∈ (l.emptyBlockList f).head, e.phyFlashNb = f)
      ∧ ∀ v ∈ (l.victimBlockList f).entries, v.phyFlashNb = f
  empties : ∀ f, f < c.flashNb →
    (l.emptyBlockList f).emptyHead.map EmptyBlock.phyBlockNb
      = (l.emptyBlockList 0).emptyHead.map EmptyBlock.phyBlockNb
  heads : ∀ f, f < c.flashNb →
    (l.emptyBlockList f).head.map EmptyBlock.phyBlockNb
      = (l.emptyBlockList 0).head.map EmptyBlock.phyBlockNb
  victims : ∀ f, f < c.flashNb →
    (l.victimBlockList f).entries.map VictimBlock.phyBlockNb
      = (l.victimBlockList 0).entries.map VictimBlock.phyBlockNb
  emptyNb : ∀ f, f < c.flashNb → (l.emptyBlockList f).emptyBlockNb
    = (l.emptyBlockList f).emptyHead.length
  victimNb : ∀ f, f < c.flashNb → (l.victimBlockList f).victimBlockNb
    = (l.victimBlockList f).entries.length
  totalVictim : l.totalVictimBlockNb = (((List.range c.flashNb).map
    fun f => (l.victimBlockList f).entries.length).sum : Nat)
  totalEmpty : l.totalEmptyBlockNb = (((List.range c.flashNb).map
    fun f => (l.emptyBlockList f).emptyHead.length
      + (l.emptyBlockList f).head.toList.length).sum : Nat)

/-- A sum over the roots of something that is the same in all. -/
theorem sum_roots {f : Nat → Nat} {n m : Nat}
    (h : ∀ i, i < n → f i = m) :
    ((List.range n).map f).sum = n * m := by
  have : (List.range n).map f = (List.range n).map fun _ => m :=
    List.map_congr_left fun i hi => h i (List.mem_range.1 hi)
  simp [this]

/-- What the alignment says of the lists, in the terms of the lists alone. -/
theorem Geo.blocksInPlace (g : Geo c) (h : AllAligned c s) :
    BlocksInPlace c s.lists := by
  obtain ⟨p, h⟩ := h
  have hr := h.lists.roots
  have hv := h.lists.victims
  have h0 := g.flash_pos
  refine
    { once := fun f hf => ?_
      flash := fun f hf => ?_
      empties := fun f hf => ?_
      heads := fun f hf => ?_
      victims := fun f hf => ?_
      emptyNb := fun f hf => ?_
      victimNb := fun f hf => ?_
      totalVictim := ?_
      totalEmpty := ?_ }
  · -- the lists of one flash, read in order, are the pool's blocks
    have hb : rootBlocks s.lists f = p.blocks := by
      simp only [rootBlocks, hr f hf, hv f hf, rootOf, victimRootOf,
        Pool.blocks, Pool.current, List.map_map]
      cases p.active <;> simp [Function.comp_def]
    rw [hb]
    simpa using h.pool.places
  · rw [hr f hf, hv f hf]
    refine ⟨?_, ?_, ?_⟩
    · intro e he
      simp only [rootOf, List.mem_map] at he
      obtain ⟨b, -, rfl⟩ := he
      rfl
    · intro e he
      simp only [rootOf, Option.mem_def, Option.map_eq_some_iff] at he
      obtain ⟨a, -, rfl⟩ := he
      rfl
    · intro v hv'
      simp only [victimRootOf, List.mem_map] at hv'
      obtain ⟨b, -, rfl⟩ := hv'
      rfl
  · rw [hr f hf, hr 0 h0]
    simp [rootOf, Function.comp_def]
  · rw [hr f hf, hr 0 h0]
    simp [rootOf, Function.comp_def]
  · rw [hv f hf, hv 0 h0]
    simp [victimRootOf, Function.comp_def]
  · rw [hr f hf]
    simp [rootOf]
  · rw [hv f hf]
    simp [victimRootOf]
  · rw [h.lists.totalVictim, sum_roots (m := p.full.length)]
    intro f hf
    simp [hv f hf, victimRootOf]
  · rw [h.lists.totalEmpty,
      sum_roots (m := p.empty.length + p.current.length)]
    intro f hf
    rw [hr f hf]
    simp only [rootOf, List.length_map, Pool.current]
    cases p.active <;> simp

/-- In every state between requests each block is in exactly one list
of its root, the roots agree on the superblocks, and the counts are
right. No command reports a misalignment, not even one that fails. -/
theorem blocks_in_place (g : Geo c) {tr : List Event}
    (h : Reach c s tr) :
    BlocksInPlace c s.lists ∧ (∀ e ∈ tr, NoListError e)
      ∧ ∀ fuel cmd, ∀ e ∈ (exec c fuel cmd s).log, NoListError e := by
  have hstep : ∀ s fuel cmd, AllAligned c s → InRange c cmd →
      Sat (fun _ => True) NoListError (exec c fuel cmd) s
        (fun _ s' => AllAligned c s') fun _ _ => True :=
    fun s fuel cmd h _ => g.exec_aligned h fuel cmd
  obtain ⟨ha, hg⟩ := Reach.invariant ⟨_, g.aligned_init⟩ hstep h
    fun _ _ => trivial
  refine ⟨g.blocksInPlace ha, hg, fun fuel cmd => ?_⟩
  exact (g.exec_aligned ha fuel cmd fun _ _ => trivial).1

theorem blocks_in_place_tiny : BlocksInPlace tinyConf tinyOut.st.lists :=
  (blocks_in_place tinyConf_geo tinyOut_reach).1

end FemuRemap
