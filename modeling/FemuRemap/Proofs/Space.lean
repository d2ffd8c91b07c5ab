/-
Counting pages. `stat_ppn_free` is the room of the pool, and a device
with spare space always has a superblock worth collecting.

# The count

All pages are free, live or invalid. The free ones are the room, and a
live page has an lpn of its own. If few pages are free and few lpns
exist, more pages are invalid than the active superblock has, so one of
them is in a full superblock.
-/
import FemuRemap.Proofs.Collect

namespace FemuRemap

open Lib

variable {c : Conf} {p p' : Pool} {s s' : Ssd} {b : Nat}

/-- The pages, superblock by superblock in allocation order. -/
theorem Geo.tally_pages (g : Geo c) (f : Nat → Nat) :
    tally c.pageMappingEntryNb f
      = tally c.blockNb fun b => tally c.sbPages fun k =>
          f (pageAt c b k) :=
  tally_rows (blockOf c) (posOf c) (pageAt c)
    (fun _ hq => ⟨g.sized.blockOf_lt _, g.posOf_lt hq, g.pageAt_of hq⟩)
    fun _ _ hb hk => ⟨g.pageAt_lt hb hk, blockOf_pageAt hb hk,
      posOf_pageAt hb hk⟩

/-- A sum over the superblocks, by their place in the pool. -/
theorem tally_pool (h : PoolOk c [] p) (f : Nat → Nat) :
    tally c.blockNb f = (p.empty.map f).sum + (p.current.map f).sum
      + (p.full.map f).sum := by
  have hperm : p.blocks.Perm (List.range c.blockNb) := h.places
  rw [← sum_range, ← (hperm.map f).sum_eq, Pool.blocks, List.map_append,
    List.map_append, List.sum_append, List.sum_append]

theorem sum_map_const {l : List Nat} {f : Nat → Nat} {k : Nat}
    (h : ∀ x ∈ l, f x = k) : (l.map f).sum = k * l.length := by
  rw [List.map_congr_left h, List.map_const',
    List.sum_replicate_nat, Nat.mul_comm]

/-- `stat_ppn_free` is the room of the pool. -/
theorem Geo.ppnFree_eq (g : Geo c) {D : Nat → Prop}
    (h : Pages c p [] none D s) : s.stat.ppnFree = p.room c.sbPages := by
  have hfree : ∀ b k, b < c.blockNb → k < c.sbPages →
      (s.valid c (pageAt c b k) = 0 ↔ ¬ p.Used b k) := by
    intro b k hb hk
    rw [h.fresh _ (g.pageAt_lt hb hk), Used, blockOf_pageAt hb hk,
      posOf_pageAt hb hk]
    simp
  have hlt : ∀ b ∈ p.blocks, b < c.blockNb := fun b hb =>
    h.pool.lt_of_mem (by simpa using hb)
  have hempty : ∀ b ∈ p.empty, tally c.sbPages
      (fun k => ind (s.valid c (pageAt c b k) = 0)) = c.sbPages := by
    intro b hb
    have hb' := hlt b (by simp [Pool.blocks, hb])
    refine (tally_congr (f := fun _ => 1) fun k hk => ind_true ?_).trans
      (by rw [tally_const, Nat.mul_one])
    refine (hfree b k hb' hk).2 ?_
    rintro (hf | ⟨m, ha, -⟩)
    · exact (h.pool.full_disjoint hf).2.1 hb
    · exact h.pool.empty_not_current hb (by simp [Pool.current, ha])
  have hfull : ∀ b ∈ p.full, tally c.sbPages
      (fun k => ind (s.valid c (pageAt c b k) = 0)) = 0 := by
    intro b hb
    have hb' := hlt b (by simp [Pool.blocks, hb])
    exact tally_eq_zero fun k hk => ind_false fun h0 =>
      (hfree b k hb' hk).1 h0 (.inl hb)
  -- summed over the pool: all pages of an empty superblock, none of a full
  -- one, and of the active one those not handed out
  rw [h.stats.free, g.tally_pages, tally_pool h.pool, sum_map_const hempty,
    sum_map_const hfull, Nat.zero_mul, Nat.add_zero, Pool.room]
  congr 1
  cases ha : p.active with
  | none => simp [Pool.current, Pool.left, ha]
  | some a =>
      obtain ⟨b, m⟩ := a
      have hb' := hlt b (by simp [Pool.blocks, Pool.current, ha])
      have hm := (h.pool.room b m ha).2
      have hfrom := tally_from hm
      simp only [Pool.current, Pool.left, ha, Option.map_some,
        Option.toList_some, List.map_singleton, List.sum_singleton]
      refine (tally_congr (f := fun k => ind (m ≤ k)) fun k hk =>
        ind_congr ?_).trans (by omega)
      rw [hfree b k hb' hk]
      constructor
      · intro hu
        exact Nat.not_lt.1 fun hlt => hu (.inr ⟨m, ha, hlt⟩)
      · rintro hle (hf | ⟨m', ha', hlt⟩)
        · exact (h.pool.full_disjoint hf).2.2
            (by simp [Pool.current, ha])
        · rw [ha] at ha'
          cases ha'
          omega

-- ============================================================= victims

/-- A page that is not live leaves something to gain. -/
theorem Geo.livePages_lt (g : Geo c) (h : Recount c s) {q : Nat}
    (hq : q < c.pageMappingEntryNb) (hv : s.valid c q ≤ 0) :
    livePages c s (blockOf c q) < c.sbPages := by
  have hb := g.sized.blockOf_lt q
  have hcount : ∀ f, f < c.flashNb →
      (getBlockStateEntry c s f (blockOf c q)).validPageNb
        = (List.range c.pageNb).countP (LiveAt c s f (blockOf c q)) :=
    fun f hf => (g.countP_liveAt h hf hb).symm
  unfold livePages Conf.sbPages
  rw [sum_range, Nat.mul_comm]
  refine tally_lt (fun f hf => ?_) (flashOf_lt hq) ?_
  · rw [hcount f hf]
    exact (List.countP_le_length).trans_eq List.length_range
  · rw [hcount _ (flashOf_lt hq)]
    refine Nat.lt_of_le_of_ne
      ((List.countP_le_length).trans_eq List.length_range) fun heq => ?_
    have hall := List.countP_eq_length.1 (heq.trans List.length_range.symm)
    have hlive := hall (pageOf c q) (List.mem_range.2 (g.sized.pageOf_lt q))
    simp only [decide_eq_true_eq, LiveAt, ppnAt_of] at hlive
    omega

/-- Every page is free, live or invalid. -/
theorem Pages.total {out : List Nat} {H : Option Nat} {D : Nat → Prop}
    (h : Pages c p out H D s) :
    s.stat.ppnFree + s.stat.ppnValid + s.stat.ppnInvalid
      = c.pageMappingEntryNb := by
  rw [h.stats.free, h.stats.live, h.stats.invalid, ← tally_add,
    ← tally_add]
  refine (tally_congr (f := fun _ => 1) fun q hq => ?_).trans
    (by rw [tally_const, Nat.mul_one])
  have := h.lower q hq
  unfold ind
  split_ifs <;> omega

/-- There are no more live pages than lpns. -/
theorem Tracked.ppnValid_le (h : Sound c p s) {M : Nat}
    (hM : ∀ L q, s.mappingTable L = some q → L < M) :
    s.stat.ppnValid ≤ M := by
  -- a live page goes to the first lpn of its list
  have hhead : ∀ q, q < c.pageMappingEntryNb → 0 < s.valid c q →
      s.mappingTable ((s.refs q).headD 0) = some q := by
    intro q hq hv
    cases hl : s.refs q with
    | nil =>
        have := h.pages.dead q hq id hl
        omega
    | cons L l => exact (h.maps.mem_iff hq).1 (by simp [hl])
  rw [h.pages.stats.live]
  refine (tally_ind_le (k := M) (Q := fun _ => True)
    (fun q => (s.refs q).headD 0) (fun q hq hv => ⟨hM _ q (hhead q hq hv),
      trivial⟩) fun q q' hq hq' hv hv' heq => ?_).trans ?_
  · have h₁ := hhead q hq hv
    have h₂ := hhead q' hq' hv'
    rw [heq, h₂] at h₁
    exact (Option.some.inj h₁).symm
  · exact (tally_le fun _ _ => ind_le _).trans_eq (Nat.mul_one M)

/-- With few free pages and few lpns, a full superblock has a page to
gain. -/
theorem Geo.exists_victim (g : Geo c) (h : Sound c p s) {M : Nat}
    (hM : ∀ L q, s.mappingTable L = some q → L < M)
    (hroom : M + p.room c.sbPages + c.sbPages < c.pageMappingEntryNb) :
    ∃ b ∈ p.full, livePages c s b < c.sbPages := by
  by_contra hno
  have hfull : ∀ b ∈ p.full, ¬ livePages c s b < c.sbPages :=
    fun b hb hlt => hno ⟨b, hb, hlt⟩
  -- so the invalid pages are all in the active superblock
  have hactive : ∀ q, q < c.pageMappingEntryNb → s.valid c q = -1 →
      some (blockOf c q) = p.active.map Prod.fst := by
    intro q hq hv
    have hu : Used c p [] q := by
      by_contra hu
      have := (h.pages.fresh q hq).2 (.inl hu)
      omega
    rcases hu with (hf | ⟨m, ha, -⟩) | hout
    · exact absurd (g.livePages_lt h.pages.recount hq (by omega))
        (hfull _ hf)
    · rw [ha]
      rfl
    · exact absurd hout (by simp)
  have hinv : s.stat.ppnInvalid ≤ c.sbPages := by
    rw [h.pages.stats.invalid]
    refine (tally_ind_le (k := c.sbPages) (Q := fun _ => True) (posOf c)
      (fun q hq _ => ⟨g.posOf_lt hq, trivial⟩)
      fun q q' hq hq' hv hv' heq => ?_).trans ?_
    · have hblock : blockOf c q = blockOf c q' := Option.some.inj
        ((hactive q hq hv).trans (hactive q' hq' hv').symm)
      rw [← g.pageAt_of hq, ← g.pageAt_of hq', hblock, heq]
    · exact (tally_le fun _ _ => ind_le _).trans_eq (Nat.mul_one _)
  have htotal := h.pages.total
  have hfree := g.ppnFree_eq h.pages
  have hlive := h.ppnValid_le hM
  omega

end FemuRemap
