/-
A successful collection is an exact relocation, read off `Relocated` in
terms of the tables: where the live pages went, which lpns followed, what
is left of the superblock.
-/
import FemuRemap.Proofs.Agreement

namespace FemuRemap

open Lib

variable {c : Conf} {p p' : Pool} {s s' : Ssd} {tr log : List Event}
  {b : Nat} {ρ : Nat → Nat} {l : List (Nat × Nat)}

-- ========================================================= counting live

/-- The live pages of superblock `b`. -/
def liveList (c : Conf) (s : Ssd) (b : Nat) : List Nat :=
  (List.range c.pageMappingEntryNb).filter fun q =>
    blockOf c q = b ∧ 0 < s.valid c q

/-- The positions of a superblock, flash by flash. -/
theorem Geo.tally_positions (g : Geo c) (f : Nat → Nat) :
    tally c.sbPages f = tally c.flashNb fun i =>
      tally c.pageNb fun k => f (k * c.flashNb + i) := by
  refine tally_rows (fun x => x % c.flashNb) (fun x => x / c.flashNb)
    (fun i k => k * c.flashNb + i) (fun x hx => ?_) fun i k hi hk => ?_
  · exact ⟨g.pos_mod_lt x, pos_div_lt hx, Nat.div_add_mod' x c.flashNb⟩
  · exact ⟨pos_lt hi hk, pos_mod hi k, g.pos_div hi k⟩

/-- `valid_page_nb` summed over a superblock counts its live pages. -/
theorem Geo.length_liveList (g : Geo c) (h : Recount c s)
    (hb : b < c.blockNb) : (liveList c s b).length = livePages c s b := by
  have hpage : ∀ i k, i < c.flashNb → k < c.pageNb →
      pageAt c b (k * c.flashNb + i) = ppnAt c i b k := by
    intro i k hi hk
    unfold pageAt
    rw [pos_mod hi, g.pos_div hi]
  have hrow : ∀ d, d < c.blockNb → tally c.sbPages (fun k =>
      ind (blockOf c (pageAt c d k) = b ∧ 0 < s.valid c (pageAt c d k)))
      = if d = b then livePages c s b else 0 := by
    intro d hd
    by_cases hdb : d = b
    · subst hdb
      rw [if_pos rfl, g.tally_positions, livePages, sum_range]
      refine tally_congr fun i hi => ?_
      rw [← g.countP_liveAt h hi hb, countP_range]
      refine tally_congr fun k hk => ind_congr ?_
      rw [hpage i k hi hk, blockOf_ppnAt i hb hk]
      simp [LiveAt]
    · rw [if_neg hdb]
      refine tally_eq_zero fun k hk => ind_false fun hk' => hdb ?_
      rw [← hk'.1, blockOf_pageAt hd hk]
  have hone := tally_set (n := c.blockNb) (q := b) (g := fun _ => 0)
    (f := fun d => if d = b then livePages c s b else 0) hb
    fun d _ hd => if_neg hd
  rw [tally_eq_zero fun _ _ => rfl, if_pos rfl] at hone
  rw [liveList, ← List.countP_eq_length_filter, countP_range, g.tally_pages,
    tally_congr hrow]
  omega

-- ===================================================== exact relocation

/-- From `s` to `s'`, superblock `b` was relocated along `ρ` and nothing
else happened to the map. -/
structure ExactRelocation (c : Conf) (s : Ssd) (b : Nat) (ρ : Nat → Nat)
    (s' : Ssd) : Prop where
  /-- Live pages go to pages that were free. -/
  free : ∀ q, Live c s b q → ρ q < c.pageMappingEntryNb
    ∧ s.valid c (ρ q) = 0 ∧ s.refs (ρ q) = []
  injective : ∀ q q', Live c s b q → Live c s b q' → ρ q = ρ q' → q = q'
  moved : ∀ L q, s.mappingTable L = some q → blockOf c q = b →
    Live c s b q ∧ s'.mappingTable L = some (ρ q)
  stayed : ∀ L, (∀ q, s.mappingTable L = some q → blockOf c q ≠ b) →
    s'.mappingTable L = s.mappingTable L
  /-- Each live page is programmed once; the counter is an
  `unsigned int`. -/
  writes : s'.stat.gcWriteCount % 2 ^ 32
    = (s.stat.gcWriteCount + (liveList c s b).length) % 2 ^ 32
  shared : ∀ L L', s'.mappingTable L = s'.mappingTable L'
    ↔ s.mappingTable L = s.mappingTable L'
  dead : ∀ q, q < c.pageMappingEntryNb → blockOf c q = b →
    s'.valid c q = 0 ∧ s'.refs q = []
  /-- Block `b` is behind what is left of each empty list. -/
  appended : ∀ f, f < c.flashNb → ∃ rest,
    rest <:+ (s.lists.emptyBlockList f).emptyHead
      ∧ (s'.lists.emptyBlockList f).emptyHead = rest ++ [⟨f, b, 0⟩]

/-- A victim is a superblock of the device. -/
theorem Relocated.victim_lt (h : Sound c p s)
    (hr : Relocated c p s b ρ l p' s') : b < c.blockNb := by
  obtain ⟨i, -, hi, -⟩ := hr.pool
  exact h.pages.pool.lt_of_mem (by
    simp [Pool.blocks, List.mem_of_getElem? hi])

/-- A page of the victim that some lpn maps to is not where a live page
goes. -/
theorem Relocated.target_ne (h : Sound c p s)
    (hr : Relocated c p s b ρ l p' s') {q x L : Nat} (hq : Live c s b q)
    (hL : s.mappingTable L = some x) : ρ q ≠ x := by
  rintro rfl
  exact (hr.target q hq).2.1 (h.in_use hL id).2.1

/-- Two lpns share a page afterwards when they did before: live pages go to
distinct places, away from the rest. -/
theorem Relocated.shared_iff (h : Sound c p s)
    (hr : Relocated c p s b ρ l p' s') (L L' : Nat) :
    s'.mappingTable L = s'.mappingTable L'
      ↔ s.mappingTable L = s.mappingTable L' := by
  -- an lpn follows its page into `ρ` or stays
  have hcase : ∀ K, (∃ q, s.mappingTable K = some q ∧ Live c s b q
      ∧ s'.mappingTable K = some (ρ q))
      ∨ ((∀ q, s.mappingTable K = some q → blockOf c q ≠ b)
        ∧ s'.mappingTable K = s.mappingTable K) := by
    intro K
    by_cases hK : ∃ q, s.mappingTable K = some q ∧ blockOf c q = b
    · obtain ⟨q, hq, hqb⟩ := hK
      exact .inl ⟨q, hq, hqb ▸ h.live hq, hr.moved K q hq hqb⟩
    · have hout : ∀ q, s.mappingTable K = some q → blockOf c q ≠ b :=
        fun q hq hqb => hK ⟨q, hq, hqb⟩
      exact .inr ⟨hout, (hr.stayed K hout).1⟩
  rcases hcase L with ⟨q, hq, hlive, hq'⟩ | ⟨hout, hs⟩ <;>
    rcases hcase L' with ⟨x, hx, hlive', hx'⟩ | ⟨hout', hs'⟩
  · rw [hq, hx, hq', hx', Option.some_inj, Option.some_inj]
    exact ⟨hr.inj q x hlive hlive', fun he => he ▸ rfl⟩
  · rw [hq', hs', hq]
    constructor
    · intro he
      exact absurd rfl (hr.target_ne h hlive he.symm)
    · intro he
      exact absurd hlive.block (hout' q he.symm)
  · rw [hx', hs, hx]
    constructor
    · intro he
      exact absurd rfl (hr.target_ne h hlive' he)
    · intro he
      exact absurd hlive'.block (hout x he)
  · rw [hs, hs']

theorem Relocated.dead (hr : Relocated c p s b ρ l p' s') {q : Nat}
    (hq : q < c.pageMappingEntryNb) (hb : blockOf c q = b) :
    s'.valid c q = 0 ∧ s'.refs q = [] := by
  have hempty : b ∈ p'.empty := by
    obtain ⟨_, p₂, -, -, rfl⟩ := hr.pool
    simp [Pool.release]
  have hunused : ¬ Used c p' [] q := by
    have hpool := hr.sound.pages.pool
    rintro ((hf | ⟨m, ha, -⟩) | hout)
    · exact (hpool.full_disjoint hf).2.1 (hb ▸ hempty)
    · exact hpool.empty_not_current hempty (by simp [Pool.current, ha, hb])
    · exact absurd hout (by simp)
  refine ⟨(hr.sound.pages.fresh q hq).2 (.inl hunused), ?_⟩
  refine List.eq_nil_iff_forall_not_mem.2 fun L hL => ?_
  exact hr.sound.unmapped hunused id L ((hr.sound.maps.mem_iff hq).1 hL)

/-- The summary of the collection in the statement's terms. -/
theorem Relocated.exact (g : Geo c) (h : Sound c p s)
    (hr : Relocated c p s b ρ l p' s') : ExactRelocation c s b ρ s' where
  free q hq := by
    obtain ⟨hlt, hu, -⟩ := hr.target q hq
    refine ⟨hlt, (h.pages.fresh _ hlt).2 (.inl hu), ?_⟩
    refine List.eq_nil_iff_forall_not_mem.2 fun L hL => ?_
    exact h.unmapped hu id L ((h.maps.mem_iff hlt).1 hL)
  injective := hr.inj
  moved L q hL hqb := ⟨hqb ▸ h.live hL, hr.moved L q hL hqb⟩
  stayed L hL := (hr.stayed L hL).1
  writes := by
    rw [g.length_liveList h.pages.recount (hr.victim_lt h)]
    exact hr.gcWrites
  shared := hr.shared_iff h
  dead _ hq hqb := hr.dead hq hqb
  appended f hf := by
    obtain ⟨i, p₂, -, hchain, rfl⟩ := hr.pool
    rw [hr.sound.pages.lists.roots f hf, h.pages.lists.roots f hf]
    refine ⟨p₂.empty.map fun b => ⟨f, b, 0⟩, hchain.suffix.map _, ?_⟩
    simp [rootOf, Pool.release]

/-- In every state that a run visits in which no count wraps, a
successful collection relocates the victim exactly. -/
theorem collection_relocates (g : Geo c) (h : Visited c s tr)
    {fuel : Nat}
    (hgc : sbGarbageCollection c fuel s = ⟨.ok .success, s', log⟩)
    (hr : ∀ e ∈ tr ++ log, NoWrap e) :
    ∃ b ρ, (selectVictimSuperblock c s).res = .ok (some b)
      ∧ ExactRelocation c s b ρ s' := by
  obtain ⟨hr₁, hr₂⟩ := List.forall_mem_append.1 hr
  obtain ⟨⟨p, hp⟩, -⟩ := h.sound g hr₁
  obtain ⟨-, b, ρ, l, p', hrel, hvictim, -⟩ := Sat.of_ok
    (g.sbGarbageCollection_serves (A := True) (B := False) hp fuel
      (.inl trivial)) hgc fun e he => relied_false (hr₂ e he)
  exact ⟨b, ρ, hvictim, hrel.exact g hp⟩

/-- A collection after `tinyRun`. -/
def tinyGc : Out Ssd Event Fault Ret :=
  sbGarbageCollection tinyConf 40 tinyOut.st

/-- The one after `tinyRun` relocates its victim. -/
theorem collection_relocates_tiny : ∃ b ρ,
    (selectVictimSuperblock tinyConf tinyOut.st).res = .ok (some b)
      ∧ ExactRelocation tinyConf tinyOut.st b ρ tinyGc.st := by
  have heval : tinyGc.res = .ok .success ∧ ∀ e ∈ tinyGc.log, NoWrap e := by
    decide +kernel
  exact collection_relocates tinyConf_geo tinyOut_reach.visited
    (Out.eq_of_res heval.1)
    (List.forall_mem_append.2 ⟨tinyOut_noWrap, heval.2⟩)

-- ==================================================== an inexact victim

/-- The request of the write after `wrapRun`. -/
def lastWrite : RequestMeta := ⟨1, 1, fun _ => ⟨0, -1, some 8⟩⟩

/-- The last pages are written. -/
def lastPages : Out Ssd Event Fault (Option (Option Nat)) :=
  writePages wrapConf 300 lastWrite.lpnsInfo (slots wrapConf 1 1) 0 none
    wrapOut.st

/-- The collection after it. -/
def wrapGc : Out Ssd Event Fault Ret :=
  sbGarbageCollection wrapConf 300 lastPages.st

/-- The victim is the superblock of page zero, and the page keeps its
wrapped count. -/
theorem wrapGc_eval : lastPages.res = .ok (some (some 126))
    ∧ (lastPages.log ++ wrapGc.log).all fewSharers = true
    ∧ (selectVictimSuperblock wrapConf lastPages.st).res = .ok (some 0)
    ∧ wrapGc.res = .ok .success
    ∧ wrapGc.st.valid wrapConf 0 = -128 := by
  decide +kernel

/-- At most 127 lpns ever share a page, and yet a successful collection
relocates nothing and leaves its victim in use. -/
theorem collection_loses_wrap :
    Visited wrapConf lastPages.st (wrapOut.log ++ lastPages.log)
      ∧ (∀ e ∈ wrapOut.log ++ lastPages.log ++ wrapGc.log, FewSharers e)
      ∧ sbGarbageCollection wrapConf 300 lastPages.st
        = ⟨.ok .success, wrapGc.st, wrapGc.log⟩
      ∧ ¬ ∃ b ρ,
        (selectVictimSuperblock wrapConf lastPages.st).res = .ok (some b)
          ∧ ExactRelocation wrapConf lastPages.st b ρ wrapGc.st := by
  obtain ⟨hpages, hfew, hvictim, hok, hv⟩ := wrapGc_eval
  refine ⟨?_, ?_, Out.eq_of_res hok, ?_⟩
  · exact wrapOut_ran.reach.visited.pages 300 lastWrite
      (inRange_writeOf 1 8) (by decide) (Out.eq_of_res hpages)
  · rw [List.append_assoc]
    exact List.forall_mem_append.2 ⟨wrapOut_fewSharers, fun e he =>
      .of_check (List.all_eq_true.1 hfew e he)⟩
  · rintro ⟨b, ρ, hb, hex⟩
    rw [hvictim] at hb
    cases hb
    have := (hex.dead 0 (by decide) (by decide)).1
    omega

end FemuRemap
