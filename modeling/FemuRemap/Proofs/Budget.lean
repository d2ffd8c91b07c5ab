/-
What a relocation costs in NVRAM segments. The entries of the victim go
away with it and the moved pages bring at most as many; a segment is
lost only to rounding, at most one for each superblock the pages went
to. A relocation reaches at most two superblocks, and one if the pages
fit: it adds at most one segment, and none if they fit.

# The count

Each live page of the victim keeps one record in the flash
(`Relocated.flagged`) and had at most one there before
(`Flags.single`). So at least as many of the moved lpns are recorded in
the flash afterwards, and no more in the NVRAM.
-/
import FemuRemap.Proofs.Collect
import FemuRemap.Proofs.UseRemap

namespace FemuRemap

open Lib

variable {c : Conf} {p p' : Pool} {s s' : Ssd} {b d : Nat}
  {ρ : Nat → Nat} {l : List (Nat × Nat)}

/-- `L` is mapped into superblock `b`. -/
abbrev MapsInto (c : Conf) (s : Ssd) (b L : Nat) : Prop :=
  (s.mappingTable L).map (blockOf c) = some b

theorem mapsInto_iff {L : Nat} : MapsInto c s b L
    ↔ ∃ q, s.mappingTable L = some q ∧ blockOf c q = b := by
  simp [MapsInto]

/-- The NVRAM entries that the relocation of `b` adds to `d`. -/
def movedEntries (c : Conf) (s s' : Ssd) (b d : Nat) : Nat :=
  tally c.pageMappingEntryNb fun L =>
    ind ((MapsInto c s b L ∧ s'.inNvram L = 1) ∧ MapsInto c s' d L)

-- ============================================================ counting

theorem Relocated.nvramRefs_eq (hr : Relocated c p s b ρ l p' s')
    (hd : d ≠ b) :
    nvramRefs c s'.mappingTable.get s'.inNvram.get d
      = nvramRefs c s.mappingTable.get s.inNvram.get d
        + movedEntries c s s' b d := by
  unfold nvramRefs movedEntries
  rw [← tally_add]
  refine tally_congr fun L _ => ?_
  by_cases hL : MapsInto c s b L
  · have hbefore : ¬ (s.inNvram L = 1 ∧ MapsInto c s d L) := by
      rintro ⟨-, hd'⟩
      exact hd (Option.some.inj (hd'.symm.trans hL))
    rw [ind_false hbefore, Nat.zero_add]
    exact ind_congr ⟨fun h => ⟨⟨hL, h.1⟩, h.2⟩, fun h => ⟨h.1.2, h.2⟩⟩
  · rw [mapsInto_iff] at hL
    obtain ⟨hm, hn⟩ := hr.stayed L fun q hq hqb => hL ⟨q, hq, hqb⟩
    have hnone : ¬ ((MapsInto c s b L ∧ s'.inNvram L = 1)
        ∧ MapsInto c s' d L) := fun h => hL (mapsInto_iff.1 h.1.1)
    rw [ind_false hnone, Nat.add_zero, hm, hn]

/-- Splitting the lpns of the victim by where their record is. -/
theorem tally_flagged (nv : Nat → Int)
    (h : ∀ L, MapsInto c s b L → nv L = 0 ∨ nv L = 1) :
    tally c.pageMappingEntryNb (fun L => ind (MapsInto c s b L ∧ nv L = 1))
      + tally c.pageMappingEntryNb
          (fun L => ind (MapsInto c s b L ∧ nv L = 0))
      = tally c.pageMappingEntryNb fun L => ind (MapsInto c s b L) := by
  rw [← tally_add]
  refine tally_congr fun L _ => ?_
  by_cases hL : MapsInto c s b L
  · rcases h L hL with h0 | h1
    · rw [ind_false (by omega), ind_true ⟨hL, h0⟩, ind_true hL]
    · rw [ind_true ⟨hL, h1⟩, ind_false (by omega), ind_true hL]
  · rw [ind_false fun h => hL h.1, ind_false fun h => hL h.1, ind_false hL]

/-- As many of the moved lpns are recorded in the flash as before. -/
theorem Relocated.flash_le (h : Sound c p s)
    (hr : Relocated c p s b ρ l p' s') :
    tally c.pageMappingEntryNb
        (fun L => ind (MapsInto c s b L ∧ s.inNvram L = 0))
      ≤ tally c.pageMappingEntryNb
          fun L => ind (MapsInto c s b L ∧ s'.inNvram L = 0) := by
  -- an lpn goes to the lpn of its page that the flash records afterwards
  have hex : ∀ L, ∃ K, MapsInto c s b L → MapsInto c s b K
      ∧ s'.inNvram K = 0 ∧ s.mappingTable K = s.mappingTable L := by
    intro L
    by_cases hL : MapsInto c s b L
    · obtain ⟨q, hq, rfl⟩ := mapsInto_iff.1 hL
      obtain ⟨K, hK, hz⟩ := hr.flagged q (h.live hq)
      exact ⟨K, fun _ => ⟨mapsInto_iff.2 ⟨q, hK, rfl⟩, hz,
        hK.trans hq.symm⟩⟩
    · exact ⟨L, fun h => absurd h hL⟩
  choose f hf using hex
  refine tally_ind_le f (fun L _ hL => ?_)
    fun L L' _ _ hL hL' hff => ?_
  · obtain ⟨hK, hz, -⟩ := hf L hL.1
    obtain ⟨q, hq, -⟩ := mapsInto_iff.1 hK
    exact ⟨(h.maps.bound _ q hq).2, hK, hz⟩
  · obtain ⟨q, hq, -⟩ := mapsInto_iff.1 hL.1
    have hsame : s.mappingTable L' = s.mappingTable L := by
      rw [← (hf L hL.1).2.2, ← (hf L' hL'.1).2.2, hff]
    exact h.records.single L L' q hq (hsame.trans hq) hL.2 hL'.2

/-- The moved lpns have no more entries than the victim had. -/
theorem Relocated.movedEntries_le (h : Sound c p s)
    (hr : Relocated c p s b ρ l p' s') :
    tally c.blockNb (movedEntries c s s' b)
      ≤ nvramRefs c s.mappingTable.get s.inNvram.get b := by
  have hbefore := tally_flagged (c := c) (s := s) (b := b) s.inNvram.get
    fun L hL => by
      obtain ⟨q, hq, -⟩ := mapsInto_iff.1 hL
      exact h.records.flag L q hq
  have hafter := tally_flagged (c := c) (s := s) (b := b) s'.inNvram.get
    fun L hL => by
      obtain ⟨q, hq, hqb⟩ := mapsInto_iff.1 hL
      exact hr.sound.records.flag L (ρ q) (hr.moved L q hq hqb)
  have hflash := hr.flash_le h
  have hrefs : nvramRefs c s.mappingTable.get s.inNvram.get b
      = tally c.pageMappingEntryNb
          fun L => ind (MapsInto c s b L ∧ s.inNvram L = 1) :=
    tally_congr fun L _ => ind_congr And.comm
  -- an entry is moved to one superblock
  have hone : tally c.blockNb (movedEntries c s s' b)
      ≤ tally c.pageMappingEntryNb
          fun L => ind (MapsInto c s b L ∧ s'.inNvram L = 1) := by
    unfold movedEntries
    rw [tally_comm]
    refine tally_mono fun L _ => ?_
    by_cases hL : MapsInto c s b L ∧ s'.inNvram L = 1
    · rw [ind_true hL]
      exact tally_ind_le_one fun d d' hd hd' =>
        Option.some.inj (hd.2.symm.trans hd'.2)
    · rw [tally_eq_zero fun d _ => ind_false fun h => hL h.1]
      exact Nat.zero_le _
  omega

-- ============================================================ rounding

/-- Segments taken for `k` more entries: one is lost to rounding. -/
theorem SegOk.alloc_rounded {e e' : OobSeg} (h : SegOk c e)
    (h' : SegOk c e') {k : Nat} (hk : stored c e' = stored c e + k) :
    (c.oobEntryPerSeg : Int) * e'.allocSeg
      ≤ c.oobEntryPerSeg * e.allocSeg
        + (k + ((c.oobEntryPerSeg : Int) - 1) * ind (0 < k)) := by
  by_cases h0 : 0 < k
  · have h₁ := h.free
    have h₂ := h'.room
    unfold stored at hk
    rw [Int.mul_comm e.allocSeg, Int.mul_comm e'.allocSeg] at hk
    rw [ind_true h0]
    omega
  · have hle := h.alloc_le h' (by omega)
    have hmul := Int.mul_le_mul_of_nonneg_left hle
      (Int.natCast_nonneg c.oobEntryPerSeg)
    rw [ind_false h0]
    omega

/-- The segments of all superblocks: the victim's pay for the entries,
and one is lost to rounding for each superblock that gains some. -/
theorem Relocated.segs_rounded (h : Sound c p s)
    (hr : Relocated c p s b ρ l p' s') (hb : b < c.blockNb) :
    (c.oobEntryPerSeg : Int) * segs c s'
      ≤ c.oobEntryPerSeg * segs c s + ((c.oobEntryPerSeg : Int) - 1)
        * tally c.blockNb fun d => ind (0 < movedEntries c s s' b d) := by
  -- the entries that move were stored in the victim's segments
  have hpaid : ((tally c.blockNb (movedEntries c s s' b) : Nat) : Int)
      ≤ c.oobEntryPerSeg * (s.nvram.oobTable b).allocSeg := by
    have h₁ := h.records.entries b hb (by simp)
    have h₂ := h.pages.totals.shape b hb
    have h₃ := h₂.free
    have h₄ := h₂.invalid
    have h₅ := hr.movedEntries_le h
    unfold stored at h₁
    rw [Int.mul_comm] at h₁
    omega
  have hrelease := tally_set (n := c.blockNb)
    (g := fun d => (s.nvram.oobTable d).allocSeg)
    (f := fun d => if d = b then 0 else (s.nvram.oobTable d).allocSeg) hb
    fun d _ hd => if_neg hd
  rw [if_pos rfl, Int.add_zero] at hrelease
  -- each superblock gains its entries, rounded up to segments
  have hall : ∀ d, d < c.blockNb →
      (c.oobEntryPerSeg : Int) * (s'.nvram.oobTable d).allocSeg
        ≤ c.oobEntryPerSeg
            * (if d = b then 0 else (s.nvram.oobTable d).allocSeg)
          + (movedEntries c s s' b d + ((c.oobEntryPerSeg : Int) - 1)
            * ind (0 < movedEntries c s s' b d)) := by
    intro d hd
    by_cases hdb : d = b
    · subst hdb
      have hE := h.pages.totals.pos
      have hnn : (0 : Int) ≤ ((c.oobEntryPerSeg : Int) - 1)
          * ind (0 < movedEntries c s s' d d) :=
        Int.mul_nonneg (by omega) (by omega)
      rw [if_pos rfl, hr.cleared]
      dsimp only
      omega
    · rw [if_neg hdb]
      refine (h.pages.totals.shape d hd).alloc_rounded
        (hr.sound.pages.totals.shape d hd) ?_
      have h₁ := h.records.entries d hd (by simp)
      have h₂ := hr.sound.records.entries d hd (by simp)
      have h₃ := hr.nvramRefs_eq hdb
      rw [hr.invalid d hdb] at h₂
      omega
  have hsum := tally_mono hall
  rw [tally_add, tally_add, ← mul_tally, ← mul_tally, ← mul_tally,
    ← cast_tally, ← cast_tally] at hsum
  have hmul := congrArg (fun x => (c.oobEntryPerSeg : Int) * x) hrelease
  simp only [Int.mul_add] at hmul
  unfold segs segSum
  omega

/-- Entries are gained where pages went. -/
theorem Relocated.gains (h : Sound c p s)
    (hr : Relocated c p s b ρ l p' s') (hd : 0 < movedEntries c s s' b d) :
    ∃ x ∈ l, x.1 = d := by
  by_contra hno
  refine absurd hd (Nat.not_lt.2 (Nat.le_of_eq ?_))
  refine tally_eq_zero fun L _ => ind_false ?_
  rintro ⟨⟨hL, -⟩, hL'⟩
  obtain ⟨q, hq, hqb⟩ := mapsInto_iff.1 hL
  obtain ⟨q', hq', hqd⟩ := mapsInto_iff.1 hL'
  have hρ : q' = ρ q :=
    Option.some.inj (hq'.symm.trans (hr.moved L q hq hqb))
  obtain ⟨-, -, hmem⟩ := hr.target q (hqb ▸ h.live hq)
  exact hno ⟨_, hmem, hρ ▸ hqd⟩

/-- If at most `k` superblocks gain entries, fewer than `k` segments are
added. -/
theorem Relocated.segs_lt (h : Sound c p s)
    (hr : Relocated c p s b ρ l p' s') (hb : b < c.blockNb) {k : Nat}
    (hk : 0 < k) (hgain : tally c.blockNb
      (fun d => ind (0 < movedEntries c s s' b d)) ≤ k) :
    segs c s' < segs c s + k := by
  have hround := hr.segs_rounded h hb
  have hE := h.pages.totals.pos
  have hlost := Int.mul_le_mul_of_nonneg_left (Int.ofNat_le.2 hgain)
    (show (0 : Int) ≤ (c.oobEntryPerSeg : Int) - 1 by omega)
  refine Int.lt_of_mul_lt_mul_left (a := (c.oobEntryPerSeg : Int)) ?_
    (Int.natCast_nonneg _)
  rw [Int.mul_add]
  rw [Int.sub_mul _ _ (k : Int)] at hlost
  omega

/-- A relocation adds at most one segment, and none if the moved pages
fit into one superblock. -/
theorem Relocated.segs_le (h : Sound c p s)
    (hr : Relocated c p s b ρ l p' s') :
    segs c s' ≤ segs c s + 1
      ∧ (p.left c.sbPages = 0 ∨ livePages c s b ≤ p.left c.sbPages →
        segs c s' ≤ segs c s) := by
  obtain ⟨i, p₂, hi, hchain, -⟩ := hr.pool
  have hb : b < c.blockNb := h.pages.pool.lt_of_mem (by
    simp [Pool.blocks, List.mem_of_getElem? hi])
  have hfew := hr.few
  have hcount := hr.count
  have hleft : (p.eject i).left c.sbPages = p.left c.sbPages := rfl
  constructor
  · -- the victim's live pages go to the active superblock and at most one
    -- more, and each rounds up once
    obtain ⟨d₁, d₂, hd⟩ := hchain.two_blocks (by omega)
    have htwo : tally c.blockNb
        (fun d => ind (0 < movedEntries c s s' b d)) ≤ 2 := by
      calc tally c.blockNb (fun d => ind (0 < movedEntries c s s' b d))
          ≤ tally c.blockNb (fun d => ind (d = d₁) + ind (d = d₂)) := by
            refine tally_mono fun d _ => ?_
            by_cases hm : 0 < movedEntries c s s' b d
            · obtain ⟨x, hx, rfl⟩ := hr.gains h hm
              rw [ind_true hm]
              rcases hd x hx with h₁ | h₁ <;> rw [ind_true h₁] <;> omega
            · rw [ind_false hm]
              exact Nat.zero_le _
        _ ≤ 1 + 1 := by
            rw [tally_add]
            exact Nat.add_le_add
              (tally_ind_le_one fun _ _ hx hy => hx.trans hy.symm)
              (tally_ind_le_one fun _ _ hx hy => hx.trans hy.symm)
    have := hr.segs_lt h hb (by omega) htwo
    omega
  · -- into one superblock only: the rounding is paid by the victim's own
    intro hfit
    obtain ⟨d₀, hd⟩ := hchain.one_block (by omega) (by omega)
    have := hr.segs_lt h hb Nat.one_pos (tally_ind_le_one fun x y hx hy => by
      obtain ⟨_, hm, rfl⟩ := hr.gains h hx
      obtain ⟨_, hm', rfl⟩ := hr.gains h hy
      rw [hd _ hm, hd _ hm'])
    omega

/-- The superblocks hold no more segments than the NVRAM has, a number
the counter can hold. -/
def Budget (c : Conf) (s : Ssd) : Prop :=
  segs c s ≤ c.totalOobSeg ∧ c.totalOobSeg < 2 ^ 64

theorem Tracked.totalAllocSeg_eq (h : Sound c p s) (hs : Budget c s) :
    (s.nvram.totalAllocSeg : Int) = segs c s := by
  have hnn : 0 ≤ segs c s := by
    have := tally_mono (n := c.blockNb) (g := fun _ => (0 : Int))
      fun b hb => (h.pages.totals.shape b hb).alloc
    rwa [tally_eq_zero fun _ _ => rfl] at this
  unfold Budget at hs
  rw [h.pages.totals.alloc]
  show (u64 (segs c s) : Int) = _
  rw [u64_of_lt (Int.toNat_of_nonneg hnn).symm (by omega)]
  omega

/-- A collection that fits keeps the budget. -/
theorem Relocated.budget (h : Sound c p s)
    (hr : Relocated c p s b ρ l p' s') (hs : Budget c s)
    (hfit : Fits c (.collect (livePages c s b) (p.left c.sbPages)
      s.nvram.totalAllocSeg)) : Budget c s' := by
  obtain ⟨hone, hnone⟩ := hr.segs_le h
  have heq := h.totalAllocSeg_eq hs
  unfold Budget at hs ⊢
  rcases hfit with hlt | hroom
  · omega
  · have := hnone hroom
    omega

/-- An entry that was granted keeps it. -/
theorem Tracked.granted_budget (h : Sound c p s) (hs : Budget c s)
    (hg : Granted c b s) (hseg : segs c s' = segs c s
      + ind ((s.nvram.oobTable b).freeEntry = 0)) : Budget c s' := by
  have heq := h.totalAllocSeg_eq hs
  have hind := ind_le ((s.nvram.oobTable b).freeEntry = 0)
  unfold Budget at hs ⊢
  rcases hg with hfree | hlt
  · rw [ind_false (by omega)] at hseg
    omega
  · omega

end FemuRemap
