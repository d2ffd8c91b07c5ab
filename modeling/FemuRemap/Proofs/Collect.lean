/-
`SB_GARBAGE_COLLECTION` as a relocation: the live pages of one full
superblock move to pages that were free, every lpn follows its page, and
the superblock becomes empty. `Relocated` is the whole effect; nothing
above this module looks into a collection again.

# Relying on the segments

A collection stores NVRAM entries without asking for room. What a run
may be relied on to do about it is `Fits`: when a collection starts,
there is a segment to spare, or the live pages of the victim fit into
the superblock they are moved to. `B` is the proposition that this is
relied on.
-/
import FemuRemap.Proofs.Erase

namespace FemuRemap

open Lib

variable {c : Conf} {p p' : Pool} {s s' : Ssd} {b : Nat} {ρ : Nat → Nat}
  {l : List (Nat × Nat)} {A B : Prop} {fuel : Nat}

-- ======================================================== the judgement

/-- A collection that cannot exceed the NVRAM's segments. -/
def Fits (c : Conf) : Event → Prop
  | .collect live room segs =>
      segs < c.totalOobSeg ∨ room = 0 ∨ live ≤ room
  | _ => True

/-- No count wraps and, if `B`, no collection exceeds the segments. -/
def Relied (c : Conf) (B : Prop) (e : Event) : Prop :=
  NoWrap e ∧ (B → Fits c e)

/-- The judgement of functions that may collect. -/
abbrev Serves (c : Conf) (B : Prop) (fuel : Nat) (A : Prop) {α : Type}
    (m : Ftl α) (s : Ssd) (Q : α → Ssd → Prop) : Prop :=
  Sat (Relied c B) (Allowed c A) m s Q fun e _ => Faulty c fuel A e

theorem Runs.serves {α : Type} {m : Ftl α} {Q : α → Ssd → Prop}
    (h : Runs c fuel A m s Q) : Serves c B fuel A m s Q :=
  Sat.relying h fun _ he => he.1

theorem Step.serves {α : Type} {m : Ftl α} {Q : α → Ssd → Prop}
    (h : Step c m s Q) : Serves c B fuel A m s Q :=
  h.runs.serves

-- ========================================================= relocations

/-- A live page of superblock `b`. -/
structure Live (c : Conf) (s : Ssd) (b q : Nat) : Prop where
  lt : q < c.pageMappingEntryNb
  block : blockOf c q = b
  valid : 0 < s.valid c q

/-- From `s` with pool `p` to `s'` with pool `p'`: superblock `b` was
collected, its live page `q` going to page `ρ q`. -/
structure Relocated (c : Conf) (p : Pool) (s : Ssd) (b : Nat)
    (ρ : Nat → Nat) (l : List (Nat × Nat)) (p' : Pool) (s' : Ssd) :
    Prop where
  sound : Sound c p' s'
  few : livePages c s b < c.sbPages
  count : l.length = livePages c s b
  pool : ∃ i p₂, p.full[i]? = some b
    ∧ Pool.Chain c.sbPages (p.eject i) l p₂ ∧ p' = p₂.release b
  target : ∀ q, Live c s b q → ρ q < c.pageMappingEntryNb
    ∧ ¬ Used c p [] (ρ q) ∧ (blockOf c (ρ q), posOf c (ρ q)) ∈ l
  inj : ∀ q q', Live c s b q → Live c s b q' → ρ q = ρ q' → q = q'
  moved : ∀ L q, s.mappingTable L = some q → blockOf c q = b →
    s'.mappingTable L = some (ρ q)
  stayed : ∀ L, (∀ q, s.mappingTable L = some q → blockOf c q ≠ b) →
    s'.mappingTable L = s.mappingTable L ∧ s'.inNvram L = s.inNvram L
  flagged : ∀ q, Live c s b q →
    ∃ L, s.mappingTable L = some q ∧ s'.inNvram L = 0
  kept : ∀ x, Used c p [] x → blockOf c x ≠ b →
    s'.content x = s.content x
  carried : ∀ q, Live c s b q → s'.content (ρ q) = s.content q
  cleared : s'.nvram.oobTable b = ⟨0, 0, 0⟩
  invalid : ∀ x, x ≠ b → (s'.nvram.oobTable x).invalidEntry
    = (s.nvram.oobTable x).invalidEntry
  gcWrites : s'.stat.gcWriteCount % 2 ^ 32
    = (s.stat.gcWriteCount + livePages c s b) % 2 ^ 32

/-- A page some lpn maps to is live. -/
theorem Tracked.live {L q : Nat} (h : Sound c p s)
    (hL : s.mappingTable L = some q) : Live c s (blockOf c q) q := by
  obtain ⟨hq, -, hv, -⟩ := h.in_use hL id
  have := List.length_pos_of_mem (h.maps.mem_refs hL)
  exact ⟨hq, rfl, by omega⟩

/-- The state in which the migration starts. -/
def ejected (c : Conf) (b : Nat) (l : BlockLists) (s : Ssd) : Ssd :=
  { s with lists := l, nvram := releaseSegs c b s.nvram }

/-- The state right after a victim is taken off the lists. -/
theorem Tracked.ejected (h : Sound c p s) {i : Nat}
    (hi : p.full[i]? = some b) (hb : b < c.blockNb) {l : BlockLists}
    (hl : Lists c (p.eject i) l) :
    Current c (p.eject i) [b] none noPage
      (FemuRemap.ejected c b l s) where
  pages := (h.pages.eject hi hl).of_eq rfl rfl (fun _ => rfl) id
    (fun hn => hn.release hb) rfl ⟨rfl, rfl, rfl, rfl, rfl⟩
  maps := h.maps.congr fun _ => rfl
  records := h.records.release fun x => releaseSegs_oobTable s.nvram b x

/-- Reading entries back changes nothing. -/
theorem readVictimOob_step (b : Nat) :
    Step c (readVictimOob c b) s fun _ s' => s' = s := by
  refine Sat.get_bind ?_
  dsimp only
  split
  · exact Sat.emit fun _ => ⟨trivial, rfl⟩
  · exact Sat.pure rfl

/-- `UPDATE_NVRAM_OOB(INVALID)` of the victim taken out. -/
theorem ejected_step (hb : b < c.blockNb) (l : BlockLists) :
    Step c (updateNvramOob c b false) { s with lists := l } fun _ s' =>
      s' = FemuRemap.ejected c b l s := by
  unfold updateNvramOob
  rw [if_neg (Nat.not_le.2 hb), if_neg (by decide)]
  exact Sat.modify rfl

/-- The pages that the migration copies. -/
theorem Geo.copiedBlocks_iff (g : Geo c) (hb : b < c.blockNb)
    (bl : BlockLists) (q : Nat) :
    CopiedBlocks c (FemuRemap.ejected c b bl s) b noPage
      (List.range c.flashNb) q ↔ Live c s b q := by
  constructor
  · rintro (hq | ⟨f, hf, k, hk, rfl, hv⟩)
    · exact hq.elim
    · have hf := List.mem_range.1 hf
      exact ⟨ppnAt_lt hf hb hk, blockOf_ppnAt f hb hk, hv⟩
  · rintro ⟨hq, rfl, hv⟩
    refine .inr ⟨flashOf c q, List.mem_range.2 (flashOf_lt hq),
      pageOf c q, g.sized.pageOf_lt q, (ppnAt_of q).symm, ?_⟩
    show 0 < s.valid c _
    rw [ppnAt_of]
    exact hv

/-- Once all live pages were copied, nothing maps into the victim. -/
theorem Moving.done {i : Nat} {bl : BlockLists} {D : Nat → Prop}
    {p₂ : Pool} {s₂ : Ssd} (h : Sound c p s)
    (hm : Moving c b (p.eject i) (ejected c b bl s) D ρ l p₂ s₂)
    (hD : ∀ q, D q ↔ Live c s b q) (L q : Nat)
    (hL : s₂.mappingTable L = some q) : blockOf c q ≠ b := by
  rintro rfl
  by_cases hDq : D q
  · exact hm.left q hDq L hL
  · have hL₁ := (hm.mapped_iff rfl hDq L).1 hL
    exact hDq ((hD q).2 (h.live hL₁))

/-- The migration and the erase, put together. -/
theorem Moving.relocated {i : Nat} {bl : BlockLists} {D : Nat → Prop}
    {p₂ : Pool} {s₂ s₃ s' : Ssd} (h : Sound c p s)
    (hi : p.full[i]? = some b)
    (hm : Moving c b (p.eject i) (ejected c b bl s) D ρ l p₂ s₂)
    (hD : ∀ q, D q ↔ Live c s b q) (hfew : livePages c s b < c.sbPages)
    (hl : l.length = livePages c s b)
    (h₃ : Sound c (p₂.release b) s₃) (hmap : s₃.mappingTable = s₂.mappingTable)
    (hflag : s₃.inNvram = s₂.inNvram) (hnv : s₃.nvram = s₂.nvram)
    (hw : s₃.stat.gcWriteCount = s₂.stat.gcWriteCount)
    (hcont : ∀ x, blockOf c x ≠ b → s₃.content x = s₂.content x)
    (ha : Alike s₃ s') (hs' : s'.mappingTable = s₃.mappingTable
      ∧ s'.inNvram = s₃.inNvram ∧ s'.content = s₃.content
      ∧ s'.stat.gcWriteCount = s₃.stat.gcWriteCount) :
    Relocated c p s b ρ l (p₂.release b) s' := by
  obtain ⟨e₁, e₂, e₃, e₄⟩ := hs'
  have hused := used_eject (c := c) h.pages.pool hi
  refine
    { sound := ?_
      few := hfew
      count := hl
      pool := ⟨i, p₂, hi, hm.chain, rfl⟩
      target := fun q hq => ?_
      inj := fun q q' hq hq' =>
        hm.inj q q' ((hD q).2 hq) ((hD q').2 hq')
      moved := fun L q hL hqb => ?_
      stayed := fun L hL => ?_
      flagged := fun q hq => ?_
      kept := fun x hx hxb => ?_
      carried := fun q hq => ?_
      cleared := ?_
      invalid := fun x hx => ?_
      gcWrites := ?_ }
  · -- what follows the erase is bookkeeping that the tables do not show
    unfold Sound
    rw [e₁, e₂]
    exact h₃.alike ha
  · obtain ⟨h₁, h₂, -, h₄⟩ := hm.target q ((hD q).2 hq)
    exact ⟨h₁, fun hu => h₂ ((hused _).2 hu), h₄⟩
  · rw [e₁, hmap]
    exact hm.moved L q hL ((hD q).2 (hqb ▸ h.live hL))
  · rw [e₁, e₂, hmap, hflag]
    exact hm.stayed L fun q hq hDq => hL q hq ((hD q).1 hDq).block
  · obtain ⟨L, hL, hz⟩ := hm.flagged q ((hD q).2 hq)
    exact ⟨L, hL, by rw [e₂, hflag, hz]⟩
  · rw [e₃, hcont x hxb]
    exact hm.kept x ((hused x).2 hx)
  · have hDq := (hD q).2 hq
    rw [e₃, hcont _ (hm.target_ne hDq)]
    exact hm.carried q hDq
  · rw [ha.nvram, hnv]
    exact hm.current.records.cleared b (by simp)
  · rw [ha.nvram, hnv, hm.invalid x]
    show ((releaseSegs c b s.nvram).oobTable x).invalidEntry = _
    rw [releaseSegs_oobTable, if_neg hx]
  · rw [e₄, hw, ← hl]
    exact hm.gcWrites

-- =========================================================== collecting

/-- The pages of a superblock after the first `k` positions, flash by
flash. -/
theorem Geo.tally_cursor (g : Geo c) {k : Nat} (hk : k ≤ c.sbPages) :
    tally c.flashNb (fun f => c.pageNb - cursor c k f) + k
      = c.sbPages := by
  induction k with
  | zero =>
      simp only [cursor_zero, Nat.sub_zero, tally_const, Conf.sbPages]
      exact Nat.mul_comm _ _
  | succ k ih =>
      have hf := g.pos_mod_lt k
      have hpg : k / c.flashNb < c.pageNb := pos_div_lt hk
      have hset := tally_set (g := fun f => c.pageNb - cursor c k f)
        (f := fun f => c.pageNb - cursor c (k + 1) f) hf
        fun f hf' hne => by rw [g.cursor_succ k hf', if_neg hne]
      rw [g.cursor_succ k hf, if_pos rfl, cursor_self] at hset
      have := ih (by omega)
      omega

/-- The room of the active superblock is the pool's. -/
theorem Geo.activeRoom_eq (g : Geo c) {out : List Nat}
    (hp : PoolOk c out p) (hl : Lists c p s.lists) :
    activeRoom c s = p.left c.sbPages := by
  unfold activeRoom
  rw [g.emptyTableEntryNb, sum_range]
  cases ha : p.active with
  | none =>
      have hz : p.left c.sbPages = 0 := by simp [Pool.left, ha]
      rw [hz]
      refine tally_eq_zero fun f hf => ?_
      rw [hl.roots f hf]
      simp [rootOf, ha]
  | some a =>
      have hk := hp.room a.1 a.2 ha
      have hsum := g.tally_cursor hk.2
      have hleft : p.left c.sbPages = c.sbPages - a.2 := by
        simp [Pool.left, ha]
      refine (tally_congr (f := fun f => c.pageNb - cursor c a.2 f)
        fun f hf => ?_).trans (by omega)
      rw [hl.roots f hf]
      simp [rootOf, ha]

/-- What a collection does: it relocates a superblock, or it changes
nothing but the count of failures, having found no page to gain. -/
def Collected (c : Conf) (B A : Prop) (p : Pool) (s : Ssd) :
    Ret → Ssd → Prop
  | .success, s' => ∃ b ρ l p', Relocated c p s b ρ l p' s'
      ∧ (selectVictimSuperblock c s).res = .ok (some b)
      ∧ (B → Fits c (.collect (livePages c s b) (p.left c.sbPages)
        s.nvram.totalAllocSeg))
  | .fail, s' => A ∧ (∀ b ∈ p.full, c.sbPages ≤ livePages c s b)
      ∧ ∃ t, s' = { s with stat := { s.stat with failCnt := t } }

/-- Space for a collection: a superblock that has a page to gain, and
room for the live pages of the victim. -/
def CanCollect (c : Conf) (p : Pool) (s : Ssd) : Prop :=
  (∃ b ∈ p.full, livePages c s b < c.sbPages)
    ∧ ∀ b, (selectVictimSuperblock c s).res = .ok (some b) →
      livePages c s b < c.sbPages → livePages c s b ≤ p.room c.sbPages

/-- With room for the live pages, a collection relocates its victim. -/
theorem Geo.sbGarbageCollection_serves (g : Geo c) (h : Sound c p s)
    (fuel : Nat) (hA : A ∨ CanCollect c p s) :
    Serves c B fuel A (sbGarbageCollection c fuel) s
      (Collected c B A p s) := by
  have hsel : (∀ b ∈ p.full, c.sbPages ≤ livePages c s b) → A := by
    intro hall
    refine hA.resolve_right fun ⟨⟨b, hb, hlt⟩, _⟩ => ?_
    exact absurd (hall b hb) (Nat.not_le.2 hlt)
  refine Sat.bind (Sat.and_res (g.selectVictimSuperblock_sat h.pages.lists
    h.pages.pool h.pages.recount fun hall =>
      ⟨.inr ⟨hsel hall, by decide⟩, .inr ⟨hsel hall, by decide⟩⟩)) ?_
  rintro r s₁ ⟨hr, hvictim⟩
  cases r with
  | none =>
      obtain ⟨hall, t, rfl⟩ := hr
      exact Sat.pure ⟨hsel hall, hall, t, rfl⟩
  | some b =>
      obtain ⟨i, bl, hi, rfl, hl, hfew, -⟩ := hr
      have hb : b < c.blockNb := h.pages.pool.lt_of_mem (by
        simp [Pool.blocks, List.mem_of_getElem? hi])
      have hroom := g.activeRoom_eq (s := { s with lists := bl })
        (h.pages.pool.eject hi) hl
      refine Sat.bind (R := fun _ s' => s' = { s with lists := bl }
        ∧ (B → Fits c (.collect (livePages c s b) (p.left c.sbPages)
          s.nvram.totalAllocSeg))) ?_ ?_
      · refine Sat.get_bind (Sat.emit fun hr => ⟨trivial, rfl, fun hB => ?_⟩)
        have hfits := hr.2 hB
        rw [hroom] at hfits
        exact hfits
      rintro _ _ ⟨rfl, hfits⟩
      refine Sat.bind (Step.serves (readVictimOob_step b)) ?_
      rintro _ _ rfl
      refine Sat.bind (Step.serves (ejected_step hb bl)) ?_
      rintro _ _ rfl
      -- the migration
      have h₁ := h.ejected hi hb hl
      have hsum : liveSum c (ejected c b bl s) b (List.range c.flashNb)
          = livePages c s b := rfl
      rw [g.sbBlkNb]
      refine Sat.bind (Runs.serves (g.migrateBlocks_runs
        (Moving.init (ρ := id) h₁) h₁.pages.recount hb fuel
        (List.range c.flashNb)
        (fun f hf => ⟨List.mem_range.1 hf, fun _ _ => id⟩)
        List.nodup_range (fun hlt => ?_) 0)) ?_
      · refine hA.resolve_right fun hc => ?_
        rw [hsum] at hlt
        exact absurd hlt (Nat.not_lt.2 (hc.2 b hvictim hfew))
      rintro _ s₂ ⟨rfl, ρ, l, p₂, h₂, hlen⟩
      have hD := g.copiedBlocks_iff (s := s) hb bl
      -- the erase
      have hdone := h₂.done h hD
      refine Sat.modify_bind ?_
      refine Sat.bind (Step.serves (g.erase_step (h₂.current.alike
        (by constructor <;> rfl)) hb hdone)) ?_
      rintro _ s₃ ⟨h₃, hm₃, hf₃, hn₃, hw₃, hc₃⟩
      refine Sat.modify_bind (Sat.pure ⟨b, ρ, l, p₂.release b,
        h₂.relocated h hi hD hfew ?_ h₃ hm₃ hf₃ hn₃ hw₃.gc hc₃
          (by constructor <;> rfl) ⟨rfl, rfl, rfl, rfl⟩, hvictim, hfits⟩)
      rw [hlen, hsum, List.length_nil, Nat.zero_add]

end FemuRemap
