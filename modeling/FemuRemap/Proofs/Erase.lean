/-
The erase of a collected superblock: once nothing maps into it, freeing
its pages one by one and appending its blocks to the empty lists makes
it an unused superblock of the pool again.
-/
import FemuRemap.Proofs.Migrate

namespace FemuRemap

open Lib

variable {c : Conf} {s s₁ : Ssd} {b f k q : Nat}

-- ======================================================= freeing pages

/-- The pages `P` were freed since `s₁`, and nothing else changed but
the statistics of it. -/
structure Freed (c : Conf) (s₁ : Ssd) (P : Nat → Prop) (s : Ssd) :
    Prop where
  freed : ∀ q, q < c.pageMappingEntryNb → P q → s.valid c q = 0
  others : ∀ q, q < c.pageMappingEntryNb → ¬ P q →
    s.valid c q = s₁.valid c q
  recount : Recount c s
  stats : Stats c s
  writes : SameWrites s₁.stat s.stat
  rest : s = { s₁ with
    blockStateTable := s.blockStateTable
    stat := s.stat }

variable {P : Nat → Prop}

/-- `UPDATE_BLOCK_STATE_ENTRY(0)` frees a page, whatever its state. -/
theorem Geo.free_step (g : Geo c) (h : Freed c s₁ P s)
    (hlo : ∀ q, q < c.pageMappingEntryNb → -1 ≤ s₁.valid c q)
    (hup : ∀ q, q < c.pageMappingEntryNb → s₁.valid c q ≤ 127)
    (hf : f < c.flashNb) (hb : b < c.blockNb) (hk : k < c.pageNb) :
    Step c (updateBlockStateEntry c f b k .free) s fun _ s' =>
      Freed c s₁ (fun q => P q ∨ q = ppnAt c f b k) s' := by
  have hq := ppnAt_lt hf hb hk
  have hbound : ∀ x, x < c.pageMappingEntryNb →
      -1 ≤ s.valid c x ∧ s.valid c x ≤ 127 := by
    intro x hx
    by_cases hP : P x
    · rw [h.freed x hx hP]
      decide
    · rw [h.others x hx hP]
      exact ⟨hlo x hx, hup x hx⟩
  -- whatever the statistics become, if they are moved along
  have hput : ∀ t, Moved (s.valid c (ppnAt c f b k)) 0 s.stat t →
      SameWrites s.stat t →
      Freed c s₁ (fun q => P q ∨ q = ppnAt c f b k)
        (putPage c f b k 0 t s) := by
    intro t ht hw
    have hset : putPage c f b k 0 t s
        = setValid c (ppnAt c f b k) 0 t s := by
      rw [setValid, flashOf_ppnAt f hb hk, blockOf_ppnAt f hb hk,
        pageOf_ppnAt f b hk]
    rw [hset]
    refine ⟨fun x hx hP => ?_, fun x hx hP => ?_,
      recount_setValid _ _ _ h.recount,
      g.stats_setValid hq h.stats ht, h.writes.trans hw, ?_⟩
    · rw [g.sized.valid_setValid hq]
      split
      · rfl
      · next hne => exact h.freed x hx (hP.resolve_right hne)
    · rw [not_or] at hP
      rw [g.sized.valid_setValid hq, if_neg hP.2, h.others x hx hP.1]
    · have hrest := h.rest
      unfold setValid putPage
      rw [hrest]
  unfold updateBlockStateEntry
  rw [if_neg (by omega)]
  refine Sat.get_bind ?_
  simp only [g.sized.getBlockStateEntry_valid s hf hb hk]
  have hroom := g.stats_roomy hq h.stats fun x hx => (hbound x hx).2
  split
  · next hv =>
      have hmoved := hroom.statFree hv
      refine Sat.mono (restatePage_step hmoved) ?_ fun _ _ he => he
      rintro _ _ rfl
      exact hput _ hmoved (sameWrites_statFree _ _)
  · next hv =>
      have hv0 : s.valid c (ppnAt c f b k) = 0 := by
        have := (hbound _ hq).1
        omega
      rw [if_pos hv0]
      have hmoved : Moved (s.valid c (ppnAt c f b k)) 0 s.stat s.stat := by
        rw [hv0]
        exact ⟨rfl, rfl, rfl, rfl, rfl⟩
      refine Sat.mono (restatePage_step hmoved) ?_ fun _ _ he => he
      rintro _ _ rfl
      exact hput _ hmoved (SameWrites.refl _)

theorem Freed.congr {P' : Nat → Prop} (h : Freed c s₁ P s)
    (hP : ∀ q, q < c.pageMappingEntryNb → (P q ↔ P' q)) :
    Freed c s₁ P' s :=
  { h with
    freed := fun q hq hP' => h.freed q hq ((hP q hq).2 hP')
    others := fun q hq hP' => h.others q hq fun hp => hP' ((hP q hq).1 hp) }

/-- `UPDATE_BLOCK_STATE(EMPTY_BLOCK)` frees all pages of a block. -/
theorem Geo.freeBlock_step (g : Geo c) (hr : Recount c s)
    (hs : Stats c s)
    (hlo : ∀ q, q < c.pageMappingEntryNb → -1 ≤ s.valid c q)
    (hup : ∀ q, q < c.pageMappingEntryNb → s.valid c q ≤ 127)
    (hf : f < c.flashNb) (hb : b < c.blockNb) :
    Step c (updateBlockState c f b .emptyBlock) s fun _ s' =>
      Freed c s (fun q => blockOf c q = b ∧ flashOf c q = f) s' := by
  have hv := valid_setType (c := c) (blockIndex c f b) .emptyBlock
    s.mappingTable s
  have h₀ : Freed c s (fun q => blockOf c q = b ∧ flashOf c q = f
        ∧ pageOf c q < 0)
      (setType (blockIndex c f b) .emptyBlock s.mappingTable s) := by
    refine ⟨fun q _ hP => absurd hP.2.2 (Nat.not_lt_zero _),
      fun q _ _ => hv q, ?_, ?_, SameWrites.refl _, rfl⟩
    · exact (local_set (I := anyBlock) (i := blockIndex c f b)
        (b := { s.blockStateTable (blockIndex c f b) with
          type := .emptyBlock }) trivial (fun hr => hr _) s.stat).recount hr
    · constructor <;> simp only [hv]
      · exact hs.free
      · exact hs.live
      · exact hs.invalid
      · exact hs.n21
      · exact hs.lpns
  refine Sat.modify_bind ?_
  rw [if_pos rfl]
  -- page by page; the set of freed pages grows by one
  refine Sat.mono (Sat.each_range (E := fun _ _ => False)
    (fun j s' => Freed c s (fun q => blockOf c q = b ∧ flashOf c q = f
      ∧ pageOf c q < j) s') ?_ h₀) ?_ fun _ _ he => he
  · intro j s' hj h'
    refine Sat.mono (g.free_step h' hlo hup hf hb hj) ?_
      fun _ _ he => he
    intro _ s'' h''
    refine h''.congr fun q _ => ?_
    constructor
    · rintro (⟨h₁, h₂, h₃⟩ | rfl)
      · exact ⟨h₁, h₂, by omega⟩
      · rw [blockOf_ppnAt f hb hj, flashOf_ppnAt f hb hj,
          pageOf_ppnAt f b hj]
        exact ⟨rfl, rfl, by omega⟩
    · rintro ⟨rfl, rfl, h₃⟩
      rcases Nat.lt_succ_iff_lt_or_eq.1 h₃ with h₃ | rfl
      · exact .inl ⟨rfl, rfl, h₃⟩
      · exact .inr (ppnAt_of q).symm
  · intro _ s' h'
    exact h'.congr fun q _ => by simp [g.sized.pageOf_lt q]

-- ============================================================== erasing

/-- Erasing a block leaves the content of the others. -/
theorem Geo.content_erase (g : Geo c) (hf : f < c.flashNb)
    (hb : b < c.blockNb) {x : Nat} (hx : blockOf c x ≠ b)
    (t : Table (Option Nat)) :
    ((List.range c.pageNb).foldl
      (fun t page => t.set (encodePpn c f b page) none) t) x = t x := by
  suffices key : ∀ (l : List Nat) (t : Table (Option Nat)),
      (∀ k ∈ l, k < c.pageNb) →
      (l.foldl (fun t page => t.set (encodePpn c f b page) none) t) x
        = t x from key _ t fun k hk => List.mem_range.1 hk
  intro l
  induction l with
  | nil => exact fun _ _ => rfl
  | cons k l ih =>
      intro t hl
      have hk := hl k (by simp)
      rw [List.foldl_cons, ih _ fun j hj => hl j (by simp [hj]),
        Table.get_set_ne]
      rintro rfl
      apply hx
      rw [g.sized.encodePpn_eq hf hb hk, blockOf_ppnAt f hb hk]

/-- Nothing maps into a block whose superblock nothing maps into. -/
theorem Geo.mappedInto_nil (g : Geo c)
    (h : ∀ L q, s.mappingTable L = some q → blockOf c q ≠ b) :
    mappedInto c s f b = [] := by
  unfold mappedInto
  rw [List.filter_eq_nil_iff]
  intro L _
  cases hL : s.mappingTable L with
  | none => simp
  | some q =>
      have := h L q hL
      simp [g.sized.calcBlock_eq, this]

/-- The first `n` blocks of superblock `b` were erased since `s₁` and
appended to their empty lists. -/
structure Erased (c : Conf) (b : Nat) (p : Pool) (s₁ : Ssd) (n : Nat)
    (s : Ssd) : Prop where
  freed : ∀ q, q < c.pageMappingEntryNb → blockOf c q = b →
    flashOf c q < n → s.valid c q = 0
  others : ∀ q, q < c.pageMappingEntryNb →
    ¬ (blockOf c q = b ∧ flashOf c q < n) → s.valid c q = s₁.valid c q
  recount : Recount c s
  stats : Stats c s
  writes : SameWrites s₁.stat s.stat
  lists : ∃ t, Table.Upto (rootOf c (p.release b)) n
      s₁.lists.emptyBlockList t
    ∧ s.lists = { s₁.lists with
        emptyBlockList := t
        totalEmptyBlockNb := s₁.lists.totalEmptyBlockNb + n }
  handed : ∀ i, i < c.blockNb * c.flashNb → s.handed i
    = if i % c.blockNb = b ∧ i / c.blockNb < n then []
      else s₁.handed i
  content : ∀ x, blockOf c x ≠ b → s.content x = s₁.content x
  rest : s = { s₁ with
    lists := s.lists
    blockStateTable := s.blockStateTable
    stat := s.stat
    content := s.content
    handed := s.handed }

variable {p : Pool} {H : Option Nat} {D : Nat → Prop}

/-- The blocks erased so far, one more than before. -/
theorem lt_succ_index (hb : b < c.blockNb) (i n : Nat) :
    (i % c.blockNb = b ∧ i / c.blockNb < n + 1)
      ↔ (i % c.blockNb = b ∧ i / c.blockNb < n)
        ∨ i = n * c.blockNb + b := by
  have hdiv := Nat.div_add_mod i c.blockNb
  rw [Nat.mul_comm] at hdiv
  constructor
  · rintro ⟨h₁, h₂⟩
    rcases Nat.lt_succ_iff_lt_or_eq.1 h₂ with h₂ | rfl
    · exact .inl ⟨h₁, h₂⟩
    · exact .inr (by omega)
  · rintro (⟨h₁, h₂⟩ | rfl)
    · exact ⟨h₁, by omega⟩
    · rw [Nat.mul_comm, Nat.mul_add_mod, Nat.mod_eq_of_lt hb,
        Nat.mul_add_div (by omega), Nat.div_eq_of_lt hb]
      exact ⟨rfl, by omega⟩

theorem Geo.eraseBlock_step (g : Geo c) {n : Nat}
    (h₁ : Pages c p [b] H D s₁) (hb : b < c.blockNb)
    (hm : ∀ L q, s₁.mappingTable L = some q → blockOf c q ≠ b)
    (h : Erased c b p s₁ n s) (hn : n < c.flashNb) :
    Step c (eraseBlock c b n) s fun _ s' => Erased c b p s₁ (n + 1) s' := by
  have hbound : ∀ x, x < c.pageMappingEntryNb →
      -1 ≤ s.valid c x ∧ s.valid c x ≤ 127 := by
    intro x hx
    by_cases hP : blockOf c x = b ∧ flashOf c x < n
    · rw [h.freed x hx hP.1 hP.2]
      decide
    · rw [h.others x hx hP]
      exact ⟨h₁.lower x hx, h₁.upper x hx⟩
  have hmap : mappedInto c s n b = [] := g.mappedInto_nil fun L q hL =>
    hm L q (by rw [h.rest] at hL; exact hL)
  -- `SSD_BLOCK_ERASE`
  refine Sat.bind (R := fun _ s' => s' = { s with
    handed := s.handed.set (blockIndex c n b) []
    content := (List.range c.pageNb).foldl
      (fun t page => t.set (encodePpn c n b page) none) s.content }) ?_ ?_
  · exact Sat.get_bind (Sat.emit_bind fun _ => ⟨trivial, Sat.emit_bind
      fun _ => ⟨hmap, Sat.modify rfl⟩⟩)
  rintro _ s₂ hs₂
  -- `UPDATE_BLOCK_STATE`
  refine Sat.bind (g.freeBlock_step (s := s₂) ?_ ?_ ?_ ?_ hn hb) ?_
  · rw [hs₂]
    exact h.recount
  · rw [hs₂]
    exact ⟨h.stats.free, h.stats.live, h.stats.invalid, h.stats.n21,
      h.stats.lpns⟩
  · rw [hs₂]
    exact fun q hq => (hbound q hq).1
  · rw [hs₂]
    exact fun q hq => (hbound q hq).2
  rintro _ s₃ h₃
  have hv₂ : ∀ q, s₂.valid c q = s.valid c q := fun q => by rw [hs₂]; rfl
  have hl₃ : s₃.lists = s.lists := by rw [h₃.rest, hs₂]
  -- `INSERT_EMPTY_BLOCK`
  obtain ⟨t, ht, hl⟩ := h.lists
  have hlen := PoolOk.length_le h₁.pool
  have hblk := g.sized.blockNb_le
  have htot := g.total
  simp only [List.length_singleton] at hlen
  have hroot : s₃.lists.emptyBlockList n = rootOf c p n := by
    rw [hl₃, hl]
    exact (ht.get_ge (Nat.le_refl n)).trans (h₁.lists.roots n hn)
  refine Sat.modify
    { freed := fun q hq hqb hqn => ?_
      others := fun q hq hP => ?_
      recount := h₃.recount
      stats := ⟨h₃.stats.free, h₃.stats.live, h₃.stats.invalid,
        h₃.stats.n21, h₃.stats.lpns⟩
      writes := h.writes.trans (by rw [hs₂] at h₃; exact h₃.writes)
      lists := ⟨_, ht.set, ?_⟩
      handed := fun i hi => ?_
      content := fun x hx => ?_
      rest := ?_ }
  · by_cases hqf : flashOf c q = n
    · exact h₃.freed q hq ⟨hqb, hqf⟩
    · refine (h₃.others q hq fun hP => hqf hP.2).trans ?_
      rw [hv₂]
      exact h.freed q hq hqb (by omega)
  · refine (h₃.others q hq fun hq' => ?_).trans ?_
    · exact hP ⟨hq'.1, by omega⟩
    · rw [hv₂]
      exact h.others q hq fun hP' => hP ⟨hP'.1, by omega⟩
  · simp only [g.insertEmptyBlock_eq hroot (by omega)]
    rw [hl₃, hl]
    simp only [Nat.cast_add, Nat.cast_one, Int.add_assoc]
  · have hh : s₃.handed = s.handed.set (blockIndex c n b) [] := by
      rw [h₃.rest, hs₂]
    rw [show _ = s₃.handed i from rfl, hh, Table.get_set,
      g.sized.blockIndex_eq hn hb, h.handed i hi]
    simp only [lt_succ_index hb i n]
    split_ifs <;> first | rfl | (exfalso; tauto)
  · have hc : s₃.content = (List.range c.pageNb).foldl
        (fun t page => t.set (encodePpn c n b page) none) s.content := by
      rw [h₃.rest, hs₂]
    rw [show _ = s₃.content x from rfl, hc, g.content_erase hn hb hx,
      h.content x hx]
  · rw [h₃.rest, hs₂, h.rest]

/-- The erase loop returns the drained superblock to the pool. -/
theorem Geo.erase_step (g : Geo c) (h : Current c p [b] none D s)
    (hb : b < c.blockNb)
    (hm : ∀ L q, s.mappingTable L = some q → blockOf c q ≠ b) :
    Step c (Prog.each (eraseBlock c b) (List.range c.flashNb)) s
      fun _ s' => Sound c (p.release b) s'
        ∧ s'.mappingTable = s.mappingTable ∧ s'.inNvram = s.inNvram
        ∧ s'.nvram = s.nvram ∧ SameWrites s.stat s'.stat
        ∧ ∀ x, blockOf c x ≠ b → s'.content x = s.content x := by
  have h₀ : Erased c b p s 0 s :=
    ⟨fun _ _ _ h0 => absurd h0 (Nat.not_lt_zero _), fun _ _ _ => rfl,
      h.pages.recount, h.pages.stats, SameWrites.refl _,
      ⟨_, Table.Upto.zero _ _, by simp⟩, fun i _ => by simp,
      fun _ _ => rfl, rfl⟩
  refine Sat.mono (Sat.each_range (E := fun _ _ => False)
    (fun n s' => Erased c b p s n s')
    (fun n s' hn h' => g.eraseBlock_step h.pages hb hm h' hn) h₀) ?_
    fun _ _ he => he
  -- all blocks are erased: nothing of the superblock was mapped, so the maps
  -- stay
  intro _ s' h'
  have hmap : s'.mappingTable = s.mappingTable := by rw [h'.rest]
  have hflag : s'.inNvram = s.inNvram := by rw [h'.rest]
  have hnv : s'.nvram = s.nvram := by rw [h'.rest]
  have hinv : s'.inverseMappingTable = s.inverseMappingTable := by
    rw [h'.rest]
  obtain ⟨t, ht, hl⟩ := h'.lists
  refine ⟨⟨?_, ?_, ?_⟩, hmap, hflag, hnv, h'.writes, h'.content⟩
  · refine g.pages_release h.pages ?_ ?_ hinv h'.recount
      (hnv ▸ h.pages.totals) h'.stats ?_ ?_
    · intro q hq hqb
      refine List.eq_nil_iff_forall_not_mem.2 fun L hL => ?_
      exact hm L q ((h.maps.mem_iff hq).1 hL) hqb
    · rw [hl]
      exact h.pages.lists.release ht
    · intro q hq
      split
      · next hqb => exact h'.freed q hq hqb (flashOf_lt hq)
      · next hqb => exact h'.others q hq fun hP => hqb hP.1
    · intro i hi
      rw [h'.handed i hi]
      have : i / c.blockNb < c.flashNb := Nat.div_lt_of_lt_mul hi
      simp [this]
  · rw [hmap]
    exact h.maps.congr fun q => by rw [Ssd.refs, hinv]; rfl
  · rw [hmap, hflag, hnv]
    exact h.records.settle hm

end FemuRemap
