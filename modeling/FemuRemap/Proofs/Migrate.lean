/-
The migration of a victim superblock: every live page is copied once,
and all the lpns that share it move along.

# Three loops

The innermost one empties the inverse list of an old page into that of
a new page, one lpn at a time (`moveLpn_step`, `migrateLpns_sat`). The
loops over the pages and over the blocks of the victim then build up a
relocation: `Moving` relates the state they started from to the current
one, by the set `D` of pages copied so far and the page `ρ q` that each
of them went to.
-/
import FemuRemap.Proofs.NewPage

namespace FemuRemap

open Lib

variable {c : Conf} {p : Pool} {out : List Nat} {H : Option Nat}
  {D : Nat → Prop} {s : Ssd} {o q L : Nat}

-- ============================================================= one lpn

/-- The tables of the moment are what is tracked. -/
abbrev Current (c : Conf) (p : Pool) (out : List Nat) (H : Option Nat)
    (D : Nat → Prop) (s : Ssd) : Prop :=
  Tracked c p out H D s.mappingTable.get s.inNvram.get none none s

/-- A page that can take another reference. -/
structure Target (c : Conf) (p : Pool) (out : List Nat) (H : Option Nat)
    (D : Nat → Prop) (s : Ssd) (q : Nat) : Prop where
  lt : q < c.pageMappingEntryNb
  live : ¬ D q
  used : Used c p out q
  inside : blockOf c q ∉ out
  count : s.valid c q = (s.refs q).length
  hole : H = none ∨ H = some q

/-- What moving an lpn to another page leaves alone. -/
structure Still (s s' : Ssd) : Prop where
  content : s'.content = s.content
  writes : SameWrites s.stat s'.stat
  invalid : ∀ b, (s'.nvram.oobTable b).invalidEntry
    = (s.nvram.oobTable b).invalidEntry

theorem Still.trans {s₁ s₂ s₃ : Ssd} (h : Still s₁ s₂)
    (h' : Still s₂ s₃) : Still s₁ s₃ :=
  ⟨h'.content.trans h.content, h.writes.trans h'.writes,
    fun b => (h'.invalid b).trans (h.invalid b)⟩

/-- The reference of an lpn to a drained page goes. -/
theorem Tracked.drain {m : Nat → Option Nat} {nv : Nat → Int}
    {x : Option (Nat × Nat)} {y : Option Nat}
    (h : Tracked c p out H D m nv x y s) (hD : D o) (hL : m L = some o) :
    Tracked c p out H D (Function.update m L none) nv x y
      (setRefs o ((s.refs o).erase L) s) := by
  obtain ⟨ho, hLN⟩ := h.maps.bound L o hL
  have hle := h.pages.le o ho
  refine ⟨h.pages.drain hD ?_, h.maps.detach hL (refs_setRefs o _ s),
    h.records.detach_keep hLN hL (.inr (h.pages.drained o hD))⟩
  exact (List.length_erase_le).trans hle

/-- The record of a moved lpn: in the page's own OOB when written with it, in
the NVRAM otherwise. -/
theorem Geo.recordOob_step (g : Geo c) {m : Nat → Option Nat}
    (h : Tracked c p out H D m s.inNvram.get (some (q, L)) none s)
    (hm : m L = none) (hq : q < c.pageMappingEntryNb)
    (hL : L < c.pageMappingEntryNb) (ho : blockOf c q ∉ out) (w : Bool)
    (hfirst : w = false → ∀ K, m K ≠ some q) :
    Step c (recordOob c w q L) s fun _ s' =>
      Tracked c p out H D (Function.update m L (some q)) s'.inNvram.get
          none none s'
        ∧ s'.mappingTable = s.mappingTable
        ∧ s'.inNvram = s.inNvram.set L (if w then 1 else 0)
        ∧ Still s s' := by
  cases w with
  | false =>
      refine Sat.modify ⟨?_, rfl, rfl, rfl, SameWrites.refl _,
        fun _ => rfl⟩
      rw [Table.get_set_eq]
      exact (h.attach_flash hm hq hL (hfirst rfl)).alike
        (by constructor <;> rfl)
  | true =>
      unfold recordOob
      rw [if_pos rfl, g.sized.calcBlock_eq]
      -- beyond the first lpn of a page there is no room in its OOB
      refine Sat.bind (updateNvramOob_step h (g.sized.blockOf_lt q) ho) ?_
      rintro _ s₁ ⟨h₁, hk, ht⟩
      refine Sat.modify_bind (Sat.emit fun _ => ⟨trivial, ?_, hk.mapping,
        ?_, hk.content, hk.writes, fun b => ?_⟩)
      · rw [Table.get_set_eq, hk.inNvram]
        exact (h₁.attach_nvram hm hq hL).alike (by constructor <;> rfl)
      · rw [hk.inNvram]
        rfl
      · dsimp only
        rw [ht]
        split
        · next hb =>
            rw [hb]
            exact (stored_putEntry _).2
        · rfl

/-- `L` moved from page `o` to page `q`. -/
structure MovedLpn (c : Conf) (p : Pool) (out : List Nat)
    (D : Nat → Prop) (L q : Nat) (w : Bool) (s s' : Ssd) : Prop where
  current : Current c p out none D s'
  mapping : s'.mappingTable = s.mappingTable.set L (some q)
  inNvram : s'.inNvram = s.inNvram.set L (if w then 1 else 0)
  still : Still s s'

/-- One round of the innermost loop. -/
theorem Geo.moveLpn_bind (g : Geo c) (h : Current c p out H D s)
    (hD : D o) (hL : s.mappingTable L = some o)
    (ht : Target c p out H D s q) (w : Bool)
    (hfirst : w = false → ∀ K, s.mappingTable K ≠ some q) {f : Ftl Unit}
    {Q : Unit → Ssd → Prop} {E : Fault → Ssd → Prop}
    (hf : ∀ s', MovedLpn c p out D L q w s s' →
      Sat NoWrap (Good c) f s' Q E) :
    Sat NoWrap (Good c) (do
      let _ ← decreaseInverseMapping (some o) L
      updateNewPageMapping c L q .dataBlock
      recordOob c w q L
      f) s Q E := by
  obtain ⟨ho, hLN⟩ := h.maps.bound L o hL
  -- the old page is drained already, the new one is live
  have hqo : q ≠ o := fun he => ht.live (he ▸ hD)
  refine Sat.silent_bind (decreaseInverseMapping_eq
    (h.pages.cnt o ho) (h.pages.le o ho) (h.maps.mem_refs hL)) ?_
  have hr₁ : (setRefs o ((s.refs o).erase L) s).refs q = s.refs q := by
    rw [refs_setRefs, if_neg hqo]
  refine Sat.bind (Step.sat (g.updateNewPageMapping_step
    (h.drain hD hL) ht.lt ht.live ht.used (by rw [hr₁]; exact ht.count)
    ht.hole L)) ?_
  rintro _ s₂ ⟨h₂, hk₂, hn₂⟩
  have hnv₂ : s₂.inNvram = s.inNvram := hk₂.inNvram
  refine Sat.bind (Step.sat (g.recordOob_step (hnv₂ ▸ h₂)
    (Function.update_self ..) ht.lt hLN ht.inside w
    fun hw => update_none_ne (hfirst hw))) ?_
  rintro _ s₃ ⟨h₃, hm₃, hnv₃, hs₃⟩
  have hmap : s₃.mappingTable = s.mappingTable.set L (some q) :=
    hm₃.trans hk₂.mapping
  refine hf s₃ ⟨?_, hmap, hnv₃.trans (by rw [hnv₂]), ?_⟩
  · rw [Function.update_idem] at h₃
    unfold Current
    rw [hmap, Table.get_set_eq]
    exact h₃
  · refine Still.trans ⟨hk₂.content, hk₂.writes, fun b => ?_⟩ hs₃
    rw [hn₂]
    rfl

-- ======================================================= one page's lpns

/-- Page `o` was emptied into page `q`. -/
structure Emptied (c : Conf) (p : Pool) (out : List Nat) (D : Nat → Prop)
    (o q : Nat) (s s' : Ssd) : Prop where
  current : Current c p out none D s'
  moved : ∀ K, s.mappingTable K = some o → s'.mappingTable K = some q
  stayed : ∀ K, s.mappingTable K ≠ some o →
    s'.mappingTable K = s.mappingTable K ∧ s'.inNvram K = s.inNvram K
  still : Still s s'

/-- With references left, a page can take more of them. -/
theorem Tracked.target (h : Current c p out none D s)
    (hL : s.mappingTable L = some q) (hD : ¬ D q)
    (ho : blockOf c q ∉ out) : Target c p out none D s q := by
  obtain ⟨hq, hu, hv, -⟩ := h.in_use hL hD
  exact ⟨hq, hD, hu, ho, hv, .inl rfl⟩

/-- The list of `o` after one lpn moved to another page. -/
theorem MovedLpn.length_refs {w : Bool} {s' : Ssd}
    (h : Current c p out H D s) (hL : s.mappingTable L = some o)
    (hqo : q ≠ o) (h' : MovedLpn c p out D L q w s s') :
    (s'.refs o).length + 1 = (s.refs o).length := by
  have ho := (h.maps.bound L o hL).1
  have hmem : L ∈ s.refs o := h.maps.mem_refs hL
  have hperm : (s'.refs o).Perm ((s.refs o).erase L) := by
    rw [List.perm_ext_iff_of_nodup (h'.current.maps.nodup ho)
      ((h.maps.nodup ho).erase L)]
    intro K
    rw [h'.current.maps.mem_iff ho, (h.maps.nodup ho).mem_erase_iff,
      h.maps.mem_iff ho, h'.mapping, Table.get_set]
    by_cases hK : K = L
    · simp [hK, hqo]
    · simp [hK]
  have := List.length_pos_of_mem hmem
  rw [hperm.length_eq, List.length_erase_of_mem hmem]
  omega

/-- The innermost loop empties the old page; of the lpns it moves, the
first one keeps its record in the flash. -/
theorem Geo.migrateLpns_sat (g : Geo c) (h : Current c p out H D s)
    (hD : D o) (ho : o < c.pageMappingEntryNb)
    (ht : Target c p out H D s q) (w : Bool)
    (hfirst : w = false → ∀ K, s.mappingTable K ≠ some q)
    (hH : H = none ∨ s.refs o ≠ []) (k : Nat) :
    Sat NoWrap (Good c) (migrateLpns c o q k w) s
      (fun _ s' => Emptied c p out D o q s s'
        ∧ (w = false → s.refs o ≠ [] →
          ∃ K, s.mappingTable K = some o ∧ s'.inNvram K = 0))
      fun e _ => e = .outOfFuel ∧ k ≤ (s.refs o).length := by
  have hqo : q ≠ o := fun he => ht.live (he ▸ hD)
  induction k generalizing s w H with
  | zero => exact Sat.fault ⟨rfl, Nat.zero_le _⟩
  | succ k ih =>
      refine Sat.get_bind ?_
      split
      · next hlast =>
          -- nothing left to move
          have hnil : s.refs o = [] := List.getLast?_eq_none_iff.1 hlast
          have hH : H = none := hH.resolve_right fun hne => hne hnil
          subst hH
          refine Sat.pure ⟨⟨h, fun K hK => ?_, fun K _ => ⟨rfl, rfl⟩,
            rfl, SameWrites.refl _, fun _ => rfl⟩,
            fun _ hne => absurd hnil hne⟩
          have := h.maps.mem_refs hK
          rw [hnil] at this
          simp at this
      · next L hlast =>
          have hmem : L ∈ s.refs o := List.mem_of_getLast? hlast
          have hL : s.mappingTable L = some o := (h.maps.mem_iff ho).1 hmem
          refine g.moveLpn_bind h hD hL ht w hfirst fun s₁ h₁ => ?_
          have hLq : s₁.mappingTable L = some q := by
            rw [h₁.mapping, Table.get_set_self]
          have hother : ∀ K, K ≠ L →
              s₁.mappingTable K = s.mappingTable K
                ∧ s₁.inNvram K = s.inNvram K := fun K hK => by
            rw [h₁.mapping, h₁.inNvram, Table.get_set_ne _ _ hK,
              Table.get_set_ne _ _ hK]
            exact ⟨rfl, rfl⟩
          have hlen := h₁.length_refs h hL hqo
          refine Sat.mono (ih h₁.current
            (h₁.current.target hLq ht.live ht.inside) true (by simp)
            (.inl rfl)) ?_ ?_
          · rintro _ s₂ ⟨h₂, -⟩
            have hLo : s₁.mappingTable L ≠ some o := by
              rw [hLq]
              simpa using hqo
            refine ⟨⟨h₂.current, fun K hK => ?_, fun K hK => ?_,
              h₁.still.trans h₂.still⟩, fun hw _ => ⟨L, hL, ?_⟩⟩
            · rcases eq_or_ne K L with rfl | hne
              · rw [(h₂.stayed K hLo).1, hLq]
              · exact h₂.moved K (by rw [(hother K hne).1, hK])
            · have hne : K ≠ L := by
                rintro rfl
                exact hK hL
              obtain ⟨h₃, h₄⟩ := hother K hne
              obtain ⟨h₅, h₆⟩ := h₂.stayed K (by rw [h₃]; exact hK)
              exact ⟨h₅.trans h₃, h₆.trans h₄⟩
            · rw [(h₂.stayed L hLo).2, h₁.inNvram, Table.get_set_self, hw]
              rfl
          · rintro e _ ⟨rfl, hle⟩
            exact ⟨rfl, by omega⟩

-- ============================================================ one page

/-- More pages may be drained. -/
theorem Tracked.mono {D' : Nat → Prop} {m : Nat → Option Nat}
    {nv : Nat → Int} {x : Option (Nat × Nat)} {y : Option Nat}
    (h : Tracked c p out H D m nv x y s) (hD : ∀ q, D q → D' q)
    (hout : ∀ q, D' q → blockOf c q ∈ out) :
    Tracked c p out H D' m nv x y s :=
  ⟨h.pages.mono hD hout, h.maps, h.records⟩

/-- The accesses of a copy: the content goes to the new page. -/
def copied (o q r w : Nat) (s : Ssd) : Ssd :=
  { s with
    content := s.content.set q (s.content o)
    stat := { s.stat with
      totalReadCount := r
      totalWriteCount := w
      gcWriteCount := u32 (s.stat.gcWriteCount + 1) } }

/-- A page that counts as live is on some lpn's list. -/
theorem Tracked.refs_ne_nil {m : Nat → Option Nat} {nv : Nat → Int}
    {x : Option (Nat × Nat)} {y : Option Nat}
    (h : Tracked c p out H D m nv x y s) (hq : q < c.pageMappingEntryNb)
    (hD : ¬ D q) (hv : 0 < s.valid c q) : s.refs q ≠ [] := fun hnil => by
  have := h.pages.dead q hq hD hnil
  omega

/-- Copying a live page of the victim to a page just handed out. -/
theorem Geo.copyPage_runs (g : Geo c) {b f k : Nat}
    (h : Current c p [b] (some q) D s) (hf : f < c.flashNb)
    (hb : b < c.blockNb) (hk : k < c.pageNb)
    (hv : 0 < s.valid c (ppnAt c f b k)) (hD : ¬ D (ppnAt c f b k))
    (hq : q < c.pageMappingEntryNb) (hu : Used c p [b] q)
    (hqb : blockOf c q ≠ b) (hm : ∀ K, s.mappingTable K ≠ some q)
    (fuel : Nat) (A : Prop) :
    Runs c fuel A (copyPage c fuel f b k q) s fun _ s' =>
      ∃ r w, Emptied c p [b] (fun x => D x ∨ x = ppnAt c f b k)
          (ppnAt c f b k) q (copied (ppnAt c f b k) q r w s) s'
        ∧ ∃ K, s.mappingTable K = some (ppnAt c f b k)
          ∧ s'.inNvram K = 0 := by
  have ho := ppnAt_lt hf hb hk
  have hob : blockOf c (ppnAt c f b k) = b := blockOf_ppnAt f hb hk
  have hne := h.refs_ne_nil ho hD hv
  have hlive := h.pages.live _ ho hD hne
  have hcnt := h.pages.cnt _ ho
  obtain ⟨hr, hv0⟩ := h.hole hq hm
  refine Sat.bind (Step.runs (ssdPageRead_step _ _ _)) ?_
  rintro _ _ ⟨r₁, w₁, rfl⟩
  refine Sat.bind (Step.runs (ssdPageWrite_step _ _ _)) ?_
  rintro _ _ ⟨r₂, w₂, rfl⟩
  refine Sat.modify_bind (Sat.modify_bind (Sat.get_bind ?_))
  -- the copy is in place; the counts agree, so nothing is reported
  rw [g.sized.oldPpn_eq hf hb hk, printErrorIf, if_neg (by
    rw [ne_eq, not_not, g.sized.getBlockStateEntry_valid _ hf hb hk]
    exact hlive.trans hcnt.symm)]
  refine Sat.pure_bind ?_
  have h₁ : Current c p [b] (some q)
      (fun x => D x ∨ x = ppnAt c f b k)
      (copied (ppnAt c f b k) q r₂ w₂ s) := by
    refine (h.mono (fun _ hD => .inl hD) fun x hx => ?_).alike
      (by constructor <;> rfl)
    rcases hx with hx | rfl
    · exact h.pages.drained x hx
    · simp [hob]
  have ht : Target c p [b] (some q) (fun x => D x ∨ x = ppnAt c f b k)
      (copied (ppnAt c f b k) q r₂ w₂ s) q := by
    refine ⟨hq, ?_, hu, by simpa using hqb, ?_, .inr rfl⟩
    · rintro (hx | rfl)
      · exact hqb (by simpa using h.pages.drained q hx)
      · exact hqb hob
    · show s.valid c q = (s.refs q).length
      rw [hr, hv0]
      rfl
  refine Sat.mono ((g.migrateLpns_sat h₁ (.inr rfl) ho ht false
    (fun _ => hm) (.inr hne) fuel).weaken fun _ => Good.allowed) ?_ ?_
  · rintro _ s' ⟨h', hflag⟩
    exact ⟨r₂, w₂, h', hflag rfl hne⟩
  · rintro e _ ⟨rfl, hle⟩
    have := h.pages.le _ ho
    exact .inl ⟨rfl, by
      unfold fuelBound
      exact (hle.trans this).trans (by omega)⟩

-- ========================================================== relocation

/-- From state `s₁` and pool `p₁`, with superblock `b` taken out, the
pages `D` of `b` were copied, page `q` to page `ρ q`; `l` are the
positions that were handed out for them. -/
structure Moving (c : Conf) (b : Nat) (p₁ : Pool) (s₁ : Ssd)
    (D : Nat → Prop) (ρ : Nat → Nat) (l : List (Nat × Nat)) (p : Pool)
    (s : Ssd) : Prop where
  current : Current c p [b] none D s
  chain : Pool.Chain c.sbPages p₁ l p
  grow : ∀ x, x < c.pageMappingEntryNb → Used c p₁ [b] x → Used c p [b] x
  left : ∀ q, D q → ∀ K, s.mappingTable K ≠ some q
  target : ∀ q, D q → ρ q < c.pageMappingEntryNb
    ∧ ¬ Used c p₁ [b] (ρ q) ∧ Used c p [b] (ρ q)
    ∧ (blockOf c (ρ q), posOf c (ρ q)) ∈ l
  inj : ∀ q q', D q → D q' → ρ q = ρ q' → q = q'
  moved : ∀ L q, s₁.mappingTable L = some q → D q →
    s.mappingTable L = some (ρ q)
  stayed : ∀ L, (∀ q, s₁.mappingTable L = some q → ¬ D q) →
    s.mappingTable L = s₁.mappingTable L ∧ s.inNvram L = s₁.inNvram L
  flagged : ∀ q, D q → ∃ L, s₁.mappingTable L = some q ∧ s.inNvram L = 0
  same : SameSb c b s₁ s
  kept : ∀ x, Used c p₁ [b] x → s.content x = s₁.content x
  carried : ∀ q, D q → s.content (ρ q) = s₁.content q
  invalid : ∀ x, (s.nvram.oobTable x).invalidEntry
    = (s₁.nvram.oobTable x).invalidEntry
  gcWrites : s.stat.gcWriteCount % 2 ^ 32
    = (s₁.stat.gcWriteCount + l.length) % 2 ^ 32

variable {b : Nat} {p₁ : Pool} {s₁ : Ssd} {ρ : Nat → Nat}
  {l : List (Nat × Nat)}

theorem Moving.init (h : Current c p₁ [b] none noPage s₁) :
    Moving c b p₁ s₁ noPage ρ [] p₁ s₁ where
  current := h
  chain := .nil
  grow _ _ hu := hu
  left _ hD := hD.elim
  target _ hD := hD.elim
  inj _ _ hD := hD.elim
  moved _ _ _ hD := hD.elim
  stayed _ _ := ⟨rfl, rfl⟩
  flagged _ hD := hD.elim
  same := SameSb.refl b s₁
  kept _ _ := rfl
  carried _ hD := hD.elim
  invalid _ := rfl
  gcWrites := rfl

/-- Targets are outside the victim. -/
theorem Moving.target_ne (h : Moving c b p₁ s₁ D ρ l p s) (hD : D q) :
    blockOf c (ρ q) ≠ b := fun hb =>
  (h.target q hD).2.1 (.inr (by simp [hb]))

/-- An lpn maps to a page not yet copied exactly when it did before. -/
theorem Moving.mapped_iff (h : Moving c b p₁ s₁ D ρ l p s)
    (hob : blockOf c o = b) (hD : ¬ D o) (K : Nat) :
    s.mappingTable K = some o ↔ s₁.mappingTable K = some o := by
  by_cases hK : ∃ q, s₁.mappingTable K = some q ∧ D q
  · obtain ⟨q, hq, hDq⟩ := hK
    have hne : ρ q ≠ o := fun he => h.target_ne hDq (he ▸ hob)
    have hne' : q ≠ o := fun he => hD (he ▸ hDq)
    rw [h.moved K q hq hDq, hq]
    simp [hne, hne']
  · rw [(h.stayed K fun q hq hDq => hK ⟨q, hq, hDq⟩).1]

/-- One more page is copied. -/
theorem Moving.step (h : Moving c b p₁ s₁ D ρ l p s) {p' : Pool}
    {r w : Nat} {x : Nat × Nat} {lists : BlockLists} {s' : Ssd}
    (hob : blockOf c o = b) (hD : ¬ D o) (hf : Fresh c p [b] D q p')
    (hx : x = (blockOf c q, posOf c q))
    (hchain : Pool.Chain c.sbPages p₁ (l ++ [x]) p')
    (h' : Emptied c p' [b] (fun y => D y ∨ y = o) o q
      (copied o q r w (takePage c q lists s)) s')
    (hflag : ∃ K, s.mappingTable K = some o ∧ s'.inNvram K = 0)
    (hsame : SameSb c b s s') :
    Moving c b p₁ s₁ (fun y => D y ∨ y = o) (Function.update ρ o q)
      (l ++ [x]) p' s' := by
  have hqb : blockOf c q ≠ b := by simpa using hf.inside
  have hqo : q ≠ o := fun he => hqb (he ▸ hob)
  have hqu : ¬ Used c p₁ [b] q := fun hu => hf.unused (h.grow q hf.lt hu)
  have hmoved : ∀ K, s.mappingTable K = some o →
      s'.mappingTable K = some q := h'.moved
  have hstay : ∀ K, s.mappingTable K ≠ some o →
      s'.mappingTable K = s.mappingTable K
        ∧ s'.inNvram K = s.inNvram K := h'.stayed
  have hcont : s'.content = s.content.set q (s.content o) :=
    h'.still.content
  -- on the pages copied before, `ρ` is as it was
  have hρ : ∀ y, D y → Function.update ρ o q y = ρ y := fun y hy =>
    Function.update_of_ne (by rintro rfl; exact hD hy) _ _
  have hρo : ∀ y, D y → ρ y ≠ o := fun y hy he =>
    h.target_ne hy (he ▸ hob)
  have hρq : ∀ y, D y → ρ y ≠ q := fun y hy he =>
    hf.unused (he ▸ (h.target y hy).2.2.1)
  have hgrow : ∀ y, y < c.pageMappingEntryNb → Used c p [b] y →
      Used c p' [b] y := fun y hy hu => (hf.used y hy).2 (.inl hu)
  refine
    { current := h'.current
      chain := hchain
      grow := fun y hy hu => hgrow y hy (h.grow y hy hu)
      left := ?_
      target := ?_
      inj := ?_
      moved := ?_
      stayed := ?_
      flagged := ?_
      same := h.same.trans hsame
      kept := fun y hu => ?_
      carried := ?_
      invalid := fun y => (h'.still.invalid y).trans (h.invalid y)
      gcWrites := ?_ }
  · intro y hy K hK
    by_cases hKo : s.mappingTable K = some o
    · rw [hmoved K hKo, Option.some.injEq] at hK
      rcases hy with hy | rfl
      · exact hf.live (hK ▸ hy)
      · exact hqo hK
    · rw [(hstay K hKo).1] at hK
      rcases hy with hy | rfl
      · exact h.left y hy K hK
      · exact hKo hK
  · rintro y (hy | rfl)
    · obtain ⟨h₁, h₂, h₃, h₄⟩ := h.target y hy
      rw [hρ y hy]
      exact ⟨h₁, h₂, hgrow _ h₁ h₃, List.mem_append_left _ h₄⟩
    · rw [Function.update_self]
      exact ⟨hf.lt, hqu, (hf.used q hf.lt).2 (.inr rfl), by simp [hx]⟩
  · rintro y y' (hy | rfl) (hy' | rfl) he
    · rw [hρ y hy, hρ y' hy'] at he
      exact h.inj y y' hy hy' he
    · rw [hρ y hy, Function.update_self] at he
      exact absurd he (hρq y hy)
    · rw [hρ y' hy', Function.update_self] at he
      exact absurd he.symm (hρq y' hy')
    · rfl
  · rintro L y hL (hy | rfl)
    · have hLρ := h.moved L y hL hy
      rw [hρ y hy, (hstay L (by rw [hLρ]; simpa using hρo y hy)).1, hLρ]
    · rw [Function.update_self]
      exact hmoved L ((h.mapped_iff hob hD L).2 hL)
  · intro L hL
    obtain ⟨h₁, h₂⟩ := h.stayed L fun y hy hDy => hL y hy (.inl hDy)
    have hLo : s.mappingTable L ≠ some o := fun he =>
      hL o ((h.mapped_iff hob hD L).1 he) (.inr rfl)
    obtain ⟨h₃, h₄⟩ := hstay L hLo
    exact ⟨h₃.trans h₁, h₄.trans h₂⟩
  · rintro y (hy | rfl)
    · obtain ⟨L, hL, hflag'⟩ := h.flagged y hy
      refine ⟨L, hL, ?_⟩
      rw [(hstay L (by
        rw [h.moved L y hL hy]; simpa using hρo y hy)).2, hflag']
    · obtain ⟨K, hK, hflag'⟩ := hflag
      exact ⟨K, (h.mapped_iff hob hD K).1 hK, hflag'⟩
  · rw [hcont, Table.get_set_ne _ _ (by rintro rfl; exact hqu hu),
      h.kept y hu]
  · rintro y (hy | rfl)
    · rw [hρ y hy, hcont, Table.get_set_ne _ _ (hρq y hy),
        h.carried y hy]
    · rw [Function.update_self, hcont, Table.get_set_self,
        h.kept y (.inr (by simp [hob]))]
  · have hw : s'.stat.gcWriteCount = u32 (s.stat.gcWriteCount + 1) :=
      h'.still.writes.gc
    have hg := h.gcWrites
    have := u32_mod (s.stat.gcWriteCount + 1)
    push_cast at this
    rw [hw, this, List.length_append, List.length_singleton]
    omega

/-- Copying a live page to a page just handed out is one more step. -/
theorem Geo.copyPage_moves (g : Geo c) {f k : Nat} {A : Prop}
    (h : Moving c b p₁ s₁ D ρ l p s) (hf : f < c.flashNb)
    (hb : b < c.blockNb) (hk : k < c.pageNb)
    (hv : 0 < s.valid c (ppnAt c f b k)) (hD : ¬ D (ppnAt c f b k))
    {p' : Pool} {s' : Ssd} (hn : NewPage c p s q p' s')
    (hfr : Fresh c p [b] D q p')
    (h' : Tracked c p' [b] (some q) D s.mappingTable.get s.inNvram.get
      none none s') (fuel : Nat) :
    Runs c fuel A (copyPage c fuel f b k q) s' fun _ s'' =>
      (∃ ρ' x, Moving c b p₁ s₁ (fun y => D y ∨ y = ppnAt c f b k) ρ'
        (l ++ [x]) p' s'')
      ∧ ∀ K, s''.mappingTable K
        = if s.mappingTable K = some (ppnAt c f b k) then some q
          else s.mappingTable K := by
  obtain ⟨b', k', ls, hnext, hq, rfl, -⟩ := hn
  obtain ⟨hb', hk'⟩ :=
    Pool.next_lt h.current.pages.pool g.sbPages_pos hnext
  have hqb : blockOf c q ≠ b := by simpa using hfr.inside
  have hi : blockIndex c (calcFlash c q) (calcBlock c q) % c.blockNb
      ≠ b := by
    rw [g.sized.pageIndex_mod hfr.lt]
    exact hqb
  -- the frame keeps the victim's block states, which the loops over its pages
  -- still read
  refine Sat.mono (Within.and_sat
    (framed_copyPage (I := fun i => i % c.blockNb ≠ b) fuel f b k q hi)
    (g.copyPage_runs (s := takePage c q ls s) h' hf hb hk hv hD hfr.lt
      ((hfr.used q hfr.lt).2 (.inr rfl)) hqb
      (h.current.unmapped hfr.unused hfr.live) fuel A)) ?_ fun _ _ he => he
  rintro _ s₃ ⟨⟨r, w, h₃, hflag⟩, hloc⟩
  refine ⟨⟨_, (b', k'), h.step (blockOf_ppnAt f hb hk) hD hfr ?_
    (h.chain.snoc hnext) h₃ hflag fun i hib => ?_⟩, fun K => ?_⟩
  · rw [hq, blockOf_pageAt hb' hk', posOf_pageAt hb' hk']
  · exact hloc.blocks i (by simpa using hib)
  · by_cases hK : s.mappingTable K = some (ppnAt c f b k)
    · rw [if_pos hK]
      exact h₃.moved K hK
    · rw [if_neg hK]
      exact (h₃.stayed K hK).1

/-- One live page goes to the pool's next page, all its lpns with it. -/
theorem Geo.migratePage_runs (g : Geo c) {f k : Nat} {A : Prop}
    (h : Moving c b p₁ s₁ D ρ l p s) (hf : f < c.flashNb)
    (hb : b < c.blockNb) (hk : k < c.pageNb)
    (hv : 0 < s.valid c (ppnAt c f b k)) (hD : ¬ D (ppnAt c f b k))
    (fuel : Nat) (hA : p.room c.sbPages = 0 → A) :
    Runs c fuel A (migratePage c fuel f b k) s fun r s' =>
      r = .success ∧ ∃ ρ' x p', Moving c b p₁ s₁
        (fun y => D y ∨ y = ppnAt c f b k) ρ' (l ++ [x]) p' s' := by
  refine Sat.bind (g.getNewPage_runs h.current fuel hA) ?_
  rintro _ s₂ ⟨q, p', rfl, hn, hfr, h₂⟩
  refine Sat.bind (g.copyPage_moves h hf hb hk hv hD hn hfr ?_ fuel) ?_
  · exact h₂
  rintro _ s₃ ⟨⟨ρ', x, h₃⟩, -⟩
  exact Sat.pure ⟨rfl, ρ', x, p', h₃⟩

-- =========================================================== the loops

theorem Moving.congr {D' : Nat → Prop} (h : Moving c b p₁ s₁ D ρ l p s)
    (hD : ∀ y, D y ↔ D' y) : Moving c b p₁ s₁ D' ρ l p s := by
  obtain rfl : D = D' := funext fun y => propext (hD y)
  exact h

/-- The victim's page states stay until the erase. -/
theorem Moving.valid_eq (h : Moving c b p₁ s₁ D ρ l p s)
    {f k : Nat} (hb : b < c.blockNb) (hk : k < c.pageNb) :
    s.valid c (ppnAt c f b k) = s₁.valid c (ppnAt c f b k) := by
  unfold Ssd.valid
  rw [h.same _ (blockOf_ppnAt f hb hk)]

/-- Room and the length of the chain. -/
theorem Moving.room (g : Geo c) (h : Moving c b p₁ s₁ D ρ l p s) :
    p₁.room c.sbPages = p.room c.sbPages + l.length :=
  h.chain.room g.sbPages_pos

/-- A page of block `f` of the victim that is live at the start. -/
abbrev LiveAt (c : Conf) (s₁ : Ssd) (f b k : Nat) : Prop :=
  0 < s₁.valid c (ppnAt c f b k)

/-- Besides `D`, the live ones of the pages `done` of block `f`. -/
abbrev Copied (c : Conf) (s₁ : Ssd) (f b : Nat) (D : Nat → Prop)
    (done : List Nat) (y : Nat) : Prop :=
  D y ∨ ∃ k ∈ done, y = ppnAt c f b k ∧ LiveAt c s₁ f b k

/-- A page the loop has not come to is not copied. -/
theorem not_copied (s₁ : Ssd) {f k : Nat} {done : List Nat}
    (hD : ¬ D (ppnAt c f b k)) (hk : k < c.pageNb)
    (hdone : ∀ j ∈ done, j < c.pageNb) (hkn : k ∉ done) :
    ¬ Copied c s₁ f b D done (ppnAt c f b k) := by
  rintro (h | ⟨j, hj, he, -⟩)
  · exact hD h
  · have hpage := congrArg (pageOf c) he
    rw [pageOf_ppnAt f b hk, pageOf_ppnAt f b (hdone j hj)] at hpage
    exact hkn (hpage ▸ hj)

/-- One page more of a block is done. -/
theorem copied_snoc {f k : Nat} (done : List Nat) (y : Nat) :
    Copied c s₁ f b D (done ++ [k]) y ↔ Copied c s₁ f b D done y
      ∨ (y = ppnAt c f b k ∧ LiveAt c s₁ f b k) := by
  simp only [Copied, List.mem_append, List.mem_singleton, or_and_right,
    exists_or, exists_eq_left, or_assoc]

/-- What the loop over `l` knows of `i`, the next page or block. -/
theorem nodup_split {i : Nat} {l done rest : List Nat} (h : l.Nodup)
    (hl : done ++ i :: rest = l) :
    i ∈ l ∧ i ∉ done ∧ ∀ j ∈ done, j ∈ l := by
  subst hl
  refine ⟨by simp, fun hi => ?_, fun j hj => by simp [hj]⟩
  exact (List.nodup_append.1 h).2.2 i hi i (by simp) rfl

/-- The loop over the pages of a block copies those that are live. -/
theorem Geo.migratePages_runs (g : Geo c) {f : Nat} {A : Prop}
    (h : Moving c b p₁ s₁ D ρ l p s) (hf : f < c.flashNb)
    (hb : b < c.blockNb) (fuel : Nat) (pages : List Nat)
    (hpages : ∀ k ∈ pages, k < c.pageNb ∧ ¬ D (ppnAt c f b k))
    (hnodup : pages.Nodup)
    (hA : p.room c.sbPages < pages.countP (LiveAt c s₁ f b) → A)
    (n : Nat) :
    Runs c fuel A (migratePages c fuel f b pages n) s fun r s' =>
      r = some (n + pages.countP (LiveAt c s₁ f b))
        ∧ ∃ ρ' l' p', Moving c b p₁ s₁ (Copied c s₁ f b D pages) ρ' l' p' s'
          ∧ l'.length = l.length + pages.countP (LiveAt c s₁ f b) := by
  -- the invariant counts what is live among the pages done; the pool has
  -- moved on by as many
  refine Sat.loop (fun done n' s' =>
    n' = n + done.countP (LiveAt c s₁ f b)
      ∧ ∃ ρ' l' p', Moving c b p₁ s₁ (Copied c s₁ f b D done) ρ' l' p' s'
        ∧ l'.length = l.length + done.countP (LiveAt c s₁ f b)) ?_ ?_
    ⟨rfl, ρ, l, p, h.congr (by simp), rfl⟩
  · rintro _ s' ⟨rfl, hm⟩
    exact Sat.pure ⟨rfl, hm⟩
  rintro done k rest _ s' hsplit ⟨rfl, ρ', l', p', h', hl'⟩ hnext
  obtain ⟨hmem, hkn, hdone⟩ := nodup_split hnodup hsplit
  obtain ⟨hk, hkD⟩ := hpages k hmem
  have hkD' := not_copied s₁ hkD hk
    (fun j hj => (hpages j (hdone j hj)).1) hkn
  refine Sat.get_bind ?_
  rw [g.sized.getBlockStateEntry_valid s' hf hb hk, h'.valid_eq hb hk]
  by_cases hv : LiveAt c s₁ f b k
  · have hcount : (done ++ [k]).countP (LiveAt c s₁ f b)
        = done.countP (LiveAt c s₁ f b) + 1 := by
      simp [List.countP_append, hv]
    have hle : (done ++ [k]).countP (LiveAt c s₁ f b)
        ≤ pages.countP (LiveAt c s₁ f b) := by
      rw [← hsplit, List.append_cons done k rest]
      exact (List.sublist_append_left _ _).countP_le
    have hroom := h.room g
    have hroom' := h'.room g
    rw [if_pos hv]
    refine Sat.bind (g.migratePage_runs h' hf hb hk
      (by rw [h'.valid_eq hb hk]; exact hv) hkD' fuel
      fun h0 => hA (by omega)) ?_
    rintro _ s₂ ⟨rfl, ρ₂, x, p₂, h₂⟩
    refine hnext _ s₂ ⟨by omega, ρ₂, _, p₂, h₂.congr fun y => ?_, ?_⟩
    · rw [copied_snoc]
      simp only [hv, and_true]
    · rw [List.length_append, List.length_singleton]
      omega
  · -- a page that is not live is skipped, and counts nothing
    have hcount : (done ++ [k]).countP (LiveAt c s₁ f b)
        = done.countP (LiveAt c s₁ f b) := by
      simp [List.countP_append, hv]
    rw [if_neg hv]
    refine hnext _ s' ⟨by rw [hcount], ρ', l', p', h'.congr fun y => ?_,
      by rw [hl', hcount]⟩
    rw [copied_snoc]
    simp only [hv, and_false, or_false]

/-- `valid_page_nb` of a block. -/
theorem Geo.countP_liveAt (g : Geo c) (hr : Recount c s) {f : Nat}
    (hf : f < c.flashNb) (hb : b < c.blockNb) :
    (List.range c.pageNb).countP (LiveAt c s f b)
      = (getBlockStateEntry c s f b).validPageNb := by
  unfold getBlockStateEntry
  rw [hr]
  refine List.countP_congr fun k hk => ?_
  have hv := g.sized.getBlockStateEntry_valid s hf hb (List.mem_range.1 hk)
  simp only [decide_eq_true_eq, LiveAt]
  rw [← hv]
  rfl

/-- `valid_page_nb` of blocks `fs` of superblock `b`. -/
def liveSum (c : Conf) (s : Ssd) (b : Nat) (fs : List Nat) : Nat :=
  (fs.map fun f => (getBlockStateEntry c s f b).validPageNb).sum

/-- Besides `D`, the live pages of the blocks `done`. -/
abbrev CopiedBlocks (c : Conf) (s₁ : Ssd) (b : Nat) (D : Nat → Prop)
    (done : List Nat) (y : Nat) : Prop :=
  D y ∨ ∃ f ∈ done, ∃ k, k < c.pageNb ∧ y = ppnAt c f b k
    ∧ LiveAt c s₁ f b k

/-- A page of a block not reached yet is not done. -/
theorem not_copiedBlocks {f k : Nat} {done : List Nat}
    (hD : ¬ D (ppnAt c f b k)) (hb : b < c.blockNb) (hk : k < c.pageNb)
    (hfn : f ∉ done) : ¬ CopiedBlocks c s₁ b D done (ppnAt c f b k) := by
  rintro (h | ⟨f', hf', j, hj, he, -⟩)
  · exact hD h
  · have hflash := congrArg (flashOf c) he
    rw [flashOf_ppnAt f hb hk, flashOf_ppnAt f' hb hj] at hflash
    exact hfn (hflash ▸ hf')

/-- One block more of the superblock is done. -/
theorem copiedBlocks_snoc {f : Nat} (done : List Nat) (y : Nat) :
    CopiedBlocks c s₁ b D (done ++ [f]) y
      ↔ Copied c s₁ f b (CopiedBlocks c s₁ b D done)
        (List.range c.pageNb) y := by
  simp only [Copied, CopiedBlocks, List.mem_append, List.mem_singleton,
    or_and_right, exists_or, exists_eq_left, or_assoc, List.mem_range]

/-- The live pages of one block more. -/
theorem liveSum_snoc (s : Ssd) (b f : Nat) (done : List Nat) :
    liveSum c s b (done ++ [f]) = liveSum c s b done
      + (getBlockStateEntry c s f b).validPageNb := by
  simp [liveSum]

/-- The loop over the blocks copies all live pages of the victim; its
check of `valid_page_nb` never fails. -/
theorem Geo.migrateBlocks_runs (g : Geo c) {A : Prop}
    (h : Moving c b p₁ s₁ D ρ l p s) (hr : Recount c s₁)
    (hb : b < c.blockNb) (fuel : Nat) (fs : List Nat)
    (hfs : ∀ f ∈ fs, f < c.flashNb
      ∧ ∀ k, k < c.pageNb → ¬ D (ppnAt c f b k))
    (hnodup : fs.Nodup)
    (hA : p.room c.sbPages < liveSum c s₁ b fs → A) (n : Nat) :
    Runs c fuel A (migrateBlocks c fuel b fs n) s fun r s' =>
      r = some (n + liveSum c s₁ b fs)
        ∧ ∃ ρ' l' p', Moving c b p₁ s₁ (CopiedBlocks c s₁ b D fs) ρ' l' p' s'
          ∧ l'.length = l.length + liveSum c s₁ b fs := by
  refine Sat.loop (fun done n' s' => n' = n + liveSum c s₁ b done
      ∧ ∃ ρ' l' p', Moving c b p₁ s₁ (CopiedBlocks c s₁ b D done) ρ' l' p' s'
        ∧ l'.length = l.length + liveSum c s₁ b done) ?_ ?_
    ⟨rfl, ρ, l, p, h.congr (by simp), rfl⟩
  · rintro _ s' ⟨rfl, hm⟩
    exact Sat.pure ⟨rfl, hm⟩
  rintro done f rest _ s' hsplit ⟨rfl, ρ', l', p', h', hl'⟩ hnext
  obtain ⟨hmem, hfn, -⟩ := nodup_split hnodup hsplit
  obtain ⟨hf, hfD⟩ := hfs f hmem
  have hcount := g.countP_liveAt hr hf hb
  have hsum := liveSum_snoc (c := c) s₁ b f done
  have hle : liveSum c s₁ b (done ++ [f]) ≤ liveSum c s₁ b fs := by
    rw [← hsplit, List.append_cons done f rest]
    simp [liveSum]
  have hroom := h.room g
  have hroom' := h'.room g
  refine Sat.bind (g.migratePages_runs h' hf hb fuel (List.range c.pageNb)
    (fun k hk => ⟨List.mem_range.1 hk, not_copiedBlocks
      (hfD k (List.mem_range.1 hk)) hb (List.mem_range.1 hk) hfn⟩)
    List.nodup_range (fun h0 => hA (by omega)) 0) ?_
  rintro _ s₂ ⟨rfl, ρ₂, l₂, p₂, h₂, hl₂⟩
  refine Sat.get_bind ?_
  rw [if_neg (by rw [h₂.same.entry_eq g hf hb, hcount]; omega)]
  exact hnext _ s₂ ⟨by omega, ρ₂, l₂, p₂,
    h₂.congr fun y => (copiedBlocks_snoc done y).symm, by omega⟩

end FemuRemap
