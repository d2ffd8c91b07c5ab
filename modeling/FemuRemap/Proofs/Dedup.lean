/-
Deduplication only shares live pages of the same fingerprint.

`Sharing` holds between requests, in every run in which no count wraps.
A write leaves its lpn on a page of the fingerprint drawn for it, by
finding it there, by remapping the lpn to a page that the fingerprint
names, or by programming one. A collection moves the names with the
pages: the name of a page that was copied follows it, whichever page of
that fingerprint was named before.
-/
import FemuRemap.Proofs.Agreement
import FemuRemap.Proofs.Fingerprints

namespace FemuRemap.Dedup

open Lib

variable {c : Conf} {u : Nat} {d : State} {p : Pool} {o q r b : Nat}

-- ========================================================== collection

/-- All references to `o` go to `q`. -/
theorem referred_move {m m' : Nat → Option Nat} (ho : ∃ K, m K = some o)
    (hm : ∀ K, m' K = if m K = some o then some q else m K) :
    Referred m' none r ↔ (Referred m none r ∧ r ≠ o) ∨ r = q := by
  rw [referred_none, referred_none]
  constructor
  · rintro ⟨K, hK⟩
    rw [hm] at hK
    by_cases hKo : m K = some o
    · rw [if_pos hKo, Option.some.injEq] at hK
      exact .inr hK.symm
    · rw [if_neg hKo] at hK
      exact .inl ⟨⟨K, hK⟩, fun hr => hKo (hr ▸ hK)⟩
  · rintro (⟨⟨K, hK⟩, hr⟩ | rfl)
    · refine ⟨K, ?_⟩
      rw [hm, hK, if_neg (by simpa using hr)]
    · obtain ⟨K, hK⟩ := ho
      exact ⟨K, by rw [hm, if_pos hK]⟩

/-- The fingerprint of a copied page goes along. -/
theorem keeps_moveFingerprint {m m' : Nat → Option Nat}
    (h : Marked u m none d) (ho : ∃ K, m K = some o)
    (hq : ∀ K, m K ≠ some q)
    (hm : ∀ K, m' K = if m K = some o then some q else m K) :
    Keeps (moveFingerprint u o q) d fun _ d' =>
      d'.ssd = d.ssd ∧ Marked u m' none d' := by
  have hold : Referred m none o := referred_none.2 ho
  have hnew : ¬ Referred m none q := by
    rw [referred_none]
    rintro ⟨K, hK⟩
    exact hq K hK
  obtain ⟨f, hf, hfu⟩ := h.keyed o hold
  refine Sat.get_bind (Sat.modify_bind ?_)
  rw [hf]
  refine Sat.bind (keeps_warnIf (e := .fingRange) fun hout => ?_) ?_
  · rw [inRange_eq hfu] at hout
    cases hout
  intro _ _ hst
  subst hst
  refine Sat.bind (keeps_setFingerprint hfu (some q)) ?_
  intro _ _ hst
  subst hst
  refine Sat.modify ⟨rfl, ?_⟩
  show Indexed (Referred m' none)
    ((d.recorded.set o none).set q (some f)).get (Fing u)
    (d.fingerprint.set f (some q)).get
  rw [Table.get_set_eq, Table.get_set_eq, Table.get_set_eq]
  exact h.move hold hnew hf none fun _ => referred_move ho hm

/-- A migration with its marks. -/
structure Migrating (c : Conf) (u b : Nat) (p₁ : Pool) (s₁ : Ssd)
    (D : Nat → Prop) (d : State) : Prop where
  marked : Marked u d.ssd.mappingTable.get none d
  moving : ∃ ρ l p, Moving c b p₁ s₁ D ρ l p d.ssd

variable {p₁ : Pool} {s₁ : Ssd} {D : Nat → Prop}

theorem Migrating.congr {D' : Nat → Prop}
    (h : Migrating c u b p₁ s₁ D d) (hD : ∀ y, D y ↔ D' y) :
    Migrating c u b p₁ s₁ D' d := by
  obtain ⟨hk, ρ, l, p, hm⟩ := h
  exact ⟨hk, ρ, l, p, hm.congr hD⟩

/-- One live page of the victim: its fingerprint follows it to the new
page. -/
theorem keeps_migratePage (g : Geo c) {f k : Nat}
    (h : Migrating c u b p₁ s₁ D d) (hf : f < c.flashNb)
    (hb : b < c.blockNb) (hk : k < c.pageNb)
    (hv : LiveAt c s₁ f b k) (hD : ¬ D (ppnAt c f b k)) (fuel : Nat) :
    Keeps (migratePage c u fuel f b k) d fun r d' => r = .success
      ∧ Migrating c u b p₁ s₁ (fun y => D y ∨ y = ppnAt c f b k) d' := by
  obtain ⟨hmark, ρ, l, p, hmov⟩ := h
  have hv' : 0 < d.ssd.valid c (ppnAt c f b k) := by
    rw [hmov.valid_eq hb hk]
    exact hv
  have ho := ppnAt_lt hf hb hk
  obtain ⟨K, hK⟩ := List.exists_mem_of_ne_nil _
    (hmov.current.refs_ne_nil ho hD hv')
  refine keeps_lift_bind (g.getNewPage_runs (A := True) hmov.current fuel
    fun _ => trivial) ?_
  intro _ s₂ hpost
  obtain ⟨q, p', rfl, hn, hfr, h₂⟩ := hpost
  refine keeps_lift_bind (g.copyPage_moves (A := True) hmov hf hb hk hv' hD
    hn hfr h₂ fuel) ?_
  intro _ s₃ hpost
  obtain ⟨⟨ρ', x, h₃⟩, hmap⟩ := hpost
  rw [oldPpn_eq_encodePpn, g.sized.encodePpn_eq hf hb hk]
  refine Sat.bind (keeps_moveFingerprint (d := { d with ssd := s₃ }) hmark
    ⟨K, (hmov.current.maps.mem_iff ho).1 hK⟩
    (hmov.current.unmapped hfr.unused hfr.live) hmap) ?_
  intro _ d₄ hpost
  obtain ⟨hs, hk₄⟩ := hpost
  have hs : d₄.ssd = s₃ := hs
  exact Sat.pure ⟨rfl, by rw [hs]; exact hk₄, ρ', _, p', hs ▸ h₃⟩

/-- The loop over the pages of a block. -/
theorem keeps_migratePages (g : Geo c) {f : Nat}
    (h : Migrating c u b p₁ s₁ D d) (hf : f < c.flashNb)
    (hb : b < c.blockNb) (fuel : Nat) (pages : List Nat)
    (hpages : ∀ k ∈ pages, k < c.pageNb ∧ ¬ D (ppnAt c f b k))
    (hnodup : pages.Nodup) (n : Nat) :
    Keeps (migratePages c u fuel f b pages n) d fun r d' =>
      r = some (n + pages.countP (LiveAt c s₁ f b))
        ∧ Migrating c u b p₁ s₁ (Copied c s₁ f b D pages) d' := by
  refine Sat.loop (fun done n' d' =>
    n' = n + done.countP (LiveAt c s₁ f b)
      ∧ Migrating c u b p₁ s₁ (Copied c s₁ f b D done) d') ?_ ?_
    ⟨rfl, h.congr (by simp)⟩
  · intro _ d' hpost
    obtain ⟨rfl, hm⟩ := hpost
    exact Sat.pure ⟨rfl, hm⟩
  rintro done k rest _ d' hsplit ⟨rfl, h'⟩ hnext
  obtain ⟨hmem, hkn, hdone⟩ := nodup_split hnodup hsplit
  obtain ⟨hk, hkD⟩ := hpages k hmem
  have hkD' := not_copied s₁ hkD hk
    (fun j hj => (hpages j (hdone j hj)).1) hkn
  obtain ⟨ρ, l, p, hmov⟩ := h'.moving
  refine Sat.get_bind ?_
  rw [g.sized.getBlockStateEntry_valid d'.ssd hf hb hk, hmov.valid_eq hb hk]
  by_cases hv : LiveAt c s₁ f b k
  · rw [if_pos hv]
    refine Sat.bind (keeps_migratePage g h' hf hb hk hv hkD' fuel) ?_
    intro _ d₂ hpost
    obtain ⟨rfl, h₂⟩ := hpost
    refine hnext _ d₂ ⟨by simp [List.countP_append, hv, Nat.add_assoc],
      h₂.congr fun y => ?_⟩
    rw [copied_snoc]
    simp only [hv, and_true]
  · rw [if_neg hv]
    refine hnext _ d' ⟨by simp [List.countP_append, hv],
      h'.congr fun y => ?_⟩
    rw [copied_snoc]
    simp only [hv, and_false, or_false]

/-- The loop over the blocks of the victim. -/
theorem keeps_migrateBlocks (g : Geo c) (h : Migrating c u b p₁ s₁ D d)
    (hr : Recount c s₁) (hb : b < c.blockNb) (fuel : Nat) (fs : List Nat)
    (hfs : ∀ f ∈ fs, f < c.flashNb
      ∧ ∀ k, k < c.pageNb → ¬ D (ppnAt c f b k))
    (hnodup : fs.Nodup) (n : Nat) :
    Keeps (migrateBlocks c u fuel b fs n) d fun r d' =>
      (∃ n', r = some n')
        ∧ Migrating c u b p₁ s₁ (CopiedBlocks c s₁ b D fs) d' := by
  refine Sat.loop (fun done _ d' =>
    Migrating c u b p₁ s₁ (CopiedBlocks c s₁ b D done) d') ?_ ?_
    (h.congr (by simp))
  · intro n' d' hm
    exact Sat.pure ⟨⟨n', rfl⟩, hm⟩
  intro done f rest n' d' hsplit h' hnext
  obtain ⟨hmem, hfn, -⟩ := nodup_split hnodup hsplit
  obtain ⟨hf, hfD⟩ := hfs f hmem
  refine Sat.bind (keeps_migratePages g h' hf hb fuel (List.range c.pageNb)
    (fun k hk => ⟨List.mem_range.1 hk, not_copiedBlocks
      (hfD k (List.mem_range.1 hk)) hb (List.mem_range.1 hk) hfn⟩)
    List.nodup_range 0) ?_
  intro _ d₂ hpost
  obtain ⟨rfl, h₂⟩ := hpost
  obtain ⟨ρ, l, p, hmov⟩ := h₂.moving
  refine Sat.get_bind ?_
  rw [if_neg (by
    rw [hmov.same.entry_eq g hf hb, g.countP_liveAt hr hf hb]
    omega)]
  exact hnext _ d₂ (h₂.congr fun y => (copiedBlocks_snoc done y).symm)

/-- The state changed in what is neither tracked nor the map. -/
theorem Sharing.alike {s : Ssd} (h : Sharing c u p d)
    (ha : Alike d.ssd s) (hm : s.mappingTable = d.ssd.mappingTable)
    (hnv : s.inNvram = d.ssd.inNvram) :
    Sharing c u p { d with ssd := s } := by
  refine ⟨?_, ?_⟩
  · unfold Sound
    rw [hm, hnv]
    exact h.sound.alike ha
  · show Marked u s.mappingTable.get none _
    rw [hm]
    exact h.marked

/-- From the choice of the victim to its migration. -/
theorem openVictim_step {s : Ssd} (hb : b < c.blockNb) (l : BlockLists) :
    Step c (do
      reportCollect c b
      readVictimOob c b
      updateNvramOob c b false) { s with lists := l } fun _ s' =>
      s' = ejected c b l s := by
  refine Sat.bind (R := fun _ s' => s' = { s with lists := l }) ?_ ?_
  · exact Sat.get_bind (Sat.emit fun _ => ⟨trivial, rfl⟩)
  intro _ _ hst
  subst hst
  refine Sat.bind (readVictimOob_step b) ?_
  intro _ _ hst
  subst hst
  exact ejected_step hb l

/-- One collection, its early returns included. -/
theorem keeps_sbGarbageCollection (g : Geo c) (h : Sharing c u p d)
    (fuel : Nat) :
    Keeps (sbGarbageCollection c u fuel) d fun _ d' =>
      ∃ p', Sharing c u p' d' := by
  refine keeps_lift_bind (G := fun _ => True) (E := fun _ _ => False)
    (g.selectVictimSuperblock_sat h.sound.pages.lists h.sound.pages.pool
      h.sound.pages.recount fun _ => ⟨trivial, trivial⟩) ?_
  intro r s₁ hr
  cases r with
  | none =>
      obtain ⟨-, t, rfl⟩ := hr
      exact Sat.pure ⟨p, h.alike (by constructor <;> rfl) rfl rfl⟩
  | some b =>
      obtain ⟨i, bl, hi, rfl, hl, -, -⟩ := hr
      have hb : b < c.blockNb := h.sound.pages.pool.lt_of_mem (by
        simp [Pool.blocks, List.mem_of_getElem? hi])
      refine keeps_lift_bind (openVictim_step hb bl) ?_
      intro _ _ hst
      subst hst
      -- the migration
      have h₁ := h.sound.ejected hi hb hl
      have hmig : Migrating c u b (p.eject i) (ejected c b bl d.ssd) noPage
          { d with ssd := ejected c b bl d.ssd } :=
        ⟨h.marked, id, [], p.eject i, Moving.init h₁⟩
      rw [g.sbBlkNb]
      refine Sat.bind (keeps_migrateBlocks g hmig h₁.pages.recount hb fuel
        (List.range c.flashNb)
        (fun f hf => ⟨List.mem_range.1 hf, fun _ _ => id⟩)
        List.nodup_range 0) ?_
      intro _ d₂ hpost
      obtain ⟨⟨n, rfl⟩, hk₂, ρ, l, p₂, h₂⟩ := hpost
      -- the erase
      have hdone := h₂.done h.sound (g.copiedBlocks_iff hb bl)
      refine keeps_lift_bind (R := fun _ s => Sound c (p₂.release b) s
        ∧ s.mappingTable = d₂.ssd.mappingTable) (Sat.modify_bind (Sat.bind
          (g.erase_step (h₂.current.alike (by constructor <;> rfl)) hb
            hdone) ?_)) ?_
      · intro _ s₃ hpost
        obtain ⟨h₃, hm₃, -⟩ := hpost
        exact Sat.modify ⟨h₃.alike (by constructor <;> rfl), hm₃⟩
      intro _ s₃ hpost
      obtain ⟨h₃, hm₃⟩ := hpost
      refine Sat.pure ⟨p₂.release b, h₃, ?_⟩
      show Marked u s₃.mappingTable.get none _
      rw [hm₃]
      exact hk₂

/-- The loop of `GC_CHECK`. -/
theorem keeps_gcCheckLoop (g : Geo c) (fuel rounds : Nat)
    (h : Sharing c u p d) :
    Keeps (gcCheckLoop c u fuel rounds) d fun _ d' =>
      ∃ p', Sharing c u p' d' := by
  induction rounds generalizing d p with
  | zero => exact Sat.fault nofun
  | succ rounds ih =>
      refine Sat.get_bind ?_
      split
      case isFalse => exact Sat.pure ⟨p, h⟩
      case isTrue =>
        refine Sat.bind (keeps_sbGarbageCollection g h fuel) ?_
        intro r d₁ hpost
        obtain ⟨p₁, h₁⟩ := hpost
        cases r with
        | fail => exact Sat.pure ⟨p₁, h₁⟩
        | success =>
            exact keeps_modify_bind
              (ih (h₁.alike (by constructor <;> rfl) rfl rfl))

theorem keeps_gcCheck (g : Geo c) (fuel : Nat) (h : Sharing c u p d) :
    Keeps (gcCheck c u fuel) d fun _ d' => ∃ p', Sharing c u p' d' := by
  refine Sat.bind (keeps_gcCheckLoop g fuel fuel h) ?_
  intro _ d₁ h₁
  exact Sat.get_bind (Sat.emit fun _ => ⟨trivial, h₁⟩)

-- ============================================================== writing

/-- `USE_REMAP` for the page of a fingerprint. -/
theorem askRemap_step (h : Sound c p d.ssd) (hPpn : Option Nat) :
    Step c (askRemap c hPpn) d.ssd fun r s => Sound c p s
      ∧ (∃ n, s = { d.ssd with nvram := n })
      ∧ (r = .success → ∃ q, hPpn = some q) := by
  cases hPpn with
  | none => exact Sat.pure ⟨h, ⟨_, rfl⟩, nofun⟩
  | some q =>
      refine Sat.mono (h.useRemap_step _) ?_ fun _ _ he => he
      intro r s' hpost
      obtain ⟨hc, -⟩ := hpost
      exact ⟨hc.sound, hc.only, fun _ => ⟨q, rfl⟩⟩

/-- One page of `_FTL_WRITE`: its lpn ends on a page of the drawn
fingerprint. -/
theorem keeps_writePage (g : Geo c) (h : Sharing c u p d) (fuel : Nat)
    {fing : Nat} (hf : Fing u fing) {slot : Slot}
    (hL : slot.lpn < c.pageMappingEntryNb) (last : Option Nat) :
    Keeps (writePage c u fuel fing slot last) d fun r d' =>
      (∃ q, r = some q) ∧ (∃ p', Sharing c u p' d')
        ∧ Carries d' slot.lpn fing := by
  refine Sat.bind (keeps_warnIf fun _ => trivial) ?_
  intro _ d hst
  subst hst
  refine Sat.get_bind ?_
  dsimp only
  split
  · -- the lpn has this data already: nothing is written
    next hsame =>
      obtain ⟨q, hq⟩ := Option.ne_none_iff_exists'.1 hsame.1
      have hrec := (h.marked.found fing q hq).2
      refine keeps_modify_bind (Sat.emit_bind fun _ => ⟨trivial, ?_⟩)
      exact Sat.pure ⟨⟨last, rfl⟩,
        ⟨p, h.alike (by constructor <;> rfl) rfl rfl⟩, q,
        hsame.2.symm.trans hq, hrec⟩
  · refine keeps_lift_bind (askRemap_step h.sound _) ?_
    intro r _ hpost
    obtain ⟨h₁, ⟨n, rfl⟩, hr⟩ := hpost
    have h₁ : Sharing c u p { d with ssd := { d.ssd with nvram := n } } :=
      ⟨h₁, h.marked⟩
    cases r with
    | fail =>
        refine Sat.bind (keeps_programPage g h₁ fuel hf hL) ?_
        intro _ d₂ hpost
        obtain ⟨⟨q, rfl⟩, h₂, hc⟩ := hpost
        exact Sat.pure ⟨⟨some q, rfl⟩, h₂, hc⟩
    | success =>
        obtain ⟨q, hq⟩ := hr rfl
        obtain ⟨hlive, hrec⟩ := h.marked.found fing q hq
        obtain ⟨K, hK⟩ := referred_none.1 hlive
        rw [hq]
        refine Sat.bind (keeps_remapLpn g h₁ (K := K) hK hL true true
          none) ?_
        intro _ d₂ h₂
        refine Sat.pure ⟨⟨last, rfl⟩, ⟨p, h₂.sharing⟩, q, ?_, ?_⟩
        · rw [h₂.mapping]
          exact Function.update_self ..
        · rw [h₂.recorded]
          exact hrec

/-- What is reported of a page after it was written. -/
theorem keeps_reportWritten (g : Geo c) (h : Sharing c u p d)
    {fing lpn : Nat} (hc : Carries d lpn fing) :
    Keeps (reportWritten c fing lpn) d fun _ d' => d' = d := by
  obtain ⟨q, hq, hrec⟩ := hc
  have hlive := h.sound.live hq
  refine Sat.get_bind (Sat.emit fun _ => ⟨?_, rfl⟩)
  refine ⟨d.ssd.valid c q, ?_, hlive.valid⟩
  rw [hq, Option.map_some, hrec, g.sized.calcFlash_eq hlive.lt,
    g.sized.calcBlock_eq, g.sized.calcPage_eq,
    g.sized.validArray_page d.ssd hlive.lt]

/-- The loop of `_FTL_WRITE`. -/
theorem keeps_writePages (g : Geo c) (fuel : Nat) {fing : Nat → Nat}
    (hf : Draws u fing) (l : List Slot)
    (hl : ∀ slot ∈ l, slot.lpn < c.pageMappingEntryNb)
    (h : Sharing c u p d) (i : Nat) (last : Option Nat) :
    Keeps (writePages c u fuel fing l i last) d fun _ d' =>
      ∃ p', Sharing c u p' d' := by
  induction l generalizing d p i last with
  | nil => exact Sat.pure ⟨p, h⟩
  | cons slot l ih =>
      refine Sat.bind (keeps_writePage g h fuel (hf i) (hl slot (by simp))
        last) ?_
      intro _ d₁ hpost
      obtain ⟨⟨q, rfl⟩, ⟨p₁, h₁⟩, hc⟩ := hpost
      refine Sat.bind (keeps_reportWritten g h₁ hc) ?_
      intro _ _ hst
      subst hst
      exact ih (fun slot' hs => hl slot' (by simp [hs])) h₁ (i + 1) q

theorem keeps_gcCheckAfter (g : Geo c) (fuel : Nat) (h : Sharing c u p d)
    (last : Option Nat) :
    Keeps (gcCheckAfter c u fuel last) d fun _ d' =>
      ∃ p', Sharing c u p' d' := by
  cases last with
  | none => exact Sat.pure ⟨p, h⟩
  | some q =>
      unfold gcCheckAfter
      dsimp only
      split
      · exact keeps_gcCheck g fuel h
      · exact Sat.pure ⟨p, h⟩

/-- A diagnostic changes nothing. -/
theorem keeps_printError {β : Type} {f : Unit → Dd β}
    {Q : β → State → Prop} (m : Msg) (h : Keeps (f ()) d Q) :
    Keeps (layer.lift (printError m) >>= f) d Q := by
  refine keeps_lift_bind (G := fun _ => True) (E := fun _ _ => False)
    (R := fun _ s => s = d.ssd) (Sat.emit fun _ => ⟨trivial, rfl⟩) ?_
  intro _ _ hst
  subst hst
  exact h

/-- A write of drawn fingerprints, with the check after it. -/
theorem keeps_ftlWrite (g : Geo c) (h : Sharing c u p d) (fuel sectorNb
    length : Nat) {fing : Nat → Nat} (hf : Draws u fing) :
    Keeps (ftlWrite c u fuel sectorNb length fing) d fun _ d' =>
      ∃ p', Sharing c u p' d' := by
  unfold ftlWrite
  split
  · exact keeps_printError _ (Sat.pure ⟨p, h⟩)
  · next hle =>
      refine Sat.bind (keeps_writePages g fuel hf _
        (g.slots_lpn_lt (Nat.le_of_not_lt hle)) h 0 none) ?_
      intro r d₁ hpost
      obtain ⟨p₁, h₁⟩ := hpost
      cases r with
      | none => exact Sat.pure ⟨p₁, h₁⟩
      | some q =>
          refine Sat.bind (keeps_gcCheckAfter g fuel h₁ q) ?_
          intro _ d₂ h₂
          exact Sat.pure h₂

-- ============================================================== commands

theorem keeps_discardPage (g : Geo c) (h : Sharing c u p d) (slot : Slot) :
    Keeps (discardPage c u slot) d fun _ d' => Sharing c u p d' := by
  refine keeps_lift_bind (G := fun _ => True) (E := fun _ _ => False)
    (R := fun _ s => s = d.ssd) ?_ ?_
  · unfold printErrorIf
    split
    · exact Sat.emit fun _ => ⟨trivial, rfl⟩
    · exact Sat.pure rfl
  intro _ _ hst
  subst hst
  exact Sat.mono (keeps_unmapLpn g h slot.lpn)
    (fun _ _ h' => h'.sharing) fun _ _ he => he

/-- A discard, page by page. -/
theorem keeps_femuDiscardProcess (g : Geo c) (h : Sharing c u p d)
    (length sectorNb : Nat) :
    Keeps (femuDiscardProcess c u length sectorNb) d fun _ d' =>
      Sharing c u p d' := by
  unfold femuDiscardProcess
  split
  · exact keeps_printError _ (Sat.pure h)
  · refine Sat.bind (Sat.each (fun _ d' => Sharing c u p d') ?_ h) ?_
    · intro _ slot _ d' _ h'
      exact keeps_discardPage g h' slot
    · intro _ d' h'
      exact Sat.pure h'

/-- One page of `SSD_REMAP`. -/
theorem keeps_remapPage (g : Geo c) (h : Sharing c u p d) (fuel : Nat)
    (ope : RemapOpe) {K L fing : Nat} (hL : L < c.pageMappingEntryNb)
    (hf : Fing u fing) :
    Keeps (remapPage c u fuel ope K L fing) d fun _ d' =>
      ∃ p', Sharing c u p' d' := by
  refine Sat.get_bind (keeps_lift_bind (h.sound.useRemap_step _) ?_)
  intro r s₁ hpost
  obtain ⟨hc, -⟩ := hpost
  obtain ⟨n, rfl⟩ := hc.only
  have h₁ : Sharing c u p { d with ssd := { d.ssd with nvram := n } } :=
    ⟨hc.sound, h.marked⟩
  cases r with
  | fail =>
      refine Sat.bind (keeps_ftlWrite g h₁ fuel _ _ fun _ => hf) ?_
      intro _ d₂ hpost
      obtain ⟨p₂, h₂⟩ := hpost
      exact Sat.mono (keeps_unmapSource g h₂ _)
        (fun _ _ h₃ => ⟨p₂, h₃.sharing⟩) fun _ _ he => he
  | success =>
      cases hK : d.ssd.mappingTable K with
      | none =>
          -- without a source, `INCREASE_INVERSE_MAPPING` fails
          refine keeps_lift_bind (G := fun _ => True)
            (E := fun _ _ => False) (R := fun r s => r = .fail
              ∧ s = { d.ssd with nvram := n })
            (Sat.emit_bind fun _ => ⟨trivial, Sat.pure ⟨rfl, rfl⟩⟩) ?_
          intro _ _ hpost
          obtain ⟨rfl, rfl⟩ := hpost
          exact Sat.pure ⟨p, h₁⟩
      | some q =>
          exact Sat.mono (keeps_remapLpn g h₁ (K := K) hK hL false false _)
            (fun _ _ h₂ => ⟨p, h₂.sharing⟩) fun _ _ he => he

/-- The loop of `SSD_REMAP`. -/
theorem keeps_remapPages (g : Geo c) (fuel : Nat) (ope : RemapOpe)
    {fing : Nat → Nat} (hf : Draws u fing) (len K L : Nat)
    (hL : L + len ≤ c.pageMappingEntryNb) (h : Sharing c u p d) :
    Keeps (remapPages c u fuel ope fing len K L) d fun _ d' =>
      ∃ p', Sharing c u p' d' := by
  induction len generalizing d p K L with
  | zero => exact Sat.pure ⟨p, h⟩
  | succ len ih =>
      refine Sat.bind (keeps_remapPage g h fuel ope (by omega) (hf len)) ?_
      intro _ d₁ hpost
      obtain ⟨p₁, h₁⟩ := hpost
      exact ih (K + 1) (L + 1) (by omega) h₁

/-- A remap, whose refused pages are written. -/
theorem keeps_ssdRemap (g : Geo c) (h : Sharing c u p d) (fuel K L len
    ope : Nat) {fing : Nat → Nat} (hf : Draws u fing)
    (hL : L + len ≤ c.pageMappingEntryNb) :
    Keeps (ssdRemap c u fuel K L len ope fing) d fun _ d' =>
      ∃ p', Sharing c u p' d' := by
  have hlen : (if len < 2 ^ 31 then len else 0) ≤ len := by
    split <;> omega
  unfold ssdRemap
  cases remapOpe ope with
  | none => exact keeps_printError _ (Sat.pure ⟨p, h⟩)
  | some o =>
      refine Sat.bind (keeps_remapPages g fuel o hf _ K L (by omega) h) ?_
      intro _ d₁ h₁
      exact Sat.pure h₁

/-- Every command keeps the marks. -/
theorem keeps_exec (g : Geo c) (h : ∃ p, Sharing c u p d) (fuel : Nat)
    {cmd : Cmd} (hin : InRange c u cmd) :
    Keeps (exec c u fuel cmd) d fun _ d' => ∃ p', Sharing c u p' d' := by
  obtain ⟨p, h⟩ := h
  cases cmd with
  | write sectorNb length fing =>
      exact Sat.bind (keeps_ftlWrite g h fuel sectorNb length hin)
        fun _ _ h' => Sat.pure h'
  | remap K L len ope fing =>
      exact Sat.bind (keeps_ssdRemap g h fuel K L len ope hin.2.2 hin.2.1)
        fun _ _ h' => Sat.pure h'
  | discard length sectorNb =>
      exact Sat.bind (keeps_femuDiscardProcess g h length sectorNb)
        fun _ _ h' => Sat.pure ⟨p, h'⟩
  | collect =>
      exact Sat.bind (keeps_sbGarbageCollection g h fuel)
        fun _ _ h' => Sat.pure h'

-- ================================================================= runs

/-- At the start no page is referred to and no fingerprint names one. -/
theorem sharing_init (g : Geo c) :
    Sharing c u (.init c.blockNb) (init c) := by
  refine ⟨g.sound_init, ⟨fun f q hq => ?_, fun q hq => ?_⟩⟩
  · simp [init] at hq
  · obtain ⟨L, hL⟩ := referred_none.1 hq
    simp [init, ftlInit] at hL

/-- Along a run without wrapped counts. -/
theorem Reach.sharing (g : Geo c) {tr : List Event} (h : Reach c u d tr)
    (hr : ∀ e ∈ tr, layer.relies NoWrap e) :
    (∃ p, Sharing c u p d) ∧ ∀ e ∈ tr, Fitting e := by
  induction h with
  | init => exact ⟨⟨_, sharing_init g⟩, by simp⟩
  | cmd fuel cmd _ hin hex ih =>
      exact Sat.extend (P := fun d => ∃ p, Sharing c u p d) ih
        (fun h => keeps_exec g h fuel hin) hex hr

/-- A command that ends normally leads on. -/
theorem Reach.next {tr : List Event} (h : Reach c u d tr) (fuel : Nat)
    {cmd : Cmd} (hin : InRange c u cmd)
    (hok : (exec c u fuel cmd d).res = .ok ()) :
    Reach c u (exec c u fuel cmd d).st
      (tr ++ (exec c u fuel cmd d).log) :=
  h.cmd fuel cmd hin (Out.eq_of_res hok)

theorem Reach.first (fuel : Nat) {cmd : Cmd} (hin : InRange c u cmd)
    (hok : (exec c u fuel cmd (Dedup.init c)).res = .ok ()) :
    Reach c u (exec c u fuel cmd (Dedup.init c)).st
      (exec c u fuel cmd (Dedup.init c)).log := by
  have h := Reach.init.next fuel hin hok
  rw [List.nil_append] at h
  exact h

/-- What `fingerprint` names is live and records the fingerprint. -/
theorem Sharing.named (h : Sharing c u p d) {f P : Nat}
    (hP : d.fingerprint f = some P) :
    0 < d.ssd.valid c P ∧ d.recorded P = some f := by
  obtain ⟨href, hrec⟩ := h.marked.found f P hP
  obtain ⟨L, hL⟩ := referred_none.1 href
  exact ⟨(h.sound.live hL).valid, hrec⟩

/-- A live page records a fingerprint. -/
theorem Sharing.records (h : Sharing c u p d) {P : Nat}
    (hP : P < c.pageMappingEntryNb) (hv : 0 < d.ssd.valid c P) :
    ∃ f, d.recorded P = some f ∧ Fing u f := by
  obtain ⟨L, hL⟩ := List.exists_mem_of_ne_nil _
    (h.sound.refs_ne_nil hP id hv)
  exact h.marked.keyed P (.inl ⟨L, (h.sound.maps.mem_iff hP).1 hL⟩)

/-- In every run that enters lpns only at pages with fewer than 127
nodes, a fingerprint names a live page that records it, every live page
records a fingerprint, and every page that is written maps its lpn to a
live page of the fingerprint drawn for it. -/
theorem dedup_shares_live_pages (g : Geo c) {tr : List Event}
    (h : Reach c u d tr) (hr : ∀ e ∈ tr, layer.relies NoWrap e) :
    (∀ f P, d.fingerprint f = some P →
        0 < d.ssd.valid c P ∧ d.recorded P = some f)
      ∧ (∀ P, P < c.pageMappingEntryNb → 0 < d.ssd.valid c P →
        ∃ f, d.recorded P = some f ∧ 1 ≤ f ∧ f ≤ u)
      ∧ ∀ fing page, .written fing page ∈ tr →
        ∃ v, page = some (v, some fing) ∧ 0 < v := by
  obtain ⟨⟨p, hp⟩, hfit⟩ := h.sharing g hr
  exact ⟨fun f P => hp.named, fun P => hp.records,
    fun fing page he => hfit _ he⟩

/-- Two lpns are written with fingerprint 1 and one with 2. -/
def pairOut : Out State Event Fault Unit :=
  exec tinyConf 2 40 (.write 0 3 fun i => if i < 2 then 1 else 2)
    (init tinyConf)

/-- The second write finds the first one's fingerprint. -/
theorem pairOut_eval : pairOut.res = .ok ()
    ∧ (∀ e ∈ pairOut.log.filterMap layer.base, NoWrap e)
    ∧ pairOut.st.fingerprint 1 = some 0
    ∧ .written 1 (some (2, some 1)) ∈ pairOut.log := by
  decide +kernel

theorem pairOut_reach : Reach tinyConf 2 pairOut.st pairOut.log := by
  refine Reach.first 40 ?_ pairOut_eval.1
  intro i
  dsimp only
  split <;> decide

theorem dedup_shares_live_pages_pair :
    Reach tinyConf 2 pairOut.st pairOut.log
      ∧ (∀ e ∈ pairOut.log, layer.relies NoWrap e)
      ∧ pairOut.st.fingerprint 1 = some 0
      ∧ 0 < pairOut.st.ssd.valid tinyConf 0
      ∧ pairOut.st.recorded 0 = some 1 := by
  obtain ⟨-, hlog, hfp, -⟩ := pairOut_eval
  have hr := layer.relies_iff.2 hlog
  exact ⟨pairOut_reach, hr, hfp,
    (dedup_shares_live_pages tinyConf_geo pairOut_reach hr).1 1 0 hfp⟩

-- ============================================================= wrapping

/-- 127 lpns are written with one fingerprint. -/
def crowdedOut : Out State Event Fault Unit :=
  exec wrapConf 3 300 (.write 0 127 fun _ => 1) (init wrapConf)

/-- And lpn 0 is copied to one of them. -/
def wrappedOut : Out State Event Fault Unit :=
  exec wrapConf 3 300 (.remap 0 1 1 3 fun _ => 1) crowdedOut.st

/-- The count of the page wraps while a fingerprint still leads to it. -/
theorem wrappedOut_eval : crowdedOut.res = .ok ()
    ∧ wrappedOut.res = .ok ()
    ∧ ((crowdedOut.log ++ wrappedOut.log).filterMap layer.base).all
      fewSharers = true
    ∧ wrappedOut.st.fingerprint 1 = some 0
    ∧ wrappedOut.st.ssd.valid wrapConf 0 = -128 := by
  decide +kernel

/-- At most 127 lpns ever share a page, and yet a fingerprint names a
page whose count is negative. -/
theorem fingerprint_names_wrapped_page :
    Reach wrapConf 3 wrappedOut.st (crowdedOut.log ++ wrappedOut.log)
      ∧ (∀ e ∈ crowdedOut.log ++ wrappedOut.log,
        layer.relies FewSharers e)
      ∧ wrappedOut.st.fingerprint 1 = some 0
      ∧ wrappedOut.st.ssd.valid wrapConf 0 = -128 := by
  obtain ⟨hok, hok', hfew, hfp, hv⟩ := wrappedOut_eval
  refine ⟨?_, layer.relies_iff.2 fun e he => ?_, hfp, hv⟩
  · have hdraws : Draws 3 fun _ => 1 :=
      fun _ => (by decide : 1 ≤ 1 ∧ 1 ≤ 3)
    have hreach : Reach wrapConf 3 crowdedOut.st crowdedOut.log :=
      Reach.first 300 hdraws hok
    exact hreach.next 300 ⟨by decide, by decide, hdraws⟩ hok'
  · exact .of_check (List.all_eq_true.1 hfew e he)

end FemuRemap.Dedup
