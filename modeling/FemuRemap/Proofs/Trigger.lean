/-
When a write calls the collector.

`_FTL_WRITE` calls `GC_CHECK` at its end if `new_ppn > 0`, where
`new_ppn` is the last page it allocated, `-1` at first. Page zero is a
page, so a write that programs it last skips the check.

# When that is

Pages are handed out superblock by superblock (`Pool.Chain`), so page
zero comes after what is left of the active superblock and the empty
superblocks before superblock zero: `pagesBeforeZero`. A write programs
each of its pages, except those for which it asks for a remap and gets
it: `programs` follows the answers of `USE_REMAP` from the state before
the call on. What `SafeLast` asks for is that page zero is not the last
page programmed, or that enough pages are free after it.
-/
import FemuRemap.Proofs.Rounds
import FemuRemap.Proofs.Exhaustion

namespace FemuRemap

open Lib

variable {c : Conf} {p p' : Pool} {s s' s₁ : Ssd} {tr log l₁ l₂ : List Event}
  {fuel q : Nat} {req : RequestMeta}

-- ========================================================== the outcome

/-- The call ended its page loop, then collected, and the last collection
failed. -/
def LastGcFailed (c : Conf) (fuel : Nat) (req : RequestMeta) (s s' : Ssd)
    (log : List Event) : Prop :=
  ∃ q s₁ l₁ k s₂ l₂ l₃,
    writePages c fuel req.lpnsInfo (slots c req.sectorNb req.length) 0 none s
      = ⟨.ok (some q), s₁, l₁⟩
    ∧ Rounds c fuel k s₁ s₂ l₂
    ∧ sbGarbageCollection c fuel s₂ = ⟨.ok .fail, s', l₃⟩
    ∧ log = l₁ ++ (l₂ ++ l₃
      ++ [.checked s'.lists.totalEmptyBlockNb s'.stat.ppnFree])

/-- At its end there is enough space, or the last collection of the call
failed. -/
def Triggers (c : Conf) (fuel : Nat) (req : RequestMeta) (s s' : Ssd)
    (log : List Event) : Prop :=
  (c.gcThresholdBlockNb ≤ s'.lists.totalEmptyBlockNb
    ∧ c.gcThresholdBlockNb * c.pageNb ≤ s'.stat.ppnFree)
  ∨ LastGcFailed c fuel req s s' log

/-- Neither count is below the threshold. -/
theorem not_needsGc_iff : ¬ needsGc c s
    ↔ c.gcThresholdBlockNb ≤ s.lists.totalEmptyBlockNb
      ∧ c.gcThresholdBlockNb * c.pageNb ≤ s.stat.ppnFree := by
  unfold needsGc
  omega

/-- The two halves of a write that succeeds. -/
theorem ftlWrite_parts
    (h : ftlWrite c fuel req s = ⟨.ok .success, s', log⟩) :
    req.sectorNb + req.length ≤ c.sectorNb ∧ ∃ q s₁ l₁ l₂,
      writePages c fuel req.lpnsInfo (slots c req.sectorNb req.length) 0
          none s = ⟨.ok (some q), s₁, l₁⟩
        ∧ gcCheckAfter c fuel q s₁ = ⟨.ok (), s', l₂⟩ ∧ log = l₁ ++ l₂ := by
  unfold ftlWrite at h
  split at h
  · obtain ⟨_, _, _, _, -, h, -⟩ := Prog.bind_ok h
    cases h
  · next hle =>
      refine ⟨Nat.le_of_not_lt hle, ?_⟩
      obtain ⟨r, s₁, l₁, l₂, hw, h, rfl⟩ := Prog.bind_ok h
      cases r with
      | none => cases h
      | some q =>
          obtain ⟨_, _, l₃, _, hgc, hend, rfl⟩ := Prog.bind_ok h
          cases hend
          exact ⟨q, s₁, l₁, l₃, hw, hgc, by simp⟩

/-- `GC_CHECK` ends with enough space or with a failed collection. -/
theorem gcCheck_ends (h : gcCheck c fuel s = ⟨.ok (), s', log⟩) :
    (¬ needsGc c s')
      ∨ ∃ k s₂ l₂ l₃, Rounds c fuel k s s₂ l₂
        ∧ sbGarbageCollection c fuel s₂ = ⟨.ok .fail, s', l₃⟩
        ∧ log = l₂ ++ l₃
          ++ [.checked s'.lists.totalEmptyBlockNb s'.stat.ppnFree] := by
  obtain ⟨_, s₁, l, _, hloop, hend, rfl⟩ := Prog.bind_ok h
  cases hend
  obtain ⟨k, s₂, l₂, l₃, hk, rfl, ⟨hn, rfl, -⟩ | ⟨-, hfail⟩⟩ :=
    gcCheckLoop_rounds hloop
  · exact .inl hn
  · exact .inr ⟨k, s₂, l₂, l₃, hk, hfail, rfl⟩

/-- The check is skipped after page zero and only then. -/
theorem triggers_iff
    (hw : writePages c fuel req.lpnsInfo
      (slots c req.sectorNb req.length) 0 none s
        = ⟨.ok (some (some q)), s₁, l₁⟩)
    (hgc : gcCheckAfter c fuel (some q) s₁ = ⟨.ok (), s', l₂⟩) :
    Triggers c fuel req s s' (l₁ ++ l₂) ↔ (q = 0 → ¬ needsGc c s₁) := by
  unfold Triggers
  rw [← not_needsGc_iff]
  by_cases hq : 0 < q
  · refine iff_of_true ?_ fun h => absurd h hq.ne'
    rw [gcCheckAfter, if_pos hq] at hgc
    obtain hn | ⟨k, s₂, l₃, l₄, hk, hfail, rfl⟩ := gcCheck_ends hgc
    · exact .inl hn
    · exact .inr ⟨some q, s₁, l₁, k, s₂, l₃, l₄, hw, hk, hfail, rfl⟩
  · rw [gcCheckAfter, if_neg hq] at hgc
    cases hgc
    constructor
    · rintro (hn | ⟨_, _, _, _, _, _, _, hw', -, -, hlog⟩)
      · exact fun _ => hn
      · -- the events of the pages are the whole log
        rw [hw] at hw'
        cases hw'
        have := congrArg List.length hlog
        simp at this
    · exact fun h => .inl (h (by omega))

-- ====================================================== no page at all

/-- A page of a write is remapped, and no page is handed out, or it is
programmed. -/
theorem writePage_ok {info : LpnInfo} {slot : Slot} {q q' : Option Nat}
    (h : writePage c fuel info slot q s = ⟨.ok (some q'), s', log⟩) :
    (q' = q ∧ ∀ e ∈ log, Placid e) ∨ ∃ x, q' = some x := by
  rw [writePage, Prog.run_get_bind] at h
  obtain ⟨r, s₁, l₁, l₂, hask, h, rfl⟩ := Prog.bind_ok h
  cases r with
  | success =>
      obtain ⟨_, s₂, l₃, l₄, hremap, hend, rfl⟩ := Prog.bind_ok h
      cases hend
      have h₁ := (framed_askRemap (c := c) (I := anyBlock) info
        (hintedPpn s info) s).2
      have h₂ := (framed_remapHinted (c := c) info (hintedPpn s info)
        slot.lpn s₁).2
      rw [hask] at h₁
      rw [hremap] at h₂
      refine .inl ⟨rfl, ?_⟩
      rw [List.append_nil]
      exact List.forall_mem_append.2 ⟨h₁, h₂⟩
  | fail =>
      obtain ⟨r, s₂, l₃, l₄, -, h, rfl⟩ := Prog.bind_ok h
      cases r with
      | none => cases h
      | some x =>
          cases h
          exact .inr ⟨x, rfl⟩

/-- A write keeps a page number once it has one; without one it handed
out no page. -/
theorem writePages_ok {info : Nat → LpnInfo} {l : List Slot} {i : Nat}
    {q q' : Option Nat}
    (h : writePages c fuel info l i q s = ⟨.ok (some q'), s', log⟩) :
    (q' = q ∧ ∀ e ∈ log, Placid e) ∨ ∃ x, q' = some x := by
  induction l generalizing s i q log with
  | nil =>
      cases h
      exact .inl ⟨rfl, by simp⟩
  | cons slot l ih =>
      obtain ⟨r, s₁, l₁, l₂, hpage, h, rfl⟩ := Prog.bind_ok h
      cases r with
      | none => cases h
      | some q₁ =>
          rcases ih h with ⟨rfl, h₂⟩ | hsome
          · rcases writePage_ok hpage with ⟨rfl, h₁⟩ | hsome
            · exact .inl ⟨rfl, List.forall_mem_append.2 ⟨h₁, h₂⟩⟩
            · exact .inr hsome
          · exact .inr hsome

/-- A write that hands out a page ends with a page number. -/
theorem ftlWrite_page
    (h : ftlWrite c fuel req s = ⟨.ok .success, s', log⟩)
    (ha : ∃ x v refs handed, .alloc x v refs handed ∈ log) :
    ∃ q s₁ l₁ l₂,
      writePages c fuel req.lpnsInfo (slots c req.sectorNb req.length) 0
          none s = ⟨.ok (some (some q)), s₁, l₁⟩
        ∧ gcCheckAfter c fuel (some q) s₁ = ⟨.ok (), s', l₂⟩
        ∧ log = l₁ ++ l₂ := by
  obtain ⟨-, q, s₁, l₁, l₂, hw, hgc, rfl⟩ := ftlWrite_parts h
  rcases writePages_ok hw with ⟨rfl, hplacid⟩ | ⟨x, rfl⟩
  · cases hgc
    obtain ⟨x, v, refs, handed, hx⟩ := ha
    rw [List.append_nil] at hx
    exact (hplacid _ hx).elim
  · exact ⟨x, s₁, l₁, l₂, hw, hgc, rfl⟩

-- ================================================ the pages of a write

/-- `USE_REMAP` is asked for the page in state `s`, and grants it. -/
def granted (c : Conf) (info : LpnInfo) (s : Ssd) : Bool :=
  (askRemap c info (hintedPpn s info) s).res = .ok .success

/-- How many pages of a request are programmed from state `s` on: those
that are not granted, each asked for in the state after the pages before
it. -/
def programs (c : Conf) (fuel : Nat) (info : Nat → LpnInfo) :
    List Slot → Nat → Ssd → Nat
  | [], _, _ => 0
  | slot :: rest, i, s =>
      (if granted c (info i) s then 0 else 1)
        + programs c fuel info rest (i + 1)
          (writePage c fuel (info i) slot none s).st

/-- A page does not depend on the last page number. -/
theorem writePage_st (info : LpnInfo) (slot : Slot) (q q' : Option Nat) :
    (writePage c fuel info slot q s).st
      = (writePage c fuel info slot q' s).st := by
  unfold writePage
  rw [Prog.run_get_bind, Prog.run_get_bind, Prog.run_bind, Prog.run_bind]
  obtain ⟨res, s₁, l₁⟩ := askRemap c info (hintedPpn s info) s
  cases res with
  | error e => rfl
  | ok r =>
      cases r with
      | fail => rfl
      | success =>
          simp only [Prog.andThen_ok, Prog.run_bind]
          obtain ⟨res, s₂, l₂⟩ := remapHinted c info (hintedPpn s info)
            slot.lpn s₁
          cases res with
          | error e => rfl
          | ok u => rfl

/-- Positions `l` of the pool were programmed; the last of them is the
new page number. -/
structure Programmed (c : Conf) (p : Pool) (q : Option Nat)
    (l : List (Nat × Nat)) (p' : Pool) (q' : Option Nat) : Prop where
  chain : p.Chain c.sbPages l p'
  last : q' = (l.getLast?.map fun x => pageAt c x.1 x.2).or q

/-- Pages programmed one after the other. -/
theorem Programmed.trans {p'' : Pool} {q q' q'' : Option Nat}
    {l l' : List (Nat × Nat)} (h : Programmed c p q l p' q')
    (h' : Programmed c p' q' l' p'' q'') :
    Programmed c p q (l ++ l') p'' q'' where
  chain := h.chain.append h'.chain
  last := by
    rw [h'.last, h.last, List.getLast?_append, Option.map_or,
      Option.or_assoc]

theorem Geo.programPage_programs (g : Geo c) (h : Aligned c [] p s)
    (info : LpnInfo) (slot : Slot) :
    Quiet (programPage c fuel info slot) s fun r s' =>
      ∃ b k p', r = some (pageAt c b k) ∧ Aligned c [] p' s'
        ∧ p.next c.sbPages = some (b, k, p') := by
  refine Sat.bind (g.getNewPage_aligned h fuel) ?_
  rintro _ s₁ ⟨_, p', rfl, ⟨b, k, _, hn, rfl, -⟩, -, -, h₁, -⟩
  refine Sat.bind ((framed_storePage info slot _).quiet s₁) ?_
  intro _ s₂ h₂
  exact Sat.pure ⟨b, k, p', rfl, h₁.of_local h₂, hn⟩

/-- `USE_REMAP` leaves the pool, and its answer is the one predicted. -/
theorem askRemap_quiet (h : Aligned c [] p s) (info : LpnInfo) :
    Quiet (askRemap c info (hintedPpn s info)) s fun r s' =>
      Aligned c [] p s' ∧ granted c info s = decide (r = .success) := by
  refine Sat.mono (Framed.quiet (I := anyBlock)
    (framed_askRemap info (hintedPpn s info)) s).and_res ?_
    fun _ _ _ => trivial
  rintro r s' ⟨hl, hres⟩
  refine ⟨h.of_local hl, ?_⟩
  rw [granted, hres]
  cases r with
  | success => rfl
  | fail => rfl

/-- A page of a write programs one position, or none if it is granted a
remap. -/
theorem Geo.writePage_programs (g : Geo c) (h : Aligned c [] p s)
    (info : LpnInfo) (slot : Slot) (q : Option Nat) :
    Quiet (writePage c fuel info slot q) s fun r s' =>
      ∃ q' p' l, r = some q' ∧ Aligned c [] p' s'
        ∧ Programmed c p q l p' q'
        ∧ l.length = if granted c info s then 0 else 1 := by
  refine Sat.get_bind ?_
  refine Sat.bind (askRemap_quiet h info) ?_
  rintro r s₁ ⟨h₁, hgranted⟩
  rw [hgranted]
  cases r with
  | success =>
      refine Sat.bind ((framed_remapHinted _ _ _).quiet s₁) ?_
      intro _ s₂ h₂
      exact Sat.pure ⟨q, p, [], rfl, h₁.of_local h₂, ⟨.nil, rfl⟩, rfl⟩
  | fail =>
      refine Sat.bind (g.programPage_programs h₁ info slot) ?_
      rintro _ s₂ ⟨b, k, p', rfl, h₂, hn⟩
      exact Sat.pure ⟨_, p', [(b, k)], rfl, h₂, ⟨.snoc .nil hn, rfl⟩, rfl⟩

/-- The pages of a write program as many positions as predicted. -/
theorem Geo.writePages_programs (g : Geo c) (h : Aligned c [] p s)
    (info : Nat → LpnInfo) (slots : List Slot) (i : Nat)
    (q : Option Nat) :
    Quiet (writePages c fuel info slots i q) s fun r s' =>
      ∃ q' p' l, r = some q' ∧ Aligned c [] p' s'
        ∧ Programmed c p q l p' q'
        ∧ l.length = programs c fuel info slots i s := by
  induction slots generalizing s p i q with
  | nil => exact Sat.pure ⟨q, p, [], rfl, h, ⟨.nil, rfl⟩, rfl⟩
  | cons slot slots ih =>
      refine Sat.bind (g.writePage_programs h (info i) slot q).and_st ?_
      rintro _ s₁ ⟨⟨q₁, p₁, l₁, rfl, h₁, hp₁, hlen₁⟩, hst⟩
      refine Sat.mono (ih h₁ (i + 1) q₁) ?_ fun _ _ _ => trivial
      rintro _ s₂ ⟨q₂, p₂, l₂, rfl, h₂, hp₂, hlen₂⟩
      refine ⟨q₂, p₂, l₁ ++ l₂, rfl, h₂, hp₁.trans hp₂, ?_⟩
      rw [List.length_append, hlen₁, hlen₂, programs, hst,
        writePage_st (info i) slot q none]

-- =========================================================== page zero

/-- How many pages are handed out before page zero, if its block is
empty. -/
def pagesBeforeZero (c : Conf) (s : Ssd) : Option Nat :=
  (((s.lists.emptyBlockList 0).emptyHead.map EmptyBlock.phyBlockNb).idxOf?
    0).map fun i => activeRoom c s + i * (c.pageNb * c.flashNb)

/-- How many pages come before page zero, from the pool: those left of the
active superblock and those of the empty ones in front. -/
theorem Geo.pagesBeforeZero_eq (g : Geo c) (h : Aligned c [] p s)
    (d : Nat) : pagesBeforeZero c s = some d
      ↔ ∃ i, p.empty[i]? = some 0 ∧ d = p.left c.sbPages + i * c.sbPages := by
  have hempty : (s.lists.emptyBlockList 0).emptyHead.map
      EmptyBlock.phyBlockNb = p.empty := by
    rw [h.lists.roots 0 g.flash_pos]
    simp [rootOf, Function.comp_def]
  have hnodup : p.empty.Nodup := by
    have := h.pool.nodup
    rw [List.nil_append, Pool.blocks, List.append_assoc] at this
    exact this.of_append_left
  have hidx : ∀ i, p.empty.idxOf? 0 = some i ↔ p.empty[i]? = some 0 := by
    intro i
    rw [List.idxOf?_eq_some_iff, List.getElem?_eq_some_iff]
    constructor
    · rintro ⟨hi, h0, -⟩
      exact ⟨hi, h0⟩
    · rintro ⟨hi, h0⟩
      refine ⟨hi, h0, fun j hj h0' => ?_⟩
      have := hnodup.getElem_inj_iff.1 (h0'.trans h0.symm)
      omega
  rw [pagesBeforeZero, hempty, g.activeRoom_eq h.pool h.lists,
    Option.map_eq_some_iff]
  simp only [hidx]
  constructor
  · rintro ⟨i, hi, rfl⟩
    exact ⟨i, hi, rfl⟩
  · rintro ⟨i, hi, rfl⟩
    exact ⟨i, hi, rfl⟩

/-- Page zero is the first of superblock zero. -/
theorem pageAt_eq_zero {b k : Nat} (hb : b < c.blockNb)
    (hk : k < c.sbPages) : pageAt c b k = 0 ↔ b = 0 ∧ k = 0 := by
  constructor
  · intro h0
    have hblock := blockOf_pageAt hb hk
    have hpos := posOf_pageAt hb hk
    rw [h0] at hblock hpos
    simp only [blockOf, posOf, pageOf, flashOf, Nat.zero_div, Nat.zero_mod,
      Nat.zero_mul, Nat.add_zero] at hblock hpos
    exact ⟨hblock.symm, hpos.symm⟩
  · rintro ⟨rfl, rfl⟩
    simp [pageAt, ppnAt]

/-- The last page of a write is page zero when the write programs just
the pages up to it. -/
theorem Programmed.last_zero_iff (g : Geo c) (h : Aligned c [] p s)
    {l : List (Nat × Nat)} (hp : Programmed c p none l p' (some q)) :
    q = 0 ↔ ∃ d, pagesBeforeZero c s = some d ∧ l.length = d + 1 := by
  have hlast := hp.last
  cases hp.chain with
  | nil => cases hlast
  | @snoc l p₁ _ b k hc hn =>
      obtain ⟨hb, hk⟩ := Pool.next_lt (hc.ok g.sbPages_pos h.pool)
        g.sbPages_pos hn
      have hq : q = pageAt c b k := by simpa using hlast
      rw [hq, pageAt_eq_zero hb hk,
        hc.opens_iff h.pool g.sbPages_pos hn, List.length_append,
        List.length_singleton]
      constructor
      · rintro ⟨i, hi, hl⟩
        exact ⟨_, (g.pagesBeforeZero_eq h _).2 ⟨i, hi, rfl⟩, by rw [hl]⟩
      · rintro ⟨d, hd, hl⟩
        obtain ⟨i, hi, rfl⟩ := (g.pagesBeforeZero_eq h d).1 hd
        exact ⟨i, hi, Nat.succ.inj hl⟩

-- ======================================================= the threshold

/-- The pages that the request programs, following the answers of
`USE_REMAP` from state `s` on. -/
def requestPrograms (c : Conf) (fuel : Nat) (req : RequestMeta) (s : Ssd) :
    Nat :=
  programs c fuel req.lpnsInfo (slots c req.sectorNb req.length) 0 s

/-- Page zero is not the last page that the write programs, or enough
pages stay free after it. -/
def SafeLast (c : Conf) (fuel : Nat) (req : RequestMeta) (s : Ssd) : Prop :=
  ∀ d, pagesBeforeZero c s = some d → requestPrograms c fuel req s = d + 1 →
    c.gcThresholdBlockNb * c.pageNb + (d + 1) ≤ s.stat.ppnFree

/-- What the pages of a write leave, against the threshold. -/
theorem Geo.needsGc_programmed (g : Geo c) {pₛ pₛ' : Pool}
    (h : Sound c pₛ s) (h' : Sound c pₛ' s₁) (hp : Aligned c [] p s)
    (hp' : Aligned c [] p' s₁) {l : List (Nat × Nat)}
    (hc : p.Chain c.sbPages l p') :
    needsGc c s₁
      ↔ s.stat.ppnFree < c.gcThresholdBlockNb * c.pageNb + l.length := by
  -- both pools of a state have its pages as their room
  have hroom : pₛ.room c.sbPages = p.room c.sbPages := by
    rw [← g.pagesLeft_eq h.pages.toAligned, g.pagesLeft_eq hp]
  have hroom' : pₛ'.room c.sbPages = p'.room c.sbPages := by
    rw [← g.pagesLeft_eq h'.pages.toAligned, g.pagesLeft_eq hp']
  have hspent := hc.room g.sbPages_pos
  rw [g.needsGc_iff h', g.ppnFree_eq h.pages]
  omega

/-- A write that hands out a page and succeeds ends with enough space or
with a failed collection, if page zero is not the last page it programs.
Where no count wraps it does so exactly if the space suffices whenever
page zero is the last one. -/
theorem write_triggers_gc_iff (g : Geo c) (h : Visited c s tr)
    (hrun : ftlWrite c fuel req s = ⟨.ok .success, s', log⟩)
    (ha : ∃ x v refs handed, .alloc x v refs handed ∈ log) :
    ((∀ d, pagesBeforeZero c s = some d →
        requestPrograms c fuel req s ≠ d + 1) →
      Triggers c fuel req s s' log)
    ∧ ((∀ e ∈ tr ++ log, NoWrap e) →
      (Triggers c fuel req s s' log ↔ SafeLast c fuel req s)) := by
  obtain ⟨p, hp⟩ := h.aligned g
  obtain ⟨q, s₁, l₁, l₂, hw, hgc, rfl⟩ := ftlWrite_page hrun ha
  rw [triggers_iff hw hgc]
  obtain ⟨-, _, p', l, hq, hp', hprog, hlen⟩ := Sat.of_ok
    (g.writePages_programs hp req.lpnsInfo
      (slots c req.sectorNb req.length) 0 none) hw fun _ _ => trivial
  cases hq
  -- the check is skipped when the last page programmed is page zero
  have hzero := hprog.last_zero_iff g hp
  have hcount : l.length = requestPrograms c fuel req s := hlen
  refine ⟨fun hfar h0 => ?_, fun hr => ?_⟩
  · obtain ⟨d, hd, hl⟩ := hzero.1 h0
    exact absurd (hcount.symm.trans hl) (hfar d hd)
  · obtain ⟨hrt, hrl⟩ := List.forall_mem_append.1 hr
    obtain ⟨⟨pₛ, hs⟩, -⟩ := h.sound g hrt
    obtain ⟨-, _, pₛ', -, hs', -⟩ := Sat.of_ok
      (g.writePages_serves (A := True) (B := False) fuel req.lpnsInfo _ 0
        none ⟨hs, False.elim⟩ (.inl trivial)
        (g.slots_lpn_lt (ftlWrite_parts hrun).1)) hw
      fun e he => relied_false (hrl e (List.mem_append_left _ he))
    rw [g.needsGc_programmed hs hs'.sound hp hp' hprog.chain, Nat.not_lt]
    constructor
    · intro hfree d hd hlast
      rw [← hlast, ← hcount]
      exact hfree (hzero.2 ⟨d, hd, hcount.trans hlast⟩)
    · intro hsafe h0
      obtain ⟨d, hd, hl⟩ := hzero.1 h0
      rw [hl]
      exact hsafe d hd (hcount.symm.trans hl)

/-- Eleven superblocks of two pages; the threshold is two pages. -/
def zeroConf : Conf := initSsdConfig 2 11 1 1

theorem zeroConf_geo : Geo zeroConf := by
  constructor <;> decide

/-- One page is left before page zero. -/
def hintedOut : Out Ssd Event Fault Unit :=
  runCmds zeroConf 100 (List.replicate 21 (writeOf 1 7)) (ftlInit zeroConf)

theorem hintedOut_reach : Reach zeroConf hintedOut.st hintedOut.log := by
  refine (Ran.start 100 _ (fun cmd hc => ?_) (by decide +kernel)).reach
  rw [List.eq_of_mem_replicate hc]
  exact inRange_writeOf 1 7

/-- A plain page, and one that asks for the page of lpn 1. -/
def hintedWrite : RequestMeta :=
  ⟨2, 2, fun i => if i = 1 then ⟨cpWrite, 1, some 7⟩ else ⟨0, -1, some 8⟩⟩

def hintedWritten : Out Ssd Event Fault Ret :=
  ftlWrite zeroConf 100 hintedWrite hintedOut.st

/-- The request has two pages, but the second one is granted a remap: the
last page programmed is the one before page zero. -/
theorem write_triggers_gc_hinted :
    pagesBeforeZero zeroConf hintedOut.st = some 1
      ∧ requestPrograms zeroConf 100 hintedWrite hintedOut.st = 1
      ∧ SafeLast zeroConf 100 hintedWrite hintedOut.st
      ∧ Triggers zeroConf 100 hintedWrite hintedOut.st hintedWritten.st
        hintedWritten.log := by
  have heval : pagesBeforeZero zeroConf hintedOut.st = some 1
      ∧ requestPrograms zeroConf 100 hintedWrite hintedOut.st = 1
      ∧ hintedWritten.res = .ok .success
      ∧ .alloc 21 0 [] [] ∈ hintedWritten.log
      ∧ ∀ e ∈ hintedOut.log ++ hintedWritten.log, NoWrap e := by
    decide +kernel
  obtain ⟨hd, hprog, hok, hx, hwrap⟩ := heval
  have hsafe : SafeLast zeroConf 100 hintedWrite hintedOut.st := by
    intro d hd' hlast
    rw [hd] at hd'
    rw [hprog] at hlast
    cases hd'
    cases hlast
  exact ⟨hd, hprog, hsafe, ((write_triggers_gc_iff zeroConf_geo
    hintedOut_reach.visited (Out.eq_of_res hok) ⟨21, 0, [], [], hx⟩).2
    hwrap).2 hsafe⟩

-- ==================================================== page zero, last

/-- One lpn written over and over. -/
def zeroWrite : RequestMeta := ⟨1, 0, fun _ => ⟨0, -1, some 7⟩⟩

/-- The 21st write collects superblock zero, the 22nd fills the last
superblock. -/
def zeroOut : Out Ssd Event Fault Unit :=
  runCmds zeroConf 100 (List.replicate 22 (.write zeroWrite))
    (ftlInit zeroConf)

/-- The pages of the write. -/
def zeroPages : Out Ssd Event Fault (Option (Option Nat)) :=
  writePages zeroConf 100 zeroWrite.lpnsInfo
    (slots zeroConf zeroWrite.sectorNb zeroWrite.length) 0 none zeroOut.st

/-- The 23rd write programs page zero, with one page left free. -/
theorem zeroPages_eval : zeroOut.res = .ok ()
    ∧ zeroPages.res = .ok (some (some 0))
    ∧ .alloc 0 0 [] [] ∈ zeroPages.log
    ∧ needsGc zeroConf zeroPages.st := by
  decide +kernel

/-- The last page written is page zero, which the source takes for none: the
check is skipped. -/
theorem write_skips_gc_zero :
    Reach zeroConf zeroOut.st zeroOut.log
      ∧ ftlWrite zeroConf 100 zeroWrite zeroOut.st
        = ⟨.ok .success, zeroPages.st, zeroPages.log⟩
      ∧ .alloc 0 0 [] [] ∈ zeroPages.log
      ∧ ¬ Triggers zeroConf 100 zeroWrite zeroOut.st zeroPages.st
        zeroPages.log := by
  obtain ⟨hok, hpages, hx, hneeds⟩ := zeroPages_eval
  have hw : writePages zeroConf 100 zeroWrite.lpnsInfo
      (slots zeroConf zeroWrite.sectorNb zeroWrite.length) 0 none zeroOut.st
        = ⟨.ok (some (some 0)), zeroPages.st, zeroPages.log⟩ :=
    Out.eq_of_res hpages
  have hin : ∀ cmd ∈ List.replicate 22 (Cmd.write zeroWrite),
      InRange zeroConf cmd := by
    intro cmd hc
    rw [List.eq_of_mem_replicate hc]
    exact inRange_writeOf 0 7
  refine ⟨(Ran.start 100 _ hin hok).reach, ?_, hx, fun h => ?_⟩
  · rw [ftlWrite, if_neg (by decide), Prog.run_bind, hw]
    simp [gcCheckAfter, Prog.run_bind]
  · have hgc : gcCheckAfter zeroConf 100 (some 0) zeroPages.st
        = ⟨.ok (), zeroPages.st, []⟩ := rfl
    have hiff := triggers_iff hw hgc
    rw [List.append_nil] at hiff
    exact hiff.1 h rfl hneeds

end FemuRemap
