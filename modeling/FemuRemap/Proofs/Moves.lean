/-
What a move does to the page it moves.

`SSD_REMAP(MOVE)` goes through its pages upwards and does three things
for each: it maps the destination, unmaps what the destination held, and
unmaps the source. Nothing looks at how the two ranges lie.

# Which overlaps lose a page

If the destination is below the source, a source is read before any
destination reaches it, and no destination is a source that is still to
come: all is well, even if the ranges overlap. If the destination is in
the source range, at distance `d` from its start, page `d` of the command
takes the first destination as its source and unmaps it; at distance zero
every page does so with its own destination. The second case is also that
of an `FS_GC_WRITE` page whose `h_lpn` is the lpn that is written.

# Two levels

That no page is lost holds of the mapping table in every run
(`Effects`). That one is lost uses that a collection maps nothing that
was not mapped, which needs the inverse lists: there the argument is on
the map of contents (`Logical`) and for runs in which no count wraps.
-/
import FemuRemap.Proofs.Effects
import FemuRemap.Proofs.Exhaustion
import FemuRemap.Proofs.Refinement

namespace FemuRemap

open Lib

variable {c : Conf} {s s' s₁ : Ssd} {tr log : List Event} {fuel : Nat}

-- ======================================================== one page

/-- Everything mapped before is mapped after. -/
def NoneLost (s s' : Ssd) : Prop :=
  ∀ J, s.mappingTable J ≠ none → s'.mappingTable J ≠ none

/-- A programmed page is mapped: a device without a free page stops with
a fault. -/
theorem Geo.programPage_maps (g : Geo c) (h : AllAligned c s)
    (info : LpnInfo) (slot : Slot) :
    Ends (programPage c fuel info slot) s fun r s' => ∃ q, r = some q
      ∧ s'.mappingTable.get
        = Function.update s.mappingTable.get slot.lpn (some q) := by
  refine Sat.mono (Sat.and (programPage_effect fuel info slot)
    (g.programPage_aligned h fuel info slot)) ?_ fun _ _ h => h
  rintro r s' ⟨heffect, hsome, -⟩
  obtain ⟨q, rfl⟩ := Option.ne_none_iff_exists'.1 hsome
  exact ⟨q, rfl, (heffect q rfl).mapping⟩

/-- `USE_REMAP` is asked for a page of a write and grants it. -/
def GrantsHint (c : Conf) (info : LpnInfo) (s : Ssd) : Prop :=
  (askRemap c info (hintedPpn s info) s).res = .ok .success

/-- What is asked for is hinted. -/
theorem GrantsHint.hinted {info : LpnInfo} (h : GrantsHint c info s) :
    ∃ q, hintedPpn s info = some q
      ∧ s.mappingTable info.hLpn.toNat = some q := by
  cases hq : hintedPpn s info with
  | none =>
      unfold GrantsHint askRemap at h
      rw [hq] at h
      split at h <;> cases h
  | some q =>
      refine ⟨q, rfl, ?_⟩
      unfold hintedPpn at hq
      split at hq
      · exact hq
      · cases hq

/-- One page of a write. Granted, it programs nothing, and an
`FS_GC_WRITE` moves the page; refused, it maps its lpn and loses none. -/
theorem Geo.writePage_ends (g : Geo c) (h : AllAligned c s)
    (info : LpnInfo) (slot : Slot) (newPpn : Option Nat) :
    Ends (writePage c fuel info slot newPpn) s fun r s' =>
      (GrantsHint c info s → r = some newPpn
        ∧ (info.flag = fsGcWrite → s'.mappingTable.get = Function.update
          (Function.update s.mappingTable.get slot.lpn
            (s.mappingTable info.hLpn.toNat)) info.hLpn.toNat none))
      ∧ (¬ GrantsHint c info s → (∃ q, r = some q)
        ∧ s'.mappingTable slot.lpn ≠ none ∧ NoneLost s s') := by
  refine Sat.get_bind (Sat.bind (Sat.and_res (Sat.and
    ((steadily_askRemap _ _).ends s)
    ((framed_askRemap (I := anyBlock) _ _).aligned h))) ?_)
  rintro r s₁ ⟨⟨hsteady, h₁⟩, hres⟩
  have hsame := congrArg Table.get hsteady.mapping
  cases r with
  | success =>
      have hgrant : GrantsHint c info s := hres
      obtain ⟨q, hq, hmapped⟩ := hgrant.hinted
      rw [hq]
      refine Sat.bind (R := fun _ s' => info.flag = fsGcWrite →
        s'.mappingTable.get = Function.update (Function.update
          s.mappingTable.get slot.lpn (s.mappingTable info.hLpn.toNat))
          info.hLpn.toNat none) ?_ ?_
      · -- of the three kinds of hinted write only one moves the lpn
        unfold remapHinted
        split
        · next hcp =>
            exact Sat.mono (remapLpn_effect true false none q slot.lpn)
              (fun _ _ _ hfs => absurd (hcp.symm.trans hfs) (by decide))
              fun _ _ h => h
        split
        · next hdedup =>
            exact Sat.mono (remapLpn_effect true true none q slot.lpn)
              (fun _ _ _ hfs => absurd (hdedup.symm.trans hfs) (by decide))
              fun _ _ h => h
        · refine Sat.mono (remapLpn_effect true false _ q slot.lpn) ?_
            fun _ _ h => h
          intro _ s₂ heffect _
          rw [heffect.mapping, hsame, hmapped]
          rfl
      · intro _ s₂ hm
        exact Sat.pure ⟨fun _ => ⟨rfl, hm⟩, fun hnot => absurd hgrant hnot⟩
  | fail =>
      have hrefused : ¬ GrantsHint c info s := by
        intro hgrant
        rw [GrantsHint, hres] at hgrant
        cases hgrant
      refine Sat.bind (g.programPage_maps h₁ info slot) ?_
      rintro _ s₂ ⟨q, rfl, hm⟩
      rw [hsame] at hm
      refine Sat.pure ⟨fun hgrant => absurd hgrant hrefused,
        fun _ => ⟨⟨_, rfl⟩, ?_, fun J hJ => ?_⟩⟩
      · rw [hm, Function.update_self]
        exact Option.some_ne_none q
      · rw [hm]
        exact update_ne_none hJ

/-- A request of one page: what its collection adds loses nothing. -/
theorem Geo.onePage_ends (g : Geo c) (h : AllAligned c s)
    {req : RequestMeta} {slot : Slot}
    (hle : req.sectorNb + req.length ≤ c.sectorNb)
    (hslot : slots c req.sectorNb req.length = [slot]) :
    Ends (ftlWrite c fuel req) s fun _ s' =>
      (GrantsHint c (req.lpnsInfo 0) s →
        (req.lpnsInfo 0).flag = fsGcWrite →
          s'.mappingTable (req.lpnsInfo 0).hLpn.toNat = none)
      ∧ (¬ GrantsHint c (req.lpnsInfo 0) s →
        s'.mappingTable slot.lpn ≠ none ∧ NoneLost s s') := by
  have hpages : Ends (writePages c fuel req.lpnsInfo [slot] 0 none) s
      fun r s₁ => (GrantsHint c (req.lpnsInfo 0) s → r = some none
          ∧ ((req.lpnsInfo 0).flag = fsGcWrite →
            s₁.mappingTable (req.lpnsInfo 0).hLpn.toNat = none))
        ∧ (¬ GrantsHint c (req.lpnsInfo 0) s → (∃ q, r = some q)
          ∧ s₁.mappingTable slot.lpn ≠ none ∧ NoneLost s s₁) := by
    refine Sat.bind (g.writePage_ends h (req.lpnsInfo 0) slot none) ?_
    rintro r s₁ ⟨hmove, hstore⟩
    have hgone : GrantsHint c (req.lpnsInfo 0) s →
        (req.lpnsInfo 0).flag = fsGcWrite →
        s₁.mappingTable (req.lpnsInfo 0).hLpn.toNat = none := by
      intro hgrant hfs
      rw [(hmove hgrant).2 hfs, Function.update_self]
    cases r with
    | none => exact Sat.pure ⟨fun hgrant => ⟨(hmove hgrant).1, hgone hgrant⟩,
        hstore⟩
    | some q => exact Sat.pure ⟨fun hgrant => ⟨(hmove hgrant).1,
        hgone hgrant⟩, hstore⟩
  unfold ftlWrite
  rw [if_neg (Nat.not_lt.2 hle), hslot]
  refine Sat.bind hpages ?_
  rintro r s₁ ⟨hmove, hstore⟩
  by_cases hgrant : GrantsHint c (req.lpnsInfo 0) s
  · -- nothing was programmed, and nothing is collected
    obtain ⟨rfl, hgone⟩ := hmove hgrant
    exact Sat.pure ⟨fun _ => hgone, fun hnot => absurd hgrant hnot⟩
  · obtain ⟨⟨q, rfl⟩, hmapped, hkept⟩ := hstore hgrant
    refine Sat.bind (gcCheckAfter_gathers fuel q) ?_
    rintro _ s₂ ⟨e, hgather⟩
    exact Sat.pure ⟨fun hyes => absurd hyes hgrant, fun _ =>
      ⟨hgather.mapped _ hmapped, fun J hJ => hgather.mapped J (hkept J hJ)⟩⟩

/-- The rewriting fallback maps its lpn and loses none. -/
theorem Geo.fallback_maps (g : Geo c) (h : AllAligned c s) {s₀ : Ssd}
    {o : Option Nat} {L : Nat} (hL : L < c.pageMappingEntryNb) :
    Ends (ftlWrite c fuel (fallbackRequest c s₀ o L)) s fun _ s' =>
      s'.mappingTable L ≠ none ∧ NoneLost s s' := by
  refine Sat.mono (g.onePage_ends h (page_sectors_le hL) (g.slots_page L)) ?_
    fun _ _ h => h
  intro _ s' hends
  refine hends.2 fun hgrant => ?_
  -- a plain page: nothing is asked of the NVRAM
  cases hgrant

/-- `USE_REMAP` grants the page of a remap whose source is `K`. -/
def Grants (c : Conf) (K : Nat) (s : Ssd) : Prop :=
  (useRemap c (calcBlock c (ppnValue (s.mappingTable K))) s).res
    = .ok .success

/-- Asking maps nothing, and is answered by `Grants`. -/
theorem useRemap_ends (h : AllAligned c s) (K : Nat) :
    Ends (useRemap c (calcBlock c (ppnValue (s.mappingTable K)))) s
      fun r s₁ => AllAligned c s₁
        ∧ s₁.mappingTable.get = s.mappingTable.get
        ∧ (r = .success ↔ Grants c K s) := by
  refine Sat.mono (Sat.and_res (Sat.and ((steadily_useRemap _).ends s)
    ((framed_useRemap (I := anyBlock) _).aligned h))) ?_ fun _ _ h => h
  rintro r s₁ ⟨⟨hsteady, h₁⟩, hres⟩
  refine ⟨h₁, congrArg Table.get hsteady.mapping, ?_⟩
  rw [Grants, hres, Except.ok.injEq]

/-- One page of a move: the destination is mapped unless it is the
source, and only the source may be lost. A granted page takes its page
along. -/
theorem Geo.remapPage_moves (g : Geo c) (h : AllAligned c s) {K L : Nat}
    (hK : s.mappingTable K ≠ none) (hL : L < c.pageMappingEntryNb) :
    Ends (remapPage c fuel .move K L) s fun _ s' =>
      (L ≠ K → s'.mappingTable L ≠ none)
        ∧ (∀ J, J ≠ K → s.mappingTable J ≠ none → s'.mappingTable J ≠ none)
        ∧ (Grants c K s → s'.mappingTable.get = Function.update
          (Function.update s.mappingTable.get L (s.mappingTable K))
          K none) := by
  obtain ⟨q, hq⟩ := Option.ne_none_iff_exists'.1 hK
  refine Sat.get_bind (Sat.bind (useRemap_ends h K) ?_)
  rintro r s₁ ⟨h₁, hsame, hgrants⟩
  cases r with
  | success =>
      show Ends (remapLpn c false false (some K) (s.mappingTable K) L) s₁ _
      rw [hq]
      refine Sat.mono (remapLpn_effect false false (some K) q L) ?_
        fun _ _ h => h
      intro _ s₂ heffect
      -- the source is cleared last, so a move to itself would lose it
      have hm : s₂.mappingTable.get = Function.update
          (Function.update s.mappingTable.get L (some q)) K none := by
        rw [heffect.mapping, hsame]
        rfl
      refine ⟨fun hne => ?_, fun J hJ hmapped => ?_, fun _ => hm⟩
      · rw [hm, Function.update_of_ne hne, Function.update_self]
        exact Option.some_ne_none q
      · rw [hm, Function.update_of_ne hJ]
        exact update_ne_none hmapped
  | fail =>
      refine Sat.bind (g.fallback_maps h₁ hL) ?_
      rintro _ s₂ ⟨hL₂, hkept⟩
      refine Sat.mono (unmapLpn_effect K) ?_ fun _ _ h => h
      intro _ s₃ heffect
      have hother : ∀ J, J ≠ K → s₃.mappingTable J = s₂.mappingTable J := by
        intro J hJ
        rw [heffect.mapping, Function.update_of_ne hJ]
      refine ⟨fun hne => ?_, fun J hJ hmapped => ?_, fun hgrant => ?_⟩
      · rw [hother L hne]
        exact hL₂
      · rw [hother J hJ]
        refine hkept J ?_
        rw [hsame]
        exact hmapped
      · cases hgrants.2 hgrant

-- ======================================================== the loop

/-- `USE_REMAP` grants every page of a move. -/
def GrantsAll (c : Conf) (fuel : Nat) : Nat → Nat → Nat → Ssd → Prop
  | 0, _, _, _ => True
  | len + 1, K, L, s => Grants c K s
      ∧ GrantsAll c fuel len (K + 1) (L + 1)
        (remapPage c fuel .move K L s).st

/-- The ranges of a move lie so that it loses nothing: the destination
starts below the source or behind it. -/
def Clear (K L len : Nat) : Prop := L < K ∨ K + len ≤ L

/-- The first page of a move, and the rest of it. -/
theorem Geo.remapPages_first (g : Geo c) {len K L : Nat}
    (h : AllAligned c s) (hL : L < c.pageMappingEntryNb)
    (hK : s.mappingTable K ≠ none)
    (hrun : remapPages c fuel .move (len + 1) K L s = ⟨.ok (), s', log⟩) :
    ∃ s₁ l₁, (remapPage c fuel .move K L s).st = s₁
      ∧ remapPages c fuel .move len (K + 1) (L + 1) s₁ = ⟨.ok (), s', l₁⟩
      ∧ AllAligned c s₁ ∧ (L ≠ K → s₁.mappingTable L ≠ none)
      ∧ (∀ J, J ≠ K → s.mappingTable J ≠ none → s₁.mappingTable J ≠ none)
      ∧ (Grants c K s → s₁.mappingTable.get = Function.update
        (Function.update s.mappingTable.get L (s.mappingTable K)) K none) := by
  obtain ⟨_, s₁, _, l₁, hpage, hrest, -⟩ := Prog.bind_ok hrun
  obtain ⟨-, h₁⟩ := Sat.of_ok (g.remapPage_aligned h fuel .move K L) hpage
    fun _ _ => trivial
  obtain ⟨-, hmoves⟩ := Sat.of_ok (g.remapPage_moves h hK hL) hpage
    fun _ _ => trivial
  exact ⟨s₁, l₁, congrArg Out.st hpage, hrest, h₁, hmoves⟩

/-- A clear move maps all its destinations and loses only sources. -/
theorem Geo.remapPages_moves (g : Geo c) {len K L : Nat}
    (h : AllAligned c s) (hL : L + len ≤ c.pageMappingEntryNb)
    (hsrc : ∀ i < len, s.mappingTable (K + i) ≠ none)
    (hclear : Clear K L len)
    (hrun : remapPages c fuel .move len K L s = ⟨.ok (), s', log⟩) :
    (∀ i < len, s'.mappingTable (L + i) ≠ none)
      ∧ ∀ J, J < K ∨ K + len ≤ J → s.mappingTable J ≠ none →
        s'.mappingTable J ≠ none := by
  unfold Clear at hclear
  induction len generalizing s K L log with
  | zero =>
      cases hrun
      exact ⟨fun i hi => absurd hi (Nat.not_lt_zero i), fun _ _ hJ => hJ⟩
  | succ len ih =>
      have hK : s.mappingTable K ≠ none := hsrc 0 (Nat.succ_pos len)
      obtain ⟨s₁, l₁, -, hrest, h₁, hdst, hkept, -⟩ :=
        g.remapPages_first h (by omega) hK hrun
      -- the sources to come are still there
      have hsrc₁ : ∀ i < len, s₁.mappingTable (K + 1 + i) ≠ none := by
        intro i hi
        have hmapped := hsrc (i + 1) (by omega)
        rw [show K + (i + 1) = K + 1 + i by omega] at hmapped
        exact hkept (K + 1 + i) (by omega) hmapped
      obtain ⟨hdsts, hkept₁⟩ := ih h₁ (by omega) hsrc₁ (by omega) hrest
      refine ⟨fun i hi => ?_, fun J hJ hmapped => ?_⟩
      · cases i with
        | zero => exact hkept₁ L (by omega) (hdst (by omega))
        | succ i =>
            have hmapped := hdsts i (by omega)
            rwa [show L + 1 + i = L + (i + 1) by omega] at hmapped
      · exact hkept₁ J (by omega) (hkept J (by omega) hmapped)

/-- A clear move that is granted takes every page along and leaves the
other lpns alone. -/
theorem Geo.remapPages_takes (g : Geo c) {len K L : Nat}
    (h : AllAligned c s) (hL : L + len ≤ c.pageMappingEntryNb)
    (hsrc : ∀ i < len, s.mappingTable (K + i) ≠ none)
    (hclear : Clear K L len) (hgrant : GrantsAll c fuel len K L s)
    (hrun : remapPages c fuel .move len K L s = ⟨.ok (), s', log⟩) :
    (∀ i < len, s'.mappingTable (L + i) = s.mappingTable (K + i))
      ∧ ∀ J, J < K ∨ K + len ≤ J → J < L ∨ L + len ≤ J →
        s'.mappingTable J = s.mappingTable J := by
  unfold Clear at hclear
  induction len generalizing s K L log with
  | zero =>
      cases hrun
      exact ⟨fun i hi => absurd hi (Nat.not_lt_zero i), fun _ _ _ => rfl⟩
  | succ len ih =>
      obtain ⟨hfirst, hothers⟩ := hgrant
      have hK : s.mappingTable K ≠ none := hsrc 0 (Nat.succ_pos len)
      obtain ⟨s₁, l₁, hst, hrest, h₁, -, -, htake⟩ :=
        g.remapPages_first h (by omega) hK hrun
      have hm := htake hfirst
      -- the first move frees its source, which no later page of the range
      -- reads
      have hother : ∀ J, J ≠ K → J ≠ L →
          s₁.mappingTable J = s.mappingTable J := by
        intro J hJK hJL
        rw [hm, Function.update_of_ne hJK, Function.update_of_ne hJL]
      have hsrc₁ : ∀ i < len,
          s₁.mappingTable (K + 1 + i) = s.mappingTable (K + (i + 1)) := by
        intro i hi
        rw [hother (K + 1 + i) (by omega) (by omega)]
        congr 1
        omega
      rw [hst] at hothers
      obtain ⟨htaken, hframe⟩ := ih h₁ (by omega)
        (fun i hi => by rw [hsrc₁ i hi]; exact hsrc (i + 1) (by omega))
        (by omega) hothers hrest
      refine ⟨fun i hi => ?_, fun J hJK hJL => ?_⟩
      · cases i with
        | zero =>
            rw [Nat.add_zero, Nat.add_zero, hframe L (by omega) (by omega), hm,
              Function.update_of_ne (by omega), Function.update_self]
        | succ i =>
            rw [show L + (i + 1) = L + 1 + i by omega, htaken i (by omega),
              hsrc₁ i (by omega)]
      · rw [hframe J (by omega) (by omega), hother J (by omega) (by omega)]

-- ============================================================ losses

/-- Pages to come do not map what lies below their destinations. -/
theorem PageRemaps.none_below {ope : RemapOpe} {len K L J : Nat}
    {v v' : LogicalMap} (h : PageRemaps ope len K L v v') (hJ : J < L)
    (hv : v J = none) : v' J = none := by
  induction h with
  | zero => exact hv
  | @succ len K L v v₁ v₂ hpage _ ih =>
      refine ih (by omega) ?_
      cases hpage with
      | mapped _ =>
          exact LogicalMap.transfer_eq_none.2 (.inr ⟨by omega, hv⟩)
      | skipped _ => exact hv
      | filled _ =>
          exact LogicalMap.transfer_eq_none.2 (.inr ⟨by omega, hv⟩)

/-- A move unmaps a source that no destination to come can map again. -/
theorem PageRemaps.move_loses {len K L J : Nat} {v v' : LogicalMap}
    (h : PageRemaps .move len K L v v') (hJ : J ≤ L) (hK : K ≤ J)
    (hJlen : J < K + len) : v' J = none := by
  induction len generalizing K L v with
  | zero => omega
  | succ len ih =>
      cases h with
      | succ hpage hrest =>
          rcases Nat.eq_or_lt_of_le hK with rfl | hlt
          · -- the page whose source it is
            refine hrest.none_below (by omega) ?_
            cases hpage with
            | mapped _ => exact Function.update_self ..
            | skipped hnone => exact hnone
            | filled _ => exact Function.update_self ..
          · exact ih hrest (by omega) hlt (by omega)

theorem Logical.remapPages {o : RemapOpe} {K L len ope : Nat}
    {v v' : LogicalMap} (h : Logical c (.remap K L len ope) v v')
    (ho : remapOpe ope = some o) (hlen : len < 2 ^ 31) :
    PageRemaps o len K L v v' := by
  cases h with
  | remap ho' hpages =>
      cases ho.symm.trans ho'
      rwa [if_pos hlen] at hpages
  | remapUnknown hnone => cases ho.symm.trans hnone

-- ================================================ FS_GC_WRITE pages

/-- An `FS_GC_WRITE` page keeps what it moves exactly when it is not
granted a move onto itself. -/
theorem Geo.writePage_fsGc (g : Geo c) (h : AllAligned c s)
    {info : LpnInfo} (hflag : info.flag = fsGcWrite) (slot : Slot)
    (newPpn : Option Nat) :
    Ends (writePage c fuel info slot newPpn) s fun _ s' =>
      ((s'.mappingTable slot.lpn ≠ none
          ∧ (GrantsHint c info s → s'.mappingTable slot.lpn
            = s.mappingTable info.hLpn.toNat))
        ↔ (GrantsHint c info s → info.hLpn.toNat ≠ slot.lpn)) := by
  refine Sat.mono (g.writePage_ends h info slot newPpn) ?_ fun _ _ h => h
  rintro r s' ⟨hmove, hstore⟩
  by_cases hgrant : GrantsHint c info s
  · obtain ⟨q, -, hmapped⟩ := hgrant.hinted
    have hm := (hmove hgrant).2 hflag
    by_cases hself : info.hLpn.toNat = slot.lpn
    · refine ⟨fun hkept => ?_, fun hne => absurd hself (hne hgrant)⟩
      rw [hm, hself, Function.update_self] at hkept
      exact absurd rfl hkept.1
    · refine ⟨fun _ _ => hself, fun _ => ?_⟩
      rw [hm, Function.update_of_ne (Ne.symm hself), Function.update_self,
        hmapped]
      exact ⟨Option.some_ne_none q, fun _ => rfl⟩
  · exact ⟨fun _ hyes => absurd hyes hgrant,
      fun _ => ⟨(hstore hgrant).2.1, fun hyes => absurd hyes hgrant⟩⟩

-- ============================================================== moves

/-- A move kept its pages: every destination is mapped, and to the page
its source was on if all of them were granted. -/
def MoveIntact (c : Conf) (fuel K L len : Nat) (s s' : Ssd) : Prop :=
  (∀ i < len, s'.mappingTable (L + i) ≠ none)
    ∧ (GrantsAll c fuel len K L s →
      ∀ i < len, s'.mappingTable (L + i) = s.mappingTable (K + i))

theorem ssdRemap_pages {r : Ret} {o : RemapOpe} {K L len ope : Nat}
    (ho : remapOpe ope = some o) (hlen : len < 2 ^ 31)
    (hrun : ssdRemap c fuel K L len ope s = ⟨.ok r, s', log⟩) :
    remapPages c fuel o len K L s = ⟨.ok (), s', log⟩ := by
  unfold ssdRemap at hrun
  rw [ho, if_pos hlen] at hrun
  obtain ⟨_, hpages⟩ := Prog.bind_pure_ok hrun
  exact hpages

/-- A move is intact if its ranges are clear, in every run; and only then
in a run in which no count wraps. A page of an `FS_GC_WRITE`, after any
pages of its request, is intact exactly if it is not granted a move onto
itself. -/
theorem move_intact_iff (g : Geo c) (h : Visited c s tr) :
    (∀ fuel K L len s' r log,
      K + len ≤ c.pageMappingEntryNb → L + len ≤ c.pageMappingEntryNb →
      (∀ i < len, s.mappingTable (K + i) ≠ none) →
      ssdRemap c fuel K L len 4 s = ⟨.ok r, s', log⟩ →
      (Clear K L len → MoveIntact c fuel K L len s s')
        ∧ ((∀ e ∈ tr ++ log, NoWrap e) → MoveIntact c fuel K L len s s' →
          len = 0 ∨ Clear K L len))
    ∧ ∀ fuel info pages newPpn s₁ l₁ slot r s' log,
      writePages c fuel info pages 0 none s = ⟨.ok (some newPpn), s₁, l₁⟩ →
      (info pages.length).flag = fsGcWrite →
      writePage c fuel (info pages.length) slot newPpn s₁
        = ⟨.ok r, s', log⟩ →
      ((s'.mappingTable slot.lpn ≠ none
          ∧ (GrantsHint c (info pages.length) s₁ →
            s'.mappingTable slot.lpn
              = s₁.mappingTable (info pages.length).hLpn.toNat))
        ↔ (GrantsHint c (info pages.length) s₁ →
          (info pages.length).hLpn.toNat ≠ slot.lpn)) := by
  have hall := h.aligned g
  refine ⟨fun fuel K L len s' r log _ hL hsrc hrun => ?_,
    fun fuel info pages newPpn s₁ l₁ slot r s' log hpages hflag hpage => ?_⟩
  · -- the loop counter is an `int`, which the device's lpns fit
    have hlen : len < 2 ^ 31 := by
      have htotal := g.total
      omega
    have hmove := ssdRemap_pages rfl hlen hrun
    refine ⟨fun hclear => ⟨(g.remapPages_moves hall hL hsrc hclear hmove).1,
      fun hgrant => (g.remapPages_takes hall hL hsrc hclear hgrant hmove).1⟩,
      fun hlog hintact => ?_⟩
    obtain ⟨htr, hlog⟩ := List.forall_mem_append.1 hlog
    obtain ⟨⟨p, hp⟩, -⟩ := h.sound g htr
    obtain ⟨-, _, -, hlogical, -⟩ := Sat.of_ok (g.ssdRemap_serves (A := True)
      (B := False) (M := 0) (R := 0) (K := K) ⟨hp, False.elim⟩ hL
      (.inl trivial) 4 fuel) hrun fun e he => relied_false (hlog e he)
    -- an overlap upwards loses the first target: it is a source still to come
    refine or_iff_not_imp_left.2 fun hpos => ?_
    by_contra hnot
    unfold Clear at hnot
    have hlost := (hlogical.remapPages rfl hlen).move_loses (Nat.le_refl L)
      (by omega) (by omega)
    exact hintact.1 0 (by omega) (Option.map_eq_none_iff.1 hlost)
  · obtain ⟨-, h₁⟩ := Sat.of_ok (g.writePages_aligned hall fuel info pages 0
      none) hpages fun _ _ => trivial
    exact (Sat.of_ok (g.writePage_fsGc h₁ hflag slot newPpn) hpage
      fun _ _ => trivial).2

/-- A move down by one, onto a range it overlaps, from a state with a
shared page. -/
theorem move_intact_tiny :
    MoveIntact tinyConf 40 1 0 2 tinyOut.st
      (ssdRemap tinyConf 40 1 0 2 4 tinyOut.st).st := by
  have hok : (ssdRemap tinyConf 40 1 0 2 4 tinyOut.st).res
      = .ok .success := by
    decide +kernel
  have hsrc : ∀ i < 2, tinyOut.st.mappingTable (1 + i) ≠ none := by
    decide +kernel
  exact ((move_intact_iff tinyConf_geo tinyOut_reach.visited).1 40 1 0 2 _ _ _
    (by decide) (by decide) hsrc (Out.eq_of_res hok)).1 (.inl (by decide))

/-- The request of one `FS_GC_WRITE` page. -/
def fsGcOf (lpn hLpn : Nat) : Cmd :=
  .write ⟨1, lpn, fun _ => ⟨fsGcWrite, hLpn, none⟩⟩

/-- A move of an lpn onto itself, one up by one, and an `FS_GC_WRITE` of
an lpn with itself as hint: each one loses a page that was mapped. -/
theorem move_loses_tiny :
    Reach tinyConf tinyOut.st tinyOut.log
      ∧ (tinyOut.st.mappingTable 1 ≠ none
        ∧ tinyOut.st.mappingTable 2 ≠ none)
      ∧ ((exec tinyConf 40 (.remap 1 1 1 4) tinyOut.st).res = .ok ()
        ∧ (exec tinyConf 40 (.remap 1 1 1 4) tinyOut.st).st.mappingTable 1
          = none)
      ∧ ((exec tinyConf 40 (.remap 1 2 2 4) tinyOut.st).res = .ok ()
        ∧ (exec tinyConf 40 (.remap 1 2 2 4) tinyOut.st).st.mappingTable 2
          = none)
      ∧ ((exec tinyConf 40 (fsGcOf 1 1) tinyOut.st).res = .ok ()
        ∧ (exec tinyConf 40 (fsGcOf 1 1) tinyOut.st).st.mappingTable 1
          = none) := by
  refine ⟨tinyOut_reach, ?_, ?_, ?_, ?_⟩
  all_goals decide +kernel

end FemuRemap
