/-
How full the NVRAM is can be seen in the logical map.

Each request that shares a page has two ways: with a grant of
`USE_REMAP` it shares the page, without one it programs a copy. The two
ways are written apart, and whether they leave the same lpns mapped is
the question here.

# Where they differ

- An `FS_GC_WRITE` page that is granted unmaps its `h_lpn`; one that is
  refused does not. The fallback of a `MOVE` does unmap its source.
- An `SSD_REMAP` page whose source is not mapped is granted as well, for
  `CALC_BLOCK(-1)` is a block; nothing is done then. Refused, it programs
  a page that nobody wrote.

`unmapped` lemmas say for one run which lpns are not mapped at its end, as
a function of those at its start and of the grant; the two runs are then
compared lpn by lpn.
-/
import FemuRemap.Proofs.Moves

namespace FemuRemap

open Lib

variable {c : Conf} {s s' s₁ s₂ s₁' s₂' : Ssd}
  {tr tr₁ tr₂ log l₁ l₂ : List Event} {fuel fuel₁ fuel₂ : Nat}

/-- Which lpns are not mapped at the end of a request that gives the page
of `K` to `L`: `K` if it is taken from there, and those from before, but
`L` among them only if the request was skipped. -/
def Leaves (taken skipped : Prop) (K L : Nat) (s s' : Ssd) : Prop :=
  ∀ J, s'.mappingTable J = none
    ↔ (taken ∧ J = K) ∨ ((J = L → skipped) ∧ s.mappingTable J = none)

-- ======================================================== one write

/-- A request of one page at the level of contents. -/
theorem Logical.onePage {req : RequestMeta} {slot : Slot}
    {v v' : LogicalMap} (h : Logical c (.write req) v v')
    (hle : req.sectorNb + req.length ≤ c.sectorNb)
    (hslot : slots c req.sectorNb req.length = [slot]) :
    PageWrite (req.lpnsInfo 0) slot.lpn v v' := by
  cases h with
  | write _ hpages =>
      rw [lpnsOf, hslot] at hpages
      cases hpages with
      | cons hpage hnil =>
          cases hnil
          exact hpage
  | writeBeyond hlt => exact absurd hle (Nat.not_le.2 hlt)

/-- A page of a write, if it is known whether its hint was granted: a
granted move loses its source, and what is refused loses nothing. -/
theorem PageWrite.eq_none {info : LpnInfo} {lpn : Nat} {v v' : LogicalMap}
    {granted : Prop} (h : PageWrite info lpn v v')
    (hflag : info.flag = cpWrite ∨ info.flag = fsGcWrite)
    (hne : info.hLpn.toNat ≠ lpn)
    (hgone : granted → info.flag = fsGcWrite →
      v info.hLpn.toNat ≠ none ∧ v' info.hLpn.toNat = none)
    (hkept : ¬ granted → v info.hLpn.toNat ≠ none →
      v' info.hLpn.toNat ≠ none) (J : Nat) :
    v' J = none ↔ ((info.flag = fsGcWrite ∧ granted) ∧ J = info.hLpn.toNat)
      ∨ (J ≠ lpn ∧ v J = none) := by
  cases h with
  | store =>
      have hnot : ¬ (info.flag = fsGcWrite ∧ granted) := by
        rintro ⟨hfs, hgrant⟩
        obtain ⟨hsrc, hnone⟩ := hgone hgrant hfs
        rw [Function.update_of_ne hne] at hnone
        exact hsrc hnone
      rw [Function.update_apply, or_iff_right (mt And.left hnot)]
      split
      · next heq => simp [heq]
      · next hJ => rw [and_iff_right hJ]
  | dedup hdedup _ _ =>
      rcases hflag with hcp | hfs
      · exact absurd (hcp.symm.trans hdedup) (by decide)
      · exact absurd (hfs.symm.trans hdedup) (by decide)
  | fsGc hfs _ hsome =>
      have hsrc : v info.hLpn.toNat ≠ none := by
        rw [hsome]
        exact Option.some_ne_none _
      have hgrant : granted := by
        by_contra hnot
        exact hkept hnot hsrc
          (LogicalMap.transfer_eq_none.2 (.inl ⟨rfl, rfl⟩))
      have htaken : info.flag = fsGcWrite ∧ granted := ⟨hfs, hgrant⟩
      rw [LogicalMap.transfer_eq_none, and_iff_right rfl,
        and_iff_right htaken]

/-- A `CP_WRITE` or `FS_GC_WRITE` of one page is never skipped, and takes
the page if it is a granted move. -/
theorem Geo.write_leaves (g : Geo c) (h : Visited c s tr)
    {req : RequestMeta} {slot : Slot} {r : Ret}
    (hle : req.sectorNb + req.length ≤ c.sectorNb)
    (hslot : slots c req.sectorNb req.length = [slot])
    (hflag : (req.lpnsInfo 0).flag = cpWrite
      ∨ (req.lpnsInfo 0).flag = fsGcWrite)
    (hne : (req.lpnsInfo 0).hLpn.toNat ≠ slot.lpn)
    (hrun : ftlWrite c fuel req s = ⟨.ok r, s', log⟩)
    (hlog : ∀ e ∈ tr ++ log, NoWrap e) :
    Leaves ((req.lpnsInfo 0).flag = fsGcWrite
        ∧ GrantsHint c (req.lpnsInfo 0) s) False
      (req.lpnsInfo 0).hLpn.toNat slot.lpn s s' := by
  obtain ⟨htr, hlog⟩ := List.forall_mem_append.1 hlog
  obtain ⟨⟨p, hp⟩, -⟩ := h.sound g htr
  obtain ⟨-, _, -, hlogical, -⟩ := Sat.of_ok (g.ftlWrite_serves (A := True)
    (B := False) (M := 0) (R := 0) ⟨hp, False.elim⟩ req (.inl trivial) fuel)
    hrun fun e he => relied_false (hlog e he)
  obtain ⟨-, hgone, hkept⟩ := Sat.of_ok (g.onePage_ends (h.aligned g) hle
    hslot) hrun fun _ _ => trivial
  intro J
  rw [← view_eq_none, ← view_eq_none (s := s)]
  refine (hlogical.onePage hle hslot).eq_none hflag hne ?_ ?_ J
  · intro hgrant hfs
    obtain ⟨q, -, hq⟩ := hgrant.hinted
    rw [Ne, view_eq_none, view_eq_none, hq]
    exact ⟨Option.some_ne_none q, hgone hgrant hfs⟩
  · intro hnot
    rw [Ne, Ne, view_eq_none, view_eq_none]
    exact (hkept hnot).2 _

/-- What is asked for a page of a write is what `SSD_REMAP` asks for its
source, if there is one. -/
theorem grantsHint_iff {info : LpnInfo} {K : Nat} (hhint : info.hLpn = K)
    (hflag : info.flag = cpWrite ∨ info.flag = fsGcWrite) :
    GrantsHint c info s
      ↔ (K ≠ 0 ∧ s.mappingTable K ≠ none) ∧ Grants c K s := by
  have hask : info.flag = cpWrite ∨ info.flag = dedupWrite
      ∨ info.flag = fsGcWrite := hflag.imp_right .inr
  have htoNat : info.hLpn.toNat = K := by omega
  unfold GrantsHint Grants askRemap
  rw [if_pos hask, hintedPpn, htoNat]
  by_cases hK : K = 0
  · rw [if_neg (by omega)]
    exact ⟨nofun, fun h => absurd hK h.1.1⟩
  · rw [if_pos (by omega)]
    cases hq : s.mappingTable K with
    | none => exact ⟨nofun, fun h => absurd rfl h.1.2⟩
    | some q => exact ⟨fun h => ⟨⟨hK, Option.some_ne_none q⟩, h⟩, And.right⟩

-- ======================================================== one remap

/-- One page of a remap without a source: granted, it does nothing; else
it maps its destination. -/
theorem Geo.remapPage_unmapped (g : Geo c) (h : AllAligned c s)
    (o : RemapOpe) {K L : Nat} (hK : s.mappingTable K = none)
    (hL : L < c.pageMappingEntryNb) (hne : K ≠ L) :
    Ends (remapPage c fuel o K L) s fun _ s' =>
      (Grants c K s → s'.mappingTable.get = s.mappingTable.get)
        ∧ (¬ Grants c K s → s'.mappingTable L ≠ none) := by
  refine Sat.get_bind (Sat.bind (useRemap_ends h K) ?_)
  rintro r s₁ ⟨h₁, hsame, hgrants⟩
  cases r with
  | success =>
      have hgrant : Grants c K s := hgrants.1 rfl
      rw [hK]
      refine Sat.bind (R := fun r s' => r = .fail ∧ s' = s₁) ?_ ?_
      · exact Sat.emit_bind fun _ => ⟨trivial, Sat.pure ⟨rfl, rfl⟩⟩
      · rintro _ _ ⟨rfl, rfl⟩
        exact Sat.pure ⟨fun _ => hsame, fun hnot => absurd hgrant hnot⟩
  | fail =>
      refine Sat.bind (g.fallback_maps h₁ hL) ?_
      rintro _ s₂ ⟨hL₂, -⟩
      have hrefused : ¬ Grants c K s := by
        intro hgrant
        cases hgrants.2 hgrant
      by_cases ho : o = .move
      · rw [if_pos ho]
        refine Sat.mono (unmapLpn_effect K) ?_ fun _ _ h => h
        intro _ s₃ heffect
        refine ⟨fun hgrant => absurd hgrant hrefused, fun _ => ?_⟩
        rw [heffect.mapping, Function.update_of_ne hne.symm]
        exact hL₂
      · rw [if_neg ho]
        exact Sat.pure ⟨fun hgrant => absurd hgrant hrefused, fun _ => hL₂⟩

/-- A page of a remap that has a source, or a destination afterwards. -/
theorem PageRemap.eq_none {o : RemapOpe} {K L : Nat} {v v' : LogicalMap}
    (h : PageRemap o K L v v') (hserved : v K ≠ none ∨ v' L ≠ none)
    (J : Nat) : v' J = none ↔ (o = .move ∧ J = K) ∨ (J ≠ L ∧ v J = none) := by
  cases h with
  | mapped _ => exact LogicalMap.transfer_eq_none
  | filled _ => exact LogicalMap.transfer_eq_none
  | skipped hK =>
      have hL := hserved.resolve_left (not_not_intro hK)
      refine ⟨fun hJ => .inr ⟨fun heq => hL (heq ▸ hJ), hJ⟩, fun h => ?_⟩
      rcases h with ⟨-, rfl⟩ | ⟨-, hJ⟩
      · exact hK
      · exact hJ

/-- A remap of one page takes it if it is a move, and is skipped if it is
granted without a source. -/
theorem Geo.remap_leaves (g : Geo c) (h : Visited c s tr) {o : RemapOpe}
    {K L ope : Nat} {r : Ret} (ho : remapOpe ope = some o)
    (hL : L < c.pageMappingEntryNb) (hne : K ≠ L)
    (hrun : ssdRemap c fuel K L 1 ope s = ⟨.ok r, s', log⟩)
    (hlog : ∀ e ∈ tr ++ log, NoWrap e) :
    Leaves (o = .move) (s.mappingTable K = none ∧ Grants c K s) K L s s' := by
  obtain ⟨htr, hlog⟩ := List.forall_mem_append.1 hlog
  obtain ⟨⟨p, hp⟩, -⟩ := h.sound g htr
  obtain ⟨-, _, -, hlogical, -⟩ := Sat.of_ok (g.ssdRemap_serves (A := True)
    (B := False) (M := 0) (R := 0) (K := K) ⟨hp, False.elim⟩ hL
    (.inl trivial) ope fuel) hrun fun e he => relied_false (hlog e he)
  have hpage : PageRemap o K L (view s) (view s') := by
    cases hlogical.remapPages ho (by decide) with
    | succ hpage hnil =>
        cases hnil
        exact hpage
  have hpages := ssdRemap_pages ho (by decide) hrun
  obtain ⟨_, hfirst⟩ := Prog.bind_pure_ok hpages
  by_cases hskip : s.mappingTable K = none ∧ Grants c K s
  · -- nothing changed, and the source was not mapped before
    obtain ⟨-, hsame, -⟩ := Sat.of_ok (g.remapPage_unmapped (h.aligned g) o
      hskip.1 hL hne) hfirst fun _ _ => trivial
    intro J
    rw [hsame hskip.2, and_iff_right fun _ => hskip]
    exact ⟨.inr, fun h => h.elim (fun hJ => hJ.2 ▸ hskip.1) id⟩
  · have hserved : view s K ≠ none ∨ view s' L ≠ none := by
      rw [Ne, Ne, view_eq_none, view_eq_none]
      refine or_iff_not_imp_left.2 fun hK => ?_
      rw [not_not] at hK
      obtain ⟨-, -, hfill⟩ := Sat.of_ok (g.remapPage_unmapped (h.aligned g) o
        hK hL hne) hfirst fun _ _ => trivial
      exact hfill fun hgrant => hskip ⟨hK, hgrant⟩
    intro J
    rw [iff_false_intro hskip, ← view_eq_none, ← view_eq_none (s := s)]
    exact hpage.eq_none hserved J

-- ======================================================== two runs

/-- Two states that agree in the mapping table, the inverse lists, the
page states and the block lists. -/
structure AgreeButNvram (c : Conf) (s₁ s₂ : Ssd) : Prop where
  mapping : ∀ L < c.pageMappingEntryNb, s₁.mappingTable L = s₂.mappingTable L
  inverse : ∀ q < c.pageMappingEntryNb,
    s₁.inverseMappingTable q = s₂.inverseMappingTable q
  valid : ∀ q < c.pageMappingEntryNb, s₁.valid c q = s₂.valid c q
  empty : ∀ i < c.emptyTableEntryNb,
    s₁.lists.emptyBlockList i = s₂.lists.emptyBlockList i
  victim : ∀ i < c.victimTableEntryNb,
    s₁.lists.victimBlockList i = s₂.lists.victimBlockList i
  totalEmpty : s₁.lists.totalEmptyBlockNb = s₂.lists.totalEmptyBlockNb
  totalVictim : s₁.lists.totalVictimBlockNb = s₂.lists.totalVictimBlockNb
  cursor : s₁.lists.emptyBlockTableIndex = s₂.lists.emptyBlockTableIndex
  debug : s₁.lists.sbDeb = s₂.lists.sbDeb

/-- The same lpns are mapped. -/
def SameMapped (c : Conf) (s₁ s₂ : Ssd) : Prop :=
  ∀ J < c.pageMappingEntryNb,
    s₁.mappingTable J = none ↔ s₂.mappingTable J = none

/-- Two runs from the same mapping table can differ at `K` and `L`
only. -/
theorem Leaves.sameMapped_iff {T₁ S₁ T₂ S₂ : Prop} {K L : Nat}
    (h₁ : Leaves T₁ S₁ K L s₁ s₁') (h₂ : Leaves T₂ S₂ K L s₂ s₂')
    (hmap : ∀ J < c.pageMappingEntryNb,
      s₁.mappingTable J = s₂.mappingTable J)
    (hK : K < c.pageMappingEntryNb) (hL : L < c.pageMappingEntryNb)
    (hne : K ≠ L) : SameMapped c s₁' s₂'
      ↔ ((T₁ ↔ T₂) ∨ s₁.mappingTable K = none)
        ∧ ((S₁ ↔ S₂) ∨ s₁.mappingTable L ≠ none) := by
  have hatK : (s₁'.mappingTable K = none ↔ s₂'.mappingTable K = none)
      ↔ (T₁ ↔ T₂) ∨ s₁.mappingTable K = none := by
    rw [h₁ K, h₂ K, ← hmap K hK]
    by_cases hmapped : s₁.mappingTable K = none <;> simp [hmapped, hne]
  have hatL : (s₁'.mappingTable L = none ↔ s₂'.mappingTable L = none)
      ↔ (S₁ ↔ S₂) ∨ s₁.mappingTable L ≠ none := by
    rw [h₁ L, h₂ L, ← hmap L hL]
    by_cases hmapped : s₁.mappingTable L = none <;> simp [hmapped, hne.symm]
  constructor
  · intro hsame
    exact ⟨hatK.1 (hsame K hK), hatL.1 (hsame L hL)⟩
  · rintro ⟨htaken, hskipped⟩ J hJ
    by_cases hJK : J = K
    · rw [hJK]
      exact hatK.2 htaken
    by_cases hJL : J = L
    · rw [hJL]
      exact hatL.2 hskipped
    -- any other lpn is as it was in both
    rw [h₁ J, h₂ J, hmap J hJ]
    simp [hJK, hJL]

theorem and_iff_and_iff {a b₁ b₂ : Prop} :
    (a ∧ b₁ ↔ a ∧ b₂) ↔ (b₁ ↔ b₂) ∨ ¬ a := by
  rw [and_congr_right_iff, imp_iff_or_not]

/-- The requests that give the page of `K` to `L`. -/
inductive Gives (c : Conf) (K L : Nat) : Cmd → Prop
  | write {req : RequestMeta} {slot : Slot} :
      req.sectorNb + req.length ≤ c.sectorNb →
      slots c req.sectorNb req.length = [slot] → slot.lpn = L →
      (req.lpnsInfo 0).flag = cpWrite ∨ (req.lpnsInfo 0).flag = fsGcWrite →
      (req.lpnsInfo 0).hLpn = K → Gives c K L (.write req)
  | remap {ope : Nat} {o : RemapOpe} : remapOpe ope = some o →
      Gives c K L (.remap K L 1 ope)

/-- The requests whose two ways leave the same lpns mapped: of the writes
those that take nothing from their source, of the remaps those that have
a source, or a destination that is mapped. -/
def Indifferent (K L : Nat) (s : Ssd) : Cmd → Prop
  | .write req => (req.lpnsInfo 0).flag = cpWrite ∨ K = 0
      ∨ s.mappingTable K = none
  | .remap _ _ _ _ => s.mappingTable K ≠ none ∨ s.mappingTable L ≠ none
  | .discard _ _ => True

/-- From two states that agree but for the NVRAM, in runs in which no
count wraps: a request leaves the same lpns mapped exactly if the NVRAM
answers the same, or the request is indifferent to it. -/
theorem occupancy_hidden_iff (g : Geo c) (h₁ : Visited c s₁ tr₁)
    (h₂ : Visited c s₂ tr₂) (hagree : AgreeButNvram c s₁ s₂) {cmd : Cmd}
    {K L : Nat} (hgives : Gives c K L cmd) (hK : K < c.pageMappingEntryNb)
    (hL : L < c.pageMappingEntryNb) (hne : K ≠ L)
    (hrun₁ : exec c fuel₁ cmd s₁ = ⟨.ok (), s₁', l₁⟩)
    (hrun₂ : exec c fuel₂ cmd s₂ = ⟨.ok (), s₂', l₂⟩)
    (hlog₁ : ∀ e ∈ tr₁ ++ l₁, NoWrap e)
    (hlog₂ : ∀ e ∈ tr₂ ++ l₂, NoWrap e) :
    SameMapped c s₁' s₂'
      ↔ (Grants c K s₁ ↔ Grants c K s₂) ∨ Indifferent K L s₁ cmd := by
  have hsrc := hagree.mapping K hK
  -- a hinted write and a remap of one page: in both the two runs differ only
  -- in whether the remap is granted
  cases hgives with
  | @write req slot hle hslot hlpn hflag hhint =>
      subst hlpn
      have htoNat : (req.lpnsInfo 0).hLpn.toNat = K := by omega
      obtain ⟨_, hwrite₁⟩ := Prog.bind_pure_ok hrun₁
      obtain ⟨_, hwrite₂⟩ := Prog.bind_pure_ok hrun₂
      rw [← htoNat] at hne
      have hleaves₁ := g.write_leaves h₁ hle hslot hflag hne hwrite₁ hlog₁
      have hleaves₂ := g.write_leaves h₂ hle hslot hflag hne hwrite₂ hlog₂
      rw [htoNat, grantsHint_iff hhint hflag, ← and_assoc]
        at hleaves₁ hleaves₂
      rw [hleaves₁.sameMapped_iff hleaves₂ hagree.mapping hK hL
        (htoNat ▸ hne), ← hsrc, iff_self, true_or, and_true, and_iff_and_iff]
      have hcp : (req.lpnsInfo 0).flag = cpWrite
          ↔ ¬ (req.lpnsInfo 0).flag = fsGcWrite := by
        refine ⟨fun hcp => ?_, hflag.resolve_right⟩
        rw [hcp]
        decide
      simp only [Indifferent, hcp, not_and_or, not_not, ne_eq, or_assoc,
        or_self]
  | @remap ope o ho =>
      obtain ⟨_, hremap₁⟩ := Prog.bind_pure_ok hrun₁
      obtain ⟨_, hremap₂⟩ := Prog.bind_pure_ok hrun₂
      have hleaves₁ := g.remap_leaves h₁ ho hL hne hremap₁ hlog₁
      have hleaves₂ := g.remap_leaves h₂ ho hL hne hremap₂ hlog₂
      rw [hleaves₁.sameMapped_iff hleaves₂ hagree.mapping hK hL hne, ← hsrc,
        iff_self, true_or, true_and, and_iff_and_iff, or_assoc]
      rfl

-- ==================================================== a scarce NVRAM

/-- One page, copied up along itself: the first 21 lpns share it, and one
entry is left. -/
def roomyRun : List Cmd := [writeOf 0 7, .remap 0 1 20 3]

/-- Another lpn shares the page and is discarded: no entry is left, and
one in 21 that is not valid is too few to clean up. -/
def usedRun : List Cmd := roomyRun ++ [.remap 0 21 1 3, .discard 1 21]

/-- How the one run ends, -/
def roomyOut : Out Ssd Event Fault Unit :=
  runCmds scarceConf 40 roomyRun (ftlInit scarceConf)

/-- and how the other does. -/
def usedOut : Out Ssd Event Fault Unit :=
  runCmds scarceConf 40 usedRun (ftlInit scarceConf)

theorem usedRun_inRange : ∀ cmd ∈ usedRun, InRange scarceConf cmd := by
  intro cmd hc
  simp only [usedRun, roomyRun, List.cons_append, List.nil_append,
    List.mem_cons, List.not_mem_nil, or_false] at hc
  rcases hc with rfl | rfl | rfl | rfl
  · exact inRange_writeOf _ _
  · exact ⟨by decide, by decide⟩
  · exact ⟨by decide, by decide⟩
  · exact trivial

theorem usedOut_reach : Reach scarceConf usedOut.st usedOut.log :=
  (Ran.start 40 usedRun usedRun_inRange (by decide +kernel)).reach

theorem roomyOut_reach : Reach scarceConf roomyOut.st roomyOut.log :=
  (Ran.start 40 roomyRun
    (fun cmd hc => usedRun_inRange cmd (List.mem_append_left _ hc))
    (by decide +kernel)).reach

theorem scarce_agree : AgreeButNvram scarceConf roomyOut.st usedOut.st := by
  constructor <;> decide +kernel

/-- A page of the first lpns is shared after `roomyRun` and copied after
`usedRun`. -/
theorem scarce_grants : Grants scarceConf 1 roomyOut.st
    ∧ ¬ Grants scarceConf 1 usedOut.st := by
  unfold Grants
  decide +kernel

/-- A move of a mapped lpn, shared in one run and copied in the other. -/
theorem occupancy_hidden_scarce :
    (Grants scarceConf 1 roomyOut.st ∧ ¬ Grants scarceConf 1 usedOut.st)
      ∧ SameMapped scarceConf
        (exec scarceConf 40 (.remap 1 31 1 4) roomyOut.st).st
        (exec scarceConf 40 (.remap 1 31 1 4) usedOut.st).st := by
  have hok₁ : (exec scarceConf 40 (.remap 1 31 1 4) roomyOut.st).res = .ok ()
      ∧ ∀ e ∈ roomyOut.log
        ++ (exec scarceConf 40 (.remap 1 31 1 4) roomyOut.st).log,
          NoWrap e := by
    decide +kernel
  have hok₂ : (exec scarceConf 40 (.remap 1 31 1 4) usedOut.st).res = .ok ()
      ∧ ∀ e ∈ usedOut.log
        ++ (exec scarceConf 40 (.remap 1 31 1 4) usedOut.st).log,
          NoWrap e := by
    decide +kernel
  have hmapped : roomyOut.st.mappingTable 1 ≠ none := by decide +kernel
  refine ⟨scarce_grants, ?_⟩
  exact (occupancy_hidden_iff scarceConf_geo roomyOut_reach.visited
    usedOut_reach.visited scarce_agree (.remap rfl) (by decide) (by decide)
    (by decide) (Out.eq_of_res hok₁.1) (Out.eq_of_res hok₂.1) hok₁.2
    hok₂.2).2 (.inr (.inl hmapped))

/-- From two states that agree but for the NVRAM: an `FS_GC_WRITE` unmaps
its source in one run only, and a copy of an lpn that is not mapped maps
its destination in the other run only. -/
theorem occupancy_seen_scarce :
    Reach scarceConf roomyOut.st roomyOut.log
      ∧ Reach scarceConf usedOut.st usedOut.log
      ∧ AgreeButNvram scarceConf roomyOut.st usedOut.st
      ∧ ((exec scarceConf 40 (fsGcOf 25 1) roomyOut.st).res = .ok ()
        ∧ (exec scarceConf 40 (fsGcOf 25 1) usedOut.st).res = .ok ()
        ∧ (exec scarceConf 40 (fsGcOf 25 1) roomyOut.st).st.mappingTable 1
          = none
        ∧ (exec scarceConf 40 (fsGcOf 25 1) usedOut.st).st.mappingTable 1
          ≠ none)
      ∧ ((exec scarceConf 40 (.remap 30 31 1 3) roomyOut.st).res = .ok ()
        ∧ (exec scarceConf 40 (.remap 30 31 1 3) usedOut.st).res = .ok ()
        ∧ (exec scarceConf 40 (.remap 30 31 1 3) roomyOut.st).st.mappingTable
          31 = none
        ∧ (exec scarceConf 40 (.remap 30 31 1 3) usedOut.st).st.mappingTable
          31 ≠ none) := by
  refine ⟨roomyOut_reach, usedOut_reach, scarce_agree, ?_, ?_⟩
  all_goals decide +kernel

end FemuRemap
