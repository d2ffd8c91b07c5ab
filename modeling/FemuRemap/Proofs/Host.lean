/-
Host commands: each one keeps the invariant and does to the map of
contents what `Logical` allows.

# Space

`GC_CHECK` runs once per request, after its pages, and not at all when
the last page it programmed has number zero. `Reserve` is what holds
between requests all the same: the room meets the threshold, or it lacks
the pages of one request and page zero is in use, so that the next
request is not the one that programs it.
-/
import FemuRemap.Proofs.Check

namespace FemuRemap

open Lib

variable {c : Conf} {p p' : Pool} {s s' : Ssd} {A B : Prop} {fuel : Nat}

-- ================================================================ slots

/-- The slots of a range within the device are its lpns, by induction on the
fuel of the cut. -/
theorem cutPages_lpn_lt {spp n : Nat} (hspp : 0 < spp) (fuel lba remain
    skip : Nat) (h : lba + remain ≤ spp * n) :
    ∀ slot ∈ cutPages spp fuel lba remain skip, slot.lpn < n := by
  induction fuel generalizing lba remain skip with
  | zero => simp [cutPages]
  | succ fuel ih =>
      unfold cutPages
      split
      · simp
      · next hr =>
          intro slot hs
          rcases List.mem_cons.1 hs with rfl | hs
          · exact (Nat.div_lt_iff_lt_mul hspp).2
              (by rw [Nat.mul_comm]; omega)
          · refine ih _ _ _ ?_ slot hs
            split <;> omega

theorem Geo.slots_lpn_lt (g : Geo c) {sectorNb length : Nat}
    (h : sectorNb + length ≤ c.sectorNb) :
    ∀ slot ∈ slots c sectorNb length, slot.lpn < c.pageMappingEntryNb :=
  cutPages_lpn_lt g.sectors _ _ _ _ h

/-- The sectors of a page of the table. -/
theorem page_sectors_le {L : Nat} (hL : L < c.pageMappingEntryNb) :
    L * c.sectorsPerPage + c.sectorsPerPage ≤ c.sectorNb := by
  rw [← Nat.succ_mul, Conf.sectorNb, Nat.mul_comm]
  exact Nat.mul_le_mul_left _ hL

/-- The slot of one whole page. -/
theorem cutPages_page {spp : Nat} (hspp : 0 < spp) {fuel : Nat}
    (hf : 0 < fuel) (L : Nat) :
    cutPages spp fuel (L * spp) spp 0 = [⟨L, 0, 0, spp⟩] := by
  have hnil : ∀ fuel lba skip, cutPages spp fuel lba 0 skip = [] := by
    intro fuel lba skip
    cases fuel <;> simp [cutPages]
  cases fuel with
  | zero => omega
  | succ fuel =>
      simp only [cutPages, Nat.sub_zero, Nat.lt_irrefl, if_false,
        Nat.sub_self, hnil, Nat.mul_div_cancel _ hspp,
        if_neg (Nat.pos_iff_ne_zero.1 hspp)]

theorem Geo.slots_page (g : Geo c) (L : Nat) :
    slots c (L * c.sectorsPerPage) c.sectorsPerPage
      = [⟨L, 0, 0, c.sectorsPerPage⟩] := by
  unfold slots
  rw [Nat.mul_mod_left, cutPages_page g.sectors g.sectors]

-- ============================================================== the view

/-- The view follows the mapping where no content changes. -/
theorem view_of_mapping {m : Nat → Option Nat}
    (hm : s'.mappingTable.get = m) (hc : s'.content = s.content) :
    view s' = fun L => (m L).map s.content.get := by
  funext L
  simp only [view, hc, hm]

/-- An update can be moved through a map. -/
theorem map_update (m : Nat → Option Nat) (f : Nat → Option Nat)
    (L : Nat) (x : Option Nat) :
    (fun K => (Function.update m L x K).map f)
      = Function.update (fun K => (m K).map f) L (x.map f) := by
  funext K
  exact Function.apply_update (fun _ y => Option.map f y) m L x K

/-- The source a remap drops. -/
def sourceOf (ope : RemapOpe) (K : Nat) : Option Nat :=
  if ope = .move then some K else none

/-- A remap gives the lpn the source's data; a move also takes it from the
source. -/
theorem view_transfer {K L q : Nat} (ope : RemapOpe)
    (hm : s'.mappingTable.get = dropSource
      (Function.update s.mappingTable.get L (some q)) (sourceOf ope K))
    (hc : s'.content = s.content) :
    view s' = (view s).transfer ope K L (s.content q) := by
  rw [view_of_mapping hm hc]
  unfold LogicalMap.transfer sourceOf
  by_cases ho : ope = .move
  · rw [if_pos ho, if_pos ho, dropSource, map_update, map_update]
    rfl
  · rw [if_neg ho, if_neg ho, dropSource, map_update]
    rfl

theorem view_unmap {L : Nat} (hm : s'.mappingTable.get
      = Function.update s.mappingTable.get L none)
    (hc : s'.content = s.content) :
    view s' = Function.update (view s) L none := by
  rw [view_of_mapping hm hc, map_update]
  rfl

/-- Writing a fresh page shows at its lpn only. -/
theorem Written.view_eq {L q : Nat} {d : Option Nat}
    (h : Written c p' s L q d s') (hfresh : ∀ K, s.mappingTable K ≠ some q) :
    view s' = Function.update (view s) L (some d) := by
  funext K
  rcases eq_or_ne K L with rfl | hne
  · have hK : s'.mappingTable K = some q := by
      rw [h.mapping, Function.update_self]
    rw [view_some hK, h.content, Function.update_self, Table.get_set,
      if_pos rfl]
  · rw [Function.update_of_ne hne]
    simp only [view, h.mapping, Function.update_of_ne hne, h.content]
    refine Option.map_congr fun x hx => ?_
    exact Table.get_set_ne _ _ fun he => hfresh K (he ▸ hx)

/-- The data a request carries, seen from the view. -/
theorem pageData_eq (s : Ssd) (info : LpnInfo) :
    pageData s info = (view s).carries info := by
  unfold pageData LogicalMap.carries view
  split
  · cases s.mappingTable info.hLpn.toNat <;> rfl
  · rfl

-- ============================================================ remapping

/-- `USE_REMAP` changes the NVRAM only. -/
theorem Held.useRemap_step (h : Held c B p s) (b : Nat) :
    Step c (useRemap c b) s fun r s' => Held c B p s'
      ∧ (∃ n, s' = { s with nvram := n })
      ∧ (r = .success → Granted c b s') := by
  refine Sat.mono (h.sound.useRemap_step b) ?_ fun _ _ h => h
  rintro r s' ⟨hc, hg⟩
  refine ⟨⟨hc.sound, fun hB => ?_⟩, hc.only, hg⟩
  obtain ⟨hle, hT⟩ := h.budget hB
  exact ⟨Int.le_trans hc.segs hle, hT⟩

/-- A granted remap transfers the content of its source. -/
theorem Geo.remapLpn_held (g : Geo c) (h : Held c B p s) {K L q : Nat}
    (hK : s.mappingTable K = some q) (hL : L < c.pageMappingEntryNb)
    (hg : Granted c (blockOf c q) s) (charge host : Bool)
    (ope : RemapOpe) :
    Step c (remapLpn c charge host (sourceOf ope K) (some q) L) s
      fun _ s' => Held c B p s'
        ∧ view s' = (view s).transfer ope K L (s.content q) := by
  refine Sat.mono (g.remapLpn_step h.sound hK hL charge host _) ?_
    fun _ _ h => h
  rintro _ s' ⟨hr, hseg⟩
  exact ⟨⟨hr.sound, fun hB => h.sound.granted_budget (h.budget hB) hg hseg⟩,
    view_transfer ope hr.mapping hr.content⟩

/-- Unmapping keeps the invariant and clears one entry of the view. -/
theorem Geo.unmapLpn_held (g : Geo c) (h : Held c B p s) (L : Nat) :
    Step c (unmapLpn c L) s fun _ s' => Held c B p s'
      ∧ view s' = Function.update (view s) L none := by
  refine Sat.mono (g.unmapLpn_step h.sound L) ?_ fun _ _ h => h
  rintro _ s' ⟨hr, hseg⟩
  refine ⟨⟨hr.sound, fun hB => ?_⟩, view_unmap hr.mapping hr.content⟩
  unfold Budget
  rw [hseg]
  exact h.budget hB

-- ============================================================== writing

/-- The conditions of the remapping branches. -/
theorem Geo.askRemap_held (g : Geo c) (h : Held c B p s) (info : LpnInfo)
    (hPpn : Option Nat) :
    Step c (askRemap c info hPpn) s fun r s' => Held c B p s'
      ∧ (∃ n, s' = { s with nvram := n })
      ∧ (r = .success → (info.flag = cpWrite ∨ info.flag = dedupWrite
          ∨ info.flag = fsGcWrite)
        ∧ ∃ q, hPpn = some q ∧ Granted c (blockOf c q) s') := by
  unfold askRemap
  split
  · next hflag =>
      cases hPpn with
      | none => exact Sat.pure ⟨h, ⟨_, rfl⟩, by simp⟩
      | some q =>
          dsimp only
          rw [g.sized.calcBlock_eq]
          refine Sat.mono (h.useRemap_step _) ?_ fun _ _ h => h
          rintro r s' ⟨h', ho, hg⟩
          exact ⟨h', ho, fun hr => ⟨hflag, q, rfl, hg hr⟩⟩
  · exact Sat.pure ⟨h, ⟨_, rfl⟩, by simp⟩

/-- The bodies of the remapping branches. -/
theorem Geo.remapHinted_held (g : Geo c) (h : Held c B p s)
    {info : LpnInfo} {L q : Nat} (hflag : info.flag = cpWrite
      ∨ info.flag = dedupWrite ∨ info.flag = fsGcWrite)
    (hq : hintedPpn s info = some q) (hL : L < c.pageMappingEntryNb)
    (hg : Granted c (blockOf c q) s) :
    Step c (remapHinted c info (some q) L) s fun _ s' => Held c B p s'
      ∧ PageWrite info L (view s) (view s') := by
  unfold hintedPpn at hq
  split at hq
  case isFalse => cases hq
  case isTrue hpos =>
    have hv := view_some hq
    -- a copy, a duplicate and a move, by the flag
    unfold remapHinted
    split
    · next hcp =>
        refine Sat.mono (g.remapLpn_held h hq hL hg true false .copy) ?_
          fun _ _ h => h
        rintro _ s' ⟨h', hv'⟩
        have hstore : view s' = Function.update (view s) L
            (some ((view s).carries info)) := by
          rw [hv', LogicalMap.transfer, if_neg (by decide),
            LogicalMap.carries, if_pos ⟨hcp, Int.le_of_lt hpos⟩, hv]
          rfl
        exact ⟨h', hstore ▸ .store⟩
    · split
      · next hd =>
          refine Sat.mono (g.remapLpn_held h hq hL hg true true .copy) ?_
            fun _ _ h => h
          rintro _ s' ⟨h', hv'⟩
          exact ⟨h', hv' ▸ .dedup hd hpos hv⟩
      · next hcp hd =>
          have hf : info.flag = fsGcWrite :=
            (hflag.resolve_left hcp).resolve_left hd
          refine Sat.mono (g.remapLpn_held h hq hL hg true false .move) ?_
            fun _ _ h => h
          rintro _ s' ⟨h', hv'⟩
          exact ⟨h', hv' ▸ .fsGc hf hpos hv⟩

/-- From pool `p` to `p'` at most `n` pages were handed out; the last one
is `q'`, and `q` if there was none. -/
structure Spent (c : Conf) (p : Pool) (n : Nat) (q : Option Nat)
    (p' : Pool) (q' : Option Nat) : Prop where
  room : p.room c.sbPages ≤ p'.room c.sbPages + n
  used : ∀ x, x < c.pageMappingEntryNb → Used c p [] x → Used c p' [] x
  last : (q' = q ∧ p' = p) ∨ ∃ x, q' = some x ∧ x < c.pageMappingEntryNb
    ∧ ¬ Used c p [] x ∧ Used c p' [] x

theorem Spent.refl (p : Pool) (n : Nat) (q : Option Nat) :
    Spent c p n q p q :=
  ⟨Nat.le_add_right _ _, fun _ _ => id, .inl ⟨rfl, rfl⟩⟩

theorem Fresh.spent {x : Nat} (h : Fresh c p [] noPage x p')
    (q : Option Nat) : Spent c p 1 q p' (some x) :=
  ⟨Nat.le_of_eq h.room, fun y hy hu => (h.used y hy).2 (.inl hu),
    .inr ⟨x, rfl, h.lt, h.unused, (h.used x h.lt).2 (.inr rfl)⟩⟩

theorem Spent.trans {p₁ p₂ p₃ : Pool} {m n : Nat} {q₁ q₂ q₃ : Option Nat}
    (h : Spent c p₁ m q₁ p₂ q₂) (h' : Spent c p₂ n q₂ p₃ q₃) :
    Spent c p₁ (m + n) q₁ p₃ q₃ := by
  refine ⟨?_, fun x hx hu => h'.used x hx (h.used x hx hu), ?_⟩
  · have h₁ := h.room
    have h₂ := h'.room
    omega
  · rcases h'.last with ⟨rfl, rfl⟩ | ⟨x, rfl, hx, hn, hu⟩
    · exact h.last
    · exact .inr ⟨x, rfl, hx, fun hu' => hn (h.used x hx hu'), hu⟩

/-- One page of `_FTL_WRITE`. -/
theorem Geo.writePage_serves (g : Geo c) (h : Held c B p s)
    (hA : A ∨ 0 < p.room c.sbPages) (info : LpnInfo) {slot : Slot}
    (hL : slot.lpn < c.pageMappingEntryNb) (q : Option Nat) (fuel : Nat) :
    Serves c B fuel A (writePage c fuel info slot q) s fun r s' =>
      ∃ q' p', r = some q' ∧ Held c B p' s'
        ∧ PageWrite info slot.lpn (view s) (view s')
        ∧ Spent c p 1 q p' q' := by
  refine Sat.get_bind (Sat.bind (Step.serves
    (g.askRemap_held h info (hintedPpn s info))) ?_)
  rintro r _ ⟨h₁, ⟨n, rfl⟩, hr⟩
  cases r with
  | success =>
      obtain ⟨hflag, x, hx, hg⟩ := hr rfl
      rw [hx]
      refine Sat.bind (Step.serves (g.remapHinted_held h₁ hflag hx hL hg)) ?_
      rintro _ s₂ ⟨h₂, hw⟩
      exact Sat.pure ⟨q, p, rfl, h₂, hw, .refl p 1 q⟩
  | fail =>
      refine Sat.bind (Runs.serves (g.programPage_runs h₁.sound fuel
        (fun h0 => hA.resolve_right (by omega)) info hL)) ?_
      rintro _ s₂ ⟨x, p₂, rfl, hf, hw⟩
      have hv := hw.view_eq (h₁.sound.unmapped hf.unused id)
      rw [pageData_eq] at hv
      refine Sat.pure ⟨some x, p₂, rfl, ⟨hw.sound, fun hB => ?_⟩,
        hv ▸ .store, hf.spent q⟩
      unfold Budget
      rw [hw.segs]
      exact h₁.budget hB

/-- The loop of `_FTL_WRITE`. -/
theorem Geo.writePages_serves (g : Geo c) (fuel : Nat)
    (info : Nat → LpnInfo) (l : List Slot) (i : Nat) (q : Option Nat)
    (h : Held c B p s) (hA : A ∨ l.length ≤ p.room c.sbPages)
    (hl : ∀ slot ∈ l, slot.lpn < c.pageMappingEntryNb) :
    Serves c B fuel A (writePages c fuel info l i q) s fun r s' =>
      ∃ q' p', r = some q' ∧ Held c B p' s'
        ∧ PageWrites info (l.map Slot.lpn) i (view s) (view s')
        ∧ Spent c p l.length q p' q' := by
  induction l generalizing s p i q with
  | nil => exact Sat.pure ⟨q, p, rfl, h, .nil, .refl p 0 q⟩
  | cons slot l ih =>
      rw [List.length_cons] at hA ⊢
      refine Sat.bind (g.writePage_serves h
        (hA.imp_right fun h => Nat.lt_of_lt_of_le (Nat.succ_pos _) h)
        (info i) (hl slot (by simp)) q fuel) ?_
      rintro _ s₁ ⟨q₁, p₁, rfl, h₁, hw₁, hs₁⟩
      have hroom := hs₁.room
      refine Sat.mono (ih (i + 1) q₁ h₁ (hA.imp_right fun _ => by omega)
        fun slot' hs => hl slot' (by simp [hs])) ?_ fun _ _ h => h
      rintro _ s₂ ⟨q₂, p₂, rfl, h₂, hw₂, hs₂⟩
      exact ⟨q₂, p₂, rfl, h₂, .cons hw₁ hw₂,
        Nat.add_comm 1 l.length ▸ hs₁.trans hs₂⟩

-- ============================================================== reserve

/-- What space there is between requests: `M` bounds the lpns and `R` the
pages of a request. -/
structure Reserve (c : Conf) (M R : Nat) (p : Pool) (s : Ssd) : Prop where
  one : 0 < R
  threshold : c.sbPages + 2 * R ≤ c.gcThresholdBlockNb * c.pageNb
  lpns : M + c.gcThresholdBlockNb * c.pageNb + c.sbPages
    ≤ c.pageMappingEntryNb
  below : Below M s
  room : c.gcThresholdBlockNb * c.pageNb ≤ p.room c.sbPages
    ∨ (c.gcThresholdBlockNb * c.pageNb ≤ p.room c.sbPages + R
      ∧ Used c p [] 0)

variable {M R : Nat}

/-- The reserve is a superblock and the pages of a request. -/
theorem Reserve.room_ge (h : Reserve c M R p s) :
    c.sbPages + R ≤ p.room c.sbPages := by
  have h₁ := h.threshold
  rcases h.room with h₂ | ⟨h₂, -⟩ <;> omega

/-- The room changed to one that is enough. -/
theorem Reserve.of_room (h : Reserve c M R p s) (hb : Below M s')
    (hr : c.gcThresholdBlockNb * c.pageNb ≤ p'.room c.sbPages) :
    Reserve c M R p' s' :=
  ⟨h.one, h.threshold, h.lpns, hb, .inl hr⟩

/-- It does not depend on what is mapped where. -/
theorem Reserve.same (h : Reserve c M R p s) (hb : Below M s') :
    Reserve c M R p s' :=
  ⟨h.one, h.threshold, h.lpns, hb, h.room⟩

/-- A request that programs page zero last found it free, so the
threshold was met before. -/
theorem Reserve.zero {n : Nat} {q : Option Nat} (h : Reserve c M R p s)
    (hs : Spent c p n q p' (some 0)) (hq : q ≠ some 0) (hn : n ≤ R)
    (hb : Below M s') : Reserve c M R p' s' := by
  rcases hs.last with ⟨he, -⟩ | ⟨x, hx, -, hfree, hused⟩
  · exact absurd he.symm hq
  · cases hx
    have hroom := hs.room
    rcases h.room with h₁ | ⟨-, h₁⟩
    · exact ⟨h.one, h.threshold, h.lpns, hb, .inr ⟨by omega, hused⟩⟩
    · exact absurd h₁ hfree

/-- The collector after a request of `n` pages. -/
theorem Geo.gcCheckAfter_serves (g : Geo c) {s₀ : Ssd} {n : Nat}
    {q : Option Nat} (h : Held c B p' s) (hs : Spent c p n none p' q)
    (hA : A ∨ (Reserve c M R p s₀ ∧ Below M s ∧ n ≤ R)) (fuel : Nat) :
    Serves c B fuel A (gcCheckAfter c fuel q) s fun _ s' =>
      ∃ p'', Held c B p'' s' ∧ view s' = view s
        ∧ (A ∨ Reserve c M R p'' s') := by
  cases q with
  | none =>
      refine Sat.pure ⟨p', h, rfl, hA.imp_right fun ⟨hr, hb, _⟩ => ?_⟩
      rcases hs.last with ⟨-, rfl⟩ | ⟨x, hx, -⟩
      · exact hr.same hb
      · cases hx
  | some x =>
      rw [gcCheckAfter]
      split
      · have hsp : A ∨ Spacious c M p' s := by
          refine hA.imp_right fun ⟨hr, hb, hn⟩ => ⟨hr.lpns, hb, ?_⟩
          have h₁ := hr.room_ge
          have h₂ := hs.room
          omega
        refine Sat.mono (g.gcCheck_serves fuel h hsp) ?_ fun _ _ h => h
        rintro _ s' ⟨p'', h', hv, hroom⟩
        refine ⟨p'', h', hv, ?_⟩
        rcases hA with hA | ⟨hr, hb, -⟩
        · exact .inl hA
        · refine hroom.imp_right fun hroom => hr.of_room ?_ hroom
          unfold Below
          rw [hv]
          exact hb
      · next hx =>
          -- page zero as the last page skips the check; it is the first of
          -- its superblock, so the rest of that is still free
          obtain rfl : x = 0 := by omega
          exact Sat.pure ⟨p', h, rfl, hA.imp_right fun ⟨hr, hb, hn⟩ =>
            hr.zero hs (by simp) hn hb⟩

-- ============================================================= commands

/-- What is not exposed stays unmapped, by one write, -/
theorem PageWrite.none_above {info : LpnInfo} {L : Nat} {v v' : LogicalMap}
    (h : PageWrite info L v v') (hL : L < M)
    (hv : ∀ K, M ≤ K → v K = none) (K : Nat) (hK : M ≤ K) :
    v' K = none := by
  have hne : K ≠ L := by omega
  cases h with
  | store => rw [Function.update_of_ne hne, hv K hK]
  | dedup _ _ _ => exact LogicalMap.transfer_eq_none.2 (.inr ⟨hne, hv K hK⟩)
  | fsGc _ _ _ => exact LogicalMap.transfer_eq_none.2 (.inr ⟨hne, hv K hK⟩)

/-- and by a whole request. -/
theorem PageWrites.none_above {info : Nat → LpnInfo} {Ls : List Nat} {i : Nat}
    {v v' : LogicalMap} (h : PageWrites info Ls i v v')
    (hLs : ∀ L ∈ Ls, L < M) (hv : ∀ K, M ≤ K → v K = none) :
    ∀ K, M ≤ K → v' K = none := by
  induction h with
  | nil => exact hv
  | cons hw _ ih =>
      exact ih (fun L hL => hLs L (by simp [hL]))
        (hw.none_above (hLs _ (by simp)) hv)

/-- A request within the lpns and pages of a `Reserve`. -/
def Modest (c : Conf) (M R sectorNb length : Nat) : Prop :=
  (slots c sectorNb length).length ≤ R
    ∧ ∀ L ∈ lpnsOf c sectorNb length, L < M

/-- `_FTL_WRITE`. -/
theorem Geo.ftlWrite_serves (g : Geo c) (h : Held c B p s)
    (req : RequestMeta) (hA : A ∨ (Reserve c M R p s
      ∧ Modest c M R req.sectorNb req.length)) (fuel : Nat) :
    Serves c B fuel A (ftlWrite c fuel req) s fun _ s' =>
      ∃ p', Held c B p' s' ∧ Logical c (.write req) (view s) (view s')
        ∧ (A ∨ Reserve c M R p' s') := by
  unfold ftlWrite
  split
  · next hlt =>
      exact Sat.emit_bind fun _ => ⟨.inl (by decide), Sat.pure ⟨p, h,
        .writeBeyond hlt, hA.imp_right And.left⟩⟩
  · next hle =>
      have hle := Nat.le_of_not_lt hle
      have hroom : A ∨ (slots c req.sectorNb req.length).length
          ≤ p.room c.sbPages := by
        refine hA.imp_right fun ⟨hr, hm, _⟩ => ?_
        have := hr.room_ge
        omega
      refine Sat.bind (g.writePages_serves fuel req.lpnsInfo _ 0 none h
        hroom (g.slots_lpn_lt hle)) ?_
      rintro _ s₁ ⟨q, p₁, rfl, h₁, hw, hs⟩
      refine Sat.bind (g.gcCheckAfter_serves h₁ hs
        (hA.imp_right fun ⟨hr, hm, hL⟩ =>
          ⟨hr, hw.none_above hL hr.below, hm⟩) fuel) ?_
      rintro _ s₂ ⟨p₂, h₂, hv, hr⟩
      exact Sat.pure ⟨p₂, h₂, hv ▸ .write hle hw, hr⟩

/-- One page of a discard, whole or in part. -/
theorem Geo.discardPage_held (g : Geo c) (h : Held c B p s)
    (slot : Slot) :
    Step c (discardPage c slot) s fun _ s' => Held c B p s'
      ∧ view s' = Function.update (view s) slot.lpn none := by
  refine Sat.bind (R := fun _ s' => s' = s) ?_ ?_
  · unfold printErrorIf
    split
    · exact Sat.emit fun _ => ⟨good_error (by decide), rfl⟩
    · exact Sat.pure rfl
  · rintro _ _ rfl
    exact g.unmapLpn_held h slot.lpn

theorem Below.of_view (h : Below M s)
    (hv : ∀ L, view s L = none → view s' L = none) : Below M s' :=
  fun L hL => hv L (h L hL)

/-- `femu_discard_process`. -/
theorem Geo.discard_serves (g : Geo c) (h : Held c B p s)
    (hA : A ∨ Reserve c M R p s) (length sectorNb fuel : Nat) :
    Serves c B fuel A (femuDiscardProcess c length sectorNb) s fun _ s' =>
      ∃ p', Held c B p' s'
        ∧ Logical c (.discard length sectorNb) (view s) (view s')
        ∧ (A ∨ Reserve c M R p' s') := by
  unfold femuDiscardProcess
  split
  · next hlt =>
      exact Sat.emit_bind fun _ => ⟨.inl (by decide),
        Sat.pure ⟨p, h, .discardBeyond hlt, hA⟩⟩
  · next hle =>
      have hle := Nat.le_of_not_lt hle
      refine Sat.bind (Step.serves (Sat.each (fun done s' => Held c B p s'
        ∧ view s' = (view s).discard (done.map Slot.lpn)) ?_ ⟨h, ?_⟩)) ?_
      · rintro done slot rest s₁ - ⟨h₁, hv₁⟩
        refine Sat.mono (g.discardPage_held h₁ slot) ?_ fun _ _ h => h
        rintro _ s₂ ⟨h₂, hv₂⟩
        refine ⟨h₂, ?_⟩
        rw [hv₂, hv₁]
        funext L
        by_cases hL : L = slot.lpn
        · simp [LogicalMap.discard, hL]
        · simp [LogicalMap.discard, hL, Function.update_of_ne]
      · funext L
        simp [LogicalMap.discard]
      · rintro _ s₁ ⟨h₁, hv₁⟩
        refine Sat.pure ⟨p, h₁, hv₁ ▸ .discard hle,
          hA.imp_right fun hr => hr.same (hr.below.of_view ?_)⟩
        intro L hL
        rw [hv₁, LogicalMap.discard, hL, ite_self]

-- ============================================================ SSD_REMAP

/-- The source of a move, unmapped after the fallback. -/
theorem Geo.unmapSource_held (g : Geo c) (h : Held c B p s)
    (ope : RemapOpe) (K : Nat) :
    Step c (unmapSource c (sourceOf ope K)) s fun _ s' => Held c B p s'
      ∧ view s' = if ope = .move then Function.update (view s) K none
        else view s := by
  unfold sourceOf
  split
  · exact g.unmapLpn_held h K
  · exact Sat.pure ⟨h, rfl⟩

theorem Geo.lpnsOf_page (g : Geo c) (L : Nat) :
    lpnsOf c (L * c.sectorsPerPage) c.sectorsPerPage = [L] := by
  rw [lpnsOf, g.slots_page]
  rfl

/-- The request of the fallback writes its one page. -/
theorem Geo.logical_fallback (g : Geo c) {o : Option Nat} {L : Nat}
    {v v' : LogicalMap} (hL : L < c.pageMappingEntryNb)
    (h : Logical c (.write (fallbackRequest c s o L)) v v') :
    v' = Function.update v L (some (o.bind s.content.get)) := by
  cases h with
  | write _ hw =>
      have hw : PageWrites _ (lpnsOf c (L * c.sectorsPerPage)
        c.sectorsPerPage) 0 v v' := hw
      rw [g.lpnsOf_page] at hw
      cases hw with
      | cons hpage hnil =>
          cases hnil
          cases hpage with
          | store => rfl
          | dedup hf _ _ => cases hf
          | fsGc hf _ _ => cases hf
  | writeBeyond hlt => exact absurd (page_sectors_le hL) (Nat.not_le.2 hlt)

/-- The rewriting fallback gives the destination what the source holds,
and what nobody wrote if the source is not mapped. -/
theorem Geo.fallback_serves (g : Geo c) (h : Held c B p s)
    {K L : Nat} (hL : L < c.pageMappingEntryNb)
    (hA : A ∨ (Reserve c M R p s ∧ L < M)) (fuel : Nat) :
    Serves c B fuel A (ftlWrite c fuel
        (fallbackRequest c s (s.mappingTable K) L)) s fun _ s' =>
      ∃ p', Held c B p' s' ∧ view s' = Function.update (view s) L
          (some ((s.mappingTable K).bind s.content.get))
        ∧ (A ∨ Reserve c M R p' s') := by
  have hA' : A ∨ (Reserve c M R p s
      ∧ Modest c M R (L * c.sectorsPerPage) c.sectorsPerPage) := by
    refine hA.imp_right fun ⟨hr, hLM⟩ => ⟨hr, ?_, ?_⟩
    · rw [g.slots_page]
      exact hr.one
    · rw [g.lpnsOf_page]
      simpa using hLM
  refine Sat.mono (g.ftlWrite_serves h
    (fallbackRequest c s (s.mappingTable K) L) hA' fuel) ?_ fun _ _ h => h
  rintro _ s' ⟨p', h', hlog, hr⟩
  exact ⟨p', h', g.logical_fallback hL hlog, hr⟩

/-- One page of `SSD_REMAP`. -/
theorem Geo.remapPage_serves (g : Geo c) (h : Held c B p s)
    (ope : RemapOpe) {K L : Nat} (hL : L < c.pageMappingEntryNb)
    (hA : A ∨ (Reserve c M R p s ∧ L < M)) (fuel : Nat) :
    Serves c B fuel A (remapPage c fuel ope K L) s fun _ s' =>
      ∃ p', Held c B p' s' ∧ PageRemap ope K L (view s) (view s')
        ∧ (A ∨ Reserve c M R p' s') := by
  refine Sat.get_bind (Sat.bind (Step.serves (h.useRemap_step _)) ?_)
  rintro r _ ⟨h₁, ⟨n, rfl⟩, hg⟩
  have hA₁ : A ∨ (Reserve c M R p { s with nvram := n } ∧ L < M) :=
    hA.imp_right fun ⟨hr, hLM⟩ => ⟨hr.same hr.below, hLM⟩
  cases r with
  | success =>
      -- granted, but the source is not mapped: the page is skipped
      cases hK : s.mappingTable K with
      | none =>
          refine Sat.bind (R := fun r s' => r = .fail
            ∧ s' = { s with nvram := n }) ?_ ?_
          · exact Sat.emit_bind fun _ => ⟨.inl (by decide),
              Sat.pure ⟨rfl, rfl⟩⟩
          · rintro _ _ ⟨rfl, rfl⟩
            exact Sat.pure ⟨p, h₁, .skipped (view_eq_none.2 hK),
              hA₁.imp_right And.left⟩
      | some q =>
          have hg := hg rfl
          rw [hK, ppnValue, g.sized.calcBlock_eq] at hg
          refine Sat.mono (Step.serves (g.remapLpn_held h₁ (K := K) hK hL hg
            false false ope)) ?_ fun _ _ h => h
          rintro _ s₂ ⟨h₂, hv₂⟩
          refine ⟨p, h₂, hv₂ ▸ .mapped (view_some hK),
            hA₁.imp_right fun ⟨hr, hLM⟩ => hr.same fun x hx => ?_⟩
          rw [hv₂]
          exact LogicalMap.transfer_eq_none.2
            (.inr ⟨by omega, hr.below x hx⟩)
  | fail =>
      -- refused: the target is written with the source's data, and only then
      -- is the source unmapped
      refine Sat.bind (g.fallback_serves h₁ (K := K) hL hA₁ fuel) ?_
      rintro _ s₂ ⟨p₂, h₂, hv₂, hr₂⟩
      refine Sat.mono (Step.serves (g.unmapSource_held h₂ ope K)) ?_
        fun _ _ h => h
      rintro _ s₃ ⟨h₃, hv₃⟩
      have hv : view s₃ = (view s).transfer ope K L
          ((s.mappingTable K).bind s.content.get) := by
        rw [hv₃, hv₂]
        rfl
      refine ⟨p₂, h₃, ?_, hr₂.imp_right fun hr => hr.same ?_⟩
      · rw [hv]
        cases hK : s.mappingTable K with
        | none => exact .filled (view_eq_none.2 hK)
        | some q => exact .mapped (view_some hK)
      · refine hr.below.of_view fun x hx => ?_
        rw [hv₃]
        split
        · rw [Function.update_apply, hx, ite_self]
        · exact hx

/-- The loop of `SSD_REMAP`. -/
theorem Geo.remapPages_serves (g : Geo c) (ope : RemapOpe)
    (len K L : Nat) (h : Held c B p s)
    (hL : L + len ≤ c.pageMappingEntryNb)
    (hA : A ∨ (Reserve c M R p s ∧ L + len ≤ M)) (fuel : Nat) :
    Serves c B fuel A (remapPages c fuel ope len K L) s fun _ s' =>
      ∃ p', Held c B p' s' ∧ PageRemaps ope len K L (view s) (view s')
        ∧ (A ∨ Reserve c M R p' s') := by
  induction len generalizing s p K L with
  | zero => exact Sat.pure ⟨p, h, .zero, hA.imp_right And.left⟩
  | succ len ih =>
      refine Sat.bind (g.remapPage_serves h ope (by omega)
        (hA.imp_right fun ⟨hr, hM⟩ => ⟨hr, by omega⟩) fuel) ?_
      rintro _ s₁ ⟨p₁, h₁, hp₁, hr₁⟩
      have hA₁ : A ∨ (Reserve c M R p₁ s₁ ∧ L + 1 + len ≤ M) := by
        rcases hA with hA | ⟨-, hM⟩
        · exact .inl hA
        · exact hr₁.imp_right fun hr => ⟨hr, by omega⟩
      refine Sat.mono (ih (K + 1) (L + 1) h₁ (by omega) hA₁) ?_
        fun _ _ h => h
      rintro _ s₂ ⟨p₂, h₂, hp₂, hr₂⟩
      exact ⟨p₂, h₂, .succ hp₁ hp₂, hr₂⟩

/-- `SSD_REMAP`. -/
theorem Geo.ssdRemap_serves (g : Geo c) (h : Held c B p s)
    {K L len : Nat} (hL : L + len ≤ c.pageMappingEntryNb)
    (hA : A ∨ (Reserve c M R p s ∧ L + len ≤ M)) (o fuel : Nat) :
    Serves c B fuel A (ssdRemap c fuel K L len o) s fun _ s' =>
      ∃ p', Held c B p' s' ∧ Logical c (.remap K L len o) (view s) (view s')
        ∧ (A ∨ Reserve c M R p' s') := by
  have hlen : (if len < 2 ^ 31 then len else 0) ≤ len := by
    split <;> omega
  unfold ssdRemap
  split
  · next ho =>
      exact Sat.emit_bind fun _ => ⟨.inl (by decide), Sat.pure ⟨p, h,
        .remapUnknown ho, hA.imp_right And.left⟩⟩
  · next ope ho =>
      refine Sat.bind (g.remapPages_serves ope _ K L h (by omega)
        (hA.imp_right fun ⟨hr, hM⟩ => ⟨hr, by omega⟩) fuel) ?_
      rintro _ s' ⟨p', h', hp, hr⟩
      exact Sat.pure ⟨p', h', .remap ho hp, hr⟩

/-- A command within the lpns and pages of a `Reserve`. -/
def Affordable (c : Conf) (M R : Nat) : Cmd → Prop
  | .write req => Modest c M R req.sectorNb req.length
  | .remap _ dstLpn len _ => dstLpn + len ≤ M
  | .discard _ _ => True

/-- Every command keeps the invariant and the reserve, and does what
`Logical` allows. -/
theorem Geo.exec_serves (g : Geo c) (h : Held c B p s) {cmd : Cmd}
    (hin : InRange c cmd)
    (hA : A ∨ (Reserve c M R p s ∧ Affordable c M R cmd)) (fuel : Nat) :
    Serves c B fuel A (exec c fuel cmd) s fun _ s' =>
      ∃ p', Held c B p' s' ∧ Logical c cmd (view s) (view s')
        ∧ (A ∨ Reserve c M R p' s') := by
  cases cmd with
  | write req =>
      exact Sat.bind (g.ftlWrite_serves h req hA fuel)
        fun _ _ hq => Sat.pure hq
  | discard length sectorNb =>
      exact Sat.bind (g.discard_serves h (hA.imp_right And.left)
        length sectorNb fuel) fun _ _ hq => Sat.pure hq
  | remap K L len o =>
      exact Sat.bind (g.ssdRemap_serves h hin.2 hA o fuel)
        fun _ _ hq => Sat.pure hq

end FemuRemap
