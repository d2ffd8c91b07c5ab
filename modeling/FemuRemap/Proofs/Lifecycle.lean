/-
Queues come and go, and no reference is left behind.

Creating and deleting a queue changes the view in one place. A reset frees
everything, one queue after the other, and what holds in between is only
that arrays and objects agree. Together with the steps that move requests
this gives every step of the controller, and which of them it does not
survive.
-/
import FemuRemap.Proofs.Traffic

namespace FemuRemap.Lifecycle

open Lib

variable {g : Config} {tidy : Prop} {n p q slot count qid : Nat}
  {busy busy' : List Nat} {w : List Req} {s : SQueue} {t t₁ : CQueue}
  {c c' : Ctrl}

/-- What is kept when the queues change. -/
theorem Inv.change (h : Inv g tidy c busy) (haios : c'.aios = c.aios)
    (hdis : c'.discards = c.discards) (haers : c'.aers = c.aers)
    (hlost : c'.lost = c.lost) (hshape : Shape g.numIoQueues c'.view)
    (hbells : Bells g c'.dbsAddr c'.eisAddr c'.view)
    (hreqs : Reqs c'.cq c'.sqs c'.cqs (c.waiting busy))
    (hfresh : c.fresh ≤ c'.fresh)
    (hlive : tidy → ∀ r ∈ c.callbacks, (c.sqs r.1).isSome →
      (c'.sqs r.1).isSome)
    (hadmin : (c.sqs 0).isSome → (c'.sqs 0).isSome)
    (htimer : (c'.sqs 0).isSome → c'.aerTimer = true) :
    Inv g tidy c' busy := by
  have hcb : c'.callbacks = c.callbacks := by
    rw [Ctrl.callbacks, haios, hdis]
    rfl
  have hout : c'.adminOut busy = c.adminOut busy := by
    rw [Ctrl.adminOut, haers, hlost]
    rfl
  exact
    { shape := hshape
      bells := hbells
      reqs := by
        rwa [Ctrl.waiting, haios, hout]
      callbacks := by
        rw [hcb]
        exact fun r hr => ⟨(h.callbacks r hr).1,
          Nat.lt_of_lt_of_le (h.callbacks r hr).2 hfresh⟩
      aios_nodup := haios ▸ h.aios_nodup
      live := by
        rw [hcb]
        exact fun ht r hr => hlive ht r hr (h.live ht r hr)
      admin := by
        rw [hout]
        exact fun hne => hadmin (h.admin hne)
      timer := htimer
      fresh := Nat.lt_of_lt_of_le h.fresh hfresh }

-- ============================================================= deletion

/-- Freeing a submission queue that exists. -/
theorem nvmeFreeSq_eq (hs : c.sqs p = some s) : nvmeFreeSq c p = .ok
    { c with sq := c.sq.set s.sqid none, sqs := c.sqs.set p none } := by
  simp only [nvmeFreeSq, getSq_eq hs, ok_bind]

/-- Freeing a completion queue that exists. -/
theorem nvmeFreeCq_eq (ht : c.cqs q = some t) : nvmeFreeCq c q = .ok
    { c with cq := c.cq.set t.cqid none, cqs := c.cqs.set q none } := by
  simp only [nvmeFreeCq, getCq_eq ht, ok_bind]

/-- In the view, an entry and an object are erased. -/
theorem view_freeSq {i : Nat} :
    ({ c with sq := c.sq.set i none, sqs := c.sqs.set p none } : Ctrl).view
      = { c.view with
        sq := Function.update c.view.sq i none
        sqs := Function.update c.view.sqs p none } := by
  unfold Ctrl.view
  dsimp only
  rw [Table.get_set_eq]
  congr 1
  funext p'
  rw [Table.get_set, Function.update_apply]
  split
  · rfl
  · rfl

theorem view_freeCq {i : Nat} :
    ({ c with cq := c.cq.set i none, cqs := c.cqs.set q none } : Ctrl).view
      = { c.view with
        cq := Function.update c.view.cq i none
        cqs := Function.update c.view.cqs q none } := by
  unfold Ctrl.view
  dsimp only
  rw [Table.get_set_eq]
  congr 1
  funext q'
  rw [Table.get_set, Function.update_apply]
  split
  · rfl
  · rfl

/-- The check finds the queue when the id is in range and in the table. -/
theorem nvmeCheckSqid_eq_some {i : Nat} : nvmeCheckSqid g c i = some p ↔
    i ≤ g.numIoQueues ∧ c.sq i = some p := by
  unfold nvmeCheckSqid
  split
  · next h => exact ⟨fun hp => ⟨h, hp⟩, fun hp => hp.2⟩
  · next h => exact ⟨nofun, fun hp => absurd hp.1 h⟩

theorem nvmeCheckCqid_eq_some {i : Nat} : nvmeCheckCqid g c i = some q ↔
    i ≤ g.numIoQueues ∧ c.cq i = some q := by
  unfold nvmeCheckCqid
  split
  · next h => exact ⟨fun hq => ⟨h, hq⟩, fun hq => hq.2⟩
  · next h => exact ⟨nofun, fun hq => absurd hq.1 h⟩

/-- Whatever passes the check is a queue with that index. -/
theorem Shape.checked (h : Shape g.numIoQueues c.view) {i : Nat}
    (hp : nvmeCheckSqid g c i = some p) :
    ∃ s, c.sqs p = some s ∧ s.sqid = i := by
  obtain ⟨-, hp⟩ := nvmeCheckSqid_eq_some.1 hp
  obtain ⟨info, hinfo, hid⟩ := h.sqs.named hp
  obtain ⟨s, hs, rfl⟩ := sqs_of_view hinfo
  exact ⟨s, hs, hid⟩

/-- The completion queue is left with no request of the queue. -/
theorem leaveCq_spec (h : Held g c w) (hs : c.sqs p = some s)
    (hq : c.cq s.cqid = some q) (ht : c.cqs q = some t) (count : Nat)
    (hok : ¬ PostFails t.toCqInfo t.reqList count) :
    ∃ c', leaveCq g c p s.cqid count = .ok c' ∧ Aside c c' ∧
      c'.view = { c.view with
        cqs := Function.update c.view.cqs q
          (some { t.toCqInfo with sqList := t.sqList.erase p }) } ∧
      Reqs c'.cq (Function.update c'.sqs p none) c'.cqs w := by
  have hid : t.cqid = s.cqid := h.shape.cqid_eq hq (view_cqs ht)
  have hcheck : nvmeCheckCqid g c s.cqid = some q :=
    nvmeCheckCqid_eq_some.2 ⟨h.shape.cq_le hq, hq⟩
  have hview := view_setCq (c := c) (q := q)
    (t := { t with sqList := t.sqList.erase p })
  have hreg : Registry CqInfo.cqid c.view.cq
      (Function.update c.view.cqs q
        (some { t.toCqInfo with sqList := t.sqList.erase p })) :=
    h.shape.cqs.set (view_cqs ht) rfl
  have hreqs := h.reqs.setCq ht { t with sqList := t.sqList.erase p } rfl rfl
  rw [← Table.get_set_eq] at hreqs
  -- what waits is posted as far as the ring allows; the rest of this queue's
  -- is dropped
  obtain ⟨c₂, hc₂, hsame, hreqs₂⟩ := postCqes_reqs
    (c := setCq c q { t with sqList := t.sqList.erase p })
    (by rw [hview]; exact hreg) hreqs
    (Table.get_set_self ..) count hok
  obtain ⟨t₂, ht₂, hinfo₂⟩ := hsame.cqs (Table.get_set_self ..)
  obtain ⟨s₂, hs₂, hsinfo⟩ := hsame.sqs (p := p) hs
  refine ⟨setCq c₂ q { t₂ with reqList := t₂.reqList.filter (·.1 ≠ p) },
    ?_, ⟨hsame.aios, hsame.discards, hsame.aers, hsame.lost, hsame.timer,
      hsame.dbs, hsame.eis⟩, ?_, ?_⟩
  · simp only [leaveCq, hcheck, getCq_eq ht, ok_bind, hc₂, getCq_eq ht₂]
  · exact (view_setCq_same ht₂
      { t₂ with reqList := t₂.reqList.filter (·.1 ≠ p) } rfl).trans
      (hsame.view.trans hview)
  · have honly : Each (fun q' t' => t'.cqid = s₂.cqid → q' = q) c₂.cqs := by
      intro q' t' ht' hkey
      have hview₂ := hsame.view.trans hview
      have hreg₂ : Registry CqInfo.cqid c₂.view.cq c₂.view.cqs := by
        rw [hview₂]
        exact hreg
      refine hreg₂.inj (view_cqs ht') (view_cqs ht₂) ?_
      rw [hkey, hsinfo, hinfo₂]
      exact hid.symm
    have hdel := hreqs₂.delSq hs₂ ht₂ honly
      { t₂ with reqList := t₂.reqList.filter (·.1 ≠ p) } rfl rfl
    rw [← Table.get_set_eq c₂.cqs] at hdel
    exact hdel

/-- Leaving fails where the posting of what waits does. -/
theorem leaveCq_fault (h : Held g c w) (hq : c.cq s.cqid = some q)
    (ht : c.cqs q = some t)
    (hfail : PostFails t.toCqInfo t.reqList count) :
    leaveCq g c p s.cqid count = .error .divideByZero := by
  have hcheck : nvmeCheckCqid g c s.cqid = some q :=
    nvmeCheckCqid_eq_some.2 ⟨h.shape.cq_le hq, hq⟩
  have hpost : nvmePostCqes q count
      (setCq c q { t with sqList := t.sqList.erase p })
        = .error .divideByZero :=
    postCqes_fault (Table.get_set_self ..) hfail
  simp only [leaveCq, hcheck, getCq_eq ht, ok_bind, hpost]
  rfl

/-- No callback of a queue is to come once all that is out is cancelled. -/
theorem Inv.none_left (h : Inv g tidy c busy) (hs : c.sqs p = some s)
    (hsub : ∀ r ∈ c'.aios, r ∈ c.aios)
    (hgone : ∀ slot ∈ s.outReqList, (p, slot) ∉ c'.aios) :
    ∀ r ∈ c'.aios, r.1 ≠ p := by
  intro r hr heq
  refine hgone r.2 ?_ (heq ▸ hr)
  refine (h.reqs.out hs).mem_iff.2 (mem_owned.2 ?_)
  exact List.mem_append_left _ (heq ▸ hsub r hr)

/-- A queue that has left its completion queue is freed. -/
theorem Inv.freeSq (h : Inv g tidy c busy) (hp : p ≠ 0)
    (hs : c.sqs p = some s) (hq : c.cq s.cqid = some q)
    (ht : c.cqs q = some t) (haside : Aside c c')
    (hview : c'.view = { c.view with
      cqs := Function.update c.view.cqs q
        (some { t.toCqInfo with sqList := t.sqList.erase p }) })
    (hreqs : Reqs c'.cq (Function.update c'.sqs p none) c'.cqs
      (c.waiting busy))
    (hnone : tidy → ∀ r ∈ c.callbacks, r.1 ≠ p) :
    Inv g tidy { c' with
      sq := c'.sq.set s.sqid none, sqs := c'.sqs.set p none } busy := by
  have hfreed := view_freeSq (c := c') (p := p) (i := s.sqid)
  rw [hview] at hfreed
  have hkeep : ∀ p', p' ≠ p →
      ((c'.sqs.set p none) p').isSome = (c.sqs p').isSome := by
    intro p' hne
    have hmap : (c'.view.sqs p').isSome = (c.view.sqs p').isSome := by
      rw [hview]
    rw [Table.get_set_ne _ _ hne]
    simpa only [Ctrl.view, Option.isSome_map] using hmap
  refine h.change haside.aios haside.discards haside.aers haside.lost
    ?_ ?_ ?_ ?_ ?_ ?_ ?_
  · rw [hfreed]
    exact h.shape.delSq (view_sqs hs) hq (view_cqs ht)
  · dsimp only
    rw [hfreed, haside.dbs, haside.eis]
    have hbell := h.bells.cq (view_cqs ht)
    exact ⟨h.bells.sq.erase, h.bells.cq.update hbell⟩
  · dsimp only
    rw [Table.get_set_eq]
    exact hreqs
  · exact Nat.le_of_eq (congrArg View.fresh hview).symm
  · intro htidy r hr hlive
    rw [hkeep r.1 (hnone htidy r hr)]
    exact hlive
  · intro hlive
    rw [hkeep 0 hp.symm]
    exact hlive
  · intro hlive
    rw [hkeep 0 hp.symm] at hlive
    exact haside.timer.trans (h.timer hlive)

/-- Deleting a queue fails when what waits with it, or is cancelled, cannot
be posted. -/
def DelFails (g : Config) (c : Ctrl) (qid count : Nat) : Prop :=
  qid ≠ 0 ∧ ∃ p s q t, nvmeCheckSqid g c qid = some p ∧
    c.sqs p = some s ∧ c.cq s.cqid = some q ∧ c.cqs q = some t ∧
    PostFails t.toCqInfo
      (t.reqList ++ c.aios.filter fun r => r.1 = p ∧ r.2 ∈ s.outReqList) count

/-- What is cancelled and then waits. -/
theorem DelFails.iff_post (hqid : qid ≠ 0)
    (hcheck : nvmeCheckSqid g c qid = some p) (hs : c.sqs p = some s)
    (hq : c.cq s.cqid = some q) (ht : c.cqs q = some t)
    (hinfo : t₁.toCqInfo = t.toCqInfo)
    (hempty : t₁.reqList = [] ↔ t.reqList = [] ∧
      ∀ slot ∈ s.outReqList, (p, slot) ∉ c.aios) :
    DelFails g c qid count ↔ PostFails t₁.toCqInfo t₁.reqList count := by
  have hlist : (t.reqList ++ c.aios.filter fun r =>
      r.1 = p ∧ r.2 ∈ s.outReqList) ≠ [] ↔ t₁.reqList ≠ [] := by
    refine not_congr ?_
    rw [hempty, List.append_eq_nil_iff, List.filter_eq_nil_iff]
    refine and_congr_right fun _ => ?_
    constructor
    · intro hnone slot hslot hmem
      exact hnone _ hmem (decide_eq_true ⟨rfl, hslot⟩)
    · intro hnone r hr hkey
      obtain ⟨rfl, hslot⟩ := of_decide_eq_true hkey
      exact hnone r.2 hslot hr
  unfold PostFails
  rw [hinfo]
  constructor
  · intro ⟨_, p', s', q', t', hp', hs', hq', ht', hne, hwhy⟩
    rw [hcheck] at hp'
    cases hp'
    rw [hs] at hs'
    cases hs'
    rw [hq] at hq'
    cases hq'
    rw [ht] at ht'
    cases ht'
    exact ⟨hlist.1 hne, hwhy⟩
  · intro ⟨hne, hwhy⟩
    exact ⟨hqid, p, s, q, t, hcheck, hs, hq, ht, hlist.2 hne, hwhy⟩

/-- A submission queue is deleted, or posting for it fails. -/
theorem nvmeDelSq_spec (h : Inv g tidy c busy) (qid count : Nat)
    (hidle : tidy → ∀ r ∈ c.discards, nvmeCheckSqid g c qid ≠ some r.1) :
    (¬ DelFails g c qid count ∧ ∃ st c',
      nvmeDelSq g c qid count = .ok (st, c') ∧ Inv g tidy c' busy) ∨
    (DelFails g c qid count ∧
      nvmeDelSq g c qid count = .error .divideByZero) := by
  unfold nvmeDelSq
  by_cases hqid : qid = 0
  · exact .inl ⟨fun hf => hf.1 hqid, _, c, if_pos hqid, h⟩
  rw [if_neg hqid]
  cases hcheck : nvmeCheckSqid g c qid with
  | none =>
      refine .inl ⟨?_, _, c, rfl, h⟩
      intro ⟨_, p, _, _, _, hp, _⟩
      rw [hcheck] at hp
      cases hp
  | some p =>
      obtain ⟨s, hs, hsqid⟩ := h.shape.checked hcheck
      have hp : p ≠ 0 := fun heq =>
        hqid (hsqid ▸ (h.shape.sq_fits (view_sqs hs)).zero.1 heq)
      obtain ⟨q, t, hq, ht, -⟩ := h.shape.find hs
      -- all requests that are out are cancelled first, which sends them to
      -- the completion queue
      obtain ⟨c₁, hc₁, h₁, hview₁, hsub, hdis, hgone, hlist⟩ :=
        cancelAll_inv h hs s.outReqList
      obtain ⟨t₁, ht₁, hinfo, hempty⟩ := hlist q t hq ht
      have hs₁ := view_sqs hs
      rw [← hview₁] at hs₁
      obtain ⟨s₁, hs₁, hinfo₁⟩ := sqs_of_view hs₁
      have hq₁ : c₁.cq s₁.cqid = some q := by
        rw [hinfo₁, ← hq]
        exact congrFun (congrArg View.cq hview₁) s.cqid
      have hiff : DelFails g c qid count
          ↔ PostFails t₁.toCqInfo t₁.reqList count :=
        DelFails.iff_post hqid hcheck hs hq ht hinfo hempty
      simp only [getSq_eq hs, ok_bind, hc₁]
      rw [← congrArg SqInfo.cqid hinfo₁]
      by_cases hfail : PostFails t₁.toCqInfo t₁.reqList count
      · refine .inr ⟨hiff.2 hfail, ?_⟩
        rw [leaveCq_fault h₁.toHeld hq₁ ht₁ hfail]
        rfl
      · -- no callback finds the queue gone: those of requests were just
        -- cancelled, those of discards are excluded
        obtain ⟨c₂, hc₂, haside, hview₂, hreqs₂⟩ :=
          leaveCq_spec h₁.toHeld hs₁ hq₁ ht₁ count hfail
        have hs₂ : c₂.view.sqs p = some s₁.toSqInfo := by
          rw [hview₂]
          exact view_sqs hs₁
        obtain ⟨s₂, hs₂, hinfo₂⟩ := sqs_of_view hs₂
        refine .inl ⟨fun hf => hfail (hiff.1 hf), .success, { c₂ with
          sq := c₂.sq.set s₂.sqid none, sqs := c₂.sqs.set p none }, ?_, ?_⟩
        · rw [hc₂]
          simp only [ok_bind, nvmeFreeSq_eq hs₂]
        · rw [hinfo₂]
          refine h₁.freeSq hp hs₁ hq₁ ht₁ haside hview₂ hreqs₂ ?_
          intro htidy r hr heq
          rcases List.mem_append.1 hr with hr | hr
          · exact h.none_left hs hsub hgone r hr heq
          · rw [hdis] at hr
            exact hidle htidy r hr (heq ▸ hcheck)

/-- A completion queue goes when no submission queue uses it. -/
theorem nvmeDelCq_inv (h : Inv g tidy c busy) (qid : Nat) :
    ∃ st c', nvmeDelCq g c qid = .ok (st, c') ∧
      Inv g tidy c' busy := by
  unfold nvmeDelCq
  by_cases hqid : qid = 0
  · exact ⟨_, c, if_pos hqid, h⟩
  · rw [if_neg hqid]
    cases hcheck : nvmeCheckCqid g c qid with
    | none => exact ⟨_, c, rfl, h⟩
    | some q =>
        obtain ⟨-, hq⟩ := nvmeCheckCqid_eq_some.1 hcheck
        obtain ⟨info, hinfo, -⟩ := h.shape.cqs.named hq
        obtain ⟨t, ht, rfl⟩ := cqs_of_view hinfo
        simp only [getCq_eq ht, ok_bind]
        by_cases hlist : t.sqList = []
        · rw [if_neg fun hne => hne hlist, nvmeFreeCq_eq ht]
          refine ⟨_, _, rfl, ?_⟩
          refine h.change rfl rfl rfl rfl ?_ ?_ ?_ (Nat.le_refl _)
            (fun _ _ _ => id) id h.timer
          · rw [view_freeCq]
            exact h.shape.delCq (view_cqs ht) hlist
          · rw [view_freeCq]
            exact ⟨h.bells.sq, h.bells.cq.erase⟩
          · dsimp only
            rw [Table.get_set_eq, Table.get_set_eq]
            exact h.reqs.delCq _
        · rw [if_pos hlist]
          exact ⟨_, c, rfl, h⟩

-- ============================================================= creation

theorem view_initCq {i fresh : Nat} :
    ({ setCq c q t with cq := c.cq.set i (some q), fresh := fresh } :
        Ctrl).view
      = { c.view with
        cq := Function.update c.view.cq i (some q)
        cqs := Function.update c.view.cqs q (some t.toCqInfo)
        fresh := fresh } := by
  have hview := congrArg View.cqs (view_setCq (c := c) (q := q) (t := t))
  unfold Ctrl.view at hview ⊢
  dsimp only at hview ⊢
  rw [Table.get_set_eq, hview]
  rfl

/-- A new completion queue at an address that is not in use. -/
theorem nvmeInitCq_inv (h : Inv g tidy c busy) {i fresh : Nat} (size : Nat)
    (contig : Bool) (hid : c.cq i = none) (hq : c.cqs q = none)
    (hle : i ≤ g.numIoQueues) (hzero : q = 0 ↔ i = 0) (hlt : q < fresh)
    (hfresh : c.fresh ≤ fresh) :
    ∃ c', nvmeInitCq g { c with fresh := fresh } q i size contig = .ok c' ∧
      Inv g tidy c' busy ∧ Aside c c' ∧ c'.sq = c.sq ∧ c'.sqs = c.sqs ∧
      c'.cq i = some q ∧ c'.cqs q = some (newCq g c i size contig) := by
  refine ⟨{ setCq c q (newCq g c i size contig) with
    cq := c.cq.set i (some q), fresh := fresh }, if_pos hle, ?_,
    ⟨rfl, rfl, rfl, rfl, rfl, rfl, rfl⟩, rfl, rfl, Table.get_set_self ..,
    Table.get_set_self ..⟩
  refine h.change rfl rfl rfl rfl ?_ ?_ ?_ hfresh (fun _ _ _ => id) id h.timer
  · rw [view_initCq]
    refine h.shape.newCq (t := (newCq g c i size contig).toCqInfo) hid ?_ hle
      rfl hzero hlt hfresh
    show (c.cqs q).map _ = none
    rw [hq]
    rfl
  · rw [view_initCq]
    exact ⟨h.bells.sq, h.bells.cq.update rfl⟩
  · dsimp only [setCq]
    rw [Table.get_set_eq, Table.get_set_eq]
    refine h.reqs.newCq hid ?_ hq rfl
    intro p s hs
    obtain ⟨q', t', hq', ht', -⟩ := h.shape.find hs
    exact ⟨q', t', hq', ht'⟩

/-- In the view, an entry and an object are added. -/
theorem view_initSq {i fresh : Nat} :
    ({ setCq (setSq c p s) q t with
        sq := c.sq.set i (some p), fresh := fresh } : Ctrl).view
      = { c.view with
        sq := Function.update c.view.sq i (some p)
        sqs := Function.update c.view.sqs p (some s.toSqInfo)
        cqs := Function.update c.view.cqs q (some t.toCqInfo)
        fresh := fresh } := by
  have hsqs := congrArg View.sqs (view_setSq (c := c) (p := p) (s := s))
  have hcqs := congrArg View.cqs (view_setCq (c := c) (q := q) (t := t))
  unfold Ctrl.view at hsqs hcqs ⊢
  dsimp only [setSq, setCq] at hsqs hcqs ⊢
  rw [Table.get_set_eq, hsqs, hcqs]

/-- A new submission queue at an address that is not in use, and for which
nothing waits. -/
theorem nvmeInitSq_inv (h : Inv g tidy c busy) {i j fresh : Nat} (size : Nat)
    (contig : Bool) (hid : c.sq i = none) (hp : c.sqs p = none)
    (hle : i ≤ g.numIoQueues) (hq : c.cq j = some q)
    (ht : c.cqs q = some t) (hzero : (p = 0 ↔ i = 0) ∧ (p = 0 ↔ j = 0))
    (hadmin : p = 0 → contig = true ∧ c.aerTimer = true) (hlt : p < fresh)
    (hfresh : c.fresh ≤ fresh) (hw : ∀ r ∈ c.waiting busy, r.1 ≠ p) :
    ∃ c', nvmeInitSq g { c with fresh := fresh } p i j size contig = .ok c' ∧
      Inv g tidy c' busy ∧ Aside c c' := by
  have hkeep : ∀ p', (c.sqs p').isSome →
      ((c.sqs.set p (some (newSq g c i j size contig))) p').isSome := by
    intro p' hlive
    rw [Table.get_set]
    split
    · rfl
    · exact hlive
  refine ⟨{ setCq (setSq c p (newSq g c i j size contig)) q
      { t with sqList := t.sqList ++ [p] } with
    sq := c.sq.set i (some p), fresh := fresh }, ?_, ?_,
    ⟨rfl, rfl, rfl, rfl, rfl, rfl, rfl⟩⟩
  · unfold nvmeInitSq
    simp only [hq, getCq, ht, ok_bind]
    exact if_pos hle
  refine h.change rfl rfl rfl rfl ?_ ?_ ?_ hfresh
    (fun _ r _ => hkeep r.1) (hkeep 0) ?_
  · rw [view_initSq]
    refine h.shape.newSq (s := (newSq g c i j size contig).toSqInfo) hid ?_ hle
      hq (view_cqs ht) ⟨hlt, hzero.1, hzero.2, fun h0 => (hadmin h0).1⟩ hfresh
    show (c.sqs p).map _ = none
    rw [hp]
    rfl
  · rw [view_initSq]
    have hbell := h.bells.cq (view_cqs ht)
    exact ⟨h.bells.sq.update rfl, h.bells.cq.update hbell⟩
  · dsimp only [setCq, setSq]
    rw [Table.get_set_eq, Table.get_set_eq]
    exact h.reqs.newSq hp ht (newSq g c i j size contig)
      { t with sqList := t.sqList ++ [p] } rfl rfl rfl rfl (owned_eq_nil hw)
  · -- the timer is there with the admin queue
    intro hlive
    dsimp only [setCq, setSq] at hlive
    rw [Table.get_set] at hlive
    split at hlive
    · next h0 => exact (hadmin h0.symm).2
    · exact h.timer hlive

/-- Nothing is or waits at the next address. -/
theorem Inv.at_fresh (h : Inv g tidy c busy) :
    c.sqs c.fresh = none ∧ c.cqs c.fresh = none ∧
      ∀ r ∈ c.waiting busy, r.1 ≠ c.fresh := by
  refine ⟨?_, ?_, ?_⟩
  · refine Option.eq_none_iff_forall_not_mem.2 fun s hs => ?_
    exact Nat.lt_irrefl _ (h.shape.sq_fits (view_sqs hs)).lt
  · refine Option.eq_none_iff_forall_not_mem.2 fun t ht => ?_
    exact Nat.lt_irrefl _ (h.shape.cq_fits (view_cqs ht)).lt
  · intro r hr heq
    rcases List.mem_append.1 hr with hr | hr
    · exact Nat.lt_irrefl _ (heq ▸ (h.of_aios hr).2)
    · obtain ⟨slot, -, rfl⟩ := List.mem_map.1 hr
      exact Nat.lt_irrefl _ (heq ▸ h.fresh)

/-- What the checks of the source establish. -/
theorem CreateCq.check_eq_none {r : CreateCq} (h : r.check g c = none) :
    r.cqid ≠ 0 ∧ nvmeCheckCqid g c r.cqid = none := by
  unfold CreateCq.check at h
  split at h
  · cases h
  · next hid =>
    exact ⟨fun h => hid (.inl h), Decidable.not_not.1 fun h => hid (.inr h)⟩

theorem CreateSq.check_eq_none {r : CreateSq} (h : r.check g c = none) :
    (r.cqid ≠ 0 ∧ ∃ q, nvmeCheckCqid g c r.cqid = some q) ∧
      r.sqid ≠ 0 ∧ nvmeCheckSqid g c r.sqid = none := by
  unfold CreateSq.check at h
  split at h
  · cases h
  · next hcq =>
    split at h
    · cases h
    · next hsq =>
      refine ⟨⟨fun h => hcq (.inl h), ?_⟩, fun h => hsq (.inl h),
        Decidable.not_not.1 fun h => hsq (.inr h)⟩
      exact Option.ne_none_iff_exists'.1 fun h => hcq (.inr h)

/-- An index that is in the array and not in use. -/
theorem sq_eq_none {i : Nat} (hle : i ≤ g.numIoQueues)
    (h : nvmeCheckSqid g c i = none) : c.sq i = none := by
  unfold nvmeCheckSqid at h
  rwa [if_pos hle] at h

/-- An id in range that the check does not find is free. -/
theorem cq_eq_none {i : Nat} (hle : i ≤ g.numIoQueues)
    (h : nvmeCheckCqid g c i = none) : c.cq i = none := by
  unfold nvmeCheckCqid at h
  rwa [if_pos hle] at h

/-- Creating a completion queue needs an id within the table: the source
checks that it is unused, not that it is in range. -/
theorem nvmeCreateCq_inv (h : Inv g tidy c busy) {r : CreateCq}
    (hid : r.check g c = none → r.cqid ≤ g.numIoQueues) :
    ∃ st c', nvmeCreateCq g c r = .ok (st, c') ∧
      Inv g tidy c' busy := by
  unfold nvmeCreateCq
  cases hcheck : r.check g c with
  | some st => exact ⟨some st, c, rfl, h⟩
  | none =>
      have hle := hid hcheck
      obtain ⟨hne, hfree⟩ := CreateCq.check_eq_none hcheck
      obtain ⟨-, hq, -⟩ := h.at_fresh
      dsimp only
      rw [if_neg (Nat.not_lt.2 hle)]
      split
      · exact ⟨_, c, rfl, h⟩
      · obtain ⟨c', hc', h', -⟩ := nvmeInitCq_inv h (queueSize r.qsize)
          r.contig (cq_eq_none hle hfree) hq hle
          (iff_of_false (Nat.ne_of_gt h.fresh) hne)
          (Nat.lt_succ_self c.fresh) (Nat.le_succ c.fresh)
        refine ⟨if r.ien ∧ !r.routed then none else some .success, c', ?_, h'⟩
        dsimp only [malloc]
        rw [hc']
        rfl

/-- The same of a submission queue. -/
theorem nvmeCreateSq_inv (h : Inv g tidy c busy) {r : CreateSq}
    (hid : r.check g c = none → r.sqid ≤ g.numIoQueues) :
    ∃ st c', nvmeCreateSq g c r = .ok (st, c') ∧ Inv g tidy c' busy := by
  unfold nvmeCreateSq
  cases hcheck : r.check g c with
  | some st => exact ⟨st, c, rfl, h⟩
  | none =>
      have hle := hid hcheck
      obtain ⟨⟨hcq, q, hq⟩, hsq, hfree⟩ := CreateSq.check_eq_none hcheck
      obtain ⟨-, hq⟩ := nvmeCheckCqid_eq_some.1 hq
      obtain ⟨info, hinfo, -⟩ := h.shape.cqs.named hq
      obtain ⟨t, ht, rfl⟩ := cqs_of_view hinfo
      obtain ⟨hp, -, hw⟩ := h.at_fresh
      have hne := Nat.ne_of_gt h.fresh
      obtain ⟨c', hc', h', -⟩ := nvmeInitSq_inv h (queueSize r.qsize) r.contig
        (sq_eq_none hle hfree) hp hle hq ht
        ⟨iff_of_false hne hsq, iff_of_false hne hcq⟩
        (fun h0 => absurd h0 hne)
        (Nat.lt_succ_self c.fresh) (Nat.le_succ c.fresh) hw
      refine ⟨.success, c', ?_, h'⟩
      dsimp only [malloc]
      rw [hc']
      rfl

-- ============================================================ doorbells

/-- The loop of `nvme_set_db_memory`, that started on `c₀`, has come to
the indices behind `k` and `l`. -/
structure Ringing (g : Config) (c₀ : Ctrl) (w : List Req) (k l : Nat)
    (c : Ctrl) : Prop where
  aside : Aside c₀ c
  shape : Shape g.numIoQueues c.view
  reqs : Reqs c.cq c.sqs c.cqs w
  fresh : c.fresh = c₀.fresh
  live : ∀ p, (c.sqs p).isSome = (c₀.sqs p).isSome
  sq : Each (fun _ s => s.sqid ≤ k → s.dbAddr =
    if s.sqid ≠ 0 then sqDoorbell g c₀.dbsAddr s.sqid else 0) c.view.sqs
  cq : Each (fun _ t => t.cqid ≤ l → t.dbAddr =
    if t.cqid ≠ 0 then cqDoorbell g c₀.dbsAddr t.cqid else 0) c.view.cqs

variable {c₀ : Ctrl} {k l : Nat}

/-- One more submission queue has its doorbell. -/
theorem Ringing.setSqDb (h : Ringing g c₀ w k l c) :
    ∃ c', setSqDb g c (k + 1) = .ok c' ∧ Ringing g c₀ w (k + 1) l c' := by
  unfold Lifecycle.setSqDb
  cases hp : c.sq (k + 1) with
  | none =>
      exact ⟨c, rfl, { h with sq := h.shape.sqs.upto_none hp h.sq }⟩
  | some p =>
      obtain ⟨info, hinfo, hid⟩ := h.shape.sqs.named hp
      obtain ⟨s, hs, rfl⟩ := sqs_of_view hinfo
      simp only [getSq_eq hs, ok_bind]
      refine ⟨_, rfl, ?_⟩
      have hview := view_setSq (c := c) (p := p)
        (s := { s with dbAddr := sqDoorbell g c.dbsAddr (k + 1) })
      exact
        { aside := h.aside.trans ⟨rfl, rfl, rfl, rfl, rfl, rfl, rfl⟩
          shape := by
            rw [hview]
            exact h.shape.setSq hinfo rfl rfl rfl
          reqs := by
            have hreqs := h.reqs.setSq hs
              { s with dbAddr := sqDoorbell g c.dbsAddr (k + 1) } rfl rfl rfl
              rfl
            rwa [← Table.get_set_eq] at hreqs
          fresh := h.fresh
          live := by
            intro p'
            rw [← h.live p']
            refine Table.apply_set Option.isSome c.sqs ?_ p'
            rw [hs]
            rfl
          sq := by
            rw [hview]
            refine h.shape.sqs.upto_set hinfo hid ?_ h.sq
            rw [if_pos (by rw [hid]; exact Nat.succ_ne_zero k)]
            dsimp only
            rw [hid, h.aside.dbs]
          cq := by
            rw [hview]
            exact h.cq }

/-- One more completion queue has its doorbell. -/
theorem Ringing.setCqDb (h : Ringing g c₀ w k l c) :
    ∃ c', setCqDb g c (l + 1) = .ok c' ∧ Ringing g c₀ w k (l + 1) c' := by
  unfold Lifecycle.setCqDb
  cases hq : c.cq (l + 1) with
  | none =>
      exact ⟨c, rfl, { h with cq := h.shape.cqs.upto_none hq h.cq }⟩
  | some q =>
      obtain ⟨info, hinfo, hid⟩ := h.shape.cqs.named hq
      obtain ⟨t, ht, rfl⟩ := cqs_of_view hinfo
      simp only [getCq_eq ht, ok_bind]
      refine ⟨_, rfl, ?_⟩
      have hview := view_setCq (c := c) (q := q)
        (t := { t with dbAddr := cqDoorbell g c.dbsAddr (l + 1) })
      exact
        { aside := h.aside.trans ⟨rfl, rfl, rfl, rfl, rfl, rfl, rfl⟩
          shape := by
            rw [hview]
            exact h.shape.setCq hinfo rfl rfl
          reqs := by
            have hreqs := h.reqs.setCq ht
              { t with dbAddr := cqDoorbell g c.dbsAddr (l + 1) } rfl rfl
            rwa [← Table.get_set_eq] at hreqs
          fresh := h.fresh
          live := h.live
          sq := by
            rw [hview]
            exact h.sq
          cq := by
            rw [hview]
            refine h.shape.cqs.upto_set hinfo hid ?_ h.cq
            rw [if_pos (by rw [hid]; exact Nat.succ_ne_zero l)]
            dsimp only
            rw [hid, h.aside.dbs] }

/-- By induction on the ids that are done. -/
theorem Ringing.loop (h : Ringing g c₀ w 0 0 c) (k : Nat) :
    ∃ c', ((List.range k).map (· + 1)).foldlM (setDb g) c = .ok c' ∧
      Ringing g c₀ w k k c' := by
  induction k with
  | zero => exact ⟨c, rfl, h⟩
  | succ k ih =>
      obtain ⟨c₁, hc₁, h₁⟩ := ih
      obtain ⟨c₂, hc₂, h₂⟩ := h₁.setSqDb
      obtain ⟨c₃, hc₃, h₃⟩ := h₂.setCqDb
      refine ⟨c₃, ?_, h₃⟩
      rw [List.range_succ, List.map_append, List.foldlM_append, hc₁, ok_bind]
      simp only [List.map_cons, List.map_nil, List.foldlM_cons,
        List.foldlM_nil, setDb, hc₂, ok_bind, hc₃]
      rfl

/-- Only addresses change, within queues that exist. -/
theorem nvmeSetDbMemory_inv (h : Inv g tidy c busy) (dbs eis : Nat) :
    ∃ st c', nvmeSetDbMemory g c dbs eis = .ok (st, c') ∧
      Inv g tidy c' busy := by
  unfold nvmeSetDbMemory
  split
  · exact ⟨_, c, rfl, h⟩
  · next hok =>
    -- before the loop the doorbells are those of the admin queues
    have hstart : Ringing g { c with dbsAddr := dbs, eisAddr := eis }
        (c.waiting busy) 0 0 { c with dbsAddr := dbs, eisAddr := eis } :=
      { aside := .refl _
        shape := h.shape
        reqs := h.reqs
        fresh := rfl
        live := fun _ => rfl
        sq := by
          intro p s hs hle
          have hzero := Nat.le_zero.1 hle
          rw [if_neg fun hne => hne hzero]
          exact (h.bells.sq hs).trans (if_neg fun hne => hne.1 hzero)
        cq := by
          intro q t ht hle
          have hzero := Nat.le_zero.1 hle
          rw [if_neg fun hne => hne hzero]
          exact (h.bells.cq ht).trans (if_neg fun hne => hne.1 hzero) }
    obtain ⟨c', hc', h'⟩ := hstart.loop g.numIoQueues
    refine ⟨.success, c', ?_, ?_⟩
    · dsimp only
      rw [hc']
      rfl
    · have hshadow : dbs ≠ 0 ∧ eis ≠ 0 :=
        ⟨fun h => hok (.inl h), fun h => hok (.inr (.inr (.inl h)))⟩
      refine h.change h'.aside.aios h'.aside.discards h'.aside.aers
        h'.aside.lost h'.shape ?_ h'.reqs (Nat.le_of_eq h'.fresh.symm)
        (fun _ r _ => ?_) ?_ ?_
      · rw [h'.aside.dbs, h'.aside.eis]
        constructor
        · intro p s hs
          have hle := h'.shape.sq_le (h'.shape.sqs.listed hs)
          simp only [hshadow.1, hshadow.2, ne_eq, not_false_eq_true, and_true]
          exact h'.sq hs hle
        · intro q t ht
          have hle := h'.shape.cq_le (h'.shape.cqs.listed ht)
          simp only [hshadow.1, hshadow.2, ne_eq, not_false_eq_true, and_true]
          exact h'.cq ht hle
      · rw [h'.live]
        exact id
      · rw [h'.live]
        exact id
      · rw [h'.live, h'.aside.timer]
        exact h.timer

-- =============================================================== aborts

/-- From any head a ring comes to every index. -/
theorem exists_offset {size m : Nat} (head : Nat) (hm : m < size) :
    ∃ j, j < size ∧ (head + j) % size = m := by
  have hpos : 0 < size := Nat.zero_lt_of_lt hm
  refine ⟨(m + (size - head % size)) % size, Nat.mod_lt _ hpos, ?_⟩
  have hsum : head + (m + (size - head % size))
      = m + size * (head / size + 1) := by
    have hdiv := Nat.div_add_mod head size
    have hmod := Nat.mod_lt head hpos
    rw [Nat.mul_add, Nat.mul_one]
    omega
  rw [Nat.add_mod_mod, hsum, Nat.add_mul_mod_self_left,
    Nat.mod_eq_of_lt hm]

variable {ring : Nat → Nat} {cid : Nat} {f : Fault}

/-- The search of a contiguous queue goes on past every entry that is
neither the tail nor the command. -/
theorem SQueue.search_error_iff (hcontig : s.contig = true) {k i : Nat} :
    s.search ring cid k i = .error f ↔ f = .endless ∧
      ∀ j, i ≤ j → j < i + k → (s.head + j) % s.size ≠ s.tail ∧
        ring ((s.head + j) % s.size) ≠ cid := by
  induction k generalizing i with
  | zero =>
      refine ⟨fun h => ?_, fun h => by rw [h.1]; rfl⟩
      cases h
      exact ⟨rfl, fun j hj hj' => absurd hj' (Nat.not_lt.2 hj)⟩
  | succ k ih =>
      rw [SQueue.search]
      by_cases htail : (s.head + i) % s.size = s.tail
      · rw [if_pos htail]
        refine iff_of_false (by simp) fun h => ?_
        exact (h.2 i (Nat.le_refl i) (by omega)).1 htail
      · rw [if_neg htail, entryAddr, if_pos hcontig, ok_bind]
        by_cases hcid : ring ((s.head + i) % s.size) = cid
        · rw [if_pos hcid]
          refine iff_of_false (by simp) fun h => ?_
          exact (h.2 i (Nat.le_refl i) (by omega)).2 hcid
        · rw [if_neg hcid, ih]
          refine and_congr_right fun _ => ⟨fun h j hj hj' => ?_,
            fun h j hj hj' => h j (by omega) (by omega)⟩
          rcases Nat.eq_or_lt_of_le hj with rfl | hlt
          · exact ⟨htail, hcid⟩
          · exact h j hlt (by omega)

/-- The search of a ring fails: the queue has no size, or is in pieces and
not empty, or its tail is none of its indices and no entry is that of the
command. -/
def SQueue.SearchFails (s : SQueue) (ring : Nat → Nat) (cid : Nat)
    (f : Fault) : Prop :=
  (f = .divideByZero ∧
    (s.size = 0 ∨ (s.contig = false ∧ s.head % s.size ≠ s.tail))) ∨
  (f = .endless ∧ s.size ≠ 0 ∧ s.contig = true ∧ s.size ≤ s.tail ∧
    ∀ j, j < s.size → ring j ≠ cid)

/-- The search as a whole fails as its loop does. -/
theorem SQueue.findEntry_error_iff :
    s.findEntry ring cid = .error f ↔ s.SearchFails ring cid f := by
  unfold SQueue.findEntry SQueue.SearchFails
  by_cases hsize : s.size = 0
  · rw [if_pos hsize]
    constructor
    · intro h
      cases h
      exact .inl ⟨rfl, .inl hsize⟩
    · rintro (⟨rfl, -⟩ | ⟨-, hne, -⟩)
      · rfl
      · exact absurd hsize hne
  rw [if_neg hsize]
  cases hcontig : s.contig with
  | false =>
      obtain ⟨k, hk⟩ := Nat.exists_eq_succ_of_ne_zero hsize
      rw [hk, SQueue.search, Nat.add_zero, ← hk, hcontig]
      by_cases htail : s.head % s.size = s.tail
      · rw [if_pos htail]
        refine iff_of_false nofun ?_
        rintro (⟨-, h0 | ⟨-, hne⟩⟩ | ⟨-, -, h1, -⟩)
        · exact hsize h0
        · exact hne htail
        · cases h1
      · rw [if_neg htail]
        constructor
        · intro h
          cases h
          exact .inl ⟨rfl, .inr ⟨rfl, htail⟩⟩
        · rintro (⟨rfl, -⟩ | ⟨-, -, h1, -⟩)
          · rfl
          · cases h1
  | true =>
      rw [SQueue.search_error_iff hcontig]
      constructor
      · intro ⟨hf, hall⟩
        refine .inr ⟨hf, hsize, rfl, ?_, ?_⟩
        · refine Nat.not_lt.1 fun hlt => ?_
          obtain ⟨j, hj, heq⟩ := exists_offset s.head hlt
          exact (hall j (Nat.zero_le j) (by omega)).1 heq
        · intro m hm
          obtain ⟨j, hj, heq⟩ := exists_offset s.head hm
          exact heq ▸ (hall j (Nat.zero_le j) (by omega)).2
      · rintro (⟨-, h0 | ⟨h0, -⟩⟩ | ⟨hf, -, -, htail, hall⟩)
        · exact absurd h0 hsize
        · cases h0
        · refine ⟨hf, fun j _ _ => ?_⟩
          have hlt := Nat.mod_lt (s.head + j) (Nat.pos_of_ne_zero hsize)
          exact ⟨Nat.ne_of_lt (Nat.lt_of_lt_of_le hlt htail), hall _ hlt⟩

/-- An abort fails: nothing is to cancel, and the search of the ring fails,
or it finds an entry and no request is free. -/
def AbortFails (g : Config) (c : Ctrl) (sqid cid : Nat) (ring : Nat → Nat)
    (f : Fault) : Prop :=
  ∃ p s, nvmeCheckSqid g c sqid = some p ∧ c.sqs p = some s ∧
    s.findOut c.aios p cid = none ∧ (s.SearchFails ring cid f ∨
      (f = .nullPointer ∧ s.findEntry ring cid = .ok true ∧ s.reqList = []))

/-- What is found among those that are out is one of them. -/
theorem SQueue.of_findOut {aios : List Req} {slot : Nat}
    (h : s.findOut aios p cid = some slot) : (p, slot) ∈ aios := by
  unfold SQueue.findOut at h
  split at h
  · cases h
  · have hfound := List.find?_some h
    exact (of_decide_eq_true hfound).1

/-- Aborting a command that was not fetched takes a free request. -/
theorem nvmeAbortReq_inv (h : Inv g tidy c busy) {sqid : Nat}
    (hok : ∀ f, ¬ AbortFails g c sqid cid ring f) :
    ∃ c', nvmeAbortReq g c sqid cid ring = .ok c' ∧ Inv g tidy c' busy := by
  unfold nvmeAbortReq
  cases hcheck : nvmeCheckSqid g c sqid with
  | none => exact ⟨c, rfl, h⟩
  | some p =>
      obtain ⟨s, hs, -⟩ := h.shape.checked hcheck
      simp only [getSq_eq hs, ok_bind]
      cases hout : s.findOut c.aios p cid with
      | some slot =>
          obtain ⟨c', hc', h', -⟩ :=
            nvmeMiscCb_inv h (SQueue.of_findOut hout) hs
          exact ⟨c', hc', h'⟩
      | none =>
          cases hentry : s.findEntry ring cid with
          | error f =>
              exact absurd ⟨p, s, hcheck, hs, hout,
                .inl (SQueue.findEntry_error_iff.1 hentry)⟩ (hok f)
          | ok found =>
              cases found with
              | false => exact ⟨c, rfl, h⟩
              | true =>
                  simp only [ok_bind, if_true]
                  cases hlist : s.reqList with
                  | nil =>
                      exact absurd ⟨p, s, hcheck, hs, hout,
                        .inr ⟨rfl, hentry, hlist⟩⟩ (hok .nullPointer)
                  | cons slot free =>
                      obtain ⟨htake, hsame⟩ :=
                        takeReq_held h.toHeld hs hlist s rfl rfl cid
                      obtain ⟨s₁, hs₁, -⟩ := hsame.sqs hs
                      obtain ⟨c', hc', hsame', h'⟩ := enqueue_held
                        (r := (p, slot)) htake hs₁ (.refl _) none
                      exact ⟨c', hc', h.same (hsame.trans hsame') h'.reqs⟩

/-- An abort fails when its search does. -/
theorem nvmeAbortReq_fault {sqid : Nat}
    (hfail : AbortFails g c sqid cid ring f) :
    nvmeAbortReq g c sqid cid ring = .error f := by
  obtain ⟨p, s, hcheck, hs, hout, hwhy⟩ := hfail
  unfold nvmeAbortReq
  simp only [hcheck, getSq_eq hs, ok_bind, hout]
  rcases hwhy with hsearch | ⟨rfl, hentry, hlist⟩
  · rw [SQueue.findEntry_error_iff.2 hsearch]
    rfl
  · simp only [hentry, ok_bind, if_true, hlist]

-- ======================================================= admin commands

/-- What a command that is completed leaves to its request. -/
theorem complete_admin (h : Inv g tidy c [slot]) :
    ∃ c', nvmeEnqueueReqCompletion c (0, slot) none = .ok c' ∧
      Inv g tidy c' [] := by
  have hlast : c.adminOut [slot] = c.adminOut [] ++ [slot] := by
    simp only [Ctrl.adminOut, List.append_nil, List.append_assoc]
  have hadmin : (c.sqs 0).isSome := h.admin (by rw [hlast]; simp)
  obtain ⟨s, hs⟩ := Option.isSome_iff_exists.1 hadmin
  have hw : (c.waiting [slot]).Perm ((0, slot) :: c.waiting []) := by
    rw [Ctrl.waiting, hlast, List.map_append, ← List.append_assoc]
    exact List.perm_append_singleton _ _
  obtain ⟨c', hc', hsame, h'⟩ :=
    enqueue_held (r := (0, slot)) h.toHeld hs hw none
  refine ⟨c', hc', h.next hsame.view hsame.dbs hsame.eis hsame.timer
    (hsame.aios ▸ List.Sublist.refl _) ?_ (fun _ => hadmin) ?_⟩
  · rw [hsame.discards]
    exact fun _ => id
  · rw [Ctrl.waiting, Ctrl.adminOut, hsame.aios, hsame.aers, hsame.lost]
    exact h'.reqs

/-- The next asynchronous event. -/
theorem nvmeAerProcessCb_inv (h : Inv g tidy c []) :
    ∃ c', nvmeAerProcessCb c = .ok c' ∧ Inv g tidy c' [] := by
  unfold nvmeAerProcessCb
  cases haers : c.aers with
  | nil => exact ⟨c, rfl, h⟩
  | cons slot aers =>
      have hperm : (c.adminOut []).Perm
          (({ c with aers := aers } : Ctrl).adminOut [slot]) := by
        simp only [Ctrl.adminOut, haers, List.append_nil, List.cons_append,
          ← List.append_assoc]
        exact (List.perm_append_singleton slot _).symm
      refine complete_admin (c := { c with aers := aers }) ?_
      refine h.next rfl rfl rfl rfl (List.Sublist.refl _) (fun _ => id) ?_ ?_
      · exact fun _ => h.admin (by simp [Ctrl.adminOut, haers])
      · exact h.reqs.perm ((hperm.map _).append_left _)

/-- The commands that the controller does not survive, and the faults. -/
def Cmd.Fails (g : Config) (c : Ctrl) (f : Fault) : Cmd → Prop
  | .createSq r => f = .outOfBounds ∧ r.check g c = none ∧
      g.numIoQueues < r.sqid
  | .createCq r => f = .outOfBounds ∧ r.check g c = none ∧
      g.numIoQueues < r.cqid
  | .delSq qid count => f = .divideByZero ∧ DelFails g c qid count
  | .asyncReq => f = .outOfBounds ∧ c.aers.length = g.aerl + 1
  | .abort sqid cid ring => AbortFails g c sqid cid ring f
  | .other none => f = .command
  | _ => False

/-- A queue is deleted while no discard for it is under way. -/
def Cmd.Idle (g : Config) (c : Ctrl) : Cmd → Prop
  | .delSq qid _ => ∀ r ∈ c.discards, nvmeCheckSqid g c qid ≠ some r.1
  | _ => True

/-- A command that completes gives its slot back to the caller. -/
theorem completed_ok {x : Except Fault (Status × Ctrl)}
    (h : ∃ st c', x = .ok (st, c') ∧ Inv g tidy c' [slot]) :
    ∃ st c', completed x = .ok (st, c') ∧
      Inv g tidy c' (if st.isSome then [slot] else []) := by
  obtain ⟨st, c', rfl, h⟩ := h
  exact ⟨some st, c', rfl, h⟩

/-- The request of a command that returns `NVME_NO_COMPLETE` stays out. -/
theorem stranded_ok {x : Except Fault (Option Status × Ctrl)}
    (h : ∃ st c', x = .ok (st, c') ∧ Inv g tidy c' [slot]) :
    ∃ st c', stranded slot x = .ok (st, c') ∧
      Inv g tidy c' (if st.isSome then [slot] else []) := by
  obtain ⟨st, c', rfl, h⟩ := h
  cases st with
  | some st => exact ⟨some st, c', rfl, h⟩
  | none =>
      refine ⟨none, { c' with lost := slot :: c'.lost }, rfl, ?_⟩
      have hperm : (c'.adminOut [slot]).Perm
          (({ c' with lost := slot :: c'.lost } : Ctrl).adminOut []) := by
        refine List.Perm.append_left _ ?_
        rw [List.append_nil]
        exact List.perm_append_singleton slot c'.lost
      have hadmin : (c'.sqs 0).isSome :=
        h.admin (by simp [Ctrl.adminOut])
      exact h.next rfl rfl rfl rfl (List.Sublist.refl _) (fun _ => id)
        (fun _ => hadmin) (h.reqs.perm ((hperm.map _).append_left _))

/-- The request of an event waits for it. -/
theorem nvmeAsyncReq_inv (h : Inv g tidy c [slot])
    (hok : c.aers.length ≠ g.aerl + 1) :
    ∃ st c', nvmeAsyncReq g c slot = .ok (st, c') ∧
      Inv g tidy c' (if st.isSome then [slot] else []) := by
  unfold nvmeAsyncReq
  by_cases hlimit : g.aerl + 1 < c.aers.length
  · exact ⟨_, c, if_pos hlimit, h⟩
  have hroom : c.aers.length < g.aerl + 1 :=
    Nat.lt_of_le_of_ne (Nat.not_lt.1 hlimit) hok
  have hadmin : (c.sqs 0).isSome := h.admin (by simp [Ctrl.adminOut])
  refine ⟨none, { c with aers := slot :: c.aers }, ?_, ?_⟩
  · rw [if_neg hlimit, if_pos hroom, modAerTimer, if_pos (h.timer hadmin)]
    rfl
  · have hperm : (c.adminOut [slot]).Perm
        (({ c with aers := slot :: c.aers } : Ctrl).adminOut []) := by
      simp only [Ctrl.adminOut, List.append_nil, List.cons_append,
        ← List.append_assoc]
      exact List.perm_append_singleton slot _
    exact h.next rfl rfl rfl rfl (List.Sublist.refl _) (fun _ => id)
      (fun _ => hadmin) (h.reqs.perm ((hperm.map _).append_left _))

/-- A command that does not fail, by its opcode. -/
theorem nvmeAdminCmd_inv (h : Inv g tidy c [slot]) {cmd : Cmd}
    (hcmd : ∀ f, ¬ cmd.Fails g c f) (hidle : tidy → cmd.Idle g c) :
    ∃ st c', nvmeAdminCmd g c slot cmd = .ok (st, c') ∧
      Inv g tidy c' (if st.isSome then [slot] else []) := by
  cases cmd with
  | createSq r =>
      exact completed_ok (nvmeCreateSq_inv h fun hcheck =>
        Nat.not_lt.1 fun hlt => hcmd _ ⟨rfl, hcheck, hlt⟩)
  | createCq r =>
      exact stranded_ok (nvmeCreateCq_inv h fun hcheck =>
        Nat.not_lt.1 fun hlt => hcmd _ ⟨rfl, hcheck, hlt⟩)
  | delSq qid count =>
      rcases nvmeDelSq_spec h qid count hidle with ⟨-, hok⟩ | ⟨hfail, -⟩
      · exact completed_ok hok
      · exact absurd ⟨rfl, hfail⟩ (hcmd .divideByZero)
  | delCq qid => exact completed_ok (nvmeDelCq_inv h qid)
  | asyncReq => exact nvmeAsyncReq_inv h fun hlen => hcmd _ ⟨rfl, hlen⟩
  | abort sqid cid ring =>
      obtain ⟨c', hc', h'⟩ := nvmeAbortReq_inv h hcmd
      refine completed_ok ⟨.success, c', ?_, h'⟩
      rw [hc']
      rfl
  | setDbMemory dbs eis => exact completed_ok (nvmeSetDbMemory_inv h dbs eis)
  | other st =>
      cases st with
      | some st => exact ⟨some st, c, rfl, h⟩
      | none => exact absurd rfl (hcmd .command)

/-- A command that fails, by its opcode. -/
theorem nvmeAdminCmd_fault (h : Inv g tidy c busy) (slot : Nat) {cmd : Cmd}
    (hcmd : cmd.Fails g c f) :
    nvmeAdminCmd g c slot cmd = .error f := by
  cases cmd with
  | createSq r =>
      obtain ⟨rfl, hcheck, hlt⟩ := hcmd
      obtain ⟨⟨-, q, hq⟩, -⟩ := CreateSq.check_eq_none hcheck
      obtain ⟨-, hq⟩ := nvmeCheckCqid_eq_some.1 hq
      obtain ⟨info, hinfo, -⟩ := h.shape.cqs.named hq
      obtain ⟨t, ht, rfl⟩ := cqs_of_view hinfo
      have hinit : nvmeInitSq g { c with fresh := c.fresh + 1 } c.fresh r.sqid
          r.cqid (queueSize r.qsize) r.contig = .error .outOfBounds := by
        unfold nvmeInitSq
        simp only [show c.cq r.cqid = some q from hq, getCq, ht, ok_bind]
        exact if_neg (Nat.not_le.2 hlt)
      unfold nvmeAdminCmd nvmeCreateSq
      simp only [hcheck, malloc, hinit]
      rfl
  | createCq r =>
      obtain ⟨rfl, hcheck, hlt⟩ := hcmd
      unfold nvmeAdminCmd nvmeCreateCq
      simp only [hcheck, hlt, if_true]
      rfl
  | delSq qid count =>
      obtain ⟨rfl, hfail⟩ := hcmd
      have hno : Inv g False c busy := { h with live := False.elim }
      rcases nvmeDelSq_spec hno qid count False.elim with ⟨hok, -⟩ | ⟨-, hf⟩
      · exact absurd hfail hok
      · simp only [nvmeAdminCmd, hf]
        rfl
  | asyncReq =>
      obtain ⟨rfl, hlen⟩ := hcmd
      unfold nvmeAdminCmd nvmeAsyncReq
      rw [hlen, if_neg (Nat.lt_irrefl _), if_neg (Nat.lt_irrefl _)]
  | abort sqid cid ring =>
      simp only [nvmeAdminCmd, nvmeAbortReq_fault hcmd]
      rfl
  | other st =>
      cases st with
      | some st => cases hcmd
      | none =>
          cases hcmd
          rfl
  | delCq qid => cases hcmd
  | setDbMemory dbs eis => cases hcmd

-- ====================================================== the admin queue

/-- The request of an admin command is taken. -/
theorem takeReq_admin (h : Inv g tidy c []) (hs : c.sqs 0 = some s)
    {free : List Nat} (hlist : s.reqList = slot :: free) (cid : Nat) :
    Inv g tidy (takeReq c 0 (nvmeIncSqHead s) slot free cid) [slot] := by
  obtain ⟨htake, hsame⟩ :=
    takeReq_held h.toHeld hs hlist (nvmeIncSqHead s) rfl rfl cid
  refine h.next hsame.view rfl rfl rfl (List.Sublist.refl _) (fun _ => id)
    ?_ ?_
  · intro _
    rw [hs]
    rfl
  · refine htake.reqs.perm ?_
    simp only [Ctrl.waiting, Ctrl.adminOut, List.append_nil, List.map_append,
      List.map_cons, List.map_nil, ← List.append_assoc]
    exact (List.perm_append_singleton (0, slot) _).symm

/-- With the completion of the command enqueued, no request is busy. -/
theorem runAdmin_inv (h : Inv g tidy c [slot]) {cmd : Cmd}
    (hcmd : ∀ f, ¬ cmd.Fails g c f) (hidle : tidy → cmd.Idle g c) :
    ∃ c', runAdmin g c slot cmd = .ok c' ∧ Inv g tidy c' [] := by
  obtain ⟨st, c₁, hc₁, h₁⟩ := nvmeAdminCmd_inv h hcmd hidle
  unfold runAdmin
  simp only [hc₁, ok_bind]
  cases st with
  | none => exact ⟨c₁, rfl, h₁⟩
  | some st => exact complete_admin h₁

/-- An entry of the admin queue holds a command that fails. -/
def AdminFails (g : Config) (c : Ctrl) (e : Entry Cmd) (f : Fault) : Prop :=
  ∃ s slot free cid cmd, e = .cmd cid cmd ∧ c.sqs 0 = some s ∧
    s.head ≠ s.tail ∧ s.reqList = slot :: free ∧
    cmd.Fails g (takeReq c 0 (nvmeIncSqHead s) slot free cid) f

/-- An aborted entry is skipped; any other is a command. -/
def Entry.Idle (g : Config) (c : Ctrl) : Entry Cmd → Prop
  | .aborted => True
  | .cmd _ a => a.Idle g c

/-- What an entry of the admin queue leads to. -/
theorem nvmeProcessSqAdmin_spec (h : Inv g tidy c []) (e : Entry Cmd)
    (hidle : tidy → e.Idle g c) :
    (∃ c', nvmeProcessSqAdmin g c e = .ok c' ∧ Inv g tidy c' []) ∨
      ∃ f, AdminFails g c e f := by
  unfold nvmeProcessSqAdmin
  cases hs : c.sqs 0 with
  | none => exact .inl ⟨c, rfl, h⟩
  | some s =>
      dsimp only
      by_cases hempty : s.head = s.tail
      · exact .inl ⟨c, if_pos hempty, h⟩
      rw [if_neg hempty]
      cases hlist : s.reqList with
      | nil => exact .inl ⟨c, rfl, h⟩
      | cons slot free =>
          have haddr : entryAddr s.contig = .ok () :=
            if_pos ((h.shape.sq_fits (view_sqs hs)).contig rfl)
          simp only [haddr, ok_bind]
          cases e with
          | aborted =>
              exact .inl ⟨_, rfl, h.setSq hs (nvmeIncSqHead s) rfl rfl rfl⟩
          | cmd cid cmd =>
              by_cases hfail : ∃ f, cmd.Fails g
                  (takeReq c 0 (nvmeIncSqHead s) slot free cid) f
              · obtain ⟨f, hf⟩ := hfail
                exact .inr ⟨f, s, slot, free, cid, cmd, rfl, hs, hempty, hlist,
                  hf⟩
              · refine .inl (runAdmin_inv (takeReq_admin h hs hlist cid)
                  (fun f hf => hfail ⟨f, hf⟩) fun ht => ?_)
                cases cmd with
                | delSq qid count => exact hidle ht
                | _ => trivial

/-- The entry that is taken is the one that fails. -/
theorem nvmeProcessSqAdmin_fault (h : Inv g tidy c []) {e : Entry Cmd}
    (hfail : AdminFails g c e f) : nvmeProcessSqAdmin g c e = .error f := by
  obtain ⟨s, slot, free, cid, cmd, rfl, hs, hne, hlist, hcmd⟩ := hfail
  have hfault :=
    nvmeAdminCmd_fault (takeReq_admin h hs hlist cid) slot hcmd
  have haddr : entryAddr s.contig = .ok () :=
    if_pos ((h.shape.sq_fits (view_sqs hs)).contig rfl)
  unfold nvmeProcessSqAdmin
  simp only [hs, if_neg hne, hlist, haddr, ok_bind]
  unfold runAdmin
  rw [hfault]
  rfl

-- =============================================================== resets

/-- Every submission queue is freed, and nothing else is touched. -/
theorem free_sqs (h : Shape g.numIoQueues c.view) :
    ∃ c', (List.range (g.numIoQueues + 1)).foldlM freeSqAt c = .ok c' ∧
      c' = { c with sq := c'.sq, sqs := c'.sqs } ∧
      (∀ i, c'.view.sq i = none) ∧ ∀ p, c'.view.sqs p = none := by
  refine Registry.free_all (fun c => c.view.sq) (fun c => c.view.sqs) freeSqAt
    (fun c c' => c' = { c with sq := c'.sq, sqs := c'.sqs })
    (fun _ => rfl) ?_ ?_ ?_ h.sqs ?_
  · intro c₁ c₂ c₃ h₁ h₂
    rw [h₁] at h₂
    exact h₂
  · intro c₁ i hi
    unfold freeSqAt
    rw [show c₁.sq i = none from hi]
  · intro c₁ i p info hp hinfo hid
    obtain ⟨s, hs, rfl⟩ := sqs_of_view hinfo
    unfold freeSqAt
    rw [show c₁.sq i = some p from hp]
    refine ⟨_, nvmeFreeSq_eq hs, rfl, ?_, ?_⟩
    · rw [view_freeSq, hid]
    · rw [view_freeSq]
  · exact h.sq_le.mono fun i _ _ hi =>
      List.mem_range.2 (Nat.lt_succ_of_le hi)

/-- The loop over the table, by induction on the ids done. -/
theorem free_cqs (h : Registry CqInfo.cqid c.view.cq c.view.cqs)
    (hle : Each (fun i _ => i ≤ g.numIoQueues) c.view.cq) :
    ∃ c', (List.range (g.numIoQueues + 1)).foldlM freeCqAt c = .ok c' ∧
      c' = { c with cq := c'.cq, cqs := c'.cqs } ∧
      (∀ i, c'.view.cq i = none) ∧ ∀ q, c'.view.cqs q = none := by
  refine Registry.free_all (fun c => c.view.cq) (fun c => c.view.cqs) freeCqAt
    (fun c c' => c' = { c with cq := c'.cq, cqs := c'.cqs })
    (fun _ => rfl) ?_ ?_ ?_ h ?_
  · intro c₁ c₂ c₃ h₁ h₂
    rw [h₁] at h₂
    exact h₂
  · intro c₁ i hi
    unfold freeCqAt
    rw [show c₁.cq i = none from hi]
  · intro c₁ i q info hq hinfo hid
    obtain ⟨t, ht, rfl⟩ := cqs_of_view hinfo
    unfold freeCqAt
    rw [show c₁.cq i = some q from hq]
    refine ⟨_, nvmeFreeCq_eq ht, rfl, ?_, ?_⟩
    · rw [view_freeCq, hid]
    · rw [view_freeCq]
  · exact hle.mono fun i _ _ hi => List.mem_range.2 (Nat.lt_succ_of_le hi)

/-- After a reset there is no queue. What was waiting for the block layer
is not cancelled. -/
theorem nvmeClearCtrl_inv (h : Inv g tidy c [])
    (hidle : tidy → c.callbacks = []) :
    ∃ c', nvmeClearCtrl g c = .ok c' ∧ Inv g tidy c' [] ∧
      c'.callbacks = c.callbacks := by
  obtain ⟨c₁, hc₁, hrest₁, hsq, hsqs⟩ := free_sqs h.shape
  have hcqs₁ : c₁.view.cqs = c.view.cqs := by rw [hrest₁]; rfl
  have hcq₁ : c₁.view.cq = c.view.cq := by rw [hrest₁]; rfl
  obtain ⟨c₂, hc₂, hrest₂, hcq, hcqs⟩ := free_cqs (g := g) (c := c₁)
    (by rw [hcq₁, hcqs₁]; exact h.shape.cqs) (by rw [hcq₁]; exact h.shape.cq_le)
  have haios : c₂.aios = c.aios := by rw [hrest₂, hrest₁]
  have hcall : c₂.callbacks = c.callbacks := by rw [hrest₂, hrest₁]; rfl
  have hfresh : c₂.fresh = c.fresh := by rw [hrest₂, hrest₁]
  have hsq₂ : c₂.view.sq = c₁.view.sq := by rw [hrest₂]; rfl
  have hsqs₂ : c₂.view.sqs = c₁.view.sqs := by rw [hrest₂]; rfl
  have hnosq : ∀ p, c₂.view.sqs p = none := fun p => by rw [hsqs₂, hsqs]
  -- the callbacks of the freed queues' requests are still due; that is why a
  -- tidy reset must wait for them
  refine ⟨{ c₂ with
    cc := ⟨false, false⟩, aers := [], lost := [], aerTimer := false }, ?_, ?_,
    hcall⟩
  · simp only [nvmeClearCtrl, hc₁, hc₂, ok_bind]
  · exact
      { shape := .empty (fun i => by rw [← hsq i, ← hsq₂]; rfl) hcq hnosq hcqs
        bells := ⟨.empty hnosq, .empty hcqs⟩
        reqs := .empty (fun p => Option.map_eq_none_iff.1 (hnosq p))
          fun q => Option.map_eq_none_iff.1 (hcqs q)
        callbacks := by
          intro r hr
          dsimp only
          rw [hfresh]
          exact h.callbacks r (hcall ▸ hr)
        aios_nodup := by
          dsimp only
          rw [haios]
          exact h.aios_nodup
        live := by
          intro ht r hr
          have hr : r ∈ c.callbacks := hcall ▸ hr
          rw [hidle ht] at hr
          cases hr
        admin := fun hne => absurd rfl hne
        timer := by
          intro hlive
          rw [Option.map_eq_none_iff.1 (hnosq 0)] at hlive
          cases hlive
        fresh := by
          dsimp only
          rw [hfresh]
          exact h.fresh }

/-- The registers are not in the invariant. -/
theorem Inv.registers (h : Inv g tidy c busy) (cc : Cc) (csts : Csts) :
    Inv g tidy { c with cc := cc, csts := csts } busy :=
  h.change rfl rfl rfl rfl h.shape h.bells h.reqs (Nat.le_refl _)
    (fun _ _ _ => id) id h.timer

/-- The timer for events can be made before the admin queue as well. -/
theorem nvmeInitSq_timer (c : Ctrl) (p i j size : Nat) (contig timer : Bool) :
    nvmeInitSq g { c with aerTimer := timer } p i j size contig =
      (nvmeInitSq g c p i j size contig).map
        ({ · with aerTimer := timer }) := by
  unfold nvmeInitSq
  dsimp only
  cases c.cq j with
  | none => rfl
  | some q =>
      dsimp only [getCq]
      cases c.cqs q with
      | none => rfl
      | some t =>
          simp only [ok_bind]
          split
          · rfl
          · rfl

/-- Starting the controller makes the admin queues, unless they are there
already. -/
theorem nvmeStartCtrl_inv (h : Inv g tidy c []) (regs : Regs) :
    ∃ ok c', nvmeStartCtrl g c regs = .ok (ok, c') ∧ Inv g tidy c' [] ∧
      c'.callbacks = c.callbacks := by
  unfold nvmeStartCtrl
  split
  · exact ⟨false, c, rfl, h, rfl⟩
  · next hfree =>
    have hcq : c.cq 0 = none := Option.not_isSome_iff_eq_none.1 fun h =>
      hfree (.inl h)
    have hsq : c.sq 0 = none := Option.not_isSome_iff_eq_none.1 fun h =>
      hfree (.inr (.inl h))
    have hcqs : c.cqs 0 = none := by
      refine Option.eq_none_iff_forall_not_mem.2 fun t ht => ?_
      have hlisted := h.shape.cqs.listed (view_cqs ht)
      rw [(h.shape.cq_fits (view_cqs ht)).zero.1 rfl] at hlisted
      exact Option.some_ne_none 0 (hlisted.symm.trans hcq)
    have hsqs : c.sqs 0 = none := by
      refine Option.eq_none_iff_forall_not_mem.2 fun s hs => ?_
      have hlisted := h.shape.sqs.listed (view_sqs hs)
      rw [(h.shape.sq_fits (view_sqs hs)).zero.1 rfl] at hlisted
      exact Option.some_ne_none 0 (hlisted.symm.trans hsq)
    obtain ⟨c₁, hc₁, h₁, haside₁, hsq₁, hsqs₁, hcq₁, hcqs₁⟩ :=
      nvmeInitCq_inv h (regs.acqs + 1) true hcq hcqs (Nat.zero_le _)
        (Iff.refl (0 = 0)) h.fresh (Nat.le_refl _)
    -- without an admin queue none of its requests is out
    have hout : c₁.adminOut [] = [] := by
      refine Decidable.not_not.1 fun hne => ?_
      have hlive := h₁.admin hne
      rw [hsqs₁, hsqs] at hlive
      cases hlive
    have hw : ∀ r ∈ c₁.waiting [], r.1 ≠ 0 := by
      intro r hr
      rw [Ctrl.waiting, hout, List.map_nil, List.append_nil] at hr
      exact (h₁.of_aios hr).1
    have ht : Inv g tidy { c₁ with aerTimer := true } [] :=
      h₁.change rfl rfl rfl rfl h₁.shape h₁.bells h₁.reqs (Nat.le_refl _)
        (fun _ _ _ => id) id fun _ => rfl
    obtain ⟨c₂, hc₂, h₂, haside₂⟩ := nvmeInitSq_inv ht (regs.asqs + 1) true
      (by dsimp only; rw [hsq₁]; exact hsq)
      (by dsimp only; rw [hsqs₁]; exact hsqs) (Nat.zero_le _) hcq₁ hcqs₁
      ⟨Iff.refl (0 = 0), Iff.refl (0 = 0)⟩ (fun _ => ⟨rfl, rfl⟩) ht.fresh
      (Nat.le_refl _) hw
    refine ⟨true, c₂, ?_, h₂, ?_⟩
    · have hmap := (nvmeInitSq_timer (g := g) c₁ 0 0 0 (regs.asqs + 1) true
        true).symm.trans hc₂
      simp only [hc₁, ok_bind]
      cases hinit : nvmeInitSq g c₁ 0 0 0 (regs.asqs + 1) true with
      | error f =>
          rw [hinit] at hmap
          cases hmap
      | ok c₃ =>
          rw [hinit] at hmap
          cases hmap
          rfl
    · rw [Ctrl.callbacks, haside₂.aios, haside₂.discards]
      dsimp only
      rw [haside₁.aios, haside₁.discards]
      rfl

/-- A write of `CC.EN`: enabling starts the controller, disabling clears
it. -/
theorem writeEn_inv (h : Inv g tidy c []) (data : Cc) (regs : Regs)
    (hidle : tidy → c.callbacks = []) :
    ∃ c', writeEn g c data regs = .ok c' ∧ Inv g tidy c' [] ∧
      c'.callbacks = c.callbacks := by
  unfold writeEn
  split
  · obtain ⟨ok, c', hc', h', hcall⟩ :=
      nvmeStartCtrl_inv (h.registers data c.csts) regs
    simp only [hc', ok_bind]
    exact ⟨_, rfl, h'.registers _ _, hcall⟩
  · split
    · obtain ⟨c', hc', h', hcall⟩ := nvmeClearCtrl_inv h hidle
      simp only [hc', ok_bind]
      exact ⟨_, rfl, h'.registers _ _, hcall⟩
    · exact ⟨c, rfl, h, rfl⟩

/-- Writes to `CC` always succeed. -/
theorem nvmeWriteCc_inv (h : Inv g tidy c []) (data : Cc) (regs : Regs)
    (hidle : tidy → c.callbacks = []) :
    ∃ c', nvmeWriteCc g c data regs = .ok c' ∧ Inv g tidy c' [] := by
  obtain ⟨c₁, hc₁, h₁, hcall₁⟩ := writeEn_inv h data regs hidle
  unfold nvmeWriteCc
  rw [hc₁, ok_bind]
  unfold writeShn
  split
  · obtain ⟨c', hc', h', -⟩ := nvmeClearCtrl_inv h₁ (hcall₁ ▸ hidle)
    simp only [hc', ok_bind]
    exact ⟨_, rfl, h'.registers _ _⟩
  · split
    · exact ⟨_, rfl, h₁.registers _ _⟩
    · exact ⟨c₁, rfl, h₁⟩

-- =========================================================== doorbells

/-- A doorbell that is refused: there is no such queue, or the index is
beyond it. -/
def Doorbell.Refused (g : Config) (c : Ctrl) : Doorbell → Prop
  | .misaligned => True
  | .cq qid val => ∀ q t, nvmeCheckCqid g c qid = some q →
      c.cqs q = some t → t.size ≤ val
  | .sq qid val => ∀ p s, nvmeCheckSqid g c qid = some p →
      c.sqs p = some s → s.size ≤ val

/-- A refused doorbell is an event, and there is no timer for it. -/
def DoorbellFails (g : Config) (c : Ctrl) (d : Doorbell) : Prop :=
  d.Refused g c ∧ c.csts.ready = true ∧ c.aerTimer = false

/-- What a write to a doorbell does: an event if it is refused, and at most
another tail otherwise. -/
theorem nvmeProcessDb_cases (h : Inv g tidy c busy) (d : Doorbell) :
    (d.Refused g c ∧ nvmeProcessDb g c d = nvmeEnqueueEvent c) ∨
      (¬ d.Refused g c ∧
        ∃ c', nvmeProcessDb g c d = .ok c' ∧ Inv g tidy c' busy) := by
  cases d with
  | misaligned => exact .inl ⟨trivial, rfl⟩
  | cq qid val =>
      dsimp only [nvmeProcessDb, Doorbell.Refused]
      cases hcheck : nvmeCheckCqid g c qid with
      | none => exact .inl ⟨(fun _ _ hq => nomatch hq), rfl⟩
      | some q =>
          obtain ⟨info, hinfo, -⟩ :=
            h.shape.cqs.named (nvmeCheckCqid_eq_some.1 hcheck).2
          obtain ⟨t, ht, rfl⟩ := cqs_of_view hinfo
          simp only [getCq_eq ht, ok_bind]
          -- a value beyond the ring is refused like an id that is not there
          by_cases hval : t.size ≤ val
          · refine .inl ⟨?_, if_pos hval⟩
            rintro _ _ ⟨⟩ ht'
            rw [ht] at ht'
            cases ht'
            exact hval
          · exact .inr ⟨fun hall => hval (hall q t rfl ht), c,
              if_neg hval, h⟩
  | sq qid val =>
      dsimp only [nvmeProcessDb, Doorbell.Refused]
      cases hcheck : nvmeCheckSqid g c qid with
      | none => exact .inl ⟨(fun _ _ hp => nomatch hp), rfl⟩
      | some p =>
          obtain ⟨s, hs, -⟩ := h.shape.checked hcheck
          simp only [getSq_eq hs, ok_bind]
          by_cases hval : s.size ≤ val
          · refine .inl ⟨?_, if_pos hval⟩
            rintro _ _ ⟨⟩ hs'
            rw [hs] at hs'
            cases hs'
            exact hval
          · refine .inr ⟨fun hall => hval (hall p s rfl hs), ?_⟩
            rw [if_neg hval]
            split
            · exact ⟨_, rfl, h.setSq hs { s with tail := val } rfl rfl rfl⟩
            · exact ⟨c, rfl, h⟩

/-- The timer is needed only once the controller is ready. -/
theorem nvmeEnqueueEvent_ok (hok : ¬ (c.csts.ready = true ∧
    c.aerTimer = false)) : nvmeEnqueueEvent c = .ok c := by
  unfold nvmeEnqueueEvent modAerTimer
  split
  · next hready =>
    exact if_pos (Bool.not_eq_false _ ▸ fun htimer => hok ⟨hready, htimer⟩)
  · rfl

/-- A doorbell that is refused, or rings a queue that is there. -/
theorem nvmeProcessDb_inv (h : Inv g tidy c busy) {d : Doorbell}
    (hok : ¬ DoorbellFails g c d) :
    ∃ c', nvmeProcessDb g c d = .ok c' ∧ Inv g tidy c' busy := by
  rcases nvmeProcessDb_cases h d with ⟨href, heq⟩ | ⟨-, hdone⟩
  · refine ⟨c, ?_, h⟩
    rw [heq, nvmeEnqueueEvent_ok fun hfail => hok ⟨href, hfail⟩]
  · exact hdone

/-- The event of a refused doorbell needs the timer of the event queue. -/
theorem nvmeProcessDb_fault (h : Inv g tidy c busy) {d : Doorbell}
    (hfail : DoorbellFails g c d) :
    nvmeProcessDb g c d = .error .nullPointer := by
  obtain ⟨href, hready, htimer⟩ := hfail
  rcases nvmeProcessDb_cases h d with ⟨-, heq⟩ | ⟨hno, -⟩
  · rw [heq, nvmeEnqueueEvent, if_pos hready, modAerTimer, htimer]
    rfl
  · exact absurd href hno

-- =============================================================== polls

/-- A poll fails: the first entry of a queue in pieces is fetched, or a
command that is fetched does. -/
def PollFails (c : Ctrl) (p tail : Nat) (found : List (Entry Verdict))
    (f : Fault) : Prop :=
  ∃ s, p ≠ 0 ∧ c.sqs p = some s ∧
    ((f = .divideByZero ∧ s.contig = false ∧ found ≠ [] ∧
        Fetches (setSq c p (nvmeUpdateSqTail s tail)) p) ∨
      (f = .command ∧ s.contig = true ∧
        MeetsCrash p found (setSq c p (nvmeUpdateSqTail s tail))))

/-- The tail of a queue is not among what is kept in order. -/
theorem updateSqTail_inv (h : Inv g tidy c busy) (hs : c.sqs p = some s)
    (tail : Nat) :
    Inv g tidy (setSq c p (nvmeUpdateSqTail s tail)) busy ∧
      (setSq c p (nvmeUpdateSqTail s tail)).sqs p
        = some (nvmeUpdateSqTail s tail) ∧
      (nvmeUpdateSqTail s tail).contig = s.contig := by
  obtain ⟨k, hk⟩ : ∃ k, nvmeUpdateSqTail s tail = { s with tail := k } := by
    unfold nvmeUpdateSqTail
    split
    · exact ⟨tail, rfl⟩
    · exact ⟨s.tail, rfl⟩
  rw [hk]
  exact ⟨h.setSq hs _ rfl rfl rfl, Table.get_set_self .., rfl⟩

/-- What a poll of a submission queue leads to. -/
theorem nvmeProcessSqIo_spec (h : Inv g tidy c busy) (hp : p ≠ 0)
    (hs : c.sqs p = some s) (tail : Nat) (found : List (Entry Verdict)) :
    (∃ c', nvmeProcessSqIo c p tail found = .ok c' ∧ Inv g tidy c' busy) ∨
      ∃ f, PollFails c p tail found f := by
  obtain ⟨hset, hs', hcontig⟩ := updateSqTail_inv h hs tail
  by_cases hpieces : s.contig = false ∧ found ≠ [] ∧
      Fetches (setSq c p (nvmeUpdateSqTail s tail)) p
  · exact .inr ⟨_, s, hp, hs, .inl ⟨rfl, hpieces⟩⟩
  by_cases hmeets : MeetsCrash p found (setSq c p (nvmeUpdateSqTail s tail))
  · refine .inr ⟨_, s, hp, hs, .inr ⟨rfl, ?_, hmeets⟩⟩
    refine Bool.not_eq_false _ ▸ fun hfalse => ?_
    obtain ⟨es₁, cid, es₂, c₁, rfl, hrun, hfetch⟩ := hmeets
    by_cases hfirst : Fetches (setSq c p (nvmeUpdateSqTail s tail)) p
    · exact hpieces ⟨hfalse, List.append_ne_nil_of_right_ne_nil _ nofun, hfirst⟩
    · rw [sqIoLoop_stop hs' hfirst] at hrun
      cases hrun
      exact hfirst hfetch
  · left
    unfold nvmeProcessSqIo
    rw [getSq_eq hs, ok_bind]
    refine sqIoLoop_inv hset hp hs' (fun hfound hfetch => ?_) hmeets
    rw [hcontig]
    exact Bool.not_eq_false _ ▸ fun hfalse => hpieces ⟨hfalse, hfound, hfetch⟩

/-- The poll fails at the first entry that does. -/
theorem nvmeProcessSqIo_fault (h : Inv g tidy c busy)
    {tail : Nat} {found : List (Entry Verdict)}
    (hfail : PollFails c p tail found f) :
    nvmeProcessSqIo c p tail found = .error f := by
  obtain ⟨s, hp, hs, hwhy⟩ := hfail
  obtain ⟨hset, hs', hcontig⟩ := updateSqTail_inv h hs tail
  unfold nvmeProcessSqIo
  rw [getSq_eq hs, ok_bind]
  rcases hwhy with ⟨rfl, hfalse, hfound, hfetch⟩ | ⟨rfl, htrue, hmeets⟩
  · exact sqIoLoop_address hs' hfetch (hcontig.trans hfalse) hfound
  · exact sqIoLoop_crash hset hp hs' (hcontig.trans htrue) hmeets

-- ================================================================ steps

/-- The steps that the controller does not survive, and the faults. -/
def Step.Fails (g : Config) (c : Ctrl) (f : Fault) : Step → Prop
  | .writeCc _ _ => False
  | .doorbell d => f = .nullPointer ∧ DoorbellFails g c d
  | .admin e => AdminFails g c e f
  | .pollSq p tail found => PollFails c p tail found f
  | .pollCq q count => f = .divideByZero ∧
      ∃ t, c.cqs q = some t ∧ PostFails t.toCqInfo t.reqList count
  | .miscCb r => f = .useAfterFree ∧ r ∈ c.aios ∧ c.sqs r.1 = none
  | .discardCb r => f = .useAfterFree ∧ r ∈ c.discards ∧ c.sqs r.1 = none
  | .aer => False

/-- `CC` is only written while nothing is under way, and a queue deleted
while no discard for it is. -/
def Step.Idle (g : Config) (c : Ctrl) : Step → Prop
  | .writeCc _ _ => c.callbacks = []
  | .admin e => e.Idle g c
  | _ => True

/-- A step fails or keeps the controller in order. -/
theorem step_spec (h : Inv g tidy c []) (e : Step)
    (hidle : tidy → e.Idle g c) :
    (∃ c', step g c e = .ok c' ∧ Inv g tidy c' []) ∨ ∃ f, e.Fails g c f := by
  cases e with
  | writeCc data regs => exact .inl (nvmeWriteCc_inv h data regs hidle)
  | doorbell d =>
      by_cases hfail : DoorbellFails g c d
      · exact .inr ⟨_, rfl, hfail⟩
      · exact .inl (nvmeProcessDb_inv h hfail)
  | admin e => exact nvmeProcessSqAdmin_spec h e hidle
  | pollSq p tail found =>
      unfold step
      by_cases hp : (c.sqs p).isSome ∧ p ≠ 0
      · obtain ⟨s, hs⟩ := Option.isSome_iff_exists.1 hp.1
        rcases nvmeProcessSqIo_spec h hp.2 hs tail found with
          ⟨c', hc', h'⟩ | hfail
        · exact .inl ⟨c', (if_pos hp).trans hc', h'⟩
        · exact .inr hfail
      · exact .inl ⟨c, if_neg hp, h⟩
  | pollCq q count =>
      unfold step
      by_cases hq : (c.cqs q).isSome
      · obtain ⟨t, ht⟩ := Option.isSome_iff_exists.1 hq
        by_cases hfail : PostFails t.toCqInfo t.reqList count
        · exact .inr ⟨_, rfl, t, ht, hfail⟩
        · obtain ⟨c', hc', -, h'⟩ := nvmePostCqes_inv h ht count hfail
          exact .inl ⟨c', (if_pos hq).trans hc', h'⟩
      · exact .inl ⟨c, if_neg hq, h⟩
  | miscCb r =>
      unfold step
      by_cases hr : r ∈ c.aios
      · cases hs : c.sqs r.1 with
        | none => exact .inr ⟨_, rfl, hr, hs⟩
        | some s =>
            obtain ⟨c', hc', h', -⟩ := nvmeMiscCb_inv h hr hs
            exact .inl ⟨c', (if_pos hr).trans hc', h'⟩
      · exact .inl ⟨c, if_neg hr, h⟩
  | discardCb r =>
      unfold step
      by_cases hr : r ∈ c.discards
      · cases hs : c.sqs r.1 with
        | none => exact .inr ⟨_, rfl, hr, hs⟩
        | some s =>
            obtain ⟨c', hc', h'⟩ := nvmeDiscardCb_inv h hs
            exact .inl ⟨c', (if_pos hr).trans hc', h'⟩
      · exact .inl ⟨c, if_neg hr, h⟩
  | aer => exact .inl (nvmeAerProcessCb_inv h)

/-- Each kind of step fails as its handler does. -/
theorem step_fault (h : Inv g tidy c []) {e : Step} (he : e.Fails g c f) :
    step g c e = .error f := by
  cases e with
  | writeCc data regs => cases he
  | doorbell d =>
      obtain ⟨rfl, hfail⟩ := he
      exact nvmeProcessDb_fault h hfail
  | admin e => exact nvmeProcessSqAdmin_fault h he
  | pollSq p tail found =>
      obtain ⟨s, hp, hs, -⟩ := id he
      refine (if_pos ⟨?_, hp⟩).trans (nvmeProcessSqIo_fault h he)
      rw [hs]
      rfl
  | pollCq q count =>
      obtain ⟨rfl, t, ht, hfail⟩ := he
      refine (if_pos ?_).trans (postCqes_fault ht hfail)
      rw [ht]
      rfl
  | miscCb r =>
      obtain ⟨rfl, hr, hs⟩ := he
      unfold step nvmeMiscCb nvmeEnqueueReqCompletion getSq
      simp only [hr, hs, if_true]
      rfl
  | discardCb r =>
      obtain ⟨rfl, hr, hs⟩ := he
      unfold step nvmeDiscardCb getSq
      simp only [hr, hs, if_true]
      rfl
  | aer => cases he

theorem new_inv : Inv g tidy .new [] where
  shape := .empty (fun _ => rfl) (fun _ => rfl) (fun _ => rfl) fun _ => rfl
  bells := ⟨.empty fun _ => rfl, .empty fun _ => rfl⟩
  reqs := .empty (fun _ => rfl) fun _ => rfl
  callbacks := nofun
  aios_nodup := List.nodup_nil
  live := nofun
  admin := fun hne => absurd rfl hne
  timer := nofun
  fresh := Nat.zero_lt_one

/-- What holds after every run. -/
theorem run_inv {steps : List Step} (h : run g .new steps = .ok c) :
    Inv g False c [] := by
  refine runs.invariant (P := fun c => Inv g False c []) ?_ new_inv h
  intro c e c' h hstep
  rcases step_spec h e nofun with ⟨c₁, hc₁, h₁⟩ | ⟨f, hf⟩
  · rw [hc₁] at hstep
    cases hstep
    exact h₁
  · rw [step_fault h hf] at hstep
    cases hstep

end FemuRemap.Lifecycle
