/-
Steps that move requests.

On a controller that is in order (`Inv`) polls and callbacks succeed, and
leave it in order; a callback only if the queue of its request still
exists. The view stays the same all the while (`Same`), and with it
everything that was shown of it.
-/
import FemuRemap.Proofs.Holders

namespace FemuRemap.Lifecycle

open Lib

variable {g : Config} {n p q slot count : Nat} {pos : Option Nat}
  {free : List Nat} {w w' : List Req} {r : Req} {s s' : SQueue}
  {t t' : CQueue} {c c' c'' : Ctrl}

-- ============================================================== lookups

/-- An access to a submission queue that exists. -/
theorem getSq_eq (h : c.sqs p = some s) : getSq c p = .ok s := by
  rw [getSq, h]

/-- An access to a completion queue that exists. -/
theorem getCq_eq (h : c.cqs q = some t) : getCq c q = .ok t := by
  rw [getCq, h]

theorem cqOf_eq {i : Nat} (hq : c.cq i = some q) (ht : c.cqs q = some t) :
    cqOf c i = .ok (q, t) := by
  rw [cqOf, hq]
  dsimp only
  rw [getCq_eq ht]
  rfl

theorem view_sqs (h : c.sqs p = some s) :
    c.view.sqs p = some s.toSqInfo := by
  show (c.sqs p).map _ = _
  rw [h]
  rfl

theorem view_cqs (h : c.cqs q = some t) :
    c.view.cqs q = some t.toCqInfo := by
  show (c.cqs q).map _ = _
  rw [h]
  rfl

theorem sqs_of_view {i : SqInfo} (h : c.view.sqs p = some i) :
    ∃ s, c.sqs p = some s ∧ s.toSqInfo = i :=
  Option.map_eq_some_iff.1 h

theorem cqs_of_view {i : CqInfo} (h : c.view.cqs q = some i) :
    ∃ t, c.cqs q = some t ∧ t.toCqInfo = i :=
  Option.map_eq_some_iff.1 h

/-- Writing a queue writes its part of the view. -/
theorem view_setSq : (setSq c p s).view =
    { c.view with
      sqs := Function.update c.view.sqs p (some s.toSqInfo) } := by
  unfold Ctrl.view setSq
  congr 1
  funext p'
  dsimp only
  rw [Table.get_set, Function.update_apply]
  split
  · rfl
  · rfl

theorem view_setCq : (setCq c q t).view =
    { c.view with
      cqs := Function.update c.view.cqs q (some t.toCqInfo) } := by
  unfold Ctrl.view setCq
  congr 1
  funext q'
  dsimp only
  rw [Table.get_set, Function.update_apply]
  split
  · rfl
  · rfl

/-- Writing only its contents leaves the view. -/
theorem view_setSq_same (h : c.sqs p = some s) (s' : SQueue)
    (hinfo : s'.toSqInfo = s.toSqInfo) : (setSq c p s').view = c.view := by
  rw [view_setSq, hinfo, ← view_sqs h, Function.update_eq_self]

theorem view_setCq_same (h : c.cqs q = some t) (t' : CQueue)
    (hinfo : t'.toCqInfo = t.toCqInfo) : (setCq c q t').view = c.view := by
  rw [view_setCq, hinfo, ← view_cqs h, Function.update_eq_self]

-- ============================================================ invariants

/-- The shadow doorbells of the queues are where the last command put
them. -/
structure Bells (g : Config) (dbs eis : Nat) (v : View) : Prop where
  sq : Each (fun _ s => s.dbAddr = if s.sqid ≠ 0 ∧ dbs ≠ 0 ∧ eis ≠ 0 then
    sqDoorbell g dbs s.sqid else 0) v.sqs
  cq : Each (fun _ t => t.dbAddr = if t.cqid ≠ 0 ∧ dbs ≠ 0 ∧ eis ≠ 0 then
    cqDoorbell g dbs t.cqid else 0) v.cqs

/-- Requests are in their places, with those in `w` waiting. -/
structure Held (g : Config) (c : Ctrl) (w : List Req) : Prop where
  shape : Shape g.numIoQueues c.view
  bells : Bells g c.dbsAddr c.eisAddr c.view
  reqs : Reqs c.cq c.sqs c.cqs w

/-- What is not in the queues has not changed. -/
structure Aside (c c' : Ctrl) : Prop where
  aios : c'.aios = c.aios
  discards : c'.discards = c.discards
  aers : c'.aers = c.aers
  lost : c'.lost = c.lost
  timer : c'.aerTimer = c.aerTimer
  dbs : c'.dbsAddr = c.dbsAddr
  eis : c'.eisAddr = c.eisAddr

/-- Only requests have moved. -/
structure Same (c c' : Ctrl) : Prop extends Aside c c' where
  view : c'.view = c.view

theorem Aside.refl (c : Ctrl) : Aside c c :=
  ⟨rfl, rfl, rfl, rfl, rfl, rfl, rfl⟩

theorem Aside.trans (h : Aside c c') (h' : Aside c' c'') : Aside c c'' where
  aios := h'.aios.trans h.aios
  discards := h'.discards.trans h.discards
  aers := h'.aers.trans h.aers
  lost := h'.lost.trans h.lost
  timer := h'.timer.trans h.timer
  dbs := h'.dbs.trans h.dbs
  eis := h'.eis.trans h.eis

theorem Same.refl (c : Ctrl) : Same c c := ⟨.refl c, rfl⟩

theorem Same.trans (h : Same c c') (h' : Same c' c'') : Same c c'' :=
  ⟨h.toAside.trans h'.toAside, h'.view.trans h.view⟩

/-- The queues of before are there, with their data. -/
theorem Same.sqs (h : Same c c') (hs : c.sqs p = some s) :
    ∃ s', c'.sqs p = some s' ∧ s'.toSqInfo = s.toSqInfo := by
  apply sqs_of_view
  rw [h.view]
  exact view_sqs hs

theorem Same.cqs (h : Same c c') (ht : c.cqs q = some t) :
    ∃ t', c'.cqs q = some t' ∧ t'.toCqInfo = t.toCqInfo := by
  apply cqs_of_view
  rw [h.view]
  exact view_cqs ht

/-- A request goes from one queue's list to another's. -/
theorem Same.move (hs : c.sqs p = some s) (ht : c.cqs q = some t)
    (s' : SQueue) (t' : CQueue) (hs' : s'.toSqInfo = s.toSqInfo)
    (ht' : t'.toCqInfo = t.toCqInfo) :
    Same c (setCq (setSq c p s') q t') where
  view := (view_setCq_same (c := setSq c p s') ht t' ht').trans
    (view_setSq_same hs s' hs')
  toAside := ⟨rfl, rfl, rfl, rfl, rfl, rfl, rfl⟩

/-- A submission queue is changed in place. -/
theorem Same.setSq (hs : c.sqs p = some s) (s' : SQueue)
    (hinfo : s'.toSqInfo = s.toSqInfo) : Same c (setSq c p s') :=
  ⟨⟨rfl, rfl, rfl, rfl, rfl, rfl, rfl⟩, view_setSq_same hs s' hinfo⟩

/-- The invariant, when only requests moved. -/
theorem Held.same (h : Held g c w) (hsame : Same c c')
    (hreqs : Reqs c'.cq c'.sqs c'.cqs w') : Held g c' w' where
  shape := hsame.view ▸ h.shape
  bells := by
    rw [hsame.view, hsame.dbs, hsame.eis]
    exact h.bells
  reqs := hreqs

/-- The completion queue of a queue that exists. -/
theorem Shape.find (h : Shape n c.view) (hs : c.sqs p = some s) :
    ∃ q t, c.cq s.cqid = some q ∧ c.cqs q = some t ∧ t.cqid = s.cqid := by
  obtain ⟨q, i, hq, ht, -⟩ := h.served (view_sqs hs)
  obtain ⟨t, ht', rfl⟩ := cqs_of_view ht
  exact ⟨q, t, hq, ht', h.cqid_eq hq ht⟩

-- ============================================================== requests

/-- A queue whose requests stay where they are. -/
theorem setSq_held (h : Held g c w) (hs : c.sqs p = some s) (s' : SQueue)
    (hinfo : s'.toSqInfo = s.toSqInfo) (hfree : s'.reqList = s.reqList)
    (hout : s'.outReqList = s.outReqList) : Held g (setSq c p s') w := by
  refine h.same (.setSq hs s' hinfo) ?_
  have hreqs := h.reqs.setSq hs s' (congrArg SqInfo.cqid hinfo)
    (congrArg SqInfo.size hinfo) hfree hout
  rwa [← Table.get_set_eq] at hreqs

/-- The first free request is taken; the head of the queue may move with
it. -/
theorem takeReq_held (h : Held g c w) (hs : c.sqs p = some s)
    (hfree : s.reqList = slot :: free) (s' : SQueue)
    (hinfo : s'.toSqInfo = s.toSqInfo)
    (hout : s'.outReqList = s.outReqList) (cid : Nat) :
    Held g (takeReq c p s' slot free cid) ((p, slot) :: w) ∧
      Same c (takeReq c p s' slot free cid) := by
  have hsame : Same c (takeReq c p s' slot free cid) :=
    .setSq hs _ hinfo
  refine ⟨h.same hsame ?_, hsame⟩
  have hreqs := h.reqs.take hs hfree
    { s' with
      cids := s'.cids.set slot cid
      reqList := free
      outReqList := s'.outReqList ++ [slot] } hinfo rfl (by rw [hout])
  rwa [← Table.get_set_eq] at hreqs

/-- A waiting request goes to its completion queue. -/
theorem enqueue_held (h : Held g c w) (hs : c.sqs r.1 = some s)
    (hw : w.Perm (r :: w')) (pos : Option Nat) :
    ∃ c', nvmeEnqueueReqCompletion c r pos = .ok c' ∧ Same c c' ∧
      Held g c' w' := by
  obtain ⟨q, t, hq, ht, hid⟩ := h.shape.find hs
  have hok : nvmeEnqueueReqCompletion c r pos = .ok
      (setCq (setSq c r.1
          { s with outReqList := s.outReqList.erase r.2 }) q
        { t with
          reqList := t.reqList.insertIdx
            (min (pos.getD t.reqList.length) t.reqList.length) r }) := by
    simp only [nvmeEnqueueReqCompletion, getSq_eq hs, cqOf_eq hq ht, ok_bind]
    exact if_pos hid
  have hsame := Same.move (c := c) hs ht
    { s with outReqList := s.outReqList.erase r.2 }
    { t with
      reqList := t.reqList.insertIdx
        (min (pos.getD t.reqList.length) t.reqList.length) r } rfl rfl
  refine ⟨_, hok, hsame, h.same hsame ?_⟩
  have := h.reqs.enqueue hs hq ht hid hw (Nat.min_le_right
    (pos.getD t.reqList.length) t.reqList.length)
  rwa [← Table.get_set_eq, ← Table.get_set_eq] at this


/-- What was completed is on the list of the completion queue. -/
theorem enqueue_listed (hs : c.sqs r.1 = some s) (hq : c.cq s.cqid = some q)
    (ht : c.cqs q = some t)
    (hok : nvmeEnqueueReqCompletion c r pos = .ok c') :
    ∃ t', c'.cqs q = some t' ∧ t'.toCqInfo = t.toCqInfo ∧
      t'.reqList ≠ [] := by
  simp only [nvmeEnqueueReqCompletion, getSq_eq hs, cqOf_eq hq ht, ok_bind]
    at hok
  split at hok
  · cases hok
    refine ⟨_, Table.get_set_self .., rfl, ?_⟩
    have hins := List.perm_insertIdx r t.reqList
      (Nat.min_le_right (pos.getD t.reqList.length) t.reqList.length)
    intro hnil
    dsimp only at hnil
    rw [hnil] at hins
    exact absurd hins.symm.eq_nil nofun
  · cases hok

/-- Posting `count` completions from this list fails: there is one, and
the queue has no size; or one is posted, and the queue is in pieces. -/
def PostFails (t : CqInfo) (waiting : List Req) (count : Nat) : Prop :=
  waiting ≠ [] ∧ (t.size = 0 ∨ (t.contig = false ∧ count ≠ 0))

/-- Posting asks for less than that everything is in order: the arrays
have to lead to the completion queues. -/
theorem postCqes_reqs (hcqs : Registry CqInfo.cqid c.view.cq c.view.cqs)
    (h : Reqs c.cq c.sqs c.cqs w) (ht : c.cqs q = some t) (count : Nat)
    (hok : ¬ PostFails t.toCqInfo t.reqList count) :
    ∃ c', nvmePostCqes q count c = .ok c' ∧ Same c c' ∧
      Reqs c'.cq c'.sqs c'.cqs w := by
  induction count generalizing c t with
  | zero =>
      refine ⟨c, ?_, .refl c, h⟩
      -- a stop of the loop still asks whether the ring is full
      rw [nvmePostCqes, getCq_eq ht, ok_bind]
      by_cases hlist : t.reqList = []
      · exact if_pos hlist
      · rw [if_neg hlist, nvmeCqFull,
          if_neg fun hsize => hok ⟨hlist, .inl hsize⟩]
        rfl
  | succ count ih =>
      cases hlist : t.reqList with
      | nil =>
          refine ⟨c, ?_, .refl c, h⟩
          simp only [nvmePostCqes, getCq_eq ht, ok_bind, hlist]
      | cons r rest =>
          rw [hlist] at hok
          have hsize : t.size ≠ 0 := fun hsize =>
            hok ⟨nofun, .inl hsize⟩
          -- a queue that is not contiguous has no address for the entry
          have hcontig : t.contig = true := Bool.eq_true_of_not_eq_false
            fun hcontig => hok ⟨nofun, .inr ⟨hcontig, nofun⟩⟩
          obtain ⟨s, hs, hid⟩ := h.owner ht r (hlist ▸ List.mem_cons_self)
          have hq : c.cq s.cqid = some q := by
            rw [hid]
            exact hcqs.listed (view_cqs ht)
          have hpost : nvmePostCqe c q t r rest = .ok
              (setCq (setSq c r.1 { s with reqList := s.reqList ++ [r.2] }) q
                { t with reqList := rest }) := by
            rw [nvmePostCqe, entryAddr, if_pos hcontig, ok_bind, getSq_eq hs]
            rfl
          have hsame := Same.move (c := c) hs ht
            { s with reqList := s.reqList ++ [r.2] }
            { t with reqList := rest } rfl rfl
          have hreqs := h.post hs hq ht hid.symm hlist
          rw [← Table.get_set_eq, ← Table.get_set_eq] at hreqs
          obtain ⟨t', ht', hinfo⟩ := hsame.cqs ht
          obtain ⟨c', hc', hsame', h'⟩ := ih (hsame.view ▸ hcqs) hreqs ht'
            (by
              rw [hinfo]
              rintro ⟨-, h0 | ⟨h1, -⟩⟩
              · exact hsize h0
              · rw [hcontig] at h1
                cases h1)
          refine ⟨c', ?_, hsame.trans hsame', h'⟩
          have hfull : nvmeCqFull t = .ok () := if_neg hsize
          simp only [nvmePostCqes, getCq_eq ht, ok_bind, hlist, hpost, hfull]
          exact hc'

/-- Either way the source divides by zero. -/
theorem postCqes_fault (ht : c.cqs q = some t)
    (hfail : PostFails t.toCqInfo t.reqList count) :
    nvmePostCqes q count c = .error .divideByZero := by
  obtain ⟨hne, hwhy⟩ := hfail
  cases count with
  | zero =>
      rcases hwhy with hsize | ⟨-, hzero⟩
      · rw [nvmePostCqes, getCq_eq ht, ok_bind, if_neg hne, nvmeCqFull,
          if_pos hsize]
        rfl
      · exact absurd rfl hzero
  | succ count =>
      cases hlist : t.reqList with
      | nil => exact absurd hlist hne
      | cons r rest =>
          simp only [nvmePostCqes, getCq_eq ht, ok_bind, hlist]
          by_cases hsize : t.size = 0
          · rw [nvmeCqFull, if_pos hsize]
            rfl
          · rcases hwhy with h0 | ⟨hcontig, -⟩
            · exact absurd h0 hsize
            · rw [nvmeCqFull, if_neg hsize, nvmePostCqe, entryAddr, hcontig]
              rfl

/-- A free request waits for nothing. -/
theorem Held.free_not_waiting (h : Held g c w) (hs : c.sqs p = some s)
    (hfree : slot ∈ s.reqList) : (p, slot) ∉ w := by
  obtain ⟨q, t, hq, ht, -⟩ := h.shape.find hs
  have hnodup := (h.reqs.pool hs hq ht).nodup_iff.2 List.nodup_range
  intro hw
  have hout := (h.reqs.out hs).mem_iff.2 (mem_owned.2 hw)
  exact (List.nodup_append.1 hnodup).2.2 slot hfree slot
    (List.mem_append_left _ hout) rfl

-- ============================================================= in order

/-- The requests of the admin queue that are out: for an event, for ever,
or for the command in work. -/
def Ctrl.adminOut (c : Ctrl) (busy : List Nat) : List Nat :=
  c.aers ++ (c.lost ++ busy)

/-- The requests that are out, those of the block layer among them. -/
def Ctrl.waiting (c : Ctrl) (busy : List Nat) : List Req :=
  c.aios ++ (c.adminOut busy).map (Prod.mk 0)

/-- The requests for which a callback is to come. -/
def Ctrl.callbacks (c : Ctrl) : List Req := c.aios ++ c.discards

/-- The controller is in order, with these admin requests in work. What a
reset has left over may still be among the callbacks, unless it was
`tidy`. -/
structure Inv (g : Config) (tidy : Prop) (c : Ctrl) (busy : List Nat) :
    Prop extends Held g c (c.waiting busy) where
  callbacks : ∀ r ∈ c.callbacks, r.1 ≠ 0 ∧ r.1 < c.fresh
  aios_nodup : c.aios.Nodup
  live : tidy → ∀ r ∈ c.callbacks, (c.sqs r.1).isSome
  admin : c.adminOut busy ≠ [] → (c.sqs 0).isSome
  timer : (c.sqs 0).isSome → c.aerTimer = true
  fresh : 0 < c.fresh

variable {tidy : Prop} {busy busy' slots : List Nat}

/-- A callback is due to a queue that was made, and not to the admin queue. -/
theorem Inv.of_aios (h : Inv g tidy c busy) (hr : r ∈ c.aios) :
    r.1 ≠ 0 ∧ r.1 < c.fresh :=
  h.callbacks r (List.mem_append_left _ hr)

/-- Which queues exist is in the view. -/
theorem isSome_of_view (h : c'.view = c.view) (hs : (c.sqs p).isSome) :
    (c'.sqs p).isSome := by
  have hmap : ((c'.sqs p).map SQueue.toSqInfo).isSome
      = ((c.sqs p).map SQueue.toSqInfo).isSome :=
    congrArg (fun v => (v.sqs p).isSome) h
  rw [Option.isSome_map, Option.isSome_map] at hmap
  rwa [hmap]

/-- What is kept while requests move. -/
theorem Inv.next (h : Inv g tidy c busy) (hview : c'.view = c.view)
    (hdbs : c'.dbsAddr = c.dbsAddr) (heis : c'.eisAddr = c.eisAddr)
    (htimer : c'.aerTimer = c.aerTimer) (haios : c'.aios.Sublist c.aios)
    (hdis : ∀ r ∈ c'.discards, r ∈ c.discards)
    (hadmin : c'.adminOut busy' ≠ [] → (c.sqs 0).isSome)
    (hreqs : Reqs c'.cq c'.sqs c'.cqs (c'.waiting busy')) :
    Inv g tidy c' busy' := by
  have hfresh : c'.fresh = c.fresh := congrArg View.fresh hview
  have hcb : ∀ r ∈ c'.callbacks, r ∈ c.callbacks := by
    intro r hr
    rcases List.mem_append.1 hr with hr | hr
    · exact List.mem_append_left _ (haios.subset hr)
    · exact List.mem_append_right _ (hdis r hr)
  exact
    { shape := hview ▸ h.shape
      bells := by
        rw [hview, hdbs, heis]
        exact h.bells
      reqs := hreqs
      callbacks := by
        rw [hfresh]
        exact fun r hr => h.callbacks r (hcb r hr)
      aios_nodup := h.aios_nodup.sublist haios
      live := fun ht r hr => isSome_of_view hview (h.live ht r (hcb r hr))
      admin := fun hne => isSome_of_view hview (hadmin hne)
      timer := by
        rw [htimer]
        exact fun hs => h.timer (isSome_of_view hview.symm hs)
      fresh := by
        rw [hfresh]
        exact h.fresh }

/-- The invariant, when only requests moved. -/
theorem Inv.same (h : Inv g tidy c busy) (hsame : Same c c')
    (hreqs : Reqs c'.cq c'.sqs c'.cqs (c.waiting busy)) :
    Inv g tidy c' busy := by
  refine h.next hsame.view hsame.dbs hsame.eis hsame.timer
    (hsame.aios ▸ List.Sublist.refl _) (by rw [hsame.discards]; simp) ?_ ?_
  · rw [Ctrl.adminOut, hsame.aers, hsame.lost]
    exact h.admin
  · rwa [Ctrl.waiting, Ctrl.adminOut, hsame.aios, hsame.aers, hsame.lost]

/-- Posting gives requests back and moves nothing else. -/
theorem nvmePostCqes_inv (h : Inv g tidy c busy) (ht : c.cqs q = some t)
    (count : Nat) (hok : ¬ PostFails t.toCqInfo t.reqList count) :
    ∃ c', nvmePostCqes q count c = .ok c' ∧ Same c c' ∧ Inv g tidy c' busy := by
  obtain ⟨c', hc', hsame, hreqs⟩ :=
    postCqes_reqs h.shape.cqs h.reqs ht count hok
  exact ⟨c', hc', hsame, h.same hsame hreqs⟩

/-- A queue whose requests stay where they are. -/
theorem Inv.setSq (h : Inv g tidy c busy) (hs : c.sqs p = some s)
    (s' : SQueue) (hinfo : s'.toSqInfo = s.toSqInfo)
    (hfree : s'.reqList = s.reqList)
    (hout : s'.outReqList = s.outReqList) :
    Inv g tidy (setSq c p s') busy :=
  h.same (.setSq hs s' hinfo)
    (setSq_held h.toHeld hs s' hinfo hfree hout).reqs

/-- A request is completed at once; discards for it may be left. -/
theorem complete_inv (h : Inv g tidy c busy) (hp : p ≠ 0)
    (hs : c.sqs p = some s) (hfree : s.reqList = slot :: free)
    (s' : SQueue) (hinfo : s'.toSqInfo = s.toSqInfo)
    (hout : s'.outReqList = s.outReqList) (cid k : Nat)
    (pos : Option Nat) :
    ∃ c', nvmeEnqueueReqCompletion
        { takeReq c p s' slot free cid with
          discards := List.replicate k (p, slot) ++ c.discards }
        (p, slot) pos = .ok c' ∧
      Inv g tidy c' busy ∧ c'.view = c.view := by
  obtain ⟨htake, hsame⟩ := takeReq_held h.toHeld hs hfree s' hinfo hout cid
  obtain ⟨s₁, hs₁, -⟩ := hsame.sqs hs
  obtain ⟨c', hc', hsame', h'⟩ := enqueue_held (r := (p, slot))
    (c := { takeReq c p s' slot free cid with
      discards := List.replicate k (p, slot) ++ c.discards })
    ⟨htake.shape, htake.bells, htake.reqs⟩ hs₁ (.refl _) pos
  have hview : c'.view = c.view := hsame'.view.trans hsame.view
  have hfresh : c'.fresh = c.fresh := congrArg View.fresh hview
  -- the queue is one that exists, so its discards are in order
  have hnew : ∀ r ∈ c'.callbacks, r.1 = p ∨ r ∈ c.callbacks := by
    intro r hr
    rw [Ctrl.callbacks, hsame'.aios, hsame'.discards] at hr
    rcases List.mem_append.1 hr with hr | hr
    · exact .inr (List.mem_append_left _ hr)
    · rcases List.mem_append.1 hr with hr | hr
      · exact .inl (by rw [List.eq_of_mem_replicate hr])
      · exact .inr (List.mem_append_right _ hr)
  refine ⟨c', hc', ?_, hview⟩
  exact
    { shape := hview ▸ h.shape
      bells := h'.bells
      reqs := by
        rw [Ctrl.waiting, Ctrl.adminOut, hsame'.aios, hsame'.aers,
          hsame'.lost]
        exact h'.reqs
      callbacks := by
        intro r hr
        rw [hfresh]
        rcases hnew r hr with rfl | hr
        · exact ⟨hp, (h.shape.sq_fits (view_sqs hs)).lt⟩
        · exact h.callbacks r hr
      aios_nodup := hsame'.aios ▸ h.aios_nodup
      live := by
        intro ht r hr
        refine isSome_of_view hview ?_
        rcases hnew r hr with rfl | hr
        · rw [hs]
          rfl
        · exact h.live ht r hr
      admin := by
        rw [Ctrl.adminOut, hsame'.aers, hsame'.lost]
        exact fun hne => isSome_of_view hview (h.admin hne)
      timer := by
        rw [hsame'.timer]
        exact fun hs => h.timer (isSome_of_view hview.symm hs)
      fresh := hfresh ▸ h.fresh }

/-- A request waits for its callback. -/
theorem noComplete_inv (h : Inv g tidy c busy) (hp : p ≠ 0)
    (hs : c.sqs p = some s) (hfree : s.reqList = slot :: free)
    (s' : SQueue) (hinfo : s'.toSqInfo = s.toSqInfo)
    (hout : s'.outReqList = s.outReqList) (cid : Nat) :
    Inv g tidy { takeReq c p s' slot free cid with
        aios := (p, slot) :: c.aios } busy := by
  obtain ⟨htake, hsame⟩ := takeReq_held h.toHeld hs hfree s' hinfo hout cid
  have hnot : (p, slot) ∉ c.aios := fun hmem =>
    h.free_not_waiting hs (hfree ▸ List.mem_cons_self)
      (List.mem_append_left _ hmem)
  exact
    { toHeld := ⟨htake.shape, htake.bells, htake.reqs⟩
      callbacks := by
        have hlt := (h.shape.sq_fits (view_sqs hs)).lt
        exact List.forall_mem_cons.2 ⟨⟨hp, hlt⟩, h.callbacks⟩
      aios_nodup := List.nodup_cons.2 ⟨hnot, h.aios_nodup⟩
      live := by
        intro ht
        refine List.forall_mem_cons.2 ⟨?_, fun r hr =>
          isSome_of_view hsame.view (h.live ht r hr)⟩
        refine isSome_of_view hsame.view ?_
        rw [hs]
        rfl
      admin := fun hne => isSome_of_view hsame.view (h.admin hne)
      timer := fun hs => h.timer (isSome_of_view hsame.view.symm hs)
      fresh := h.fresh }

-- ============================================================ the polls

/-- A poll finds an entry, and has a request for it. -/
def Fetches (c : Ctrl) (p : Nat) : Prop :=
  ∃ s, c.sqs p = some s ∧ s.head ≠ s.tail ∧ s.reqList ≠ []

/-- Without an entry or a request the loop is at its end. -/
theorem sqIoLoop_stop (hs : c.sqs p = some s) (hno : ¬ Fetches c p)
    (es : List (Entry Verdict)) : sqIoLoop p es c = .ok c := by
  cases es with
  | nil => rfl
  | cons e es =>
      rw [sqIoLoop, getSq_eq hs, ok_bind]
      by_cases hempty : s.head = s.tail
      · exact if_pos hempty
      · rw [if_neg hempty]
        cases hfree : s.reqList with
        | nil => rfl
        | cons slot free =>
            exact absurd ⟨s, hs, hempty, by rw [hfree]; nofun⟩ hno

/-- Otherwise the next one is fetched. -/
theorem sqIoLoop_fetch (hs : c.sqs p = some s) (hne : s.head ≠ s.tail)
    (hfree : s.reqList = slot :: free) (e : Entry Verdict)
    (es : List (Entry Verdict)) :
    sqIoLoop p (e :: es) c = (fetch c p s slot free e >>= sqIoLoop p es) := by
  rw [sqIoLoop, getSq_eq hs, ok_bind, if_neg hne]
  simp only [hfree]

/-- The command of an entry that does not fail. -/
theorem fetch_inv (h : Inv g tidy c busy) (hp : p ≠ 0)
    (hs : c.sqs p = some s) (hcontig : s.contig = true)
    (hfree : s.reqList = slot :: free) {e : Entry Verdict}
    (he : ∀ cid, e ≠ .cmd cid .crash) :
    ∃ c', fetch c p s slot free e = .ok c' ∧ Inv g tidy c' busy ∧
      c'.view = c.view := by
  have haddr : entryAddr s.contig = .ok () := if_pos hcontig
  cases e with
  | aborted =>
      refine ⟨_, by rw [fetch, haddr]; rfl, ?_,
        view_setSq_same hs (nvmeIncSqHead s) rfl⟩
      exact h.setSq hs (nvmeIncSqHead s) rfl rfl rfl
  | cmd cid v =>
      rw [fetch, haddr, ok_bind]
      cases v with
      | complete pos k =>
          exact complete_inv h hp hs hfree (nvmeIncSqHead s) rfl rfl cid k
            (some pos)
      | noComplete =>
          exact ⟨_, rfl, noComplete_inv h hp hs hfree (nvmeIncSqHead s) rfl
            rfl cid, view_setSq_same hs _ rfl⟩
      | crash => exact absurd rfl (he cid)

/-- A poll of this queue comes to a command that fails. -/
def MeetsCrash (p : Nat) (es : List (Entry Verdict)) (c : Ctrl) : Prop :=
  ∃ es₁ cid es₂ c₁, es = es₁ ++ .cmd cid .crash :: es₂ ∧
    sqIoLoop p es₁ c = .ok c₁ ∧ Fetches c₁ p

/-- An entry that is served passes the crash on to the rest. -/
theorem MeetsCrash.cons {e : Entry Verdict} {es : List (Entry Verdict)}
    (hs : c.sqs p = some s) (hne : s.head ≠ s.tail)
    (hfree : s.reqList = slot :: free)
    (hc' : fetch c p s slot free e = .ok c') (h : MeetsCrash p es c') :
    MeetsCrash p (e :: es) c := by
  obtain ⟨es₁, cid, es₂, c₁, rfl, hrun, hfetch⟩ := h
  refine ⟨e :: es₁, cid, es₂, c₁, rfl, ?_, hfetch⟩
  rw [sqIoLoop_fetch hs hne hfree, hc']
  exact hrun

/-- The loop of a poll, by the entries. -/
theorem sqIoLoop_inv (h : Inv g tidy c busy) (hp : p ≠ 0)
    (hs : c.sqs p = some s) {es : List (Entry Verdict)}
    (hcontig : es ≠ [] → Fetches c p → s.contig = true)
    (hcrash : ¬ MeetsCrash p es c) :
    ∃ c', sqIoLoop p es c = .ok c' ∧ Inv g tidy c' busy := by
  induction es generalizing c s with
  | nil => exact ⟨c, rfl, h⟩
  | cons e es ih =>
      -- the loop stops at an empty ring, or without a free request
      by_cases hfetch : Fetches c p
      · have hcontig' := hcontig nofun hfetch
        obtain ⟨s', hs', hne, hsome⟩ := hfetch
        rw [hs] at hs'
        cases hs'
        cases hfree : s.reqList with
        | nil => exact absurd hfree hsome
        | cons slot free =>
            have he : ∀ cid, e ≠ .cmd cid .crash := by
              rintro cid rfl
              exact hcrash ⟨[], cid, es, c, rfl, rfl, s, hs, hne, hsome⟩
            obtain ⟨c₁, hc₁, h₁, hview⟩ :=
              fetch_inv h hp hs hcontig' hfree he
            have hs₁ := view_sqs hs
            rw [← hview] at hs₁
            obtain ⟨s₁, hs₁, hinfo⟩ := sqs_of_view hs₁
            obtain ⟨c', hc', h'⟩ := ih h₁ hs₁
              (fun _ _ => by rw [hinfo]; exact hcontig')
              (fun hmeets => hcrash (hmeets.cons hs hne hfree hc₁))
            refine ⟨c', ?_, h'⟩
            rw [sqIoLoop_fetch hs hne hfree, hc₁]
            exact hc'
      · exact ⟨c, sqIoLoop_stop hs hfetch _, h⟩

/-- A queue in pieces is not read. -/
theorem sqIoLoop_address (hs : c.sqs p = some s) (hfetch : Fetches c p)
    (hcontig : s.contig = false) {es : List (Entry Verdict)}
    (hes : es ≠ []) : sqIoLoop p es c = .error .divideByZero := by
  obtain ⟨s', hs', hne, hsome⟩ := hfetch
  rw [hs] at hs'
  cases hs'
  cases es with
  | nil => exact absurd rfl hes
  | cons e es =>
      cases hfree : s.reqList with
      | nil => exact absurd hfree hsome
      | cons slot free =>
          rw [sqIoLoop_fetch hs hne hfree]
          cases e with
          | aborted =>
              rw [fetch, hcontig]
              rfl
          | cmd cid v =>
              rw [fetch, hcontig]
              rfl

/-- A command that fails ends the loop that comes to it. -/
theorem sqIoLoop_crash (h : Inv g tidy c busy) (hp : p ≠ 0)
    (hs : c.sqs p = some s) (hcontig : s.contig = true)
    {es : List (Entry Verdict)} (hmeets : MeetsCrash p es c) :
    sqIoLoop p es c = .error .command := by
  obtain ⟨es₁, cid, es₂, c₁, rfl, hrun, hfetch₁⟩ := hmeets
  induction es₁ generalizing c s with
  | nil =>
      cases hrun
      obtain ⟨s', hs', hne, hsome⟩ := hfetch₁
      rw [hs] at hs'
      cases hs'
      cases hfree : s.reqList with
      | nil => exact absurd hfree hsome
      | cons slot free =>
          rw [List.nil_append, sqIoLoop_fetch hs hne hfree, fetch, entryAddr,
            if_pos hcontig]
          rfl
  | cons e es₁ ih =>
      by_cases hfetch : Fetches c p
      · obtain ⟨s', hs', hne, hsome⟩ := hfetch
        rw [hs] at hs'
        cases hs'
        cases hfree : s.reqList with
        | nil => exact absurd hfree hsome
        | cons slot free =>
            rw [sqIoLoop_fetch hs hne hfree] at hrun
            rw [List.cons_append, sqIoLoop_fetch hs hne hfree]
            by_cases he : ∃ cid', e = .cmd cid' .crash
            · obtain ⟨cid', rfl⟩ := he
              rw [fetch, entryAddr, if_pos hcontig]
              rfl
            · obtain ⟨c₂, hc₂, h₂, hview⟩ := fetch_inv h hp hs hcontig hfree
                fun cid' heq => he ⟨cid', heq⟩
              have hs₂ := view_sqs hs
              rw [← hview] at hs₂
              obtain ⟨s₂, hs₂, hinfo⟩ := sqs_of_view hs₂
              rw [hc₂, ok_bind] at hrun ⊢
              exact ih h₂ hs₂ (by rw [hinfo]; exact hcontig) hrun
      · -- the loop had stopped before
        rw [sqIoLoop_stop hs hfetch] at hrun
        cases hrun
        exact absurd hfetch₁ hfetch

-- ======================================================== the callbacks

/-- The callback of a request whose queue exists. -/
theorem nvmeMiscCb_inv (h : Inv g tidy c busy) (hr : r ∈ c.aios)
    (hs : c.sqs r.1 = some s) :
    ∃ c', nvmeMiscCb c r = .ok c' ∧ Inv g tidy c' busy ∧ c'.view = c.view ∧
      c'.aios = c.aios.erase r ∧ c'.discards = c.discards ∧
      ∀ q t, c.cq s.cqid = some q → c.cqs q = some t →
        ∃ t', c'.cqs q = some t' ∧ t'.toCqInfo = t.toCqInfo ∧
          t'.reqList ≠ [] := by
  have hwait : (c.waiting busy).Perm
      (r :: ({ c with aios := c.aios.erase r } : Ctrl).waiting busy) :=
    (List.perm_cons_erase hr).append_right _
  obtain ⟨c', hc', hsame, hheld⟩ := enqueue_held (r := r)
    (c := { c with aios := c.aios.erase r })
    ⟨h.shape, h.bells, h.reqs⟩ hs hwait none
  refine ⟨c', hc', ?_, hsame.view, hsame.aios, hsame.discards,
    fun q t hq ht => enqueue_listed
      (c := { c with aios := c.aios.erase r }) hs hq ht hc'⟩
  refine h.next hsame.view hsame.dbs hsame.eis hsame.timer ?_ ?_ ?_ ?_
  · rw [hsame.aios]
    exact List.erase_sublist
  · rw [hsame.discards]
    exact fun _ => id
  · rw [Ctrl.adminOut, hsame.aers, hsame.lost]
    exact h.admin
  · have hreqs := hheld.reqs
    rwa [Ctrl.waiting, Ctrl.adminOut, ← hsame.aios, ← hsame.aers,
      ← hsame.lost] at hreqs

/-- The callback of a discard whose queue exists. -/
theorem nvmeDiscardCb_inv (h : Inv g tidy c busy)
    (hs : c.sqs r.1 = some s) :
    ∃ c', nvmeDiscardCb c r = .ok c' ∧ Inv g tidy c' busy := by
  refine ⟨{ c with discards := c.discards.erase r }, ?_, ?_⟩
  · rw [nvmeDiscardCb, getSq_eq hs]
    rfl
  · exact h.next rfl rfl rfl rfl (List.Sublist.refl _)
      (fun _ => List.mem_of_mem_erase) h.admin h.reqs

/-- Requests that are out are cancelled, and are then on the list of the
completion queue. -/
theorem cancelAll_inv (h : Inv g tidy c busy) (hs : c.sqs p = some s)
    (slots : List Nat) :
    ∃ c', cancelAll p slots c = .ok c' ∧ Inv g tidy c' busy ∧ c'.view = c.view ∧
      (∀ r ∈ c'.aios, r ∈ c.aios) ∧ c'.discards = c.discards ∧
      (∀ slot ∈ slots, (p, slot) ∉ c'.aios) ∧
      ∀ q t, c.cq s.cqid = some q → c.cqs q = some t →
        ∃ t', c'.cqs q = some t' ∧ t'.toCqInfo = t.toCqInfo ∧
          (t'.reqList = [] ↔ t.reqList = [] ∧
            ∀ slot ∈ slots, (p, slot) ∉ c.aios) := by
  induction slots generalizing c s with
  | nil =>
      refine ⟨c, rfl, h, rfl, fun _ => id, rfl, nofun, ?_⟩
      intro q t _ ht
      exact ⟨t, ht, rfl, fun hnil => ⟨hnil, nofun⟩, And.left⟩
  | cons slot slots ih =>
      -- a request whose callback is due is completed at once; any other is
      -- not touched
      by_cases hmem : (p, slot) ∈ c.aios
      · obtain ⟨c₁, hc₁, h₁, hview₁, haios₁, hdis₁, hlist₁⟩ :=
          nvmeMiscCb_inv h hmem (s := s) hs
        have hs₁ := view_sqs hs
        rw [← hview₁] at hs₁
        obtain ⟨s₁, hs₁, hinfo₁⟩ := sqs_of_view hs₁
        obtain ⟨c', hc', h', hview, hsub, hdis, hgone, hlist⟩ := ih h₁ hs₁
        refine ⟨c', ?_, h', hview.trans hview₁, ?_, hdis.trans hdis₁, ?_, ?_⟩
        · rw [cancelAll, if_pos hmem, hc₁]
          exact hc'
        · exact fun r hr => List.mem_of_mem_erase (haios₁ ▸ hsub r hr)
        · refine List.forall_mem_cons.2 ⟨fun hr => ?_, hgone⟩
          have := hsub _ hr
          rw [haios₁] at this
          exact h.aios_nodup.not_mem_erase this
        · intro q t hq ht
          obtain ⟨t₁, ht₁, htinfo, hne⟩ := hlist₁ q t hq ht
          have hq₁ : c₁.cq s₁.cqid = some q := by
            rw [hinfo₁, ← hq]
            exact congrFun (congrArg View.cq hview₁) s.cqid
          obtain ⟨t', ht', htinfo', hiff⟩ := hlist q t₁ hq₁ ht₁
          refine ⟨t', ht', htinfo'.trans htinfo, ?_⟩
          refine iff_of_false (fun hnil => hne (hiff.1 hnil).1) ?_
          exact fun hno => hno.2 slot List.mem_cons_self hmem
      · obtain ⟨c', hc', h', hview, hsub, hdis, hgone, hlist⟩ := ih h hs
        refine ⟨c', ?_, h', hview, hsub, hdis, ?_, ?_⟩
        · rw [cancelAll, if_neg hmem]
          exact hc'
        · exact List.forall_mem_cons.2 ⟨fun hr => hmem (hsub _ hr), hgone⟩
        · intro q t hq ht
          obtain ⟨t', ht', htinfo, hiff⟩ := hlist q t hq ht
          refine ⟨t', ht', htinfo, hiff.trans (and_congr_right fun _ => ?_)⟩
          rw [List.forall_mem_cons]
          exact ⟨fun hno => ⟨hmem, hno⟩, And.right⟩

end FemuRemap.Lifecycle
