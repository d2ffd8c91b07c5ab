/-
Where the requests of the queues are.

A request of a queue that exists is in one place: it is free, or it is
out and waits, for the callback of the block layer or for an event, or it
is on the list of the completion queue (`Reqs`). What is on that list
belongs to a queue that exists. The arguments are the functions and not
the controller, so that every change is an update at an address.
-/
import FemuRemap.Proofs.Shape

namespace FemuRemap.Lifecycle

open Lib

/-- The requests of the queues; `w` are those that wait. -/
structure Reqs (cq : Nat → Option Nat) (sqs : Nat → Option SQueue)
    (cqs : Nat → Option CQueue) (w : List Req) : Prop where
  /-- Every request is in one place. -/
  pool : ∀ {p s q t}, sqs p = some s → cq s.cqid = some q →
    cqs q = some t →
    (s.reqList ++ (s.outReqList ++ owned p t.reqList)).Perm
      (List.range s.size)
  out : Each (fun p s => s.outReqList.Perm (owned p w)) sqs
  owner : Each (fun _ t => ∀ r ∈ t.reqList, ∃ s, sqs r.1 = some s ∧
    s.cqid = t.cqid) cqs

variable {p q slot : Nat} {free : List Nat}
  {cq : Nat → Option Nat} {sqs : Nat → Option SQueue}
  {cqs : Nat → Option CQueue} {w w' : List Req}
  {s s' : SQueue} {t t' : CQueue}

namespace Reqs

theorem empty (hsqs : ∀ p, sqs p = none) (hcqs : ∀ q, cqs q = none) :
    Reqs cq sqs cqs w where
  pool := by
    intro p s q t hs
    rw [hsqs] at hs
    cases hs
  out := .empty hsqs
  owner := .empty hcqs

/-- The order of those that wait does not matter. -/
theorem perm (h : Reqs cq sqs cqs w) (hw : w.Perm w') :
    Reqs cq sqs cqs w' where
  pool := h.pool
  out := h.out.mono fun _ _ _ hout => hout.trans (owned_perm hw)
  owner := h.owner

/-- The owner of a request stays if its queue is changed in place. -/
theorem owner_update (h : Reqs cq sqs cqs w) (hs : sqs p = some s)
    (hcqid : s'.cqid = s.cqid) :
    Each (fun _ t => ∀ r ∈ t.reqList, ∃ s₁,
      Function.update sqs p (some s') r.1 = some s₁ ∧ s₁.cqid = t.cqid)
      cqs := by
  intro q t ht r hr
  obtain ⟨s₁, hs₁, hkey⟩ := h.owner ht r hr
  by_cases heq : r.1 = p
  · rw [heq, hs] at hs₁
    cases hs₁
    exact ⟨s', update_some_iff.2 (.inl ⟨heq, rfl⟩), hcqid.trans hkey⟩
  · exact ⟨s₁, update_some_iff.2 (.inr ⟨heq, hs₁⟩), hkey⟩

/-- A free request is taken. -/
theorem take (h : Reqs cq sqs cqs w) (hs : sqs p = some s)
    (hfree : s.reqList = slot :: free) (s' : SQueue)
    (hinfo : s'.toSqInfo = s.toSqInfo) (hlist : s'.reqList = free)
    (hout : s'.outReqList = s.outReqList ++ [slot]) :
    Reqs cq (Function.update sqs p (some s')) cqs ((p, slot) :: w) where
  pool := by
    intro p' s₁ q t hs₁ hq ht
    rcases update_some_iff.1 hs₁ with ⟨rfl, rfl⟩ | ⟨-, hs₁⟩
    · rw [hinfo] at hq ⊢
      refine List.Perm.trans ?_ (h.pool (s := s) hs hq ht)
      rw [hlist, hout, hfree]
      refine (List.Perm.append_left free
        ((List.perm_append_singleton slot _).append_right _)).trans ?_
      exact List.perm_middle
    · exact h.pool hs₁ hq ht
  out := by
    intro p' s₁ hs₁
    rcases update_some_iff.1 hs₁ with ⟨rfl, rfl⟩ | ⟨hne, hs₁⟩
    · rw [owned_cons_self, hout]
      exact (List.perm_append_singleton slot _).trans ((h.out hs).cons slot)
    · rw [owned_cons_ne hne.symm]
      exact h.out hs₁
  owner := h.owner_update hs (congrArg SqInfo.cqid hinfo)

/-- A request moves between its queue and the completion queue. -/
theorem move (h : Reqs cq sqs cqs w) (hs : sqs p = some s)
    (hq : cq s.cqid = some q) (ht : cqs q = some t) (hid : t.cqid = s.cqid)
    (hsinfo : s'.toSqInfo = s.toSqInfo) (htinfo : t'.toCqInfo = t.toCqInfo)
    (hpool : (s'.reqList ++ (s'.outReqList ++ owned p t'.reqList)).Perm
      (s.reqList ++ (s.outReqList ++ owned p t.reqList)))
    (hout : s'.outReqList.Perm (owned p w'))
    (hothers : ∀ p', p' ≠ p →
      (owned p' t'.reqList).Perm (owned p' t.reqList) ∧
        (owned p' w).Perm (owned p' w'))
    (hmem : ∀ r ∈ t'.reqList, r ∈ t.reqList ∨ r.1 = p) :
    Reqs cq (Function.update sqs p (some s'))
      (Function.update cqs q (some t')) w' where
  pool := by
    intro p' s₁ q' t₁ hs₁ hq' ht₁
    rcases update_some_iff.1 hs₁ with ⟨rfl, rfl⟩ | ⟨hne, hs₁⟩
    · rw [hsinfo, hq] at hq'
      cases hq'
      rw [Function.update_self] at ht₁
      cases ht₁
      rw [hsinfo]
      exact hpool.trans (h.pool hs hq ht)
    · rcases update_some_iff.1 ht₁ with ⟨rfl, rfl⟩ | ⟨-, ht₁⟩
      · refine List.Perm.trans ?_ (h.pool hs₁ hq' ht)
        exact ((hothers p' hne).1.append_left _).append_left _
      · exact h.pool hs₁ hq' ht₁
  out := by
    intro p' s₁ hs₁
    rcases update_some_iff.1 hs₁ with ⟨rfl, rfl⟩ | ⟨hne, hs₁⟩
    · exact hout
    · exact (h.out hs₁).trans (hothers p' hne).2
  owner := by
    have hcqid : s'.cqid = s.cqid := congrArg SqInfo.cqid hsinfo
    have hold := h.owner_update hs hcqid
    refine hold.update fun r hr => ?_
    rw [htinfo]
    rcases hmem r hr with hr | hr
    · exact hold ht r hr
    · exact ⟨s', update_some_iff.2 (.inl ⟨hr, rfl⟩), hcqid.trans hid.symm⟩

/-- A request that waited goes to the completion queue. -/
theorem enqueue (h : Reqs cq sqs cqs w) (hs : sqs p = some s)
    (hq : cq s.cqid = some q) (ht : cqs q = some t) (hid : t.cqid = s.cqid)
    (hw : w.Perm ((p, slot) :: w')) {k : Nat} (hk : k ≤ t.reqList.length) :
    Reqs cq
      (Function.update sqs p
        (some { s with outReqList := s.outReqList.erase slot }))
      (Function.update cqs q
        (some { t with reqList := t.reqList.insertIdx k (p, slot) })) w' := by
  have hins := List.perm_insertIdx (p, slot) t.reqList hk
  have hwait := (h.out hs).trans (owned_perm hw)
  rw [owned_cons_self] at hwait
  have hslot : slot ∈ s.outReqList := hwait.mem_iff.2 List.mem_cons_self
  have herase := List.perm_cons_erase hslot
  refine h.move hs hq ht hid rfl rfl ?_ ?_ ?_ ?_
  · refine List.Perm.append_left _ ?_
    refine ((owned_perm hins).append_left _).trans ?_
    rw [owned_cons_self]
    exact List.perm_middle.trans (herase.symm.append_right _)
  · exact (herase.symm.trans hwait).cons_inv
  · intro p' hne
    have hlist := owned_perm (p := p') hins
    have hwait := owned_perm (p := p') hw
    rw [owned_cons_ne hne.symm] at hlist hwait
    exact ⟨hlist, hwait⟩
  · intro r hr
    rcases List.mem_cons.1 (hins.mem_iff.1 hr) with rfl | hr
    · exact .inr rfl
    · exact .inl hr

/-- A request is posted, and free again. -/
theorem post (h : Reqs cq sqs cqs w) (hs : sqs p = some s)
    (hq : cq s.cqid = some q) (ht : cqs q = some t) (hid : t.cqid = s.cqid)
    {rest : List Req} (hlist : t.reqList = (p, slot) :: rest) :
    Reqs cq
      (Function.update sqs p (some { s with reqList := s.reqList ++ [slot] }))
      (Function.update cqs q (some { t with reqList := rest })) w := by
  refine h.move hs hq ht hid rfl rfl ?_ (h.out (b := s) hs) ?_ ?_
  · rw [hlist, owned_cons_self]
    dsimp only
    rw [List.append_assoc, List.singleton_append]
    exact List.Perm.append_left _ List.perm_middle.symm
  · intro p' hne
    rw [hlist, owned_cons_ne hne.symm]
    exact ⟨.refl _, .refl _⟩
  · intro r hr
    rw [hlist]
    exact .inl (List.mem_cons_of_mem _ hr)

-- ============================================================== queues

/-- A queue is changed, but not its requests. -/
theorem setSq (h : Reqs cq sqs cqs w) (hs : sqs p = some s) (s' : SQueue)
    (hcqid : s'.cqid = s.cqid) (hsize : s'.size = s.size)
    (hfree : s'.reqList = s.reqList) (hout : s'.outReqList = s.outReqList) :
    Reqs cq (Function.update sqs p (some s')) cqs w where
  pool := by
    intro p' s₁ q t hs₁ hq ht
    rcases update_some_iff.1 hs₁ with ⟨rfl, rfl⟩ | ⟨-, hs₁⟩
    · rw [hcqid] at hq
      rw [hfree, hout, hsize]
      exact h.pool hs hq ht
    · exact h.pool hs₁ hq ht
  out := h.out.update (by rw [hout]; exact h.out hs)
  owner := h.owner_update hs hcqid

/-- Writing a completion queue but for its requests. -/
theorem setCq (h : Reqs cq sqs cqs w) (ht : cqs q = some t) (t' : CQueue)
    (hcqid : t'.cqid = t.cqid) (hlist : t'.reqList = t.reqList) :
    Reqs cq sqs (Function.update cqs q (some t')) w where
  pool := by
    intro p s q' t₁ hs hq ht₁
    rcases update_some_iff.1 ht₁ with ⟨rfl, rfl⟩ | ⟨-, ht₁⟩
    · rw [hlist]
      exact h.pool hs hq ht
    · exact h.pool hs hq ht₁
  out := h.out
  owner := by
    refine h.owner.update ?_
    rw [hlist, hcqid]
    exact h.owner ht

/-- A new completion queue has no request. -/
theorem newCq (h : Reqs cq sqs cqs w) {i : Nat} (hid : cq i = none)
    (hserved : Each (fun _ s => ∃ q t, cq s.cqid = some q ∧
      cqs q = some t) sqs)
    (hq : cqs q = none) (hlist : t.reqList = []) :
    Reqs (Function.update cq i (some q)) sqs
      (Function.update cqs q (some t)) w where
  pool := by
    intro p s q' t₁ hs hq' ht₁
    obtain ⟨q₁, t', hq₁, ht'⟩ := hserved hs
    have hne : s.cqid ≠ i := by
      intro heq
      rw [heq, hid] at hq₁
      cases hq₁
    rw [Function.update_of_ne hne, hq₁] at hq'
    cases hq'
    rcases update_some_iff.1 ht₁ with ⟨rfl, -⟩ | ⟨-, ht₁⟩
    · rw [hq] at ht'
      cases ht'
    · exact h.pool hs hq₁ ht₁
  out := h.out
  owner := h.owner.update (by rw [hlist]; exact nofun)

/-- A new queue, for whose address nothing waits. -/
theorem newSq (h : Reqs cq sqs cqs w) (hp : sqs p = none)
    (ht : cqs q = some t) (s : SQueue) (t' : CQueue)
    (hcqid : t'.cqid = t.cqid) (hlist : t'.reqList = t.reqList)
    (hfree : s.reqList = List.range s.size) (hout : s.outReqList = [])
    (hw : owned p w = []) :
    Reqs cq (Function.update sqs p (some s))
      (Function.update cqs q (some t')) w := by
  have hnone : ∀ {q t}, cqs q = some t → owned p t.reqList = [] := by
    intro q t ht
    refine owned_eq_nil fun r hr heq => ?_
    obtain ⟨s', hs', -⟩ := h.owner ht r hr
    rw [heq, hp] at hs'
    cases hs'
  refine Reqs.setCq (t := t) ?_ ht t' hcqid hlist
  exact
    { pool := by
        intro p' s₁ q' t₁ hs₁ hq' ht₁
        rcases update_some_iff.1 hs₁ with ⟨rfl, rfl⟩ | ⟨-, hs₁⟩
        · rw [hfree, hout, hnone ht₁, List.append_nil, List.append_nil]
        · exact h.pool hs₁ hq' ht₁
      out := h.out.update (by rw [hout, hw])
      owner := by
        intro q' t₁ ht₁ r hr
        obtain ⟨s₁, hs₁, hkey⟩ := h.owner ht₁ r hr
        refine ⟨s₁, update_some_iff.2 (.inr ⟨?_, hs₁⟩), hkey⟩
        intro heq
        rw [heq, hp] at hs₁
        cases hs₁ }

/-- A queue is deleted, and its requests with it. -/
theorem delSq (h : Reqs cq sqs cqs w) (hs : sqs p = some s)
    (ht : cqs q = some t)
    (honly : Each (fun q' t' => t'.cqid = s.cqid → q' = q) cqs)
    (t' : CQueue) (hcqid : t'.cqid = t.cqid)
    (hlist : t'.reqList = t.reqList.filter (·.1 ≠ p)) :
    Reqs cq (Function.update sqs p none)
      (Function.update cqs q (some t')) w where
  pool := by
    intro p' s₁ q' t₁ hs₁ hq' ht₁
    obtain ⟨hne, hs₁⟩ := update_none_iff.1 hs₁
    rcases update_some_iff.1 ht₁ with ⟨rfl, rfl⟩ | ⟨-, ht₁⟩
    · rw [hlist, owned_filter_ne hne]
      exact h.pool hs₁ hq' ht
    · exact h.pool hs₁ hq' ht₁
  out := h.out.erase
  owner := by
    intro q' t₁ ht₁ r hr
    rcases update_some_iff.1 ht₁ with ⟨rfl, rfl⟩ | ⟨hne, ht₁⟩
    · rw [hlist] at hr
      obtain ⟨hr, hrp⟩ := List.mem_filter.1 hr
      obtain ⟨s₁, hs₁, hkey⟩ := h.owner ht r hr
      exact ⟨s₁, update_none_iff.2 ⟨of_decide_eq_true hrp, hs₁⟩,
        hkey.trans hcqid.symm⟩
    · obtain ⟨s₁, hs₁, hkey⟩ := h.owner ht₁ r hr
      refine ⟨s₁, update_none_iff.2 ⟨?_, hs₁⟩, hkey⟩
      intro heq
      rw [heq, hs] at hs₁
      cases hs₁
      exact hne (honly ht₁ hkey.symm)

/-- One that goes takes no request with it. -/
theorem delCq (h : Reqs cq sqs cqs w) (i : Nat) :
    Reqs (Function.update cq i none) sqs (Function.update cqs q none) w where
  pool := by
    intro p s q' t hs hq ht
    exact h.pool hs (update_none_iff.1 hq).2 (update_none_iff.1 ht).2
  out := h.out
  owner := h.owner.erase

end Reqs

end FemuRemap.Lifecycle
