/-
Which queues there are and how they refer to each other.

`View` is the controller without the requests. What most steps do is
invisible there; creating and deleting queues is not, and each of these
has a lemma that it keeps `Shape`: the arrays and the objects agree, the
completion queue of a submission queue exists and lists it, and lists no
other. The admin queues are at address zero, and are the only ones there.
-/
import FemuRemap.Lib.Objects
import FemuRemap.Model.Lifecycle

namespace FemuRemap.Lifecycle

open Lib

/-- The queues without their requests. -/
structure View where
  sq : Nat → Option Nat
  cq : Nat → Option Nat
  sqs : Nat → Option SqInfo
  cqs : Nat → Option CqInfo
  fresh : Nat

/-- What the queue tables say, with the queues' contents left out. -/
def Ctrl.view (c : Ctrl) : View where
  sq := c.sq
  cq := c.cq
  sqs p := (c.sqs p).map SQueue.toSqInfo
  cqs q := (c.cqs q).map CQueue.toCqInfo
  fresh := c.fresh

/-- A submission queue `p` that could be in the table. -/
structure SqFits (fresh p : Nat) (s : SqInfo) : Prop where
  lt : p < fresh
  zero : p = 0 ↔ s.sqid = 0
  cq_zero : p = 0 ↔ s.cqid = 0
  contig : p = 0 → s.contig = true

/-- A completion queue `q` that could be in the table. -/
structure CqFits (fresh q : Nat) (t : CqInfo) : Prop where
  lt : q < fresh
  zero : q = 0 ↔ t.cqid = 0
  nodup : t.sqList.Nodup

/-- Tables and queues name each other: an id leads to the queue that carries
it, and a submission queue is on its completion queue's list once. -/
structure Shape (n : Nat) (v : View) : Prop where
  sqs : Registry SqInfo.sqid v.sq v.sqs
  cqs : Registry CqInfo.cqid v.cq v.cqs
  sq_le : Each (fun i _ => i ≤ n) v.sq
  cq_le : Each (fun i _ => i ≤ n) v.cq
  sq_fits : Each (SqFits v.fresh) v.sqs
  cq_fits : Each (CqFits v.fresh) v.cqs
  /-- The completion queue of a submission queue exists and lists it. -/
  served : Each (fun p s => ∃ q t, v.cq s.cqid = some q ∧
    v.cqs q = some t ∧ p ∈ t.sqList) v.sqs
  /-- A completion queue lists only queues that exist and are its own. -/
  serves : Each (fun _ t => ∀ p ∈ t.sqList, ∃ s, v.sqs p = some s ∧
    s.cqid = t.cqid) v.cqs

variable {n p q fresh : Nat} {v : View} {s s' : SqInfo} {t t' : CqInfo}
  {c : Ctrl}

/-- Taking fresh objects invalidates none that exists. -/
theorem SqFits.mono (h : SqFits v.fresh p s) (hle : v.fresh ≤ fresh) :
    SqFits fresh p s :=
  { h with lt := Nat.lt_of_lt_of_le h.lt hle }

theorem CqFits.mono (h : CqFits v.fresh q t) (hle : v.fresh ≤ fresh) :
    CqFits fresh q t :=
  { h with lt := Nat.lt_of_lt_of_le h.lt hle }

-- ============================================================== changes

theorem Shape.empty (hsq : ∀ i, v.sq i = none) (hcq : ∀ i, v.cq i = none)
    (hsqs : ∀ p, v.sqs p = none) (hcqs : ∀ q, v.cqs q = none) :
    Shape n v where
  sqs := .empty hsq hsqs
  cqs := .empty hcq hcqs
  sq_le := .empty hsq
  cq_le := .empty hcq
  sq_fits := .empty hsqs
  cq_fits := .empty hcqs
  served := .empty hsqs
  serves := .empty hcqs

/-- The key of the completion queue is the one that it was found by. -/
theorem Shape.cqid_eq (h : Shape n v) {i : Nat} (hq : v.cq i = some q)
    (ht : v.cqs q = some t) : t.cqid = i := by
  obtain ⟨t', ht', hkey⟩ := h.cqs.named hq
  rw [ht] at ht'
  cases ht'
  exact hkey

/-- Creating a completion queue under a free id. -/
theorem Shape.newCq (h : Shape n v) (hid : v.cq t.cqid = none)
    (hq : v.cqs q = none) (hle : t.cqid ≤ n) (hlist : t.sqList = [])
    (hzero : q = 0 ↔ t.cqid = 0) (hlt : q < fresh)
    (hfresh : v.fresh ≤ fresh) :
    Shape n { v with
      cq := Function.update v.cq t.cqid (some q)
      cqs := Function.update v.cqs q (some t)
      fresh := fresh } where
  sqs := h.sqs
  cqs := h.cqs.insert hid hq
  sq_le := h.sq_le
  cq_le := h.cq_le.update hle
  sq_fits := h.sq_fits.mono fun _ _ _ hs => hs.mono hfresh
  cq_fits := (h.cq_fits.mono fun _ _ _ ht => ht.mono hfresh).update
    ⟨hlt, hzero, hlist ▸ List.nodup_nil⟩
  served := by
    intro p s hs
    obtain ⟨q', t', hq', ht', hmem⟩ := h.served hs
    refine ⟨q', t', update_some_iff.2 (.inr ⟨?_, hq'⟩),
      update_some_iff.2 (.inr ⟨?_, ht'⟩), hmem⟩
    · intro heq
      rw [heq, hid] at hq'
      cases hq'
    · intro heq
      rw [heq, hq] at ht'
      cases ht'
  serves := by
    refine h.serves.update fun p hp => ?_
    rw [hlist] at hp
    cases hp

/-- Creating a submission queue under a free id, on an existing completion
queue. -/
theorem Shape.newSq (h : Shape n v) (hid : v.sq s.sqid = none)
    (hp : v.sqs p = none) (hle : s.sqid ≤ n) (hq : v.cq s.cqid = some q)
    (ht : v.cqs q = some t) (hfits : SqFits fresh p s)
    (hfresh : v.fresh ≤ fresh) :
    Shape n { v with
      sq := Function.update v.sq s.sqid (some p)
      sqs := Function.update v.sqs p (some s)
      cqs := Function.update v.cqs q
        (some { t with sqList := t.sqList ++ [p] })
      fresh := fresh } := by
  -- the new object is on no list yet, so the lists serve whom they served
  have hold : Each (fun _ t => ∀ p' ∈ t.sqList, ∃ s',
      Function.update v.sqs p (some s) p' = some s' ∧ s'.cqid = t.cqid)
      v.cqs := by
    intro q' t' ht' p' hp'
    obtain ⟨s', hs', hcqid⟩ := h.serves ht' p' hp'
    refine ⟨s', update_some_iff.2 (.inr ⟨?_, hs'⟩), hcqid⟩
    intro heq
    rw [heq, hp] at hs'
    cases hs'
  have hnot : p ∉ t.sqList := by
    intro hmem
    obtain ⟨s', hs', -⟩ := h.serves ht p hmem
    rw [hp] at hs'
    cases hs'
  have hcq := h.cq_fits ht
  exact
    { sqs := h.sqs.insert hid hp
      cqs := h.cqs.set ht rfl
      sq_le := h.sq_le.update hle
      cq_le := h.cq_le
      sq_fits := (h.sq_fits.mono fun _ _ _ hs => hs.mono hfresh).update hfits
      cq_fits := by
        refine (h.cq_fits.mono fun _ _ _ ht => ht.mono hfresh).update
          ⟨(hcq.mono hfresh).lt, hcq.zero, ?_⟩
        exact (List.perm_append_singleton p t.sqList).nodup_iff.2
          (List.nodup_cons.2 ⟨hnot, hcq.nodup⟩)
      served := by
        intro p' s' hs'
        rcases update_some_iff.1 hs' with ⟨rfl, rfl⟩ | ⟨-, hs'⟩
        · exact ⟨q, { t with sqList := t.sqList ++ [p'] }, hq,
            Function.update_self .., List.mem_append_right _ (by simp)⟩
        · obtain ⟨q', t', hq', ht', hmem⟩ := h.served hs'
          by_cases heq : q' = q
          · rw [heq, ht] at ht'
            cases ht'
            exact ⟨q', { t with sqList := t.sqList ++ [p] }, hq',
              update_some_iff.2 (.inl ⟨heq, rfl⟩), List.mem_append_left _ hmem⟩
          · exact ⟨q', t', hq', update_some_iff.2 (.inr ⟨heq, ht'⟩), hmem⟩
      serves := by
        refine hold.update fun p' hp' => ?_
        rcases List.mem_append.1 hp' with hp' | hp'
        · exact hold ht p' hp'
        · rw [List.mem_singleton.1 hp']
          exact ⟨s, Function.update_self .., (h.cqid_eq hq ht).symm⟩ }

/-- Deleting a submission queue, which leaves its completion queue's list. -/
theorem Shape.delSq (h : Shape n v) (hs : v.sqs p = some s)
    (hq : v.cq s.cqid = some q) (ht : v.cqs q = some t) :
    Shape n { v with
      sq := Function.update v.sq s.sqid none
      sqs := Function.update v.sqs p none
      cqs := Function.update v.cqs q
        (some { t with sqList := t.sqList.erase p }) } := by
  have hcq := h.cq_fits ht
  exact
    { sqs := h.sqs.erase hs
      cqs := h.cqs.set ht rfl
      sq_le := h.sq_le.erase
      cq_le := h.cq_le
      sq_fits := h.sq_fits.erase
      cq_fits := h.cq_fits.update { hcq with nodup := hcq.nodup.erase p }
      served := by
        intro p' s' hs'
        obtain ⟨hne, hs'⟩ := update_none_iff.1 hs'
        obtain ⟨q', t', hq', ht', hmem⟩ := h.served hs'
        by_cases heq : q' = q
        · rw [heq, ht] at ht'
          cases ht'
          exact ⟨q', { t with sqList := t.sqList.erase p }, hq',
            update_some_iff.2 (.inl ⟨heq, rfl⟩),
            (List.mem_erase_of_ne hne).2 hmem⟩
        · exact ⟨q', t', hq', update_some_iff.2 (.inr ⟨heq, ht'⟩), hmem⟩
      serves := by
        intro q' t' ht' p' hp'
        rcases update_some_iff.1 ht' with ⟨rfl, rfl⟩ | ⟨hne, ht'⟩
        · obtain ⟨hp', hmem⟩ := hcq.nodup.mem_erase_iff.1 hp'
          obtain ⟨s', hs', hcqid⟩ := h.serves ht p' hmem
          exact ⟨s', update_none_iff.2 ⟨hp', hs'⟩, hcqid⟩
        · obtain ⟨s', hs', hcqid⟩ := h.serves ht' p' hp'
          refine ⟨s', update_none_iff.2 ⟨?_, hs'⟩, hcqid⟩
          -- a queue that lists it would be the same one
          intro heq
          rw [heq, hs] at hs'
          cases hs'
          exact hne (h.cqs.inj ht' ht
            (hcqid.symm.trans (h.cqid_eq hq ht).symm)) }

/-- Deleting a completion queue that no submission queue uses. -/
theorem Shape.delCq (h : Shape n v) (ht : v.cqs q = some t)
    (hlist : t.sqList = []) :
    Shape n { v with
      cq := Function.update v.cq t.cqid none
      cqs := Function.update v.cqs q none } where
  sqs := h.sqs
  cqs := h.cqs.erase ht
  sq_le := h.sq_le
  cq_le := h.cq_le.erase
  sq_fits := h.sq_fits
  cq_fits := h.cq_fits.erase
  served := by
    intro p s hs
    obtain ⟨q', t', hq', ht', hmem⟩ := h.served hs
    have hne : q' ≠ q := by
      rintro rfl
      rw [ht] at ht'
      cases ht'
      rw [hlist] at hmem
      cases hmem
    refine ⟨q', t', update_none_iff.2 ⟨?_, hq'⟩,
      update_none_iff.2 ⟨hne, ht'⟩, hmem⟩
    intro heq
    rw [heq, h.cqs.listed ht] at hq'
    cases hq'
    exact hne rfl
  serves := h.serves.erase

/-- A change that leaves a submission queue where it belongs. -/
theorem Shape.setSq (h : Shape n v) (hs : v.sqs p = some s)
    (hsqid : s'.sqid = s.sqid) (hcqid : s'.cqid = s.cqid)
    (hcontig : s'.contig = s.contig) :
    Shape n { v with sqs := Function.update v.sqs p (some s') } where
  sqs := h.sqs.set hs hsqid
  cqs := h.cqs
  sq_le := h.sq_le
  cq_le := h.cq_le
  sq_fits := by
    have hfits := h.sq_fits hs
    exact h.sq_fits.update
      ⟨hfits.lt, hsqid ▸ hfits.zero, hcqid ▸ hfits.cq_zero,
        hcontig ▸ hfits.contig⟩
  cq_fits := h.cq_fits
  served := by
    refine h.served.update ?_
    rw [hcqid]
    exact h.served hs
  serves := by
    intro q t ht p' hp'
    obtain ⟨s₁, hs₁, hkey⟩ := h.serves ht p' hp'
    by_cases heq : p' = p
    · rw [heq, hs] at hs₁
      cases hs₁
      exact ⟨s', update_some_iff.2 (.inl ⟨heq, rfl⟩), hcqid.trans hkey⟩
    · exact ⟨s₁, update_some_iff.2 (.inr ⟨heq, hs₁⟩), hkey⟩

/-- A change that leaves a completion queue with what it lists. -/
theorem Shape.setCq (h : Shape n v) (ht : v.cqs q = some t)
    (hcqid : t'.cqid = t.cqid) (hlist : t'.sqList = t.sqList) :
    Shape n { v with cqs := Function.update v.cqs q (some t') } where
  sqs := h.sqs
  cqs := h.cqs.set ht hcqid
  sq_le := h.sq_le
  cq_le := h.cq_le
  sq_fits := h.sq_fits
  cq_fits := by
    have hfits := h.cq_fits ht
    exact h.cq_fits.update
      ⟨hfits.lt, hcqid ▸ hfits.zero, hlist ▸ hfits.nodup⟩
  served := by
    intro p s hs
    obtain ⟨q', t₁, hq', ht₁, hmem⟩ := h.served hs
    by_cases heq : q' = q
    · rw [heq, ht] at ht₁
      cases ht₁
      exact ⟨q', t', hq', update_some_iff.2 (.inl ⟨heq, rfl⟩), hlist ▸ hmem⟩
    · exact ⟨q', t₁, hq', update_some_iff.2 (.inr ⟨heq, ht₁⟩), hmem⟩
  serves := by
    refine h.serves.update fun p hp => ?_
    rw [hcqid]
    exact h.serves ht p (hlist ▸ hp)

end FemuRemap.Lifecycle
