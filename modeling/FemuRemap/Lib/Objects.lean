/-
Objects at addresses, found through a table of their keys, and the parts
of objects that are kept on common lists.

`Registry` says that table and heap agree in both directions: an entry of
the table leads to an object with that key, and every object is in the
table, so that none is lost. `owned p` are the parts of the object at `p`
on a list where each part stands with the address of its owner.
-/
import Mathlib.Data.List.InsertIdx
import Mathlib.Logic.Function.Basic
import Mathlib.Tactic.Common
import FemuRemap.Lib.Runs

namespace FemuRemap.Lib

/-- The table leads to the objects, and to all of them. -/
structure Registry {α ι ρ : Type} (key : α → ι) (tab : ι → Option ρ)
    (heap : ρ → Option α) : Prop where
  named : ∀ {i p}, tab i = some p → ∃ a, heap p = some a ∧ key a = i
  listed : ∀ {p a}, heap p = some a → tab (key a) = some p

namespace Registry

variable {α ι ρ : Type} {key : α → ι} {tab : ι → Option ρ}
  {heap : ρ → Option α} {a b : α} {p q : ρ}

theorem empty (htab : ∀ i, tab i = none) (hheap : ∀ p, heap p = none) :
    Registry key tab heap where
  named h := by
    rw [htab] at h
    cases h
  listed h := by
    rw [hheap] at h
    cases h

/-- Keys are unique. -/
theorem inj (h : Registry key tab heap) (ha : heap p = some a)
    (hb : heap q = some b) (hkey : key a = key b) : p = q := by
  have hp := h.listed ha
  rw [hkey, h.listed hb] at hp
  exact (Option.some.inj hp).symm

variable [DecidableEq ρ]

/-- An object changes, but not its key. -/
theorem set (h : Registry key tab heap) (ha : heap p = some a)
    (hkey : key b = key a) :
    Registry key tab (Function.update heap p (some b)) where
  named := by
    intro i q hq
    obtain ⟨a', ha', rfl⟩ := h.named hq
    by_cases hqp : q = p
    · rw [hqp, ha] at ha'
      cases ha'
      exact ⟨b, by rw [hqp, Function.update_self], hkey⟩
    · exact ⟨a', by rw [Function.update_of_ne hqp, ha'], rfl⟩
  listed := by
    intro q b' hb
    by_cases hqp : q = p
    · rw [hqp, Function.update_self] at hb
      cases hb
      rw [hkey, h.listed ha, hqp]
    · rw [Function.update_of_ne hqp] at hb
      exact h.listed hb

variable [DecidableEq ι]

/-- A new object under a key that was free. -/
theorem insert (h : Registry key tab heap) (htab : tab (key a) = none)
    (hheap : heap p = none) :
    Registry key (Function.update tab (key a) (some p))
      (Function.update heap p (some a)) where
  named := by
    intro i q hq
    by_cases hi : i = key a
    · rw [hi, Function.update_self] at hq
      cases hq
      exact ⟨a, Function.update_self .., hi.symm⟩
    · rw [Function.update_of_ne hi] at hq
      obtain ⟨b, hb, hkey⟩ := h.named hq
      refine ⟨b, ?_, hkey⟩
      rw [Function.update_of_ne]
      · exact hb
      · intro hqp
        rw [hqp, hheap] at hb
        cases hb
  listed := by
    intro q b hb
    by_cases hq : q = p
    · rw [hq, Function.update_self] at hb
      cases hb
      rw [hq, Function.update_self]
    · rw [Function.update_of_ne hq] at hb
      rw [Function.update_of_ne]
      · exact h.listed hb
      · intro hkey
        have := h.listed hb
        rw [hkey, htab] at this
        cases this

/-- An object goes, with its entry. -/
theorem erase (h : Registry key tab heap) (ha : heap p = some a) :
    Registry key (Function.update tab (key a) none)
      (Function.update heap p none) where
  named := by
    intro i q hq
    by_cases hi : i = key a
    · rw [hi, Function.update_self] at hq
      cases hq
    · rw [Function.update_of_ne hi] at hq
      obtain ⟨b, hb, hkey⟩ := h.named hq
      refine ⟨b, ?_, hkey⟩
      rw [Function.update_of_ne]
      · exact hb
      · intro hqp
        rw [hqp, ha] at hb
        cases hb
        exact hi hkey.symm
  listed := by
    intro q b hb
    by_cases hq : q = p
    · rw [hq, Function.update_self] at hb
      cases hb
    · rw [Function.update_of_ne hq] at hb
      rw [Function.update_of_ne]
      · exact h.listed hb
      · exact fun hkey => hq (h.inj hb ha hkey)

end Registry

-- ============================================================== entries

/-- What holds for every entry. -/
def Each {ι β : Type} (P : ι → β → Prop) (f : ι → Option β) : Prop :=
  ∀ ⦃i b⦄, f i = some b → P i b

section Each

variable {ι β : Type} {P Q : ι → β → Prop} {f : ι → Option β} {i j : ι}
  {a b : β}

theorem Each.empty (h : ∀ i, f i = none) : Each P f := by
  intro i b hb
  rw [h i] at hb
  cases hb

theorem Each.mono (h : Each P f) (hPQ : ∀ i b, f i = some b → P i b → Q i b) :
    Each Q f :=
  fun i b hb => hPQ i b hb (h hb)

/-- A loop over the keys finds nothing at the next one. -/
theorem Registry.upto_none {key : β → Nat} {tab : Nat → Option ι} {k : Nat}
    {R : β → Prop} (h : Registry key tab f) (hnone : tab (k + 1) = none)
    (hR : Each (fun _ b => key b ≤ k → R b) f) :
    Each (fun _ b => key b ≤ k + 1 → R b) f := by
  intro i b hb hle
  refine hR hb (Nat.le_of_lt_succ (Nat.lt_of_le_of_ne hle fun heq => ?_))
  have hlisted := h.listed hb
  rw [heq, hnone] at hlisted
  cases hlisted

variable [DecidableEq ι]

/-- An updated entry is the new one or an old one. -/
theorem update_some_iff : Function.update f i (some a) j = some b ↔
    j = i ∧ a = b ∨ j ≠ i ∧ f j = some b := by
  by_cases h : j = i
  · rw [h, Function.update_self]
    simp
  · rw [Function.update_of_ne h]
    simp [h]

/-- What remains after an entry is cleared. -/
theorem update_none_iff : Function.update f i none j = some b ↔
    j ≠ i ∧ f j = some b := by
  by_cases h : j = i
  · rw [h, Function.update_self]
    simp
  · rw [Function.update_of_ne h]
    simp [h]

/-- One entry set to a value with the property. -/
theorem Each.update (h : Each P f) (ha : P i a) :
    Each P (Function.update f i (some a)) := by
  intro j b hb
  rcases update_some_iff.1 hb with ⟨rfl, rfl⟩ | ⟨-, hb⟩
  · exact ha
  · exact h hb

theorem Each.erase (h : Each P f) : Each P (Function.update f i none) :=
  fun _ _ hb => h (update_none_iff.1 hb).2

/-- A loop over the keys changes the object at the next one. -/
theorem Registry.upto_set {key : β → Nat} {tab : Nat → Option ι} {k : Nat}
    {R : β → Prop} (h : Registry key tab f) (ha : f i = some a)
    (hkey : key a = k + 1) (hb : R b)
    (hR : Each (fun _ b => key b ≤ k → R b) f) :
    Each (fun _ b => key b ≤ k + 1 → R b)
      (Function.update f i (some b)) := by
  intro j b' hb' hle
  rcases update_some_iff.1 hb' with ⟨-, rfl⟩ | ⟨hne, hb'⟩
  · exact hb
  · refine hR hb' (Nat.le_of_lt_succ (Nat.lt_of_le_of_ne hle fun heq => ?_))
    exact hne (h.inj hb' ha (heq.trans hkey.symm))

end Each

/-- A loop over the keys that frees what it finds frees everything. `R` is
what it leaves alone. -/
theorem Registry.free_all {σ ε α ι ρ : Type} [DecidableEq ι] [DecidableEq ρ]
    {key : α → ι} (tab : σ → ι → Option ρ) (heap : σ → ρ → Option α)
    (freeAt : σ → ι → Except ε σ) (R : σ → σ → Prop) {s : σ} {keys : List ι}
    (hrefl : ∀ s, R s s) (htrans : ∀ s t u, R s t → R t u → R s u)
    (hnone : ∀ s i, tab s i = none → freeAt s i = .ok s)
    (hsome : ∀ s i p a, tab s i = some p → heap s p = some a → key a = i →
      ∃ s', freeAt s i = .ok s' ∧ R s s' ∧
        tab s' = Function.update (tab s) i none ∧
        heap s' = Function.update (heap s) p none)
    (h : Registry key (tab s) (heap s))
    (hkeys : Each (fun i _ => i ∈ keys) (tab s)) :
    ∃ s', runs freeAt s keys = .ok s' ∧ R s s' ∧ (∀ i, tab s' i = none) ∧
      ∀ p, heap s' p = none := by
  -- the invariant keeps every named key among those to come, so none is left
  -- at the end
  have hstep : ∀ t i, (Registry key (tab t) (heap t) ∧ R s t ∧
      Each (fun i _ => i ∈ keys) (tab t)) →
      ∃ t', freeAt t i = .ok t' ∧ (Registry key (tab t') (heap t') ∧ R s t' ∧
        Each (fun i _ => i ∈ keys) (tab t')) ∧ tab t' i = none ∧
        ∀ j, tab t j = none → tab t' j = none := by
    intro t i ht
    obtain ⟨hreg, hR, hkept⟩ := ht
    cases hp : tab t i with
    | none => exact ⟨t, hnone t i hp, ⟨hreg, hR, hkept⟩, hp, fun _ => id⟩
    | some p =>
        obtain ⟨a, ha, rfl⟩ := hreg.named hp
        obtain ⟨t', ht', hR', htab, hheap⟩ := hsome t (key a) p a hp ha rfl
        refine ⟨t', ht', ⟨?_, htrans s t t' hR hR', ?_⟩, ?_, fun j hj => ?_⟩
        · rw [htab, hheap]
          exact hreg.erase ha
        · rw [htab]
          exact hkept.erase
        · rw [htab, Function.update_self]
        · rw [htab, Function.update_apply]
          split
          · rfl
          · exact hj
  obtain ⟨s', hs', ⟨hreg, hR, hkept⟩, hgone, -⟩ :=
    runs.each _ (fun s i => tab s i = none) hstep ⟨h, hrefl s, hkeys⟩
  have hempty : ∀ i, tab s' i = none := fun i =>
    Option.eq_none_iff_forall_not_mem.2 fun p hp =>
      Option.some_ne_none p (hp.symm.trans (hgone i (hkept hp)))
  refine ⟨s', hs', hR, hempty, fun p => ?_⟩
  refine Option.eq_none_iff_forall_not_mem.2 fun a ha => ?_
  exact Option.some_ne_none p ((hreg.listed ha).symm.trans (hempty _))

-- ============================================================== owners

section Owned

variable {ρ β : Type} [DecidableEq ρ]

/-- The parts of the object at `p`. -/
def owned (p : ρ) (l : List (ρ × β)) : List β :=
  (l.filter (·.1 = p)).map Prod.snd

variable {p q : ρ} {b : β} {l l' : List (ρ × β)}

@[simp] theorem owned_nil : owned p ([] : List (ρ × β)) = [] := rfl

@[simp] theorem owned_cons_self :
    owned p ((p, b) :: l) = b :: owned p l := by
  simp [owned]

/-- Another's entry does not count. -/
theorem owned_cons_ne (h : q ≠ p) : owned p ((q, b) :: l) = owned p l := by
  simp [owned, h]

/-- What is owned is in the list under its owner. -/
@[simp] theorem mem_owned : b ∈ owned p l ↔ (p, b) ∈ l := by
  simp [owned]

theorem owned_eq_nil (h : ∀ r ∈ l, r.1 ≠ p) : owned p l = [] := by
  rw [owned, List.filter_eq_nil_iff.2 fun r hr => by simpa using h r hr]
  rfl

/-- The order among the owned follows the list's. -/
theorem owned_perm (h : l.Perm l') : (owned p l).Perm (owned p l') :=
  (h.filter _).map _

/-- Dropping one owner's entries leaves the others'. -/
theorem owned_filter_ne (h : q ≠ p) :
    owned q (l.filter (·.1 ≠ p)) = owned q l := by
  rw [owned, owned, List.filter_filter]
  congr 1
  refine List.filter_congr fun r _ => ?_
  by_cases hr : r.1 = q
  · simp [hr, h]
  · simp [hr]

end Owned

end FemuRemap.Lib
