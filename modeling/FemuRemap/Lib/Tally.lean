/-
Tallies: sums over the first `n` naturals, for statistics that are kept
up to date entry by entry.

`tally_set` is the rule for a change at one index, stated without
subtraction: the new tally plus the old entry is the old tally plus the
new entry. `ind` is the entry of a count.
-/
import Mathlib.Algebra.BigOperators.Group.Finset.Basic
import Mathlib.Algebra.BigOperators.Group.Finset.Piecewise
import Mathlib.Algebra.BigOperators.Ring.Finset
import Mathlib.Algebra.BigOperators.Group.Finset.Sigma
import Mathlib.Algebra.Order.BigOperators.Group.Finset
import Mathlib.Tactic.Abel

namespace FemuRemap.Lib

/-- The sum of `g` over the indices below `n`. -/
def tally {M : Type} [AddCommMonoid M] (n : Nat) (g : Nat → M) : M :=
  ∑ x ∈ Finset.range n, g x

/-- One if the condition holds: `tally n fun x => ind (P x)` counts. -/
def ind (P : Prop) [Decidable P] : Nat := if P then 1 else 0

@[simp] theorem ind_true {P : Prop} [Decidable P] (h : P) : ind P = 1 :=
  if_pos h

@[simp] theorem ind_false {P : Prop} [Decidable P] (h : ¬ P) :
    ind P = 0 :=
  if_neg h

theorem ind_le (P : Prop) [Decidable P] : ind P ≤ 1 := by
  unfold ind
  split <;> omega

/-- An indicator depends on the truth of the proposition only. -/
theorem ind_congr {P Q : Prop} [Decidable P] [Decidable Q] (h : P ↔ Q) :
    ind P = ind Q :=
  if_congr h rfl rfl

section Sums

variable {M : Type} [AddCommMonoid M] {n q : Nat} {g f : Nat → M}

/-- A sum depends on its first `n` terms only. -/
theorem tally_congr (h : ∀ x, x < n → g x = f x) :
    tally n g = tally n f :=
  Finset.sum_congr rfl fun x hx => h x (Finset.mem_range.1 hx)

/-- A change at one index. -/
theorem tally_set (hq : q < n) (h : ∀ x, x < n → x ≠ q → f x = g x) :
    tally n f + g q = tally n g + f q := by
  have hm : q ∈ Finset.range n := Finset.mem_range.2 hq
  have hrest : ∑ x ∈ (Finset.range n).erase q, f x
      = ∑ x ∈ (Finset.range n).erase q, g x := by
    refine Finset.sum_congr rfl fun x hx => ?_
    rw [Finset.mem_erase, Finset.mem_range] at hx
    exact h x hx.2 hx.1
  unfold tally
  rw [← Finset.add_sum_erase _ f hm, ← Finset.add_sum_erase _ g hm, hrest]
  abel

theorem tally_add : tally n (fun x => g x + f x) = tally n g + tally n f :=
  Finset.sum_add_distrib

theorem sum_range (n : Nat) (g : Nat → M) :
    ((List.range n).map g).sum = tally n g := by
  induction n with
  | zero => rfl
  | succ n ih =>
      rw [List.range_succ, List.map_append, List.sum_append, ih, tally,
        tally, Finset.sum_range_succ]
      simp

/-- Terms that vanish sum to nothing. -/
theorem tally_eq_zero (h : ∀ x, x < n → g x = 0) : tally n g = 0 :=
  Finset.sum_eq_zero fun x hx => h x (Finset.mem_range.1 hx)

theorem tally_mono [PartialOrder M] [IsOrderedAddMonoid M]
    (h : ∀ x, x < n → g x ≤ f x) : tally n g ≤ tally n f :=
  Finset.sum_le_sum fun x hx => h x (Finset.mem_range.1 hx)

end Sums

theorem mul_tally (n : Nat) (k : Int) (g : Nat → Int) :
    k * tally n g = tally n fun x => k * g x :=
  Finset.mul_sum ..

theorem cast_tally (n : Nat) (g : Nat → Nat) :
    ((tally n g : Nat) : Int) = tally n fun x => (g x : Int) :=
  Nat.cast_sum ..

variable {n q : Nat} {g : Nat → Nat}

theorem le_tally (hq : q < n) : g q ≤ tally n g :=
  Finset.single_le_sum (f := g) (fun _ _ => Nat.zero_le _)
    (Finset.mem_range.2 hq)

/-- A bound on the terms is one on the sum. -/
theorem tally_le {k : Nat} (h : ∀ x, x < n → g x ≤ k) :
    tally n g ≤ n * k := by
  have := Finset.sum_le_card_nsmul (Finset.range n) g k
    fun x hx => h x (Finset.mem_range.1 hx)
  simpa [tally] using this

theorem tally_comm {k : Nat} (g : Nat → Nat → Nat) :
    tally n (fun x => tally k fun y => g x y)
      = tally k fun y => tally n fun x => g x y :=
  Finset.sum_comm

theorem tally_ind (P : Nat → Prop) [DecidablePred P] :
    tally n (fun x => ind (P x)) = ((Finset.range n).filter P).card := by
  rw [Finset.card_filter]
  rfl

theorem countP_range (n : Nat) (P : Nat → Prop) [DecidablePred P] :
    (List.range n).countP P = tally n fun x => ind (P x) := by
  rw [← sum_range]
  induction List.range n with
  | nil => rfl
  | cons x l ih =>
      rw [List.map_cons, List.sum_cons, ← ih, List.countP_cons]
      by_cases hx : P x <;> simp [ind, hx, Nat.add_comm]

/-- Counting along an injection. -/
theorem tally_ind_le {P Q : Nat → Prop} [DecidablePred P]
    [DecidablePred Q] (f : Nat → Nat)
    {k : Nat} (hf : ∀ x, x < n → P x → f x < k ∧ Q (f x))
    (hinj : ∀ x y, x < n → y < n → P x → P y → f x = f y → x = y) :
    tally n (fun x => ind (P x)) ≤ tally k fun x => ind (Q x) := by
  rw [tally_ind, tally_ind]
  refine Finset.card_le_card_of_injOn f (fun x hx => ?_) fun x hx y hy => ?_
  · rw [Finset.mem_coe, Finset.mem_filter, Finset.mem_range] at hx ⊢
    exact hf x hx.1 hx.2
  · rw [Finset.mem_coe, Finset.mem_filter, Finset.mem_range] at hx hy
    exact hinj x y hx.1 hy.1 hx.2 hy.2

/-- What determines its index is counted once. -/
theorem tally_ind_le_one {P : Nat → Prop} [DecidablePred P]
    (h : ∀ x y, P x → P y → x = y) :
    tally n (fun x => ind (P x)) ≤ 1 := by
  rw [tally_ind, Finset.card_le_one]
  intro x hx y hy
  exact h x y (Finset.mem_filter.1 hx).2 (Finset.mem_filter.1 hy).2

theorem tally_const (n k : Nat) : tally n (fun _ => k) = n * k := by
  simp [tally]

/-- One entry below the bound of the others. -/
theorem tally_lt {k : Nat} (h : ∀ x, x < n → g x ≤ k) (hq : q < n)
    (hlt : g q < k) : tally n g < n * k := by
  rw [← tally_const]
  exact Finset.sum_lt_sum (fun x hx => h x (Finset.mem_range.1 hx))
    ⟨q, Finset.mem_range.2 hq, hlt⟩

/-- The indices from `m` on. -/
theorem tally_from {m : Nat} (hm : m ≤ n) :
    tally n (fun x => ind (m ≤ x)) + m = n := by
  induction n with
  | zero => simpa [tally] using hm
  | succ n ih =>
      simp only [tally] at ih ⊢
      rw [Finset.sum_range_succ]
      rcases Nat.lt_or_ge n m with hlt | hge
      · have hzero : ∑ x ∈ Finset.range n, ind (m ≤ x) = 0 :=
          Finset.sum_eq_zero fun x hx =>
            ind_false (by have := Finset.mem_range.1 hx; omega)
        rw [hzero, ind_false (by omega)]
        omega
      · rw [ind_true hge]
        have := ih hge
        omega

/-- A range laid out in rows. -/
theorem tally_rows {a k : Nat} (row col : Nat → Nat)
    (at_ : Nat → Nat → Nat)
    (hq : ∀ x, x < n → row x < a ∧ col x < k ∧ at_ (row x) (col x) = x)
    (hat : ∀ i j, i < a → j < k →
      at_ i j < n ∧ row (at_ i j) = i ∧ col (at_ i j) = j) :
    tally n g = tally a fun i => tally k fun j => g (at_ i j) := by
  unfold tally
  rw [← Finset.sum_product']
  refine Finset.sum_bij' (fun x _ => (row x, col x))
    (fun y _ => at_ y.1 y.2) ?_ ?_ ?_ ?_ ?_
  · intro x hx
    obtain ⟨h₁, h₂, -⟩ := hq x (Finset.mem_range.1 hx)
    exact Finset.mem_product.2
      ⟨Finset.mem_range.2 h₁, Finset.mem_range.2 h₂⟩
  · intro y hy
    obtain ⟨h₁, h₂⟩ := Finset.mem_product.1 hy
    exact Finset.mem_range.2 (hat _ _ (Finset.mem_range.1 h₁)
      (Finset.mem_range.1 h₂)).1
  · intro x hx
    exact (hq x (Finset.mem_range.1 hx)).2.2
  · intro y hy
    obtain ⟨h₁, h₂⟩ := Finset.mem_product.1 hy
    obtain ⟨-, h₃, h₄⟩ := hat _ _ (Finset.mem_range.1 h₁)
      (Finset.mem_range.1 h₂)
    exact Prod.ext h₃ h₄
  · intro x hx
    rw [(hq x (Finset.mem_range.1 hx)).2.2]

end FemuRemap.Lib
