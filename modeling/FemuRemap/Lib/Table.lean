/-
Total tables over the naturals: the stand-in for a C array that was
filled with one initial value and is then written entry by entry.

# Representation

A table is a default value and a binary tree of the entries written so
far; the children of index `n` are `2n + 1` and `2n + 2`. Reading never
fails: an index that was never written yields the default. The tree
only keeps the definitions cheap to run — every proof goes through
`get_set`, `get_fill` and `get_ofFn` and never looks inside.
-/
import Mathlib.Logic.Function.Basic
import Mathlib.Tactic.Common

namespace FemuRemap.Lib

/-- Entries written so far, keyed by position. -/
inductive Tree (α : Type) where
  | leaf : Tree α
  | node : Tree α → Option α → Tree α → Tree α

namespace Tree

variable {α : Type}

/-- Subtree of the odd indices. -/
def left : Tree α → Tree α
  | leaf => leaf
  | node l _ _ => l

/-- Entry at index zero. -/
def root : Tree α → Option α
  | leaf => none
  | node _ v _ => v

/-- Subtree of the even indices above zero. -/
def right : Tree α → Tree α
  | leaf => leaf
  | node _ _ r => r

/-- The entry at an index, if it was written. -/
def find : Tree α → Nat → Option α
  | leaf, _ => none
  | node l v r, n =>
      if n = 0 then v
      else if n % 2 = 1 then l.find (n / 2)
      else r.find (n / 2 - 1)

/-- Write one entry; the fuel bounds the depth and `n + 1` suffices. -/
def insert : Nat → Tree α → Nat → α → Tree α
  | 0, t, _, _ => t
  | f + 1, t, n, a =>
      if n = 0 then node t.left (some a) t.right
      else if n % 2 = 1 then
        node (insert f t.left (n / 2) a) t.root t.right
      else node t.left t.root (insert f t.right (n / 2 - 1) a)

/-- A leaf answers like a node without entries. -/
theorem find_eq (t : Tree α) (n : Nat) :
    t.find n = if n = 0 then t.root
      else if n % 2 = 1 then t.left.find (n / 2)
      else t.right.find (n / 2 - 1) := by
  cases t with
  | leaf => simp [find, root, left, right]
  | node l v r => rfl

/-- One key is changed. The fuel covers the digits of the key. -/
theorem find_insert (f : Nat) (t : Tree α) (n m : Nat) (a : α)
    (hf : n < f) :
    (insert f t n a).find m = if m = n then some a else t.find m := by
  induction f generalizing t n m with
  | zero => omega
  | succ f ih =>
      rw [find_eq t m]
      unfold insert
      -- the two indices part at this level or go on into the same child
      by_cases hn : n = 0
      · rw [if_pos hn, find, hn]
        split <;> rfl
      · rw [if_neg hn]
        by_cases hp : n % 2 = 1
        · rw [if_pos hp, find]
          by_cases hm : m = 0
          · rw [if_pos hm, if_pos hm, if_neg (by omega)]
          · rw [if_neg hm, if_neg hm]
            by_cases hq : m % 2 = 1
            · rw [if_pos hq, if_pos hq, ih _ _ _ (by omega)]
              exact if_congr (by omega) rfl rfl
            · rw [if_neg hq, if_neg hq, if_neg (by omega)]
        · rw [if_neg hp, find]
          by_cases hm : m = 0
          · rw [if_pos hm, if_pos hm, if_neg (by omega)]
          · rw [if_neg hm, if_neg hm]
            by_cases hq : m % 2 = 1
            · rw [if_pos hq, if_pos hq, if_neg (by omega)]
            · rw [if_neg hq, if_neg hq, ih _ _ _ (by omega)]
              exact if_congr (by omega) rfl rfl

end Tree

/-- A table: what every entry holds initially, and the writes. -/
structure Table (α : Type) where
  dflt : α
  tree : Tree α

namespace Table

variable {α : Type}

/-- The table whose entries all hold `d`. -/
def fill (d : α) : Table α := ⟨d, .leaf⟩

/-- Read one entry. -/
def get (t : Table α) (n : Nat) : α := (t.tree.find n).getD t.dflt

/-- Write one entry. -/
def set (t : Table α) (n : Nat) (a : α) : Table α :=
  { t with tree := t.tree.insert (n + 1) n a }

/-- The table of a function on the first `k` indices. -/
def ofFn (d : α) (k : Nat) (f : Nat → α) : Table α :=
  (List.range k).foldl (fun t i => t.set i (f i)) (fill d)

instance : CoeFun (Table α) fun _ => Nat → α := ⟨get⟩

@[simp] theorem get_fill (d : α) (n : Nat) : fill d n = d := rfl

theorem get_set (t : Table α) (n m : Nat) (a : α) :
    t.set n a m = if m = n then a else t m := by
  unfold set get
  rw [Tree.find_insert _ _ _ _ _ (Nat.lt_succ_self n)]
  split <;> rfl

@[simp] theorem get_set_self (t : Table α) (n : Nat) (a : α) :
    t.set n a n = a := by
  rw [get_set, if_pos rfl]

theorem get_set_ne (t : Table α) {n m : Nat} (a : α) (h : m ≠ n) :
    t.set n a m = t m := by
  rw [get_set, if_neg h]

/-- A write that keeps what `f` reads. -/
theorem apply_set {β : Type} (f : α → β) (t : Table α) {n : Nat} {a : α}
    (h : f a = f (t n)) (m : Nat) : f (t.set n a m) = f (t m) := by
  rw [get_set]
  split
  · next hm => rw [h, hm]
  · rfl

/-- Writing an entry updates the function the table is. -/
theorem get_set_eq (t : Table α) (n : Nat) (a : α) :
    (t.set n a).get = Function.update t.get n a := by
  funext m
  rw [get_set, Function.update_apply]

/-- A table of the first `k` values. -/
theorem get_ofFn (d : α) (k : Nat) (f : Nat → α) (n : Nat) :
    ofFn d k f n = if n < k then f n else d := by
  unfold ofFn
  induction k with
  | zero => simp
  | succ k ih =>
      rw [List.range_succ, List.foldl_append]
      simp only [List.foldl_cons, List.foldl_nil, get_set, ih]
      split
      · next h => rw [if_pos (by omega), h]
      · next h => exact if_congr (by omega) rfl rfl

-- ============================================== index-by-index loops

/-- `t'` is `t` with the first `k` entries replaced by those of `f`. -/
def Upto (f : Nat → α) (k : Nat) (t t' : Table α) : Prop :=
  ∀ n, t' n = if n < k then f n else t n

namespace Upto

variable {f : Nat → α} {k n : Nat} {t t' : Table α}

theorem zero (f : Nat → α) (t : Table α) : Upto f 0 t t := by
  intro n
  rw [if_neg (Nat.not_lt_zero n)]

theorem set (h : Upto f k t t') : Upto f (k + 1) t (t'.set k (f k)) := by
  intro n
  rw [get_set, h n]
  split
  · next he => rw [if_pos (by omega), he]
  · next he => exact if_congr (by omega) rfl rfl

/-- What was written, -/
theorem get_lt (h : Upto f k t t') (hn : n < k) : t' n = f n := by
  rw [h n, if_pos hn]

/-- and what was not. -/
theorem get_ge (h : Upto f k t t') (hn : k ≤ n) : t' n = t n := by
  rw [h n, if_neg (Nat.not_lt.2 hn)]

end Upto

end Table

end FemuRemap.Lib
