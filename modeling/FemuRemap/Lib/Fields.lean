/-
Numbers made of bit fields.

A list of sizes, from the lowest field up, gives each field the bits
that its largest value needs. Packing is then as good as mixed radix
for telling tuples apart, and it can leave gaps: a packed number stays
below the product of the sizes just when every field with a field of
more than one value above it has a power of two as its size.
-/
import Mathlib.Algebra.BigOperators.Group.List.Basic
import Mathlib.Tactic.Common
import Mathlib.Tactic.Ring

namespace FemuRemap.Lib.Fields

-- ============================================================ widths

/-- The bits of a number: 32 minus its leading zeros, for 32 bits. -/
def bits (n : Nat) : Nat := if n = 0 then 0 else n.log2 + 1

/-- The bits for the values below `n`. -/
def width (n : Nat) : Nat := bits (n - 1)

/-- A value has at most `w` bits when it is below `2 ^ w`. -/
theorem bits_le_iff {n w : Nat} : bits n ≤ w ↔ n < 2 ^ w := by
  unfold bits
  by_cases hn : n = 0
  · simp [hn]
  · rw [if_neg hn, Nat.succ_le_iff, Nat.log2_lt hn]

/-- A width has room for the whole size. -/
theorem le_two_pow_width (n : Nat) : n ≤ 2 ^ width n := by
  have hlt : n - 1 < 2 ^ width n := bits_le_iff.1 le_rfl
  omega

-- =========================================================== packing

/-- The number with field `i` holding value `i`. -/
def pack : List Nat → List Nat → Nat
  | n :: ns, v :: vs => v + 2 ^ width n * pack ns vs
  | _, _ => 0

/-- The fields of a number. -/
def unpack : List Nat → Nat → List Nat
  | [], _ => []
  | n :: ns, x => x % 2 ^ width n :: unpack ns (x / 2 ^ width n)

/-- Every value is one of its field's. -/
def Fits (ns vs : List Nat) : Prop := List.Forall₂ (fun n v => v < n) ns vs

/-- The bits of all fields together. -/
def span (ns : List Nat) : Nat := (ns.map width).sum

theorem unpack_pack {ns vs : List Nat} (h : Fits ns vs) :
    unpack ns (pack ns vs) = vs := by
  induction h with
  | nil => rfl
  | @cons n v ns vs hv _ ih =>
    have hlt : v < 2 ^ width n := lt_of_lt_of_le hv (le_two_pow_width n)
    rw [pack, unpack, Nat.add_mul_mod_self_left, Nat.mod_eq_of_lt hlt,
      Nat.add_mul_div_left _ _ (Nat.two_pow_pos _),
      Nat.div_eq_of_lt hlt, Nat.zero_add, ih]

/-- There are at most as many addresses as words of the span. -/
theorem prod_le (ns : List Nat) : ns.prod ≤ 2 ^ span ns := by
  induction ns with
  | nil => exact le_rfl
  | cons n ns ih =>
    rw [List.prod_cons, span, List.map_cons, List.sum_cons, Nat.pow_add]
    exact Nat.mul_le_mul (le_two_pow_width n) ih

-- ============================================== the largest number

/-- The last tuple. -/
def top (ns : List Nat) : List Nat := ns.map (· - 1)

/-- The largest word, field by field. -/
theorem pack_top_cons (n : Nat) (ns : List Nat) :
    pack (n :: ns) (top (n :: ns))
      = n - 1 + 2 ^ width n * pack ns (top ns) := rfl

theorem fits_top {ns : List Nat} (h : ∀ n ∈ ns, 0 < n) :
    Fits ns (top ns) := by
  unfold Fits top
  rw [List.forall₂_map_right_iff]
  apply List.forall₂_same.2
  intro n hn
  exact Nat.sub_lt (h n hn) Nat.one_pos

theorem pack_le_top {ns vs : List Nat} (h : Fits ns vs) :
    pack ns vs ≤ pack ns (top ns) := by
  induction h with
  | nil => exact le_rfl
  | @cons n v ns vs hv _ ih =>
    have hmul : 2 ^ width n * pack ns vs ≤ 2 ^ width n * pack ns (top ns) :=
      Nat.mul_le_mul_left _ ih
    have hle : v ≤ n - 1 := by omega
    exact Nat.add_le_add hle hmul

/-- The last tuple leaves no room below the product. -/
theorem prod_le_top {ns : List Nat} (h : ∀ n ∈ ns, 0 < n) :
    ns.prod ≤ pack ns (top ns) + 1 := by
  induction ns with
  | nil => exact le_rfl
  | cons n ns ih =>
    have hn : 0 < n := h n (List.mem_cons_self ..)
    have ih := ih fun m hm => h m (List.mem_cons_of_mem _ hm)
    have hrest : n * pack ns (top ns) ≤ 2 ^ width n * pack ns (top ns) :=
      Nat.mul_le_mul_right _ (le_two_pow_width n)
    calc (n :: ns).prod = n * ns.prod := List.prod_cons
      _ ≤ n * (pack ns (top ns) + 1) := Nat.mul_le_mul_left _ ih
      _ = n * pack ns (top ns) + n := Nat.mul_succ ..
      _ ≤ 2 ^ width n * pack ns (top ns) + (n - 1 + 1) := by omega
      _ = pack (n :: ns) (top (n :: ns)) + 1 := by
          rw [pack_top_cons]
          omega

/-- It is zero when every field has one value only. -/
theorem pack_top_eq_zero_iff {ns : List Nat} (h : ∀ n ∈ ns, 0 < n) :
    pack ns (top ns) = 0 ↔ ∀ n ∈ ns, n = 1 := by
  induction ns with
  | nil => simp [pack]
  | cons n ns ih =>
    have hn : 0 < n := h n (List.mem_cons_self ..)
    have ih := ih fun m hm => h m (List.mem_cons_of_mem _ hm)
    rw [pack_top_cons, Nat.add_eq_zero_iff, Nat.mul_eq_zero, ih,
      List.forall_mem_cons]
    have hpow := Nat.two_pow_pos (width n)
    constructor
    · intro h
      exact ⟨by omega, h.2.resolve_left (by omega)⟩
    · intro h
      exact ⟨by omega, Or.inr h.2⟩

-- ================================================== no gaps, no excess

/-- Every field but the topmost one of several values is full. -/
def Tight : List Nat → Prop
  | [] => True
  | n :: ns => (n = 2 ^ width n ∨ ∀ m ∈ ns, m = 1) ∧ Tight ns

instance Tight.decidable : (ns : List Nat) → Decidable (Tight ns)
  | [] => inferInstanceAs (Decidable True)
  | n :: ns =>
      have := Tight.decidable ns
      inferInstanceAs
        (Decidable ((n = 2 ^ width n ∨ ∀ m ∈ ns, m = 1) ∧ Tight ns))

/-- A field that is not full lifts what is above it over the product. -/
private theorem top_lt_prod_cons {n : Nat} {ns : List Nat} (hn : 0 < n)
    (h : ∀ m ∈ ns, 0 < m) :
    pack (n :: ns) (top (n :: ns)) < (n :: ns).prod
      ↔ (n = 2 ^ width n ∨ ∀ m ∈ ns, m = 1)
        ∧ pack ns (top ns) < ns.prod := by
  have hroom := prod_le_top h
  have hw := le_two_pow_width n
  rw [pack_top_cons, List.prod_cons, ← pack_top_eq_zero_iff h]
  generalize pack ns (top ns) = M at hroom ⊢
  generalize ns.prod = R at hroom ⊢
  constructor
  · intro hlt
    have hMR : M < R := by
      by_contra hge
      have hmul : n * R ≤ 2 ^ width n * M :=
        Nat.mul_le_mul hw (by omega)
      omega
    have hR : R = M + 1 := by omega
    refine ⟨?_, hMR⟩
    by_cases hfull : n = 2 ^ width n
    · exact Or.inl hfull
    · apply Or.inr
      by_contra hM
      have hmul : (n + 1) * M ≤ 2 ^ width n * M :=
        Nat.mul_le_mul_right _ (by omega)
      rw [hR, Nat.mul_succ] at hlt
      rw [Nat.add_mul, Nat.one_mul] at hmul
      omega
  · rintro ⟨hfull, hMR⟩
    have hR : R = M + 1 := by omega
    rw [hR, Nat.mul_succ]
    rcases hfull with hfull | rfl
    · rw [← hfull]
      omega
    · omega

/-- It is below the number of addresses exactly when no width leaves a gap
below another field. -/
theorem top_lt_prod_iff {ns : List Nat} (h : ∀ n ∈ ns, 0 < n) :
    pack ns (top ns) < ns.prod ↔ Tight ns := by
  induction ns with
  | nil => simp [pack, Tight]
  | cons n ns ih =>
    have hns : ∀ m ∈ ns, 0 < m := fun m hm => h m (List.mem_cons_of_mem _ hm)
    rw [top_lt_prod_cons (h n (List.mem_cons_self ..)) hns, ih hns]
    rfl

/-- Packed tuples stay below the product just when no field below one
of several values has a gap. -/
theorem pack_lt_prod_iff {ns : List Nat} (h : ∀ n ∈ ns, 0 < n) :
    (∀ vs, Fits ns vs → pack ns vs < ns.prod) ↔ Tight ns := by
  rw [← top_lt_prod_iff h]
  constructor
  · intro hall
    exact hall _ (fits_top h)
  · intro htop vs hvs
    exact lt_of_le_of_lt (pack_le_top hvs) htop

end FemuRemap.Lib.Fields
