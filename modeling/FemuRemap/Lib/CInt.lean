/-
C's fixed-width integers over unbounded ones: a value is stored as a
`Nat` or an `Int`, and the conversion back to the width stands where
the C code stores the result. Signed narrowing wraps, as the compilers
in use define it.
-/
import Mathlib.Algebra.Order.Ring.Int

namespace FemuRemap.Lib

/-- Store into an `unsigned int`. -/
def u32 (x : Int) : Nat := (x % 2 ^ 32).toNat

/-- Store into a `uint64_t`. -/
def u64 (x : Int) : Nat := (x % 2 ^ 64).toNat

/-- Store into an `int64_t`. -/
def i64 (x : Int) : Int := (x + 2 ^ 63) % 2 ^ 64 - 2 ^ 63

/-- Store into an `int`. -/
def i32 (x : Int) : Int := (x + 2 ^ 31) % 2 ^ 32 - 2 ^ 31

/-- Store into an `int8_t`. -/
def i8 (x : Int) : Int := (x + 128) % 256 - 128

theorem u32_of_lt {x : Int} {n : Nat} (h : x = n) (hn : n < 2 ^ 32) :
    u32 x = n := by
  unfold u32
  omega

theorem u32_lt (x : Int) : u32 x < 2 ^ 32 := by
  unfold u32
  omega

theorem u64_lt (x : Int) : u64 x < 2 ^ 64 := by
  unfold u64
  omega

theorem u64_of_lt {x : Int} {n : Nat} (h : x = n) (hn : n < 2 ^ 64) :
    u64 x = n := by
  unfold u64
  omega

/-- On natural numbers the conversion is the remainder. -/
theorem u32_mod (n : Nat) : u32 n = n % 2 ^ 32 := by
  unfold u32
  omega

theorem u64_mod (n : Nat) : u64 n = n % 2 ^ 64 := by
  unfold u64
  omega

/-- Only the value modulo the width matters. -/
theorem u64_add (x k : Int) : u64 ((u64 x : Int) + k) = u64 (x + k) := by
  unfold u64
  omega

/-- An inner conversion can be dropped under a product, -/
theorem u64_mul (x k : Int) : u64 ((u64 x : Int) * k) = u64 (x * k) := by
  unfold u64
  rw [Int.toNat_of_nonneg (Int.emod_nonneg x (by decide)),
    Int.mul_emod (x % 2 ^ 64), Int.emod_emod_of_dvd x (Int.dvd_refl _),
    ← Int.mul_emod]

/-- and when done twice. -/
@[simp] theorem u64_u64 (x : Int) : u64 (u64 x : Int) = u64 x := by
  simpa using u64_add x 0

/-- Wrapping early does not matter, in sums nor in products. -/
theorem u32_add (x y : Int) : u32 ((u32 x : Int) + y) = u32 (x + y) := by
  unfold u32
  omega

/-- An inner conversion can be dropped under a sum, -/
theorem u32_add_u32 (x y : Int) : u32 (x + (u32 y : Int)) = u32 (x + y) := by
  unfold u32
  omega

/-- and under a product. -/
theorem u32_mul (x y : Int) : u32 ((u32 x : Int) * y) = u32 (x * y) := by
  unfold u32
  rw [Int.toNat_of_nonneg (Int.emod_nonneg x (by decide)),
    Int.mul_emod (x % 2 ^ 32), Int.emod_emod_of_dvd x (Int.dvd_refl _),
    ← Int.mul_emod]

/-- An `int` enters an `unsigned int` product modulo its width. -/
theorem u32_mul_i32 (x y : Int) : u32 (x * i32 y) = u32 (x * y) := by
  have hmod : i32 y % 2 ^ 32 = y % 2 ^ 32 := by
    unfold i32
    omega
  unfold u32
  rw [Int.mul_emod, hmod, ← Int.mul_emod]

/-- A natural number that fits the positive half is kept. -/
theorem i64_of_lt {x : Int} {n : Nat} (h : x = n) (hn : n < 2 ^ 63) :
    i64 x = n := by
  unfold i64
  omega

/-- A count of less than `2 ^ 32` is kept just when it is an `int`. -/
theorem i32_natCast_iff {n : Nat} (h : n < 2 ^ 32) :
    i32 n = n ↔ n < 2 ^ 31 := by
  unfold i32
  omega

/-- A natural number that fits the positive half is kept. -/
theorem i32_of_lt {x : Int} {n : Nat} (h : x = n) (hn : n < 2 ^ 31) :
    i32 x = n := by
  unfold i32
  omega

/-- Converting twice is converting once. -/
@[simp] theorem i32_i32 (x : Int) : i32 (i32 x) = i32 x := by
  unfold i32
  omega

/-- An inner conversion can be dropped under a sum, -/
@[simp] theorem i32_i32_add (x k : Int) : i32 (i32 x + k) = i32 (x + k) := by
  unfold i32
  omega

/-- and under a product. -/
theorem i32_i32_mul (x k : Int) : i32 (i32 x * k) = i32 (x * k) := by
  have hmod : ∀ y : Int, i32 y % 2 ^ 32 = y % 2 ^ 32 := by
    intro y
    unfold i32
    omega
  have heq : (i32 x * k) % 2 ^ 32 = (x * k) % 2 ^ 32 := by
    rw [Int.mul_emod, hmod, ← Int.mul_emod]
  unfold i32 at heq ⊢
  omega

/-- A value within the range is kept. -/
theorem i8_of_mem {x : Int} (hl : -128 ≤ x) (hu : x ≤ 127) :
    i8 x = x := by
  unfold i8
  omega

end FemuRemap.Lib
