/-
Byte buffers addressed by offset.

`store` and `load` are the two directions of `memcpy` on a buffer given
byte by byte, and `leWord` and `leBytes` the bytes of an unsigned
integer on a little-endian machine.
-/
import Mathlib.Algebra.Order.Ring.Int
import Mathlib.Tactic.Common

namespace FemuRemap.Lib

/-- A buffer, byte by byte. -/
abbrev Bytes : Type := Nat → UInt8

/-- Copy `bs` to offset `o`. -/
def store (m : Bytes) (o : Nat) (bs : List UInt8) : Bytes := fun i =>
  if i < o then m i else (bs[i - o]?).getD (m i)

/-- The `n` bytes at offset `o`. -/
def load (m : Bytes) (o n : Nat) : List UInt8 :=
  (List.range n).map fun i => m (o + i)

/-- The integer whose bytes these are, the least one first. -/
def leWord : List UInt8 → Nat
  | [] => 0
  | b :: bs => b.toNat + 256 * leWord bs

/-- The lowest `n` bytes of an integer. -/
def leBytes : Nat → Nat → List UInt8
  | 0, _ => []
  | n + 1, w => UInt8.ofNat w :: leBytes n (w / 256)

variable {m m' : Bytes} {o i n : Nat} {bs : List UInt8}

theorem store_out (h : i < o ∨ o + bs.length ≤ i) :
    store m o bs i = m i := by
  unfold store
  split
  · rfl
  · rw [List.getElem?_eq_none (by omega), Option.getD_none]

/-- Bytes inside are the stored ones. -/
theorem store_in (h : i < bs.length) : store m o bs (o + i) = bs[i] := by
  unfold store
  rw [if_neg (by omega), Nat.add_sub_cancel_left, List.getElem?_eq_getElem h,
    Option.getD_some]

@[simp] theorem length_load : (load m o n).length = n := by
  simp [load]

/-- Two loads agree when their bytes do. -/
theorem load_eq_iff : load m o n = bs
    ↔ bs.length = n ∧ ∀ i (h : i < bs.length), m (o + i) = bs[i] := by
  constructor
  · rintro rfl
    exact ⟨length_load, fun i h => by simp [load]⟩
  · rintro ⟨rfl, h⟩
    refine List.ext_getElem (by simp) fun i h₁ h₂ => ?_
    rw [← h i h₂]
    simp [load]

/-- A load depends on its bytes only. -/
theorem load_congr (h : ∀ i, i < n → m (o + i) = m' (o + i)) :
    load m o n = load m' o n :=
  List.map_congr_left fun i hi => h i (List.mem_range.1 hi)

/-- What was stored is loaded back. -/
theorem load_store_self : load (store m o bs) o bs.length = bs :=
  load_eq_iff.2 ⟨rfl, fun _ h => store_in h⟩

/-- A load beside the store does not see it. -/
theorem load_store_out {o' : Nat}
    (h : o' + n ≤ o ∨ o + bs.length ≤ o') :
    load (store m o bs) o' n = load m o' n :=
  load_congr fun i hi => store_out (by omega)

@[simp] theorem length_leBytes (n w : Nat) : (leBytes n w).length = n := by
  induction n generalizing w with
  | zero => rfl
  | succ n ih => simp [leBytes, ih]

/-- An integer that has room is read back from its bytes. -/
theorem leWord_leBytes {w : Nat} (h : w < 256 ^ n) :
    leWord (leBytes n w) = w := by
  induction n generalizing w with
  | zero =>
      rw [Nat.pow_zero, Nat.lt_one_iff] at h
      exact h.symm
  | succ n ih =>
      rw [Nat.pow_succ] at h
      rw [leBytes, leWord, ih (Nat.div_lt_of_lt_mul (by omega)),
        UInt8.toNat_ofNat']
      omega

/-- Words of one length are equal when their bytes are. -/
theorem leWord_inj {as bs : List UInt8} (hl : as.length = bs.length)
    (h : leWord as = leWord bs) : as = bs := by
  induction as generalizing bs with
  | nil => exact (List.length_eq_zero_iff.1 hl.symm).symm
  | cons a as ih =>
      obtain _ | ⟨b, bs⟩ := bs
      · cases hl
      · have ha := a.toNat_lt
        have hb := b.toNat_lt
        simp only [leWord] at h
        have hab : a = b := UInt8.toNat_inj.1 (by omega)
        rw [hab, ih (by simpa using hl) (by omega)]

end FemuRemap.Lib
