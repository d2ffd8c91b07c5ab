/-
Rings of slots, which one side fills in order and the other empties in
order.

# Counts instead of indices

Both sides keep an index below the number `n` of slots. The proofs keep
counts: how many entries were ever written, and how many of them were
taken. The `i`th entry stands in slot `i % n`, so an index is a count
modulo `n`, and two counts less than `n` apart have the same index just
when they are equal (`slot_inj`).

# Stale entries

Nothing clears a slot. `Holds` says what is in the slots after a log of
writes, and `phase` is the bit that a writer flips on each lap: it tells
an entry from the one that stood in its slot a lap before
(`Holds.tag_eq_phase_iff`).
-/
import Mathlib.Data.Nat.ModEq
import Mathlib.Logic.Function.Basic
import Mathlib.Tactic.Common

namespace FemuRemap.Lib.Ring

variable {α : Type} {n i j d t : Nat}

-- ============================================================== slots

/-- Counts less than a lap apart share a slot only if they are equal. -/
theorem slot_inj (hle : i ≤ j) (hlt : j < i + n) :
    i % n = j % n ↔ i = j := by
  refine ⟨fun heq => ?_, fun heq => by rw [heq]⟩
  have hdvd : n ∣ j - i := (Nat.modEq_iff_dvd' hle).1 heq
  by_contra hne
  have := Nat.le_of_dvd (by omega) hdvd
  omega

/-- Less than a lap apart, two places have different slots. -/
theorem slot_ne (hlt : i < j) (hlap : j < i + n) : i % n ≠ j % n :=
  fun heq => Nat.ne_of_lt hlt ((slot_inj (Nat.le_of_lt hlt) hlap).1 heq)

/-- The next slot of the writer is that of the reader just when all slots
but one are taken. -/
theorem full_iff (hle : d ≤ t) (hlt : t < d + n) :
    (t % n + 1) % n = d % n ↔ t + 1 = d + n := by
  rw [Nat.mod_add_mod, ← Nat.add_mod_right d n]
  refine eq_comm.trans ?_
  rcases Nat.lt_or_ge (t + 1) (d + n) with hless | hge
  · -- a full lap back, the counts are less than a lap apart
    rw [Nat.add_mod_right, slot_inj (by omega) hless]
    omega
  · exact iff_of_true (by rw [show t + 1 = d + n by omega]) (by omega)

-- ============================================================== phase

/-- The bit of the `i`th entry: set on the first lap, and flipped on each
one. -/
def phase (n i : Nat) : Bool := i / n % 2 == 0

theorem phase_of_lt (h : i < n) : phase n i = true := by
  rw [phase, Nat.div_eq_of_lt h]
  rfl

theorem phase_lap (hn : 0 < n) : phase n (i + n) = !phase n i := by
  rw [phase, phase, Nat.add_div_right i hn]
  rw [Nat.add_mod]
  rcases Nat.mod_two_eq_zero_or_one (i / n) with h | h <;> rw [h] <;> rfl

/-- The next slot, as the indices of a ring are moved. -/
theorem slot_succ (hn : 0 < n) :
    (i + 1) % n = if n ≤ i % n + 1 then 0 else i % n + 1 := by
  have hlt := Nat.mod_lt i hn
  rw [← Nat.mod_add_mod]
  split
  case isTrue hwrap =>
    rw [show i % n + 1 = n by omega, Nat.mod_self]
  case isFalse hwrap => exact Nat.mod_eq_of_lt (by omega)

/-- The next entry is on the same lap, or the first one of the next. -/
theorem phase_succ (hn : 0 < n) :
    phase n (i + 1) = if n ≤ i % n + 1 then !phase n i else phase n i := by
  have hslot := slot_succ (i := i) hn
  rw [phase, phase]
  split at hslot
  case isTrue hwrap =>
    rw [Nat.succ_div_of_dvd (Nat.dvd_of_mod_eq_zero hslot), if_pos hwrap,
      Nat.add_mod]
    rcases Nat.mod_two_eq_zero_or_one (i / n) with h | h <;> rw [h] <;> rfl
  case isFalse hwrap =>
    rw [Nat.succ_div_of_mod_ne_zero (by omega), if_neg hwrap]

-- ========================================================= who is where

/-- How far the two sides have got, as counts: the writer has written
`written` entries and knows of `known` that were read, and the reader has
read `read` entries and seen that there are `seen`. -/
structure Flow (n known read seen written : Nat) : Prop where
  known_le : known ≤ read
  read_le : read ≤ seen
  seen_le : seen ≤ written
  room : written < known + n

namespace Flow

variable {known read seen written k s : Nat}

/-- The writer goes on unless that looks like an empty ring from what it knows
of the reader. -/
theorem write (h : Flow n known read seen written)
    (hroom : (written % n + 1) % n ≠ known % n) :
    Flow n known read seen (written + 1) := by
  obtain ⟨hkr, hrs, hsw, hlt⟩ := h
  have hne := mt (full_iff (by omega) hlt).2 hroom
  exact ⟨hkr, hrs, by omega, by omega⟩

/-- Different slots mean that something can be read. -/
theorem lt_of_ne (h : Flow n known read seen written)
    (hne : read % n ≠ seen % n) : read < seen :=
  Nat.lt_of_le_of_ne h.read_le fun heq => hne (by rw [heq])

theorem take (h : Flow n known read seen written) (hlt : read < seen) :
    Flow n known (read + 1) seen written :=
  ⟨Nat.le_succ_of_le h.known_le, hlt, h.seen_le, h.room⟩

/-- The writer learns how far the reader is. -/
theorem learn (h : Flow n known read seen written) (hle : known ≤ k)
    (hread : k ≤ read) : Flow n k read seen written :=
  ⟨hread, h.read_le, h.seen_le, by have := h.room; omega⟩

/-- The reader learns how far the writer is. -/
theorem see (h : Flow n known read seen written) (hle : seen ≤ s)
    (hs : s ≤ written) : Flow n known read s written :=
  ⟨h.known_le, Nat.le_trans h.read_le hle, hs, h.room⟩

end Flow

-- ============================================================ contents

/-- What the slots `m` hold once the entries of `log` were written, in
order and from slot 0 on: each one stays until its slot is written again,
and a slot not reached holds what it did. -/
structure Holds (n : Nat) (init m : Nat → α) (log : List α) : Prop where
  fresh : ∀ i, i < n → log.length ≤ i → m i = init i
  entry : ∀ i (h : i < log.length), log.length ≤ i + n → m (i % n) = log[i]

namespace Holds

variable {init m : Nat → α} {log : List α}

theorem nil (n : Nat) (init : Nat → α) : Holds n init init [] where
  fresh _ _ _ := rfl
  entry _ h := absurd h (Nat.not_lt_zero _)

/-- Write the next entry. -/
theorem push (h : Holds n init m log) (a : α) :
    Holds n init (Function.update m (log.length % n) a) (log ++ [a]) where
  fresh i hi hlen := by
    rw [List.length_append, List.length_singleton] at hlen
    rw [Function.update_of_ne, h.fresh i hi (by omega)]
    rw [Nat.mod_eq_of_lt (by omega)]
    omega
  entry i hi hlap := by
    rw [List.length_append, List.length_singleton] at hi hlap
    rcases Nat.lt_or_ge i log.length with hlt | hge
    · rw [Function.update_of_ne (slot_ne hlt (by omega)),
        h.entry i hlt (by omega), List.getElem_append_left hlt]
    · obtain rfl : i = log.length := by omega
      rw [Function.update_self, List.getElem_append_right (Nat.le_refl _)]
      simp

/-- Write to an entry again, before its slot is reused. -/
theorem set (h : Holds n init m log) (hi : i < log.length)
    (hlap : log.length ≤ i + n) (a : α) :
    Holds n init (Function.update m (i % n) a) (log.set i a) where
  fresh k hk hlen := by
    rw [List.length_set] at hlen
    rw [Function.update_of_ne, h.fresh k hk hlen]
    rw [Nat.mod_eq_of_lt (by omega)]
    omega
  entry k hk hlap' := by
    rw [List.length_set] at hk hlap'
    rw [List.getElem_set]
    split
    case isTrue heq => rw [heq, Function.update_self]
    case isFalse hne =>
      rw [Function.update_of_ne, h.entry k hk hlap']
      rcases Nat.lt_or_gt_of_ne hne with hlt | hgt
      · exact (slot_ne hlt (by omega)).symm
      · exact slot_ne hgt (by omega)

/-- The reader at count `i` sees the phase it expects just when the entry
has been written. -/
theorem tag_eq_phase_iff (h : Holds n init m log) {tag : α → Bool}
    (hn : 0 < n) (hinit : ∀ i, tag (init i) = false)
    (htag : ∀ k (hk : k < log.length), tag log[k] = phase n k)
    (hle : i ≤ log.length) (hlap : log.length ≤ i + n) :
    tag (m (i % n)) = phase n i ↔ i < log.length := by
  rcases Nat.lt_or_ge i log.length with hlt | hge
  · rw [h.entry i hlt hlap, htag i hlt]
    exact iff_of_true rfl hlt
  · obtain rfl : i = log.length := by omega
    refine iff_of_false ?_ (Nat.lt_irrefl _)
    rcases Nat.lt_or_ge log.length n with hfirst | hlater
    · rw [Nat.mod_eq_of_lt hfirst, h.fresh _ hfirst (Nat.le_refl _), hinit,
        phase_of_lt hfirst]
      decide
    · -- the slot still holds the entry of the lap before
      obtain ⟨k, hk⟩ : ∃ k, log.length = k + n :=
        ⟨_, (Nat.sub_add_cancel hlater).symm⟩
      have hklt : k < log.length := by omega
      rw [hk, Nat.add_mod_right, h.entry k hklt (by omega), htag k hklt,
        phase_lap hn]
      simp

end Holds

/-- The entries from slot `i` up to slot `stop`, of at most `fuel`. -/
def between (n : Nat) (m : Nat → α) (stop : Nat) : Nat → Nat → List α
  | 0, _ => []
  | fuel + 1, i =>
      if i = stop then []
      else m i :: between n m stop fuel ((i + 1) % n)

/-- Less than a lap back from the end of the log, the slots hold what is
left of it. -/
theorem Holds.between_eq {init m : Nat → α} {log : List α}
    (h : Holds n init m log) (fuel : Nat) (hle : i ≤ log.length)
    (hlt : log.length < i + n) (hfuel : log.length - i ≤ fuel) :
    between n m (log.length % n) fuel (i % n) = log.drop i := by
  induction fuel generalizing i with
  | zero =>
      rw [between, List.drop_eq_nil_of_le (by omega)]
  | succ fuel ih =>
      rw [between]
      split
      case isTrue heq =>
        have := (slot_inj hle hlt).1 heq
        rw [List.drop_eq_nil_of_le (by omega)]
      case isFalse hne =>
        have hi : i < log.length :=
          Nat.lt_of_le_of_ne hle fun heq => hne (by rw [heq])
        rw [Nat.mod_add_mod, ih hi (by omega) (by omega),
          h.entry i hi (by omega), ← List.drop_eq_getElem_cons hi]

end FemuRemap.Lib.Ring
