/-
An index of live items by key.

Every live item carries a key, and `find` gives for a key some live item
that carries it, or none: several live items may have one key, and a key
may have live items that the index does not know. `Indexed` says that
the index never answers with a dead item or one of another key. Three
changes keep it: the end of an item, which clears the answer for its key,
a new item, and the move of an item with its key to another place.
-/
import Mathlib.Logic.Function.Basic
import Mathlib.Tactic.Common

namespace FemuRemap.Lib

variable {ι κ : Type}

/-- What `find` answers is live and carries the key, and all live items
carry keys that are `ok`. -/
structure Indexed (live : ι → Prop) (key : ι → Option κ) (ok : κ → Prop)
    (find : κ → Option ι) : Prop where
  found : ∀ k i, find k = some i → live i ∧ key i = some k
  keyed : ∀ i, live i → ∃ k, key i = some k ∧ ok k

namespace Indexed

variable {live live' : ι → Prop} {key : ι → Option κ} {ok : κ → Prop}
  {find : κ → Option ι} {i j : ι} {k : κ}

theorem congr (h : Indexed live key ok find)
    (hl : ∀ i, live' i ↔ live i) : Indexed live' key ok find := by
  obtain rfl : live' = live := funext fun i => propext (hl i)
  exact h

variable [DecidableEq κ]

/-- An item ends, and its key is answered by none. -/
theorem drop (h : Indexed live key ok find) (hk : key i = some k)
    (hl : ∀ j, live' j ↔ live j ∧ j ≠ i) :
    Indexed live' key ok (Function.update find k none) where
  found k' j hj := by
    by_cases he : k' = k
    · rw [he, Function.update_self] at hj
      cases hj
    · rw [Function.update_of_ne he] at hj
      obtain ⟨hlive, hkey⟩ := h.found k' j hj
      refine ⟨(hl j).2 ⟨hlive, fun hji => he ?_⟩, hkey⟩
      rw [hji, hk] at hkey
      exact (Option.some.inj hkey).symm
  keyed j hj := h.keyed j ((hl j).1 hj).1

variable [DecidableEq ι]

/-- A new item is what its key is answered by. -/
theorem store (h : Indexed live key ok find) (hi : ¬ live i) (hk : ok k)
    (hl : ∀ j, live' j ↔ live j ∨ j = i) :
    Indexed live' (Function.update key i (some k)) ok
      (Function.update find k (some i)) where
  found k' j hj := by
    by_cases he : k' = k
    · rw [he, Function.update_self] at hj
      cases hj
      exact ⟨(hl i).2 (.inr rfl), by rw [Function.update_self, he]⟩
    · rw [Function.update_of_ne he] at hj
      obtain ⟨hlive, hkey⟩ := h.found k' j hj
      have hji : j ≠ i := fun hji => hi (hji ▸ hlive)
      exact ⟨(hl j).2 (.inl hlive), by rw [Function.update_of_ne hji, hkey]⟩
  keyed j hj := by
    by_cases hji : j = i
    · exact ⟨k, by rw [hji, Function.update_self], hk⟩
    · have hlive := ((hl j).1 hj).resolve_right hji
      rw [Function.update_of_ne hji]
      exact h.keyed j hlive

/-- An item moves to a place where there was none, and takes its key
along. -/
theorem move (h : Indexed live key ok find) (hi : live i) (hj : ¬ live j)
    (hk : key i = some k) (x : Option κ)
    (hl : ∀ l, live' l ↔ (live l ∧ l ≠ i) ∨ l = j) :
    Indexed live' (Function.update (Function.update key i x) j (some k)) ok
      (Function.update find k (some j)) := by
  obtain ⟨k', hk', hok⟩ := h.keyed i hi
  obtain rfl : k' = k := Option.some.inj (hk'.symm.trans hk)
  have hdrop : Indexed (fun l => live l ∧ l ≠ i) (Function.update key i x)
      ok (Function.update find k' none) := by
    have hrest := h.drop hk fun _ => Iff.rfl
    refine ⟨fun m l hl => ?_, fun l hl => ?_⟩
    · obtain ⟨hlive, hkey⟩ := hrest.found m l hl
      exact ⟨hlive, by rw [Function.update_of_ne hlive.2, hkey]⟩
    · rw [Function.update_of_ne hl.2]
      exact hrest.keyed l hl
  have hstore := hdrop.store (fun hl => hj hl.1) hok hl
  rw [Function.update_idem] at hstore
  exact hstore

end Indexed

end FemuRemap.Lib
