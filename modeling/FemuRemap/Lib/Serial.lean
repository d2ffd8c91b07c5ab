/-
Resources that serve one use at a time, by the instant at which each is
available next.

`Books a a' us` is what a step does to such instants: it takes them from
`a` to `a'` and makes the uses `us`, each of them in the time that it
added. Steps compose (`Books.trans`), so a run of steps is again one, and
its uses of a resource follow each other without overlap.
-/
import Mathlib.Data.List.Basic
import Mathlib.Tactic.Common

namespace FemuRemap.Lib

variable {ρ : Type}

/-- A resource is in use from `start` to `stop`. -/
structure Use (ρ : Type) where
  on : ρ
  start : Int
  stop : Int

/-- The second use waits for the first if they are of one resource. -/
def Apart (u v : Use ρ) : Prop := u.on = v.on → u.stop ≤ v.start

/-- A step from `a` to `a'` that makes the uses `us`. -/
structure Books (a a' : ρ → Int) (us : List (Use ρ)) : Prop where
  mono : ∀ r, a r ≤ a' r
  apart : us.Pairwise Apart
  after : ∀ u ∈ us, a u.on ≤ u.start
  before : ∀ u ∈ us, u.stop ≤ a' u.on

namespace Books

variable {a a' a'' : ρ → Int} {us vs : List (Use ρ)}

theorem refl (a : ρ → Int) : Books a a [] where
  mono _ := Int.le_refl _
  apart := .nil
  after _ hu := nomatch hu
  before _ hu := nomatch hu

theorem trans (h : Books a a' us) (h' : Books a' a'' vs) :
    Books a a'' (us ++ vs) where
  mono r := Int.le_trans (h.mono r) (h'.mono r)
  apart := by
    refine List.pairwise_append.2 ⟨h.apart, h'.apart, fun u hu v hv hon => ?_⟩
    calc u.stop ≤ a' u.on := h.before u hu
      _ = a' v.on := by rw [hon]
      _ ≤ v.start := h'.after v hv
  after u hu := by
    rcases List.mem_append.1 hu with hu | hu
    · exact h.after u hu
    · exact Int.le_trans (h.mono u.on) (h'.after u hu)
  before u hu := by
    rcases List.mem_append.1 hu with hu | hu
    · exact Int.le_trans (h.before u hu) (h'.mono u.on)
    · exact h'.before u hu

/-- One use, from when the resource is available on. -/
theorem one (u : Use ρ) (hmono : ∀ r, a r ≤ a' r)
    (hafter : a u.on ≤ u.start) (hbefore : u.stop ≤ a' u.on) :
    Books a a' [u] where
  mono := hmono
  apart := List.pairwise_singleton _ _
  after v hv := by
    rw [List.mem_singleton.1 hv]
    exact hafter
  before v hv := by
    rw [List.mem_singleton.1 hv]
    exact hbefore

/-- Uses of two resources. -/
theorem two {u v : Use ρ} (hne : u.on ≠ v.on) (hmono : ∀ r, a r ≤ a' r)
    (hu : a u.on ≤ u.start ∧ u.stop ≤ a' u.on)
    (hv : a v.on ≤ v.start ∧ v.stop ≤ a' v.on) : Books a a' [u, v] where
  mono := hmono
  apart := List.pairwise_pair.2 fun hon => absurd hon hne
  after w hw := by
    rcases List.mem_pair.1 hw with rfl | rfl
    · exact hu.1
    · exact hv.1
  before w hw := by
    rcases List.mem_pair.1 hw with rfl | rfl
    · exact hu.2
    · exact hv.2

end Books

end FemuRemap.Lib
