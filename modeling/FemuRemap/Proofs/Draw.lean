/-
The draw finds the fingerprint whose interval of the distribution holds
the number drawn.

Between iterations the number lies above the sum at `low` and not above
the one at `high` (`Search.Around`), so the two differ and only the
`break` ends the loop. `mid` is rounded up and lies strictly above `low`,
so `low = mid` narrows the search as `high = mid - 1` does.
-/
import FemuRemap.Model.Draw
import Mathlib.Data.Nat.Basic

namespace FemuRemap.Dedup

open Lib

variable {α : Type} [LinearOrder α] {pzipf : Int → α} {data : α}
  {u : Int} {x : Search}

/-- Fingerprint `f` is the one drawn by `data`. -/
def Drawn (pzipf : Int → α) (data : α) (f : Int) : Prop :=
  pzipf (f - 1) < data ∧ data ≤ pzipf f

/-- Every index read is one of the table. -/
def ReadsWithin (u : Int) (reads : List (List Int)) : Prop :=
  ∀ is ∈ reads, ∀ i ∈ is, 0 ≤ i ∧ i ≤ u

theorem ReadsWithin.cons {is : List Int} {reads : List (List Int)}
    (his : ∀ i ∈ is, 0 ≤ i ∧ i ≤ u) (h : ReadsWithin u reads) :
    ReadsWithin u (is :: reads) := by
  intro js hjs
  cases hjs with
  | head => exact his
  | tail _ hjs => exact h js hjs

/-- The search is on, within the table. -/
structure Search.Within (u : Int) (x : Search) : Prop where
  low : 0 ≤ x.low
  order : x.low ≤ x.high
  high : x.high ≤ u
  goes : x.stopped = false
  fing : x.fing = 0

/-- The search starts within the table. -/
theorem Search.Within.start (hu : 1 ≤ u) : (drawStart u).Within u where
  low := Int.le_refl 0
  order := by
    show (0 : Int) ≤ u
    omega
  high := Int.le_refl u
  goes := rfl
  fing := rfl

/-- The middle is rounded up: it is above the low end. -/
theorem Search.mid_mem (h : x.low < x.high) :
    x.low < x.mid ∧ x.mid ≤ x.high := by
  have hmid : x.mid = x.low + (x.high - x.low + 1) / 2 := by
    rw [Search.mid, Int.tdiv_eq_ediv_of_nonneg (by omega)]
  omega

/-- `mid` and the index before it are read. -/
theorem Search.Within.reads (h : x.Within u) (hlt : x.low < x.high) :
    (0 ≤ x.mid ∧ x.mid ≤ u) ∧ 0 ≤ x.mid - 1 ∧ x.mid - 1 ≤ u := by
  have hlow := h.low
  have hhigh := h.high
  obtain ⟨hm, hm'⟩ := x.mid_mem hlt
  omega

/-- So moving the low end to it keeps the search inside, -/
theorem Search.Within.raise (h : x.Within u) (hlt : x.low < x.high) :
    Search.Within u { x with low := x.mid } := by
  have hlow := h.low
  obtain ⟨hm, hm'⟩ := x.mid_mem hlt
  refine ⟨?_, hm', h.high, h.goes, h.fing⟩
  show 0 ≤ x.mid
  omega

/-- and so does moving the high end below it. -/
theorem Search.Within.lower (h : x.Within u) (hlt : x.low < x.high) :
    Search.Within u { x with high := x.mid - 1 } := by
  have hhigh := h.high
  obtain ⟨hm, hm'⟩ := x.mid_mem hlt
  refine ⟨h.low, ?_, ?_, h.goes, h.fing⟩
  · show x.low ≤ x.mid - 1
    omega
  · show x.mid - 1 ≤ u
    omega

-- ============================================================ the body

/-- The three things an iteration can do. -/
theorem drawBody_found (h : x.Within u) (hlt : x.low < x.high)
    (hf : Drawn pzipf data x.mid) :
    drawBody pzipf data x = some ([x.mid, x.mid - 1],
      { x with fing := x.mid, stopped := true }) := by
  rw [drawBody, if_pos ⟨hlt, h.goes⟩, if_pos hf.2, if_pos hf.1]

/-- One iteration, to the left: two entries are read. -/
theorem drawBody_lower (h : x.Within u) (hlt : x.low < x.high)
    (hd : data ≤ pzipf (x.mid - 1)) (hm : data ≤ pzipf x.mid) :
    drawBody pzipf data x = some ([x.mid, x.mid - 1],
      { x with high := x.mid - 1 }) := by
  rw [drawBody, if_pos ⟨hlt, h.goes⟩, if_pos hm, if_neg (not_lt.2 hd)]

/-- One iteration, to the right: one entry is read. -/
theorem drawBody_raise (h : x.Within u) (hlt : x.low < x.high)
    (hm : pzipf x.mid < data) :
    drawBody pzipf data x = some ([x.mid], { x with low := x.mid }) := by
  rw [drawBody, if_pos ⟨hlt, h.goes⟩, if_neg (not_le.2 hm)]

/-- The loop ends when the interval is a point, or by `break`. -/
theorem drawBody_end (h : ¬ x.low < x.high ∨ x.stopped = true) :
    drawBody pzipf data x = none := by
  refine if_neg fun hgo => ?_
  cases h with
  | inl h => exact h hgo.1
  | inr h => exact Bool.false_ne_true (hgo.2.symm.trans h)

-- ============================================================ the loop

/-- The number drawn lies between the ends. -/
structure Search.Around (pzipf : Int → α) (data : α) (x : Search) :
    Prop where
  above : pzipf x.low < data
  below : data ≤ pzipf x.high

/-- With the sought place inside, the interval is not a point. -/
theorem Search.Around.lt (h : x.Around pzipf data) (hx : x.Within u) :
    x.low < x.high := by
  refine Int.lt_iff_le_and_ne.2 ⟨hx.order, fun he => ?_⟩
  have hlt := lt_of_lt_of_le h.above h.below
  rw [he] at hlt
  exact lt_irrefl _ hlt

/-- From such a state the loop ends at a fingerprint that is drawn. -/
theorem draw_finds (hx : x.Within u) (h : x.Around pzipf data) :
    ∃ reads t, Loops (drawBody pzipf data) x reads t
      ∧ ReadsWithin u reads ∧ 1 ≤ t.fing ∧ t.fing ≤ u
      ∧ Drawn pzipf data t.fing := by
  -- by the distance of the ends, which every iteration lowers
  induction hn : (x.high - x.low).toNat using Nat.strongRecOn generalizing x
    with
  | ind n ih =>
  have hlt := h.lt hx
  obtain ⟨hm, hm'⟩ := x.mid_mem hlt
  obtain ⟨hr, hr'⟩ := hx.reads hlt
  rcases lt_or_ge (pzipf x.mid) data with hraise | hmid
  · obtain ⟨reads, t, hrun, hreads, ht⟩ := ih _ (by dsimp only; omega)
      (hx.raise hlt) ⟨hraise, h.below⟩ rfl
    refine ⟨_, t, .next (drawBody_raise hx hlt hraise) hrun, ?_, ht⟩
    exact hreads.cons fun i hi => List.mem_singleton.1 hi ▸ hr
  have hboth : ∀ i ∈ [x.mid, x.mid - 1], 0 ≤ i ∧ i ≤ u := by
    intro i hi
    cases hi with
    | head => exact hr
    | tail _ hi => exact List.mem_singleton.1 hi ▸ hr'
  rcases lt_or_ge (pzipf (x.mid - 1)) data with hfound | hlower
  · refine ⟨_, _, .next (drawBody_found hx hlt ⟨hfound, hmid⟩)
      (.stop (drawBody_end (.inr rfl))), ?_, ?_, hr.2, hfound, hmid⟩
    · exact ReadsWithin.cons hboth nofun
    · show 1 ≤ x.mid
      have := hx.low
      omega
  · obtain ⟨reads, t, hrun, hreads, ht⟩ := ih _ (by dsimp only; omega)
      (hx.lower hlt) ⟨h.above, hlower⟩ rfl
    exact ⟨_, t, .next (drawBody_lower hx hlt hlower hmid) hrun,
      hreads.cons hboth, ht⟩

/-- With every sum below the number the loop raises `low` to the end. -/
theorem draw_misses (hx : x.Within u)
    (h : ∀ i, 0 ≤ i → i ≤ u → pzipf i < data) :
    ∃ reads t, Loops (drawBody pzipf data) x reads t
      ∧ ReadsWithin u reads ∧ t.fing = 0 := by
  induction hn : (x.high - x.low).toNat using Nat.strongRecOn generalizing x
    with
  | ind n ih =>
  by_cases hlt : x.low < x.high
  · obtain ⟨hm, hm'⟩ := x.mid_mem hlt
    obtain ⟨hr, -⟩ := hx.reads hlt
    obtain ⟨reads, t, hrun, hreads, ht⟩ := ih _ (by dsimp only; omega)
      (hx.raise hlt) rfl
    refine ⟨_, t, .next (drawBody_raise hx hlt (h _ hr.1 hr.2)) hrun, ?_, ht⟩
    exact hreads.cons fun i hi => List.mem_singleton.1 hi ▸ hr
  · exact ⟨[], x, .stop (drawBody_end (.inl hlt)), nofun, hx.fing⟩

/-- The sums do not decrease, so only one fingerprint is drawn. -/
theorem Drawn.le
    (hmono : ∀ i j, 0 ≤ i → i ≤ j → j ≤ u → pzipf i ≤ pzipf j) {f f' : Int}
    (hf : f ≤ u) (hf' : 1 ≤ f') (h : Drawn pzipf data f)
    (h' : Drawn pzipf data f') : f ≤ f' := by
  by_contra hlt
  have hsums := hmono f' (f - 1) (by omega) (by omega) (by omega)
  exact lt_irrefl data (lt_of_le_of_lt (le_trans h'.2 hsums) h.1)

/-- Over any non-decreasing table the search ends and reads only indexes
of the table; with the number within the sums it ends at the one
fingerprint that is drawn, with the number above them all at zero. -/
theorem draw_search_exact (hu : 1 ≤ u)
    (hmono : ∀ i j, 0 ≤ i → i ≤ j → j ≤ u → pzipf i ≤ pzipf j) :
    (pzipf 0 < data → data ≤ pzipf u →
      ∃ reads t, Loops (drawBody pzipf data) (drawStart u) reads t
        ∧ ReadsWithin u reads ∧ 1 ≤ t.fing ∧ t.fing ≤ u
        ∧ Drawn pzipf data t.fing
        ∧ ∀ f, 1 ≤ f → f ≤ u → Drawn pzipf data f → f = t.fing)
    ∧ (pzipf u < data →
      ∃ reads t, Loops (drawBody pzipf data) (drawStart u) reads t
        ∧ ReadsWithin u reads ∧ t.fing = 0) := by
  constructor
  · intro h0 hend
    obtain ⟨reads, t, hrun, hreads, hlow, hhigh, ht⟩ :=
      draw_finds (.start hu) ⟨h0, hend⟩
    refine ⟨reads, t, hrun, hreads, hlow, hhigh, ht, fun f hf hf' h => ?_⟩
    exact Int.le_antisymm (h.le hmono hf' hlow ht) (ht.le hmono hhigh hf h)
  · intro hend
    refine draw_misses (.start hu) fun i hi hi' => ?_
    exact lt_of_le_of_lt (hmono i u hi hi' (Int.le_refl u)) hend

/-- Three fingerprints, the second of which is never drawn. -/
def plateau (i : Int) : Nat := if i < 1 then 0 else if i < 3 then 1 else 3

/-- A draw above the plateau finds the third. -/
theorem draw_search_exact_plateau :
    ∃ reads t, Loops (drawBody plateau 2) (drawStart 3) reads t
      ∧ ReadsWithin 3 reads ∧ t.fing = 3 := by
  have hmono : ∀ i j : Int, 0 ≤ i → i ≤ j → j ≤ 3 →
      plateau i ≤ plateau j := by
    intro i j _ hij _
    unfold plateau
    split
    · exact Nat.zero_le _
    · have hj : ¬ j < 1 := by omega
      rw [if_neg hj]
      split <;> split <;> omega
  obtain ⟨reads, t, hrun, hreads, -, -, -, hone⟩ :=
    (draw_search_exact (by decide) hmono).1 (by decide : plateau 0 < 2)
      (by decide)
  refine ⟨reads, t, hrun, hreads, (hone 3 ?_ ?_ ?_).symm⟩
  · decide
  · decide
  · exact ⟨Nat.lt_succ_self 1, Nat.le_succ 2⟩

end FemuRemap.Dedup
