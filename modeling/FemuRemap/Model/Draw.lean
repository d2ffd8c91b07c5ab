/-
The draw of a fingerprint in `_FTL_WRITE` (`DUP_RATIO` defined): a binary
search in `Pzipf`, the sums of a distribution over the fingerprints
`1 .. UNIQUE_PAGE_NB`.

The doubles are any linear order, as the search only compares them.
`low`, `high` and `mid` are `int64_t` and stay within the table, so their
sums fit. An iteration visits the indexes it reads.
-/
import FemuRemap.Lib.Loop
import Mathlib.Order.Lattice

namespace FemuRemap.Dedup

/-- The locals of the search; `stopped` is set by its `break`. -/
structure Search where
  low : Int
  high : Int
  fing : Int
  stopped : Bool
deriving DecidableEq, Repr

variable {α : Type} [LinearOrder α] (pzipf : Int → α) (data : α)

/-- `mid`, rounded up. -/
def Search.mid (x : Search) : Int :=
  x.low + (x.high - x.low + 1).tdiv 2

/-- The body of the loop. -/
def drawBody (x : Search) : Option (List Int × Search) :=
  if x.low < x.high ∧ x.stopped = false then
    if data ≤ pzipf x.mid then
      some ([x.mid, x.mid - 1],
        if pzipf (x.mid - 1) < data then
          { x with fing := x.mid, stopped := true }
        else { x with high := x.mid - 1 })
    else some ([x.mid], { x with low := x.mid })
  else none

/-- The locals before the loop. -/
def drawStart (uniquePageNb : Int) : Search := ⟨0, uniquePageNb, 0, false⟩

end FemuRemap.Dedup
