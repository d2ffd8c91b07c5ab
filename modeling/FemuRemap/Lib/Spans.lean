/-
Buffers in pieces: a list of spans of a byte buffer, read and written as
one sequence of bytes.

`gather` puts the bytes of the spans together and `scatter` takes them
apart again. What is scattered over spans that lie apart can be gathered
again (`gather_scatter`), and outside the spans nothing changes
(`scatter_out`).
-/
import FemuRemap.Lib.Bytes
import Mathlib.Algebra.BigOperators.Group.List.Basic

namespace FemuRemap.Lib

/-- `len` bytes from `base` on. -/
structure Span where
  base : Nat
  len : Nat
deriving DecidableEq, Repr

/-- No byte is in both. -/
def Span.Apart (s t : Span) : Prop :=
  s.base + s.len ≤ t.base ∨ t.base + t.len ≤ s.base

instance (s t : Span) : Decidable (s.Apart t) := by
  unfold Span.Apart
  infer_instance

/-- The bytes of all spans together. -/
def total (ss : List Span) : Nat := (ss.map Span.len).sum

/-- Reading the spans in order. -/
def gather (m : Bytes) : List Span → List UInt8
  | [] => []
  | s :: ss => load m s.base s.len ++ gather m ss

/-- Writing the spans in order, each with its part of the bytes. -/
def scatter (m : Bytes) : List Span → List UInt8 → Bytes
  | [], _ => m
  | s :: ss, bs =>
      scatter (store m s.base (bs.take s.len)) ss (bs.drop s.len)

variable {m m' : Bytes} {o i n k : Nat} {as bs : List UInt8}
  {s : Span} {ss : List Span}

@[simp] theorem total_nil : total [] = 0 := rfl

@[simp] theorem total_cons : total (s :: ss) = s.len + total ss := by
  rw [total, List.map_cons, List.sum_cons]
  rfl

-- ============================================================== bytes

/-- A longer load is two adjoining ones. -/
theorem load_append : load m o (n + k) = load m o n ++ load m (o + n) k := by
  refine List.ext_getElem (by simp) fun i hi hi' => ?_
  rcases Nat.lt_or_ge i n with hlt | hge
  · rw [List.getElem_append_left (by simpa using hlt)]
    simp [load]
  · rw [List.getElem_append_right (by simpa using hge)]
    simp only [load, List.getElem_map, List.getElem_range, List.length_map,
      List.length_range]
    congr 1
    omega

/-- A part of what was loaded. -/
theorem load_part (h : i + k ≤ n) :
    ((load m o n).drop i).take k = load m (o + i) k := by
  rw [show n = i + (k + (n - i - k)) by omega, load_append,
    List.drop_left' length_load, load_append, List.take_left' length_load]

/-- Two adjoining stores are one longer store. -/
theorem store_append :
    store (store m o as) (o + as.length) bs = store m o (as ++ bs) := by
  funext i
  unfold store
  rcases Nat.lt_or_ge i o with hlt | hge
  · rw [if_pos (by omega), if_pos hlt, if_pos hlt]
  · rw [if_neg (Nat.not_lt.2 hge), if_neg (Nat.not_lt.2 hge)]
    rcases Nat.lt_or_ge i (o + as.length) with hin | hout
    · rw [if_pos hin, List.getElem?_append_left (by omega)]
    · rw [if_neg (Nat.not_lt.2 hout), List.getElem?_append_right (by omega),
        List.getElem?_eq_none (by omega : as.length ≤ i - o),
        show i - o - as.length = i - (o + as.length) by omega]
      rfl

-- ============================================================== spans

/-- A gather reads as many bytes as the spans have. -/
@[simp] theorem length_gather : (gather m ss).length = total ss := by
  induction ss with
  | nil => rfl
  | cons s ss ih =>
      rw [gather, List.length_append, length_load, ih, total_cons]

theorem scatter_out (h : ∀ s ∈ ss, i < s.base ∨ s.base + s.len ≤ i) :
    scatter m ss bs i = m i := by
  induction ss generalizing m bs with
  | nil => rfl
  | cons s ss ih =>
      rw [scatter, ih fun t ht => h t (List.mem_cons_of_mem _ ht)]
      apply store_out
      have hs := h s List.mem_cons_self
      rw [List.length_take]
      omega

/-- What is scattered can be gathered again. -/
theorem gather_scatter (happart : ss.Pairwise Span.Apart)
    (hlen : bs.length = total ss) : gather (scatter m ss bs) ss = bs := by
  induction ss generalizing m bs with
  | nil => exact (List.length_eq_zero_iff.1 hlen).symm
  | cons s ss ih =>
      rw [List.pairwise_cons] at happart
      rw [total_cons] at hlen
      rw [gather, scatter, ih happart.2 (by rw [List.length_drop]; omega)]
      have htake : (bs.take s.len).length = s.len := by
        rw [List.length_take]
        omega
      -- the later spans do not reach into this one
      have hfirst : load (scatter (store m s.base (bs.take s.len)) ss
          (bs.drop s.len)) s.base s.len
          = load (store m s.base (bs.take s.len)) s.base s.len := by
        refine load_congr fun i hi => scatter_out fun t ht => ?_
        have := happart.1 t ht
        unfold Span.Apart at this
        omega
      rw [hfirst]
      nth_rewrite 2 [← htake]
      rw [load_store_self, List.take_append_drop]

end FemuRemap.Lib
