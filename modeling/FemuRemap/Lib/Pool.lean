/-
An append-only block pool: `n` blocks of `cap` positions each, given
out one position at a time.

# The pool

A block waits in `empty`, is then `active` — its positions are given
out in order — and moves to `full` when the next position has to come
from another block. A full block can be ejected, is then held outside
the pool, and returns to the end of `empty` when it is released. A
position that was given out is `Used` until its block is ejected.

# What is proved

`Ok` says that every block is in exactly one place; each operation
keeps it. `next` gives out a position that was not used and changes
`Used` at that position only. `room` counts the positions left; `next`
fails exactly when there is none.
-/
import Mathlib.Data.List.Perm.Basic
import Mathlib.Data.List.Range
import Mathlib.Tactic.Common

namespace FemuRemap.Lib

/-- Blocks not yet in use, the block in use with the number of its
positions given out, and the blocks used up. -/
structure Pool where
  empty : List Nat
  active : Option (Nat × Nat)
  full : List Nat

namespace Pool

/-- The active block, as a list. -/
def current (p : Pool) : List Nat := (p.active.map Prod.fst).toList

/-- All blocks of the pool. -/
def blocks (p : Pool) : List Nat := p.empty ++ p.current ++ p.full

/-- Every block below `n` is in the pool or held outside in `out`, and
in one place only; an active block has given out a position. -/
structure Ok (cap n : Nat) (out : List Nat) (p : Pool) : Prop where
  places : (out ++ p.blocks).Perm (List.range n)
  room : ∀ b k, p.active = some (b, k) → 0 < k ∧ k ≤ cap

/-- The pool before anything was given out. -/
def init (n : Nat) : Pool := ⟨List.range n, none, []⟩

/-- Move the active block to the full ones. -/
def retire (p : Pool) : Pool :=
  ⟨p.empty, none, p.full ++ p.current⟩

/-- Give out the first position of the next empty block. -/
def activate (p : Pool) : Option (Nat × Nat × Pool) :=
  match p.empty with
  | [] => none
  | b :: es => some (b, 0, ⟨es, some (b, 1), p.full⟩)

/-- Give out the next position: its block and its place there. -/
def next (cap : Nat) (p : Pool) : Option (Nat × Nat × Pool) :=
  match p.active with
  | none => p.activate
  | some (b, k) =>
      if k < cap then some (b, k, ⟨p.empty, some (b, k + 1), p.full⟩)
      else p.retire.activate

/-- Take the `i`-th full block out of the pool. -/
def eject (i : Nat) (p : Pool) : Pool :=
  { p with full := p.full.eraseIdx i }

/-- Return a block to the pool. -/
def release (b : Nat) (p : Pool) : Pool :=
  { p with empty := p.empty ++ [b] }

/-- Position `k` of block `b` has been given out. -/
def Used (p : Pool) (b k : Nat) : Prop :=
  b ∈ p.full ∨ ∃ m, p.active = some (b, m) ∧ k < m

/-- Positions left in the active block. -/
def left (cap : Nat) (p : Pool) : Nat :=
  match p.active with
  | none => 0
  | some (_, k) => cap - k

/-- Positions left to give out. -/
def room (cap : Nat) (p : Pool) : Nat := cap * p.empty.length + p.left cap

variable {cap n : Nat} {out : List Nat} {p p' : Pool} {b k : Nat}

-- ========================================================= one position

/-- The first empty block becomes the active one. -/
theorem activate_eq (hn : p.activate = some (b, k, p')) :
    k = 0 ∧ p.empty = b :: p'.empty ∧ p'.active = some (b, 1)
      ∧ p'.full = p.full := by
  unfold activate at hn
  cases he : p.empty with
  | nil => simp [he] at hn
  | cons e es =>
      simp only [he, Option.some.injEq, Prod.mk.injEq] at hn
      obtain ⟨rfl, rfl, rfl⟩ := hn
      exact ⟨rfl, rfl, rfl, rfl⟩

/-- What `next` gives out: a further position of the active block, or
the first one of the next empty block, the active one being full. -/
theorem next_eq (hn : p.next cap = some (b, k, p')) :
    (p.active = some (b, k) ∧ k < cap
        ∧ p' = ⟨p.empty, some (b, k + 1), p.full⟩)
      ∨ ((∀ b₀ k₀, p.active = some (b₀, k₀) → cap ≤ k₀) ∧ k = 0
        ∧ p.empty = b :: p'.empty ∧ p'.active = some (b, 1)
        ∧ p'.full = p.full ++ p.current) := by
  unfold next at hn
  cases ha : p.active with
  | none =>
      rw [ha] at hn
      obtain ⟨hk, he, hp, hf⟩ := activate_eq hn
      exact .inr ⟨by simp, hk, he, hp, by simp [hf, current, ha]⟩
  | some a =>
      obtain ⟨b₀, k₀⟩ := a
      simp only [ha] at hn
      split at hn
      · next hk =>
          simp only [Option.some.injEq, Prod.mk.injEq] at hn
          obtain ⟨rfl, rfl, rfl⟩ := hn
          exact .inl ⟨rfl, hk, rfl⟩
      · next hk =>
          obtain ⟨hk', he, hp, hf⟩ := activate_eq hn
          refine .inr ⟨?_, hk', he, hp, hf⟩
          intro b₁ k₁ h₁
          simp only [Option.some.injEq, Prod.mk.injEq] at h₁
          omega

-- =================================================== well-formedness

theorem Ok.init : Ok cap n [] (init n) where
  places := by simp [blocks, current, Pool.init]
  room := by simp [Pool.init]

/-- A block is at one place only, -/
theorem Ok.nodup (h : Ok cap n out p) : (out ++ p.blocks).Nodup :=
  h.places.nodup_iff.2 List.nodup_range

/-- and is a block of the device. -/
theorem Ok.lt_of_mem (h : Ok cap n out p) (hb : b ∈ out ++ p.blocks) :
    b < n :=
  List.mem_range.1 (h.places.subset hb)

/-- A full block is neither active nor empty nor outside. -/
theorem Ok.full_disjoint (h : Ok cap n out p) (hb : b ∈ p.full) :
    b ∉ out ∧ b ∉ p.empty ∧ b ∉ p.current := by
  have hd := h.nodup
  rw [blocks, List.nodup_append, List.nodup_append,
    List.nodup_append] at hd
  obtain ⟨-, ⟨⟨-, -, -⟩, -, hf⟩, ho⟩ := hd
  refine ⟨fun hm => ?_, fun hm => ?_, fun hm => ?_⟩
  · exact ho b hm b (by simp [hb]) rfl
  · exact hf b (by simp [hm]) b hb rfl
  · exact hf b (by simp [hm]) b hb rfl

/-- An empty block is not the active one. -/
theorem Ok.empty_not_current (h : Ok cap n out p) (hb : b ∈ p.empty) :
    b ∉ p.current := by
  have hd := (List.nodup_append.1 h.nodup).2.1
  rw [blocks, List.append_assoc, List.nodup_append] at hd
  exact fun hc => hd.2.2 b hb b (by simp [hc]) rfl

/-- A block held outside is nowhere in the pool. -/
theorem Ok.out_not_mem (h : Ok cap n out p) (hb : b ∈ out) :
    b ∉ p.blocks := by
  intro hm
  have hd := h.nodup
  rw [List.nodup_append] at hd
  exact hd.2.2 b hb b hm rfl

/-- Nothing of a block that was taken out is in use. -/
theorem Ok.out_not_used (h : Ok cap n out p) (hb : b ∈ out) :
    ¬ p.Used b k := by
  intro hu
  apply h.out_not_mem hb
  rcases hu with hf | ⟨m, ha, -⟩
  · simp [blocks, hf]
  · simp [blocks, current, ha]

/-- Handing out a page keeps the pool whole. -/
theorem Ok.next (h : Ok cap n out p) (hcap : 0 < cap)
    (hn : p.next cap = some (b, k, p')) : Ok cap n out p' := by
  rcases next_eq hn with ⟨ha, hk, rfl⟩ | ⟨-, -, he, ha, hf⟩
  · constructor
    · simpa [blocks, current, ha] using h.places
    · intro b' k' hb
      simp only [Option.some.injEq, Prod.mk.injEq] at hb
      omega
  · constructor
    · refine List.Perm.trans (List.Perm.append_left out ?_) h.places
      have hcur : p'.current = [b] := by simp [current, ha]
      have hfront := (List.perm_append_singleton b p'.empty).append_right
        (p.full ++ p.current)
      have hback : (p.full ++ p.current).Perm (p.current ++ p.full) :=
        List.perm_append_comm
      rw [blocks, blocks, hcur, he, hf, List.append_assoc (b :: p'.empty)]
      exact hfront.trans (hback.append_left _)
    · intro b' k' hb
      rw [ha, Option.some.injEq, Prod.mk.injEq] at hb
      omega

/-- Ejecting holds the block outside. -/
theorem Ok.eject {i : Nat} (h : Ok cap n [] p)
    (hb : p.full[i]? = some b) : Ok cap n [b] (p.eject i) where
  places := by
    refine List.Perm.trans ?_ h.places
    have hi : i < p.full.length := (List.getElem?_eq_some_iff.1 hb).1
    have hv : p.full[i] = b := (List.getElem?_eq_some_iff.1 hb).2
    have hf : p.full.Perm (b :: p.full.eraseIdx i) := by
      rw [← hv]
      exact (List.getElem_cons_eraseIdx_perm hi).symm
    simp only [blocks, Pool.eject, List.singleton_append,
      List.nil_append]
    refine List.Perm.trans List.perm_middle.symm ?_
    exact List.Perm.append_left _ hf.symm
  room := h.room

/-- So does putting the block back that was taken out. -/
theorem Ok.release (h : Ok cap n [b] p) : Ok cap n [] (p.release b) where
  places := by
    refine List.Perm.trans ?_ h.places
    simp only [blocks, Pool.release, current, List.nil_append,
      List.singleton_append, List.append_assoc]
    exact List.perm_middle
  room := h.room

-- ========================================================= freshness

/-- A full block may be retired before the next allocation. -/
theorem next_retire (ha : p.active = some (b, k)) (hk : cap ≤ k) :
    p.next cap = p.retire.next cap := by
  simp only [next, ha, if_neg (Nat.not_lt.2 hk), retire]

/-- The page handed out is one of the device. -/
theorem next_lt (h : Ok cap n out p) (hcap : 0 < cap)
    (hn : p.next cap = some (b, k, p')) : b < n ∧ k < cap := by
  refine ⟨(h.next hcap hn).lt_of_mem ?_, ?_⟩
  · rcases next_eq hn with ⟨-, -, rfl⟩ | ⟨-, -, -, ha, -⟩
    · simp [blocks, current]
    · simp [blocks, current, ha]
  · rcases next_eq hn with ⟨-, hk, -⟩ | ⟨-, rfl, -⟩
    · exact hk
    · exact hcap

/-- The position given out was not used, and its block is in the
pool. -/
theorem next_fresh (h : Ok cap n out p)
    (hn : p.next cap = some (b, k, p')) : ¬ p.Used b k ∧ b ∉ out := by
  rcases next_eq hn with ⟨ha, -, -⟩ | ⟨-, rfl, he, -, -⟩
  · have hc : b ∈ p.current := by simp [current, ha]
    refine ⟨?_, fun ho => h.out_not_mem ho (by simp [blocks, hc])⟩
    rintro (hf | ⟨m, hm, hlt⟩)
    · exact (h.full_disjoint hf).2.2 hc
    · rw [ha] at hm
      simp only [Option.some.injEq, Prod.mk.injEq] at hm
      omega
  · have hb : b ∈ p.empty := by simp [he]
    refine ⟨?_, fun ho => h.out_not_mem ho (by simp [blocks, hb])⟩
    rintro (hf | ⟨m, hm, -⟩)
    · exact (h.full_disjoint hf).2.1 hb
    · have hd := h.nodup
      rw [blocks, List.nodup_append, List.nodup_append,
        List.nodup_append] at hd
      exact hd.2.1.1.2.2 b hb b (by simp [current, hm]) rfl

/-- Positions are given out in order. -/
theorem used_below (hn : p.next cap = some (b, k, p')) {j : Nat}
    (hj : j < k) : p.Used b j := by
  rcases next_eq hn with ⟨ha, -, -⟩ | ⟨-, rfl, -⟩
  · exact .inr ⟨k, ha, hj⟩
  · exact absurd hj (Nat.not_lt_zero j)

/-- `next` marks the position it gives out and no other. -/
theorem used_next (hn : p.next cap = some (b, k, p')) (b' : Nat)
    {k' : Nat} (hk' : k' < cap) :
    p'.Used b' k' ↔ p.Used b' k' ∨ (b' = b ∧ k' = k) := by
  unfold Used
  rcases next_eq hn with ⟨ha, -, rfl⟩ | ⟨hfull, rfl, -, ha, hf⟩
  · simp only [ha, Option.some.injEq, Prod.mk.injEq]
    constructor
    · rintro (hb | ⟨m, ⟨rfl, rfl⟩, hlt⟩)
      · exact .inl (.inl hb)
      · rcases Nat.lt_succ_iff_lt_or_eq.1 hlt with hlt | heq
        · exact .inl (.inr ⟨k, ⟨rfl, rfl⟩, hlt⟩)
        · exact .inr ⟨rfl, heq⟩
    · rintro ((hb | ⟨m, ⟨rfl, rfl⟩, hlt⟩) | ⟨rfl, rfl⟩)
      · exact .inl hb
      · exact .inr ⟨k + 1, ⟨rfl, rfl⟩, by omega⟩
      · exact .inr ⟨k' + 1, ⟨rfl, rfl⟩, by omega⟩
  · rw [ha, hf]
    simp only [List.mem_append, Option.some.injEq, Prod.mk.injEq]
    constructor
    · rintro ((hb | hb) | ⟨m, ⟨rfl, rfl⟩, hlt⟩)
      · exact .inl (.inl hb)
      · -- the block that was active is full, so `k'` was given out
        cases hact : p.active with
        | none => simp [current, hact] at hb
        | some a =>
            obtain ⟨b₀, k₀⟩ := a
            have hb₀ : b' = b₀ := by simpa [current, hact] using hb
            have := hfull b₀ k₀ hact
            exact .inl (.inr ⟨k₀, by simp [hb₀], by omega⟩)
      · exact .inr ⟨rfl, by omega⟩
    · rintro ((hb | ⟨m, hm, -⟩) | ⟨rfl, rfl⟩)
      · exact .inl (.inl hb)
      · exact .inl (.inr (by simp [current, hm]))
      · exact .inr ⟨1, ⟨rfl, rfl⟩, by omega⟩

/-- Taking out a block takes out its pages. -/
theorem used_eject {i : Nat} (h : Ok cap n [] p)
    (hb : p.full[i]? = some b) (b' k' : Nat) :
    (p.eject i).Used b' k' ↔ p.Used b' k' ∧ b' ≠ b := by
  have h' := h.eject hb
  constructor
  · intro hu
    refine ⟨?_, ?_⟩
    · rcases hu with hf | ha
      · exact .inl (List.mem_of_mem_eraseIdx hf)
      · exact .inr ha
    · rintro rfl
      exact h'.out_not_used (by simp) hu
  · rintro ⟨hf | ha, hne⟩
    · refine .inl ?_
      have hi := (List.getElem?_eq_some_iff.1 hb)
      obtain ⟨hlt, hv⟩ := hi
      have hperm := List.getElem_cons_eraseIdx_perm hlt
      have := hperm.symm.subset hf
      rw [hv] at this
      exact (List.mem_cons.1 this).resolve_left hne
    · exact .inr ha

theorem used_release (b' k' : Nat) :
    (p.release b).Used b' k' ↔ p.Used b' k' := Iff.rfl

-- ============================================================== room

theorem room_next (hcap : 0 < cap)
    (hn : p.next cap = some (b, k, p')) :
    p.room cap = p'.room cap + 1 := by
  unfold room left
  rcases next_eq hn with ⟨ha, hk, rfl⟩ | ⟨hfull, rfl, he, ha, -⟩
  · simp only [ha]
    omega
  · rw [he, ha, List.length_cons, Nat.mul_succ]
    cases hact : p.active with
    | none =>
        dsimp only
        omega
    | some a =>
        obtain ⟨b₀, k₀⟩ := a
        have h₁ := hfull b₀ k₀ hact
        dsimp only
        omega

/-- `next` fails exactly when nothing is left. -/
theorem next_eq_none (hcap : 0 < cap) :
    p.next cap = none ↔ p.room cap = 0 := by
  unfold next room left activate retire
  cases ha : p.active with
  | none =>
      cases he : p.empty with
      | nil => simp
      | cons e es => simp [Nat.mul_succ]; omega
  | some a =>
      obtain ⟨b₀, k₀⟩ := a
      dsimp only
      split
      · next hk =>
          simp only [reduceCtorEq, false_iff]
          omega
      · next hk =>
          cases he : p.empty with
          | nil => simp; omega
          | cons e es => simp [Nat.mul_succ]; omega

/-- Positions given out one after the other. -/
inductive Chain (cap : Nat) (p : Pool) : List (Nat × Nat) → Pool → Prop
  | nil : Chain cap p [] p
  | snoc {l : List (Nat × Nat)} {p' p'' : Pool} {b k : Nat} :
      Chain cap p l p' → p'.next cap = some (b, k, p'') →
      Chain cap p (l ++ [(b, k)]) p''

/-- As many pages less as were handed out. -/
theorem Chain.room (hcap : 0 < cap) {l : List (Nat × Nat)}
    (h : Chain cap p l p') : p.room cap = p'.room cap + l.length := by
  induction h with
  | nil => rfl
  | snoc _ hn ih =>
      rw [ih, room_next hcap hn, List.length_append,
        List.length_singleton]
      omega

/-- Empty blocks are taken from the front. -/
theorem Chain.suffix {l : List (Nat × Nat)} (h : Chain cap p l p') :
    p'.empty <:+ p.empty := by
  induction h with
  | nil => exact List.suffix_refl _
  | @snoc l p₁ p₂ b k _ hn ih =>
      refine List.IsSuffix.trans ?_ ih
      rcases next_eq hn with ⟨-, -, rfl⟩ | ⟨-, -, he, -⟩
      · exact List.suffix_refl _
      · rw [he]
        exact List.suffix_cons _ _

/-- Pages handed out one after the other. -/
theorem Chain.append {l l' : List (Nat × Nat)} {p'' : Pool}
    (h : Chain cap p l p') (h' : Chain cap p' l' p'') :
    Chain cap p (l ++ l') p'' := by
  induction h' with
  | nil => simpa using h
  | snoc _ hn ih =>
      rw [← List.append_assoc]
      exact .snoc ih hn

theorem Chain.ok {l : List (Nat × Nat)} (hc : Chain cap p l p')
    (hcap : 0 < cap) (h : Ok cap n out p) : Ok cap n out p' := by
  induction hc with
  | nil => exact h
  | snoc _ hn ih => exact ih.next hcap hn

/-- The positions given out are used from then on. -/
theorem Chain.used {l : List (Nat × Nat)} (hc : Chain cap p l p')
    (hcap : 0 < cap) (h : Ok cap n out p) {x : Nat × Nat} (hx : x ∈ l) :
    x.1 < n ∧ x.2 < cap ∧ p'.Used x.1 x.2 := by
  induction hc with
  | nil => cases hx
  | snoc hl hn ih =>
      rcases List.mem_append.1 hx with hx | hx
      · obtain ⟨h₁, h₂, h₃⟩ := ih hx
        exact ⟨h₁, h₂, (used_next hn _ h₂).2 (.inl h₃)⟩
      · obtain rfl := List.mem_singleton.1 hx
        obtain ⟨h₁, h₂⟩ := next_lt (hl.ok hcap h) hcap hn
        exact ⟨h₁, h₂, (used_next hn _ h₂).2 (.inr ⟨rfl, rfl⟩)⟩

/-- No position is given out twice. -/
theorem Chain.nodup {l : List (Nat × Nat)} (hc : Chain cap p l p')
    (hcap : 0 < cap) (h : Ok cap n out p) : l.Nodup := by
  induction hc with
  | nil => exact List.nodup_nil
  | snoc hl hn ih =>
      refine List.nodup_append.2 ⟨ih, by simp, ?_⟩
      rintro x hx _ hy rfl
      obtain rfl := List.mem_singleton.1 hy
      exact (next_fresh (hl.ok hcap h) hn).1 (hl.used hcap h hx).2.2

/-- Some position of an active block has been given out. -/
theorem Ok.left_lt (h : Ok cap n out p) (hcap : 0 < cap) :
    p.left cap < cap := by
  unfold left
  split
  · exact hcap
  · next b k ha =>
      have := h.room b k ha
      omega

/-- When the first position of a block is given out: after what is left
of the active block and the empty blocks before it. -/
theorem Chain.opens_iff {l : List (Nat × Nat)} {p₁ : Pool} {d : Nat}
    (hc : Chain cap p l p₁) (h : Ok cap n out p) (hcap : 0 < cap)
    (hn : p₁.next cap = some (b, k, p')) :
    b = d ∧ k = 0
      ↔ ∃ i, p.empty[i]? = some d ∧ l.length = p.left cap + i * cap := by
  have hroom := hc.room hcap
  obtain ⟨pre, hpre⟩ := hc.suffix
  have hlen := congrArg List.length hpre
  rw [List.length_append] at hlen
  unfold Pool.room at hroom
  rw [← hlen, Nat.mul_add] at hroom
  constructor
  · rintro ⟨rfl, rfl⟩
    rcases next_eq hn with ⟨ha, -, -⟩ | ⟨hfull, -, he, -⟩
    · have := (hc.ok hcap h).room b 0 ha
      omega
    · have hz : p₁.left cap = 0 := by
        unfold left
        split
        · rfl
        · next b₀ k₀ ha =>
            have := hfull b₀ k₀ ha
            omega
      refine ⟨pre.length, ?_, ?_⟩
      · rw [← hpre, he]
        simp
      · rw [Nat.mul_comm pre.length]
        omega
  · rintro ⟨i, hi, hl⟩
    have hlt := (hc.ok hcap h).left_lt hcap
    -- the blocks that remain divide the room without remainder
    have hdiv : cap * pre.length = cap * i + p₁.left cap := by
      rw [Nat.mul_comm i] at hl
      omega
    have hz : p₁.left cap = 0 := by
      have hmod := congrArg (· % cap) hdiv
      simpa [Nat.mul_add_mod, Nat.mod_eq_of_lt hlt] using hmod.symm
    have hpre' : pre.length = i :=
      Nat.eq_of_mul_eq_mul_left hcap (by omega)
    rcases next_eq hn with ⟨ha, hk, -⟩ | ⟨-, hk, he, -⟩
    · simp only [left, ha] at hz
      omega
    · rw [← hpre, he, ← hpre'] at hi
      simp only [List.getElem?_append_right (Nat.le_refl _), Nat.sub_self,
        List.getElem?_cons_zero, Option.some.injEq] at hi
      exact ⟨hi, hk⟩

/-- Where a chain stands that uses up at most one more block: in the
block that was active, or in the first empty one. -/
theorem Chain.stands {l : List (Nat × Nat)} (h : Chain cap p l p')
    (hlen : l.length ≤ p.left cap + cap) :
    (p'.left cap + l.length = p.left cap
      ∧ p'.active.map Prod.fst = p.active.map Prod.fst
      ∧ ∀ x ∈ l, some x.1 = p.active.map Prod.fst)
    ∨ ∃ d k, p'.active = some (d, k) ∧ 0 < k
      ∧ k + p.left cap = l.length
      ∧ ∀ x ∈ l, x.1 = d
        ∨ (0 < p.left cap ∧ some x.1 = p.active.map Prod.fst) := by
  induction h with
  | nil => exact .inl ⟨rfl, rfl, by simp⟩
  | @snoc l p₁ p₂ b k _ hn ih =>
      rw [List.length_append, List.length_singleton] at hlen ⊢
      rcases next_eq hn with ⟨ha, hk, rfl⟩ | ⟨hfull, rfl, -, ha, -⟩
      · -- a further position of the same block
        rcases ih (by omega) with ⟨h₁, h₂, h₃⟩ | ⟨d, j, h₁, -, h₂, h₃⟩
        · refine .inl ⟨?_, ?_, fun x hx => ?_⟩
          · simp only [left, ha] at h₁ ⊢
            omega
          · rw [← h₂, ha]
            rfl
          · rcases List.mem_append.1 hx with hx | hx
            · exact h₃ x hx
            · rw [List.mem_singleton.1 hx, ← h₂, ha]
              rfl
        · rw [ha, Option.some.injEq, Prod.mk.injEq] at h₁
          obtain ⟨rfl, rfl⟩ := h₁
          refine .inr ⟨b, k + 1, rfl, by omega, by omega,
            fun x hx => ?_⟩
          rcases List.mem_append.1 hx with hx | hx
          · exact h₃ x hx
          · exact .inl (by rw [List.mem_singleton.1 hx])
      · -- the first position of the next one
        rcases ih (by omega) with ⟨h₁, h₂, h₃⟩ | ⟨d, j, h₁, -, h₂, -⟩
        · have hz : p₁.left cap = 0 := by
            unfold left
            split
            · rfl
            · next b₀ k₀ he =>
                have := hfull b₀ k₀ he
                omega
          refine .inr ⟨b, 1, ha, by omega, by omega, fun x hx => ?_⟩
          rcases List.mem_append.1 hx with hx | hx
          · refine .inr ⟨?_, h₃ x hx⟩
            have := List.length_pos_of_mem hx
            omega
          · exact .inl (by rw [List.mem_singleton.1 hx])
        · have := hfull d j h₁
          omega

/-- A chain of at most a block beyond the active one is in two
blocks. -/
theorem Chain.two_blocks {l : List (Nat × Nat)} (h : Chain cap p l p')
    (hlen : l.length ≤ p.left cap + cap) :
    ∃ d₁ d₂, ∀ x ∈ l, x.1 = d₁ ∨ x.1 = d₂ := by
  have hd : ∀ x : Nat × Nat, some x.1 = p.active.map Prod.fst →
      x.1 = (p.active.map Prod.fst).getD 0 := fun x hx => by
    rw [← hx, Option.getD_some]
  rcases h.stands hlen with ⟨-, -, h₃⟩ | ⟨d, -, -, -, -, h₃⟩
  · exact ⟨(p.active.map Prod.fst).getD 0, 0, fun x hx =>
      .inl (hd x (h₃ x hx))⟩
  · exact ⟨(p.active.map Prod.fst).getD 0, d, fun x hx =>
      (h₃ x hx).elim .inr fun hx => .inl (hd x hx.2)⟩

/-- It is in one block if it fits into the active one, or if that was
full. -/
theorem Chain.one_block {l : List (Nat × Nat)} (h : Chain cap p l p')
    (hlen : l.length ≤ cap)
    (hfit : p.left cap = 0 ∨ l.length ≤ p.left cap) :
    ∃ d, ∀ x ∈ l, x.1 = d := by
  rcases h.stands (by omega) with ⟨-, -, h₃⟩ | ⟨d, k, -, h₁, h₂, h₃⟩
  · exact ⟨(p.active.map Prod.fst).getD 0, fun x hx => by
      rw [← h₃ x hx, Option.getD_some]⟩
  · exact ⟨d, fun x hx => (h₃ x hx).resolve_right fun hx' => by omega⟩

/-- Room is in the empty blocks and the active one. -/
theorem room_le :
    p.room cap ≤ cap * (p.empty.length + p.current.length) := by
  unfold room left current
  cases p.active with
  | none => simp
  | some a =>
      simp only [Option.map_some, Option.toList_some, List.length_singleton,
        Nat.mul_add, Nat.mul_one]
      omega

/-- A full block has no room to lose, -/
theorem room_eject (i : Nat) : (p.eject i).room cap = p.room cap := rfl

/-- and a whole block's to give. -/
theorem room_release (b : Nat) :
    (p.release b).room cap = p.room cap + cap := by
  unfold room left release
  simp only [List.length_append, List.length_singleton, Nat.mul_add]
  omega

end Pool

end FemuRemap.Lib