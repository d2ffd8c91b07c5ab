/-
Singly linked lists in a heap, with a root that keeps both ends.

`Sll h head tail l` says that the cells `l` are linked in this order from
`head` on, and that `tail` is the last one. Of an empty list `tail` says
nothing: taking the last cell from the front leaves it where it was, at a
cell that may since be gone.
-/
import FemuRemap.Lib.Dll

namespace FemuRemap.Lib

variable {α : Type}

/-- A node and the one after it. -/
structure SNode (α : Type) where
  val : α
  next : Option Nat
deriving DecidableEq

/-- Nodes by address. -/
abbrev SHeap (α : Type) : Type := Table (Option (SNode α))

/-- The cells are linked in this order. -/
def SLinks (h : SHeap α) : List (Nat × α) → Prop
  | [] => True
  | x :: l => h x.1 = some ⟨x.2, headAddr l⟩ ∧ SLinks h l

/-- A list from `head` to `tail`. -/
structure Sll (h : SHeap α) (head tail : Option Nat)
    (l : List (Nat × α)) : Prop where
  head : head = headAddr l
  tail : l ≠ [] → tail = lastAddr l
  links : SLinks h l
  nodup : (l.map (·.1)).Nodup

variable {h h' : SHeap α} {l : List (Nat × α)} {head tail : Option Nat}

/-- A chain depends on its own nodes only. -/
theorem SLinks.congr (hl : SLinks h l)
    (heq : ∀ x ∈ l, h' x.1 = h x.1) : SLinks h' l := by
  induction l with
  | nil => trivial
  | cons x l ih =>
      obtain ⟨hx, hl⟩ := hl
      refine ⟨(heq x List.mem_cons_self).trans hx, ih hl fun y hy => ?_⟩
      exact heq y (List.mem_cons_of_mem _ hy)

theorem SLinks.exists_node (hl : SLinks h l) {a : Nat}
    (ha : a ∈ l.map (·.1)) : ∃ n, h a = some n := by
  induction l with
  | nil => cases ha
  | cons x l ih =>
      rcases List.mem_cons.1 ha with rfl | ha
      · exact ⟨_, hl.1⟩
      · exact ih hl.2 ha

/-- A free address is none of the list. -/
theorem SLinks.fresh (hl : SLinks h l) {a : Nat} (ha : h a = none) :
    a ∉ l.map (·.1) := by
  intro hmem
  obtain ⟨n, hn⟩ := hl.exists_node hmem
  rw [ha] at hn
  cases hn

/-- `p->next = q`, if `p` is a node. -/
def setLink (p q : Option Nat) (h : SHeap α) : SHeap α :=
  match p with
  | none => h
  | some a => h.set a ((h a).map fun n => { n with next := q })

theorem setLink_ne {p q : Option Nat} {a : Nat} (hne : p ≠ some a) :
    setLink p q h a = h a := by
  cases p with
  | none => rfl
  | some b => exact Table.get_set_ne _ _ fun he => hne (he ▸ rfl)

/-- A cell behind the last one. -/
theorem SLinks.append {a : Nat} {v : α} (hl : SLinks h l)
    (hnd : (l.map (·.1)).Nodup) (ha : a ∉ l.map (·.1))
    (hnew : h a = some ⟨v, none⟩) :
    SLinks (setLink (lastAddr l) (some a) h) (l ++ [(a, v)]) := by
  induction l with
  | nil => exact ⟨hnew, trivial⟩
  | cons y l ih =>
      obtain ⟨hy, hrest⟩ := hl
      have hnd' := List.nodup_cons.1 hnd
      have hya : y.1 ≠ a := fun he => ha (he ▸ List.mem_cons_self)
      cases l with
      | nil =>
          have hlast : lastAddr [y] = some y.1 := rfl
          rw [hlast]
          refine ⟨?_, ?_, trivial⟩
          · rw [setLink, Table.get_set_self, hy]
            rfl
          · rw [setLink_ne fun he => hya (Option.some.inj he)]
            exact hnew
      | cons z l =>
          have hlast : lastAddr (y :: z :: l) = lastAddr (z :: l) := by
            simp [lastAddr, List.getLast?_cons_cons]
          rw [hlast]
          refine ⟨?_, ih hrest hnd'.2 fun hm =>
            ha (List.mem_cons_of_mem _ hm)⟩
          rw [setLink_ne fun he => hnd'.1 (lastAddr_mem he), hy]
          rfl

namespace Sll

/-- A cell is put behind the last one, or starts the list. -/
theorem push (hs : Sll h head tail l) {a : Nat} {v : α}
    (ha : a ∉ l.map (·.1)) (hnew : h a = some ⟨v, none⟩) :
    Sll (setLink (lastAddr l) (some a) h) (headAddr (l ++ [(a, v)]))
      (some a) (l ++ [(a, v)]) where
  head := rfl
  tail _ := by
    rw [lastAddr_append_cons]
    rfl
  links := hs.links.append hs.nodup ha hnew
  nodup := by
    rw [List.map_append]
    refine List.nodup_append.2 ⟨hs.nodup, List.nodup_singleton a, ?_⟩
    rintro b hb _ hc rfl
    cases List.mem_singleton.1 hc
    exact ha hb

/-- The list depends on its own nodes only. -/
theorem congr (hs : Sll h head tail l) (heq : ∀ x ∈ l, h' x.1 = h x.1) :
    Sll h' head tail l :=
  ⟨hs.head, hs.tail, hs.links.congr heq, hs.nodup⟩

/-- The first cell is taken; the last pointer stays. -/
theorem pop {y : Nat × α} (hs : Sll h head tail (y :: l)) :
    Sll h (headAddr l) tail l where
  head := rfl
  tail hne := by
    obtain ⟨z, m, rfl⟩ := List.exists_cons_of_ne_nil hne
    rw [hs.tail (List.cons_ne_nil _ _)]
    simp [lastAddr, List.getLast?_cons_cons]
  links := hs.links.2
  nodup := (List.nodup_cons.1 hs.nodup).2

end Sll

end FemuRemap.Lib
