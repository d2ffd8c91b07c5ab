/-
Doubly linked lists in a heap.

A heap maps addresses to nodes, a node has a value and the addresses of
its neighbours. `Links h prev l` says that the cells `l`, addresses with
their values, are linked in this order, the first one back to `prev` and
the last one to nothing; `Dll h r l` adds a root that points to both ends
and counts. Changes elsewhere in the heap leave a list alone
(`Links.congr`); taking a cell out makes its neighbours point to each
other (`Links.bypass`), and a cell behind the last one makes that one
point to it (`Links.append`).
-/
import FemuRemap.Lib.Table
import Mathlib.Data.List.Nodup

namespace FemuRemap.Lib

variable {α : Type}

/-- A node and its neighbours. -/
structure Node (α : Type) where
  val : α
  prev : Option Nat
  next : Option Nat
deriving DecidableEq

/-- Nodes by address. -/
abbrev Heap (α : Type) : Type := Table (Option (Node α))

/-- The address of the first cell. -/
def headAddr (l : List (Nat × α)) : Option Nat := l.head?.map (·.1)

/-- The address of the last one. -/
def lastAddr (l : List (Nat × α)) : Option Nat := l.getLast?.map (·.1)

/-- The cells are linked in this order. -/
def Links (h : Heap α) : Option Nat → List (Nat × α) → Prop
  | _, [] => True
  | prev, x :: l =>
      h x.1 = some ⟨x.2, prev, headAddr l⟩ ∧ Links h (some x.1) l

/-- A root: its two ends and its count. -/
structure DllRoot where
  head : Option Nat
  tail : Option Nat
  nb : Nat
deriving DecidableEq

/-- A root whose list is `l`. -/
structure Dll (h : Heap α) (r : DllRoot) (l : List (Nat × α)) : Prop where
  head : r.head = headAddr l
  tail : r.tail = lastAddr l
  nb : r.nb = l.length
  links : Links h none l
  nodup : (l.map (·.1)).Nodup

-- ============================================================== reading

variable {h h' : Heap α} {prev : Option Nat} {l l₁ l₂ : List (Nat × α)}
  {x y : Nat × α}

/-- The address of the cell before, for the `i`th one. -/
def prevAddr (prev : Option Nat) (l : List (Nat × α)) : Nat → Option Nat
  | 0 => prev
  | i + 1 => l[i]?.map (·.1)

/-- The node of the `i`th cell. -/
theorem Links.get (hl : Links h prev l) {i : Nat}
    (hi : l[i]? = some x) :
    h x.1 = some ⟨x.2, prevAddr prev l i, l[i + 1]?.map (·.1)⟩ := by
  induction l generalizing prev i with
  | nil => cases hi
  | cons y l ih =>
      obtain ⟨hy, hl⟩ := hl
      cases i with
      | zero =>
          cases hi
          rw [hy]
          simp [headAddr, prevAddr, List.head?_eq_getElem?]
      | succ i =>
          rw [ih hl (by simpa using hi)]
          cases i <;> simp [prevAddr]

/-- The addresses of a chain hold nodes. -/
theorem Links.exists_node (hl : Links h prev l) {a : Nat}
    (ha : a ∈ l.map (·.1)) : ∃ n, h a = some n := by
  obtain ⟨x, hx, rfl⟩ := List.mem_map.1 ha
  obtain ⟨i, hi⟩ := List.getElem?_of_mem hx
  exact ⟨_, hl.get hi⟩

/-- A free address is none of the list. -/
theorem Links.fresh (hl : Links h prev l) {a : Nat} (ha : h a = none) :
    a ∉ l.map (·.1) := by
  intro hmem
  obtain ⟨n, hn⟩ := hl.exists_node hmem
  rw [ha] at hn
  cases hn

/-- The first cell determines the list. -/
theorem Links.unique {prev' : Option Nat} {l' : List (Nat × α)}
    (hl : Links h prev l) (hl' : Links h prev' l')
    (hhead : headAddr l = headAddr l') : l = l' := by
  induction l generalizing prev prev' l' with
  | nil =>
      cases l' with
      | nil => rfl
      | cons y l' => cases hhead
  | cons x l ih =>
      cases l' with
      | nil => cases hhead
      | cons y l' =>
          obtain ⟨hx, hl⟩ := hl
          obtain ⟨hy, hl'⟩ := hl'
          have haddr : x.1 = y.1 := Option.some.inj hhead
          rw [haddr, hy] at hx
          have hnode := Option.some.inj hx
          have hval : y.2 = x.2 := congrArg Node.val hnode
          have hnext : headAddr l' = headAddr l := congrArg Node.next hnode
          rw [ih hl hl' hnext.symm, Prod.ext haddr hval.symm]

/-- Only the cells of the list matter. -/
theorem Links.congr (hl : Links h prev l)
    (heq : ∀ x ∈ l, h' x.1 = h x.1) : Links h' prev l := by
  induction l generalizing prev with
  | nil => trivial
  | cons x l ih =>
      obtain ⟨hx, hl⟩ := hl
      refine ⟨(heq x List.mem_cons_self).trans hx, ih hl fun y hy => ?_⟩
      exact heq y (List.mem_cons_of_mem _ hy)

-- ============================================================= changing

/-- `p->next = q`, if `p` is a node. -/
def setNext (p q : Option Nat) (h : Heap α) : Heap α :=
  match p with
  | none => h
  | some a => h.set a ((h a).map fun n => { n with next := q })

/-- `p->prev = q`, if `p` is a node. -/
def setPrev (p q : Option Nat) (h : Heap α) : Heap α :=
  match p with
  | none => h
  | some a => h.set a ((h a).map fun n => { n with prev := q })

theorem setNext_ne {p q : Option Nat} {a : Nat} (hne : p ≠ some a) :
    setNext p q h a = h a := by
  cases p with
  | none => rfl
  | some b => exact Table.get_set_ne _ _ fun he => hne (he ▸ rfl)

/-- A link leaves the values as they are. -/
theorem setNext_val {p q : Option Nat} {a : Nat} {n' : Node α}
    (ha : setNext p q h a = some n') : ∃ n, h a = some n ∧ n.val = n'.val := by
  by_cases hp : p = some a
  · rw [hp, setNext, Table.get_set_self, Option.map_eq_some_iff] at ha
    obtain ⟨n, hn, rfl⟩ := ha
    exact ⟨n, hn, rfl⟩
  · rw [setNext_ne hp] at ha
    exact ⟨n', ha, rfl⟩

theorem setNext_exists {p q : Option Nat} {a : Nat}
    (ha : ∃ n, h a = some n) : ∃ n, setNext p q h a = some n := by
  obtain ⟨n, hn⟩ := ha
  by_cases hp : p = some a
  · refine ⟨{ n with next := q }, ?_⟩
    rw [hp, setNext, Table.get_set_self, hn]
    rfl
  · exact ⟨n, (setNext_ne hp).trans hn⟩

theorem setPrev_ne {p q : Option Nat} {a : Nat} (hne : p ≠ some a) :
    setPrev p q h a = h a := by
  cases p with
  | none => rfl
  | some b => exact Table.get_set_ne _ _ fun he => hne (he ▸ rfl)

theorem setPrev_val {p q : Option Nat} {a : Nat} {n' : Node α}
    (ha : setPrev p q h a = some n') : ∃ n, h a = some n ∧ n.val = n'.val := by
  by_cases hp : p = some a
  · rw [hp, setPrev, Table.get_set_self, Option.map_eq_some_iff] at ha
    obtain ⟨n, hn, rfl⟩ := ha
    exact ⟨n, hn, rfl⟩
  · rw [setPrev_ne hp] at ha
    exact ⟨n', ha, rfl⟩

/-- The neighbours of a node point to each other. -/
def bypass (n : Node α) (h : Heap α) : Heap α :=
  setPrev n.next n.prev (setNext n.prev n.next h)

theorem bypass_ne {n : Node α} {a : Nat} (hp : n.prev ≠ some a)
    (hn : n.next ≠ some a) : bypass n h a = h a := by
  unfold bypass
  rw [setPrev_ne hn, setNext_ne hp]

theorem headAddr_mem {a : Nat} (h : headAddr l = some a) :
    a ∈ l.map (·.1) := by
  cases l with
  | nil => cases h
  | cons x l =>
      cases h
      exact List.mem_cons_self

theorem lastAddr_mem {a : Nat} (h : lastAddr l = some a) :
    a ∈ l.map (·.1) := by
  obtain ⟨x, hx, rfl⟩ := Option.map_eq_some_iff.1 h
  exact List.mem_map_of_mem (List.mem_of_getLast? hx)

/-- Nothing is before the first cell. -/
theorem Links.bypass_head (hl : Links h prev (x :: l₂))
    (hnd : ((x :: l₂).map (·.1)).Nodup)
    (hprev : ∀ a, prev = some a → a ∉ l₂.map (·.1)) :
    Links (bypass ⟨x.2, prev, headAddr l₂⟩ h) prev l₂ := by
  cases l₂ with
  | nil => trivial
  | cons y l₂ =>
      obtain ⟨-, hy, hrest⟩ := hl
      have hnd' := (List.nodup_cons.1 (List.nodup_cons.1 hnd).2)
      have hpy : prev ≠ some y.1 := fun he =>
        hprev y.1 he List.mem_cons_self
      refine ⟨?_, hrest.congr fun z hz => ?_⟩
      · show setPrev (some y.1) prev (setNext prev (some y.1) h) y.1 = _
        rw [setPrev, Table.get_set_self, setNext_ne hpy, hy]
        rfl
      · have hmem : z.1 ∈ l₂.map (·.1) := List.mem_map_of_mem hz
        refine bypass_ne (fun he => ?_) fun he => ?_
        · exact hprev z.1 he (List.mem_cons_of_mem _ hmem)
        · have hyz : y.1 = z.1 := Option.some.inj he
          rw [← hyz] at hmem
          exact hnd'.1 hmem

/-- A cell is taken out from behind others. -/
theorem Links.bypass_cons {n : Node α}
    (hl : Links h prev (y :: (l₁ ++ x :: l₂)))
    (hnd : ((y :: (l₁ ++ x :: l₂)).map (·.1)).Nodup)
    (hn : n = ⟨x.2, lastAddr (y :: l₁), headAddr l₂⟩)
    (hrest : Links (bypass n h) (some y.1) (l₁ ++ l₂)) :
    Links (bypass n h) prev (y :: (l₁ ++ l₂)) := by
  obtain ⟨hy, -⟩ := hl
  have hy_not := (List.nodup_cons.1 hnd).1
  have hnext : n.next ≠ some y.1 := by
    intro he
    rw [hn] at he
    refine hy_not ?_
    simpa using .inr (.inr (by simpa using headAddr_mem he))
  refine ⟨?_, hrest⟩
  cases l₁ with
  | nil =>
      -- the cell before points to the cell behind
      obtain rfl : n = ⟨x.2, some y.1, headAddr l₂⟩ := hn
      show setPrev _ _ (setNext (some y.1) (headAddr l₂) h) y.1 = _
      rw [setPrev_ne hnext, setNext, Table.get_set_self, hy]
      rfl
  | cons z l₁ =>
      have hp : n.prev ≠ some y.1 := by
        intro he
        rw [hn] at he
        have hz : lastAddr (z :: l₁) = some y.1 := by
          simpa [lastAddr, List.getLast?_cons_cons] using he
        refine hy_not ?_
        have hmem := lastAddr_mem hz
        rw [List.map_append]
        exact List.mem_append_left _ hmem
      rw [bypass_ne hp hnext, hy]
      rfl

/-- The last address, from the front, -/
theorem lastAddr_cons (x : Nat × α) (l : List (Nat × α)) :
    lastAddr (x :: l) = (lastAddr l).or (some x.1) := by
  unfold lastAddr
  rw [List.getLast?_cons]
  cases l.getLast? <;> rfl

/-- and from behind. -/
theorem lastAddr_append_cons (l : List (Nat × α)) (x : Nat × α)
    (l' : List (Nat × α)) :
    lastAddr (l ++ x :: l') = lastAddr (x :: l') := by
  unfold lastAddr
  rw [List.getLast?_append, List.getLast?_cons]
  rfl

/-- A cell is taken out. -/
theorem Links.bypass {n : Node α} (hl : Links h prev (l₁ ++ x :: l₂))
    (hnd : ((l₁ ++ x :: l₂).map (·.1)).Nodup)
    (hprev : ∀ a, prev = some a → a ∉ (l₁ ++ x :: l₂).map (·.1))
    (hn : n = ⟨x.2, (lastAddr l₁).or prev, headAddr l₂⟩) :
    Links (bypass n h) prev (l₁ ++ l₂) := by
  induction l₁ generalizing prev with
  | nil =>
      rw [show n = ⟨x.2, prev, headAddr l₂⟩ from hn]
      refine hl.bypass_head hnd fun a ha hmem => hprev a ha ?_
      exact List.mem_cons_of_mem _ hmem
  | cons y l₁ ih =>
      have hn' : n = ⟨x.2, (lastAddr l₁).or (some y.1), headAddr l₂⟩ := by
        rw [hn, lastAddr_cons]
        cases lastAddr l₁ <;> rfl
      have hnd' := List.nodup_cons.1 hnd
      refine hl.bypass_cons hnd (by rw [hn', lastAddr_cons])
        (ih hl.2 hnd'.2 ?_ hn')
      rintro a ⟨⟩
      exact hnd'.1

/-- A cell is added behind the last one. -/
theorem Links.append {a : Nat} {v : α} (hl : Links h prev l)
    (hnd : (l.map (·.1)).Nodup) (ha : a ∉ l.map (·.1)) :
    Links ((setNext (lastAddr l) (some a) h).set a
      (some ⟨v, (lastAddr l).or prev, none⟩)) prev (l ++ [(a, v)]) := by
  induction l generalizing prev with
  | nil => exact ⟨Table.get_set_self _ _ _, trivial⟩
  | cons y l ih =>
      obtain ⟨hy, hrest⟩ := hl
      have hya : y.1 ≠ a := fun he => ha (he ▸ List.mem_cons_self)
      cases l with
      | nil =>
          refine ⟨?_, Table.get_set_self _ _ _, trivial⟩
          rw [Table.get_set_ne _ _ hya]
          show setNext (some y.1) (some a) h y.1 = _
          rw [setNext, Table.get_set_self, hy]
          rfl
      | cons z l =>
          have hnd' := List.nodup_cons.1 hnd
          have hlast : lastAddr (y :: z :: l) = lastAddr (z :: l) := by
            simp [lastAddr, List.getLast?_cons_cons]
          have hne : lastAddr (z :: l) ≠ some y.1 := fun he =>
            hnd'.1 (lastAddr_mem he)
          have hor : (lastAddr (z :: l)).or prev
              = (lastAddr (z :: l)).or (some y.1) := by
            rw [lastAddr_cons]
            cases lastAddr l <;> rfl
          rw [hlast, hor]
          refine ⟨?_, ih hrest hnd'.2 fun hm => ha ?_⟩
          · rw [Table.get_set_ne _ _ hya, setNext_ne hne, hy]
            rfl
          · exact List.mem_cons_of_mem _ hm

-- ================================================================ lists

namespace Dll

variable {r : DllRoot}

/-- The cell that a pointer to one of a list is. -/
theorem node (hd : Dll h r (l₁ ++ x :: l₂)) :
    h x.1 = some ⟨x.2, lastAddr l₁, headAddr l₂⟩ := by
  have hget := hd.links.get (x := x) (i := l₁.length) (by simp)
  rw [hget]
  congr 2
  · cases hl : l₁.length with
    | zero =>
        obtain rfl := List.length_eq_zero_iff.1 hl
        rfl
    | succ k =>
        have hlast : l₁.getLast? = l₁[k]? := by
          rw [List.getLast?_eq_getElem?, hl, Nat.add_sub_cancel]
        rw [prevAddr, lastAddr, hlast,
          List.getElem?_append_left (by omega)]
  · rw [List.getElem?_append_right (by omega)]
    simp [headAddr, List.head?_eq_getElem?]

/-- The heap without a cell. -/
def dropCell (x : Nat × α) (l₁ l₂ : List (Nat × α)) (h : Heap α) :
    Heap α :=
  (Lib.bypass ⟨x.2, lastAddr l₁, headAddr l₂⟩ h).set x.1 none

/-- Bypassing a node leaves the list without it, with the ends moved when it
was one of them. -/
theorem remove (hd : Dll h r (l₁ ++ x :: l₂)) :
    Dll (dropCell x l₁ l₂ h)
      ⟨headAddr (l₁ ++ l₂), lastAddr (l₁ ++ l₂), (l₁ ++ l₂).length⟩
      (l₁ ++ l₂) where
  head := rfl
  tail := rfl
  nb := rfl
  links := by
    have hnd := hd.nodup
    have hlinks := hd.links.bypass hnd (fun _ h => nomatch h)
      (n := ⟨x.2, lastAddr l₁, headAddr l₂⟩) (by simp)
    refine hlinks.congr fun y hy => Table.get_set_ne _ _ fun he => ?_
    -- the cell taken out is not among those left
    rw [List.map_append, List.map_cons, List.nodup_middle] at hnd
    refine (List.nodup_cons.1 hnd).1 (he ▸ ?_)
    rw [← List.map_append]
    exact List.mem_map_of_mem hy
  nodup := by
    have hnd := hd.nodup
    rw [List.map_append, List.map_cons, List.nodup_middle] at hnd
    rw [List.map_append]
    exact (List.nodup_cons.1 hnd).2

/-- Addresses of other lists are left alone. -/
theorem dropCell_ne {a : Nat} (ha : a ∉ (l₁ ++ x :: l₂).map (·.1)) :
    dropCell x l₁ l₂ h a = h a := by
  rw [List.map_append, List.map_cons, List.mem_append, List.mem_cons] at ha
  unfold dropCell
  rw [Table.get_set_ne _ _ fun he => ha (.inr (.inl he))]
  refine bypass_ne (fun he => ha (.inl (lastAddr_mem he))) fun he => ?_
  exact ha (.inr (.inr (headAddr_mem he)))

/-- The list depends on its own nodes only. -/
theorem congr (hd : Dll h r l) (heq : ∀ x ∈ l, h' x.1 = h x.1) :
    Dll h' r l :=
  ⟨hd.head, hd.tail, hd.nb, hd.links.congr heq, hd.nodup⟩

/-- A new cell behind the last one. -/
theorem push (hd : Dll h r l) {a : Nat} {v : α} (ha : a ∉ l.map (·.1))
    (hnew : h' a = some ⟨v, lastAddr l, none⟩)
    (heq : ∀ b, b ≠ a → h' b = setNext (lastAddr l) (some a) h b) :
    Dll h' ⟨headAddr (l ++ [(a, v)]), lastAddr (l ++ [(a, v)]),
      (l ++ [(a, v)]).length⟩ (l ++ [(a, v)]) where
  head := rfl
  tail := rfl
  nb := rfl
  links := by
    refine (hd.links.append (v := v) hd.nodup ha).congr fun y _ => ?_
    rcases eq_or_ne y.1 a with he | hne
    · rw [he, hnew, Table.get_set_self]
      cases lastAddr l <;> rfl
    · rw [heq y.1 hne, Table.get_set_ne _ _ hne]
  nodup := by
    rw [List.map_append, List.map_cons, List.map_nil]
    refine List.nodup_append.2 ⟨hd.nodup, List.nodup_singleton a, ?_⟩
    rintro b hb _ hc rfl
    obtain rfl : b = a := List.mem_singleton.1 hc
    exact ha hb

end Dll

end FemuRemap.Lib
