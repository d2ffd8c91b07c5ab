/-
Programs that change a doubly linked list in place.

A `Chain` is a heap with the two ends of one list in it. The programs
are those that C code writes out at every list: a new node behind the
last one, a search along `next`, and the unlinking of a node by the four
cases of its position. Reading or storing through `NULL`, or through a
node that is not allocated, is a fault. That a list has one node, or
none, is told to them: the C code asks its counter.

On a list of the cells `l` (`Chain.Holds`) they do what they should to
`l`, and nothing to other nodes.
-/
import FemuRemap.Lib.Dll
import FemuRemap.Lib.Prog

namespace FemuRemap.Lib

variable {α : Type}

/-- A heap and the ends of a list in it. -/
structure Chain (α : Type) where
  nodes : Heap α
  head : Option Nat
  tail : Option Nat

/-- What stops a list program. -/
inductive ChainFault where
  | null
  | outOfFuel
deriving DecidableEq

/-- Programs on one chain. -/
abbrev ChainM (α β : Type) : Type := Prog (Chain α) Empty ChainFault β

namespace Chain

-- ========================================================== programs

/-- The node a pointer leads to. -/
def load (p : Option Nat) : ChainM α (Node α) := do
  let x ← Prog.get
  match p.bind fun a => x.nodes a with
  | none => Prog.fault .null
  | some n => return n

/-- Change the heap at a pointer. -/
def store (p : Option Nat) (f : Heap α → Heap α) : ChainM α Unit := do
  let _ ← load p
  Prog.modify fun x => { x with nodes := f x.nodes }

/-- Allocate a node that is linked to nothing; `a` is the address that
`calloc` returned. -/
def alloc (a : Nat) (v : α) : ChainM α Unit :=
  Prog.modify fun x =>
    { x with nodes := x.nodes.set a (some ⟨v, none, none⟩) }

/-- Release a node; `free(NULL)` does nothing. -/
def free (p : Option Nat) : ChainM α Unit :=
  Prog.modify fun x =>
    { x with nodes := match p with
        | none => x.nodes
        | some a => x.nodes.set a none }

/-- Put node `a` behind the last one of a list that is `empty` or not. -/
def append (a : Nat) (empty : Bool) : ChainM α Unit := do
  let x ← Prog.get
  if empty then
    Prog.modify fun x => { x with head := some a, tail := some a }
  else do
    store x.tail (setNext x.tail (some a))
    store (some a) (setPrev (some a) x.tail)
    Prog.modify fun x => { x with tail := some a }

/-- The first node from `p` on that holds `v`, or `NULL`. -/
def find [DecidableEq α] (v : α) : Nat → Option Nat → ChainM α (Option Nat)
  | _, none => return none
  | 0, some _ => Prog.fault .outOfFuel
  | fuel + 1, some a => do
      let n ← load (some a)
      if v = n.val then return some a else find v fuel n.next

/-- Unlink the node at `p` from a list of `only` this node or more. -/
def unlink (p : Option Nat) (only : Bool) : ChainM α Unit := do
  let x ← Prog.get
  if p = x.head then
    if only then
      Prog.modify fun x => { x with head := none, tail := none }
    else do
      let n ← load p
      Prog.modify fun x => { x with head := n.next }
      store n.next (setPrev n.next none)
  else if p = x.tail then do
    let n ← load p
    Prog.modify fun x => { x with tail := n.prev }
    store n.prev (setNext n.prev none)
  else do
    let n ← load p
    store n.prev (setNext n.prev n.next)
    store n.next (setPrev n.next n.prev)

-- ============================================================== lists

variable {x : Chain α} {l l₁ l₂ : List (Nat × α)} {y : Nat × α}

/-- The list has the cells `l`. -/
def Holds (x : Chain α) (l : List (Nat × α)) : Prop :=
  Dll x.nodes ⟨x.head, x.tail, l.length⟩ l

theorem load_run {a : Nat} {n : Node α} (ha : x.nodes a = some n) :
    load (some a) x = ⟨.ok n, x, []⟩ := by
  unfold load
  rw [Prog.run_get_bind]
  simp only [Option.bind_some, ha]
  rfl

theorem store_run {a : Nat} {n : Node α} (f : Heap α → Heap α)
    (ha : x.nodes a = some n) :
    store (some a) f x = ⟨.ok (), { x with nodes := f x.nodes }, []⟩ := by
  unfold store
  rw [Prog.run_bind, load_run ha]
  rfl

theorem load_bind {β : Type} {a : Nat} {n : Node α}
    (ha : x.nodes a = some n) (f : Node α → ChainM α β) :
    (load (some a) >>= f) x = f n x := by
  rw [Prog.run_bind, load_run ha]
  rfl

theorem store_bind {β : Type} {a : Nat} {n : Node α} (g : Heap α → Heap α)
    (ha : x.nodes a = some n) (f : Unit → ChainM α β) :
    (store (some a) g >>= f) x = f () { x with nodes := g x.nodes } := by
  rw [Prog.run_bind, store_run g ha]
  rfl

/-- The search ends at the first cell with the value. -/
theorem find_run [DecidableEq α] {v : α} {prev : Option Nat} {fuel : Nat}
    (hl : Links x.nodes prev (l₁ ++ y :: l₂)) (hv : y.2 = v)
    (hfirst : ∀ z ∈ l₁, z.2 ≠ v) (hfuel : l₁.length < fuel) :
    find v fuel (headAddr (l₁ ++ y :: l₂)) x = ⟨.ok (some y.1), x, []⟩ := by
  induction l₁ generalizing prev fuel with
  | nil =>
      cases fuel with
      | zero => exact absurd hfuel (Nat.not_lt_zero _)
      | succ fuel =>
          have hhead : headAddr ([] ++ y :: l₂) = some y.1 := rfl
          rw [hhead, find, load_bind hl.1, if_pos hv.symm]
          rfl
  | cons z l₁ ih =>
      cases fuel with
      | zero => exact absurd hfuel (Nat.not_lt_zero _)
      | succ fuel =>
          have hhead : headAddr (z :: l₁ ++ y :: l₂) = some z.1 := rfl
          have hz : v ≠ z.2 := fun he =>
            hfirst z (List.mem_cons_self ..) he.symm
          obtain ⟨hnode, hlinks⟩ : Links x.nodes prev (z :: (l₁ ++ y :: l₂)) :=
            hl
          have hrest := ih hlinks (fun w hw => hfirst w
            (List.mem_cons_of_mem _ hw)) (by simpa using hfuel)
          rw [hhead, find, load_bind hnode, if_neg hz, hrest]

/-- A node with one before it is not the head. -/
theorem Holds.head_ne (hx : x.Holds (l₁ ++ y :: l₂)) (hne : l₁ ≠ []) :
    some y.1 ≠ x.head := by
  have hnd := hx.nodup
  rw [List.map_append, List.map_cons, List.nodup_middle] at hnd
  intro he
  have hhead : headAddr l₁ = some y.1 := by
    rw [he, show x.head = headAddr (l₁ ++ y :: l₂) from hx.head]
    obtain ⟨z, l, rfl⟩ := List.exists_cons_of_ne_nil hne
    rfl
  exact (List.nodup_cons.1 hnd).1
    (List.mem_append_left _ (headAddr_mem hhead))

/-- A node with one behind it is not the tail. -/
theorem Holds.tail_ne (hx : x.Holds (l₁ ++ y :: l₂)) (hne : l₂ ≠ []) :
    some y.1 ≠ x.tail := by
  have hnd := hx.nodup
  rw [List.map_append, List.map_cons, List.nodup_middle] at hnd
  intro he
  have hlast : lastAddr l₂ = some y.1 := by
    rw [he, show x.tail = lastAddr (l₁ ++ y :: l₂) from hx.tail,
      lastAddr_append_cons]
    obtain ⟨z, l, rfl⟩ := List.exists_cons_of_ne_nil hne
    rw [lastAddr_cons y, lastAddr_cons z]
    cases lastAddr l <;> rfl
  exact (List.nodup_cons.1 hnd).1
    (List.mem_append_right _ (lastAddr_mem hlast))

/-- There is a last cell, and it is a node. -/
theorem Holds.last_node (hx : x.Holds l) (z : Nat × α)
    (m : List (Nat × α))
    (hsub : ∀ a ∈ (z :: m).map (·.1), a ∈ l.map (·.1)) :
    ∃ u n, lastAddr (z :: m) = some u ∧ x.nodes u = some n := by
  obtain ⟨u, hu⟩ : ∃ u, lastAddr (z :: m) = some u := by
    rw [lastAddr_cons]
    cases lastAddr m <;> exact ⟨_, rfl⟩
  obtain ⟨n, hn⟩ := hx.links.exists_node (hsub u (lastAddr_mem hu))
  exact ⟨u, n, hu, hn⟩

/-- The heap and the ends without a cell that is still allocated. -/
def without (x : Chain α) (y : Nat × α) (l₁ l₂ : List (Nat × α)) :
    Chain α :=
  ⟨bypass ⟨y.2, lastAddr l₁, headAddr l₂⟩ x.nodes, headAddr (l₁ ++ l₂),
    lastAddr (l₁ ++ l₂)⟩

/-- In each of the four cases the neighbours point to each other, and
the ends to the first and the last cell left. -/
theorem unlink_run (hx : x.Holds (l₁ ++ y :: l₂)) {only : Bool}
    (honly : only = decide ((l₁ ++ y :: l₂).length = 1)) :
    unlink (some y.1) only x = ⟨.ok (), x.without y l₁ l₂, []⟩ := by
  have hnode := hx.node
  have hhead : x.head = headAddr (l₁ ++ y :: l₂) := hx.head
  have htail : x.tail = lastAddr (l₁ ++ y :: l₂) := hx.tail
  unfold unlink
  rw [Prog.run_get_bind]
  cases l₁ with
  | nil =>
      have hfirst : some y.1 = x.head := hhead.symm
      rw [if_pos hfirst]
      cases l₂ with
      | nil =>
          have htrue : only = true := honly
          rw [htrue]
          rfl
      | cons z l₂ =>
          have hfalse : only = false := by
            rw [honly]
            simp
          obtain ⟨m, hm⟩ := hx.links.exists_node (a := z.1) (by simp)
          rw [hfalse]
          simp only [Bool.false_eq_true, if_false]
          have hlast : x.tail = lastAddr (z :: l₂) := by
            rw [htail, lastAddr_append_cons, lastAddr_cons y,
              lastAddr_cons z]
            cases lastAddr l₂ <;> rfl
          rw [load_bind hnode]
          show store (some z.1) (setPrev (some z.1) none)
            { x with head := some z.1 } = _
          rw [store_run (x := { x with head := some z.1 }) _ hm, without,
            List.nil_append, ← hlast]
          rfl
  | cons w l₁ =>
      have hne := hx.head_ne (List.cons_ne_nil w l₁)
      rw [if_neg hne]
      obtain ⟨u, m, hu, hm⟩ := hx.last_node w l₁ (by
        intro a ha
        rw [List.map_append]
        exact List.mem_append_left _ ha)
      rw [hu] at hnode
      have hfront : x.head = headAddr (w :: l₁ ++ l₂) := hhead
      cases l₂ with
      | nil =>
          have hlast : some y.1 = x.tail := by
            rw [htail, lastAddr_append_cons]
            rfl
          rw [if_pos hlast, load_bind hnode]
          show store (some u) (setNext (some u) none)
            { x with tail := some u } = _
          rw [store_run (x := { x with tail := some u }) _ hm, without,
            ← hfront, List.append_nil, hu]
          rfl
      | cons z l₂ =>
          have hlast := hx.tail_ne (List.cons_ne_nil z l₂)
          rw [if_neg hlast, load_bind hnode]
          obtain ⟨m', hm'⟩ := setNext_exists (p := some u) (q := some z.1)
            (hx.links.exists_node (a := z.1) (by simp))
          have hback : x.tail = lastAddr (w :: l₁ ++ z :: l₂) := by
            rw [htail, lastAddr_append_cons, lastAddr_append_cons,
              lastAddr_cons y, lastAddr_cons z]
            cases lastAddr l₂ <;> rfl
          show (store (some u) (setNext (some u) (some z.1)) >>= fun _ =>
            store (some z.1) (setPrev (some z.1) (some u))) x = _
          rw [store_bind _ hm, store_run _ hm', without, ← hfront, ← hback,
            hu]
          rfl

/-- Released, the cell is gone, and other nodes are as before. -/
theorem without_free (hx : x.Holds (l₁ ++ y :: l₂)) :
    Holds { x.without y l₁ l₂ with
        nodes := (x.without y l₁ l₂).nodes.set y.1 none } (l₁ ++ l₂)
      ∧ ∀ a, a ∉ (l₁ ++ y :: l₂).map (·.1) →
        (x.without y l₁ l₂).nodes.set y.1 none a = x.nodes a :=
  ⟨hx.remove, fun _ ha => Dll.dropCell_ne ha⟩

-- ============================================================ appending

/-- A node put behind the last one. -/
theorem append_run {a : Nat} {v : α} (hx : x.Holds l)
    (hfresh : a ∉ l.map (·.1)) {empty : Bool}
    (hempty : empty = decide (l.length = 0)) :
    ∃ x', (do alloc a v; append a empty) x = ⟨.ok (), x', []⟩
      ∧ x'.Holds (l ++ [(a, v)])
      ∧ ∀ b, b ≠ a → b ∉ l.map (·.1) → x'.nodes b = x.nodes b := by
  have hhead : x.head = headAddr l := hx.head
  have htail : x.tail = lastAddr l := hx.tail
  have hlast : lastAddr (l ++ [(a, v)]) = some a := by
    rw [lastAddr_append_cons]
    rfl
  rw [show (do alloc a v; append a empty : ChainM α Unit) x
    = append a empty { x with nodes := x.nodes.set a (some ⟨v, none, none⟩) }
    from rfl]
  -- from here on the heap with the new node, whose own links are null
  generalize hh : x.nodes.set a (some ⟨v, none, none⟩) = h
  cases hl : l with
  | nil =>
      have htrue : empty = true := by
        rw [hempty, hl]
        rfl
      rw [htrue]
      subst hl
      refine ⟨_, rfl, ?_, ?_⟩
      · have hnew : h a = some ⟨v, none, none⟩ := by
          rw [← hh, Table.get_set_self]
        have hold : ∀ b, b ≠ a → h b = x.nodes b := by
          intro b hb
          rw [← hh, Table.get_set_ne _ _ hb]
        exact hx.push hfresh hnew hold
      · intro b hb _
        show h b = _
        rw [← hh, Table.get_set_ne _ _ hb]
  | cons z m =>
      have hfalse : empty = false := by
        rw [hempty, hl]
        simp
      obtain ⟨u, n, hu, hn⟩ := hx.last_node z m
        (by rw [hl]; exact fun _ h => h)
      rw [← hl] at hu ⊢
      have hua : u ≠ a := fun he => hfresh (he ▸ lastAddr_mem hu)
      have hn' : h u = some n := by
        rw [← hh, Table.get_set_ne _ _ hua, hn]
      have ha : setNext (some u) (some a) h a = some ⟨v, none, none⟩ := by
        rw [setNext_ne fun he => hua (Option.some.inj he), ← hh,
          Table.get_set_self]
      have hold : ∀ b, b ≠ a → setPrev (some a) (some u)
          (setNext (some u) (some a) h) b
          = setNext (lastAddr l) (some a) x.nodes b := by
        intro b hb
        rw [setPrev_ne fun he => hb (Option.some.inj he).symm]
        simp only [← hh, hu, setNext, Table.get_set, if_neg hua, if_neg hb]
      have hrun : append a false { x with nodes := h } = ⟨.ok (),
          ⟨setPrev (some a) (some u) (setNext (some u) (some a) h), x.head,
            some a⟩, []⟩ := by
        unfold append
        rw [Prog.run_get_bind]
        simp only [Bool.false_eq_true, if_false, htail, hu]
        rw [store_bind (x := ⟨h, x.head, some u⟩) _ hn',
          store_bind (x := ⟨setNext (some u) (some a) h, x.head, some u⟩) _
            ha]
        rfl
      rw [hfalse]
      refine ⟨_, hrun, ?_, ?_⟩
      · have hnew : setPrev (some a) (some u) (setNext (some u) (some a) h) a
            = some ⟨v, lastAddr l, none⟩ := by
          rw [setPrev, Table.get_set_self, ha, hu]
          rfl
        have hpush := hx.push hfresh hnew hold
        have hfront : x.head = headAddr (l ++ [(a, v)]) := by
          rw [hhead, hl]
          rfl
        rw [← hfront, hlast] at hpush
        exact hpush
      · intro b hb hbl
        show setPrev _ _ _ b = _
        rw [hold b hb, setNext_ne]
        intro he
        exact hbl (lastAddr_mem he)

end Chain

end FemuRemap.Lib
