/-
The inverse lists and the empty lists as
`ftl_inverse_mapping_manager.c` keeps them: nodes in a heap.

The rest of the model has an lpn list for each page and a block list for
each root. Here `INCREASE_INVERSE_MAPPING` and
`DECREASE_INVERSE_MAPPING` change pointers, by the programs of
`Lib.Chain` on the entry of the page, and so do `INSERT_EMPTY_BLOCK` and
the two loops of `GET_EMPTY_BLOCK` that take a block from an empty list
and release it when it is full. A released node is gone from the heap;
following a pointer to it is a fault.
-/
import FemuRemap.Lib.Chain
import FemuRemap.Lib.Layer
import FemuRemap.Lib.Sll
import FemuRemap.Model.InverseMapping

namespace FemuRemap.Pointer

open Lib

variable (c : Conf)

-- ====================================================== inverse lists

/-- `inverse_mapping_entry`: the `int8_t` counter and both ends. -/
structure InversePtr where
  lpnCnt : Int
  head : Option Nat
  tail : Option Nat
deriving DecidableEq

/-- The nodes, and the entries of all pages. -/
structure InverseHeap where
  nodes : Heap Nat
  inverseMappingTable : Table InversePtr

abbrev Inv (α : Type) : Type := Prog InverseHeap Event Fault α

/-- The list of one entry, without its counter. -/
def entryChain (ppn : Nat) :
    Layer (Chain Nat) Empty ChainFault InverseHeap Event Fault where
  get x := ⟨x.nodes, (x.inverseMappingTable ppn).head,
    (x.inverseMappingTable ppn).tail⟩
  put x ch _ :=
    ⟨ch.nodes, x.inverseMappingTable.set ppn
      { x.inverseMappingTable ppn with head := ch.head, tail := ch.tail }⟩
  event := Empty.elim
  fault
    | .null => .nullInverseNode
    | .outOfFuel => .outOfFuel
  base _ := none
  cause
    | .nullInverseNode => some .null
    | .outOfFuel => some .outOfFuel
    | _ => none
  get_put x ch _ := by simp only [Table.get_set_self]
  base_event := nofun
  cause_fault
    | .null => rfl
    | .outOfFuel => rfl

/-- `lpn_cnt = v`. -/
def setLpnCnt (ppn : Nat) (v : Int) : Inv Unit :=
  Prog.modify fun x =>
    ⟨x.nodes, x.inverseMappingTable.set ppn
      { x.inverseMappingTable ppn with lpnCnt := v }⟩

/-- `INCREASE_INVERSE_MAPPING`, with the address that `calloc`
returned. -/
def increaseInverseMapping (a : Nat) (ppn : Option Nat) (lpn : Nat) :
    Inv Ret :=
  match ppn with
  | none => do
      Prog.emit (.error .increaseNoPpn)
      return .fail
  | some p => do
      let x ← Prog.get
      let cnt := (x.inverseMappingTable p).lpnCnt
      (entryChain p).lift do
        Chain.alloc a lpn
        Chain.append a (cnt = 0)
      setLpnCnt p (if cnt = 0 then 1 else i8 (cnt + 1))
      return .success

/-- `DECREASE_INVERSE_MAPPING`; `fuel` bounds the rounds of the
search. -/
def decreaseInverseMapping (fuel : Nat) (ppn : Option Nat) (lpn : Nat) :
    Inv Ret :=
  match ppn with
  | none => do
      Prog.emit (.error .decreaseNoPpn)
      return .fail
  | some p => do
      let x ← Prog.get
      let e := x.inverseMappingTable p
      if e.lpnCnt = 0 then
        Prog.emit (.error .decreaseZero)
        return .fail
      else do
        (entryChain p).lift do
          let victim ← Chain.find lpn fuel e.head
          Chain.unlink victim (e.lpnCnt = 1)
          Chain.free victim
        setLpnCnt p (i8 (e.lpnCnt - 1))
        return .success

-- ======================================================== empty lists

/-- `empty_block_root`. -/
structure EmptyPtr where
  emptyHead : Option Nat
  head : Option Nat
  tail : Option Nat
  emptyBlockNb : Nat
deriving DecidableEq

/-- The entries, the roots and the total. -/
structure EmptyHeap where
  nodes : SHeap EmptyBlock
  emptyBlockList : Table EmptyPtr
  totalEmptyBlockNb : Int

abbrev Emp (α : Type) : Type := Prog EmptyHeap Event Fault α

/-- The entry a pointer leads to. -/
def loadEmpty (p : Option Nat) : Emp (SNode EmptyBlock) := do
  let x ← Prog.get
  match p.bind fun a => x.nodes a with
  | none => Prog.fault .nullBlockEntry
  | some n => return n

/-- `p->next = q`. -/
def storeLink (p q : Option Nat) : Emp Unit := do
  let _ ← loadEmpty p
  Prog.modify fun x => { x with nodes := setLink p q x.nodes }

def setEmptyRoot (i : Nat) (r : EmptyPtr) : Emp Unit :=
  Prog.modify fun x => { x with emptyBlockList := x.emptyBlockList.set i r }

/-- `INSERT_EMPTY_BLOCK`, with the address that `calloc` returned. -/
def insertEmptyBlock (a flash block : Nat) : Emp Unit := do
  let i := rootIndex c flash block
  Prog.modify fun x =>
    { x with nodes := x.nodes.set a (some ⟨⟨flash, block, 0⟩, none⟩) }
  let x ← Prog.get
  let root := x.emptyBlockList i
  if root.emptyHead = none then
    setEmptyRoot i { root with
      emptyHead := some a, tail := some a, emptyBlockNb := 1 }
  else do
    storeLink root.tail (some a)
    setEmptyRoot i { root with
      tail := some a, emptyBlockNb := u32 (root.emptyBlockNb + 1) }
  Prog.modify fun x =>
    { x with totalEmptyBlockNb := x.totalEmptyBlockNb + 1 }

/-- One round of the loop of `GET_EMPTY_BLOCK` that takes the first block
of root `i`. -/
def activateEmpty (i : Nat) : Emp Unit := do
  let x ← Prog.get
  let root := x.emptyBlockList i
  let n ← loadEmpty root.emptyHead
  storeLink root.emptyHead none
  setEmptyRoot i { root with
    emptyHead := n.next
    head := root.emptyHead
    emptyBlockNb := u32 (root.emptyBlockNb - 1) }

/-- One round of the loop of `GET_EMPTY_BLOCK` that retires the full block
of root `i`: `INSERT_VICTIM_BLOCK` reads the entry and frees it. -/
def retireEmpty (i : Nat) : Emp EmptyBlock := do
  let x ← Prog.get
  let root := x.emptyBlockList i
  let n ← loadEmpty root.head
  Prog.modify fun x =>
    { x with
      nodes := match root.head with
        | none => x.nodes
        | some a => x.nodes.set a none
      totalEmptyBlockNb := x.totalEmptyBlockNb - 1 }
  setEmptyRoot i { root with head := none }
  return n.val

end FemuRemap.Pointer
