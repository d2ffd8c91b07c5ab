/-
The victim lists as `ftl_inverse_mapping_manager.c` and
`ftl_gc_manager.c` keep them: entries in a heap that point to their
neighbours, and one root per list with both ends and a count.

The rest of the model has a list of entries for each root. Here
`INSERT_VICTIM_BLOCK`, `EJECT_VICTIM_BLOCK` and `SELECT_VICTIM_SUPERBLOCK`
follow and change pointers; the rest of the state is in `rest`, whose own
victim lists nothing here reads. Following or storing through `NULL` or
through an entry that is not allocated is a fault.
-/
import FemuRemap.Lib.Dll
import FemuRemap.Model.Gc

namespace FemuRemap.Pointer

open Lib

/-- The victim lists, and the rest of `struct ssdstate`. -/
structure VictimHeap where
  nodes : Heap VictimBlock
  victimBlockList : Table DllRoot
  totalVictimBlockNb : Int
  rest : Ssd

abbrev Ptr (α : Type) : Type := Prog VictimHeap Event Fault α

variable (c : Conf)

-- =========================================================== pointers

/-- The entry a pointer leads to. -/
def load (p : Option Nat) : Ptr (Node VictimBlock) := do
  let x ← Prog.get
  match p.bind fun a => x.nodes a with
  | none => Prog.fault .nullBlockEntry
  | some n => return n

/-- Change the heap at a pointer. -/
def store (p : Option Nat) (f : Heap VictimBlock → Heap VictimBlock) :
    Ptr Unit := do
  let _ ← load p
  Prog.modify fun x => { x with nodes := f x.nodes }

def setRoot (j : Nat) (r : DllRoot) : Ptr Unit :=
  Prog.modify fun x => { x with victimBlockList := x.victimBlockList.set j r }

/-- `k` steps along `next`. -/
def walk : Nat → Option Nat → Ptr (Option Nat)
  | 0, p => return p
  | k + 1, p => do
      let n ← load p
      walk k n.next

-- ========================================================== the lists

/-- `INSERT_VICTIM_BLOCK`, with the address that `calloc` returned. -/
def insertVictimBlock (a : Nat) (full : EmptyBlock) : Ptr Unit := do
  let new : VictimBlock := ⟨full.phyFlashNb, full.phyBlockNb⟩
  let i := rootIndex c full.phyFlashNb full.phyBlockNb
  Prog.modify fun x =>
    { x with nodes := x.nodes.set a (some ⟨new, none, none⟩) }
  let x ← Prog.get
  let root := x.victimBlockList i
  if root.nb = 0 then setRoot i ⟨some a, some a, 1⟩
  else do
    store root.tail (setNext root.tail (some a))
    store (some a) (setPrev (some a) root.tail)
    setRoot i { root with tail := some a, nb := u32 (root.nb + 1) }
  Prog.modify fun x =>
    { x with totalVictimBlockNb := x.totalVictimBlockNb + 1 }

/-- The entry at `p`, which is `n`, leaves the list of root `i`. -/
def unlinkVictim (p : Option Nat) (n : Node VictimBlock) (i : Nat)
    (root : DllRoot) : Ptr Unit :=
  if p = root.head then
    if root.nb = 1 then setRoot i { root with head := none, tail := none }
    else do
      setRoot i { root with head := n.next }
      store n.next (setPrev n.next none)
  else if p = root.tail then do
    setRoot i { root with tail := n.prev }
    store n.prev (setNext n.prev none)
  else do
    store n.prev (setNext n.prev n.next)
    store n.next (setPrev n.next n.prev)

/-- `EJECT_VICTIM_BLOCK`. -/
def ejectVictimBlock (p : Option Nat) : Ptr Unit := do
  let n ← load p
  let i := rootIndex c n.val.phyFlashNb n.val.phyBlockNb
  let x ← Prog.get
  unlinkVictim p n i (x.victimBlockList i)
  Prog.modify fun x =>
    let root := x.victimBlockList i
    { x with
      victimBlockList :=
        x.victimBlockList.set i { root with nb := u32 (root.nb - 1) }
      totalVictimBlockNb := x.totalVictimBlockNb - 1
      nodes := match p with
        | none => x.nodes
        | some a => x.nodes.set a none }

-- ========================================================== selection

/-- The loop over the roots. -/
def sumSuperblock (i : Nat) (entryNb : Int) :
    List Nat → Nat → Int → Ptr (Option Int)
  | [], _, sum => return some sum
  | j :: js, first, sum => do
      let x ← Prog.get
      let root := x.victimBlockList j
      if i = 0 ∧ i32 root.nb ≠ entryNb then
        Prog.emit (.error .victimCount)
        return none
      else
        let n ← load (← walk i root.head)
        let first := if j = 0 then n.val.phyBlockNb else first
        if n.val.phyBlockNb ≠ first then
          Prog.emit (.error .victimOffset)
          return none
        else
          let b := getBlockStateEntry c x.rest n.val.phyFlashNb
            n.val.phyBlockNb
          sumSuperblock i entryNb js first (i32 (sum + b.validPageNb))

/-- The loop over the positions. -/
def scanVictims (entryNb : Int) :
    List Nat → Nat → Int → Ptr (Option (Nat × Int))
  | [], off, min => return some (off, min)
  | i :: is, off, min => do
      match ← sumSuperblock c i entryNb (List.range c.victimTableEntryNb)
          0 0 with
      | none => return none
      | some sum =>
          if sum < min then scanVictims entryNb is i sum
          else scanVictims entryNb is off min

/-- The array `victim_block` of the entries at position `off`. -/
def victimsAt (off : Nat) : List Nat → Ptr (List (Option Nat))
  | [] => return []
  | j :: js => do
      let x ← Prog.get
      let p ← walk off (x.victimBlockList j).head
      let ps ← victimsAt off js
      return p :: ps

/-- `SELECT_VICTIM_SUPERBLOCK`: the block number of the superblock taken
out, or `none` for `FAIL`. -/
def selectVictimSuperblock : Ptr (Option Nat) := do
  let x ← Prog.get
  let full := i32 (i32 (c.pageNb * c.flashNb) * c.planesPerFlash)
  let entryNb := i32 (x.victimBlockList 0).nb
  if x.totalVictimBlockNb = 0 then
    Prog.emit (.error .noVictimBlock)
    return none
  else if (x.victimBlockList 0).nb = 0 then
    Prog.emit (.error .noVictimSuperblock)
    return none
  else
    match ← scanVictims c entryNb (List.range entryNb.toNat) 0 full with
    | none => return none
    | some (off, min) =>
        if min = full then
          Prog.modify fun x => { x with rest := { x.rest with
            stat := { x.rest.stat with
              failCnt := x.rest.stat.failCnt + 1 } } }
          Prog.emit (.error .tooManyValid)
          return none
        else do
          let ps ← victimsAt off (List.range c.victimTableEntryNb)
          let n ← load ps.head?.join
          Prog.each (ejectVictimBlock c) ps
          return some n.val.phyBlockNb

end FemuRemap.Pointer
