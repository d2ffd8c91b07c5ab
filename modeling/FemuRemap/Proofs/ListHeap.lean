/-
The linked lists hold sequences.

Each list function, run on a list of the cells `l`, ends normally and
leaves the list that it should, whatever the position of the cell it is
about: `INCREASE_INVERSE_MAPPING` and `DECREASE_INVERSE_MAPPING` on the
inverse list of a page, `INSERT_VICTIM_BLOCK` and `EJECT_VICTIM_BLOCK` on
a victim list, and `INSERT_EMPTY_BLOCK` on an empty list, whose `tail`
points to a released entry once the last block has been taken.
-/
import FemuRemap.Model.ListHeap
import FemuRemap.Proofs.VictimHeap

namespace FemuRemap.Pointer

open Lib

variable {c : Conf}

-- ====================================================== inverse lists

section Inverse

variable {x x' : InverseHeap} {p lpn a : Nat} {l l' : List (Nat × Nat)}

/-- The entry of page `p` has the cells `l` and counts them. -/
structure InverseList (x : InverseHeap) (p : Nat) (l : List (Nat × Nat)) :
    Prop where
  chain : ((entryChain p).get x).Holds l
  cnt : (x.inverseMappingTable p).lpnCnt = l.length
  few : l.length ≤ 127

/-- The cells of no other list changed. -/
def OthersKept (x x' : InverseHeap) (p : Nat) (l : List (Nat × Nat)) :
    Prop :=
  ∀ q l', q ≠ p → InverseList x q l' →
    (∀ b ∈ l'.map (·.1), b ∉ l.map (·.1)) → InverseList x' q l'

/-- A node that was just allocated is on no list. -/
theorem InverseList.fresh (h : InverseList x p l) (ha : x.nodes a = none) :
    a ∉ l.map (·.1) :=
  h.chain.links.fresh ha

/-- The heap with the list `ch` and the counter `v` in the entry of
`p`. -/
def putEntry (x : InverseHeap) (p : Nat) (ch : Chain Nat) (v : Int) :
    InverseHeap :=
  ⟨ch.nodes, ((entryChain p).put x ch []).inverseMappingTable.set p
    ⟨v, ch.head, ch.tail⟩⟩

/-- The entry that is written, -/
theorem putEntry_self (ch : Chain Nat) (v : Int) :
    (putEntry x p ch v).inverseMappingTable p = ⟨v, ch.head, ch.tail⟩ :=
  Table.get_set_self _ _ _

/-- and the others. -/
theorem putEntry_ne {q : Nat} (hq : q ≠ p) (ch : Chain Nat) (v : Int) :
    (putEntry x p ch v).inverseMappingTable q = x.inverseMappingTable q :=
  (Table.get_set_ne _ _ hq).trans (Table.get_set_ne _ _ hq)

/-- The count is written behind the list operation. -/
theorem setLpnCnt_run (v : Int) (ch : Chain Nat) :
    setLpnCnt p v ((entryChain p).put x ch [])
      = ⟨.ok (), putEntry x p ch v, []⟩ := by
  unfold setLpnCnt putEntry entryChain
  simp only [Prog.run_modify, Table.get_set_self]

/-- Lists of other pages are not disturbed. -/
theorem InverseList.putEntry_other {ch : Chain Nat} {q : Nat}
    (h : InverseList x q l') (hq : q ≠ p)
    (hkeep : ∀ b ∈ l'.map (·.1), ch.nodes b = x.nodes b) (v : Int) :
    InverseList (putEntry x p ch v) q l' := by
  refine ⟨?_, by rw [putEntry_ne hq, h.cnt], h.few⟩
  show Dll ch.nodes ⟨((putEntry x p ch v).inverseMappingTable q).head,
    ((putEntry x p ch v).inverseMappingTable q).tail, _⟩ l'
  rw [putEntry_ne hq]
  exact h.chain.congr fun y hy => hkeep y.1 (List.mem_map_of_mem hy)

/-- The list that was written, with its count. -/
theorem inverseList_putEntry {ch : Chain Nat} (hch : ch.Holds l)
    (hfew : l.length ≤ 127) {v : Int} (hv : v = l.length) :
    InverseList (putEntry x p ch v) p l := by
  refine ⟨?_, by rw [putEntry_self, hv], hfew⟩
  show Dll ch.nodes ⟨((putEntry x p ch v).inverseMappingTable p).head,
    ((putEntry x p ch v).inverseMappingTable p).tail, _⟩ l
  rw [putEntry_self]
  exact hch

/-- `INCREASE_INVERSE_MAPPING` appends. -/
theorem increaseInverseMapping_run (h : InverseList x p l)
    (hroom : l.length < 127) (ha : x.nodes a = none) (lpn : Nat) :
    ∃ x', increaseInverseMapping a (some p) lpn x = ⟨.ok .success, x', []⟩
      ∧ InverseList x' p (l ++ [(a, lpn)]) ∧ OthersKept x x' p l := by
  have hcnt := h.cnt
  have hzero : decide ((x.inverseMappingTable p).lpnCnt = 0)
      = decide (l.length = 0) := by
    rw [hcnt]
    simp
  obtain ⟨ch, hrun, hch, hkeep⟩ := Chain.append_run (v := lpn) h.chain
    (h.fresh ha) hzero
  refine ⟨putEntry x p ch (if (x.inverseMappingTable p).lpnCnt = 0 then 1
    else i8 ((x.inverseMappingTable p).lpnCnt + 1)), ?_,
    inverseList_putEntry hch ?_ ?_, ?_⟩
  · unfold increaseInverseMapping
    dsimp only
    rw [Prog.run_get_bind, Prog.run_bind, (entryChain p).lift_run hrun,
      Prog.andThen_ok, Prog.run_bind, List.map_nil, setLpnCnt_run]
    rfl
  · rw [List.length_append, List.length_singleton]
    omega
  · rw [hcnt, List.length_append, List.length_singleton]
    split
    · omega
    · rw [i8_of_mem (by omega) (by omega)]
      omega
  · intro q l' hq hl' hapart
    refine hl'.putEntry_other hq (fun b hb => ?_) _
    exact hkeep b (fun he => hl'.fresh ha (he ▸ hb)) (hapart b hb)

/-- Where an lpn occurs first. -/
theorem first_occurrence (h : lpn ∈ l.map (·.2)) :
    ∃ l₁ y l₂, l = l₁ ++ y :: l₂ ∧ y.2 = lpn ∧ (∀ z ∈ l₁, z.2 ≠ lpn)
      ∧ (l₁ ++ l₂).map (·.2) = (l.map (·.2)).erase lpn := by
  induction l with
  | nil => cases h
  | cons z l ih =>
      by_cases hz : z.2 = lpn
      · refine ⟨[], z, l, rfl, hz, nofun, ?_⟩
        rw [List.map_cons, hz, List.erase_cons_head]
        rfl
      · have hmem : lpn ∈ l.map (·.2) := by
          rcases List.mem_cons.1 h with he | hm
          · exact absurd he.symm hz
          · exact hm
        obtain ⟨l₁, y, l₂, rfl, hy, hfirst, herase⟩ := ih hmem
        refine ⟨z :: l₁, y, l₂, rfl, hy, ?_, ?_⟩
        · exact List.forall_mem_cons.2 ⟨hz, hfirst⟩
        · rw [List.map_cons, List.erase_cons_tail (by simpa using hz),
            ← herase]
          rfl

/-- `DECREASE_INVERSE_MAPPING` removes the first occurrence. -/
theorem decreaseInverseMapping_run (h : InverseList x p l) {fuel : Nat}
    (hlpn : lpn ∈ l.map (·.2)) (hfuel : l.length ≤ fuel) :
    ∃ x' l', decreaseInverseMapping fuel (some p) lpn x
        = ⟨.ok .success, x', []⟩
      ∧ l'.map (·.2) = (l.map (·.2)).erase lpn ∧ InverseList x' p l'
      ∧ OthersKept x x' p l := by
  have hcnt := h.cnt
  have hfew := h.few
  -- the search stops at the first node with the lpn, so that one goes
  obtain ⟨l₁, y, l₂, rfl, hy, hfirst, herase⟩ := first_occurrence hlpn
  have hpos : (x.inverseMappingTable p).lpnCnt ≠ 0 := by
    rw [hcnt, List.length_append, List.length_cons]
    omega
  have hone : decide ((x.inverseMappingTable p).lpnCnt = 1)
      = decide ((l₁ ++ y :: l₂).length = 1) := by
    rw [hcnt]
    simp only [decide_eq_decide]
    omega
  have hhead : (x.inverseMappingTable p).head
      = headAddr (l₁ ++ y :: l₂) := h.chain.head
  have hfind := Chain.find_run (v := lpn) h.chain.links hy hfirst
    (show l₁.length < fuel by
      rw [List.length_append, List.length_cons] at hfuel
      omega)
  have hunlink := Chain.unlink_run h.chain hone
  obtain ⟨hleft, hkeep⟩ := Chain.without_free h.chain
  refine ⟨putEntry x p _ (i8 ((x.inverseMappingTable p).lpnCnt - 1)),
    l₁ ++ l₂, ?_, herase, inverseList_putEntry hleft ?_ ?_, ?_⟩
  · have hrun : (do
          let victim ← Chain.find lpn fuel (x.inverseMappingTable p).head
          Chain.unlink victim (decide ((x.inverseMappingTable p).lpnCnt = 1))
          Chain.free victim : ChainM Nat Unit) ((entryChain p).get x)
        = ⟨.ok (), { ((entryChain p).get x).without y l₁ l₂ with
            nodes := (((entryChain p).get x).without y l₁ l₂).nodes.set y.1
              none }, []⟩ := by
      rw [hhead, Prog.run_bind, hfind, Prog.andThen_ok, Prog.run_bind,
        hunlink]
      rfl
    unfold decreaseInverseMapping
    dsimp only
    rw [Prog.run_get_bind, if_neg hpos, Prog.run_bind,
      (entryChain p).lift_run hrun, Prog.andThen_ok, Prog.run_bind,
      List.map_nil, setLpnCnt_run]
    rfl
  · rw [List.length_append, List.length_cons] at hfew
    rw [List.length_append]
    omega
  · rw [hcnt]
    rw [List.length_append, List.length_cons] at hfew ⊢
    rw [List.length_append, i8_of_mem (by omega) (by omega)]
    omega
  · intro q l' hq hl' hapart
    exact hl'.putEntry_other hq (fun b hb => hkeep b (hapart b hb)) _

end Inverse

-- ======================================================== empty lists

section Empty

variable {x : EmptyHeap} {i a flash block : Nat} {y : Nat × EmptyBlock}
  {l : List (Nat × EmptyBlock)}

/-- Root `i` has the cells `l` and counts them. -/
structure EmptyList (x : EmptyHeap) (i : Nat) (l : List (Nat × EmptyBlock)) :
    Prop where
  sll : Sll x.nodes (x.emptyBlockList i).emptyHead
    (x.emptyBlockList i).tail l
  nb : (x.emptyBlockList i).emptyBlockNb = l.length
  few : l.length < 2 ^ 32

theorem loadEmpty_bind {β : Type} {n : SNode EmptyBlock}
    (ha : x.nodes a = some n) (f : SNode EmptyBlock → Emp β) :
    (loadEmpty (some a) >>= f) x = f n x := by
  unfold loadEmpty
  rw [Prog.run_bind, Prog.run_get_bind]
  simp only [Option.bind_some, ha]
  rfl

theorem storeLink_bind {β : Type} {n : SNode EmptyBlock} {q : Option Nat}
    (ha : x.nodes a = some n) (f : Unit → Emp β) :
    (storeLink (some a) q >>= f) x
      = f () { x with nodes := setLink (some a) q x.nodes } := by
  have hrun : storeLink (some a) q x
      = ⟨.ok (), { x with nodes := setLink (some a) q x.nodes }, []⟩ := by
    unfold storeLink
    rw [loadEmpty_bind ha]
    rfl
  rw [Prog.run_bind, hrun]
  rfl

/-- A root that is set to `r`. -/
theorem emptyList_of_root {x' : EmptyHeap} {r : EmptyPtr}
    (hr : x'.emptyBlockList i = r)
    (hsll : Sll x'.nodes r.emptyHead r.tail l)
    (hnb : r.emptyBlockNb = l.length) (hfew : l.length < 2 ^ 32) :
    EmptyList x' i l := by
  subst hr
  exact ⟨hsll, hnb, hfew⟩

/-- `INSERT_EMPTY_BLOCK` appends. It follows `tail` only when the list is
not empty. -/
theorem insertEmptyBlock_run (h : EmptyList x i l)
    (hown : rootIndex c flash block = i) (ha : x.nodes a = none)
    (hroom : l.length + 1 < 2 ^ 32) :
    ∃ x', insertEmptyBlock c a flash block x = ⟨.ok (), x', []⟩
      ∧ EmptyList x' i (l ++ [(a, ⟨flash, block, 0⟩)]) := by
  have hfresh := h.sll.links.fresh ha
  have hset : Sll (x.nodes.set a (some ⟨⟨flash, block, 0⟩, none⟩))
      (x.emptyBlockList i).emptyHead (x.emptyBlockList i).tail l := by
    refine h.sll.congr fun y hy => Table.get_set_ne _ _ fun he => ?_
    exact hfresh (he ▸ List.mem_map_of_mem hy)
  have hpush := hset.push hfresh (Table.get_set_self _ _ _)
  have hlen : (l ++ [(a, (⟨flash, block, 0⟩ : EmptyBlock))]).length
      = l.length + 1 := by simp
  generalize hh : x.nodes.set a (some ⟨⟨flash, block, 0⟩, none⟩) = nodes
    at hset hpush
  unfold insertEmptyBlock
  dsimp only
  rw [Prog.run_modify_bind, Prog.run_get_bind, hown, hh]
  dsimp only
  cases l with
  | nil =>
      have hnone : (x.emptyBlockList i).emptyHead = none := h.sll.head
      rw [if_pos hnone]
      exact ⟨_, rfl, emptyList_of_root (Table.get_set_self _ _ _) hpush rfl
        (by omega)⟩
  | cons z m =>
      have hsome : (x.emptyBlockList i).emptyHead ≠ none := by
        rw [h.sll.head]
        exact Option.some_ne_none z.1
      obtain ⟨u, hu⟩ : ∃ u, lastAddr (z :: m) = some u := by
        rw [lastAddr_cons]
        cases lastAddr m <;> exact ⟨_, rfl⟩
      have htail : (x.emptyBlockList i).tail = some u :=
        (h.sll.tail (List.cons_ne_nil z m)).trans hu
      obtain ⟨n, hn⟩ := hset.links.exists_node (lastAddr_mem hu)
      have hfront : (x.emptyBlockList i).emptyHead
          = headAddr (z :: m ++ [(a, ⟨flash, block, 0⟩)]) := h.sll.head
      rw [hu, ← hfront] at hpush
      rw [if_neg hsome, htail]
      show ∃ x', (storeLink (some u) (some a) >>= fun _ => _)
        { x with nodes := nodes } = ⟨.ok (), x', []⟩ ∧ _
      rw [storeLink_bind (x := { x with nodes := nodes }) hn]
      refine ⟨_, rfl, emptyList_of_root (Table.get_set_self _ _ _) hpush ?_
        (by omega)⟩
      show u32 ((x.emptyBlockList i).emptyBlockNb + 1) = _
      rw [hlen, h.nb]
      exact u32_of_lt (by push_cast; rfl) hroom

/-- The first block is taken: it is active, and `tail` stays. -/
theorem activateEmpty_run (h : EmptyList x i (y :: l)) :
    ∃ x', activateEmpty i x = ⟨.ok (), x', []⟩ ∧ EmptyList x' i l
      ∧ (x'.emptyBlockList i).head = some y.1
      ∧ (x'.emptyBlockList i).tail = (x.emptyBlockList i).tail
      ∧ x'.nodes y.1 = some ⟨y.2, none⟩ := by
  have hhead : (x.emptyBlockList i).emptyHead = some y.1 := h.sll.head
  have hnode : x.nodes y.1 = some ⟨y.2, headAddr l⟩ := h.sll.links.1
  have hnd := List.nodup_cons.1 h.sll.nodup
  have hfew := h.few
  rw [List.length_cons] at hfew
  have hpop : Sll (setLink (some y.1) none x.nodes) (headAddr l)
      (x.emptyBlockList i).tail l := by
    refine h.sll.pop.congr fun z hz => setLink_ne fun he => ?_
    have hmem : z.1 ∈ l.map (·.1) := List.mem_map_of_mem hz
    rw [← Option.some.inj he] at hmem
    exact hnd.1 hmem
  have hnb : u32 ((x.emptyBlockList i).emptyBlockNb - 1) = l.length := by
    rw [h.nb, List.length_cons]
    exact u32_of_lt (by push_cast; omega) (by omega)
  have hrun : activateEmpty i x = ⟨.ok (), { x with
      nodes := setLink (some y.1) none x.nodes
      emptyBlockList := x.emptyBlockList.set i
        ⟨headAddr l, some y.1, (x.emptyBlockList i).tail, l.length⟩ },
      []⟩ := by
    unfold activateEmpty
    rw [Prog.run_get_bind, hhead, loadEmpty_bind hnode,
      storeLink_bind hnode, hnb]
    rfl
  have hroot := Table.get_set_self x.emptyBlockList i
    ⟨headAddr l, some y.1, (x.emptyBlockList i).tail, l.length⟩
  refine ⟨_, hrun, emptyList_of_root hroot hpop rfl (by omega), ?_, ?_, ?_⟩
  · have hhead' := congrArg EmptyPtr.head hroot
    exact hhead'
  · have htail := congrArg EmptyPtr.tail hroot
    exact htail
  · show setLink (some y.1) none x.nodes y.1 = _
    rw [setLink, Table.get_set_self, hnode]
    rfl

/-- The full block is released; the list does not contain it. -/
theorem retireEmpty_run (h : EmptyList x i l)
    (hhead : (x.emptyBlockList i).head = some y.1) (hy : y.1 ∉ l.map (·.1))
    (hnode : x.nodes y.1 = some ⟨y.2, none⟩) :
    ∃ x', retireEmpty i x = ⟨.ok y.2, x', []⟩ ∧ EmptyList x' i l
      ∧ (x'.emptyBlockList i).tail = (x.emptyBlockList i).tail
      ∧ x'.nodes y.1 = none
      ∧ ∀ b, b ≠ y.1 → x'.nodes b = x.nodes b := by
  have hrun : retireEmpty i x = ⟨.ok y.2, {
      nodes := x.nodes.set y.1 none
      emptyBlockList := x.emptyBlockList.set i
        { x.emptyBlockList i with head := none }
      totalEmptyBlockNb := x.totalEmptyBlockNb - 1 }, []⟩ := by
    unfold retireEmpty
    rw [Prog.run_get_bind, hhead, loadEmpty_bind hnode]
    rfl
  have hroot := Table.get_set_self x.emptyBlockList i
    { x.emptyBlockList i with head := none }
  have hsll : Sll (x.nodes.set y.1 none) (x.emptyBlockList i).emptyHead
      (x.emptyBlockList i).tail l := by
    refine h.sll.congr fun z hz => Table.get_set_ne _ _ fun he => ?_
    exact hy (he ▸ List.mem_map_of_mem hz)
  refine ⟨_, hrun, emptyList_of_root hroot hsll h.nb h.few, ?_, ?_, ?_⟩
  · have htail := congrArg EmptyPtr.tail hroot
    exact htail
  · exact Table.get_set_self _ _ _
  · intro b hb
    exact Table.get_set_ne _ _ hb

/-- The last block of a list is taken and released: `tail` points to
nothing, and `INSERT_EMPTY_BLOCK` starts the list again. -/
theorem insert_after_last (h : EmptyList x i [y])
    (hown : rootIndex c flash block = i) :
    ∃ x₁ x₂, activateEmpty i x = ⟨.ok (), x₁, []⟩
      ∧ retireEmpty i x₁ = ⟨.ok y.2, x₂, []⟩
      ∧ (x₂.emptyBlockList i).tail = some y.1 ∧ x₂.nodes y.1 = none
      ∧ ∀ a, x₂.nodes a = none →
        ∃ x₃, insertEmptyBlock c a flash block x₂ = ⟨.ok (), x₃, []⟩
          ∧ EmptyList x₃ i [(a, ⟨flash, block, 0⟩)] := by
  obtain ⟨x₁, hrun₁, h₁, hhead₁, htail₁, hnode₁⟩ := activateEmpty_run h
  obtain ⟨x₂, hrun₂, h₂, htail₂, hnode₂, -⟩ := retireEmpty_run h₁ hhead₁
    List.not_mem_nil hnode₁
  refine ⟨x₁, x₂, hrun₁, hrun₂, ?_, hnode₂, fun a ha => ?_⟩
  · rw [htail₂, htail₁, h.sll.tail (List.cons_ne_nil y [])]
    rfl
  · exact insertEmptyBlock_run h₂ hown ha (by decide)

end Empty

-- ======================================================= all the lists

/-- Root `j` of the victim lists has the cells `l`; its count is an
`unsigned int`, and its entries are of its own flash and plane. -/
structure VictimList (c : Conf) (x : VictimHeap) (j : Nat)
    (l : List (Nat × VictimBlock)) : Prop where
  dll : Dll x.nodes (x.victimBlockList j) l
  own : ∀ y ∈ l, rootIndex c y.2.phyFlashNb y.2.phyBlockNb = j
  few : l.length < 2 ^ 32

/-- The full block goes to the tail. -/
theorem VictimList.insert {x : VictimHeap} {j a : Nat} {full : EmptyBlock}
    {l : List (Nat × VictimBlock)} (h : VictimList c x j l)
    (hown : rootIndex c full.phyFlashNb full.phyBlockNb = j)
    (ha : x.nodes a = none) (hroom : l.length + 1 < 2 ^ 32) :
    ∃ x', insertVictimBlock c a full x = ⟨.ok (), x', []⟩
      ∧ VictimList c x' j
        (l ++ [(a, ⟨full.phyFlashNb, full.phyBlockNb⟩)]) := by
  have hfresh := h.dll.links.fresh ha
  obtain ⟨x', hrun, hins⟩ := insertVictimBlock_run h.dll hown hfresh hroom
  refine ⟨x', hrun, ?_, ?_, by simpa using hroom⟩
  · have hpush := h.dll.push hfresh hins.new hins.old
    rw [hins.roots j, if_pos rfl]
    exact hpush
  · intro y hy
    rcases List.mem_append.1 hy with hy | hy
    · exact h.own y hy
    · cases List.mem_singleton.1 hy
      exact hown

/-- Any block can be taken out, from its node alone. -/
theorem VictimList.eject {x : VictimHeap} {j : Nat} {y : Nat × VictimBlock}
    {l₁ l₂ : List (Nat × VictimBlock)}
    (h : VictimList c x j (l₁ ++ y :: l₂)) :
    ∃ x', ejectVictimBlock c (some y.1) x = ⟨.ok (), x', []⟩
      ∧ VictimList c x' j (l₁ ++ l₂) := by
  have hown := h.own y (by simp)
  obtain ⟨x', hrun, v, hv, rfl⟩ := ejectVictimBlock_run h.dll hown h.few
  have hfew := h.few
  refine ⟨_, hrun, ?_, fun z hz => h.own z ?_, ?_⟩
  · have hremove := h.dll.remove
    show Dll (Dll.dropCell y l₁ l₂ x.nodes) (v j) (l₁ ++ l₂)
    rw [hv j, if_pos rfl]
    exact hremove
  · rw [List.mem_append] at hz ⊢
    exact hz.imp_right (List.mem_cons_of_mem _)
  · rw [List.length_append, List.length_cons] at hfew
    rw [List.length_append]
    omega

/-- The list functions on lists of any length and at any position:
`INCREASE_INVERSE_MAPPING` appends while there are fewer than 127 lpns,
`DECREASE_INVERSE_MAPPING` removes the first occurrence of an lpn,
`INSERT_VICTIM_BLOCK` appends, `EJECT_VICTIM_BLOCK` removes the entry it
is given, and `INSERT_EMPTY_BLOCK` appends, also when `tail` points to
the released entry of the last block. -/
theorem lists_hold_sequences (c : Conf) :
    (∀ x p l, InverseList x p l →
      (l.length < 127 → ∀ a lpn, x.nodes a = none →
        ∃ x', increaseInverseMapping a (some p) lpn x
            = ⟨.ok .success, x', []⟩
          ∧ InverseList x' p (l ++ [(a, lpn)]) ∧ OthersKept x x' p l)
      ∧ ∀ lpn fuel, lpn ∈ l.map (·.2) → l.length ≤ fuel →
        ∃ x' l', decreaseInverseMapping fuel (some p) lpn x
            = ⟨.ok .success, x', []⟩
          ∧ l'.map (·.2) = (l.map (·.2)).erase lpn ∧ InverseList x' p l'
          ∧ OthersKept x x' p l)
    ∧ (∀ x j l, VictimList c x j l →
      (∀ a (full : EmptyBlock), x.nodes a = none →
        rootIndex c full.phyFlashNb full.phyBlockNb = j →
        l.length + 1 < 2 ^ 32 →
        ∃ x', insertVictimBlock c a full x = ⟨.ok (), x', []⟩
          ∧ VictimList c x' j
            (l ++ [(a, ⟨full.phyFlashNb, full.phyBlockNb⟩)]))
      ∧ ∀ l₁ y l₂, l = l₁ ++ y :: l₂ →
        ∃ x', ejectVictimBlock c (some y.1) x = ⟨.ok (), x', []⟩
          ∧ VictimList c x' j (l₁ ++ l₂))
    ∧ ∀ x i l flash block, EmptyList x i l → rootIndex c flash block = i →
      (l.length + 1 < 2 ^ 32 → ∀ a, x.nodes a = none →
        ∃ x', insertEmptyBlock c a flash block x = ⟨.ok (), x', []⟩
          ∧ EmptyList x' i (l ++ [(a, ⟨flash, block, 0⟩)]))
      ∧ ∀ y, l = [y] →
        ∃ x₁ x₂, activateEmpty i x = ⟨.ok (), x₁, []⟩
          ∧ retireEmpty i x₁ = ⟨.ok y.2, x₂, []⟩
          ∧ (x₂.emptyBlockList i).tail = some y.1 ∧ x₂.nodes y.1 = none
          ∧ ∀ a, x₂.nodes a = none →
            ∃ x₃, insertEmptyBlock c a flash block x₂ = ⟨.ok (), x₃, []⟩
              ∧ EmptyList x₃ i [(a, ⟨flash, block, 0⟩)] := by
  refine ⟨fun x p l h => ⟨?_, ?_⟩, fun x j l h => ⟨?_, ?_⟩,
    fun x i l flash block h hown => ⟨?_, ?_⟩⟩
  · intro hroom a lpn ha
    exact increaseInverseMapping_run h hroom ha lpn
  · intro lpn fuel hlpn hfuel
    exact decreaseInverseMapping_run h hlpn hfuel
  · intro a full ha hfull hroom
    exact h.insert hfull ha hroom
  · rintro l₁ y l₂ rfl
    exact h.eject
  · intro hroom a ha
    exact insertEmptyBlock_run h hown ha hroom
  · rintro y rfl
    exact insert_after_last h hown

/-- Page 3 is listed for lpn 4 twice, as it is during a remap. -/
def threeLpns : InverseHeap :=
  ((do
      let _ ← increaseInverseMapping 0 (some 3) 4
      let _ ← increaseInverseMapping 1 (some 3) 9
      increaseInverseMapping 2 (some 3) 4 : Inv Ret)
    ⟨.fill none, .fill ⟨0, none, none⟩⟩).st

theorem threeLpns_list :
    InverseList threeLpns 3 [(0, 4), (1, 9), (2, 4)] where
  chain := ⟨rfl, rfl, rfl, ⟨rfl, rfl, rfl, trivial⟩, by decide⟩
  cnt := by decide
  few := by decide

/-- Block 5 is the only one of its root. -/
def oneEmpty : EmptyHeap :=
  (insertEmptyBlock twoConf 8 0 5
    ⟨.fill none, .fill ⟨none, none, none, 0⟩, 0⟩).st

theorem oneEmpty_list : EmptyList oneEmpty 0 [(8, ⟨0, 5, 0⟩)] where
  sll := ⟨rfl, fun _ => rfl, ⟨rfl, trivial⟩, by decide⟩
  nb := by decide
  few := by decide

theorem twoVictims_list :
    VictimList twoConf twoVictims 0 [(10, ⟨0, 5⟩), (20, ⟨0, 7⟩)] :=
  ⟨twoVictims_lists.dll 0 (by decide), by decide, by decide⟩

/-- A lpn listed twice, the first of two victims, and a last block whose
address is used again. -/
theorem lists_hold_sequences_small :
    (∃ x' l', decreaseInverseMapping 3 (some 3) 4 threeLpns
        = ⟨.ok .success, x', []⟩
      ∧ l'.map (·.2) = [9, 4] ∧ InverseList x' 3 l')
    ∧ (∃ x', ejectVictimBlock twoConf (some 10) twoVictims
        = ⟨.ok (), x', []⟩ ∧ VictimList twoConf x' 0 [(20, ⟨0, 7⟩)])
    ∧ ∃ x₁ x₂ x₃, activateEmpty 0 oneEmpty = ⟨.ok (), x₁, []⟩
      ∧ retireEmpty 0 x₁ = ⟨.ok ⟨0, 5, 0⟩, x₂, []⟩
      ∧ (x₂.emptyBlockList 0).tail = some 8
      ∧ insertEmptyBlock twoConf 8 0 6 x₂ = ⟨.ok (), x₃, []⟩
      ∧ EmptyList x₃ 0 [(8, ⟨0, 6, 0⟩)] := by
  obtain ⟨hinverse, hvictim, hempty⟩ := lists_hold_sequences twoConf
  refine ⟨?_, ?_, ?_⟩
  · obtain ⟨x', l', hrun, hlpns, hl', -⟩ :=
      (hinverse _ _ _ threeLpns_list).2 4 3 (by decide) (by decide)
    exact ⟨x', l', hrun, hlpns, hl'⟩
  · exact (hvictim _ _ _ twoVictims_list).2 [] _ _ rfl
  · obtain ⟨x₁, x₂, hrun₁, hrun₂, htail, hgone, hinsert⟩ :=
      (hempty _ _ _ 0 6 oneEmpty_list (by decide)).2 _ rfl
    obtain ⟨x₃, hrun₃, hlist⟩ := hinsert 8 hgone
    exact ⟨x₁, x₂, x₃, hrun₁, hrun₂, htail, hrun₃, hlist⟩

end FemuRemap.Pointer
