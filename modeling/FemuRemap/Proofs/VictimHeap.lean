/-
The victim lists of pointers are those of the model, and when the
selection of a victim superblock is greedy and takes out exactly one
entry of every list.

`Shows` relates a heap, the cells `ls j` of its roots and a state of the
model. Reading goes along the cells (`walk_run`), so the two selections
scan alike (`Shows.scans`); an ejection takes one cell out of one list in
whichever of its four cases it runs (`Shows.eject`) and an insertion adds
one behind the last (`Shows.insert`), so the relation is kept. An
ejection changes the count of the one root that the entry's own flash and
plane index (`ejectVictimBlock_spares`), which is why a selection over
several planes is not greedy.
-/
import FemuRemap.Lib.Tally
import FemuRemap.Model.VictimHeap
import FemuRemap.Proofs.Victim

namespace FemuRemap.Pointer

open Lib

variable {c : Conf} {x x' : VictimHeap} {s s' : Ssd}
  {ls : Nat → List (Nat × VictimBlock)} {y : Nat × VictimBlock}
  {l l₁ l₂ : List (Nat × VictimBlock)}

-- ========================================================= the relation

/-- A state with the victim lists of another. -/
def withVictims (r : Ssd) (l : BlockLists) : Ssd :=
  { r with lists := { r.lists with
      victimBlockList := l.victimBlockList
      totalVictimBlockNb := l.totalVictimBlockNb } }

/-- The roots have the cells `ls`, and `s` is the state of the model with
their entries. -/
structure Shows (c : Conf) (x : VictimHeap)
    (ls : Nat → List (Nat × VictimBlock)) (s : Ssd) : Prop where
  dll : ∀ j, j < c.victimTableEntryNb →
    Dll x.nodes (x.victimBlockList j) (ls j)
  apart : ∀ i j, i < c.victimTableEntryNb → j < c.victimTableEntryNb →
    i ≠ j → ∀ a ∈ (ls i).map (·.1), a ∉ (ls j).map (·.1)
  entries : ∀ j, j < c.victimTableEntryNb →
    s.lists.victimBlockList j = ⟨(ls j).map (·.2), (ls j).length⟩
  total : s.lists.totalVictimBlockNb = x.totalVictimBlockNb
  rest : ∃ l, s = withVictims x.rest l

/-- Both levels see the same block states. -/
theorem Shows.getBlockStateEntry (h : Shows c x ls s) (flash block : Nat) :
    getBlockStateEntry c x.rest flash block
      = FemuRemap.getBlockStateEntry c s flash block := by
  obtain ⟨l, rfl⟩ := h.rest
  rfl

-- ============================================================== reading

theorem load_run {a : Nat} {n : Node VictimBlock}
    (ha : x.nodes a = some n) : load (some a) x = ⟨.ok n, x, []⟩ := by
  unfold load
  rw [Prog.run_get_bind]
  simp only [Option.bind_some, ha]
  rfl

/-- Along the cells of a list. -/
theorem walk_run {prev : Option Nat} {i : Nat}
    (hl : Links x.nodes prev l) (hi : i ≤ l.length) :
    walk i (headAddr l) x = ⟨.ok (l[i]?.map (·.1)), x, []⟩ := by
  induction i generalizing l prev with
  | zero => simp [walk, headAddr, List.head?_eq_getElem?]
  | succ i ih =>
      cases l with
      | nil => simp at hi
      | cons y l =>
          obtain ⟨hy, hl⟩ := hl
          have hhead : headAddr (y :: l) = some y.1 := rfl
          rw [walk, hhead, Prog.run_bind, load_run hy, Prog.andThen_ok,
            ih hl (by simpa using hi)]
          simp

/-- The entry at a position of a list. -/
theorem Shows.entry_run (h : Shows c x ls s) {i j : Nat}
    (hj : j < c.victimTableEntryNb) (hi : (ls j)[i]? = some y) :
    ∃ n, n.val = y.2 ∧ walk i (x.victimBlockList j).head x
        = ⟨.ok (some y.1), x, []⟩
      ∧ load (some y.1) x = ⟨.ok n, x, []⟩ := by
  have hd := h.dll j hj
  have hlt := (List.getElem?_eq_some_iff.1 hi).1
  refine ⟨_, rfl, ?_, load_run (hd.links.get hi)⟩
  rw [hd.head, walk_run hd.links (Nat.le_of_lt hlt), hi]
  rfl

/-- Two programs report the same and end alike, and neither changes its
state. -/
def Alike {α : Type} (m : Ptr α) (x : VictimHeap) (m' : Ftl α) (s : Ssd) :
    Prop :=
  ∃ r log, m x = ⟨r, x, log⟩ ∧ m' s = ⟨r, s, log⟩

/-- The loops over the roots. -/
theorem Shows.sumSuperblock (h : Shows c x ls s) {i : Nat} {n : Int}
    (js : List Nat) (hjs : ∀ j ∈ js, j < c.victimTableEntryNb)
    (hi : ∀ j ∈ js, i < (ls j).length) (first : Nat) (sum : Int) :
    Alike (sumSuperblock c i n js first sum) x
      (FemuRemap.sumSuperblock c i n js first sum) s := by
  induction js generalizing first sum with
  | nil => exact ⟨_, _, rfl, rfl⟩
  | cons j js ih =>
      have hj := hjs j List.mem_cons_self
      have hcell := List.getElem?_eq_getElem (hi j List.mem_cons_self)
      obtain ⟨m, hm, hwalk, hload⟩ := h.entry_run hj hcell
      have hnb : (s.lists.victimBlockList j).victimBlockNb
          = (x.victimBlockList j).nb := by
        rw [h.entries j hj, (h.dll j hj).nb]
      have hent : (s.lists.victimBlockList j).entries[i]? = some m.val := by
        rw [h.entries j hj, List.getElem?_map, hcell, hm]
        rfl
      have ih' := ih (fun k hk => hjs k (List.mem_cons_of_mem _ hk))
        fun k hk => hi k (List.mem_cons_of_mem _ hk)
      unfold Alike
      rw [Pointer.sumSuperblock, FemuRemap.sumSuperblock,
        Prog.run_get_bind, Prog.run_get_bind]
      simp only [hnb, hent]
      split
      · exact ⟨_, _, rfl, rfl⟩
      · rw [Prog.run_bind, hwalk, Prog.andThen_ok, Prog.run_bind, hload,
          Prog.andThen_ok]
        dsimp only
        generalize (if j = 0 then m.val.phyBlockNb else first) = f
        split
        · exact ⟨_, _, rfl, rfl⟩
        · rw [h.getBlockStateEntry]
          obtain ⟨r, log, h₁, h₂⟩ := ih' _ _
          exact ⟨r, log, by rw [h₁]; rfl, h₂⟩

/-- The loops over the positions. -/
theorem Shows.scanVictims (h : Shows c x ls s) {n : Int} (is : List Nat)
    (his : ∀ i ∈ is, ∀ j, j < c.victimTableEntryNb → i < (ls j).length)
    (off : Nat) (min : Int) :
    Alike (scanVictims c n is off min) x
      (FemuRemap.scanVictims c n is off min) s := by
  induction is generalizing off min with
  | nil => exact ⟨_, _, rfl, rfl⟩
  | cons i is ih =>
      have ih' := ih fun k hk => his k (List.mem_cons_of_mem _ hk)
      obtain ⟨r, log, h₁, h₂⟩ := h.sumSuperblock (i := i) (n := n)
        (List.range c.victimTableEntryNb) (by simp)
        (fun j hj => his i List.mem_cons_self j (List.mem_range.1 hj)) 0 0
      unfold Alike
      rw [Pointer.scanVictims, FemuRemap.scanVictims, Prog.run_bind,
        Prog.run_bind, h₁, h₂]
      cases r with
      | error e => exact ⟨_, _, rfl, rfl⟩
      | ok r =>
          cases r with
          | none => exact ⟨_, _, rfl, rfl⟩
          | some sum =>
              simp only [Prog.andThen_ok]
              split
              · obtain ⟨r', log', h₁', h₂'⟩ := ih' i sum
                exact ⟨r', log ++ log', by rw [h₁'], by rw [h₂']⟩
              · obtain ⟨r', log', h₁', h₂'⟩ := ih' off min
                exact ⟨r', log ++ log', by rw [h₁'], by rw [h₂']⟩

/-- The array of the entries at one position. -/
theorem Shows.victimsAt (h : Shows c x ls s) {off : Nat} (js : List Nat)
    (hjs : ∀ j ∈ js, j < c.victimTableEntryNb)
    (hoff : ∀ j ∈ js, off < (ls j).length) :
    victimsAt off js x
      = ⟨.ok (js.map fun j => (ls j)[off]?.map (·.1)), x, []⟩ := by
  induction js with
  | nil => rfl
  | cons j js ih =>
      have hd := h.dll j (hjs j List.mem_cons_self)
      have hlt := hoff j List.mem_cons_self
      rw [Pointer.victimsAt, Prog.run_get_bind, Prog.run_bind, hd.head,
        walk_run hd.links (Nat.le_of_lt hlt), Prog.andThen_ok,
        Prog.run_bind, ih (fun k hk => hjs k (List.mem_cons_of_mem _ hk))
          fun k hk => hoff k (List.mem_cons_of_mem _ hk)]
      rfl

-- ============================================================= ejecting

theorem store_run {a : Nat} {n : Node VictimBlock}
    (f : Heap VictimBlock → Heap VictimBlock)
    (ha : x.nodes a = some n) :
    store (some a) f x = ⟨.ok (), { x with nodes := f x.nodes }, []⟩ := by
  unfold store
  rw [Prog.run_bind, load_run ha]
  rfl

/-- The root of a list without one of its cells. -/
def rootOf (l : List (Nat × VictimBlock)) : DllRoot :=
  ⟨headAddr l, lastAddr l, l.length⟩

/-- What an ejection leaves: the heap without the cell, and the root of
the other cells. -/
def Ejected (j : Nat) (y : Nat × VictimBlock)
    (l₁ l₂ : List (Nat × VictimBlock)) (x x' : VictimHeap) : Prop :=
  ∃ v : Table DllRoot,
    (∀ k, v k = if k = j then rootOf (l₁ ++ l₂) else x.victimBlockList k)
    ∧ x' = { x with
        nodes := Dll.dropCell y l₁ l₂ x.nodes
        victimBlockList := v
        totalVictimBlockNb := x.totalVictimBlockNb - 1 }

/-- The root of `j` gets the ends of `l`. -/
def Relinked (j : Nat) (l : List (Nat × VictimBlock)) (nb : Nat)
    (t t' : Table DllRoot) : Prop :=
  ∀ k, t' k = if k = j then ⟨headAddr l, lastAddr l, nb⟩ else t k

/-- The root that was written, -/
theorem relinked_set (j : Nat) (l : List (Nat × VictimBlock)) (nb : Nat)
    (t : Table DllRoot) :
    Relinked j l nb t (t.set j ⟨headAddr l, lastAddr l, nb⟩) :=
  fun _ => Table.get_set _ _ _ _

/-- or one that had the value already. -/
theorem relinked_self {j : Nat} {nb : Nat} {t : Table DllRoot}
    (h : t j = ⟨headAddr l, lastAddr l, nb⟩) : Relinked j l nb t t := by
  intro k
  split
  · next he => rw [he, h]
  · rfl

/-- The four cases of an ejection: in each the neighbours point to each
other and the root to the new ends. -/
theorem unlinkVictim_run {j : Nat} {r : DllRoot} {n : Node VictimBlock}
    (hd : Dll x.nodes r (l₁ ++ y :: l₂)) (hr : x.victimBlockList j = r)
    (hn : n = ⟨y.2, lastAddr l₁, headAddr l₂⟩) :
    ∃ v, unlinkVictim (some y.1) n j r x
        = ⟨.ok (), { x with nodes := bypass n x.nodes
                            victimBlockList := v }, []⟩
      ∧ Relinked j (l₁ ++ l₂) r.nb x.victimBlockList v := by
  have hcell : ∀ a ∈ (l₁ ++ y :: l₂).map (·.1), ∃ m, x.nodes a = some m :=
    fun a ha => hd.links.exists_node ha
  obtain ⟨head, tail, nb⟩ := r
  obtain ⟨rfl, rfl, rfl, -, hnd⟩ := hd
  rw [List.map_append, List.map_cons, List.nodup_middle] at hnd
  obtain ⟨hy₁, hy₂⟩ := not_or.1
    (mt List.mem_append.2 (List.nodup_cons.1 hnd).1)
  unfold unlinkVictim
  dsimp only
  -- the four branches of the source: alone, at the head, at the tail, inside
  cases l₁ with
  | nil =>
      have hhead : some y.1 = headAddr ([] ++ y :: l₂) := rfl
      rw [if_pos hhead]
      cases l₂ with
      | nil =>
          subst hn
          exact ⟨_, rfl, relinked_set j [] 1 _⟩
      | cons z l₂ =>
          subst hn
          obtain ⟨m, hm⟩ := hcell z.1 (by simp)
          have hnb : ([] ++ y :: z :: l₂).length ≠ 1 := by simp
          rw [if_neg hnb]
          refine ⟨_, store_run (x := { x with victimBlockList := _ }) _ hm,
            ?_⟩
          exact relinked_set j (z :: l₂) _ _
  | cons w l₁ =>
      have hhead : some y.1 ≠ headAddr (w :: l₁ ++ y :: l₂) := fun he =>
        hy₁ (headAddr_mem (l := w :: l₁) he.symm)
      obtain ⟨u, hu⟩ : ∃ u, lastAddr (w :: l₁) = some u := by
        rw [lastAddr_cons]
        cases lastAddr l₁ <;> exact ⟨_, rfl⟩
      have humem : u ∈ (w :: l₁ ++ y :: l₂).map (·.1) := by
        rw [List.map_append]
        exact List.mem_append_left _ (lastAddr_mem hu)
      obtain ⟨m, hm⟩ := hcell u humem
      rw [if_neg hhead]
      cases l₂ with
      | nil =>
          have htail : some y.1 = lastAddr (w :: l₁ ++ [y]) :=
            (lastAddr_append_cons _ y []).symm
          rw [if_pos htail]
          rw [hu] at hn
          subst hn
          refine ⟨_, store_run (x := { x with victimBlockList := _ }) _ hm,
            ?_⟩
          have hset := relinked_set j (w :: l₁) (w :: l₁ ++ [y]).length
            x.victimBlockList
          rw [hu] at hset
          rw [List.append_nil]
          exact hset
      | cons z l₂ =>
          have hlast : lastAddr (w :: l₁ ++ y :: z :: l₂)
              = lastAddr (z :: l₂) := by
            rw [show w :: l₁ ++ y :: z :: l₂ = (w :: l₁ ++ [y]) ++ z :: l₂
              by simp, lastAddr_append_cons]
          have htail : some y.1 ≠ lastAddr (w :: l₁ ++ y :: z :: l₂) :=
            fun he => hy₂ (lastAddr_mem (hlast.symm.trans he.symm))
          rw [if_neg htail]
          rw [hu] at hn
          subst hn
          -- the second store finds its node still there
          obtain ⟨m', hm'⟩ := setNext_exists (p := some u)
            (q := some z.1) (hcell z.1 (by simp))
          have hstore := store_run (x := { x with
            nodes := setNext (some u) (some z.1) x.nodes })
            (setPrev (some z.1) (some u)) hm'
          refine ⟨x.victimBlockList, ?_, relinked_self (hr.trans ?_)⟩
          · show (store (some u) (setNext (some u) (some z.1)) >>= fun _ =>
              store (some z.1) (setPrev (some z.1) (some u))) x = _
            rw [Prog.run_bind, store_run _ hm, Prog.andThen_ok, hstore]
            rfl
          · rw [hlast, lastAddr_append_cons]
            rfl

/-- `EJECT_VICTIM_BLOCK`. -/
theorem ejectVictimBlock_run {j : Nat}
    (hd : Dll x.nodes (x.victimBlockList j) (l₁ ++ y :: l₂))
    (hown : rootIndex c y.2.phyFlashNb y.2.phyBlockNb = j)
    (hfew : (l₁ ++ y :: l₂).length < 2 ^ 32) :
    ∃ x', ejectVictimBlock c (some y.1) x = ⟨.ok (), x', []⟩
      ∧ Ejected j y l₁ l₂ x x' := by
  have hnb : u32 ((x.victimBlockList j).nb - 1) = (l₁ ++ l₂).length := by
    rw [hd.nb]
    simp only [List.length_append, List.length_cons] at hfew ⊢
    exact u32_of_lt (by omega) (by omega)
  obtain ⟨v, hrun, hv⟩ := unlinkVictim_run hd rfl rfl
  refine ⟨_, ?_, v.set j (rootOf (l₁ ++ l₂)), fun k => ?_, rfl⟩
  · unfold ejectVictimBlock
    rw [Prog.run_bind, load_run hd.node, Prog.andThen_ok, hown,
      Prog.run_get_bind, Prog.run_bind, hrun, Prog.andThen_ok]
    have hroot : v j = ⟨headAddr (l₁ ++ l₂), lastAddr (l₁ ++ l₂),
        (x.victimBlockList j).nb⟩ := (hv j).trans (if_pos rfl)
    simp only [Prog.run_modify, hroot, hnb]
    rfl
  · rw [Table.get_set]
    split
    · rfl
    · next hne => rw [hv k, if_neg hne]

/-- The model takes the entry at the same position out of its list. -/
theorem Shows.eject (h : Shows c x ls s) {j : Nat}
    (hj : j < c.victimTableEntryNb) (hl : ls j = l₁ ++ y :: l₂)
    (hown : rootIndex c y.2.phyFlashNb y.2.phyBlockNb = j)
    (hfew : (ls j).length < 2 ^ 32) (hx : Ejected j y l₁ l₂ x x') :
    Shows c x' (Function.update ls j (l₁ ++ l₂))
      { s with
        lists := FemuRemap.ejectVictimBlock c y.2 l₁.length s.lists } := by
  obtain ⟨v, hv, rfl⟩ := hx
  have hsub : ∀ k, ∀ a ∈ (Function.update ls j (l₁ ++ l₂) k).map (·.1),
      a ∈ (ls k).map (·.1) := by
    intro k a ha
    rcases eq_or_ne k j with rfl | hne
    · rw [Function.update_self] at ha
      rw [hl]
      simp only [List.map_append, List.map_cons, List.mem_append,
        List.mem_cons] at ha ⊢
      exact ha.imp_right .inr
    · rwa [Function.update_of_ne hne] at ha
  refine ⟨fun k hk => ?_, fun i k hi hk hik a ha ha' => ?_, fun k hk => ?_,
    ?_, ?_⟩
  · -- the nodes of another list are not those of this one
    rcases eq_or_ne k j with rfl | hne
    · rw [Function.update_self, hv k, if_pos rfl]
      exact (hl ▸ h.dll k hk).remove
    · rw [Function.update_of_ne hne, hv k, if_neg hne]
      refine (h.dll k hk).congr fun z hz => Dll.dropCell_ne ?_
      rw [← hl]
      exact h.apart k j hk hj hne z.1 (List.mem_map_of_mem hz)
  · exact h.apart i k hi hk hik a (hsub i a ha) (hsub k a ha')
  · show (s.lists.victimBlockList.set _ _).get k = _
    rw [hown, Table.get_set]
    rcases eq_or_ne k j with rfl | hne
    · rw [if_pos rfl, Function.update_self, h.entries k hk]
      rw [hl] at hfew ⊢
      simp only [List.length_append, List.length_cons] at hfew
      rw [List.map_append, List.map_cons, List.eraseIdx_append_of_length_le
        (by simp), List.length_map, Nat.sub_self, List.eraseIdx_cons_zero,
        ← List.map_append]
      congr 1
      exact u32_of_lt (by simp; omega) (by simp; omega)
    · rw [if_neg hne, Function.update_of_ne hne, h.entries k hk]
  · show s.lists.totalVictimBlockNb - 1 = x.totalVictimBlockNb - 1
    rw [h.total]
  · obtain ⟨l, rfl⟩ := h.rest
    exact ⟨FemuRemap.ejectVictimBlock c y.2 l₁.length
      (withVictims x.rest l).lists, rfl⟩

/-- The list model's removal succeeds. -/
theorem Shows.ejectAt_run (h : Shows c x ls s) {j off : Nat}
    (hj : j < c.victimTableEntryNb) (hoff : (ls j)[off]? = some y) :
    ejectAt c off j s
      = ⟨.ok (), { s with
          lists := FemuRemap.ejectVictimBlock c y.2 off s.lists }, []⟩ := by
  have hent : (s.lists.victimBlockList j).entries[off]? = some y.2 := by
    rw [h.entries j hj, List.getElem?_map, hoff]
    rfl
  unfold ejectAt
  rw [Prog.run_get_bind]
  simp only [hent]
  rfl

/-- One entry of every list of `js` is ejected. -/
theorem Shows.ejectAll {off : Nat} (js : List Nat) (hnd : js.Nodup)
    (hjs : ∀ j ∈ js, j < c.victimTableEntryNb) (h : Shows c x ls s)
    (hoff : ∀ j ∈ js, off < (ls j).length)
    (hown : ∀ j ∈ js, ∀ z ∈ ls j,
      rootIndex c z.2.phyFlashNb z.2.phyBlockNb = j)
    (hfew : ∀ j ∈ js, (ls j).length < 2 ^ 32) :
    ∃ x' s', Prog.each (ejectVictimBlock c)
          (js.map fun j => (ls j)[off]?.map (·.1)) x = ⟨.ok (), x', []⟩
      ∧ Prog.each (ejectAt c off) js s = ⟨.ok (), s', []⟩
      ∧ Shows c x' (fun j => if j ∈ js then (ls j).eraseIdx off else ls j) s'
      ∧ x'.rest = x.rest
      ∧ x'.totalVictimBlockNb = x.totalVictimBlockNb - js.length := by
  induction js generalizing x s ls with
  | nil => exact ⟨x, s, rfl, rfl, by simpa using h, rfl, by simp⟩
  | cons j js ih =>
      have hj := hjs j List.mem_cons_self
      have hlt := hoff j List.mem_cons_self
      have hsplit : ls j = (ls j).take off
          ++ (ls j)[off] :: (ls j).drop (off + 1) := by simp
      have hlen : ((ls j).take off).length = off := by simp; omega
      have herase : (ls j).take off ++ (ls j).drop (off + 1)
          = (ls j).eraseIdx off := (List.eraseIdx_eq_take_drop_succ _ _).symm
      have hroot := hown j List.mem_cons_self _ (List.getElem_mem hlt)
      have hsmall := hfew j List.mem_cons_self
      obtain ⟨x₁, hrun, hx₁⟩ := ejectVictimBlock_run
        (hsplit ▸ h.dll j hj) hroot (hsplit ▸ hsmall)
      have h₁ := h.eject hj hsplit hroot hsmall hx₁
      rw [hlen, herase] at h₁
      have hcell := List.getElem?_eq_getElem hlt
      obtain ⟨hnot, hnd'⟩ := List.nodup_cons.1 hnd
      -- the other lists are as before
      have hother : ∀ k ∈ js,
          Function.update ls j ((ls j).eraseIdx off) k = ls k := by
        intro k hk
        exact Function.update_of_ne (fun he : k = j => hnot (he ▸ hk)) _ _
      have hmem : ∀ k ∈ js, k ∈ j :: js := fun k =>
        List.mem_cons_of_mem _
      obtain ⟨x', s', hx', hs', hshow, hrest, htotal⟩ := ih hnd'
        (fun k hk => hjs k (hmem k hk)) h₁
        (fun k hk => by rw [hother k hk]; exact hoff k (hmem k hk))
        (fun k hk => by rw [hother k hk]; exact hown k (hmem k hk))
        (fun k hk => by rw [hother k hk]; exact hfew k (hmem k hk))
      refine ⟨x', s', ?_, ?_, ?_, ?_, ?_⟩
      · rw [List.map_cons, hcell, Prog.each, Prog.run_bind]
        show Prog.andThen (ejectVictimBlock c (some _) x) _ = _
        have hptrs : js.map (fun k => (ls k)[off]?.map (·.1))
            = js.map fun k => (Function.update ls j
              ((ls j).eraseIdx off) k)[off]?.map (·.1) :=
          List.map_congr_left fun k hk => by rw [hother k hk]
        rw [hrun, Prog.andThen_ok, hptrs, hx']
        rfl
      · rw [Prog.each, Prog.run_bind, h.ejectAt_run hj hcell,
          Prog.andThen_ok, hs']
        rfl
      · have hfun : (fun k => if k ∈ j :: js then (ls k).eraseIdx off
              else ls k)
            = fun k => if k ∈ js then (Function.update ls j
                ((ls j).eraseIdx off) k).eraseIdx off
              else Function.update ls j ((ls j).eraseIdx off) k := by
          funext k
          by_cases hk : k ∈ js
          · rw [if_pos (hmem k hk), if_pos hk, hother k hk]
          · rw [if_neg hk]
            rcases eq_or_ne k j with rfl | hne
            · rw [if_pos List.mem_cons_self, Function.update_self]
            · rw [Function.update_of_ne hne, if_neg]
              exact fun hm => (List.mem_cons.1 hm).elim hne hk
        rw [hfun]
        exact hshow
      · obtain ⟨v, -, rfl⟩ := hx₁
        exact hrest
      · obtain ⟨v, -, rfl⟩ := hx₁
        rw [htotal, List.length_cons]
        show x.totalVictimBlockNb - 1 - _ = _
        omega

-- ============================================================ inserting

/-- What an insertion leaves: a new cell behind the last one of the list,
and the root of both. -/
structure Inserted (j : Nat) (y : Nat × VictimBlock)
    (l : List (Nat × VictimBlock)) (x x' : VictimHeap) : Prop where
  new : x'.nodes y.1 = some ⟨y.2, lastAddr l, none⟩
  old : ∀ a, a ≠ y.1 →
    x'.nodes a = setNext (lastAddr l) (some y.1) x.nodes a
  roots : ∀ k, x'.victimBlockList k
    = if k = j then rootOf (l ++ [y]) else x.victimBlockList k
  total : x'.totalVictimBlockNb = x.totalVictimBlockNb + 1
  rest : x'.rest = x.rest

/-- `INSERT_VICTIM_BLOCK`. -/
theorem insertVictimBlock_run {j a : Nat} {full : EmptyBlock}
    (hd : Dll x.nodes (x.victimBlockList j) l)
    (hown : rootIndex c full.phyFlashNb full.phyBlockNb = j)
    (hfresh : a ∉ l.map (·.1)) (hfew : l.length + 1 < 2 ^ 32) :
    ∃ x', insertVictimBlock c a full x = ⟨.ok (), x', []⟩
      ∧ Inserted j (a, ⟨full.phyFlashNb, full.phyBlockNb⟩) l x x' := by
  unfold insertVictimBlock
  dsimp only
  rw [Prog.run_modify_bind, Prog.run_get_bind, hown]
  dsimp only
  cases hl : l with
  | nil =>
      have hnb : (x.victimBlockList j).nb = 0 := by rw [hd.nb, hl]; rfl
      rw [if_pos hnb]
      refine ⟨_, rfl, Table.get_set_self _ _ _,
        fun b hb => Table.get_set_ne _ _ hb, fun k => Table.get_set _ _ _ _,
        rfl, rfl⟩
  | cons z m =>
      rw [← hl]
      have hnb : (x.victimBlockList j).nb ≠ 0 := by rw [hd.nb, hl]; simp
      obtain ⟨u, hu⟩ : ∃ u, lastAddr l = some u := by
        rw [hl, lastAddr_cons]
        cases lastAddr m <;> exact ⟨_, rfl⟩
      have hua : u ≠ a := fun he => hfresh (he ▸ lastAddr_mem hu)
      obtain ⟨n, hn⟩ := hd.links.exists_node (lastAddr_mem hu)
      -- the old tail is another node than the new one, so the two stores do
      -- not meet
      generalize hh : x.nodes.set a (some _) = h
      have hn' : h u = some n := by
        rw [← hh, Table.get_set_ne _ _ hua, hn]
      have ha : setNext (some u) (some a) h a
          = some ⟨⟨full.phyFlashNb, full.phyBlockNb⟩, none, none⟩ := by
        rw [setNext_ne fun he => hua (Option.some.inj he), ← hh,
          Table.get_set_self]
      rw [if_neg hnb, hd.tail, hu, Prog.run_bind,
        store_run (x := { x with nodes := h }) _ hn', Prog.andThen_ok,
        Prog.run_bind, store_run (x := { x with
          nodes := setNext (some u) (some a) h }) _ ha]
      refine ⟨_, rfl, ?_, fun b hb => ?_, fun k => ?_, rfl, rfl⟩
      · show setPrev (some a) (some u) _ a = _
        rw [setPrev, Table.get_set_self, ha, hu]
        rfl
      · show setPrev (some a) (some u) _ b = _
        rw [setPrev_ne fun he => hb (Option.some.inj he).symm]
        simp only [← hh, hu, setNext, Table.get_set, if_neg hua, if_neg hb]
      · show (x.victimBlockList.set j _).get k = _
        rw [Table.get_set, hd.head, hd.nb, rootOf, lastAddr_append_cons]
        have hlen : u32 ((l.length : Int) + 1) = l.length + 1 :=
          u32_of_lt (by omega) (by omega)
        rw [hlen, hl]
        simp [headAddr, lastAddr]

/-- The model adds the entry at the end of the same list. -/
theorem Shows.insert (h : Shows c x ls s) {j a : Nat} {full : EmptyBlock}
    (hj : j < c.victimTableEntryNb)
    (hown : rootIndex c full.phyFlashNb full.phyBlockNb = j)
    (hfresh : ∀ k, k < c.victimTableEntryNb → a ∉ (ls k).map (·.1))
    (hfew : (ls j).length + 1 < 2 ^ 32) :
    ∃ x', insertVictimBlock c a full x = ⟨.ok (), x', []⟩
      ∧ Shows c x' (Function.update ls j
          (ls j ++ [(a, ⟨full.phyFlashNb, full.phyBlockNb⟩)]))
        { s with lists := FemuRemap.insertVictimBlock c full s.lists } := by
  obtain ⟨x', hrun, hx⟩ := insertVictimBlock_run (h.dll j hj) hown
    (hfresh j hj) hfew
  generalize hnew : (⟨full.phyFlashNb, full.phyBlockNb⟩ : VictimBlock) = new
    at hx ⊢
  -- a cell is an old one of its list or the new one
  have hcell : ∀ k, ∀ b ∈ (Function.update ls j (ls j ++ [(a, new)]) k).map
      (·.1), b ∈ (ls k).map (·.1) ∨ b = a ∧ k = j := by
    intro k b hb
    rcases eq_or_ne k j with rfl | hne
    · rw [Function.update_self, List.map_append] at hb
      refine (List.mem_append.1 hb).imp_right fun hb => ⟨?_, rfl⟩
      exact List.mem_singleton.1 hb
    · rw [Function.update_of_ne hne] at hb
      exact .inl hb
  refine ⟨x', hrun, fun k hk => ?_, fun i k hi hk hik => ?_,
    fun k hk => ?_, ?_, ?_⟩
  · rcases eq_or_ne k j with rfl | hne
    · rw [Function.update_self, hx.roots k, if_pos rfl]
      exact (h.dll k hk).push (hfresh k hk) hx.new hx.old
    · rw [Function.update_of_ne hne, hx.roots k, if_neg hne]
      refine (h.dll k hk).congr fun z hz => ?_
      have hmem : z.1 ∈ (ls k).map (·.1) := List.mem_map_of_mem hz
      rw [hx.old z.1 fun he : z.1 = a => hfresh k hk (he ▸ hmem)]
      exact setNext_ne fun he =>
        h.apart k j hk hj hne z.1 hmem (lastAddr_mem he)
  · intro b hb hb'
    rcases hcell i b hb with hold | ⟨hba, hij⟩
    · rcases hcell k b hb' with hold' | ⟨hba, -⟩
      · exact h.apart i k hi hk hik b hold hold'
      · exact hfresh i hi (hba ▸ hold)
    · rcases hcell k b hb' with hold' | ⟨-, hkj⟩
      · exact hfresh k hk (hba ▸ hold')
      · exact hik (hij.trans hkj.symm)
  · show (s.lists.victimBlockList.set _ _).get k = _
    rw [hown, hnew, Table.get_set]
    rcases eq_or_ne k j with rfl | hne
    · rw [if_pos rfl, Function.update_self, h.entries k hk]
      have hlen : u32 (((ls k).length : Int) + 1) = (ls k).length + 1 :=
        u32_of_lt (by omega) (by omega)
      cases hl : ls k with
      | nil => rfl
      | cons z m =>
          rw [← hl]
          have hne : (ls k).length ≠ 0 := by rw [hl]; simp
          rw [if_neg hne, hlen]
          simp
    · rw [if_neg hne, Function.update_of_ne hne, h.entries k hk]
  · show s.lists.totalVictimBlockNb + 1 = _
    rw [hx.total, h.total]
  · obtain ⟨l, rfl⟩ := h.rest
    rw [hx.rest]
    exact ⟨FemuRemap.insertVictimBlock c full (withVictims x.rest l).lists,
      rfl⟩

-- ============================================================ selection

/-- The lists without the entries at position `off`. -/
def without (c : Conf) (off : Nat) (ls : Nat → List (Nat × VictimBlock))
    (j : Nat) : List (Nat × VictimBlock) :=
  if j ∈ List.range c.victimTableEntryNb then (ls j).eraseIdx off else ls j

/-- The addresses of the entries at position `off`. -/
def cellsAt (c : Conf) (off : Nat) (ls : Nat → List (Nat × VictimBlock)) :
    List (Option Nat) :=
  (List.range c.victimTableEntryNb).map fun j => (ls j)[off]?.map (·.1)

/-- The state after a failed choice. -/
def failed (t : Int) (x : VictimHeap) : VictimHeap :=
  { x with rest := { x.rest with stat := { x.rest.stat with failCnt := t } } }

/-- The two selections as far as the ejections: nothing is found, or the
superblock at position `off`. -/
def Scans (c : Conf) (bs : List Nat) (ls : Nat → List (Nat × VictimBlock))
    (x : VictimHeap) (s : Ssd) (off : Nat) (min : Int) : Prop :=
  (min = i32 (fullPages c)
      ∧ ∃ t log, selectVictimSuperblock c x = ⟨.ok none, failed t x, log⟩
        ∧ FemuRemap.selectVictimSuperblock c s
          = ⟨.ok none, { s with stat := { s.stat with failCnt := t } }, log⟩)
    ∨ min ≠ i32 (fullPages c)
      ∧ ∃ b, bs[off]? = some b
        ∧ selectVictimSuperblock c x
          = (Prog.each (ejectVictimBlock c) (cellsAt c off ls) >>= fun _ =>
            pure (some b)) x
        ∧ FemuRemap.selectVictimSuperblock c s
          = (Prog.each (ejectAt c off) (List.range c.victimTableEntryNb)
            >>= fun _ => pure (some b)) s

/-- All lists have the length of the superblocks' list. -/
theorem Shows.length_eq (h : Shows c x ls s) {bs : List Nat}
    (hab : Abreast c s.lists bs) {j : Nat}
    (hj : j < c.victimTableEntryNb) : (ls j).length = bs.length := by
  have hnb := hab.nb j hj
  rwa [h.entries j hj] at hnb

/-- The entry of root zero, which names the superblock. -/
theorem Shows.namesBlock (h : Shows c x ls s) {bs : List Nat}
    (hab : Abreast c s.lists bs) (hpos : 0 < c.victimTableEntryNb)
    {off : Nat} (hoff : off < bs.length) :
    ∃ n : Node VictimBlock, bs[off]? = some n.val.phyBlockNb
      ∧ (s.lists.victimBlockList 0).entries[off]? = some n.val
      ∧ load (cellsAt c off ls).head?.join x = ⟨.ok n, x, []⟩ := by
  have hlt : off < (ls 0).length := (h.length_eq hab hpos).symm ▸ hoff
  have hcell := List.getElem?_eq_getElem hlt
  obtain ⟨n, hn, -, hload⟩ := h.entry_run hpos hcell
  have hent : (s.lists.victimBlockList 0).entries[off]? = some n.val := by
    rw [h.entries 0 hpos, List.getElem?_map, hcell, hn]
    rfl
  refine ⟨n, ?_, hent, ?_⟩
  · rw [← hab.blocks 0 hpos, List.getElem?_map, hent]
    rfl
  · obtain ⟨k, hk⟩ := Nat.exists_eq_succ_of_ne_zero (Nat.ne_of_gt hpos)
    rw [cellsAt, hk, List.range_succ_eq_map, List.map_cons, hcell]
    exact hload

/-- The pointers' scan picks what the lists' scan picks. -/
theorem Shows.scans (h : Shows c x ls s) {bs : List Nat}
    (hab : Abreast c s.lists bs) (hpos : 0 < c.victimTableEntryNb) :
    Scans c bs ls x s (pick c s (scanned bs.length)).1
      (pick c s (scanned bs.length)).2 := by
  have hlen : ∀ j, j < c.victimTableEntryNb → (ls j).length = bs.length :=
    fun j hj => h.length_eq hab hj
  have hnb : (x.victimBlockList 0).nb = bs.length := by
    rw [(h.dll 0 hpos).nb, hlen 0 hpos]
  have hcount : (i32 bs.length).toNat = scanned bs.length := rfl
  have hmodel := hab.scanVictims_pick
  have hoff := hab.pick_lt
  unfold Scans selectVictimSuperblock FemuRemap.selectVictimSuperblock
  rw [Prog.run_get_bind, Prog.run_get_bind]
  simp only [hnb, hab.nb 0 hpos, ← h.total, hab.total, i32_fullPages, hcount]
  rcases Nat.eq_zero_or_pos bs.length with hnil | hne
  · have hzero : ((c.victimTableEntryNb * bs.length : Nat) : Int) = 0 := by
      simp [hnil]
    have hnone : (pick c s (scanned bs.length)).2 = i32 (fullPages c) := by
      rw [hnil, scanned_of_lt (by decide), pick, List.range_zero,
        List.foldl_nil]
    rw [if_pos hzero, if_pos hzero]
    exact .inl ⟨hnone, x.rest.stat.failCnt, _, rfl, by
      obtain ⟨l, rfl⟩ := h.rest
      rfl⟩
  have htotal : ((c.victimTableEntryNb * bs.length : Nat) : Int) ≠ 0 := by
    have := Nat.mul_pos hpos hne
    omega
  rw [if_neg htotal, if_neg htotal, if_neg (Nat.ne_of_gt hne),
    if_neg (Nat.ne_of_gt hne)]
  have hbelow : ∀ i ∈ List.range (scanned bs.length),
      ∀ j, j < c.victimTableEntryNb → i < (ls j).length := by
    intro i hi j hj
    rw [hlen j hj]
    exact Nat.lt_of_lt_of_le (List.mem_range.1 hi) (scanned_le hab.few)
  obtain ⟨r, log, hscan, hscan'⟩ := h.scanVictims (n := i32 bs.length) _
    hbelow 0 (i32 (fullPages c))
  -- the pair is named before the code takes it apart
  cases hpick : pick c s (scanned bs.length) with
  | mk off min =>
      rw [hpick] at hmodel hoff
      rw [hmodel] at hscan'
      cases hscan'
      rw [Prog.run_silent_bind hscan, Prog.run_silent_bind hmodel]
      dsimp only at hoff ⊢
      by_cases hall : min = i32 (fullPages c)
      · rw [if_pos hall, if_pos hall]
        refine .inl ⟨hall, x.rest.stat.failCnt + 1, _, rfl, ?_⟩
        obtain ⟨l, rfl⟩ := h.rest
        rfl
      · rw [if_neg hall, if_neg hall]
        have hlt := hoff hall
        obtain ⟨n, hblock, hent, hload⟩ := h.namesBlock hab hpos hlt
        have hptrs : Pointer.victimsAt off (List.range c.victimTableEntryNb) x
            = ⟨.ok (cellsAt c off ls), x, []⟩ :=
          h.victimsAt _ (by simp) fun j hj =>
            (hlen j (List.mem_range.1 hj)).symm ▸ hlt
        refine .inr ⟨hall, n.val.phyBlockNb, hblock, ?_, ?_⟩
        · rw [Prog.run_silent_bind hptrs, Prog.run_silent_bind hload]
        · simp only [hent]

/-- What a selection does to the heap and to the state of the model. -/
def Chosen (c : Conf) (bs : List Nat) (ls : Nat → List (Nat × VictimBlock))
    (x : VictimHeap) (s : Ssd) : Option Nat → VictimHeap → Ssd → Prop
  | none, x', s' => (pick c s (scanned bs.length)).2 = i32 (fullPages c)
      ∧ (∃ t, x' = failed t x) ∧ Shows c x' ls s'
  | some b, x', s' => (pick c s (scanned bs.length)).2 ≠ i32 (fullPages c)
      ∧ bs[(pick c s (scanned bs.length)).1]? = some b
      ∧ x'.rest = x.rest
      ∧ x'.totalVictimBlockNb
        = x.totalVictimBlockNb - c.victimTableEntryNb
      ∧ Shows c x' (without c (pick c s (scanned bs.length)).1 ls) s'

/-- A count of failures is not shown. -/
theorem Shows.failed (h : Shows c x ls s) (t : Int) :
    Shows c (failed t x) ls
      { s with stat := { s.stat with failCnt := t } } := by
  refine ⟨h.dll, h.apart, h.entries, h.total, ?_⟩
  obtain ⟨l, rfl⟩ := h.rest
  exact ⟨l, rfl⟩

/-- The two selections end alike and keep the relation. -/
theorem Shows.select (h : Shows c x ls s) {bs : List Nat}
    (hab : Abreast c s.lists bs) (hfiled : Filed c s.lists)
    (hpos : 0 < c.victimTableEntryNb) :
    ∃ r x' s' log, selectVictimSuperblock c x = ⟨.ok r, x', log⟩
      ∧ FemuRemap.selectVictimSuperblock c s = ⟨.ok r, s', log⟩
      ∧ Chosen c bs ls x s r x' s' := by
  rcases h.scans hab hpos with
    ⟨hall, t, log, hx, hs⟩ | ⟨hsome, b, hb, hx, hs⟩
  · exact ⟨none, _, _, log, hx, hs, hall, ⟨t, rfl⟩, h.failed t⟩
  · have hoff := hab.pick_lt hsome
    have hlen : ∀ j ∈ List.range c.victimTableEntryNb,
        (ls j).length = bs.length := fun j hj =>
      h.length_eq hab (List.mem_range.1 hj)
    have hin : ∀ j ∈ List.range c.victimTableEntryNb,
        (pick c s (scanned bs.length)).1 < (ls j).length := by
      intro j hj
      rw [hlen j hj]
      exact hoff
    obtain ⟨x', s', hx', hs', hshow, hrest, htot⟩ := h.ejectAll
      (List.range c.victimTableEntryNb) List.nodup_range (by simp) hin
      (fun j hj z hz => hfiled j (List.mem_range.1 hj) z.2 (by
        rw [h.entries j (List.mem_range.1 hj)]
        exact List.mem_map_of_mem hz))
      (fun j hj => (hlen j hj).symm ▸ hab.few)
    rw [cellsAt, Prog.run_silent_bind hx'] at hx
    rw [Prog.run_silent_bind hs'] at hs
    refine ⟨some b, x', s', [], hx, hs, hsome, hb, hrest, ?_, hshow⟩
    rw [htot, List.length_range]

-- ================================================== roots that are spared

/-- Root `k` keeps its count, and the entries that stay keep their
values. -/
structure Spares (k : Nat) (x x' : VictimHeap) : Prop where
  nb : (x'.victimBlockList k).nb = (x.victimBlockList k).nb
  vals : ∀ a n', x'.nodes a = some n' →
    ∃ n, x.nodes a = some n ∧ n.val = n'.val

theorem Spares.steps (k : Nat) : Steps (Spares k) where
  refl x := ⟨rfl, fun a n' h => ⟨n', h, rfl⟩⟩
  trans h₁ h₂ := by
    refine ⟨h₂.nb.trans h₁.nb, fun a n' h => ?_⟩
    obtain ⟨n₁, hn₁, hv₁⟩ := h₂.vals a n' h
    obtain ⟨n, hn, hv⟩ := h₁.vals a n₁ hn₁
    exact ⟨n, hn, hv.trans hv₁⟩

/-- Does not touch the root of list `k`. -/
abbrev Sparing {α : Type} (k : Nat) (m : Ptr α) : Prop :=
  Within (Spares k) (fun _ => True) m

theorem sparing_load (k : Nat) (p : Option Nat) : Sparing k (load p) := by
  refine Within.get_bind fun x => ?_
  split
  · exact Within.fault (Spares.steps k) _
  · exact Within.pure (Spares.steps k) _

/-- A store changes links only. -/
theorem sparing_store {k : Nat} {p : Option Nat}
    {f : Heap VictimBlock → Heap VictimBlock}
    (hf : ∀ h a n', f h a = some n' → ∃ n, h a = some n ∧ n.val = n'.val) :
    Sparing k (store p f) :=
  Within.bind (Spares.steps k) (sparing_load k p) fun _ =>
    Within.modify fun x => ⟨rfl, hf x.nodes⟩

theorem sparing_setRoot {k i : Nat} (hne : i ≠ k) (r : DllRoot) :
    Sparing k (setRoot i r) := by
  refine Within.modify fun x => ⟨?_, fun a n' h => ⟨n', h, rfl⟩⟩
  show ((x.victimBlockList.set i r).get k).nb = _
  rw [Table.get_set_ne _ _ hne.symm]

/-- Unlinking an entry of another root. -/
theorem sparing_unlinkVictim {k i : Nat} (hne : i ≠ k) (p : Option Nat)
    (n : Node VictimBlock) (root : DllRoot) :
    Sparing k (unlinkVictim p n i root) := by
  have hroot := fun r => sparing_setRoot hne r
  have hnext := fun p q => sparing_store (k := k) (p := p)
    (f := setNext p q) fun h a n' hn => setNext_val hn
  have hprev := fun p q => sparing_store (k := k) (p := p)
    (f := setPrev p q) fun h a n' hn => setPrev_val hn
  have hbind : ∀ {m m' : Ptr Unit}, Sparing k m → Sparing k m' →
      Sparing k (m >>= fun _ => m') := fun hm hm' =>
    Within.bind (Spares.steps k) hm fun _ => hm'
  refine Within.ite (Within.ite (hroot _) ?_) (Within.ite ?_ ?_)
  · exact hbind (hroot _) (hprev _ _)
  · exact hbind (hroot _) (hnext _ _)
  · exact hbind (hnext _ _) (hprev _ _)

/-- `EJECT_VICTIM_BLOCK` of an entry that is filed elsewhere. -/
theorem ejectVictimBlock_spares {k : Nat} {p : Option Nat}
    (h : ∀ a n, p = some a → x.nodes a = some n →
      rootIndex c n.val.phyFlashNb n.val.phyBlockNb ≠ k) :
    Spares k x (ejectVictimBlock c p x).st := by
  unfold ejectVictimBlock
  cases hp : p.bind fun a => x.nodes a with
  | none =>
      have hload : load p x = ⟨.error .nullBlockEntry, x, []⟩ := by
        rw [load, Prog.run_get_bind, hp]
        rfl
      rw [Prog.run_bind, hload]
      exact (Spares.steps k).refl x
  | some n =>
      obtain ⟨a, rfl, ha⟩ := Option.bind_eq_some_iff.1 hp
      have hne := h a n rfl ha
      rw [Prog.run_silent_bind (load_run ha)]
      refine (Within.get_bind (R := Spares k) (G := fun _ => True)
        fun y => Within.bind (Spares.steps k)
          (sparing_unlinkVictim hne _ _ _) fun _ =>
            Within.modify fun z => ⟨?_, fun b n' hb => ?_⟩) x |>.1
      · show ((z.victimBlockList.set _ _).get k).nb = _
        rw [Table.get_set_ne _ _ hne.symm]
      · rw [Table.get_set] at hb
        split at hb
        · cases hb
        · exact ⟨n', hb, rfl⟩

/-- Ejecting entries that are all filed elsewhere. -/
theorem each_eject_spares {k : Nat} (ps : List (Option Nat))
    (h : ∀ a, some a ∈ ps → ∀ n, x.nodes a = some n →
      rootIndex c n.val.phyFlashNb n.val.phyBlockNb ≠ k) :
    Spares k x (Prog.each (ejectVictimBlock c) ps x).st := by
  induction ps generalizing x with
  | nil => exact (Spares.steps k).refl x
  | cons p ps ih =>
      have h₁ := ejectVictimBlock_spares (c := c) (k := k) (p := p) (x := x)
        fun a n hp hn => h a (hp ▸ List.mem_cons_self) n hn
      rw [Prog.each, Prog.run_bind]
      generalize hrun : ejectVictimBlock c p x = o at h₁
      obtain ⟨res, x₁, log⟩ := o
      cases res with
      | error e => exact h₁
      | ok u =>
          refine (Spares.steps k).trans h₁ (ih fun a ha n hn => ?_)
          obtain ⟨n₀, hn₀, hval⟩ := h₁.vals a n hn
          rw [← hval]
          exact h a (List.mem_cons_of_mem _ ha) n₀ hn₀

-- ======================================================== aligned lists

/-- `valid_page_nb` of an entry's block. -/
def pagesOf (c : Conf) (x : VictimHeap) (v : VictimBlock) : Nat :=
  (getBlockStateEntry c x.rest v.phyFlashNb v.phyBlockNb).validPageNb

/-- Every root has a doubly linked list of entries, counted in the root
and in the total, and the lists are aligned: the same block numbers `bs`
at the same positions of all roots. The entries of a root are on its
flash, and a block has at most `PAGE_NB` valid pages. -/
structure VictimLists (c : Conf) (x : VictimHeap)
    (ls : Nat → List (Nat × VictimBlock)) (bs : List Nat) : Prop where
  dll : ∀ j, j < c.victimTableEntryNb →
    Dll x.nodes (x.victimBlockList j) (ls j)
  apart : ∀ i j, i < c.victimTableEntryNb → j < c.victimTableEntryNb →
    i ≠ j → ∀ a ∈ (ls i).map (·.1), a ∉ (ls j).map (·.1)
  aligned : ∀ j, j < c.victimTableEntryNb →
    (ls j).map (·.2.phyBlockNb) = bs
  flash : ∀ j, j < c.victimTableEntryNb → ∀ y ∈ ls j,
    y.2.phyFlashNb = j % c.flashNb
  pages : ∀ j, j < c.victimTableEntryNb → ∀ y ∈ ls j,
    pagesOf c x y.2 ≤ c.pageNb
  total : x.totalVictimBlockNb = (c.victimTableEntryNb * bs.length : Nat)
  few : bs.length < 2 ^ 32

/-- The total of `valid_page_nb` over the roots, at position `i` of their
lists. -/
def pagesAt (c : Conf) (x : VictimHeap)
    (ls : Nat → List (Nat × VictimBlock)) (i : Nat) : Nat :=
  ((List.range c.victimTableEntryNb).map fun j =>
    ((ls j)[i]?.map fun y => pagesOf c x y.2).getD 0).sum

/-- The state of the model with the entries of the lists. -/
def listed (c : Conf) (x : VictimHeap)
    (ls : Nat → List (Nat × VictimBlock)) : Ssd :=
  withVictims x.rest { x.rest.lists with
    victimBlockList := Table.ofFn ⟨[], 0⟩ c.victimTableEntryNb fun j =>
      ⟨(ls j).map (·.2), (ls j).length⟩
    totalVictimBlockNb := x.totalVictimBlockNb }

variable {bs : List Nat}

/-- The heap shows the lists that are read off it. -/
theorem VictimLists.shows (h : VictimLists c x ls bs) :
    Shows c x ls (listed c x ls) where
  dll := h.dll
  apart := h.apart
  entries j hj := by
    show (Table.ofFn _ _ _).get j = _
    rw [Table.get_ofFn, if_pos hj]
  total := rfl
  rest := ⟨_, rfl⟩

/-- They are abreast: a superblock is at one place in all. -/
theorem VictimLists.abreast (h : VictimLists c x ls bs) :
    Abreast c (listed c x ls).lists bs where
  nb j hj := by
    rw [h.shows.entries j hj, ← h.aligned j hj, List.length_map]
  blocks j hj := by
    rw [h.shows.entries j hj, ← h.aligned j hj, List.map_map]
    rfl
  total := h.total
  few := h.few

/-- The sums of the two levels agree. -/
theorem VictimLists.superPages_eq (h : VictimLists c x ls bs) (i : Nat) :
    superPages c (listed c x ls) i = pagesAt c x ls i := by
  unfold superPages pagesAt
  refine congrArg List.sum (List.map_congr_left fun j hj => ?_)
  rw [entryPages, h.shows.entries j (List.mem_range.1 hj),
    List.getElem?_map, Option.map_map]
  rfl

theorem VictimLists.length_eq (h : VictimLists c x ls bs) {j : Nat}
    (hj : j < c.victimTableEntryNb) : (ls j).length = bs.length := by
  rw [← h.aligned j hj, List.length_map]

/-- The source's sums, which wrap, agree too. -/
theorem VictimLists.intPages_eq (h : VictimLists c x ls bs) (i : Nat) :
    intPages c (listed c x ls) i = i32 (pagesAt c x ls i) := by
  rw [intPages, h.superPages_eq]

/-- With one plane the entries lie in the roots that they index. -/
theorem VictimLists.filed (h : VictimLists c x ls bs)
    (hplane : c.planesPerFlash = 1) : Filed c (listed c x ls).lists := by
  intro j hj v hv
  rw [h.shows.entries j hj] at hv
  obtain ⟨y, hy, rfl⟩ := List.mem_map.1 hv
  have hj' : j < c.flashNb := by
    rw [Conf.victimTableEntryNb, hplane, Nat.mul_one] at hj
    exact hj
  rw [rootIndex, hplane, Nat.mod_one, Nat.zero_mul, Nat.zero_add,
    h.flash j hj y hy, Nat.mod_eq_of_lt hj']

/-- Every page of every victim superblock is live. -/
def AllLive (c : Conf) (x : VictimHeap)
    (ls : Nat → List (Nat × VictimBlock)) : Prop :=
  ∀ j, j < c.victimTableEntryNb → ∀ y ∈ ls j, pagesOf c x y.2 = c.pageNb

/-- `PAGE_NB * FLASH_NB * PLANES_PER_FLASH` is `PAGE_NB` for each root. -/
theorem fullPages_eq (c : Conf) :
    fullPages c = c.victimTableEntryNb * c.pageNb := by
  rw [fullPages, Conf.victimTableEntryNb, Nat.mul_assoc, Nat.mul_comm]

theorem pagesAt_eq (c : Conf) (x : VictimHeap)
    (ls : Nat → List (Nat × VictimBlock)) (i : Nat) :
    pagesAt c x ls i = tally c.victimTableEntryNb fun j =>
      ((ls j)[i]?.map fun y => pagesOf c x y.2).getD 0 :=
  sum_range _ _

/-- The total of each superblock is the product when all pages are live. -/
theorem VictimLists.pagesAt_full (h : VictimLists c x ls bs)
    (hall : AllLive c x ls) {i : Nat} (hi : i < bs.length) :
    pagesAt c x ls i = fullPages c := by
  rw [pagesAt_eq, fullPages_eq, ← tally_const]
  refine tally_congr fun j hj => ?_
  have hcell := List.getElem?_eq_getElem ((h.length_eq hj).symm ▸ hi)
  rw [hcell]
  exact hall j hj _ (List.getElem_mem _)

/-- A page that is not live keeps the total of its superblock below the
product. -/
theorem VictimLists.exists_lt (h : VictimLists c x ls bs)
    (hnot : ¬ AllLive c x ls) :
    ∃ i, i < bs.length ∧ pagesAt c x ls i < fullPages c := by
  unfold AllLive at hnot
  push Not at hnot
  obtain ⟨j, hj, y, hy, hne⟩ := hnot
  obtain ⟨i, hi⟩ := List.getElem?_of_mem hy
  have hlt := (List.getElem?_eq_some_iff.1 hi).1
  rw [h.length_eq hj] at hlt
  have hbelow := Nat.lt_of_le_of_ne (h.pages j hj y hy) hne
  refine ⟨i, hlt, ?_⟩
  rw [pagesAt_eq, fullPages_eq]
  refine tally_lt (fun k hk => ?_) hj (by simpa [hi] using hbelow)
  cases hz : (ls k)[i]? with
  | none => simp
  | some z => simpa using h.pages k hk z (List.mem_of_getElem? hz)

/-- No total is above the product. -/
theorem VictimLists.pagesAt_le (h : VictimLists c x ls bs) (i : Nat) :
    pagesAt c x ls i ≤ fullPages c := by
  rw [pagesAt_eq, fullPages_eq]
  refine tally_le fun j hj => ?_
  cases hz : (ls j)[i]? with
  | none => simp
  | some z => simpa using h.pages j hj z (List.mem_of_getElem? hz)

/-- The lists without one position are aligned again. -/
theorem VictimLists.erase (h : VictimLists c x ls bs) {i : Nat}
    {s' : Ssd} (hi : i < bs.length) (hs : Shows c x' (without c i ls) s')
    (hrest : x'.rest = x.rest)
    (htotal : x'.totalVictimBlockNb
      = x.totalVictimBlockNb - c.victimTableEntryNb) :
    VictimLists c x' (fun j => (ls j).eraseIdx i) (bs.eraseIdx i) := by
  have hwithout : ∀ j, j < c.victimTableEntryNb →
      without c i ls j = (ls j).eraseIdx i := fun j hj =>
    if_pos (List.mem_range.2 hj)
  have hlen : (bs.eraseIdx i).length + 1 = bs.length := by
    rw [List.length_eraseIdx_of_lt hi]
    omega
  refine ⟨fun j hj => ?_, fun j k hj hk hne => ?_, fun j hj => ?_,
    fun j hj y hy => h.flash j hj y (List.mem_of_mem_eraseIdx hy),
    fun j hj y hy => ?_, ?_, ?_⟩
  · rw [← hwithout j hj]
    exact hs.dll j hj
  · rw [← hwithout j hj, ← hwithout k hk]
    exact hs.apart j k hj hk hne
  · rw [← h.aligned j hj, List.eraseIdx_map]
  · rw [pagesOf, hrest]
    exact h.pages j hj y (List.mem_of_mem_eraseIdx hy)
  · rw [htotal, h.total, ← hlen, Nat.mul_succ]
    push_cast
    omega
  · have := h.few
    omega

-- ============================================================= greedy

/-- The selection is greedy: the first superblock with the fewest valid
pages leaves every list, unless there is none with a page that is not
live; then no list changes. -/
def Greedy (c : Conf) (x : VictimHeap)
    (ls : Nat → List (Nat × VictimBlock)) (bs : List Nat) : Prop :=
  ∃ r x' log, selectVictimSuperblock c x = ⟨.ok r, x', log⟩
    ∧ (r = none ↔ bs = [] ∨ AllLive c x ls)
    ∧ (r = none → x'.nodes = x.nodes
      ∧ x'.victimBlockList = x.victimBlockList
      ∧ x'.totalVictimBlockNb = x.totalVictimBlockNb)
    ∧ ∀ b, r = some b → ∃ i, bs[i]? = some b
      ∧ FirstLeast bs.length (pagesAt c x ls) i
      ∧ VictimLists c x' (fun j => (ls j).eraseIdx i) (bs.eraseIdx i)
      ∧ (∀ j, j < c.victimTableEntryNb →
        (x'.victimBlockList j).nb + 1 = (x.victimBlockList j).nb)
      ∧ x'.totalVictimBlockNb
        = x.totalVictimBlockNb - c.victimTableEntryNb
      ∧ x'.rest = x.rest

/-- The first of the least totals is also the first of the least totals
as `int`s, and as an `int` it is below the product. -/
def IntsAgree (c : Conf) (x : VictimHeap)
    (ls : Nat → List (Nat × VictimBlock)) (n : Nat) : Prop :=
  ∃ i, FirstLeast n (pagesAt c x ls) i
    ∧ FirstLeast n (fun k => i32 (pagesAt c x ls k)) i
    ∧ i32 (pagesAt c x ls i) < i32 (fullPages c)

/-- Some position has the first of the least totals. -/
theorem exists_firstLeast {n : Nat} (hn : 0 < n) (score : Nat → Nat) :
    ∃ i, FirstLeast n score i := by
  induction n with
  | zero => exact absurd hn (Nat.lt_irrefl 0)
  | succ n ih =>
      rcases Nat.eq_zero_or_pos n with rfl | hpos
      · refine ⟨0, Nat.one_pos, fun k hk => ?_, fun k hk => ?_⟩
        · rw [Nat.lt_one_iff.1 hk]
        · exact absurd hk (Nat.not_lt_zero k)
      obtain ⟨i, hlt, hleast, hfirst⟩ := ih hpos
      -- the new position wins when it is strictly below the old one
      rcases Nat.lt_or_ge (score n) (score i) with hnew | hold
      · refine ⟨n, Nat.lt_succ_self n, fun k hk => ?_, fun k hk => ?_⟩
        · rcases Nat.lt_succ_iff_lt_or_eq.1 hk with hk | rfl
          · exact Nat.le_of_lt (Nat.lt_of_lt_of_le hnew (hleast k hk))
          · exact Nat.le_refl _
        · exact Nat.lt_of_lt_of_le hnew (hleast k hk)
      · refine ⟨i, Nat.lt_succ_of_lt hlt, fun k hk => ?_, hfirst⟩
        rcases Nat.lt_succ_iff_lt_or_eq.1 hk with hk | rfl
        · exact hleast k hk
        · exact hold

/-- When the product is an `int` nothing wraps. -/
theorem VictimLists.intsAgree (h : VictimLists c x ls bs)
    (hsmall : fullPages c < 2 ^ 31) (hnot : ¬ AllLive c x ls) :
    IntsAgree c x ls bs.length := by
  obtain ⟨k, hk, hbelow⟩ := h.exists_lt hnot
  have hint : ∀ i, i32 (pagesAt c x ls i) = (pagesAt c x ls i : Int) :=
    fun i => i32_of_lt rfl (Nat.lt_of_le_of_lt (h.pagesAt_le i) hsmall)
  obtain ⟨i, hi⟩ := exists_firstLeast (Nat.zero_lt_of_lt hk) (pagesAt c x ls)
  refine ⟨i, hi, ⟨hi.lt, fun m hm => ?_, fun m hm => ?_⟩, ?_⟩
  · rw [hint, hint]
    exact Int.ofNat_le.2 (hi.least m hm)
  · rw [hint, hint]
    exact Int.ofNat_lt.2 (hi.first m hm)
  · rw [hint, i32_of_lt rfl hsmall]
    exact Int.ofNat_lt.2 (Nat.lt_of_le_of_lt (hi.least k hk) hbelow)

/-- Nothing is found when there is nothing to gain. -/
theorem VictimLists.pick_none (h : VictimLists c x ls bs)
    (hnone : bs = [] ∨ AllLive c x ls) :
    (pick c (listed c x ls) (scanned bs.length)).2 = i32 (fullPages c) := by
  by_contra hsome
  obtain ⟨hfirst, hlt⟩ := pick_first hsome
  have hin := Nat.lt_of_lt_of_le hfirst.lt (scanned_le h.few)
  rcases hnone with rfl | hall
  · exact absurd hin (Nat.not_lt_zero _)
  · rw [h.intPages_eq, h.pagesAt_full hall hin] at hlt
    exact Int.lt_irrefl _ hlt

/-- A plane other than that of the superblock at `off` has a root whose
count the ejections leave, so there is one plane if every root counts one
entry less. -/
theorem VictimLists.one_plane (h : VictimLists c x ls bs)
    (hpos : 0 < c.victimTableEntryNb) {off : Nat} (hoff : off < bs.length)
    (hnb : ∀ j, j < c.victimTableEntryNb →
      ((Prog.each (ejectVictimBlock c)
        (cellsAt c off ls) x).st.victimBlockList j).nb + 1
        = (x.victimBlockList j).nb) :
    c.planesPerFlash = 1 := by
  have hplanes : 0 < c.planesPerFlash := Nat.pos_of_mul_pos_left hpos
  have hflash : 0 < c.flashNb := Nat.pos_of_mul_pos_right hpos
  by_contra hne
  obtain ⟨b, hb⟩ : ∃ b, bs[off]? = some b :=
    ⟨_, List.getElem?_eq_getElem hoff⟩
  obtain ⟨q, hq, hqb⟩ : ∃ q, q < c.planesPerFlash
      ∧ q ≠ b % c.planesPerFlash := by
    by_cases hzero : b % c.planesPerFlash = 0
    · exact ⟨1, by omega, by omega⟩
    · exact ⟨0, hplanes, Ne.symm hzero⟩
  have hroot : q * c.flashNb < c.victimTableEntryNb := by
    rw [Conf.victimTableEntryNb, Nat.mul_comm]
    exact Nat.mul_lt_mul_of_pos_left hq hflash
  have hspared : Spares (q * c.flashNb) x
      (Prog.each (ejectVictimBlock c) (cellsAt c off ls) x).st := by
    refine each_eject_spares _ fun a ha n hn hindex => hqb ?_
    -- the entry is one at position `off`, so its block number is `b`
    obtain ⟨j, hj, hcell⟩ := List.mem_map.1 ha
    have hj' := List.mem_range.1 hj
    obtain ⟨y, hy, rfl⟩ := Option.map_eq_some_iff.1 hcell
    rw [(h.dll j hj').links.get hy] at hn
    obtain rfl := Option.some.inj hn
    have hblock : y.2.phyBlockNb = b := by
      rw [← h.aligned j hj', List.getElem?_map, hy] at hb
      exact Option.some.inj hb
    rw [rootIndex, hblock, h.flash j hj' y (List.mem_of_getElem? hy)]
      at hindex
    have hdiv := congrArg (· / c.flashNb) hindex
    simp only [Nat.mul_div_cancel _ hflash] at hdiv
    rw [Nat.mul_comm, Nat.mul_add_div hflash,
      Nat.div_eq_of_lt (Nat.mod_lt j hflash), Nat.add_zero] at hdiv
    exact hdiv.symm
  have := hnb _ hroot
  rw [hspared.nb] at this
  omega

/-- A list determines which of its positions is missing. -/
theorem Dll.position_unique {r r' : DllRoot} {h h' : Heap VictimBlock}
    {i k : Nat} (hd : Dll h r l) (hi : i < l.length)
    (hd₁ : Dll h' r' (l.eraseIdx i)) (hd₂ : Dll h' r' (l.eraseIdx k)) :
    i = k := by
  have heq := hd₁.links.unique hd₂.links (hd₁.head.symm.trans hd₂.head)
  have hnd : l.Nodup := hd.nodup.of_map _
  by_contra hne
  have hcell := List.getElem?_eq_getElem hi
  have hmem : l[i] ∈ l.eraseIdx k :=
    List.mem_eraseIdx_iff_getElem?.2 ⟨i, hne, hcell⟩
  rw [← heq] at hmem
  obtain ⟨m, hmi, hm⟩ := List.mem_eraseIdx_iff_getElem?.1 hmem
  exact hmi ((List.getElem?_inj (List.getElem?_eq_some_iff.1 hm).1 hnd).1
    (hm.trans hcell.symm))

/-- With one plane, what is found leaves every list. -/
theorem VictimLists.select_one_plane (h : VictimLists c x ls bs)
    (hpos : 0 < c.victimTableEntryNb) (hplane : c.planesPerFlash = 1)
    {off : Nat} (hpick : (pick c (listed c x ls) (scanned bs.length)).1 = off)
    (hfound : (pick c (listed c x ls) (scanned bs.length)).2
      ≠ i32 (fullPages c)) :
    ∃ b x' log, selectVictimSuperblock c x = ⟨.ok (some b), x', log⟩
      ∧ bs[off]? = some b
      ∧ VictimLists c x' (fun j => (ls j).eraseIdx off) (bs.eraseIdx off)
      ∧ (∀ j, j < c.victimTableEntryNb →
        (x'.victimBlockList j).nb + 1 = (x.victimBlockList j).nb)
      ∧ x'.totalVictimBlockNb
        = x.totalVictimBlockNb - c.victimTableEntryNb
      ∧ x'.rest = x.rest := by
  have hin := h.abreast.pick_lt hfound
  obtain ⟨r, x', s', log, hrun, -, hr⟩ := h.shows.select h.abreast
    (h.filed hplane) hpos
  cases r with
  | none => exact absurd hr.1 hfound
  | some b =>
      obtain ⟨-, hb, hrest, htotal, hs⟩ := hr
      rw [hpick] at hb hs hin
      have herase := h.erase hin hs hrest htotal
      refine ⟨b, x', log, hrun, hb, herase, fun j hj => ?_, htotal, hrest⟩
      rw [(herase.dll j hj).nb, (h.dll j hj).nb, herase.length_eq hj,
        h.length_eq hj, List.length_eraseIdx_of_lt hin]
      omega

/-- A selection that has nothing to gain fails and keeps the lists. -/
theorem VictimLists.greedy_of_none (h : VictimLists c x ls bs)
    (hpos : 0 < c.victimTableEntryNb) (hnone : bs = [] ∨ AllLive c x ls) :
    Greedy c x ls bs := by
  rcases h.shows.scans h.abreast hpos with
    ⟨-, t, log, hx, -⟩ | ⟨hfound, -⟩
  · exact ⟨none, failed t x, log, hx, ⟨fun _ => hnone, fun _ => rfl⟩,
      fun _ => ⟨rfl, rfl, rfl⟩, nofun⟩
  · exact absurd (h.pick_none hnone) hfound

/-- Where the wrapped sums agree with the sums, the choice has the fewest live
pages. -/
theorem VictimLists.greedy_of_ints (h : VictimLists c x ls bs)
    (hpos : 0 < c.victimTableEntryNb) (hplane : c.planesPerFlash = 1)
    (hfew : bs.length < 2 ^ 31) (hints : IntsAgree c x ls bs.length) :
    Greedy c x ls bs := by
  obtain ⟨i, hi, hint, hlt⟩ := hints
  have hscan := scanned_of_lt hfew
  have hpages : intPages c (listed c x ls)
      = fun k => i32 (pagesAt c x ls k) := funext h.intPages_eq
  have hfound : (pick c (listed c x ls) (scanned bs.length)).2
      ≠ i32 (fullPages c) := by
    refine pick_ne (i := i) ?_ ?_
    · rw [hscan]
      exact hi.lt
    · rw [hpages]
      exact hlt
  -- the first minimum of the wrapped sums is unique
  have hpick : (pick c (listed c x ls) (scanned bs.length)).1 = i := by
    have hfirst := (pick_first hfound).1
    rw [hpages] at hfirst
    refine hfirst.unique ?_
    rw [hscan]
    exact hint
  obtain ⟨b, x', log, hrun, hb, hlists⟩ :=
    h.select_one_plane hpos hplane hpick hfound
  refine ⟨some b, x', log, hrun, ⟨nofun, ?_⟩, nofun, ?_⟩
  · intro hnone
    exact absurd (h.pick_none hnone) hfound
  · intro b' hb'
    obtain rfl := Option.some.inj hb'
    exact ⟨i, hb, hi, hlists⟩

/-- A greedy selection that finds something is one over a plane, and over
`int`s that agree with the totals. -/
theorem VictimLists.ints_of_greedy (h : VictimLists c x ls bs)
    (hpos : 0 < c.victimTableEntryNb) (hgreedy : Greedy c x ls bs)
    (hgain : ¬ (bs = [] ∨ AllLive c x ls)) :
    c.planesPerFlash = 1 ∧ bs.length < 2 ^ 31
      ∧ IntsAgree c x ls bs.length := by
  obtain ⟨r, x', log, hrun, hnone, -, hsome⟩ := hgreedy
  obtain ⟨b, rfl⟩ := Option.ne_none_iff_exists'.1 (mt hnone.1 hgain)
  obtain ⟨i, hb, hi, hlists, hnb, -, -⟩ := hsome b rfl
  rcases h.shows.scans h.abreast hpos with
    ⟨-, t, log', hx, -⟩ | ⟨hfound, b', hb', hx, -⟩
  · rw [hrun] at hx
    cases hx
  obtain ⟨hfirst, hlt⟩ := pick_first hfound
  have hin := h.abreast.pick_lt hfound
  rw [hrun] at hx
  obtain ⟨_, heach⟩ := Prog.bind_pure_ok hx.symm
  have hst := congrArg Out.st heach
  have hfew : bs.length < 2 ^ 31 := by
    by_contra hge
    have hzero := scanned_of_ge (Nat.not_lt.1 hge) h.few
    have hlt' := hfirst.lt
    rw [hzero] at hlt'
    exact absurd hlt' (Nat.not_lt_zero _)
  have hplane : c.planesPerFlash = 1 := by
    refine h.one_plane hpos hin fun j hj => ?_
    rw [hst]
    exact hnb j hj
  -- the position is the one that the search ended at
  obtain ⟨b₂, x₂, log₂, hrun₂, -, hlists₂, -⟩ :=
    h.select_one_plane hpos hplane rfl hfound
  rw [hrun] at hrun₂
  cases hrun₂
  have hpick : i = (pick c (listed c x ls) (scanned bs.length)).1 := by
    refine Dll.position_unique (h.dll 0 hpos) ?_ (hlists.dll 0 hpos)
      (hlists₂.dll 0 hpos)
    rw [h.length_eq hpos]
    exact hi.lt
  have hpages : intPages c (listed c x ls)
      = fun k => i32 (pagesAt c x ls k) := funext h.intPages_eq
  rw [← hpick, hpages] at hfirst hlt
  rw [scanned_of_lt hfew] at hfirst
  exact ⟨hplane, hfew, i, hi, hfirst, hlt⟩

/-- `SELECT_VICTIM_SUPERBLOCK` over aligned lists of any heap is greedy
exactly if there is nothing to gain, or a flash has one plane, there are
fewer than `2 ^ 31` superblocks and their `int` totals compare as the
totals do; which is so whenever the product
`PAGE_NB * FLASH_NB * PLANES_PER_FLASH` is an `int`. -/
theorem victim_selection_greedy_iff (h : VictimLists c x ls bs)
    (hpos : 0 < c.victimTableEntryNb) :
    (Greedy c x ls bs ↔ (bs = [] ∨ AllLive c x ls)
      ∨ c.planesPerFlash = 1 ∧ bs.length < 2 ^ 31
        ∧ IntsAgree c x ls bs.length)
      ∧ (fullPages c < 2 ^ 31 → ¬ AllLive c x ls →
        IntsAgree c x ls bs.length) := by
  refine ⟨⟨fun hgreedy => ?_, fun hcond => ?_⟩, h.intsAgree⟩
  · exact or_iff_not_imp_left.2 (h.ints_of_greedy hpos hgreedy)
  · rcases hcond with hnone | ⟨hplane, hfew, hints⟩
    · exact h.greedy_of_none hpos hnone
    · exact h.greedy_of_ints hpos hplane hfew hints

/-- Two flashes with the superblocks 5, which has a live page, and 7. -/
def twoConf : Conf := initSsdConfig 2 8 2 1

/-- Blocks 5 and 7 on each list. -/
def twoCells (j : Nat) : List (Nat × VictimBlock) :=
  [(10 + j, ⟨j, 5⟩), (20 + j, ⟨j, 7⟩)]

/-- The four insertions that make their lists. -/
def twoVictims : VictimHeap :=
  (Prog.each (fun y => insertVictimBlock twoConf y.1
      ⟨y.2.phyFlashNb, y.2.phyBlockNb, 0⟩)
    (twoCells 0 ++ twoCells 1)
    ⟨.fill none, .fill ⟨none, none, 0⟩, 0,
      putPage twoConf 0 5 1 1 (ftlInit twoConf).stat (ftlInit twoConf)⟩).st

theorem twoVictims_lists :
    VictimLists twoConf twoVictims twoCells [5, 7] where
  dll j hj := by
    match j, hj with
    | 0, _ => exact ⟨rfl, rfl, rfl, ⟨rfl, rfl, trivial⟩, by decide⟩
    | 1, _ => exact ⟨rfl, rfl, rfl, ⟨rfl, rfl, trivial⟩, by decide⟩
  apart i j hi hj hne a ha ha' := by
    have hi' : i < 2 := hi
    have hj' : j < 2 := hj
    simp only [twoCells, List.map_cons, List.map_nil, List.mem_cons,
      List.not_mem_nil, or_false] at ha ha'
    omega
  aligned := by decide
  flash := by decide
  pages := by decide +kernel
  total := by decide
  few := by decide

/-- The second superblock has fewer live pages. -/
theorem victim_selection_greedy_second :
    ∃ x' log, selectVictimSuperblock twoConf twoVictims
        = ⟨.ok (some 7), x', log⟩
      ∧ VictimLists twoConf x' (fun j => [(10 + j, ⟨j, 5⟩)]) [5] := by
  obtain ⟨hiff, hints⟩ :=
    victim_selection_greedy_iff twoVictims_lists (by decide)
  have hfree : ¬ AllLive twoConf twoVictims twoCells := fun hall =>
    absurd (hall 0 (by decide) (20, ⟨0, 7⟩) (by decide)) (by decide +kernel)
  obtain ⟨r, x', log, hrun, -, -, hsome⟩ := hiff.2
    (.inr ⟨rfl, by decide, hints (by decide) hfree⟩)
  have hr : r = some 7 := by
    have hres : (selectVictimSuperblock twoConf twoVictims).res
        = .ok (some 7) := by decide +kernel
    rw [hrun] at hres
    exact Except.ok.inj hres
  subst hr
  obtain ⟨i, hi, -, hlists, -⟩ := hsome 7 rfl
  refine ⟨x', log, hrun, ?_⟩
  match i, hi with
  | 1, _ => exact hlists

/-- A device with `2 ^ 31` pages in a superblock, one of which is a
victim without a valid page. -/
def bigConf : Conf := initSsdConfig 2 8 (2 ^ 30) 1

/-- One block on each list. -/
def bigCells (j : Nat) : List (Nat × VictimBlock) := [(10 + j, ⟨j, 5⟩)]

/-- One superblock, with more pages than an `int` counts. -/
def bigVictims : VictimHeap :=
  (Prog.each (fun y => insertVictimBlock bigConf y.1
      ⟨y.2.phyFlashNb, y.2.phyBlockNb, 0⟩) (bigCells 0 ++ bigCells 1)
    ⟨.fill none, .fill ⟨none, none, 0⟩, 0, ftlInit bigConf⟩).st

theorem bigVictims_lists : VictimLists bigConf bigVictims bigCells [5] where
  dll j hj := by
    match j, hj with
    | 0, _ => exact ⟨rfl, rfl, rfl, ⟨rfl, trivial⟩, by decide⟩
    | 1, _ => exact ⟨rfl, rfl, rfl, ⟨rfl, trivial⟩, by decide⟩
  apart i j hi hj hne a ha ha' := by
    simp only [bigCells, List.map_cons, List.map_nil, List.mem_singleton]
      at ha ha'
    omega
  aligned := by decide
  flash := by decide
  pages := by decide +kernel
  total := by decide
  few := by decide

/-- The product is `-2 ^ 31` as an `int`, and no total is below it. -/
theorem victim_selection_overflows :
    VictimLists bigConf bigVictims bigCells [5]
      ∧ pagesAt bigConf bigVictims bigCells 0 = 0
      ∧ (selectVictimSuperblock bigConf bigVictims).res = .ok none
      ∧ ¬ Greedy bigConf bigVictims bigCells [5] := by
  have hres : (selectVictimSuperblock bigConf bigVictims).res = .ok none := by
    decide +kernel
  refine ⟨bigVictims_lists, by decide +kernel, hres, ?_⟩
  intro hgreedy
  obtain ⟨r, x', log, hrun, hnone, -⟩ := hgreedy
  rw [hrun] at hres
  rcases hnone.1 (Except.ok.inj hres) with hnil | hall
  · cases hnil
  · exact absurd (hall 0 (by decide) (10, ⟨0, 5⟩) (by decide))
      (by decide +kernel)

end FemuRemap.Pointer
