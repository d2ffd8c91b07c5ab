/-
Which geometries the allocator serves.

# The root table as a line

The roots of the empty lists stand plane by plane: root `r` belongs to
flash `r % FLASH_NB` and to plane `r / FLASH_NB`. `SB_DEBUG` counts the
planes flash by flash. Both orders are one and the same exactly when
there is one flash or one plane per flash, and then the table behaves
like that of a device with `FLASH_NB * PLANES_PER_FLASH` flashes of one
plane each (`line`): `GET_NEW_PAGE` on the two runs in step
(`Lined.getNewPage`), and the results about one plane per flash apply.

# The other geometries

With one root alone the first call leaves `empty_block_table_index` at
the table's end. With several flashes of several planes the second call
asks for flash 1, whose plane `SB_DEBUG` does not expect next.
-/
import Mathlib.Data.List.Nodup
import FemuRemap.Lib.Couple
import FemuRemap.Proofs.Lists

namespace FemuRemap

open Lib

/-- What `INIT_SSD_CONFIG` checks, with sizes that fit. -/
structure Accepted (c : Conf) (channelNb : Nat) : Prop where
  channel : 0 < channelNb
  flash : channelNb ≤ c.flashNb
  planes : c.planesPerFlash = 1 ∨ c.planesPerFlash % 2 = 0
  block : 0 < c.blockNb
  blocks : c.planesPerFlash ∣ c.blockNb
  page : 0 < c.pageNb
  total : c.pageMappingEntryNb < 2 ^ 31

variable {c : Conf}

theorem Accepted.planes_pos {n : Nat} (h : Accepted c n) :
    0 < c.planesPerFlash :=
  Nat.pos_of_dvd_of_pos h.blocks h.block

/-- An accepted configuration has the sizes the address arithmetic needs. -/
theorem Accepted.sized {n : Nat} (h : Accepted c n) : Sized c where
  flash := Nat.lt_of_lt_of_le h.channel h.flash
  block := h.block
  page := h.page
  total := h.total

-- ========================================================== the line

/-- As many flashes of one plane each as `c` has roots. -/
def line (c : Conf) : Conf where
  flashNb := c.emptyTableEntryNb
  blockNb := c.blockNb / c.planesPerFlash
  pageNb := c.pageNb
  planesPerFlash := 1
  sectorsPerPage := 1
  gcThresholdBlockNb := 0
  totalOobSeg := 0
  oobEntryPerSeg := 1

/-- The block of `c` that stands for a block of the line. -/
def unline (c : Conf) (e : EmptyBlock) : EmptyBlock where
  phyFlashNb := e.phyFlashNb % c.flashNb
  phyBlockNb := e.phyBlockNb * c.planesPerFlash + e.phyFlashNb / c.flashNb
  currPhyPageNb := e.currPhyPageNb

/-- The root of the device with planes. -/
def unlineRoot (c : Conf) (r : EmptyRoot) : EmptyRoot where
  emptyHead := r.emptyHead.map (unline c)
  head := r.head.map (unline c)
  emptyBlockNb := r.emptyBlockNb

/-- A block of the line. -/
structure InLine (c : Conf) (e : EmptyBlock) : Prop where
  root : e.phyFlashNb < c.emptyTableEntryNb
  block : e.phyBlockNb < c.blockNb / c.planesPerFlash

/-- The lists `l` of `c` are the lists `l'` of the line, victims apart. -/
structure Lined (c : Conf) (l l' : BlockLists) : Prop where
  roots : ∀ r, l.emptyBlockList r = unlineRoot c (l'.emptyBlockList r)
  totalEmpty : l.totalEmptyBlockNb = l'.totalEmptyBlockNb
  index : l.emptyBlockTableIndex = l'.emptyBlockTableIndex
  deb : l.sbDeb = l'.sbDeb
  fresh : ∀ r, ∀ e ∈ (l'.emptyBlockList r).emptyHead,
    InLine c e ∧ e.currPhyPageNb = 0
  active : ∀ r, ∀ e ∈ (l'.emptyBlockList r).head,
    InLine c e ∧ e.currPhyPageNb ≤ c.pageNb

section Addresses

variable {n : Nat} (ha : Accepted c n)
include ha

/-- Lining up the planes keeps the number of pages. -/
theorem Accepted.line_total :
    (line c).pageMappingEntryNb = c.pageMappingEntryNb := by
  show c.pageNb * (c.blockNb / c.planesPerFlash)
    * (c.flashNb * c.planesPerFlash) = c.pageNb * c.blockNb * c.flashNb
  calc c.pageNb * (c.blockNb / c.planesPerFlash)
        * (c.flashNb * c.planesPerFlash)
      = c.pageNb * (c.blockNb / c.planesPerFlash * c.planesPerFlash)
        * c.flashNb := by ring
    _ = c.pageNb * c.blockNb * c.flashNb := by
        rw [Nat.div_mul_cancel ha.blocks]

/-- The lined-up device has one plane, and the geometry the FTL's invariants
ask for. -/
theorem Accepted.line_geo (h : 2 ≤ c.emptyTableEntryNb) : Geo (line c) where
  planes := rfl
  flash := h
  block := Nat.div_pos (Nat.le_of_dvd ha.block ha.blocks) ha.planes_pos
  page := ha.page
  sectors := Nat.one_pos
  total := by
    rw [ha.line_total]
    exact ha.total
  entries := Nat.one_pos

variable {e : EmptyBlock} (he : InLine c e)
include he

omit ha in
/-- The flash of the line determines the plane. -/
theorem InLine.plane_lt : e.phyFlashNb / c.flashNb < c.planesPerFlash :=
  Nat.div_lt_of_lt_mul he.root

omit ha in
/-- The plane of a block is its number modulo the planes. -/
theorem InLine.unline_mod :
    (unline c e).phyBlockNb % c.planesPerFlash
      = e.phyFlashNb / c.flashNb := by
  have hlt := he.plane_lt
  show (e.phyBlockNb * c.planesPerFlash + e.phyFlashNb / c.flashNb)
    % c.planesPerFlash = _
  rw [Nat.mul_comm, Nat.mul_add_mod, Nat.mod_eq_of_lt hlt]

theorem Accepted.unline_div :
    (unline c e).phyBlockNb / c.planesPerFlash = e.phyBlockNb := by
  have hlt := he.plane_lt
  show (e.phyBlockNb * c.planesPerFlash + e.phyFlashNb / c.flashNb)
    / c.planesPerFlash = _
  rw [Nat.mul_comm, Nat.mul_add_div ha.planes_pos, Nat.div_eq_of_lt hlt,
    Nat.add_zero]

theorem Accepted.unline_block_lt :
    (unline c e).phyBlockNb < c.blockNb := by
  have hlt := he.plane_lt
  have hb := he.block
  show e.phyBlockNb * c.planesPerFlash + e.phyFlashNb / c.flashNb
    < c.blockNb
  calc e.phyBlockNb * c.planesPerFlash + e.phyFlashNb / c.flashNb
      < e.phyBlockNb * c.planesPerFlash + c.planesPerFlash := by omega
    _ = (e.phyBlockNb + 1) * c.planesPerFlash := (Nat.succ_mul _ _).symm
    _ ≤ c.blockNb / c.planesPerFlash * c.planesPerFlash :=
        Nat.mul_le_mul_right _ hb
    _ = c.blockNb := Nat.div_mul_cancel ha.blocks

/-- The last root is that of the last plane of the last flash. -/
theorem Accepted.unline_last_iff :
    ((unline c e).phyFlashNb = c.flashNb - 1
      ∧ (unline c e).phyBlockNb % c.planesPerFlash = c.planesPerFlash - 1)
    ↔ e.phyFlashNb = (line c).flashNb - 1 := by
  have hF := ha.sized.flash
  have hP := ha.planes_pos
  rw [he.unline_mod]
  show (e.phyFlashNb % c.flashNb = c.flashNb - 1
      ∧ e.phyFlashNb / c.flashNb = c.planesPerFlash - 1)
    ↔ e.phyFlashNb = c.flashNb * c.planesPerFlash - 1
  have hsplit := Nat.div_add_mod e.phyFlashNb c.flashNb
  obtain ⟨p, hp⟩ := Nat.exists_eq_succ_of_ne_zero hP.ne'
  constructor
  · rintro ⟨h₁, h₂⟩
    rw [h₁, h₂, hp, Nat.succ_sub_one] at hsplit
    rw [hp, Nat.mul_succ]
    omega
  · intro h
    have hval : e.phyFlashNb = (c.flashNb - 1) + c.flashNb * p := by
      rw [h, hp, Nat.mul_succ]
      omega
    rw [hval, Nat.add_mul_mod_self_left, Nat.mod_eq_of_lt (by omega),
      Nat.add_mul_div_left _ _ hF, Nat.div_eq_of_lt (by omega), hp]
    exact ⟨rfl, Nat.zero_add p⟩

omit ha in
/-- `SB_DEBUG` counts the roots in their order if there is one flash or
one plane. -/
theorem InLine.unline_plane
    (h : c.flashNb = 1 ∨ c.planesPerFlash = 1) :
    (unline c e).phyFlashNb * c.planesPerFlash
      + (unline c e).phyBlockNb % c.planesPerFlash = e.phyFlashNb := by
  rw [he.unline_mod]
  show e.phyFlashNb % c.flashNb * c.planesPerFlash
    + e.phyFlashNb / c.flashNb = e.phyFlashNb
  rcases h with h | h
  · rw [h, Nat.mod_one, Nat.zero_mul, Nat.zero_add, Nat.div_one]
  · have hlt : e.phyFlashNb < c.flashNb := by
      have := he.root
      rwa [Conf.emptyTableEntryNb, h, Nat.mul_one] at this
    rw [h, Nat.mod_eq_of_lt hlt, Nat.div_eq_of_lt hlt, Nat.mul_one,
      Nat.add_zero]

end Addresses

-- ================================================= the runs in step

/-- The two allocators side by side: what they report is not compared. -/
abbrev InStep {α : Type} (m m' : Ftl α) (s s' : Ssd)
    (Q : α → α → Ssd → Ssd → Prop) : Prop :=
  Couples (fun _ _ => True) m m' s s' Q

section Steps

variable {n : Nat} {l l' : BlockLists} {s s' : Ssd}

/-- Roots that have activated a block have an unused one. -/
structure Activated (c : Conf) (k : Nat) (l l' : BlockLists) : Prop
    extends Lined c l l' where
  heads : ∀ r, r < k → ∃ e, (l'.emptyBlockList r).head = some e
    ∧ e.currPhyPageNb = 0

/-- One root changes in both. -/
theorem Lined.set (h : Lined c l l') (i : Nat) {r : EmptyRoot}
    (hf : ∀ e ∈ r.emptyHead, InLine c e ∧ e.currPhyPageNb = 0)
    (hh : ∀ e ∈ r.head, InLine c e ∧ e.currPhyPageNb ≤ c.pageNb) :
    Lined c
      { l with emptyBlockList := l.emptyBlockList.set i (unlineRoot c r) }
      { l' with emptyBlockList := l'.emptyBlockList.set i r } where
  roots := by
    intro j
    show l.emptyBlockList.set i (unlineRoot c r) j
      = unlineRoot c (l'.emptyBlockList.set i r j)
    rw [Table.get_set, Table.get_set, h.roots j]
    split <;> rfl
  totalEmpty := h.totalEmpty
  index := h.index
  deb := h.deb
  fresh := by
    intro j
    show ∀ e ∈ (l'.emptyBlockList.set i r j).emptyHead, _
    rw [Table.get_set]
    split
    · exact hf
    · exact h.fresh j
  active := by
    intro j
    show ∀ e ∈ (l'.emptyBlockList.set i r j).head, _
    rw [Table.get_set]
    split
    · exact hh
    · exact h.active j

/-- Both devices open the next root. -/
theorem Activated.step {i : Nat} (h : Activated c i s.lists s'.lists) :
    InStep (activateRoot i) (activateRoot i) s s'
      fun _ _ t t' => Activated c (i + 1) t.lists t'.lists := by
  have hroot := h.roots i
  unfold activateRoot
  refine Couples.get_bind ?_
  simp only [hroot, unlineRoot]
  cases he : (s'.lists.emptyBlockList i).emptyHead with
  | nil => exact Couples.fault _ _
  | cons e es =>
      have hfresh := h.fresh i
      rw [he] at hfresh
      have hl := h.toLined.set i
        (r := ⟨es, some e,
          u32 ((s'.lists.emptyBlockList i).emptyBlockNb - 1)⟩)
        (fun x hx => hfresh x (List.mem_cons_of_mem _ hx))
        (by
          rintro x ⟨⟩
          obtain ⟨h₁, h₂⟩ := hfresh e List.mem_cons_self
          exact ⟨h₁, by omega⟩)
      refine Couples.modify { hl with heads := fun r hr => ?_ }
      show ∃ x, (s'.lists.emptyBlockList.set i _ r).head = some x ∧ _
      rw [Table.get_set]
      split
      · exact ⟨e, rfl, (hfresh e List.mem_cons_self).2⟩
      · exact h.heads r (by omega)

/-- The activation loop. -/
theorem Lined.activate (h : Lined c s.lists s'.lists) :
    InStep (Prog.each activateRoot (List.range c.emptyTableEntryNb))
      (Prog.each activateRoot (List.range c.emptyTableEntryNb)) s s'
      fun _ _ t t' =>
        Activated c c.emptyTableEntryNb t.lists t'.lists :=
  Couples.each_range
    (fun k (t t' : Ssd) => Activated c k t.lists t'.lists)
    (fun _ _ _ _ hk => hk.step)
    { h with heads := fun _ hr => absurd hr (Nat.not_lt_zero _) }

/-- One round of the retirement loop. -/
theorem Lined.retireRoot {i : Nat} (h : Lined c s.lists s'.lists) :
    InStep (retireRoot c i) (retireRoot (line c) i) s s'
      fun _ _ t t' => Lined c t.lists t'.lists := by
  have hroot := h.roots i
  unfold FemuRemap.retireRoot
  refine Couples.get_bind ?_
  simp only [hroot, unlineRoot]
  cases he : (s'.lists.emptyBlockList i).head with
  | none => exact Couples.fault _ _
  | some e =>
      have hl := h.set i
        (r := { s'.lists.emptyBlockList i with head := none })
        (h.fresh i) nofun
      refine Couples.modify { hl with roots := fun r => ?_, totalEmpty := ?_ }
      · refine Eq.trans ?_ (hl.roots r)
        show s.lists.emptyBlockList.set i
            { s.lists.emptyBlockList i with head := none } r = _
        rw [hroot]
        rfl
      · show s.lists.totalEmptyBlockNb - 1 = s'.lists.totalEmptyBlockNb - 1
        rw [h.totalEmpty]

theorem line_entries : (line c).emptyTableEntryNb = c.emptyTableEntryNb :=
  Nat.mul_one _

theorem Lined.advance (h : Lined c l l') :
    Lined c (advanceIndex c l) (advanceIndex (line c) l') := by
  refine { h with index := ?_ }
  unfold advanceIndex
  rw [h.index, line_entries]

/-- The debug record is the same for both. -/
theorem Lined.remember (h : Lined c l l') {d d' : SbDebug} (hd : d = d') :
    Lined c { l with sbDeb := d } { l' with sbDeb := d' } where
  roots := h.roots
  totalEmpty := h.totalEmpty
  index := h.index
  deb := hd
  fresh := h.fresh
  active := h.active

/-- The root that has room, in both. -/
def LinedRoot (c : Conf) (r r' : Option Nat) (t t' : Ssd) : Prop :=
  r = r' ∧ Lined c t.lists t'.lists
    ∧ ∀ i, r' = some i → ∃ e, (t'.lists.emptyBlockList i).head = some e
      ∧ e.currPhyPageNb < c.pageNb

theorem Lined.emit (h : Lined c s.lists s'.lists) (e e' : Event) :
    InStep (Prog.emit e) (Prog.emit e') s s'
      fun _ _ t t' => Lined c t.lists t'.lists :=
  Couples.emit trivial h

theorem Lined.printErrorIf (h : Lined c s.lists s'.lists) {p p' : Prop}
    [Decidable p] [Decidable p'] (hp : p ↔ p') (m : Msg) :
    InStep (printErrorIf p m) (printErrorIf p' m) s s'
      fun _ _ t t' => Lined c t.lists t'.lists := by
  unfold FemuRemap.printErrorIf
  by_cases hc : p
  · rw [if_pos hc, if_pos (hp.1 hc)]
    exact h.emit _ _
  · rw [if_neg hc, if_neg (fun hc' => hc (hp.2 hc'))]
    exact Couples.pure h

/-- The loop of `GET_EMPTY_BLOCK`, for every geometry. -/
theorem Accepted.loop_inStep (ha : Accepted c n) (fuel : Nat)
    (h : Lined c s.lists s'.lists) :
    InStep (getEmptyBlockLoop c fuel) (getEmptyBlockLoop (line c) fuel) s s'
      (LinedRoot c) := by
  induction fuel generalizing s s' with
  | zero => exact Couples.fault _ _
  | succ fuel ih =>
      have hroot := h.roots s'.lists.emptyBlockTableIndex
      unfold getEmptyBlockLoop
      refine Couples.get_bind ?_
      simp only [h.totalEmpty, h.index, hroot, unlineRoot]
      by_cases h0 : s'.lists.totalEmptyBlockNb = 0
      · rw [if_pos h0, if_pos h0]
        exact Couples.bind (h.emit _ _)
          fun _ _ _ _ hl => Couples.pure ⟨rfl, hl, nofun⟩
      rw [if_neg h0, if_neg h0]
      cases hhead : (s'.lists.emptyBlockList
          s'.lists.emptyBlockTableIndex).head with
      | none =>
          simp only [Option.map_none, List.map_eq_nil_iff]
          by_cases hnil : (s'.lists.emptyBlockList
              s'.lists.emptyBlockTableIndex).emptyHead = []
          · rw [if_pos hnil, if_pos hnil]
            exact Couples.modify_bind (ih h.advance)
          rw [if_neg hnil, if_neg hnil]
          -- only root zero opens the next superblock
          by_cases hi : s'.lists.emptyBlockTableIndex = 0
          · rw [if_pos hi, if_pos hi, line_entries]
            refine Couples.bind h.activate fun _ _ t t' ht => ?_
            refine Couples.modify_bind (Couples.pure ⟨rfl, ?_, ?_⟩)
            · refine { ht.toLined with index := ?_ }
              show t.lists.emptyBlockTableIndex + 1
                = t'.lists.emptyBlockTableIndex + 1
              rw [ht.index]
            · rintro _ ⟨⟩
              obtain ⟨e, he, hk⟩ := ht.heads 0
                (Nat.mul_pos ha.sized.flash ha.planes_pos)
              exact ⟨e, he, hk ▸ ha.page⟩
          · rw [if_neg hi, if_neg hi]
            exact Couples.bind (h.emit _ _)
              fun _ _ _ _ hl => ih hl
      | some e =>
          obtain ⟨he, hk⟩ := h.active _ e hhead
          simp only [Option.map_some]
          by_cases hfull : e.currPhyPageNb = c.pageNb
          · rw [if_pos (show (unline c e).currPhyPageNb = c.pageNb from hfull),
              if_pos (show e.currPhyPageNb = (line c).pageNb from hfull)]
            have hlast := ha.unline_last_iff he
            have hmod : e.phyBlockNb % (line c).planesPerFlash
                = (line c).planesPerFlash - 1 := Nat.mod_one _
            -- the last flash of the line is the last plane of the last flash
            by_cases hl : e.phyFlashNb = (line c).flashNb - 1
            · rw [if_pos (hlast.2 hl), if_pos ⟨hl, hmod⟩, line_entries]
              refine Couples.bind (Couples.each_range
                (fun _ (t t' : Ssd) => Lined c t.lists t'.lists)
                (fun _ _ _ _ ht => ht.retireRoot) h) fun _ _ t t' ht => ?_
              refine Couples.bind (ht.printErrorIf
                (by rw [h.index]) _) fun _ _ t t' ht => ?_
              exact Couples.modify_bind (ih { ht with index := rfl })
            · rw [if_neg (fun hc => hl (hlast.1 hc)),
                if_neg (fun hc => hl hc.1), line_entries]
              refine Couples.bind (h.printErrorIf
                (by rw [h.index]) _) fun _ _ t t' ht => ?_
              exact Couples.modify_bind (ih ht.advance)
          · rw [if_neg
                (show (unline c e).currPhyPageNb ≠ c.pageNb from hfull),
              if_neg (show e.currPhyPageNb ≠ (line c).pageNb from hfull)]
            refine Couples.modify_bind
              (Couples.pure ⟨rfl, h.advance, ?_⟩)
            rintro _ ⟨⟩
            exact ⟨e, hhead, by omega⟩

/-- The search for a block finds corresponding roots. -/
theorem Accepted.getEmptyBlock_inStep (ha : Accepted c n) (fuel : Nat)
    (h : Lined c s.lists s'.lists) :
    InStep (getEmptyBlock c fuel) (getEmptyBlock (line c) fuel) s s'
      (LinedRoot c) := by
  unfold getEmptyBlock
  refine Couples.get_bind ?_
  rw [h.totalEmpty]
  by_cases h0 : s'.lists.totalEmptyBlockNb = 0
  · rw [if_pos h0, if_pos h0]
    exact Couples.bind (h.emit _ _)
      fun _ _ _ _ hl => Couples.pure ⟨rfl, hl, nofun⟩
  · rw [if_neg h0, if_neg h0]
    exact ha.loop_inStep fuel h

/-- The pages of one block of the line, in both. -/
def LinedPage (c : Conf) (q q' : Option Nat) : Prop :=
  (q = none ∧ q' = none) ∨ ∃ e, InLine c e ∧ e.currPhyPageNb < c.pageNb
    ∧ q = some (encodePpn c (unline c e).phyFlashNb (unline c e).phyBlockNb
      e.currPhyPageNb)
    ∧ q' = some (encodePpn (line c) e.phyFlashNb e.phyBlockNb
      e.currPhyPageNb)

/-- The corresponding page is handed out. -/
theorem Lined.handOut (h : Lined c s.lists s'.lists) {r : Nat}
    {e : EmptyBlock} (he : InLine c e) (hk : e.currPhyPageNb < c.pageNb) :
    InStep (handOut c r (unline c e)) (handOut (line c) r e) s s'
      fun q q' t t' => LinedPage c q q' ∧ Lined c t.lists t'.lists := by
  unfold FemuRemap.handOut
  refine Couples.get_bind (Couples.bind (h.emit _ _) ?_)
  intro _ _ t t' ht
  refine Couples.modify_bind (Couples.modify_bind (Couples.pure
    ⟨.inr ⟨e, he, hk, rfl, rfl⟩, ?_⟩))
  have hl := ht.set r
    (r := { t'.lists.emptyBlockList r with
      head := some { e with currPhyPageNb := e.currPhyPageNb + 1 } })
    (ht.fresh r) (by
      rintro _ ⟨⟩
      exact ⟨⟨he.root, he.block⟩, hk⟩)
  refine { hl with roots := fun j => Eq.trans ?_ (hl.roots j) }
  show t.lists.emptyBlockList.set r
    { t.lists.emptyBlockList r with
      head := some { unline c e with
        currPhyPageNb := (unline c e).currPhyPageNb + 1 } } j = _
  rw [ht.roots r]
  rfl

/-- `GET_NEW_PAGE` runs in step if the orders agree. -/
theorem Accepted.getNewPage_inStep (ha : Accepted c n)
    (ho : c.flashNb = 1 ∨ c.planesPerFlash = 1) (fuel : Nat)
    (h : Lined c s.lists s'.lists) :
    InStep (getNewPage c fuel) (getNewPage (line c) fuel) s s'
      fun q q' t t' => LinedPage c q q' ∧ Lined c t.lists t'.lists := by
  unfold getNewPage
  refine Couples.bind (ha.getEmptyBlock_inStep fuel h) ?_
  rintro r r' t t' ⟨rfl, ht, hroom⟩
  cases r with
  | none => exact Couples.fault _ _
  | some i =>
      obtain ⟨e, hhead, hk⟩ := hroom i rfl
      obtain ⟨he, -⟩ := ht.active i e hhead
      refine Couples.get_bind ?_
      rw [ht.roots i, ht.deb]
      simp only [unlineRoot, hhead, Option.map_some, he.unline_plane ho,
        ha.unline_div he]
      have hplane : e.phyFlashNb * (line c).planesPerFlash
          + e.phyBlockNb % (line c).planesPerFlash = e.phyFlashNb := by
        show e.phyFlashNb * 1 + e.phyBlockNb % 1 = e.phyFlashNb
        omega
      have hblock : e.phyBlockNb / (line c).planesPerFlash = e.phyBlockNb :=
        Nat.div_one _
      have hlast : (line c).planesPerFlash * (line c).flashNb
          = c.planesPerFlash * c.flashNb := by
        show 1 * (c.flashNb * c.planesPerFlash) = _
        rw [Nat.one_mul, Nat.mul_comm]
      rw [hplane, hblock, hlast]
      by_cases h0 : e.phyFlashNb = 0
      · rw [if_pos h0, if_pos h0]
        by_cases hd : t'.lists.sbDeb.planeNb
            ≠ c.planesPerFlash * c.flashNb - 1
        · rw [if_pos hd, if_pos hd]
          exact Couples.bind (ht.emit _ _)
            fun _ _ _ _ hl => Couples.pure ⟨.inl ⟨rfl, rfl⟩, hl⟩
        · rw [if_neg hd, if_neg hd]
          refine Couples.modify_bind (Lined.handOut ?_ he hk)
          exact ht.remember rfl
      rw [if_neg h0, if_neg h0]
      by_cases hb : t'.lists.sbDeb.blockNb ≠ e.phyBlockNb
      · rw [if_pos hb, if_pos hb]
        exact Couples.bind (ht.emit _ _)
          fun _ _ _ _ hl => Couples.pure ⟨.inl ⟨rfl, rfl⟩, hl⟩
      rw [if_neg hb, if_neg hb]
      by_cases hp : t'.lists.sbDeb.planeNb ≠ e.phyFlashNb - 1
      · rw [if_pos hp, if_pos hp]
        exact Couples.bind (ht.emit _ _)
          fun _ _ _ _ hl => Couples.pure ⟨.inl ⟨rfl, rfl⟩, hl⟩
      rw [if_neg hp, if_neg hp]
      refine Couples.modify_bind (Lined.handOut ?_ he hk)
      exact ht.remember (by rw [ht.deb])

end Steps

-- ======================================================== the start

theorem filter_range_mod {p r : Nat} (hr : r < p) (n : Nat) :
    (List.range (n * p)).filter (fun k => k % p = r)
      = (List.range n).map fun m => m * p + r := by
  induction n with
  | zero => simp
  | succ n ih =>
      have hmod : ∀ k ∈ List.range p,
          ((fun k => decide (k % p = r)) ∘ (n * p + ·)) k
            = decide (k = r) := by
        intro k hk
        have hlt := List.mem_range.1 hk
        simp only [Function.comp_apply]
        rw [Nat.mul_comm, Nat.mul_add_mod, Nat.mod_eq_of_lt hlt]
      have hlast : ((List.range p).map (n * p + ·)).filter
          (fun k => k % p = r) = [n * p + r] := by
        rw [List.filter_map, List.filter_congr hmod]
        simp [List.filter_eq, hr]
      rw [Nat.succ_mul, List.range_add, List.filter_append, ih, hlast,
        List.range_succ, List.map_append]
      rfl

/-- The blocks of a plane, in the order of their superblocks. -/
theorem Accepted.initEmptyRoot_eq {n : Nat} (ha : Accepted c n) {r : Nat}
    (hr : r < c.emptyTableEntryNb) :
    initEmptyRoot c r = unlineRoot c (initEmptyRoot (line c) r) := by
  have hp : r / c.flashNb < c.planesPerFlash := Nat.div_lt_of_lt_mul hr
  have hfilter := filter_range_mod hp (c.blockNb / c.planesPerFlash)
  rw [Nat.div_mul_cancel ha.blocks] at hfilter
  have hr' : r < (line c).flashNb := hr
  unfold initEmptyRoot unlineRoot
  simp only [hfilter, Nat.mod_eq_of_lt hr', Nat.div_eq_of_lt hr']
  simp [line, Nat.mod_one, unline, Conf.eachEmptyTableEntryNb,
    Function.comp_def]

theorem Accepted.lined_init {n : Nat} (ha : Accepted c n) :
    Lined c (initBlockLists c) (initBlockLists (line c)) where
  roots := by
    intro r
    unfold initBlockLists
    rw [Table.get_ofFn, Table.get_ofFn, line_entries]
    split
    · next hr => exact ha.initEmptyRoot_eq hr
    · rfl
  totalEmpty := by
    show (c.blockNb * c.flashNb : Nat) = ((c.blockNb / c.planesPerFlash
      * (c.flashNb * c.planesPerFlash) : Nat) : Int)
    rw [Nat.mul_comm c.flashNb, ← Nat.mul_assoc,
      Nat.div_mul_cancel ha.blocks]
  index := rfl
  deb := by
    show (⟨c.planesPerFlash * c.flashNb - 1, 0⟩ : SbDebug)
      = ⟨1 * (c.flashNb * c.planesPerFlash) - 1, 0⟩
    rw [Nat.one_mul, Nat.mul_comm]
  fresh := by
    intro r e he
    unfold initBlockLists at he
    rw [Table.get_ofFn, line_entries] at he
    split at he
    · next hr =>
        obtain ⟨k, hk, rfl⟩ := List.mem_map.1 he
        have hlt := List.mem_range.1 (List.mem_filter.1 hk).1
        have hr' : r < (line c).flashNb := hr
        exact ⟨⟨by rwa [Nat.mod_eq_of_lt hr'], hlt⟩, rfl⟩
    · cases he
  active := by
    intro r e he
    unfold initBlockLists at he
    rw [Table.get_ofFn] at he
    split at he <;> cases he

-- ======================================================== the calls

/-- The state after `n` calls of `GET_NEW_PAGE` from `FTL_INIT`. -/
def afterNewPages (c : Conf) (fuel : Nat) : Nat → Ssd
  | 0 => ftlInit c
  | n + 1 => (getNewPage c fuel (afterNewPages c fuel n)).st

/-- Call `n` of `GET_NEW_PAGE`, counted from zero. -/
def nthNewPage (c : Conf) (fuel n : Nat) :
    Out Ssd Event Fault (Option Nat) :=
  getNewPage c fuel (afterNewPages c fuel n)

/-- The first `FLASH_NB * BLOCK_NB * PAGE_NB` calls all succeed with
distinct pages of the device, and leave the index inside the table. -/
structure AllocatesAll (c : Conf) (fuel : Nat) : Prop where
  success : ∀ n, n < c.pageMappingEntryNb → ∃ q,
    (nthNewPage c fuel n).res = .ok (some q) ∧ q < c.pageMappingEntryNb
  distinct : ∀ n m q, n < c.pageMappingEntryNb →
    m < c.pageMappingEntryNb →
    (nthNewPage c fuel n).res = .ok (some q) →
    (nthNewPage c fuel m).res = .ok (some q) → n = m
  index : ∀ n, n < c.pageMappingEntryNb →
    (nthNewPage c fuel n).st.lists.emptyBlockTableIndex
      < c.emptyTableEntryNb

/-- The first calls give out the positions `l` of the pool. -/
structure GaveOut (c : Conf) (fuel : Nat) (l : List (Nat × Nat))
    (p : Pool) : Prop where
  chain : Pool.Chain c.sbPages (.init c.blockNb) l p
  lists : Lists c p (afterNewPages c fuel l.length).lists
  pages : ∀ i (h : i < l.length), (nthNewPage c fuel i).res
    = .ok (some (pageAt c (l.get ⟨i, h⟩).1 (l.get ⟨i, h⟩).2))
  index : ∀ i, i < l.length →
    (nthNewPage c fuel i).st.lists.emptyBlockTableIndex < c.flashNb

theorem Geo.turn_lt (g : Geo c) (p : Pool) : turn c p < c.flashNb := by
  unfold turn
  split
  · exact g.flash_pos
  · exact g.pos_mod_lt _

/-- One more call, as long as the pool has room. -/
theorem GaveOut.step (g : Geo c) {fuel : Nat} (hf : c.flashNb < fuel)
    {l : List (Nat × Nat)} {p : Pool} (h : GaveOut c fuel l p)
    (hroom : 0 < p.room c.sbPages) :
    ∃ x p', GaveOut c fuel (l ++ [x]) p' := by
  have hok : PoolOk c [] p := h.chain.ok g.sbPages_pos Pool.Ok.init
  have hne : p.next c.sbPages ≠ none := fun hn => by
    rw [Pool.next_eq_none g.sbPages_pos] at hn
    omega
  have hcall := Sat.ends (g.getNewPage_sat h.lists hok (fun _ => trivial)
    (fun _ _ _ _ => trivial) fuel)
  cases hres : (getNewPage c fuel (afterNewPages c fuel l.length)).res with
  | error e =>
      rw [hres] at hcall
      rcases hcall with ⟨-, hn⟩ | ⟨-, hle⟩
      · exact absurd hn hne
      · omega
  | ok r =>
      rw [hres] at hcall
      obtain ⟨_, p', rfl, b, k, l', hn, rfl, hst, hl'⟩ := hcall
      refine ⟨(b, k), p', ⟨.snoc h.chain hn, ?_, ?_, ?_⟩⟩
      · rw [List.length_append, List.length_singleton]
        show Lists c p' (getNewPage c fuel _).st.lists
        rw [hst]
        exact hl'
      · intro i hi
        rw [List.length_append, List.length_singleton] at hi
        rcases Nat.lt_succ_iff_lt_or_eq.1 hi with hlt | rfl
        · rw [h.pages i hlt]
          simp [List.getElem_append_left hlt]
        · simpa [nthNewPage] using hres
      · intro i hi
        rw [List.length_append, List.length_singleton] at hi
        rcases Nat.lt_succ_iff_lt_or_eq.1 hi with hlt | rfl
        · exact h.index i hlt
        · show (getNewPage c fuel _).st.lists.emptyBlockTableIndex < _
          rw [hst]
          show l'.emptyBlockTableIndex < _
          rw [hl'.index]
          exact g.turn_lt p'

/-- As many calls as there are pages. -/
theorem Geo.gaveOut (g : Geo c) {fuel : Nat} (hf : c.flashNb < fuel)
    {n : Nat} (hn : n ≤ c.pageMappingEntryNb) :
    ∃ l p, GaveOut c fuel l p ∧ l.length = n := by
  induction n with
  | zero =>
      exact ⟨[], _, ⟨.nil, g.lists_init, nofun, nofun⟩, rfl⟩
  | succ n ih =>
      obtain ⟨l, p, h, rfl⟩ := ih (by omega)
      have hroom := h.chain.room g.sbPages_pos
      have hinit : (Pool.init c.blockNb).room c.sbPages
          = c.pageMappingEntryNb := by
        simp only [Pool.room, Pool.init, Pool.left, List.length_range,
          Nat.add_zero, Conf.sbPages, Conf.pageMappingEntryNb]
        ring
      obtain ⟨x, p', h'⟩ := h.step g hf (by omega)
      exact ⟨_, p', h', by simp⟩

/-- One plane per flash and several flashes: all goes well. -/
theorem Geo.allocatesAll (g : Geo c) {fuel : Nat} (hf : c.flashNb < fuel) :
    AllocatesAll c fuel := by
  obtain ⟨l, p, h, hlen⟩ := g.gaveOut hf (Nat.le_refl _)
  have hin : ∀ x ∈ l, x.1 < c.blockNb ∧ x.2 < c.sbPages := fun x hx =>
    have hu := h.chain.used g.sbPages_pos Pool.Ok.init hx
    ⟨hu.1, hu.2.1⟩
  have hnodup := h.chain.nodup g.sbPages_pos Pool.Ok.init
  refine ⟨?_, ?_, ?_⟩
  · intro n hn
    rw [← hlen] at hn
    obtain ⟨hb, hk⟩ := hin _ (l.get_mem ⟨n, hn⟩)
    exact ⟨_, h.pages n hn, g.pageAt_lt hb hk⟩
  · intro n m q hn hm hq hq'
    rw [← hlen] at hn hm
    rw [h.pages n hn] at hq
    rw [h.pages m hm, ← hq] at hq'
    simp only [Except.ok.injEq, Option.some.injEq] at hq'
    obtain ⟨hb, hk⟩ := hin _ (l.get_mem ⟨n, hn⟩)
    obtain ⟨hb', hk'⟩ := hin _ (l.get_mem ⟨m, hm⟩)
    have h₁ := congrArg (blockOf c) hq'
    have h₂ := congrArg (posOf c) hq'
    rw [blockOf_pageAt hb hk, blockOf_pageAt hb' hk'] at h₁
    rw [posOf_pageAt hb hk, posOf_pageAt hb' hk'] at h₂
    have hget : l.get ⟨m, hm⟩ = l.get ⟨n, hn⟩ := Prod.ext h₁ h₂
    exact (Fin.mk.inj ((List.nodup_iff_injective_get.1 hnodup) hget)).symm
  · intro n hn
    rw [g.emptyTableEntryNb]
    exact h.index n (hlen ▸ hn)

/-- The device and its line after as many calls. -/
theorem Accepted.lined_after {n fuel : Nat} (ha : Accepted c n)
    (ho : c.flashNb = 1 ∨ c.planesPerFlash = 1)
    (hl : AllocatesAll (line c) fuel) {m : Nat}
    (hm : m ≤ c.pageMappingEntryNb) :
    Lined c (afterNewPages c fuel m).lists
      (afterNewPages (line c) fuel m).lists := by
  induction m with
  | zero => exact ha.lined_init
  | succ m ih =>
      obtain ⟨q, hq, -⟩ := hl.success m (by rw [ha.line_total]; omega)
      have hstep := ha.getNewPage_inStep ho fuel (ih (by omega))
      obtain ⟨-, -, -, hlined⟩ := hstep.ok_of_ok hq
      exact hlined

/-- Call `m` gives out the page of one block in both. -/
theorem Accepted.nthNewPage_line {n fuel : Nat} (ha : Accepted c n)
    (ho : c.flashNb = 1 ∨ c.planesPerFlash = 1)
    (hl : AllocatesAll (line c) fuel) {m : Nat}
    (hm : m < c.pageMappingEntryNb) :
    ∃ e, InLine c e ∧ e.currPhyPageNb < c.pageNb
      ∧ (nthNewPage c fuel m).res = .ok (some (ppnAt c
        (unline c e).phyFlashNb (unline c e).phyBlockNb e.currPhyPageNb))
      ∧ (nthNewPage (line c) fuel m).res = .ok (some (encodePpn (line c)
        e.phyFlashNb e.phyBlockNb e.currPhyPageNb)) := by
  obtain ⟨q, hq, -⟩ := hl.success m (by rw [ha.line_total]; exact hm)
  have hstep := ha.getNewPage_inStep ho fuel
    (ha.lined_after ho hl (Nat.le_of_lt hm))
  obtain ⟨q', hq', hpage, -⟩ := hstep.ok_of_ok hq
  rcases hpage with ⟨-, hnone⟩ | ⟨e, he, hk, rfl, hline⟩
  · cases hnone
  · have hlt : (unline c e).phyFlashNb < c.flashNb :=
      Nat.mod_lt _ ha.sized.flash
    refine ⟨e, he, hk, ?_, ?_⟩
    · rw [← ha.sized.encodePpn_eq hlt (ha.unline_block_lt he) hk]
      exact hq'
    · rw [hq, hline]

/-- Distinct blocks of the line are distinct blocks. -/
theorem unline_inj {e e' : EmptyBlock}
    (ha : 0 < c.planesPerFlash) (he : InLine c e) (he' : InLine c e')
    (hf : (unline c e).phyFlashNb = (unline c e').phyFlashNb)
    (hb : (unline c e).phyBlockNb = (unline c e').phyBlockNb) :
    e.phyFlashNb = e'.phyFlashNb ∧ e.phyBlockNb = e'.phyBlockNb := by
  have hp : e.phyFlashNb / c.flashNb = e'.phyFlashNb / c.flashNb := by
    rw [← he.unline_mod, ← he'.unline_mod, hb]
  have hr : e.phyFlashNb % c.flashNb = e'.phyFlashNb % c.flashNb := hf
  constructor
  · rw [← Nat.div_add_mod e.phyFlashNb c.flashNb, hp, hr, Nat.div_add_mod]
  · have hsum : e.phyBlockNb * c.planesPerFlash + e.phyFlashNb / c.flashNb
        = e'.phyBlockNb * c.planesPerFlash + e'.phyFlashNb / c.flashNb := hb
    rw [hp] at hsum
    exact Nat.eq_of_mul_eq_mul_right ha (Nat.add_right_cancel hsum)

/-- One flash or one plane per flash, but not both. -/
theorem Accepted.allocatesAll {n fuel : Nat} (ha : Accepted c n)
    (ho : c.flashNb = 1 ∨ c.planesPerFlash = 1)
    (h2 : 2 ≤ c.emptyTableEntryNb) (hf : c.emptyTableEntryNb < fuel) :
    AllocatesAll c fuel := by
  have hl : AllocatesAll (line c) fuel := (ha.line_geo h2).allocatesAll hf
  refine ⟨?_, ?_, ?_⟩
  · intro m hm
    obtain ⟨e, he, hk, hq, -⟩ := ha.nthNewPage_line ho hl hm
    exact ⟨_, hq, ppnAt_lt (Nat.mod_lt _ ha.sized.flash)
      (ha.unline_block_lt he) hk⟩
  · -- equal pages come from equal pages of the line, where they are distinct
    intro m m' q hm hm' hq hq'
    obtain ⟨e, he, hk, h₁, h₂⟩ := ha.nthNewPage_line ho hl hm
    obtain ⟨e', he', hk', h₁', h₂'⟩ := ha.nthNewPage_line ho hl hm'
    rw [h₁] at hq
    rw [h₁', ← hq] at hq'
    simp only [Except.ok.injEq, Option.some.injEq] at hq'
    have hb := ha.unline_block_lt he
    have hb' := ha.unline_block_lt he'
    have hflash := congrArg (flashOf c) hq'
    have hblock := congrArg (blockOf c) hq'
    have hpage := congrArg (pageOf c) hq'
    rw [flashOf_ppnAt _ hb hk, flashOf_ppnAt _ hb' hk'] at hflash
    rw [blockOf_ppnAt _ hb hk, blockOf_ppnAt _ hb' hk'] at hblock
    rw [pageOf_ppnAt _ _ hk, pageOf_ppnAt _ _ hk'] at hpage
    obtain ⟨hr, hs⟩ := unline_inj ha.planes_pos he' he hflash hblock
    rw [hr, hs, hpage] at h₂'
    have ht := ha.line_total
    exact hl.distinct m m' _ (ht ▸ hm) (ht ▸ hm') h₂ h₂'
  · intro m hm
    have ht := ha.line_total
    obtain ⟨q, hq, -⟩ := hl.success m (ht ▸ hm)
    have hlined := ha.lined_after ho hl (m := m + 1) hm
    have hidx := hl.index m (ht ▸ hm)
    rw [line_entries] at hidx
    show (afterNewPages c fuel (m + 1)).lists.emptyBlockTableIndex < _
    rw [hlined.index]
    exact hidx

-- ============================================== the other geometries

/-- The lists when the activation loop has come to root `k`. -/
structure Opening (c : Conf) (k : Nat) (l : BlockLists) : Prop where
  heads : ∀ r, r < k → (l.emptyBlockList r).head
    = (initEmptyRoot c r).emptyHead.head?
  rest : ∀ r, k ≤ r → r < c.emptyTableEntryNb →
    l.emptyBlockList r = initEmptyRoot c r
  totalEmpty : l.totalEmptyBlockNb = c.blockMappingEntryNb
  index : l.emptyBlockTableIndex = 0
  deb : l.sbDeb = ⟨c.planesPerFlash * c.flashNb - 1, 0⟩

theorem opening_init : Opening c 0 (initBlockLists c) where
  heads := fun _ hr => absurd hr (Nat.not_lt_zero _)
  rest := fun r _ hr => by
    unfold initBlockLists
    rw [Table.get_ofFn, if_pos hr]
  totalEmpty := rfl
  index := rfl
  deb := rfl

/-- One more is opened, and the others wait. -/
theorem Opening.step {k : Nat} {s : Ssd} (h : Opening c k s.lists)
    (hk : k < c.emptyTableEntryNb) :
    Sat (fun _ => True) (fun _ => True) (activateRoot k) s
      (fun _ t => Opening c (k + 1) t.lists) fun _ _ => True := by
  have hroot := h.rest k (Nat.le_refl k) hk
  unfold activateRoot
  refine Sat.get_bind ?_
  simp only [hroot]
  cases he : (initEmptyRoot c k).emptyHead with
  | nil => exact Sat.fault trivial
  | cons e es =>
      refine Sat.modify { h with heads := fun r hr => ?_,
                                 rest := fun r hr hr' => ?_ }
      · show (s.lists.emptyBlockList.set k _ r).head = _
        rw [Table.get_set]
        split
        · next heq => rw [heq, he, List.head?_cons]
        · next hne => exact h.heads r (by omega)
      · show s.lists.emptyBlockList.set k _ r = _
        rw [Table.get_set, if_neg (by omega)]
        exact h.rest r (by omega) hr'

/-- The lists after the first page. -/
structure FirstPage (c : Conf) (l : BlockLists) : Prop where
  heads : ∀ r, 0 < r → r < c.emptyTableEntryNb →
    (l.emptyBlockList r).head = (initEmptyRoot c r).emptyHead.head?
  totalEmpty : l.totalEmptyBlockNb = c.blockMappingEntryNb
  index : l.emptyBlockTableIndex = 1
  deb : l.sbDeb = ⟨0, 0⟩

/-- The first block of plane 0 of flash `f`. -/
theorem Accepted.first_head {n : Nat} (ha : Accepted c n) {f : Nat}
    (hf : f < c.flashNb) :
    (initEmptyRoot c f).emptyHead.head? = some ⟨f, 0, 0⟩ := by
  obtain ⟨b, hb⟩ := Nat.exists_eq_succ_of_ne_zero ha.block.ne'
  unfold initEmptyRoot
  simp only [Nat.div_eq_of_lt hf, Nat.mod_eq_of_lt hf, hb]
  rw [Nat.succ_eq_add_one, Nat.add_comm, List.range_add]
  simp

section Start

variable {n : Nat} (ha : Accepted c n)
include ha

/-- The first request opens all roots and takes the first. -/
theorem Accepted.first_block (fuel : Nat) :
    Sat (fun _ => True) (fun _ => True) (getEmptyBlock c fuel) (ftlInit c)
      (fun r t => r = some 0 ∧ ∃ l, Opening c c.emptyTableEntryNb l
        ∧ t.lists = { l with emptyBlockTableIndex := 1 })
      fun _ _ => True := by
  have hb := ha.block
  have hF := ha.sized.flash
  have hpos : (ftlInit c).lists.totalEmptyBlockNb ≠ 0 := by
    show ((c.blockNb * c.flashNb : Nat) : Int) ≠ 0
    have := Nat.mul_pos hb hF
    omega
  have hroot := (opening_init (c := c)).rest 0 (Nat.le_refl 0)
    (Nat.mul_pos hF ha.planes_pos)
  have hfirst := ha.first_head hF
  unfold getEmptyBlock
  refine Sat.get_bind ?_
  rw [if_neg hpos]
  cases fuel with
  | zero => exact Sat.fault trivial
  | succ fuel =>
      unfold getEmptyBlockLoop
      refine Sat.get_bind ?_
      have hidx : (ftlInit c).lists.emptyBlockTableIndex = 0 := rfl
      have hhead : ((ftlInit c).lists.emptyBlockList 0).head = none :=
        congrArg EmptyRoot.head hroot
      have hne : ((ftlInit c).lists.emptyBlockList 0).emptyHead ≠ [] := by
        intro h0
        rw [← congrArg EmptyRoot.emptyHead hroot] at hfirst
        rw [show (initBlockLists c).emptyBlockList 0
          = (ftlInit c).lists.emptyBlockList 0 from rfl, h0] at hfirst
        cases hfirst
      simp only [hidx, hhead]
      rw [if_neg hpos, if_neg hne, if_pos trivial]
      refine Sat.bind (Sat.each_range
        (fun k (t : Ssd) => Opening c k t.lists)
        (fun k t hk ht => ht.step hk) opening_init) fun _ t ht => ?_
      refine Sat.modify_bind (Sat.pure ⟨rfl, t.lists, ht, ?_⟩)
      show ({ t.lists with emptyBlockTableIndex :=
        t.lists.emptyBlockTableIndex + 1 } : BlockLists) = _
      rw [ht.index]

/-- The first call, for every geometry. -/
theorem Accepted.first_page (fuel : Nat) :
    Sat (fun _ => True) (fun _ => True) (getNewPage c fuel) (ftlInit c)
      (fun _ t => FirstPage c t.lists) fun _ _ => True := by
  have hN : 0 < c.emptyTableEntryNb :=
    Nat.mul_pos ha.sized.flash ha.planes_pos
  unfold getNewPage
  refine Sat.bind (ha.first_block fuel) ?_
  rintro _ t ⟨rfl, l, hl, hlists⟩
  refine Sat.get_bind ?_
  have hhead : (t.lists.emptyBlockList 0).head = some ⟨0, 0, 0⟩ := by
    rw [hlists, ← ha.first_head ha.sized.flash]
    exact hl.heads 0 hN
  have hdeb : t.lists.sbDeb.planeNb = c.planesPerFlash * c.flashNb - 1 := by
    rw [hlists]
    exact congrArg SbDebug.planeNb hl.deb
  simp only [hhead, Nat.zero_mul, Nat.zero_mod, Nat.add_zero, if_true,
    Nat.zero_div]
  rw [if_neg (not_not_intro hdeb)]
  refine Sat.modify_bind ?_
  unfold handOut
  refine Sat.get_bind (Sat.emit_bind fun _ => ⟨trivial, ?_⟩)
  refine Sat.modify_bind (Sat.modify_bind (Sat.pure ?_))
  refine ⟨fun r hr hN => ?_, ?_, ?_, rfl⟩
  · show (t.lists.emptyBlockList.set 0 _ r).head = _
    rw [Table.get_set, if_neg (by omega), hlists]
    exact hl.heads r hN
  · show t.lists.totalEmptyBlockNb = _
    rw [hlists]
    exact hl.totalEmpty
  · show t.lists.emptyBlockTableIndex = _
    rw [hlists]

/-- The next root's first block is that of the next flash. -/
theorem Accepted.second_head {s : Ssd} (h : FirstPage c s.lists)
    (hF : 2 ≤ c.flashNb) (hP : 2 ≤ c.planesPerFlash) :
    (s.lists.emptyBlockList 1).head = some ⟨1, 0, 0⟩ := by
  rw [← ha.first_head (by omega)]
  refine h.heads 1 Nat.one_pos ?_
  exact Nat.lt_of_lt_of_le (by omega) (Nat.mul_le_mul hF hP)

theorem Accepted.second_block {s : Ssd} (h : FirstPage c s.lists)
    (hF : 2 ≤ c.flashNb) (hP : 2 ≤ c.planesPerFlash) (fuel : Nat) :
    Sat (fun _ => True) (fun _ => True) (getEmptyBlock c fuel) s
      (fun r t => r = some 1
        ∧ t.lists.emptyBlockList = s.lists.emptyBlockList
        ∧ t.lists.sbDeb = s.lists.sbDeb) fun _ _ => True := by
  have hpos : s.lists.totalEmptyBlockNb ≠ 0 := by
    rw [h.totalEmpty]
    have := Nat.mul_pos ha.block ha.sized.flash
    show ((c.blockNb * c.flashNb : Nat) : Int) ≠ 0
    omega
  have hpage := ha.page
  unfold getEmptyBlock
  refine Sat.get_bind ?_
  rw [if_neg hpos]
  cases fuel with
  | zero => exact Sat.fault trivial
  | succ fuel =>
      unfold getEmptyBlockLoop
      refine Sat.get_bind ?_
      simp only [h.index, ha.second_head h hF hP]
      rw [if_neg hpos, if_neg (by omega)]
      exact Sat.modify_bind (Sat.pure ⟨rfl, rfl, rfl⟩)

/-- Flash 1 comes second, and its plane is not the next one. -/
theorem Accepted.second_page {s : Ssd} (h : FirstPage c s.lists)
    (hF : 2 ≤ c.flashNb) (hP : 2 ≤ c.planesPerFlash) (fuel : Nat) :
    Sat (fun _ => True) (fun _ => True) (getNewPage c fuel) s
      (fun r _ => r = none) fun _ _ => True := by
  have hhead := ha.second_head h hF hP
  unfold getNewPage
  refine Sat.bind (ha.second_block h hF hP fuel) ?_
  rintro _ t ⟨rfl, ht, hd⟩
  refine Sat.get_bind ?_
  rw [← ht] at hhead
  have hplane : 1 * c.planesPerFlash + 0 % c.planesPerFlash
      = c.planesPerFlash := by simp
  simp only [hhead, hplane, hd, h.deb, Nat.zero_div]
  rw [if_neg (by omega), if_neg (by simp), if_pos (by omega)]
  exact Sat.emit_bind fun _ => ⟨trivial, Sat.pure rfl⟩

end Start

/-- The allocator serves an accepted geometry exactly when there is one
flash or one plane per flash, and not both. -/
theorem allocator_serves_iff {c : Conf} {n : Nat} (ha : Accepted c n)
    {fuel : Nat} (hf : c.emptyTableEntryNb < fuel) :
    AllocatesAll c fuel
      ↔ ((c.flashNb = 1 ∧ c.planesPerFlash ≠ 1)
        ∨ (c.flashNb ≠ 1 ∧ c.planesPerFlash = 1)) := by
  have hF := ha.sized.flash
  have hP := ha.planes_pos
  have hB := Nat.le_of_dvd ha.block ha.blocks
  have hpage := ha.page
  have hfirst := Sat.ends (ha.first_page fuel)
  constructor
  · intro h
    by_contra hno
    have hcases : (c.flashNb = 1 ∧ c.planesPerFlash = 1)
        ∨ (2 ≤ c.flashNb ∧ 2 ≤ c.planesPerFlash) := by omega
    have htotal : c.planesPerFlash * c.flashNb ≤ c.pageMappingEntryNb :=
      Nat.mul_le_mul_right _ (Nat.le_trans hB
        (Nat.le_mul_of_pos_left _ hpage))
    obtain ⟨q, hq, -⟩ := h.success 0
      (Nat.lt_of_lt_of_le (Nat.mul_pos hP hF) htotal)
    have hq' : (getNewPage c fuel (ftlInit c)).res = .ok (some q) := hq
    rw [hq'] at hfirst
    rcases hcases with ⟨h₁, h₂⟩ | ⟨h₁, h₂⟩
    · -- one root alone: the index stands at the table's end
      have hidx := h.index 0
        (Nat.lt_of_lt_of_le (Nat.mul_pos hP hF) htotal)
      have hone : (nthNewPage c fuel 0).st.lists.emptyBlockTableIndex = 1 :=
        hfirst.index
      rw [hone, Conf.emptyTableEntryNb, h₁, h₂] at hidx
      exact absurd hidx (by decide)
    · have hfour := Nat.mul_le_mul h₂ h₁
      obtain ⟨q₁, hq₁, -⟩ := h.success 1 (by omega)
      have hsecond := Sat.ends (ha.second_page hfirst h₁ h₂ fuel)
      have hq₁' : (getNewPage c fuel
          (getNewPage c fuel (ftlInit c)).st).res = .ok (some q₁) := hq₁
      rw [hq₁'] at hsecond
      cases hsecond
  · intro h
    refine ha.allocatesAll (by omega) ?_ hf
    rcases h with ⟨h₁, h₂⟩ | ⟨h₁, h₂⟩
    · rw [Conf.emptyTableEntryNb, h₁]
      omega
    · rw [Conf.emptyTableEntryNb, h₂]
      omega

/-- One flash of two planes. -/
def twoPlanes : Conf :=
  { initSsdConfig 1 4 2 1 with planesPerFlash := 2 }

/-- Two planes a flash. -/
theorem allocator_serves_two_planes :
    Accepted twoPlanes 1 ∧ AllocatesAll twoPlanes 3 := by
  have ha : Accepted twoPlanes 1 := by constructor <;> decide
  exact ⟨ha, (allocator_serves_iff ha (by decide)).2
    (.inl ⟨rfl, by decide⟩)⟩

/-- Two flashes of two planes each. -/
def fourPlanes : Conf :=
  { initSsdConfig 2 2 1 1 with planesPerFlash := 2 }

/-- One flash of one plane. -/
def oneRoot : Conf := initSsdConfig 1 2 2 1

/-- Two flashes of two planes: the second page is refused. One flash of
one plane: the first page leaves the index at the table's end. -/
theorem second_page_refused :
    Accepted fourPlanes 1 ∧ Accepted oneRoot 1
      ∧ (nthNewPage fourPlanes 5 0).res.toOption = some (some 0)
      ∧ (nthNewPage fourPlanes 5 1).res.toOption = some none
      ∧ ¬ AllocatesAll fourPlanes 5
      ∧ (nthNewPage oneRoot 2 0).st.lists.emptyBlockTableIndex
        = oneRoot.emptyTableEntryNb
      ∧ ¬ AllocatesAll oneRoot 2 := by
  have hnone : (nthNewPage fourPlanes 5 1).res.toOption = some none := by
    decide +kernel
  have hend : (nthNewPage oneRoot 2 0).st.lists.emptyBlockTableIndex
      = oneRoot.emptyTableEntryNb := by
    decide +kernel
  refine ⟨by constructor <;> decide, by constructor <;> decide,
    by decide +kernel, hnone, fun h => ?_, hend, fun h => ?_⟩
  · obtain ⟨q, hq, -⟩ := h.success 1 (by decide)
    rw [hq] at hnone
    cases hnone
  · exact absurd hend (Nat.ne_of_lt (h.index 0 (by decide)))

end FemuRemap
