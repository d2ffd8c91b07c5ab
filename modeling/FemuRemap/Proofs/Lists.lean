/-
The block lists are a pool of superblocks.

# The refinement

`Rep c p i l` reads the lists `l` as a pool `p` whose blocks are the
superblocks and whose positions are their pages in allocation order
(`pageAt`): every root holds the same block numbers in the same order,
the cursor of an active head counts the pages its flash has given out,
and `i` is the root to be asked next. `Lists c p l` adds what holds
between two allocations: the next root, and the plane and block that
`SB_DEBUG` remembers.

# Operations

`GET_EMPTY_BLOCK` with the rest of `GET_NEW_PAGE` is `Pool.next`,
`SELECT_VICTIM_SUPERBLOCK` is `Pool.eject` and the erase loop is
`Pool.release`. None of them depends on what the pages hold.
-/
import FemuRemap.Lib.Pool
import FemuRemap.Proofs.Geometry

namespace FemuRemap

open Lib

-- ============================================================ cursor

/-- Pages of flash `f` among the first `k` of a superblock. -/
def cursor (c : Conf) (k f : Nat) : Nat :=
  k / c.flashNb + if f < k % c.flashNb then 1 else 0

variable {c : Conf}

theorem cursor_zero (f : Nat) : cursor c 0 f = 0 := by
  simp [cursor]

theorem cursor_self (k : Nat) :
    cursor c k (k % c.flashNb) = k / c.flashNb := by
  simp [cursor]

/-- Allocation goes round the flashes. -/
theorem Geo.cursor_succ (g : Geo c) (k : Nat) {f : Nat}
    (hf : f < c.flashNb) :
    cursor c (k + 1) f
      = if f = k % c.flashNb then cursor c k f + 1 else cursor c k f := by
  have hlt := g.pos_mod_lt k
  unfold cursor
  have hstep : (k + 1) % c.flashNb = (k % c.flashNb + 1) % c.flashNb := by
    rw [Nat.add_mod, Nat.mod_eq_of_lt (a := 1) (by have := g.flash; omega)]
  by_cases hk : k % c.flashNb + 1 = c.flashNb
  · -- the round is over: every flash is one page further
    have hmod : (k + 1) % c.flashNb = 0 := by
      rw [hstep, hk, Nat.mod_self]
    have hdiv : (k + 1) / c.flashNb = k / c.flashNb + 1 := by
      rw [Nat.succ_div, if_pos (Nat.dvd_iff_mod_eq_zero.2 hmod)]
    rw [hdiv, hmod]
    split_ifs <;> omega
  · have hmod : (k + 1) % c.flashNb = k % c.flashNb + 1 := by
      rw [hstep, Nat.mod_eq_of_lt (by omega)]
    have hdiv : (k + 1) / c.flashNb = k / c.flashNb := by
      rw [Nat.succ_div, if_neg, Nat.add_zero]
      intro hd
      have := (Nat.dvd_iff_mod_eq_zero).1 hd
      omega
    rw [hdiv, hmod]
    split_ifs <;> omega

/-- The cursors of a full superblock. -/
theorem Geo.cursor_sbPages (g : Geo c) (f : Nat) :
    cursor c c.sbPages f = c.pageNb := by
  unfold cursor Conf.sbPages
  rw [Nat.mul_div_cancel _ g.flash_pos, Nat.mul_mod_left,
    if_neg (Nat.not_lt_zero f), Nat.add_zero]

-- ======================================================== refinement

variable (c)

/-- The empty-block root of flash `f`. -/
def rootOf (p : Pool) (f : Nat) : EmptyRoot where
  emptyHead := p.empty.map fun b => ⟨f, b, 0⟩
  head := p.active.map fun a => ⟨f, a.1, cursor c a.2 f⟩
  emptyBlockNb := p.empty.length

/-- The victim root of flash `f`. -/
def victimRootOf (p : Pool) (f : Nat) : VictimRoot where
  entries := p.full.map fun b => ⟨f, b⟩
  victimBlockNb := p.full.length

/-- The lists hold pool `p`, and root `i` is asked next. -/
structure Rep (p : Pool) (i : Nat) (l : BlockLists) : Prop where
  roots : ∀ f, f < c.flashNb → l.emptyBlockList f = rootOf c p f
  victims : ∀ f, f < c.flashNb → l.victimBlockList f = victimRootOf p f
  totalEmpty : l.totalEmptyBlockNb
    = (c.flashNb * (p.empty.length + p.current.length) : Nat)
  totalVictim : l.totalVictimBlockNb = (c.flashNb * p.full.length : Nat)
  index : l.emptyBlockTableIndex = i

/-- The root to be asked next. -/
def turn (p : Pool) : Nat :=
  match p.active with
  | none => 0
  | some (_, k) => k % c.flashNb

/-- The plane `SB_DEBUG` remembers: that of the last page. -/
def lastPlane (p : Pool) : Nat :=
  match p.active with
  | none => c.flashNb - 1
  | some (_, k) => (k - 1) % c.flashNb

/-- The lists between two allocations. -/
structure Lists (p : Pool) (l : BlockLists) : Prop
    extends Rep c p (turn c p) l where
  plane : l.sbDeb.planeNb = lastPlane c p
  block : ∀ b k, p.active = some (b, k) → l.sbDeb.blockNb = b

variable {c}

/-- A superblock pool: one block number per superblock. -/
abbrev PoolOk (c : Conf) (out : List Nat) (p : Pool) : Prop :=
  p.Ok c.sbPages c.blockNb out

theorem PoolOk.length_le {p : Pool} {out : List Nat}
    (h : PoolOk c out p) :
    out.length + p.empty.length + p.current.length + p.full.length
      = c.blockNb := by
  have := h.places.length_eq
  simp only [Pool.blocks, List.length_append, List.length_range] at this
  omega

theorem Geo.lists_init (g : Geo c) :
    Lists c (.init c.blockNb) (initBlockLists c) where
  roots := by
    intro f hf
    simp only [initBlockLists, Table.get_ofFn, g.emptyTableEntryNb, hf,
      if_true, rootOf, initEmptyRoot, Pool.init,
      Nat.div_eq_of_lt hf, Nat.mod_eq_of_lt hf, g.planes,
      Conf.eachEmptyTableEntryNb]
    simp [Nat.mod_one]
  victims := by
    intro f _
    simp [initBlockLists, victimRootOf, Pool.init]
  totalEmpty := by
    simp [initBlockLists, Pool.init, Pool.current,
      Conf.blockMappingEntryNb, Nat.mul_comm]
  totalVictim := by simp [initBlockLists, Pool.init]
  index := by simp [initBlockLists, turn, Pool.init]
  plane := by
    simp [initBlockLists, lastPlane, Pool.init, g.planes]
  block := by simp [Pool.init]

-- ======================================================== allocation

section Allocation

variable {rely guar : Event → Prop} {E : Fault → Ssd → Prop}
  {p : Pool} {i : Nat} {s : Ssd}

/-- The activation loop: every root takes its first empty block. -/
theorem Geo.activate_sat (g : Geo c) (h : Rep c p i s.lists)
    {b : Nat} {es : List Nat} (he : p.empty = b :: es)
    (hlen : p.empty.length < 2 ^ 32) (ha : p.active = none) :
    Sat rely guar
      (Prog.each activateRoot (List.range c.emptyTableEntryNb)) s
      (fun _ s' => ∃ l, s' = { s with lists := l }
        ∧ l.sbDeb = s.lists.sbDeb ∧ Rep c ⟨es, some (b, 0), p.full⟩ i l)
      E := by
  rw [g.emptyTableEntryNb]
  -- root by root, as the source opens them
  refine Sat.mono (Sat.each_range (fun k s' => ∃ t,
    Table.Upto (rootOf c ⟨es, some (b, 0), p.full⟩) k
      s.lists.emptyBlockList t
    ∧ s' = { s with lists := { s.lists with emptyBlockList := t } })
    ?_ ⟨_, Table.Upto.zero _ _, rfl⟩) ?_ fun _ _ h => h
  · rintro f s' hf ⟨t, ht, rfl⟩
    have hroot : t f = rootOf c p f := by
      rw [ht.get_ge (Nat.le_refl f), h.roots f hf]
    have hnew : (⟨es.map fun b => ⟨f, b, 0⟩, some ⟨f, b, 0⟩,
        u32 ((t f).emptyBlockNb - 1)⟩ : EmptyRoot)
        = rootOf c ⟨es, some (b, 0), p.full⟩ f := by
      have hu : u32 ((t f).emptyBlockNb - 1) = es.length := by
        rw [he, List.length_cons] at hlen
        refine u32_of_lt ?_ (by omega)
        simp [hroot, rootOf, he]
      simp [rootOf, hu, cursor_zero]
    unfold activateRoot
    refine Sat.get_bind ?_
    have hh : (t f).emptyHead
        = ⟨f, b, 0⟩ :: es.map fun b => ⟨f, b, 0⟩ := by
      simp [hroot, rootOf, he]
    simp only [hh]
    refine Sat.modify ⟨_, ht.set, ?_⟩
    rw [hnew]
  · rintro _ s' ⟨t, ht, rfl⟩
    refine ⟨_, rfl, rfl, ?_⟩
    constructor
    · intro f hf
      exact ht.get_lt hf
    · exact h.victims
    · simp [h.totalEmpty, Pool.current, he, ha]
    · exact h.totalVictim
    · exact h.index

/-- `INSERT_VICTIM_BLOCK` into the root of flash `f`. -/
theorem Geo.insertVictimBlock_eq (g : Geo c) {l : BlockLists} {f : Nat}
    (hv : l.victimBlockList f = victimRootOf p f)
    (hlen : p.full.length + 1 < 2 ^ 32) (b k : Nat) :
    insertVictimBlock c ⟨f, b, k⟩ l
      = { l with
          victimBlockList := l.victimBlockList.set f
            (victimRootOf { p with full := p.full ++ [b] } f)
          totalVictimBlockNb := l.totalVictimBlockNb + 1 } := by
  have hu : u32 ((p.full.length : Nat) + 1) = p.full.length + 1 :=
    u32_of_lt (by push_cast; rfl) hlen
  simp only [insertVictimBlock, g.rootIndex, hv]
  congr 2
  simp only [victimRootOf, hu]
  split
  · next h0 =>
      have : p.full = [] := List.length_eq_zero_iff.1 h0
      simp [this]
  · simp

/-- The retirement loop: every root's full head joins the victims. -/
theorem Geo.retire_sat (g : Geo c) (h : Rep c p i s.lists)
    {b k : Nat} (ha : p.active = some (b, k))
    (hlen : p.full.length + 1 < 2 ^ 32) :
    Sat rely guar
      (Prog.each (retireRoot c) (List.range c.emptyTableEntryNb)) s
      (fun _ s' => ∃ l, s' = { s with lists := l }
        ∧ l.sbDeb = s.lists.sbDeb ∧ Rep c p.retire i l) E := by
  have hcur : p.current = [b] := by simp [Pool.current, ha]
  rw [g.emptyTableEntryNb]
  -- root by root: those done are retired, the others as they were, and the
  -- totals have moved by as many
  refine Sat.mono (Sat.each_range (fun n s' => ∃ t v,
    Table.Upto (rootOf c p.retire) n s.lists.emptyBlockList t
    ∧ Table.Upto (victimRootOf p.retire) n s.lists.victimBlockList v
    ∧ s' = { s with lists := { s.lists with
        emptyBlockList := t
        victimBlockList := v
        totalEmptyBlockNb := s.lists.totalEmptyBlockNb - n
        totalVictimBlockNb := s.lists.totalVictimBlockNb + n } })
    ?_ ⟨_, _, Table.Upto.zero _ _, Table.Upto.zero _ _, by simp⟩)
    ?_ fun _ _ h => h
  · rintro f s' hf ⟨t, v, ht, hv, rfl⟩
    have hroot : t f = rootOf c p f := by
      rw [ht.get_ge (Nat.le_refl f), h.roots f hf]
    have hvict : v f = victimRootOf p f := by
      rw [hv.get_ge (Nat.le_refl f), h.victims f hf]
    unfold retireRoot
    refine Sat.get_bind ?_
    have hh : (t f).head = some ⟨f, b, cursor c k f⟩ := by
      simp [hroot, rootOf, ha]
    simp only [hh]
    refine Sat.modify ⟨_, _, ht.set, hv.set, ?_⟩
    simp only
    rw [g.insertVictimBlock_eq hvict hlen]
    have hnew : ({ t f with head := none } : EmptyRoot)
        = rootOf c p.retire f := by
      simp [hroot, rootOf, Pool.retire]
    have hfull : victimRootOf { p with full := p.full ++ [b] } f
        = victimRootOf p.retire f := by
      simp [victimRootOf, Pool.retire, hcur]
    simp only [hnew, hfull]
    congr 2 <;> push_cast <;> omega
  · rintro _ s' ⟨t, v, ht, hv, rfl⟩
    refine ⟨_, rfl, rfl, ?_⟩
    constructor
    · exact fun f hf => ht.get_lt hf
    · exact fun f hf => hv.get_lt hf
    · simp only [h.totalEmpty, hcur]
      simp [Pool.current, Pool.retire, Nat.mul_add]
    · simp [h.totalVictim, Pool.retire, hcur, Nat.mul_add]
    · exact h.index

/-- `GET_EMPTY_BLOCK` against `Pool.next`: the root of the position that
is to be given out, its cursor not yet moved; or `NULL` when there is
none. -/
def GotBlock (c : Conf) (p : Pool) (s : Ssd) : Option Nat → Ssd → Prop
  | none, _ => p.next c.sbPages = none
  | some r, s' => ∃ b k p' l, p.next c.sbPages = some (b, k, p')
      ∧ r = k % c.flashNb ∧ s' = { s with lists := l }
      ∧ l.sbDeb = s.lists.sbDeb
      ∧ Rep c ⟨p'.empty, some (b, k), p'.full⟩ ((k + 1) % c.flashNb) l

/-- What `next` gives out does not depend on when the full block was
retired. -/
theorem GotBlock.of_retire {b k : Nat} (ha : p.active = some (b, k))
    (hk : c.sbPages ≤ k) {l : BlockLists} (hl : l.sbDeb = s.lists.sbDeb)
    {r : Option Nat} {s' : Ssd}
    (h : GotBlock c p.retire { s with lists := l } r s') :
    GotBlock c p s r s' := by
  have hn := Pool.next_retire ha hk
  cases r with
  | none => exact hn.trans h
  | some r =>
      obtain ⟨b', k', p', l', h₁, h₂, h₃, h₄, h₅⟩ := h
      exact ⟨b', k', p', l', hn.trans h₁, h₂, h₃, h₄.trans hl, h₅⟩

/-- Advancing the cursor goes round the roots. -/
theorem Geo.advanceIndex_eq (g : Geo c) (l : BlockLists) {k : Nat}
    (h : l.emptyBlockTableIndex = k % c.flashNb) :
    advanceIndex c l
      = { l with emptyBlockTableIndex := (k + 1) % c.flashNb } := by
  have hlt := g.pos_mod_lt k
  have hn := g.flash
  unfold advanceIndex
  rw [g.emptyTableEntryNb, h, Nat.add_mod k 1,
    Nat.mod_eq_of_lt (a := 1) (by omega)]
  congr 1
  split
  · next he => rw [he, Nat.mod_self]
  · next he => exact (Nat.mod_eq_of_lt (by omega)).symm

/-- The loop without an active superblock: the first empty one is
activated. -/
theorem Geo.loop_open (g : Geo c) (h : Rep c p 0 s.lists)
    (ha : p.active = none) (hlen : p.empty.length < 2 ^ 32)
    (hg : p.next c.sbPages = none → guar (.error .noEmptyBlock))
    (fuel : Nat) :
    Sat rely guar (getEmptyBlockLoop c fuel) s (GotBlock c p s)
      fun e _ => e = .outOfFuel ∧ fuel = 0 := by
  cases fuel with
  | zero => exact Sat.fault ⟨rfl, rfl⟩
  | succ fuel =>
      have hroot := h.roots 0 g.flash_pos
      unfold getEmptyBlockLoop
      refine Sat.get_bind ?_
      simp only [h.totalEmpty, h.index, hroot]
      -- nothing to open is the one place where the loop gives up
      cases he : p.empty with
      | nil =>
          have hnone : p.next c.sbPages = none := by
            simp [Pool.next, Pool.activate, ha, he]
          rw [if_pos (by simp [Pool.current, ha])]
          exact Sat.emit_bind fun _ => ⟨hg hnone, Sat.pure hnone⟩
      | cons b es =>
          have hpos := g.flash_pos
          rw [if_neg (by simp; omega)]
          simp only [rootOf, ha, he, Option.map_none, List.map_cons,
            reduceCtorEq, if_false, if_true]
          refine Sat.bind (g.activate_sat h he hlen ha) ?_
          rintro _ _ ⟨l, rfl, hd, hl⟩
          refine Sat.modify_bind (Sat.pure ?_)
          refine ⟨b, 0, ⟨es, some (b, 1), p.full⟩, _, ?_, ?_, rfl, hd,
            ?_⟩
          · simp [Pool.next, Pool.activate, ha, he]
          · rw [Nat.zero_mod]
          · have hn := g.flash
            refine { hl with index := ?_ }
            simp only [hl.index, Nat.zero_add]
            rw [Nat.mod_eq_of_lt (by omega)]

/-- The loop with room in the active superblock. -/
theorem Geo.loop_ready (g : Geo c) {b k : Nat}
    (h : Rep c p (k % c.flashNb) s.lists)
    (ha : p.active = some (b, k)) (hk : k < c.sbPages) (fuel : Nat) :
    Sat rely guar (getEmptyBlockLoop c fuel) s (GotBlock c p s)
      fun e _ => e = .outOfFuel ∧ fuel = 0 := by
  cases fuel with
  | zero => exact Sat.fault ⟨rfl, rfl⟩
  | succ fuel =>
      have hroot := h.roots _ (g.pos_mod_lt k)
      have hpos := g.flash_pos
      unfold getEmptyBlockLoop
      refine Sat.get_bind ?_
      simp only [h.totalEmpty, h.index, hroot]
      rw [if_neg (by simp [Pool.current, ha]; omega)]
      have hlt := pos_div_lt hk
      simp only [rootOf, ha, Option.map_some, cursor_self]
      -- the root at the cursor has a page left, so the first round ends it
      rw [if_neg (by omega)]
      refine Sat.modify_bind (Sat.pure ?_)
      refine ⟨b, k, ⟨p.empty, some (b, k + 1), p.full⟩,
        advanceIndex c s.lists, ?_, rfl, rfl, ?_, ?_⟩
      · simp [Pool.next, ha, hk]
      · rw [g.advanceIndex_eq _ h.index]
      · rw [g.advanceIndex_eq _ h.index]
        exact
          { roots := by simpa [rootOf, ha] using h.roots
            victims := h.victims
            totalEmpty := by simpa [Pool.current, ha] using h.totalEmpty
            totalVictim := h.totalVictim
            index := rfl }

/-- The loop over a full active superblock: the cursor is moved to the
last root, whose turn retires the superblock. -/
theorem Geo.loop_skip (g : Geo c) {b : Nat}
    (hi : i < c.flashNb) (h : Rep c p i s.lists)
    (ha : p.active = some (b, c.sbPages))
    (hlen : p.empty.length < 2 ^ 32) (hfull : p.full.length + 1 < 2 ^ 32)
    (hg : p.next c.sbPages = none → guar (.error .noEmptyBlock))
    (fuel : Nat) :
    Sat rely guar (getEmptyBlockLoop c fuel) s (GotBlock c p s)
      fun e _ => e = .outOfFuel ∧ fuel + i ≤ c.flashNb := by
  induction fuel generalizing i s with
  | zero => exact Sat.fault ⟨rfl, by omega⟩
  | succ fuel ih =>
      have hroot := h.roots i hi
      have hpos := g.flash_pos
      unfold getEmptyBlockLoop
      refine Sat.get_bind ?_
      simp only [h.totalEmpty, h.index, hroot]
      rw [if_neg (by simp [Pool.current, ha]; omega)]
      simp only [rootOf, ha, Option.map_some, g.cursor_sbPages, if_true]
      -- every root but the last is only passed over; at the last one all of
      -- them are retired together
      by_cases hlast : i = c.flashNb - 1
      · rw [if_pos ⟨hlast, by simp [g.planes, Nat.mod_one]⟩]
        refine Sat.bind (g.retire_sat h ha hfull) ?_
        rintro _ _ ⟨l, rfl, hd, hl⟩
        rw [g.emptyTableEntryNb, printErrorIf,
          if_neg (by rw [h.index]; omega)]
        refine Sat.pure_bind (Sat.modify_bind ?_)
        have hn : p.next c.sbPages = p.retire.next c.sbPages :=
          Pool.next_retire ha (Nat.le_refl _)
        refine Sat.mono (g.loop_open (p := p.retire)
          { hl with index := rfl } rfl hlen (fun h0 => hg (hn.trans h0))
          fuel) ?_ ?_
        · intro r s' hr
          exact hr.of_retire ha (Nat.le_refl _) hd
        · rintro e _ ⟨rfl, rfl⟩
          exact ⟨rfl, by omega⟩
      · rw [if_neg (fun hc => hlast hc.1), g.emptyTableEntryNb,
          printErrorIf, if_neg (by rw [h.index]; omega)]
        refine Sat.pure_bind (Sat.modify_bind ?_)
        have hadv : Rep c p (i + 1) (advanceIndex c s.lists) := by
          refine { h with index := ?_ }
          unfold advanceIndex
          rw [h.index, g.emptyTableEntryNb, if_neg (by omega)]
        refine Sat.mono (ih (by omega) hadv) ?_ ?_
        · intro r s' hr
          cases r with
          | none => exact hr
          | some r => exact hr
        · rintro e _ ⟨rfl, hle⟩
          exact ⟨rfl, by omega⟩

/-- `GET_EMPTY_BLOCK` is `Pool.next`. More fuel than there are flashes
is enough. -/
theorem Geo.getEmptyBlock_sat (g : Geo c) {out : List Nat}
    (h : Rep c p (turn c p) s.lists) (hp : PoolOk c out p)
    (hg : p.next c.sbPages = none → guar (.error .noEmptyBlock))
    (fuel : Nat) :
    Sat rely guar (getEmptyBlock c fuel) s (GotBlock c p s)
      fun e _ => e = .outOfFuel ∧ fuel ≤ c.flashNb := by
  have hlen := PoolOk.length_le hp
  have hblk := g.sized.blockNb_le
  have htot := g.total
  have hpos := g.flash_pos
  unfold getEmptyBlock
  refine Sat.get_bind ?_
  cases ha : p.active with
  | none =>
      simp only [turn, ha] at h
      split
      · next h0 =>
          rw [h.totalEmpty] at h0
          have hnil : p.empty = [] := by
            apply List.length_eq_zero_iff.1
            simp only [Pool.current, ha, Option.map_none,
              Option.toList_none, List.length_nil, Nat.add_zero,
              Nat.cast_eq_zero, Nat.mul_eq_zero] at h0
            omega
          have hnone : p.next c.sbPages = none := by
            simp [Pool.next, Pool.activate, ha, hnil]
          exact Sat.emit_bind fun _ => ⟨hg hnone, Sat.pure hnone⟩
      · refine Sat.mono (g.loop_open h ha (by omega) hg fuel)
          (fun _ _ hr => hr) ?_
        rintro e _ ⟨rfl, rfl⟩
        exact ⟨rfl, by omega⟩
  | some a =>
      obtain ⟨b, k⟩ := a
      have hk := hp.room b k ha
      have hcur : p.current.length = 1 := by simp [Pool.current, ha]
      simp only [turn, ha] at h
      rw [if_neg (by rw [h.totalEmpty, hcur]; simp; omega)]
      -- the active superblock has a page left, or the loop goes round all
      -- flashes before it opens another
      rcases Nat.lt_or_ge k c.sbPages with hlt | hge
      · refine Sat.mono (g.loop_ready h ha hlt fuel)
          (fun _ _ hr => hr) ?_
        rintro e _ ⟨rfl, rfl⟩
        exact ⟨rfl, by omega⟩
      · obtain rfl : k = c.sbPages := Nat.le_antisymm hk.2 hge
        have h0 : c.sbPages % c.flashNb = 0 := Nat.mul_mod_left _ _
        rw [h0] at h
        refine Sat.mono (g.loop_skip hpos h ha (by omega) (by omega) hg
          fuel) (fun _ _ hr => hr) ?_
        rintro e _ ⟨rfl, hle⟩
        exact ⟨rfl, by omega⟩

/-- Page `q` is handed out: the lists move on to `l`, and the page
joins those handed out from its block. -/
def takePage (c : Conf) (q : Nat) (l : BlockLists) (s : Ssd) : Ssd :=
  { s with
    lists := l
    handed := s.handed.set (q / c.pageNb)
      (s.handed (q / c.pageNb) ++ [q % c.pageNb]) }

/-- `GET_NEW_PAGE` against `Pool.next`. -/
def NewPage (c : Conf) (p : Pool) (s : Ssd) (q : Nat) (p' : Pool)
    (s' : Ssd) : Prop :=
  ∃ b k l, p.next c.sbPages = some (b, k, p') ∧ q = pageAt c b k
    ∧ s' = takePage c q l s ∧ Lists c p' l

/-- The event of a page handed out in state `s`. -/
def allocEvent (c : Conf) (s : Ssd) (q : Nat) : Event :=
  .alloc q (s.valid c q) (s.inverseMappingTable q).lpns
    (s.handed (q / c.pageNb))

/-- After the root `k % FLASH_NB` moved its cursor, the roots hold one
more page given out. -/
theorem Geo.roots_handOut (g : Geo c) {es fs : List Nat} {b k : Nat}
    {t : Table EmptyRoot}
    (h : ∀ f, f < c.flashNb → t f = rootOf c ⟨es, some (b, k), fs⟩ f)
    {f : Nat} (hf : f < c.flashNb) :
    t.set (k % c.flashNb)
        { t (k % c.flashNb) with
          head := some ⟨k % c.flashNb, b, k / c.flashNb + 1⟩ } f
      = rootOf c ⟨es, some (b, k + 1), fs⟩ f := by
  rw [Table.get_set]
  split
  · next he =>
      rw [h _ (g.pos_mod_lt k), he]
      simp [rootOf, g.cursor_succ k (g.pos_mod_lt k), cursor_self]
  · next he =>
      rw [h f hf]
      simp [rootOf, g.cursor_succ k hf, he]

/-- The end of `GET_NEW_PAGE`. -/
theorem Geo.handOut_sat (g : Geo c) {p' : Pool} {b k : Nat}
    (hb : b < c.blockNb) (hk : k < c.sbPages)
    (hp' : p'.active = some (b, k + 1))
    (h : Rep c ⟨p'.empty, some (b, k), p'.full⟩ ((k + 1) % c.flashNb)
      s.lists)
    (hdeb : s.lists.sbDeb = ⟨k % c.flashNb, b⟩)
    (hg : guar (allocEvent c s (pageAt c b k))) :
    Sat rely guar
      (handOut c (k % c.flashNb) ⟨k % c.flashNb, b, k / c.flashNb⟩) s
      (fun r s' => r = some (pageAt c b k)
        ∧ ∃ l, s' = takePage c (pageAt c b k) l s ∧ Lists c p' l) E := by
  have hf := g.pos_mod_lt k
  have hpg := pos_div_lt hk
  -- no cast of the source cuts the page number
  have hppn : encodePpn c (k % c.flashNb) b (k / c.flashNb)
      = pageAt c b k := g.sized.encodePpn_eq hf hb hpg
  have hidx : blockIndex c (k % c.flashNb) b
      = pageAt c b k / c.pageNb := by
    rw [g.sized.blockIndex_eq hf hb, pageAt, ppnAt_div _ _ hpg]
  have hmod : k / c.flashNb = pageAt c b k % c.pageNb :=
    (pageOf_ppnAt (k % c.flashNb) b hpg).symm
  unfold handOut
  refine Sat.get_bind ?_
  simp only [hppn, hidx]
  refine Sat.emit_bind fun _ => ⟨?_, ?_⟩
  · rw [hmod]
    exact hg
  · refine Sat.modify_bind (Sat.modify_bind (Sat.pure ⟨rfl, ?_⟩))
    simp only
    refine ⟨_, by rw [hmod]; rfl, ?_⟩
    obtain ⟨es, a, fs⟩ := p'
    obtain rfl : a = some (b, k + 1) := hp'
    refine { toRep := ?_, plane := ?_, block := ?_ }
    · refine
        { roots := fun f hf => ?_
          victims := h.victims
          totalEmpty := by simpa [Pool.current] using h.totalEmpty
          totalVictim := h.totalVictim
          index := h.index }
      rw [← hmod]
      exact g.roots_handOut h.roots hf
    · simp [hdeb, lastPlane]
    · intro b' k' hb'
      simp only [Option.some.injEq, Prod.mk.injEq] at hb'
      rw [hdeb]
      exact hb'.1

/-- `SB_DEBUG` remembers the plane before the one whose turn it is. -/
theorem Geo.lastPlane_next (g : Geo c) {out : List Nat} {p' : Pool}
    {b k : Nat} (hp : PoolOk c out p)
    (hn : p.next c.sbPages = some (b, k, p')) :
    lastPlane c p + 1
      = if k % c.flashNb = 0 then c.flashNb else k % c.flashNb := by
  have hpos := g.flash_pos
  have hpred : ∀ m, 0 < m → (m - 1) % c.flashNb + 1
      = if m % c.flashNb = 0 then c.flashNb else m % c.flashNb := by
    intro m hm
    have h₁ := Nat.mod_add_mod (m - 1) c.flashNb 1
    rw [Nat.sub_add_cancel hm] at h₁
    have h₂ := Nat.mod_lt (m - 1) hpos
    rcases Nat.lt_or_ge ((m - 1) % c.flashNb + 1) c.flashNb with hlt | hge
    · rw [Nat.mod_eq_of_lt hlt] at h₁
      rw [if_neg (by omega)]
      exact h₁
    · have he : (m - 1) % c.flashNb + 1 = c.flashNb := by omega
      rw [he, Nat.mod_self] at h₁
      rw [if_pos h₁.symm, he]
  unfold lastPlane
  -- within a superblock the plane is the predecessor's; a new superblock
  -- starts behind a full one, or behind none at all
  rcases Pool.next_eq hn with ⟨ha, -, -⟩ | ⟨hfull, rfl, -, -, -⟩
  · simp only [ha]
    exact hpred k (hp.room b k ha).1
  · rw [Nat.zero_mod, if_pos rfl]
    cases ha : p.active with
    | none =>
        dsimp only
        omega
    | some a =>
        obtain ⟨b₀, k₀⟩ := a
        have h₁ := hp.room b₀ k₀ ha
        have h₂ := hfull b₀ k₀ ha
        obtain rfl : k₀ = c.sbPages := by omega
        have h₃ : c.sbPages % c.flashNb = 0 := Nat.mul_mod_left _ _
        have h₄ := hpred c.sbPages h₁.1
        rw [if_pos h₃] at h₄
        exact h₄

/-- The root to be asked next is that of the flash with the next page, also
when a superblock is full: its successor starts at root zero. -/
theorem turn_next {out : List Nat} {p' : Pool} {b k : Nat}
    (hp : PoolOk c out p) (hn : p.next c.sbPages = some (b, k, p')) :
    turn c p = k % c.flashNb := by
  unfold turn
  rcases Pool.next_eq hn with ⟨ha, -, -⟩ | ⟨hfull, rfl, -, -, -⟩
  · simp only [ha]
  · rw [Nat.zero_mod]
    cases ha : p.active with
    | none => rfl
    | some a =>
        obtain ⟨b₀, k₀⟩ := a
        have hroom := (hp.room b₀ k₀ ha).2
        have hcap := hfull b₀ k₀ ha
        obtain rfl : k₀ = c.sbPages := Nat.le_antisymm hroom hcap
        exact Nat.mul_mod_left _ _

/-- `GET_NEW_PAGE` is `Pool.next`: it hands out the page of the next
position, and reads through `NULL` exactly when there is none. -/
theorem Geo.getNewPage_sat (g : Geo c) {out : List Nat}
    (h : Lists c p s.lists) (hp : PoolOk c out p)
    (hg : p.next c.sbPages = none → guar (.error .noEmptyBlock))
    (hev : ∀ b k p', p.next c.sbPages = some (b, k, p') →
      guar (allocEvent c s (pageAt c b k))) (fuel : Nat) :
    Sat rely guar (getNewPage c fuel) s
      (fun r s' => ∃ q p', r = some q ∧ NewPage c p s q p' s')
      fun e _ => (e = .nullEmptyBlock ∧ p.next c.sbPages = none)
        ∨ (e = .outOfFuel ∧ fuel ≤ c.flashNb) := by
  unfold getNewPage
  refine Sat.bind (Sat.mono (g.getEmptyBlock_sat h.toRep hp hg fuel)
    (fun _ _ hr => hr) (fun e _ he => .inr he)) ?_
  rintro r s' hr
  cases r with
  | none => exact Sat.fault (.inl ⟨rfl, hr⟩)
  | some r =>
      obtain ⟨b, k, p', l, hn, rfl, rfl, hdeb, hrep⟩ := hr
      obtain ⟨hb, hk⟩ := Pool.next_lt hp g.sbPages_pos hn
      have hlast := g.lastPlane_next hp hn
      have hact : p'.active = some (b, k + 1) := by
        rcases Pool.next_eq hn with ⟨-, -, rfl⟩ | ⟨-, rfl, -, ha, -⟩
        · rfl
        · exact ha
      have hdone : ∀ l', l'.sbDeb = ⟨k % c.flashNb, b⟩ →
          Rep c ⟨p'.empty, some (b, k), p'.full⟩ ((k + 1) % c.flashNb)
            l' →
          Sat rely guar (handOut c (k % c.flashNb)
              ⟨k % c.flashNb, b, k / c.flashNb⟩) { s with lists := l' }
            (fun r s' => ∃ q p', r = some q ∧ NewPage c p s q p' s')
            fun e _ => (e = .nullEmptyBlock ∧ p.next c.sbPages = none)
              ∨ (e = .outOfFuel ∧ fuel ≤ c.flashNb) := by
        intro l' hd hl'
        refine Sat.mono (g.handOut_sat hb hk hact hl' hd
          (hev b k p' hn)) ?_ fun _ _ he => he
        rintro r s' ⟨rfl, l'', rfl, hl''⟩
        exact ⟨_, p', rfl, b, k, l'', hn, rfl, rfl, hl''⟩
      refine Sat.get_bind ?_
      have hhead : (l.emptyBlockList (k % c.flashNb)).head
          = some ⟨k % c.flashNb, b, k / c.flashNb⟩ := by
        simp [hrep.roots _ (g.pos_mod_lt k), rootOf, cursor_self]
      simp only [hhead, g.planes, Nat.mul_one, Nat.mod_one, Nat.add_zero,
        Nat.div_one, Nat.one_mul, hdeb, h.plane]
      have hlt := g.pos_mod_lt k
      by_cases h0 : k % c.flashNb = 0
      · rw [if_pos h0] at hlast
        rw [if_pos h0, if_neg (by omega)]
        exact Sat.modify_bind
          (hdone _ (by rw [h0]) { hrep with })
      · -- not the first plane, so the superblock was already active
        have ha : p.active = some (b, k) := by
          rcases Pool.next_eq hn with ⟨ha, -, -⟩ | ⟨-, rfl, -, -, -⟩
          · exact ha
          · exact absurd (Nat.zero_mod _) h0
        rw [if_neg h0] at hlast
        rw [if_neg h0, if_neg (by rw [h.block b k ha]; simp),
          if_neg (by omega)]
        refine Sat.modify_bind (hdone _ ?_ { hrep with })
        simp [hdeb, h.block b k ha]

end Allocation

-- =========================================================== release

/-- `INSERT_EMPTY_BLOCK` into the root of flash `f`. -/
theorem Geo.insertEmptyBlock_eq (g : Geo c) {p : Pool} {l : BlockLists}
    {f : Nat} (h : l.emptyBlockList f = rootOf c p f)
    (hlen : p.empty.length + 1 < 2 ^ 32) (b : Nat) :
    insertEmptyBlock c f b l
      = { l with
          emptyBlockList := l.emptyBlockList.set f
            (rootOf c (p.release b) f)
          totalEmptyBlockNb := l.totalEmptyBlockNb + 1 } := by
  have hu : u32 ((p.empty.length : Nat) + 1) = p.empty.length + 1 :=
    u32_of_lt (by push_cast; rfl) hlen
  simp only [insertEmptyBlock, g.rootIndex, h]
  congr 2
  simp only [rootOf, hu, Pool.release]
  cases he : p.empty with
  | nil => simp
  | cons e es => simp

/-- Once every root has the block, it is back in the pool. -/
theorem Lists.release {p : Pool} {l : BlockLists} (h : Lists c p l)
    {b : Nat} {t : Table EmptyRoot}
    (ht : Table.Upto (rootOf c (p.release b)) c.flashNb
      l.emptyBlockList t) :
    Lists c (p.release b)
      { l with
        emptyBlockList := t
        totalEmptyBlockNb := l.totalEmptyBlockNb + c.flashNb } where
  roots := fun _ hf => ht.get_lt hf
  victims := h.victims
  totalEmpty := by
    simp only [h.totalEmpty, Pool.release, List.length_append,
      List.length_singleton, Pool.current]
    push_cast
    ring
  totalVictim := h.totalVictim
  index := h.index
  plane := h.plane
  block := h.block

end FemuRemap