/-
The mapping updates as steps on references: what the functions that
move one reference do to the page states, the lists and the records.

# Relying on the counts

`NoWrap` is what a run is relied on to do: an lpn only ever enters an
inverse list of fewer than 127 nodes, so that no `int8_t` count wraps.
`Good` is what is guaranteed of its events in return. `Tracked` joins
the invariants of the page states, of the lists and of the records; it
is kept step by step, with references and entries ahead of the map, and
`Sound` is the case in which nothing is ahead.
-/
import FemuRemap.Proofs.References

namespace FemuRemap

open Lib

variable {c : Conf}

-- ================================================== rely and guarantee

/-- No list of 127 lpns gets another one. -/
def NoWrap : Event → Prop
  | .share _ _ lpns => lpns.length < 127
  | _ => True

/-- The diagnostics that a run may print at any time: those of a remap
without a source or without room, and of a malformed request. -/
def hostErrors : List Msg :=
  [.wrongPhysicalAddress, .increaseNoPpn, .noVictimSegment,
    .exceedSector, .partialTrim, .remapOpe]

/-- What every event of a run satisfies. The end of `GC_CHECK` is not
reported by the functions this is about. -/
def Good (c : Conf) : Event → Prop
  | .error m => m ∈ hostErrors
  | .alloc q valid lpns handed =>
      valid = 0 ∧ lpns = [] ∧ handed = List.range (q % c.pageNb)
  | .count old new => new = old + 1
  | .restated old new before after => Moved old new before after
  | .refused => False
  | .erase _ _ mapped => mapped = []
  | .checked _ _ => False
  | _ => True

/-- Errors of the host's own doing are fine. -/
theorem good_error {m : Msg} (h : m ∈ hostErrors) : Good c (.error m) := h

/-- A function that never faults. -/
abbrev Step (c : Conf) {α : Type} (m : Ftl α) (s : Ssd)
    (Q : α → Ssd → Prop) : Prop :=
  Sat NoWrap (Good c) m s Q fun _ _ => False

/-- It meets any postcondition of faults. -/
theorem Step.sat {α : Type} {m : Ftl α} {s : Ssd} {Q : α → Ssd → Prop}
    {E : Fault → Ssd → Prop} (h : Step c m s Q) :
    Sat NoWrap (Good c) m s Q E :=
  Sat.mono h (fun _ _ hq => hq) fun _ _ => False.elim

-- ======================================================= one reference

section Primitives

variable {s : Ssd} {q L : Nat}

/-- A page takes one more lpn while its count has room. -/
theorem increaseInverseMapping_step
    (hc : (s.inverseMappingTable q).lpnCnt = (s.refs q).length) :
    Step c (increaseInverseMapping (some q) L) s fun r s' =>
      r = .success ∧ (s.refs q).length < 127
        ∧ s' = setRefs q (s.refs q ++ [L]) s := by
  refine Sat.get_bind (Sat.emit_bind fun hr => ⟨trivial, ?_⟩)
  have hlt : (s.refs q).length < 127 := hr
  have he : (if (s.inverseMappingTable q).lpnCnt = 0 then ⟨1, [L]⟩
      else ⟨i8 ((s.inverseMappingTable q).lpnCnt + 1),
        (s.inverseMappingTable q).lpns ++ [L]⟩ : InverseEntry)
      = ⟨(s.refs q ++ [L]).length, s.refs q ++ [L]⟩ := by
    rw [hc]
    split
    · next h0 =>
        have : s.refs q = [] := List.length_eq_zero_iff.1 (by omega)
        simp [this]
    · rw [i8_of_mem (by omega) (by omega)]
      simp [Ssd.refs]
  rw [he]
  refine Sat.emit_bind fun _ => ⟨?_, ?_⟩
  · show _ = _ + 1
    rw [hc]
    simp
  · exact Sat.modify_bind (Sat.pure ⟨rfl, hlt, rfl⟩)

/-- On a list that has the lpn, `DECREASE_INVERSE_MAPPING` unlinks it. -/
theorem decreaseInverseMapping_eq
    (hc : (s.inverseMappingTable q).lpnCnt = (s.refs q).length)
    (hle : (s.refs q).length ≤ 127) (hL : L ∈ s.refs q) :
    decreaseInverseMapping (some q) L s
      = ⟨.ok .success, setRefs q ((s.refs q).erase L) s, []⟩ := by
  have hlen := List.length_erase_of_mem hL
  have hpos := List.length_pos_of_mem hL
  have hput : ∀ l, l = (s.refs q).erase L →
      ((Prog.modify fun s' : Ssd =>
          { s' with
            inverseMappingTable := s'.inverseMappingTable.set q
              ⟨i8 ((s.inverseMappingTable q).lpnCnt - 1), l⟩ })
        >>= fun _ => pure Ret.success : Ftl Ret) s
        = ⟨.ok .success, setRefs q ((s.refs q).erase L) s, []⟩ := by
    rintro l rfl
    rw [Prog.run_modify_bind, Prog.run_pure]
    unfold setRefs
    rw [hc, i8_of_mem (by omega) (by omega)]
    congr 4
    omega
  simp only [decreaseInverseMapping, Prog.run_get_bind]
  rw [if_neg (by omega), if_pos (show L ∈ (s.inverseMappingTable q).lpns
    from hL)]
  -- the first node of the lpn: at the head of the list or further on
  cases hl : (s.inverseMappingTable q).lpns with
  | nil =>
      have : s.refs q = [] := hl
      simp [this] at hL
  | cons a l =>
      have hrefs : s.refs q = a :: l := hl
      by_cases ha : a = L
      · have herase : (s.refs q).erase L = l := by
          rw [hrefs, ha, List.erase_cons_head]
        rw [List.head?_cons, if_pos (by rw [ha]), List.tail_cons]
        rw [hrefs, List.length_cons] at hc
        split
        · next h1 =>
            have : l = [] := List.length_eq_zero_iff.1 (by omega)
            exact hput [] (by rw [herase, this])
        · next h1 =>
            rw [if_neg (by
              rintro rfl
              simp at hc
              omega)]
            exact hput l herase.symm
      · rw [List.head?_cons, if_neg (by simpa using ha), ← hl]
        exact hput _ rfl

/-- One page's validity, with the statistics in step. -/
theorem restatePage_step {flash block page : Nat} {v v' : Int}
    {f : Stat → Stat} (hm : Moved v v' s.stat (f s.stat)) :
    Step c (restatePage c flash block page v v' f) s fun _ s' =>
      s' = putPage c flash block page v' (f s.stat) s := by
  refine Sat.get_bind (Sat.emit_bind fun _ => ⟨hm, ?_⟩)
  exact Sat.modify rfl

/-- Validity counts the lpns at the page: one up, -/
theorem Geo.updatePageState_valid (g : Geo c)
    (hq : q < c.pageMappingEntryNb) (h0 : 0 ≤ s.valid c q)
    (h1 : s.valid c q < 127) (hr : Roomy (s.valid c q) s.stat) :
    Step c (updatePageState c q .valid) s fun _ s' =>
      s' = setValid c q (s.valid c q + 1)
        (statValid (s.valid c q) (s.valid c q + 1) s.stat) s := by
  have hf := flashOf_lt hq
  have hb := g.sized.blockOf_lt q
  have hk := g.sized.pageOf_lt q
  unfold updatePageState updateBlockStateEntry
  rw [g.sized.calcFlash_eq hq, g.sized.calcBlock_eq, g.sized.calcPage_eq,
    if_neg (by omega)]
  refine Sat.get_bind ?_
  simp only [g.sized.validArray_page s hq]
  rw [if_pos h0, i8_of_mem (by omega) (by omega)]
  refine Sat.emit_bind fun _ => ⟨rfl, ?_⟩
  exact restatePage_step (hr.statValid h0)

/-- On a live page, `INVALID` takes one reference off. -/
theorem Sized.updatePageState_invalid_eq (g : Sized c)
    (hq : q < c.pageMappingEntryNb) (h0 : 0 < s.valid c q)
    (h1 : s.valid c q ≤ 127) :
    updatePageState c q .invalid s
      = restatePage c (flashOf c q) (blockOf c q) (pageOf c q)
        (s.valid c q) (if s.valid c q = 1 then -1 else s.valid c q - 1)
        (statInvalid (s.valid c q)) s := by
  have hf := flashOf_lt hq
  have hb := g.blockOf_lt q
  have hk := g.pageOf_lt q
  unfold updatePageState updateBlockStateEntry
  rw [g.calcFlash_eq hq, g.calcBlock_eq, g.calcPage_eq,
    if_neg (by omega), Prog.run_get_bind]
  simp only [g.validArray_page s hq]
  rw [if_pos h0, i8_of_mem (by omega) (by omega)]

/-- and one down. -/
theorem Sized.updatePageState_invalid (g : Sized c)
    (hq : q < c.pageMappingEntryNb) (h0 : 0 < s.valid c q)
    (h1 : s.valid c q ≤ 127) (hr : Roomy (s.valid c q) s.stat) :
    Step c (updatePageState c q .invalid) s fun _ s' =>
      s' = setValid c q (if s.valid c q = 1 then -1 else s.valid c q - 1)
        (statInvalid (s.valid c q) s.stat) s := by
  unfold Step Sat
  rw [g.updatePageState_invalid_eq hq h0 h1]
  exact restatePage_step (hr.statInvalid h0)

end Primitives

-- ==================================================== tracked updates

/-- Segments allocated in the NVRAM. -/
def segs (c : Conf) (s : Ssd) : Int := segSum c s.nvram OobSeg.allocSeg

/-- What an update of one reference leaves alone. -/
structure Kept (s s' : Ssd) : Prop where
  lists : s'.lists = s.lists
  mapping : s'.mappingTable = s.mappingTable
  inNvram : s'.inNvram = s.inNvram
  content : s'.content = s.content
  handed : s'.handed = s.handed
  writes : SameWrites s.stat s'.stat

/-- The page states, the lists and the records agree with the map `m`
and the flags `nv`, the reference `x` and the entry `y` being ahead. -/
structure Tracked (c : Conf) (p : Pool) (out : List Nat)
    (H : Option Nat) (D : Nat → Prop) (m : Nat → Option Nat)
    (nv : Nat → Int) (x : Option (Nat × Nat)) (y : Option Nat) (s : Ssd) :
    Prop where
  pages : Pages c p out H D s
  maps : Maps c m x s
  records : Records c out m nv y s.nvram

variable {p : Pool} {out : List Nat} {H : Option Nat} {D : Nat → Prop}
  {m : Nat → Option Nat} {nv : Nat → Int} {x : Option (Nat × Nat)}
  {y : Option Nat} {s : Ssd} {q L : Nat}

/-- `UPDATE_OLD_PAGE_MAPPING` detaches the lpn. -/
theorem Geo.updateOldPageMapping_step (g : Geo c)
    (h : Tracked c p out H D m nv x y s) (hm : s.mappingTable L = m L)
    (hnv : s.inNvram L = nv L)
    (hold : ∀ o, m L = some o → ¬ D o ∧ blockOf c o ∉ out) :
    Step c (updateOldPageMapping c L) s fun _ s' =>
      Tracked c p out H D (Function.update m L none) nv x y s'
        ∧ Kept s s' ∧ segs c s' = segs c s := by
  unfold updateOldPageMapping
  refine Sat.get_bind ?_
  rw [hm]
  cases ho : m L with
  | none =>
      have he : Function.update m L none = m := by
        rw [← ho, Function.update_eq_self]
      rw [he]
      exact Sat.pure ⟨h, ⟨rfl, rfl, rfl, rfl, rfl, SameWrites.refl _⟩,
        rfl⟩
  | some o =>
      obtain ⟨hD, hout⟩ := hold o ho
      obtain ⟨hoN, hLN⟩ := h.maps.bound L o ho
      have hmem := h.maps.mem_refs ho
      have hv := h.pages.live o hoN hD (List.ne_nil_of_mem hmem)
      have hpos := List.length_pos_of_mem hmem
      have hle := h.pages.le o hoN
      have hroom := g.stats_roomy hoN h.pages.stats h.pages.upper
      refine Sat.silent_bind
        (decreaseInverseMapping_eq (h.pages.cnt o hoN) hle hmem) ?_
      refine Sat.bind (g.sized.updatePageState_invalid
        (s := setRefs o ((s.refs o).erase L) s) hoN
        (show 0 < s.valid c o by omega)
        (show s.valid c o ≤ 127 by omega) hroom) ?_
      rintro _ s₂ rfl
      refine Sat.get_bind ?_
      have hpages := g.pages_drop h.pages hoN hD hmem
      have hmaps : Maps c (Function.update m L none) x
          (setValid c o (if s.valid c o = 1 then -1 else s.valid c o - 1)
            (statInvalid (s.valid c o) s.stat)
            (setRefs o ((s.refs o).erase L) s)) :=
        h.maps.detach ho (refs_setRefs o _ s)
      have hw := sameWrites_statInvalid (s.valid c o) s.stat
      show Step c (if s.inNvram L = 1 then _ else _) _ _
      rw [hnv]
      -- an lpn recorded in the NVRAM leaves an invalid entry behind
      split
      · next h1 =>
          unfold increaseInvalidOobEntryCount
          rw [g.sized.calcBlock_eq,
            if_neg (Nat.not_le.2 (g.sized.blockOf_lt o))]
          refine Sat.modify ⟨⟨?_, hmaps.congr fun _ => rfl, ?_⟩,
            ⟨rfl, rfl, rfl, rfl, rfl, hw⟩, ?_⟩
          · exact hpages.of_eq rfl rfl (fun _ => rfl) id
              (fun hn => hn.mark (g.sized.blockOf_lt o)) rfl
              ⟨rfl, rfl, rfl, rfl, rfl⟩
          · refine h.records.detach_nvram hLN ho h1 hout fun b => ?_
            simp only [Table.get_set]
            split
            · next hb => rw [hb]; rfl
            · rfl
          · unfold segs
            rw [segSum_set _ (g.sized.blockOf_lt o) fun _ => Table.get_set ..,
              Int.sub_self, Int.add_zero]
            rfl
      · next h1 =>
          exact Sat.pure ⟨⟨hpages, hmaps,
            h.records.detach_keep hLN ho (.inl h1)⟩,
            ⟨rfl, rfl, rfl, rfl, rfl, hw⟩, rfl⟩

/-- A page some lpn maps to is in use, and its count is the length of
its list. -/
theorem Tracked.in_use (h : Tracked c p out H D m nv x y s)
    (hL : m L = some q) (hD : ¬ D q) :
    q < c.pageMappingEntryNb ∧ Used c p out q
      ∧ s.valid c q = (s.refs q).length ∧ H ≠ some q := by
  have hq := (h.maps.bound L q hL).1
  have hmem := h.maps.mem_refs hL
  have hv := h.pages.live q hq hD (List.ne_nil_of_mem hmem)
  have hpos := List.length_pos_of_mem hmem
  have h0 : ¬ s.valid c q = 0 := by omega
  rw [h.pages.fresh q hq, not_or, not_not] at h0
  exact ⟨hq, h0.1, hv, h0.2⟩

/-- Entering a reference and counting it: the two halves of a share. -/
theorem Geo.tracked_share (g : Geo c)
    (h : Tracked c p out H D m nv none y s)
    (hq : q < c.pageMappingEntryNb) (hD : ¬ D q) (hu : Used c p out q)
    (hv : s.valid c q = (s.refs q).length)
    (hlt : (s.refs q).length < 127) (hH : H = none ∨ H = some q)
    (L : Nat) :
    Tracked c p out none D m nv (some (q, L)) y
      (setValid c q (s.valid c q + 1)
        (statValid (s.valid c q) (s.valid c q + 1) s.stat)
        (setRefs q (s.refs q ++ [L]) s)) where
  pages := g.pages_share h.pages hq hD hu hv hlt hH L
  maps := h.maps.share (refs_setRefs q _ s)
  records := h.records

/-- Storing an entry opens a segment when the superblock has no room. -/
theorem segs_put {b : Nat} {s' : Ssd} (hb : b < c.blockNb)
    (h : ∀ z, s'.nvram.oobTable z = if z = b
      then putEntry c (s.nvram.oobTable b) else s.nvram.oobTable z) :
    segs c s' = segs c s
      + ind ((s.nvram.oobTable b).freeEntry = 0) := by
  unfold segs
  rw [segSum_set _ hb h, putEntry]
  split
  · next h0 => simp [h0]
  · next h0 => simp [h0]

/-- `UPDATE_NVRAM_OOB(VALID)` stores an entry ahead of its reference. -/
theorem updateNvramOob_step {b : Nat}
    (h : Tracked c p out H D m nv x none s) (hb : b < c.blockNb)
    (ho : b ∉ out) :
    Step c (updateNvramOob c b true) s fun _ s' =>
      Tracked c p out H D m nv x (some b) s' ∧ Kept s s'
        ∧ ∀ z, s'.nvram.oobTable z = if z = b
          then putEntry c (s.nvram.oobTable b) else s.nvram.oobTable z := by
  unfold updateNvramOob
  rw [if_neg (Nat.not_le.2 hb), if_pos rfl]
  have ht : ∀ z, (storeEntry c b (if (s.nvram.oobTable b).freeEntry = 0
        ∧ s.nvram.totalAllocSeg = c.totalOobSeg
      then { s.nvram with gcRemapFail := u32 (s.nvram.gcRemapFail + 1) }
      else s.nvram)).oobTable z = if z = b
        then putEntry c (s.nvram.oobTable b)
        else s.nvram.oobTable z := by
    intro z
    split <;> exact storeEntry_oobTable _ b z
  refine Sat.modify ⟨⟨?_, h.maps.congr fun _ => rfl,
    h.records.store ho ht⟩,
    ⟨rfl, rfl, rfl, rfl, rfl, SameWrites.refl _⟩, ht⟩
  refine h.pages.of_eq rfl rfl (fun _ => rfl) id (fun hn => ?_) rfl
    ⟨rfl, rfl, rfl, rfl, rfl⟩
  refine Totals.store ?_ hb
  split
  · exact hn.refuse _ _
  · exact hn

/-- The two states agree in what is tracked. -/
structure Alike (s s' : Ssd) : Prop where
  lists : s'.lists = s.lists
  inverse : s'.inverseMappingTable = s.inverseMappingTable
  blocks : s'.blockStateTable = s.blockStateTable
  nvram : s'.nvram = s.nvram
  handed : s'.handed = s.handed
  free : s'.stat.ppnFree = s.stat.ppnFree
  live : s'.stat.ppnValid = s.stat.ppnValid
  invalid : s'.stat.ppnInvalid = s.stat.ppnInvalid
  n21 : s'.stat.ppnN21 = s.stat.ppnN21
  lpns : s'.stat.lpnValid = s.stat.lpnValid

/-- The pages do not see what differs. -/
theorem Alike.pages {s' : Ssd} (ha : Alike s s')
    (h : Pages c p out H D s) : Pages c p out H D s' :=
  h.of_eq ha.lists ha.inverse
    (fun q => by rw [Ssd.valid, ha.blocks]; rfl)
    (fun hr => by rw [Recount, ha.blocks]; exact hr)
    (fun hn => ha.nvram ▸ hn) ha.handed
    ⟨ha.free, ha.live, ha.invalid, ha.n21, ha.lpns⟩

theorem Tracked.alike {s' : Ssd} (h : Tracked c p out H D m nv x y s)
    (ha : Alike s s') : Tracked c p out H D m nv x y s' where
  pages := ha.pages h.pages
  maps := h.maps.congr fun q => by rw [Ssd.refs, ha.inverse]; rfl
  records := ha.nvram ▸ h.records

/-- The map replaced, and the type of one block. -/
def setType (i : Nat) (type : BlockType) (t : Table (Option Nat))
    (s : Ssd) : Ssd :=
  { s with
    mappingTable := t
    blockStateTable := s.blockStateTable.set i
      { s.blockStateTable i with type := type } }

theorem valid_setType (i : Nat) (type : BlockType)
    (t : Table (Option Nat)) (s : Ssd) (q : Nat) :
    (setType i type t s).valid c q = s.valid c q := by
  unfold Ssd.valid setType
  simp only [Table.get_set]
  split
  · next hi => rw [hi]
  · rfl

/-- That changes nothing that is tracked. -/
theorem Tracked.set_type (h : Tracked c p out H D m nv x y s)
    (i : Nat) (type : BlockType) (t : Table (Option Nat)) :
    Tracked c p out H D m nv x y (setType i type t s) where
  pages := by
    refine h.pages.of_eq rfl rfl (valid_setType i type t s)
      (fun hr => ?_) id rfl ⟨rfl, rfl, rfl, rfl, rfl⟩
    exact (local_set (I := anyBlock)
      (b := { s.blockStateTable i with type := type }) trivial
      (fun hr => hr i) s.stat).recount hr
  maps := h.maps.congr fun _ => rfl
  records := h.records

/-- `UPDATE_NEW_PAGE_MAPPING` writes the map and enters the reference;
the records follow. -/
theorem Geo.updateNewPageMapping_step (g : Geo c)
    (h : Tracked c p out H D m nv none y s)
    (hq : q < c.pageMappingEntryNb) (hD : ¬ D q) (hu : Used c p out q)
    (hv : s.valid c q = (s.refs q).length) (hH : H = none ∨ H = some q)
    (L : Nat) :
    Step c (updateNewPageMapping c L q .dataBlock) s fun _ s' =>
      Tracked c p out none D m nv (some (q, L)) y s'
        ∧ Kept { s with mappingTable := s.mappingTable.set L (some q) } s'
        ∧ s'.nvram = s.nvram := by
  unfold updateNewPageMapping
  refine Sat.bind (increaseInverseMapping_step (h.pages.cnt q hq)) ?_
  rintro _ s₁ ⟨rfl, hlt, rfl⟩
  -- the map and the type may as well have been written first
  let s₀ := setType (blockIndex c (calcFlash c q) (calcBlock c q))
    .dataBlock (s.mappingTable.set L (some q)) s
  have h₀ : Tracked c p out H D m nv none y s₀ := h.set_type ..
  have hv₀ : s₀.valid c q = (s₀.refs q).length :=
    (valid_setType ..).trans hv
  have hroom := g.stats_roomy hq h₀.pages.stats h₀.pages.upper
  have hle : (s₀.refs q).length < 127 := hlt
  refine Sat.modify_bind (Sat.bind (R := fun _ s' =>
    s' = setRefs q (s₀.refs q ++ [L]) s₀)
    (Sat.modify_bind (Sat.pure rfl)) ?_)
  rintro _ s₂ rfl
  refine (g.updatePageState_valid (s := setRefs q (s₀.refs q ++ [L]) s₀) hq
    (show 0 ≤ s₀.valid c q by omega)
    (show s₀.valid c q < 127 by omega) hroom).mono ?_ fun _ _ h => h
  rintro _ s₃ rfl
  exact ⟨g.tracked_share h₀ hq hD hu hv₀ hle hH L,
    ⟨rfl, rfl, rfl, rfl, rfl, sameWrites_statValid ..⟩, rfl⟩

-- ==================================================== sound states

/-- No page is excepted. -/
abbrev noPage : Nat → Prop := fun _ => False

/-- Nothing is ahead of the tables: a state between two updates. -/
abbrev Sound (c : Conf) (p : Pool) (s : Ssd) : Prop :=
  Tracked c p [] none noPage s.mappingTable.get s.inNvram.get none none s

/-- A sound state with the map `m`, reached without programming a
page. -/
structure Remapped (c : Conf) (p : Pool) (s : Ssd) (m : Nat → Option Nat)
    (s' : Ssd) : Prop where
  sound : Sound c p s'
  mapping : s'.mappingTable.get = m
  content : s'.content = s.content
  lists : s'.lists = s.lists
  gcWrites : s'.stat.gcWriteCount = s.stat.gcWriteCount

/-- The reference and the entry that are ahead become those of `L`. -/
theorem Tracked.attach_nvram
    (h : Tracked c p out H D m nv (some (q, L)) (some (blockOf c q)) s)
    (hm : m L = none) (hq : q < c.pageMappingEntryNb)
    (hL : L < c.pageMappingEntryNb) :
    Tracked c p out H D (Function.update m L (some q))
      (Function.update nv L 1) none none s :=
  ⟨h.pages, h.maps.attach hm hq hL, h.records.attach_nvram hL hm⟩

/-- The reference that is ahead becomes that of `L`, the first one of
its page. -/
theorem Tracked.attach_flash
    (h : Tracked c p out H D m nv (some (q, L)) none s)
    (hm : m L = none) (hq : q < c.pageMappingEntryNb)
    (hL : L < c.pageMappingEntryNb) (hfirst : ∀ K, m K ≠ some q) :
    Tracked c p out H D (Function.update m L (some q))
      (Function.update nv L 0) none none s :=
  ⟨h.pages, h.maps.attach hm hq hL,
    h.records.attach_flash hL hm hfirst⟩

/-- Once the lpn is detached, its entry of the map is cleared. -/
theorem Tracked.sound_unmapped {s' : Ssd}
    (h : Tracked c p [] none noPage
      (Function.update s.mappingTable.get L none) s.inNvram.get none none s')
    (hk : Kept s s') :
    Sound c p { s' with mappingTable := s'.mappingTable.set L none } := by
  unfold Sound
  rw [Table.get_set_eq, hk.mapping, hk.inNvram]
  exact h.alike (by constructor <;> rfl)

/-- Once the lpn is detached, it takes the reference and the entry that
are ahead. -/
theorem Tracked.sound_shared {s' : Ssd}
    (h : Tracked c p [] none noPage
      (Function.update s.mappingTable.get L none) s.inNvram.get
      (some (q, L)) (some (blockOf c q)) s')
    (hm : s'.mappingTable = s.mappingTable) (hnv : s'.inNvram = s.inNvram)
    (hq : q < c.pageMappingEntryNb) (hL : L < c.pageMappingEntryNb) :
    Sound c p { s' with
      mappingTable := s'.mappingTable.set L (some q)
      inNvram := s'.inNvram.set L 1 } := by
  have hnew := h.attach_nvram (Function.update_self ..) hq hL
  rw [Function.update_idem] at hnew
  unfold Sound
  simp only [Table.get_set_eq, hm, hnv]
  exact hnew.alike (by constructor <;> rfl)

/-- The lpn leaves its page; no segment is taken or given back. -/
theorem Geo.unmapLpn_step (g : Geo c) (h : Sound c p s) (L : Nat) :
    Step c (unmapLpn c L) s fun _ s' =>
      Remapped c p s (Function.update s.mappingTable.get L none) s'
        ∧ segs c s' = segs c s := by
  refine Sat.bind (g.updateOldPageMapping_step h rfl rfl
    fun _ _ => ⟨id, by simp⟩) ?_
  rintro _ s₁ ⟨h₁, hk, hs⟩
  refine Sat.modify ⟨⟨h₁.sound_unmapped hk, ?_, hk.content, hk.lists,
    hk.writes.gc⟩, hs⟩
  rw [Table.get_set_eq, hk.mapping]

/-- A map without the source of a move. -/
def dropSource (m : Nat → Option Nat) : Option Nat → Nat → Option Nat
  | none => m
  | some h => Function.update m h none

theorem Geo.unmapSource_step (g : Geo c) (h : Sound c p s)
    (src : Option Nat) :
    Step c (unmapSource c src) s fun _ s' =>
      Remapped c p s (dropSource s.mappingTable.get src) s'
        ∧ segs c s' = segs c s := by
  cases src with
  | none => exact Sat.pure ⟨⟨h, rfl, rfl, rfl, rfl⟩, rfl⟩
  | some K => exact g.unmapLpn_step h K

/-- `remapLpn` makes the lpn share a page that is in use. -/
theorem Geo.remapLpn_step (g : Geo c) (h : Sound c p s) {K : Nat}
    (hK : s.mappingTable K = some q) (hL : L < c.pageMappingEntryNb)
    (charge host : Bool) (src : Option Nat) :
    Step c (remapLpn c charge host src (some q) L) s fun _ s' =>
      Remapped c p s (dropSource
        (Function.update s.mappingTable.get L (some q)) src) s'
        ∧ segs c s' = segs c s
          + ind ((s.nvram.oobTable (blockOf c q)).freeEntry = 0) := by
  obtain ⟨hq, hu, hv, -⟩ := h.in_use hK id
  have hpos := h.pages.le q hq
  have hroom := g.stats_roomy hq h.pages.stats h.pages.upper
  refine Sat.bind (increaseInverseMapping_step (h.pages.cnt q hq)) ?_
  rintro _ s₁ ⟨rfl, hlt, rfl⟩
  refine Sat.bind (g.updatePageState_valid
    (s := setRefs q (s.refs q ++ [L]) s) hq
    (show 0 ≤ s.valid c q by omega)
    (show s.valid c q < 127 by omega) hroom) ?_
  rintro _ s₂ rfl
  have h₂ := g.tracked_share h hq id hu hv hlt (.inl rfl) L
  have hw₂ := sameWrites_statValid (s.valid c q) (s.valid c q + 1) s.stat
  rw [g.sized.calcBlock_eq]
  refine Sat.bind (updateNvramOob_step h₂ (g.sized.blockOf_lt q) (by simp)) ?_
  rintro _ s₃ ⟨h₃, hk₃, ht₃⟩
  refine Sat.bind (R := fun _ s' => s' = s₃) ?_ ?_
  · cases charge with
    | true => exact Sat.emit fun _ => ⟨trivial, rfl⟩
    | false => exact Sat.pure rfl
  rintro _ _ rfl
  refine Sat.bind (g.updateOldPageMapping_step h₃
    (by rw [hk₃.mapping]; rfl) (by rw [hk₃.inNvram]; rfl)
    fun _ _ => ⟨id, by simp⟩) ?_
  rintro _ s₄ ⟨h₄, hk₄, hs₄⟩
  refine Sat.modify_bind (Sat.modify_bind ?_)
  -- the tables now hold the new reference
  have hm : s₄.mappingTable = s.mappingTable :=
    hk₄.mapping.trans hk₃.mapping
  have hnv : s₄.inNvram = s.inNvram := hk₄.inNvram.trans hk₃.inNvram
  refine Sat.bind (g.unmapSource_step
    (h₄.sound_shared (s := s) hm hnv hq hL) src) ?_
  rintro _ s₆ ⟨h₆, hs₆⟩
  have hw := (hw₂.trans hk₃.writes).trans hk₄.writes
  refine Sat.modify ⟨⟨h₆.sound.alike (by constructor <;> rfl), ?_,
    h₆.content.trans (hk₄.content.trans hk₃.content),
    h₆.lists.trans (hk₄.lists.trans hk₃.lists),
    h₆.gcWrites.trans hw.gc⟩, ?_⟩
  · rw [h₆.mapping, Table.get_set_eq, hm]
  · exact hs₆.trans (hs₄.trans (segs_put (g.sized.blockOf_lt q) ht₃))

end FemuRemap
