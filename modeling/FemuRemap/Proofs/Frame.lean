/-
What the functions that do not manage blocks leave alone.

Most functions never touch the block lists. `Local c I` says so, and
that they change the states of the blocks in `I` only, keeping every
`valid_page_nb` equal to the number of valid pages of its block and the
NVRAM totals equal to the sums over the superblocks. The relation
composes, so it is closed under the constructs of the language
(`Within`) and one sweep over the functions establishes it, together
with the absence of the diagnostics that misaligned lists would cause.
Nothing is assumed about the state.
-/
import FemuRemap.Proofs.Segments
import FemuRemap.Proofs.Victim

namespace FemuRemap

open Lib

variable {c : Conf}

-- ========================================================= vocabulary

/-- The diagnostics of misaligned block lists. -/
def listErrors : List Msg :=
  [.planeHeadNull, .indexNotLast, .cannotHappen, .sbLastPlane,
    .sbBlockNb, .sbNextPlane, .victimCount, .victimOffset]

/-- The event is none of them. -/
def NoListError (e : Event) : Prop := ∀ m ∈ listErrors, e ≠ .error m

/-- The block lists stay, only blocks in `I` change their state, and
the counts and totals stay right. -/
structure Local (c : Conf) (I : Nat → Prop) (s s' : Ssd) : Prop where
  lists : s'.lists = s.lists
  blocks : ∀ i, ¬ I i → s'.blockStateTable i = s.blockStateTable i
  recount : Recount c s → Recount c s'
  totals : Totals c s.nvram → Totals c s'.nvram

theorem Local.steps (I : Nat → Prop) : Steps (Local c I) where
  refl _ := ⟨rfl, fun _ _ => rfl, id, id⟩
  trans h₁ h₂ := ⟨h₂.lists.trans h₁.lists,
    fun i hi => (h₂.blocks i hi).trans (h₁.blocks i hi),
    fun h => h₂.recount (h₁.recount h), fun h => h₂.totals (h₁.totals h)⟩

/-- No diagnostic of the lists, no page handed out, no block erased. -/
def Placid : Event → Prop
  | .error m => m ∉ listErrors
  | .alloc _ _ _ _ => False
  | .erase _ _ _ => False
  | _ => True

/-- An event outside the lists' errors is no such error. -/
theorem Placid.noListError {e : Event} (h : Placid e) : NoListError e := by
  intro m hm he
  subst he
  exact h hm

/-- Within the frame, with placid events only. -/
abbrev Framed (c : Conf) (I : Nat → Prop) {α : Type} (m : Ftl α) : Prop :=
  Within (Local c I) Placid m

variable {I : Nat → Prop}

-- ==================================================== framed functions

theorem framed_modifyStat (f : Stat → Stat) :
    Framed c I (modifyStat f) :=
  Within.modify fun _ => ⟨rfl, fun _ _ => rfl, id, id⟩

/-- An update of the NVRAM that keeps its totals. -/
theorem framed_modifyNvram {f : Nvram → Nvram}
    (h : ∀ n, Totals c n → Totals c (f n)) :
    Framed c I (modifyNvram f) :=
  Within.modify fun s => ⟨rfl, fun _ _ => rfl, id, h s.nvram⟩

/-- Flash accesses are events only. -/
theorem framed_io (o : Io) : Framed c I (Prog.emit (.io o)) :=
  Within.emit (Local.steps I) trivial

/-- Any message but those about the lists. -/
theorem framed_printError {m : Msg} (h : m ∉ listErrors) :
    Framed c I (printError m) :=
  Within.emit (Local.steps I) h

theorem framed_printErrorIf {b : Prop} [Decidable b] {m : Msg}
    (h : m ∉ listErrors) : Framed c I (printErrorIf b m) :=
  Within.ite (framed_printError h) (Within.pure (Local.steps I) ())

theorem framed_pure {α : Type} (a : α) :
    Framed c I (pure a : Ftl α) :=
  Within.pure (Local.steps I) a

theorem framed_bind {α β : Type} {m : Ftl α} {f : α → Ftl β}
    (hm : Framed c I m) (hf : ∀ a, Framed c I (f a)) :
    Framed c I (m >>= f) :=
  Within.bind (Local.steps I) hm hf

/-- The inverse mapping belongs to no block. -/
theorem framed_increaseInverseMapping (ppn : Option Nat) (lpn : Nat) :
    Framed c I (increaseInverseMapping ppn lpn) := by
  cases ppn with
  | none =>
      exact framed_bind (framed_printError (by decide)) fun _ =>
        framed_pure _
  | some p =>
      refine Within.get_bind fun s => ?_
      refine framed_bind (Within.emit (Local.steps I)
        trivial) fun _ => ?_
      refine framed_bind (Within.emit (Local.steps I)
        trivial) fun _ => ?_
      exact framed_bind (Within.modify fun _ =>
        ⟨rfl, fun _ _ => rfl, id, id⟩) fun _ => framed_pure _

/-- An entry that is missing is reported, which is no list error. -/
theorem framed_decreaseInverseMapping (ppn : Option Nat) (lpn : Nat) :
    Framed c I (decreaseInverseMapping ppn lpn) := by
  cases ppn with
  | none =>
      exact framed_bind (framed_printError (by decide)) fun _ =>
        framed_pure _
  | some p =>
      have hput : ∀ e : InverseEntry, Framed c I
          ((Prog.modify fun s =>
              { s with
                inverseMappingTable := s.inverseMappingTable.set p e })
            >>= fun _ => pure Ret.success) := fun e =>
        framed_bind (Within.modify fun _ =>
          ⟨rfl, fun _ _ => rfl, id, id⟩) fun _ => framed_pure _
      refine Within.get_bind fun s => Within.ite ?_ (Within.ite ?_ ?_)
      · exact framed_bind (framed_printError (by decide)) fun _ =>
          framed_pure _
      · exact Within.ite (Within.ite (hput _)
          (Within.ite (Within.fault (Local.steps I) _) (hput _)))
          (hput _)
      · exact Within.ite (hput _) (Within.fault (Local.steps I) _)

/-- Changing one block's entry, with its count right. -/
theorem local_set {i : Nat} (hi : I i) {b : BlockState} {s : Ssd}
    (hb : Recount c s → b.validPageNb = countValid c b.validArray)
    (t : Stat) :
    Local c I s
      { s with blockStateTable := s.blockStateTable.set i b, stat := t } where
  lists := rfl
  blocks j hj := Table.get_set_ne _ _ fun he => hj (he ▸ hi)
  recount h j := by
    simp only [Table.get_set]
    split
    · exact hb h
    · exact h j
  totals := id

/-- Marking a page touches its own block only. -/
theorem framed_updateBlockStateEntry (flash block page : Nat)
    (mark : PageMark) (hi : I (blockIndex c flash block)) :
    Framed c I (updateBlockStateEntry c flash block page mark) := by
  have hput : ∀ v v' f,
      Framed c I (restatePage c flash block page v v' f) := by
    intro v v' f
    refine Within.get_bind fun s => ?_
    refine framed_bind (Within.emit (Local.steps I)
      trivial) fun _ => ?_
    exact Within.modify fun _ => local_set hi (fun _ => rfl) _
  have hfail : ∀ m, m ∉ listErrors → Framed c I (refusePage m) := by
    intro m hm
    refine framed_bind (framed_printError hm) fun _ => ?_
    exact Within.emit (Local.steps I) trivial
  refine Within.ite (hfail _ (by decide)) ?_
  refine Within.get_bind fun s => ?_
  cases mark with
  | valid =>
      refine Within.ite (framed_bind (Within.emit (Local.steps I)
        trivial) fun _ => ?_) (hfail _ (by decide))
      exact hput _ _ _
  | invalid =>
      exact Within.ite (hput _ _ _) (hfail _ (by decide))
  | free =>
      exact Within.ite (hput _ _ _)
        (Within.ite (hput _ _ _) (hfail _ (by decide)))

/-- So does marking the whole block. -/
theorem framed_updateBlockState (flash block : Nat) (type : BlockType)
    (hi : I (blockIndex c flash block)) :
    Framed c I (updateBlockState c flash block type) := by
  refine framed_bind (Within.modify fun s => ?_) fun _ => Within.ite ?_ ?_
  · exact local_set (b := { s.blockStateTable
      (blockIndex c flash block) with type := type }) hi
      (fun h => h _) s.stat
  · exact Within.each (Local.steps I) (fun page =>
      framed_updateBlockStateEntry flash block page .free hi) _
  · exact framed_pure _

/-- A refused remap is counted next to the totals. -/
theorem Totals.refuse {n : Nvram} (h : Totals c n) (k j : Nat) :
    Totals c { n with gcRemapFail := k, useRemapFail := j } :=
  h.congr (fun _ => rfl) rfl rfl rfl rfl

/-- Storing or releasing an entry moves the totals with the table. -/
theorem framed_updateNvramOob (b : Nat) (add : Bool) :
    Framed c I (updateNvramOob c b add) := by
  unfold updateNvramOob
  split
  · exact framed_printError (by decide)
  · next hb =>
      refine Within.ite (framed_modifyNvram fun n hn => ?_)
        (framed_modifyNvram fun n hn => hn.release (Nat.lt_of_not_le hb))
      refine Totals.store ?_ (Nat.lt_of_not_le hb)
      split
      · exact hn.refuse _ _
      · exact hn

theorem framed_increaseInvalidOobEntryCount (b : Nat) :
    Framed c I (increaseInvalidOobEntryCount c b) := by
  unfold increaseInvalidOobEntryCount
  split
  · exact framed_printError (by decide)
  · next hb =>
      exact framed_modifyNvram fun n hn => hn.mark (Nat.lt_of_not_le hb)

/-- The mapping table belongs to no block. -/
theorem framed_setMapping (lpn : Nat) (ppn : Option Nat) :
    Framed c I (setMapping lpn ppn) :=
  Within.modify fun _ => ⟨rfl, fun _ _ => rfl, id, id⟩

theorem framed_setInNvram (lpn : Nat) (v : Int) :
    Framed c I (setInNvram lpn v) :=
  Within.modify fun _ => ⟨rfl, fun _ _ => rfl, id, id⟩

/-- Programming a page changes the state of its block only. -/
theorem framed_updateNewPageMapping (lpn ppn : Nat) (type : BlockType)
    (hi : I (blockIndex c (calcFlash c ppn) (calcBlock c ppn))) :
    Framed c I (updateNewPageMapping c lpn ppn type) := by
  refine framed_bind (framed_increaseInverseMapping _ _) fun r => ?_
  cases r with
  | fail => exact framed_pure _
  | success =>
      refine framed_bind (framed_setMapping _ _) fun _ => ?_
      refine framed_bind (framed_updateBlockState _ _ _ hi) fun _ => ?_
      exact framed_updateBlockStateEntry _ _ _ _ hi

theorem framed_recordOob (oobWrite : Bool) (newPpn lpn : Nat) :
    Framed c I (recordOob c oobWrite newPpn lpn) := by
  refine Within.ite ?_ (framed_setInNvram _ _)
  refine framed_bind (framed_updateNvramOob _ _) fun _ => ?_
  exact framed_bind (framed_setInNvram _ _) fun _ => framed_io _

/-- Migrating the lpns of a page changes the new page's block only. -/
theorem framed_migrateLpns (oldPpn newPpn fuel : Nat) (oobWrite : Bool)
    (hi : I (blockIndex c (calcFlash c newPpn) (calcBlock c newPpn))) :
    Framed c I (migrateLpns c oldPpn newPpn fuel oobWrite) := by
  induction fuel generalizing oobWrite with
  | zero => exact Within.fault (Local.steps I) _
  | succ fuel ih =>
      refine Within.get_bind fun s => ?_
      split
      · exact framed_pure _
      · refine framed_bind (framed_decreaseInverseMapping _ _) fun _ => ?_
        refine framed_bind (framed_updateNewPageMapping _ _ _ hi)
          fun _ => ?_
        exact framed_bind (framed_recordOob _ _ _) fun _ => ih true

/-- Any block may change. -/
abbrev anyBlock : Nat → Prop := fun _ => True

/-- Dropping an lpn's old page may invalidate it, in whichever block it
lies. -/
theorem framed_updateOldPageMapping (lpn : Nat) :
    Framed c anyBlock (updateOldPageMapping c lpn) := by
  refine Within.get_bind fun s => ?_
  split
  · exact framed_pure _
  · refine framed_bind (framed_decreaseInverseMapping _ _) fun r => ?_
    cases r with
    | fail => exact framed_pure _
    | success =>
        refine framed_bind (framed_updateBlockStateEntry _ _ _ _ trivial)
          fun _ => Within.get_bind fun s => ?_
        exact Within.ite (framed_increaseInvalidOobEntryCount _)
          (framed_pure _)

theorem framed_unmapLpn (lpn : Nat) :
    Framed c anyBlock (unmapLpn c lpn) :=
  framed_bind (framed_updateOldPageMapping lpn) fun _ =>
    framed_setMapping _ _

/-- The source of a remap is dropped in the same way, if there is one. -/
theorem framed_unmapSource (src : Option Nat) :
    Framed c anyBlock (unmapSource c src) := by
  cases src with
  | none => exact framed_pure _
  | some h => exact framed_unmapLpn h

/-- A remap marks the page that is shared and the lpn's old one. -/
theorem framed_remapLpn (charge host : Bool) (src ppn : Option Nat)
    (lpn : Nat) : Framed c anyBlock (remapLpn c charge host src ppn lpn) := by
  refine framed_bind (framed_increaseInverseMapping _ _) fun r => ?_
  split
  · refine framed_bind (framed_updateBlockStateEntry _ _ _ _ trivial)
      fun _ => ?_
    refine framed_bind (framed_updateNvramOob _ _) fun _ => ?_
    refine framed_bind (Within.ite (framed_io _) (framed_pure _))
      fun _ => ?_
    refine framed_bind (framed_updateOldPageMapping _) fun _ => ?_
    refine framed_bind (framed_setMapping _ _) fun _ => ?_
    refine framed_bind (framed_setInNvram _ _) fun _ => ?_
    exact framed_bind (framed_unmapSource _) fun _ =>
      framed_modifyStat _
  · exact framed_pure _

theorem framed_refuseRemap : Framed c I refuseRemap :=
  framed_bind (framed_modifyNvram fun _ hn => hn.refuse _ _) fun _ =>
    framed_pure _

/-- The reclaim of NVRAM entries marks no page. -/
theorem framed_nvramOobGc : Framed c I (nvramOobGc c) := by
  refine Within.get_bind fun s => ?_
  split
  · exact framed_bind (framed_printError (by decide)) fun _ =>
      framed_pure _
  · next b hv =>
      have hb := (oobVictim_spec hv).1
      refine framed_bind (framed_updateNvramOob _ _) fun _ => ?_
      refine framed_bind (framed_modifyNvram fun n hn =>
        hn.store_many hb _) fun _ => ?_
      exact framed_bind (framed_io _) fun _ => framed_pure _

/-- The rounds of the grant, by induction on them. -/
theorem framed_useRemapLoop (b rounds : Nat) (ratio : Nat × Nat) :
    Framed c I (useRemapLoop c b rounds ratio) := by
  induction rounds generalizing ratio with
  | zero => exact framed_refuseRemap
  | succ rounds ih =>
      refine Within.get_bind fun s => Within.ite (framed_pure _)
        (Within.ite (framed_pure _) (Within.ite framed_refuseRemap ?_))
      refine framed_bind framed_nvramOobGc fun r => ?_
      cases r with
      | fail => exact framed_refuseRemap
      | success => exact ih _

theorem framed_useRemap (b : Nat) : Framed c I (useRemap c b) :=
  Within.ite (framed_bind (framed_printError (by decide)) fun _ =>
    framed_pure _) (framed_useRemapLoop _ _ _)

/-- A read or a write is one event. -/
theorem framed_ssdPageRead (f b k : Nat) :
    Framed c I (ssdPageRead f b k) :=
  framed_bind (framed_modifyStat _) fun _ => framed_io _

theorem framed_ssdPageWrite (f b k : Nat) :
    Framed c I (ssdPageWrite f b k) :=
  framed_bind (framed_modifyStat _) fun _ => framed_io _

/-- Reading the old page and writing the new one. -/
theorem framed_accessPage (slot : Slot) (old : Option Nat) (q : Nat) :
    Framed c I (accessPage c slot old q) := by
  cases old with
  | none => exact framed_ssdPageWrite _ _ _
  | some o =>
      exact Within.ite (framed_bind (framed_modifyStat _) fun _ =>
        framed_io _) (framed_ssdPageWrite _ _ _)

/-- Copying a page changes the new page's block only. -/
theorem framed_copyPage (fuel f b k newPpn : Nat)
    (hi : I (blockIndex c (calcFlash c newPpn) (calcBlock c newPpn))) :
    Framed c I (copyPage c fuel f b k newPpn) := by
  refine framed_bind (framed_ssdPageRead _ _ _) fun _ => ?_
  refine framed_bind (framed_ssdPageWrite _ _ _) fun _ => ?_
  refine framed_bind (framed_modifyStat _) fun _ => ?_
  refine framed_bind (Within.modify fun _ =>
    ⟨rfl, fun _ _ => rfl, id, id⟩) fun _ => Within.get_bind fun s => ?_
  exact framed_bind (framed_printErrorIf (by decide)) fun _ =>
    framed_migrateLpns _ _ _ _ hi

/-- The bookkeeping of a written page, of either kind. -/
theorem framed_storePage (info : LpnInfo) (slot : Slot) (newPpn : Nat) :
    Framed c anyBlock (storePage c info slot newPpn) := by
  refine Within.get_bind fun s => ?_
  refine framed_bind (framed_accessPage _ _ _) fun _ => ?_
  refine framed_bind (Within.modify fun _ =>
    ⟨rfl, fun _ _ => rfl, id, id⟩) fun _ => ?_
  refine framed_bind (framed_updateOldPageMapping _) fun _ => ?_
  refine framed_bind (framed_updateNewPageMapping _ _ _ trivial)
    fun _ => ?_
  exact framed_bind (framed_setInNvram _ _) fun _ => framed_modifyStat _

end FemuRemap
