/-
What the functions do to the tables the host sees, whatever the state.

The allocator and the choice of a victim touch the block lists only
(`OnlyLists`, `OnlyVictims`). Of the others, most leave the mapping table
and the write counters alone (`Steady`). What remains are the few
functions that set an entry of the mapping table or count a write: for
each of them its effect is stated in full. None of this assumes an
invariant, so it holds in runs with wrapped counts as well.
-/
import Mathlib.Data.Nat.ModEq
import FemuRemap.Proofs.Agreement

namespace FemuRemap

open Lib

variable {c : Conf}

/-- Nothing is said of the events. -/
abbrev anyEvent : Event → Prop := fun _ => True

-- ========================================================== block lists

/-- Only the block lists and the ledger of pages changed. -/
def OnlyLists (s s' : Ssd) : Prop :=
  s' = { s with lists := s'.lists, handed := s'.handed }

/-- The relation composes, so it can be carried through loops. -/
theorem OnlyLists.steps : Steps OnlyLists where
  refl _ := rfl
  trans := by
    intro s₁ s₂ s₃ h₁ h₂
    rw [OnlyLists] at *
    rw [h₂, h₁]

/-- Touches the block lists only, whatever it prints. -/
abbrev Listing {α : Type} (m : Ftl α) : Prop := Within OnlyLists anyEvent m

/-- An update of the lists is one, by definition. -/
theorem listing_modifyLists (f : BlockLists → BlockLists) :
    Listing (modifyLists f) :=
  Within.modify fun _ => rfl

section Allocator

variable {G : Event → Prop}

/-- As above, for any condition on the events: the allocator is followed below
with the events it prints. -/
theorem allocator_modifyLists (f : BlockLists → BlockLists) :
    Within OnlyLists G (modifyLists f) :=
  Within.modify fun _ => rfl

theorem allocator_pure {α : Type} (a : α) :
    Within OnlyLists G (pure a : Ftl α) :=
  Within.pure OnlyLists.steps a

theorem allocator_bind {α β : Type} {m : Ftl α} {f : α → Ftl β}
    (hm : Within OnlyLists G m) (hf : ∀ a, Within OnlyLists G (f a)) :
    Within OnlyLists G (m >>= f) :=
  Within.bind OnlyLists.steps hm hf

/-- Taking the next root of the cycle touches the lists only. -/
theorem allocator_activateRoot (i : Nat) :
    Within OnlyLists G (activateRoot i) := by
  refine Within.get_bind fun s => ?_
  dsimp only
  split
  · exact Within.fault OnlyLists.steps _
  · exact allocator_modifyLists _

/-- So does moving a used-up root to the victims. -/
theorem allocator_retireRoot (i : Nat) :
    Within OnlyLists G (retireRoot c i) := by
  refine Within.get_bind fun s => ?_
  split
  · exact Within.fault OnlyLists.steps _
  · exact allocator_modifyLists _

variable (herr : ∀ m, G (.error m))

include herr

theorem allocator_printError (m : Msg) :
    Within OnlyLists G (printError m) :=
  Within.emit OnlyLists.steps (herr m)

/-- Printing an error changes no state at all. -/
theorem allocator_printErrorIf (b : Prop) [Decidable b] (m : Msg) :
    Within OnlyLists G (printErrorIf b m) :=
  Within.ite (allocator_printError herr m) (allocator_pure ())

/-- The scan for a root with free blocks, by induction on its fuel: each round
prints, retires or activates. -/
theorem allocator_getEmptyBlockLoop (fuel : Nat) :
    Within OnlyLists G (getEmptyBlockLoop c fuel) := by
  induction fuel with
  | zero => exact Within.fault OnlyLists.steps _
  | succ fuel ih =>
      refine Within.get_bind fun s => Within.ite ?_ ?_
      · exact allocator_bind (allocator_printError herr _) fun _ =>
          allocator_pure _
      · dsimp only
        split
        · refine Within.ite ?_ (Within.ite ?_ ?_)
          · exact allocator_bind (allocator_modifyLists _) fun _ => ih
          · refine allocator_bind (Within.each OnlyLists.steps
              allocator_activateRoot _) fun _ => ?_
            exact allocator_bind (allocator_modifyLists _) fun _ =>
              allocator_pure _
          · exact allocator_bind (allocator_printError herr _) fun _ => ih
        · refine Within.ite (Within.ite ?_ ?_) ?_
          · refine allocator_bind (Within.each OnlyLists.steps
              allocator_retireRoot _) fun _ => ?_
            refine allocator_bind (allocator_printErrorIf herr _ _) fun _ => ?_
            exact allocator_bind (allocator_modifyLists _) fun _ => ih
          · refine allocator_bind (allocator_printErrorIf herr _ _) fun _ => ?_
            exact allocator_bind (allocator_modifyLists _) fun _ => ih
          · exact allocator_bind (allocator_modifyLists _) fun _ =>
              allocator_pure _

/-- `GET_EMPTY_BLOCK` changes the block lists and reports errors only. -/
theorem allocator_getEmptyBlock (fuel : Nat) :
    Within OnlyLists G (getEmptyBlock c fuel) :=
  Within.get_bind fun _ => Within.ite
    (allocator_bind (allocator_printError herr _) fun _ => allocator_pure _)
    (allocator_getEmptyBlockLoop herr fuel)

variable (halloc : ∀ q v l d, G (.alloc q v l d))

include halloc

/-- `GET_NEW_PAGE` reports the page it hands out as well. -/
theorem allocator_getNewPage (fuel : Nat) :
    Within OnlyLists G (getNewPage c fuel) := by
  have hout : ∀ f r e, Within OnlyLists G (do
      modifyLists f
      handOut c r e) := by
    intro f r e
    refine allocator_bind (allocator_modifyLists _) fun _ => ?_
    refine Within.get_bind fun s => ?_
    refine allocator_bind (Within.emit OnlyLists.steps (halloc _ _ _ _))
      fun _ => ?_
    refine allocator_bind (allocator_modifyLists _) fun _ => ?_
    exact allocator_bind (Within.modify fun _ => rfl) fun _ =>
      allocator_pure _
  have hfail : ∀ m, Within OnlyLists G (do
      printError m
      return (none : Option Nat)) := fun m =>
    allocator_bind (allocator_printError herr m) fun _ => allocator_pure _
  refine allocator_bind (allocator_getEmptyBlock herr fuel) fun r => ?_
  cases r with
  | none => exact Within.fault OnlyLists.steps _
  | some r =>
      refine Within.get_bind fun s => ?_
      dsimp only
      split
      · exact Within.fault OnlyLists.steps _
      · exact Within.ite (Within.ite (hfail _) (hout _ _ _))
          (Within.ite (hfail _) (Within.ite (hfail _) (hout _ _ _)))

end Allocator

/-- One page handed out, with the ledger entry it adds. -/
theorem listing_getNewPage (fuel : Nat) : Listing (getNewPage c fuel) :=
  allocator_getNewPage (fun _ => trivial) (fun _ _ _ _ => trivial) fuel

/-- The pages handed out, in order. -/
def allocPages (tr : List Event) : List Nat :=
  tr.filterMap fun e => match e with
    | .alloc q _ _ _ => some q
    | _ => none

/-- The pages of two traces are those of the one and then the other's. -/
theorem allocPages_append (tr tr' : List Event) :
    allocPages (tr ++ tr') = allocPages tr ++ allocPages tr' :=
  List.filterMap_append

/-- Error messages hand out nothing. -/
theorem allocPages_errors {tr : List Event}
    (h : ∀ e ∈ tr, ∃ m, e = .error m) : allocPages tr = [] := by
  refine List.filterMap_eq_nil_iff.2 fun e he => ?_
  obtain ⟨m, rfl⟩ := h e he
  rfl

/-- A call that reports the page it returns, and no other page. -/
def Reports (m : Ftl (Option Nat)) : Prop :=
  ∀ ⦃s s' : Ssd⦄ ⦃r : Option Nat⦄ ⦃log : List Event⦄,
    m s = ⟨.ok r, s', log⟩ → allocPages log = r.toList

/-- Either branch of a test reports what it handed out. -/
theorem Reports.ite {b : Prop} [Decidable b] {m m' : Ftl (Option Nat)}
    (h : Reports m) (h' : Reports m') : Reports (if b then m else m') := by
  by_cases hb : b
  · rwa [if_pos hb]
  · rwa [if_neg hb]

/-- Giving up reports nothing and hands nothing out. -/
theorem reports_fail (m : Msg) : Reports (do
    printError m
    return none) := by
  intro s s' r log h
  cases h
  rfl

/-- Handing out reports the page it returns. -/
theorem reports_handOut (f : BlockLists → BlockLists) (r : Nat)
    (e : EmptyBlock) : Reports (do
    modifyLists f
    handOut c r e) := by
  intro s s' q log h
  cases h
  rfl

/-- The page that `GET_NEW_PAGE` returns is the one it reports, in any
state; a call that returns `FAIL` reports none. -/
theorem getNewPage_allocPages (fuel : Nat) : Reports (getNewPage c fuel) := by
  intro s s' r log h
  unfold getNewPage at h
  obtain ⟨r₁, s₁, log₁, log₂, hblock, hrest, rfl⟩ := Prog.bind_ok h
  -- looking for a block reports errors only
  have herrors : allocPages log₁ = [] := by
    have hwithin := (allocator_getEmptyBlock (c := c)
      (G := fun e => ∃ m, e = .error m) (fun m => ⟨m, rfl⟩) fuel s).2
    rw [hblock] at hwithin
    exact allocPages_errors hwithin
  rw [allocPages_append, herrors, List.nil_append]
  cases r₁ with
  | none => cases hrest
  | some root =>
      dsimp only at hrest
      rw [Prog.run_get_bind] at hrest
      cases hhead : (s₁.lists.emptyBlockList.get root).head with
      | none =>
          rw [hhead] at hrest
          cases hrest
      | some e =>
          rw [hhead] at hrest
          -- either an error and `FAIL`, or a page
          exact (Reports.ite (.ite (reports_fail _) (reports_handOut _ _ _))
            (.ite (reports_fail _)
              (.ite (reports_fail _) (reports_handOut _ _ _)))) hrest

/-- Only the block lists and the count of failed choices changed. -/
def OnlyVictims (s s' : Ssd) : Prop :=
  s' = { s with
    lists := s'.lists
    stat := { s.stat with failCnt := s'.stat.failCnt } }

theorem OnlyVictims.steps : Steps OnlyVictims where
  refl _ := rfl
  trans := by
    intro s₁ s₂ s₃ h₁ h₂
    rw [OnlyVictims] at *
    rw [h₂, h₁]

/-- Touches the lists and the count of failed choices only. -/
abbrev Choosing {α : Type} (m : Ftl α) : Prop := Within OnlyVictims anyEvent m

theorem choosing_pure {α : Type} (a : α) : Choosing (pure a : Ftl α) :=
  Within.pure OnlyVictims.steps a

theorem choosing_fault {α : Type} (e : Fault) :
    Choosing (Prog.fault e : Ftl α) :=
  Within.fault OnlyVictims.steps e

theorem choosing_bind {α β : Type} {m : Ftl α} {f : α → Ftl β}
    (hm : Choosing m) (hf : ∀ a, Choosing (f a)) : Choosing (m >>= f) :=
  Within.bind OnlyVictims.steps hm hf

/-- A diagnostic and a result. -/
theorem choosing_error {α : Type} (m : Msg) (a : α) :
    Choosing (do printError m; return a : Ftl α) :=
  choosing_bind (Within.emit OnlyVictims.steps trivial) fun _ =>
    choosing_pure a

/-- The sum over one superblock only reads. -/
theorem choosing_sumSuperblock (i : Nat) (entryNb : Int) (js : List Nat)
    (first : Nat) (sum : Int) :
    Choosing (sumSuperblock c i entryNb js first sum) := by
  induction js generalizing first sum with
  | nil => exact choosing_pure _
  | cons j js ih =>
      refine Within.get_bind fun s => Within.ite (choosing_error _ _) ?_
      dsimp only
      split
      · exact choosing_fault _
      · exact Within.ite (choosing_error _ _) (ih _ _)

/-- The search for the smallest sum only reads. -/
theorem choosing_scanVictims (entryNb : Int) (is : List Nat)
    (off : Nat) (min : Int) : Choosing (scanVictims c entryNb is off min) := by
  induction is generalizing off min with
  | nil => exact choosing_pure _
  | cons i is ih =>
      refine choosing_bind (choosing_sumSuperblock _ _ _ _ _) fun r => ?_
      cases r with
      | none => exact choosing_pure _
      | some sum => exact Within.ite (ih _ _) (ih _ _)

/-- Taking one block off its list is all that changes. -/
theorem choosing_ejectAt (off j : Nat) : Choosing (ejectAt c off j) := by
  refine Within.get_bind fun s => ?_
  split
  · exact choosing_fault _
  · exact Within.modify fun _ => rfl

/-- The choice as a whole: the scan, then one removal a flash. -/
theorem choosing_selectVictimSuperblock :
    Choosing (selectVictimSuperblock c) := by
  refine Within.get_bind fun s => Within.ite (choosing_error _ _)
    (Within.ite (choosing_error _ _) ?_)
  refine choosing_bind (choosing_scanVictims _ _ _ _) fun r => ?_
  cases r with
  | none => exact choosing_pure _
  | some best =>
      refine Within.ite ?_ ?_
      · exact choosing_bind (Within.modify fun _ => rfl) fun _ =>
          choosing_error _ _
      · split
        · exact choosing_fault _
        · exact choosing_bind (Within.each OnlyVictims.steps
            (choosing_ejectAt _) _) fun _ => choosing_pure _

-- ==================================================== the quiet majority

/-- The mapping table and the write counters stay. -/
structure Steady (s s' : Ssd) : Prop where
  mapping : s'.mappingTable = s.mappingTable
  writes : SameWrites s.stat s'.stat

theorem Steady.refl (s : Ssd) : Steady s s := ⟨rfl, .refl _⟩

/-- What two parts leave alone, they leave alone together. -/
theorem Steady.trans {s₁ s₂ s₃ : Ssd} (h₁ : Steady s₁ s₂)
    (h₂ : Steady s₂ s₃) : Steady s₁ s₃ :=
  ⟨h₂.mapping.trans h₁.mapping, h₁.writes.trans h₂.writes⟩

theorem Steady.steps : Steps Steady := ⟨.refl, .trans⟩

/-- Keeps the mapping table and the write counters. -/
abbrev Steadily {α : Type} (m : Ftl α) : Prop := Within Steady anyEvent m

/-- An update keeps them when it does so on every state. -/
theorem steadily_modify {f : Ssd → Ssd} (h : ∀ s, Steady s (f s)) :
    Steadily (Prog.modify f) :=
  Within.modify h

theorem steadily_emit (e : Event) : Steadily (Prog.emit e) :=
  Within.emit Steady.steps trivial

theorem steadily_pure {α : Type} (a : α) : Steadily (pure a : Ftl α) :=
  Within.pure Steady.steps a

theorem steadily_fault {α : Type} (e : Fault) :
    Steadily (Prog.fault e : Ftl α) :=
  Within.fault Steady.steps e

theorem steadily_bind {α β : Type} {m : Ftl α} {f : α → Ftl β}
    (hm : Steadily m) (hf : ∀ a, Steadily (f a)) : Steadily (m >>= f) :=
  Within.bind Steady.steps hm hf

/-- The NVRAM is neither mapping table nor write counter. -/
theorem steadily_modifyNvram (f : Nvram → Nvram) :
    Steadily (modifyNvram f) :=
  steadily_modify fun _ => ⟨rfl, .refl _⟩

/-- An update of the statistics that counts no write. -/
theorem steadily_modifyStat {f : Stat → Stat}
    (h : ∀ t, SameWrites t (f t)) : Steadily (modifyStat f) :=
  steadily_modify fun s => ⟨rfl, h s.stat⟩

/-- A diagnostic and a result. -/
theorem steadily_error {α : Type} (m : Msg) (a : α) :
    Steadily (do printError m; return a : Ftl α) :=
  steadily_bind (steadily_emit _) fun _ => steadily_pure a

/-- The allocator keeps the host's tables. -/
theorem Listing.steadily {α : Type} {m : Ftl α} (h : Listing m) :
    Steadily m :=
  Within.mono h fun s s' hl => by
    rw [hl]
    exact ⟨rfl, .refl _⟩

/-- So does the choice of a victim. -/
theorem Choosing.steadily {α : Type} {m : Ftl α} (h : Choosing m) :
    Steadily m :=
  Within.mono h fun s s' hl => by
    rw [hl]
    exact ⟨rfl, rfl, rfl, rfl, rfl⟩

/-- The inverse mapping is not the mapping. -/
theorem steadily_decreaseInverseMapping (ppn : Option Nat) (lpn : Nat) :
    Steadily (decreaseInverseMapping ppn lpn) := by
  cases ppn with
  | none => exact steadily_error _ _
  | some p =>
      have hput : ∀ e : InverseEntry, Steadily
          ((Prog.modify fun s =>
              { s with
                inverseMappingTable := s.inverseMappingTable.set p e })
            >>= fun _ => pure Ret.success) := fun e =>
        steadily_bind (steadily_modify fun _ => ⟨rfl, .refl _⟩)
          fun _ => steadily_pure _
      refine Within.get_bind fun s => Within.ite (steadily_error _ _)
        (Within.ite ?_ ?_)
      · exact Within.ite (Within.ite (hput _)
          (Within.ite (steadily_fault _) (hput _))) (hput _)
      · exact Within.ite (hput _) (steadily_fault _)

/-- Marking a page valid or invalid. -/
theorem steadily_updateBlockStateEntry (flash block page : Nat)
    (mark : PageMark) :
    Steadily (updateBlockStateEntry c flash block page mark) := by
  have hput : ∀ v v' f, (∀ t, SameWrites t (f t)) →
      Steadily (restatePage c flash block page v v' f) :=
    fun v v' f hf s => ⟨⟨rfl, hf s.stat⟩, fun _ _ => trivial⟩
  have hfail : ∀ m, Steadily (refusePage m) := fun m =>
    steadily_bind (steadily_emit _) fun _ => steadily_emit _
  refine Within.ite (hfail _) (Within.get_bind fun s => ?_)
  cases mark with
  | valid =>
      refine Within.ite (steadily_bind (steadily_emit _) fun _ => ?_)
        (hfail _)
      exact hput _ _ _ (sameWrites_statValid _ _)
  | invalid =>
      exact Within.ite (hput _ _ _ (sameWrites_statInvalid _)) (hfail _)
  | free =>
      exact Within.ite (hput _ _ _ (sameWrites_statFree _))
        (Within.ite (hput _ _ _ .refl) (hfail _))

theorem steadily_updateBlockState (flash block : Nat) (type : BlockType) :
    Steadily (updateBlockState c flash block type) := by
  refine steadily_bind (steadily_modify fun _ => ⟨rfl, .refl _⟩)
    fun _ => Within.ite ?_ (steadily_pure _)
  exact Within.each Steady.steps (fun page =>
    steadily_updateBlockStateEntry _ _ page _) _

/-- Charging or crediting one NVRAM entry. -/
theorem steadily_updateNvramOob (b : Nat) (add : Bool) :
    Steadily (updateNvramOob c b add) :=
  Within.ite (steadily_emit _)
    (Within.ite (steadily_modifyNvram _) (steadily_modifyNvram _))

theorem steadily_increaseInvalidOobEntryCount (b : Nat) :
    Steadily (increaseInvalidOobEntryCount c b) :=
  Within.ite (steadily_emit _) (steadily_modifyNvram _)

theorem steadily_setInNvram (lpn : Nat) (v : Int) :
    Steadily (setInNvram lpn v) :=
  steadily_modify fun _ => ⟨rfl, .refl _⟩

/-- `UPDATE_OLD_PAGE_MAPPING` leaves the table to its caller. -/
theorem steadily_updateOldPageMapping (lpn : Nat) :
    Steadily (updateOldPageMapping c lpn) := by
  refine Within.get_bind fun s => ?_
  split
  · exact steadily_pure _
  · refine steadily_bind (steadily_decreaseInverseMapping _ _) fun r => ?_
    cases r with
    | fail => exact steadily_pure _
    | success =>
        refine steadily_bind (steadily_updateBlockStateEntry _ _ _ _)
          fun _ => Within.get_bind fun s => ?_
        exact Within.ite (steadily_increaseInvalidOobEntryCount _)
          (steadily_pure _)

/-- The record a copied or remapped page leaves. -/
theorem steadily_recordOob (oobWrite : Bool) (newPpn lpn : Nat) :
    Steadily (recordOob c oobWrite newPpn lpn) := by
  refine Within.ite ?_ (steadily_setInNvram _ _)
  refine steadily_bind (steadily_updateNvramOob _ _) fun _ => ?_
  exact steadily_bind (steadily_setInNvram _ _) fun _ => steadily_emit _

theorem steadily_refuseRemap : Steadily refuseRemap :=
  steadily_bind (steadily_modifyNvram _) fun _ => steadily_pure _

/-- The reclaim of NVRAM entries, all its statistics included: none of them is
a write counter. -/
theorem steadily_nvramOobGc : Steadily (nvramOobGc c) := by
  refine Within.get_bind fun s => ?_
  split
  · exact steadily_error _ _
  · refine steadily_bind (steadily_updateNvramOob _ _) fun _ => ?_
    refine steadily_bind (steadily_modifyNvram _) fun _ => ?_
    exact steadily_bind (steadily_emit _) fun _ => steadily_pure _

/-- The rounds of the grant, by induction on them. -/
theorem steadily_useRemapLoop (b rounds : Nat) (ratio : Nat × Nat) :
    Steadily (useRemapLoop c b rounds ratio) := by
  induction rounds generalizing ratio with
  | zero => exact steadily_refuseRemap
  | succ rounds ih =>
      refine Within.get_bind fun s => Within.ite (steadily_pure _)
        (Within.ite (steadily_pure _) (Within.ite steadily_refuseRemap ?_))
      refine steadily_bind steadily_nvramOobGc fun r => ?_
      cases r with
      | fail => exact steadily_refuseRemap
      | success => exact ih _

theorem steadily_useRemap (b : Nat) : Steadily (useRemap c b) :=
  Within.ite (steadily_error _ _) (steadily_useRemapLoop _ _ _)

/-- Asking whether the new page may be a remap. -/
theorem steadily_askRemap (info : LpnInfo) (hPpn : Option Nat) :
    Steadily (askRemap c info hPpn) := by
  refine Within.ite ?_ (steadily_pure _)
  cases hPpn with
  | none => exact steadily_pure _
  | some p => exact steadily_useRemap _

/-- Reading the victim's entries back. -/
theorem steadily_readVictimOob (block : Nat) :
    Steadily (readVictimOob c block) :=
  Within.get_bind fun _ => Within.ite (steadily_emit _) (steadily_pure _)

theorem steadily_eraseBlock (block flash : Nat) :
    Steadily (eraseBlock c block flash) := by
  refine steadily_bind ?_ fun _ => ?_
  · refine Within.get_bind fun s => ?_
    refine steadily_bind (steadily_emit _) fun _ => ?_
    refine steadily_bind (steadily_emit _) fun _ => ?_
    exact steadily_modify fun _ => ⟨rfl, .refl _⟩
  · exact steadily_bind (steadily_updateBlockState _ _ _) fun _ =>
      (listing_modifyLists _).steadily

-- ============================================================= effects

/-- What holds at the end of a call that returns. -/
abbrev Ends {α : Type} (m : Ftl α) (s : Ssd) (Q : α → Ssd → Prop) : Prop :=
  Sat anyEvent anyEvent m s Q fun _ _ => True

/-- The write counters rose by so much, as `uint32_t` counters do: all
writes, host writes, collector writes and erases. -/
structure Counted (all host gc erases : Nat) (t t' : Stat) : Prop where
  all : t'.totalWriteCount ≡ t.totalWriteCount + all [MOD 2 ^ 32]
  host : t'.hostWriteCount ≡ t.hostWriteCount + host [MOD 2 ^ 32]
  gc : t'.gcWriteCount ≡ t.gcWriteCount + gc [MOD 2 ^ 32]
  erases : t'.eraseCount ≡ t.eraseCount + erases [MOD 2 ^ 32]

/-- No write counted is a count of zero. -/
theorem SameWrites.counted {t t' : Stat} (h : SameWrites t t') :
    Counted 0 0 0 0 t t' :=
  ⟨congrArg (· % 2 ^ 32) h.total, congrArg (· % 2 ^ 32) h.host,
    congrArg (· % 2 ^ 32) h.gc, congrArg (· % 2 ^ 32) h.erases⟩

/-- The counts of two parts add up, modulo the counters' width. -/
theorem Counted.trans {a b d e a' b' d' e' : Nat} {t₁ t₂ t₃ : Stat}
    (h : Counted a b d e t₁ t₂) (h' : Counted a' b' d' e' t₂ t₃) :
    Counted (a + a') (b + b') (d + d') (e + e') t₁ t₃ where
  all := by
    rw [← Nat.add_assoc]
    exact h'.all.trans (h.all.add_right a')
  host := by
    rw [← Nat.add_assoc]
    exact h'.host.trans (h.host.add_right b')
  gc := by
    rw [← Nat.add_assoc]
    exact h'.gc.trans (h.gc.add_right d')
  erases := by
    rw [← Nat.add_assoc]
    exact h'.erases.trans (h.erases.add_right e')

/-- A counter that wraps is the count modulo its width. -/
theorem u32_modEq (n : Nat) : u32 n ≡ n [MOD 2 ^ 32] := by
  rw [u32_mod]
  exact Nat.mod_modEq n _

variable {s : Ssd}

/-- The same as a statement about where the program ends. -/
theorem Steadily.ends {α : Type} {m : Ftl α} (h : Steadily m) (s : Ssd) :
    Ends m s fun _ s' => Steady s s' :=
  Sat.mono (h.sat s) (fun _ _ h => h) fun _ _ _ => trivial

/-- The mapping table becomes `m`, and the counters rise. -/
structure Effect (m : Nat → Option Nat) (all host : Nat) (s s' : Ssd) :
    Prop where
  mapping : s'.mappingTable.get = m
  counted : Counted all host 0 0 s.stat s'.stat

/-- Keeping the tables is the effect of setting nothing. -/
theorem Steady.effect {s' : Ssd} (h : Steady s s') :
    Effect s.mappingTable.get 0 0 s s' :=
  ⟨by rw [h.mapping], h.writes.counted⟩

/-- Two effects one after the other: the later table stands and the counts
add. -/
theorem Effect.trans {m m' : Nat → Option Nat} {a b a' b' : Nat}
    {s₁ s₂ s₃ : Ssd} (h : Effect m a b s₁ s₂) (h' : Effect m' a' b' s₂ s₃) :
    Effect m' (a + a') (b + b') s₁ s₃ :=
  ⟨h'.mapping, h.counted.trans h'.counted⟩

/-- After steady steps an effect is as before them. -/
theorem Steady.then {m : Nat → Option Nat} {a b : Nat} {s₁ s₂ : Ssd}
    (h : Steady s s₁) (h' : Effect m a b s₁ s₂) : Effect m a b s s₂ := by
  simpa using h.effect.trans h'

/-- A part that keeps the tables adds nothing to an effect. -/
theorem Effect.steady {m : Nat → Option Nat} {a b : Nat} {s₁ s₂ : Ssd}
    (h : Effect m a b s s₁) (h' : Steady s₁ s₂) : Effect m a b s s₂ :=
  ⟨by rw [h'.mapping, h.mapping],
    by simpa using h.counted.trans h'.writes.counted⟩

/-- One entry of the mapping table, and no write. -/
theorem setMapping_effect (lpn : Nat) (ppn : Option Nat) :
    Ends (setMapping lpn ppn) s fun _ s' =>
      Effect (Function.update s.mappingTable.get lpn ppn) 0 0 s s' :=
  Sat.modify ⟨Table.get_set_eq _ _ _, (SameWrites.refl _).counted⟩

/-- An lpn can always be entered at a page. -/
theorem increaseInverseMapping_ends (q lpn : Nat) :
    Ends (increaseInverseMapping (some q) lpn) s fun r s' =>
      r = .success ∧ Steady s s' :=
  Sat.get_bind <| Sat.emit_bind fun _ => ⟨trivial,
    Sat.emit_bind fun _ => ⟨trivial, Sat.modify_bind <|
      Sat.pure ⟨rfl, rfl, .refl _⟩⟩⟩

/-- The entry of a page that was just written; the write itself is counted by
the caller. -/
theorem updateNewPageMapping_effect (lpn q : Nat) (type : BlockType) :
    Ends (updateNewPageMapping c lpn q type) s fun _ s' =>
      Effect (Function.update s.mappingTable.get lpn (some q)) 0 0 s s' := by
  refine Sat.bind (increaseInverseMapping_ends q lpn) ?_
  rintro _ s₁ ⟨rfl, h₁⟩
  refine Sat.bind (setMapping_effect lpn (some q)) ?_
  intro _ s₂ h₂
  refine Sat.bind ((steadily_updateBlockState _ _ _).ends s₂) ?_
  intro _ s₃ h₃
  refine Sat.mono ((steadily_updateBlockStateEntry _ _ _ _).ends s₃) ?_
    fun _ _ h => h
  intro _ s₄ h₄
  rw [h₁.mapping] at h₂
  exact ((h₁.then h₂).steady h₃).steady h₄

/-- An unmapped lpn has no page afterwards. -/
theorem unmapLpn_effect (lpn : Nat) :
    Ends (unmapLpn c lpn) s fun _ s' =>
      Effect (Function.update s.mappingTable.get lpn none) 0 0 s s' := by
  refine Sat.bind ((steadily_updateOldPageMapping lpn).ends s) ?_
  intro _ s₁ h₁
  refine Sat.mono (setMapping_effect lpn none) ?_ fun _ _ h => h
  intro _ s₂ h₂
  rw [h₁.mapping] at h₂
  exact h₁.then h₂

/-- The source of a remap, when it has one, loses its page. -/
theorem unmapSource_effect (src : Option Nat) :
    Ends (unmapSource c src) s fun _ s' =>
      Effect (dropSource s.mappingTable.get src) 0 0 s s' := by
  cases src with
  | none => exact Sat.pure (Steady.refl s).effect
  | some h => exact unmapLpn_effect h

/-- A remap sets the entry of its lpn, then clears that of its source. -/
theorem remapLpn_effect (charge host : Bool) (src : Option Nat)
    (q lpn : Nat) :
    Ends (remapLpn c charge host src (some q) lpn) s fun _ s' =>
      Effect (dropSource
          (Function.update s.mappingTable.get lpn (some q)) src)
        0 (if host then 1 else 0) s s' := by
  refine Sat.bind (increaseInverseMapping_ends q lpn) ?_
  rintro _ s₁ ⟨rfl, h₁⟩
  refine Sat.bind ((steadily_updateBlockStateEntry _ _ _ _).ends s₁) ?_
  intro _ s₂ h₂
  refine Sat.bind ((steadily_updateNvramOob _ _).ends s₂) ?_
  intro _ s₃ h₃
  refine Sat.bind (Steadily.ends (Within.ite (steadily_emit _)
    (steadily_pure _)) s₃) ?_
  intro _ s₄ h₄
  refine Sat.bind ((steadily_updateOldPageMapping lpn).ends s₄) ?_
  intro _ s₅ h₅
  refine Sat.bind (setMapping_effect lpn (some q)) ?_
  intro _ s₆ h₆
  refine Sat.bind ((steadily_setInNvram lpn 1).ends s₆) ?_
  intro _ s₇ h₇
  refine Sat.bind (unmapSource_effect src) ?_
  intro _ s₈ h₈
  have h := (h₁.trans (h₂.trans (h₃.trans (h₄.trans h₅))))
  rw [h.mapping] at h₆
  have hset := (h.then h₆).steady h₇
  rw [hset.mapping] at h₈
  have hall := hset.trans h₈
  refine Sat.modify ⟨hall.mapping, ?_⟩
  have hlast : Counted 0 (if host then 1 else 0) 0 0 s₈.stat
      { s₈.stat with
        remapCnt := u32 (s₈.stat.remapCnt + 1)
        reducedWrite := u32 (s₈.stat.reducedWrite + 1)
        hostWriteCount := if host then u32 (s₈.stat.hostWriteCount + 1)
          else s₈.stat.hostWriteCount } := by
    refine ⟨.refl _, ?_, .refl _, .refl _⟩
    cases host with
    | true => exact u32_modEq _
    | false => exact .refl _
  simpa using hall.counted.trans hlast

/-- A read and a write are counted apart from everything else. -/
theorem accessPage_counted (slot : Slot) (old : Option Nat) (q : Nat) :
    Ends (accessPage c slot old q) s fun _ s' =>
      Effect s.mappingTable.get 1 0 s s' := by
  have hwrite : ∀ r, Counted 1 0 0 0 s.stat
      { s.stat with
        totalReadCount := r
        totalWriteCount := u32 (s.stat.totalWriteCount + 1) } := fun r =>
    ⟨u32_modEq _, .refl _, .refl _, .refl _⟩
  have hpage : ∀ f b k, Ends (ssdPageWrite f b k) s fun _ s' =>
      Effect s.mappingTable.get 1 0 s s' := fun f b k =>
    Sat.modify_bind (Sat.emit fun _ => ⟨trivial, rfl, hwrite _⟩)
  cases old with
  | none => exact hpage _ _ _
  | some o =>
      unfold accessPage
      dsimp only
      split
      · exact Sat.modify_bind (Sat.emit fun _ => ⟨trivial, rfl, hwrite _⟩)
      · exact hpage _ _ _

/-- A programmed page is one write of the host. -/
theorem storePage_effect (info : LpnInfo) (slot : Slot) (q : Nat) :
    Ends (storePage c info slot q) s fun _ s' =>
      Effect (Function.update s.mappingTable.get slot.lpn (some q)) 1 1
        s s' := by
  refine Sat.get_bind ?_
  refine Sat.bind (accessPage_counted slot _ q) ?_
  intro _ s₁ h₁
  refine Sat.modify_bind ?_
  refine Sat.bind ((steadily_updateOldPageMapping slot.lpn).ends _) ?_
  intro _ s₂ h₂
  refine Sat.bind (updateNewPageMapping_effect slot.lpn q .dataBlock) ?_
  intro _ s₃ h₃
  refine Sat.bind ((steadily_setInNvram slot.lpn 0).ends s₃) ?_
  intro _ s₄ h₄
  have hold : Steady s₁ s₂ := ⟨h₂.mapping, h₂.writes⟩
  rw [hold.mapping, h₁.mapping] at h₃
  have hall := (h₁.trans (hold.then h₃)).steady h₄
  refine Sat.modify ⟨hall.mapping, ?_⟩
  have hlast : Counted 0 1 0 0 s₄.stat
      { s₄.stat with
        hostWriteCount := u32 (s₄.stat.hostWriteCount + 1) } :=
    ⟨.refl _, u32_modEq _, .refl _, .refl _⟩
  exact hall.counted.trans hlast

/-- A page that was programmed is mapped, and counts as one write, of the
host. -/
theorem programPage_effect (fuel : Nat) (info : LpnInfo) (slot : Slot) :
    Ends (programPage c fuel info slot) s fun r s' => ∀ q, r = some q →
      Effect (Function.update s.mappingTable.get slot.lpn (some q)) 1 1
        s s' := by
  refine Sat.bind ((listing_getNewPage fuel).steadily.ends s) ?_
  intro r s₁ h₁
  cases r with
  | none => exact Sat.emit_bind fun _ => ⟨trivial, Sat.pure (by simp)⟩
  | some q =>
      refine Sat.bind (storePage_effect info slot q) ?_
      intro _ s₂ h₂
      refine Sat.pure ?_
      rintro _ ⟨⟩
      rw [h₁.mapping] at h₂
      exact h₁.then h₂

-- ============================================================ collection

/-- What a collection may do to the tables of the host: it unmaps no lpn,
and it counts as many writes as copies. -/
structure Gathers (erases : Nat) (s s' : Ssd) : Prop where
  mapped : ∀ L, s.mappingTable L ≠ none → s'.mappingTable L ≠ none
  counted : ∃ k, Counted k 0 k erases s.stat s'.stat

/-- Keeping the tables is a gathering without an erase. -/
theorem Steady.gathers {s' : Ssd} (h : Steady s s') : Gathers 0 s s' :=
  ⟨fun L hL => by rwa [h.mapping], 0, h.writes.counted⟩

/-- Erases of two collections add up. -/
theorem Gathers.trans {e e' : Nat} {s₁ s₂ s₃ : Ssd}
    (h : Gathers e s₁ s₂) (h' : Gathers e' s₂ s₃) :
    Gathers (e + e') s₁ s₃ := by
  obtain ⟨k, hk⟩ := h.counted
  obtain ⟨k', hk'⟩ := h'.counted
  exact ⟨fun L hL => h'.mapped L (h.mapped L hL), k + k', hk.trans hk'⟩

/-- Setting an entry to a page unmaps nothing. -/
theorem update_ne_none {m : Nat → Option Nat} {lpn q L : Nat}
    (h : m L ≠ none) : Function.update m lpn (some q) L ≠ none := by
  by_cases hL : L = lpn
  · subst hL
    simp
  · rwa [Function.update_of_ne hL]

/-- The lpns of one old page move to the new one, by induction on the fuel of
the walk: each is set, none unmapped. -/
theorem migrateLpns_gathers (oldPpn newPpn fuel : Nat) (oobWrite : Bool) :
    Ends (migrateLpns c oldPpn newPpn fuel oobWrite) s fun _ s' =>
      Gathers 0 s s' := by
  induction fuel generalizing s oobWrite with
  | zero => exact Sat.fault trivial
  | succ fuel ih =>
      refine Sat.get_bind ?_
      split
      · exact Sat.pure (Steady.refl s).gathers
      · next lpn _ =>
          refine Sat.bind
            ((steadily_decreaseInverseMapping _ _).ends s) ?_
          intro _ s₁ h₁
          refine Sat.bind (updateNewPageMapping_effect lpn newPpn _) ?_
          intro _ s₂ h₂
          refine Sat.bind ((steadily_recordOob _ _ _).ends s₂) ?_
          intro _ s₃ h₃
          refine Sat.mono (ih true) ?_ fun _ _ h => h
          intro _ s₄ h₄
          have hset : Gathers 0 s₁ s₂ := by
            refine ⟨fun L hL => ?_, 0, h₂.counted⟩
            rw [h₂.mapping]
            exact update_ne_none hL
          exact h₁.gathers.trans (hset.trans (h₃.gathers.trans h₄))

/-- A copied page is one write of the collector. -/
theorem copyPage_gathers (fuel f b k q : Nat) :
    Ends (copyPage c fuel f b k q) s fun _ s' => Gathers 0 s s' := by
  refine Sat.bind (R := fun _ s₁ => s₁.mappingTable = s.mappingTable
    ∧ Counted 0 0 0 0 s.stat s₁.stat) ?_ ?_
  · exact Sat.modify_bind (Sat.emit fun _ => ⟨trivial, rfl,
      .refl _, .refl _, .refl _, .refl _⟩)
  rintro _ s₁ ⟨hm₁, h₁⟩
  refine Sat.bind (R := fun _ s₂ => s₂.mappingTable = s₁.mappingTable
    ∧ Counted 1 0 0 0 s₁.stat s₂.stat) ?_ ?_
  · exact Sat.modify_bind (Sat.emit fun _ => ⟨trivial, rfl,
      u32_modEq _, .refl _, .refl _, .refl _⟩)
  rintro _ s₂ ⟨hm₂, h₂⟩
  refine Sat.modify_bind (Sat.modify_bind (Sat.get_bind ?_))
  have hgc : Counted 0 0 1 0 s₂.stat
      { s₂.stat with gcWriteCount := u32 (s₂.stat.gcWriteCount + 1) } :=
    ⟨.refl _, .refl _, u32_modEq _, .refl _⟩
  refine Sat.bind (Steadily.ends (Within.ite (steadily_emit _)
    (steadily_pure _)) _) ?_
  intro _ s₃ h₃
  refine Sat.mono (migrateLpns_gathers _ q fuel false) ?_ fun _ _ h => h
  intro _ s₄ h₄
  have hcopy : Gathers 0 s s₃ := by
    refine ⟨fun L hL => ?_, 1, ?_⟩
    · rw [h₃.mapping]
      exact hm₂ ▸ hm₁ ▸ hL
    · exact ((h₁.trans h₂).trans hgc).trans h₃.writes.counted
  exact hcopy.trans h₄

/-- One page of the victim, copied or skipped. -/
theorem migratePage_gathers (fuel f b k : Nat) :
    Ends (migratePage c fuel f b k) s fun _ s' => Gathers 0 s s' := by
  refine Sat.bind ((listing_getNewPage fuel).steadily.ends s) ?_
  intro r s₁ h₁
  cases r with
  | none =>
      exact Sat.emit_bind fun _ => ⟨trivial, Sat.pure h₁.gathers⟩
  | some q =>
      refine Sat.bind (copyPage_gathers fuel f b k q) ?_
      intro _ s₂ h₂
      exact Sat.pure (h₁.gathers.trans h₂)

/-- The pages of one block, by induction on them. -/
theorem migratePages_gathers (fuel f b : Nat) (pages : List Nat)
    (copied : Nat) :
    Ends (migratePages c fuel f b pages copied) s fun _ s' =>
      Gathers 0 s s' := by
  induction pages generalizing s copied with
  | nil => exact Sat.pure (Steady.refl s).gathers
  | cons page pages ih =>
      refine Sat.get_bind ?_
      split
      · refine Sat.bind (migratePage_gathers fuel f b page) ?_
        intro r s₁ h₁
        cases r with
        | fail => exact Sat.pure h₁
        | success =>
            exact Sat.mono (ih (copied + 1)) (fun _ _ h₂ => h₁.trans h₂)
              fun _ _ h => h
      · exact ih copied

/-- The blocks of a superblock, by induction on the flashes. -/
theorem migrateBlocks_gathers (fuel b : Nat) (flashes : List Nat)
    (copied : Nat) :
    Ends (migrateBlocks c fuel b flashes copied) s fun _ s' =>
      Gathers 0 s s' := by
  induction flashes generalizing s copied with
  | nil => exact Sat.pure (Steady.refl s).gathers
  | cons f flashes ih =>
      refine Sat.bind (migratePages_gathers fuel f b _ 0) ?_
      intro r s₁ h₁
      cases r with
      | none => exact Sat.pure h₁
      | some n =>
          refine Sat.get_bind ?_
          split
          · exact Sat.emit_bind fun _ => ⟨trivial, Sat.pure h₁⟩
          · exact Sat.mono (ih (copied + n)) (fun _ _ h₂ => h₁.trans h₂)
              fun _ _ h => h

/-- The blocks a collection erases. -/
def erasesOf (c : Conf) : Ret → Nat
  | .success => c.flashNb * c.planesPerFlash
  | .fail => 0

/-- One collection: the erases are those its result reports. -/
theorem sbGarbageCollection_gathers (fuel : Nat) :
    Ends (sbGarbageCollection c fuel) s fun r s' =>
      Gathers (erasesOf c r) s s' := by
  refine Sat.bind (choosing_selectVictimSuperblock.steadily.ends s) ?_
  intro r s₁ h₁
  cases r with
  | none => exact Sat.pure h₁.gathers
  | some b =>
      refine Sat.bind (Steadily.ends (Within.get_bind fun _ =>
        steadily_emit _) s₁) ?_
      intro _ s₂ h₂
      refine Sat.bind ((steadily_readVictimOob b).ends s₂) ?_
      intro _ s₃ h₃
      refine Sat.bind ((steadily_updateNvramOob b false).ends s₃) ?_
      intro _ s₄ h₄
      refine Sat.bind (migrateBlocks_gathers fuel b _ 0) ?_
      intro r s₅ h₅
      have h := (h₁.trans (h₂.trans (h₃.trans h₄))).gathers.trans h₅
      cases r with
      | none => exact Sat.pure h
      | some n =>
          refine Sat.bind (Steadily.ends (steadily_modifyStat
            (by intro t; exact ⟨rfl, rfl, rfl, rfl⟩)) s₅) ?_
          intro _ s₆ h₆
          refine Sat.bind (Steadily.ends (Within.each Steady.steps
            (steadily_eraseBlock b) _) s₆) ?_
          intro _ s₇ h₇
          have hdone := h.trans (h₆.trans h₇).gathers
          refine Sat.modify_bind (Sat.pure ?_)
          rw [← Nat.zero_add (erasesOf c .success)]
          exact hdone.trans ⟨fun L hL => hL, 0,
            .refl _, .refl _, .refl _, u32_modEq _⟩

/-- Any number of collections, by induction on the rounds. -/
theorem gcCheckLoop_gathers (fuel rounds : Nat) :
    Ends (gcCheckLoop c fuel rounds) s fun _ s' =>
      ∃ e, Gathers e s s' := by
  induction rounds generalizing s with
  | zero => exact Sat.fault trivial
  | succ rounds ih =>
      refine Sat.get_bind ?_
      split
      · refine Sat.bind (sbGarbageCollection_gathers fuel) ?_
        intro r s₁ h₁
        cases r with
        | fail => exact Sat.pure ⟨_, h₁⟩
        | success =>
            refine Sat.bind (Steadily.ends (steadily_modifyStat
              (by intro t; exact ⟨rfl, rfl, rfl, rfl⟩)) s₁) ?_
            intro _ s₂ h₂
            refine Sat.mono ih ?_ fun _ _ h => h
            rintro _ s₃ ⟨e, h₃⟩
            exact ⟨_, h₁.trans (h₂.gathers.trans h₃)⟩
      · exact Sat.pure ⟨0, (Steady.refl s).gathers⟩

/-- The check after a write, run or skipped. -/
theorem gcCheckAfter_gathers (fuel : Nat) (q : Option Nat) :
    Ends (gcCheckAfter c fuel q) s fun _ s' => ∃ e, Gathers e s s' := by
  cases q with
  | none => exact Sat.pure ⟨0, (Steady.refl s).gathers⟩
  | some q =>
      rw [gcCheckAfter]
      split
      · refine Sat.bind (gcCheckLoop_gathers fuel fuel) ?_
        intro _ s₁ h₁
        exact Sat.get_bind (Sat.emit fun _ => ⟨trivial, h₁⟩)
      · exact Sat.pure ⟨0, (Steady.refl s).gathers⟩

end FemuRemap
