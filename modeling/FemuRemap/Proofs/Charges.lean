/-
Which chip a written page charges (`SSD_PAGE_WRITE`,
`SSD_PAGE_PARTIAL_WRITE`).

Of all that the branch of `_FTL_WRITE` for a new page does, one access is
charged (`Idle` is the rest). A page written whole charges the chip and
the channel of the new page. A page written in part charges the chip and
the channel of the old page instead, as a write: the read of the old
page is not charged, and the new page's chip only when the two are on
one flash.
-/
import FemuRemap.Proofs.Effects
import FemuRemap.Proofs.Latency

namespace FemuRemap.Timed

open Lib
open Timing (FlashTs NandConf)

variable {c : Conf} {n : NandConf} {t t' : State} {l : List Event}

-- ============================================== programs without access

/-- The event is not an access. -/
def NoIo : FemuRemap.Event → Prop
  | .io _ => False
  | _ => True

/-- No access is made. -/
abbrev Idle {α : Type} (m : Ftl α) : Prop :=
  Within (fun _ _ => True) NoIo m

theorem anySteps : Steps fun _ _ : Ssd => True :=
  ⟨fun _ => trivial, fun _ _ => trivial⟩

theorem idle_pure {α : Type} (a : α) : Idle (pure a : Ftl α) :=
  Within.pure anySteps a

theorem idle_fault {α : Type} (e : Fault) : Idle (Prog.fault e : Ftl α) :=
  Within.fault anySteps e

theorem idle_emit {e : FemuRemap.Event} (h : NoIo e) : Idle (Prog.emit e) :=
  Within.emit anySteps h

theorem idle_modify (f : Ssd → Ssd) : Idle (Prog.modify f) :=
  Within.modify fun _ => trivial

theorem idle_bind {α β : Type} {m : Ftl α} {f : α → Ftl β} (hm : Idle m)
    (hf : ∀ a, Idle (f a)) : Idle (m >>= f) :=
  Within.bind anySteps hm hf

theorem idle_printError (m : Msg) : Idle (printError m) :=
  idle_emit trivial

/-- Handing out a page accesses nothing. -/
theorem idle_getNewPage (fuel : Nat) : Idle (getNewPage c fuel) :=
  (allocator_getNewPage (fun _ => trivial) (fun _ _ _ _ => trivial)
    fuel).mono fun _ _ _ => trivial

theorem idle_increaseInverseMapping (ppn : Option Nat) (lpn : Nat) :
    Idle (increaseInverseMapping ppn lpn) := by
  cases ppn with
  | none => exact idle_bind (idle_printError _) fun _ => idle_pure _
  | some p =>
      refine Within.get_bind fun s => ?_
      refine idle_bind (idle_emit trivial) fun _ => ?_
      refine idle_bind (idle_emit trivial) fun _ => ?_
      exact idle_bind (idle_modify _) fun _ => idle_pure _

theorem idle_decreaseInverseMapping (ppn : Option Nat) (lpn : Nat) :
    Idle (decreaseInverseMapping ppn lpn) := by
  cases ppn with
  | none => exact idle_bind (idle_printError _) fun _ => idle_pure _
  | some p =>
      refine Within.get_bind fun s => ?_
      have hput : ∀ f, Idle (do Prog.modify f; return Ret.success) :=
        fun f => idle_bind (idle_modify f) fun _ => idle_pure _
      refine Within.ite ?_ (Within.ite ?_ ?_)
      · exact idle_bind (idle_printError _) fun _ => idle_pure _
      · exact Within.ite
          (Within.ite (hput _) (Within.ite (idle_fault _) (hput _)))
          (hput _)
      · exact Within.ite (hput _) (idle_fault _)

/-- Marking is bookkeeping in memory. -/
theorem idle_restatePage (flash block page : Nat) (v v' : Int)
    (f : Stat → Stat) : Idle (restatePage c flash block page v v' f) :=
  Within.get_bind fun _ => idle_bind (idle_emit trivial) fun _ =>
    idle_modify _

theorem idle_refusePage (m : Msg) : Idle (refusePage m) :=
  idle_bind (idle_printError m) fun _ => idle_emit trivial

/-- Marking a page makes no access, whichever the mark. -/
theorem idle_updateBlockStateEntry (flash block page : Nat)
    (mark : PageMark) :
    Idle (updateBlockStateEntry c flash block page mark) := by
  refine Within.ite (idle_refusePage _) (Within.get_bind fun s => ?_)
  cases mark with
  | valid =>
      refine Within.ite ?_ (idle_refusePage _)
      exact idle_bind (idle_emit trivial) fun _ => idle_restatePage _ _ _ _ _ _
  | invalid =>
      exact Within.ite (idle_restatePage _ _ _ _ _ _) (idle_refusePage _)
  | free =>
      exact Within.ite (idle_restatePage _ _ _ _ _ _)
        (Within.ite (idle_restatePage _ _ _ _ _ _) (idle_refusePage _))

/-- Dropping the old page of an lpn accesses nothing. -/
theorem idle_updateOldPageMapping (lpn : Nat) :
    Idle (updateOldPageMapping c lpn) := by
  refine Within.get_bind fun s => ?_
  cases s.mappingTable lpn with
  | none => exact idle_pure _
  | some old =>
      refine idle_bind (idle_decreaseInverseMapping _ _) fun r => ?_
      cases r with
      | fail => exact idle_pure _
      | success =>
          refine idle_bind (idle_updateBlockStateEntry _ _ _ _) fun _ => ?_
          refine Within.get_bind fun s => Within.ite ?_ (idle_pure _)
          exact Within.ite (idle_printError _) (idle_modify _)

theorem idle_updateNewPageMapping (lpn ppn : Nat) (type : BlockType) :
    Idle (updateNewPageMapping c lpn ppn type) := by
  refine idle_bind (idle_increaseInverseMapping _ _) fun r => ?_
  cases r with
  | fail => exact idle_pure _
  | success =>
      refine idle_bind (idle_modify _) fun _ => ?_
      refine idle_bind (idle_bind (idle_modify _) fun _ => Within.ite ?_
        (idle_pure _)) fun _ => idle_updateBlockStateEntry _ _ _ _
      exact Within.each anySteps
        (fun _ => idle_updateBlockStateEntry _ _ _ _) _

/-- A program without access leaves the timestamps and the clock. -/
theorem lift_idle {α : Type} {m : Ftl α} {a : α} (hm : Idle m)
    (h : (layer n).lift m t = ⟨.ok a, t', l⟩) :
    t'.ts = t.ts ∧ t'.clock = t.clock := by
  obtain ⟨s, l₀, hbase, rfl, -⟩ := (layer n).lift_ok h
  have hno := (hm ((layer n).get t)).2
  rw [hbase] at hno
  have hkeep : l₀.foldl (State.charge n) t = t := by
    clear h hbase
    induction l₀ with
    | nil => rfl
    | cons e l₀ ih =>
        rw [List.forall_mem_cons] at hno
        have hcharge : State.charge n t e = t := by
          cases e with
          | io o => exact hno.1.elim
          | _ => rfl
        rw [List.foldl_cons, hcharge]
        exact ih hno.2
  simp only [layer, hkeep, and_self]

-- ============================================= the access of a new page

/-- The page is written in part. -/
abbrev InPart (slot : Slot) : Prop :=
  slot.leftSkip ≠ 0 ∨ slot.rightSkip ≠ 0

/-- The flash that the access charges. -/
def chargedFlash (c : Conf) (slot : Slot) (old : Option Nat) (newPpn : Nat) :
    Nat :=
  match old with
  | some old => if InPart slot then calcFlash c old
      else calcFlash c newPpn
  | none => calcFlash c newPpn

/-- What an access does to the time stamps, when its event is its own. -/
theorem access_ts {io : Io} {m : Ftl Unit} {cur : Int}
    (hm : ∀ s, (m s).log = [.io io])
    (h : access n io m t = ⟨.ok cur, t', l⟩) :
    t'.ts = Timing.chargeIo n (t.clock 0) t.ts io := by
  unfold access at h
  rw [Prog.run_get_bind] at h
  obtain ⟨_, t₁, l₁, l₂, hlift, hrest, rfl⟩ := Prog.bind_ok h
  cases hrest
  obtain ⟨s, l₀, hbase, rfl, -⟩ := (layer n).lift_ok hlift
  have hlog := hm ((layer n).get t)
  rw [hbase] at hlog
  subst hlog
  rfl

/-- The source charges the program to the flash computed from the slot and its
old page. -/
theorem accessPage_ts {slot : Slot} {old : Option Nat} {newPpn : Nat}
    {cur : Int}
    (h : accessPage c n slot old newPpn t = ⟨.ok cur, t', l⟩) :
    t'.ts = (Timing.ssdPageWrite n (t.clock 0)
      (chargedFlash c slot old newPpn) t.ts).1 := by
  unfold accessPage at h
  cases old with
  | none => exact access_ts (fun _ => rfl) h
  | some old =>
      dsimp only at h
      unfold chargedFlash
      dsimp only
      by_cases hpart : InPart slot
      · rw [if_pos hpart] at h
        rw [if_pos hpart]
        exact access_ts (fun _ => rfl) h
      · rw [if_neg hpart] at h
        rw [if_neg hpart]
        exact access_ts (fun _ => rfl) h

/-- What a new page charges, from the state before. -/
theorem programPage_ts {fuel : Nat} {info : LpnInfo} {slot : Slot}
    {max max' : Int} {q : Nat}
    (h : programPage c n fuel info slot max t
      = ⟨.ok (some (q, max')), t', l⟩) :
    t'.ts = (Timing.ssdPageWrite n (t.clock 0)
      (chargedFlash c slot (t.ssd.mappingTable slot.lpn) q) t.ts).1 := by
  unfold programPage at h
  obtain ⟨r, t₁, l₁, l₂, hnew, hrest, rfl⟩ := Prog.bind_ok h
  have hkeep := lift_idle (idle_getNewPage fuel) hnew
  obtain ⟨s₁, l₀, hbase, -, -⟩ := (layer n).lift_ok hnew
  have hmap : t₁.ssd.mappingTable = t.ssd.mappingTable := by
    have honly : OnlyLists t.ssd (getNewPage c fuel t.ssd).st :=
      (listing_getNewPage fuel t.ssd).1
    have hst : t₁.ssd = (getNewPage c fuel t.ssd).st :=
      congrArg (fun o : Out State Event Fault (Option Nat) => o.st.ssd)
        hnew.symm
    rw [hst, honly]
  cases r with
  | none => cases hrest
  | some q' =>
      obtain ⟨m, t₂, l₃, l₄, hstore, hend, rfl⟩ := Prog.bind_ok hrest
      cases hend
      unfold storePage at hstore
      rw [Prog.run_get_bind] at hstore
      obtain ⟨cur, t₃, l₅, l₆, haccess, htail, rfl⟩ := Prog.bind_ok hstore
      obtain ⟨_, t₄, l₇, l₈, hlift, hend, rfl⟩ := Prog.bind_ok htail
      cases hend
      have hidle : t'.ts = t₃.ts := by
        refine (lift_idle ?_ hlift).1
        refine idle_bind (idle_modify _) fun _ => ?_
        refine idle_bind (idle_updateOldPageMapping _) fun _ => ?_
        refine idle_bind (idle_updateNewPageMapping _ _ _) fun _ => ?_
        exact idle_bind (idle_modify _) fun _ => idle_modify _
      rw [hidle, accessPage_ts haccess, hmap, hkeep.1, hkeep.2]

-- ======================================================= the right chip

/-- When a program that is made now starts on the chip. -/
def programStart (n : NandConf) (now : Int) (ts : FlashTs) (flash : Nat) :
    Int :=
  max (ts.chipNextAvailTime flash)
    (max (ts.chnlNextAvailTime (Timing.numChannel n flash)) now
      + n.regWriteDelay)

/-- When a page read that is made now is done. -/
def readDone (n : NandConf) (now : Int) (ts : FlashTs) (flash : Nat) : Int :=
  (Timing.ssdPageRead n now flash ts).1.chipNextAvailTime flash

/-- A program moves its chip's stamp only, -/
theorem pageWrite_chip (now : Int) (ts : FlashTs) (flash x : Nat) :
    (Timing.ssdPageWrite n now flash ts).1.chipNextAvailTime x
      = if x = flash then programStart n now ts flash + n.cellProgramDelay
        else ts.chipNextAvailTime x := by
  unfold Timing.ssdPageWrite programStart
  simp only [Table.get_set]
  by_cases hx : x = flash
  · rw [if_pos hx, if_pos hx]
    split <;> split <;> omega
  · rw [if_neg hx, if_neg hx]

/-- and its channel's. -/
theorem pageWrite_chnl (now : Int) (ts : FlashTs) (flash y : Nat) :
    (Timing.ssdPageWrite n now flash ts).1.chnlNextAvailTime y
      = if y = Timing.numChannel n flash then
          max (ts.chnlNextAvailTime y) now + n.regWriteDelay
        else ts.chnlNextAvailTime y := by
  unfold Timing.ssdPageWrite
  simp only [Table.get_set]
  by_cases hy : y = Timing.numChannel n flash
  · rw [if_pos hy, if_pos hy, hy]
    split <;> omega
  · rw [if_neg hy, if_neg hy]

/-- The chip and the channel of `flash` are charged with a program. -/
def ProgramCharged (n : NandConf) (ts ts' : FlashTs) (flash : Nat) : Prop :=
  ts.chipNextAvailTime flash + n.cellProgramDelay
      ≤ ts'.chipNextAvailTime flash
    ∧ ts.chnlNextAvailTime (Timing.numChannel n flash) + n.regWriteDelay
      ≤ ts'.chnlNextAvailTime (Timing.numChannel n flash)

/-- The old page's chip is charged with a read, and the program of the
new page comes after it. -/
def ReadCharged (n : NandConf) (now : Int) (ts ts' : FlashTs)
    (old flash : Nat) : Prop :=
  readDone n now ts old ≤ ts'.chipNextAvailTime old
    ∧ readDone n now ts old + n.cellProgramDelay
      ≤ ts'.chipNextAvailTime flash

/-- A page written to `newPpn` is charged to the chips it is on. -/
def RightlyCharged (c : Conf) (n : NandConf) (slot : Slot)
    (old : Option Nat) (newPpn : Nat) (now : Int) (ts ts' : FlashTs) :
    Prop :=
  ProgramCharged n ts ts' (calcFlash c newPpn)
    ∧ ∀ o, old = some o → InPart slot →
      ReadCharged n now ts ts' (calcFlash c o) (calcFlash c newPpn)

/-- When a write to `old` stands for a read of `old` and a program of
`flash`: on one flash, if the read fits in before the program; on two, if
a program takes no time and nothing waits for the read. -/
def Interchangeable (n : NandConf) (now : Int) (ts : FlashTs)
    (old flash : Nat) : Prop :=
  if old = flash then readDone n now ts old ≤ programStart n now ts old
  else n.cellProgramDelay = 0
    ∧ (Timing.numChannel n old = Timing.numChannel n flash
      ∨ n.regWriteDelay = 0)
    ∧ readDone n now ts old ≤ programStart n now ts old
    ∧ readDone n now ts old ≤ ts.chipNextAvailTime flash

/-- So it charges the flash it is given. -/
theorem pageWrite_programCharged (now : Int) (ts : FlashTs) (flash : Nat) :
    ProgramCharged n ts (Timing.ssdPageWrite n now flash ts).1 flash := by
  unfold ProgramCharged
  rw [pageWrite_chip, pageWrite_chnl, if_pos rfl, if_pos rfl]
  unfold programStart
  omega

/-- Charging the old page's chip as a write is right just when the two
are interchangeable. -/
theorem inPart_charged_iff (now : Int) (ts : FlashTs) (old flash : Nat) :
    (ProgramCharged n ts (Timing.ssdPageWrite n now old ts).1 flash
        ∧ ReadCharged n now ts (Timing.ssdPageWrite n now old ts).1 old
          flash)
      ↔ Interchangeable n now ts old flash := by
  unfold Interchangeable
  by_cases hsame : old = flash
  · subst hsame
    rw [if_pos rfl]
    have hprog := pageWrite_programCharged (n := n) now ts old
    unfold ReadCharged
    rw [pageWrite_chip, if_pos rfl]
    constructor
    · rintro ⟨-, -, hread⟩
      omega
    · intro hread
      exact ⟨hprog, by omega, by omega⟩
  · rw [if_neg hsame]
    have hother : flash ≠ old := fun h => hsame h.symm
    unfold ProgramCharged ReadCharged
    rw [pageWrite_chip, if_neg hother, pageWrite_chip, if_pos rfl,
      pageWrite_chnl]
    -- on one channel the bus time is charged in either case
    by_cases hch : Timing.numChannel n flash = Timing.numChannel n old
    · rw [if_pos hch]
      constructor
      · rintro ⟨⟨hchip, -⟩, hread, hafter⟩
        exact ⟨by omega, Or.inl hch.symm, by omega, by omega⟩
      · rintro ⟨hcell, -, hread, hafter⟩
        exact ⟨⟨by omega, by omega⟩, by omega, by omega⟩
    · rw [if_neg hch]
      constructor
      · rintro ⟨⟨hchip, hchnl⟩, hread, hafter⟩
        exact ⟨by omega, Or.inr (by omega), by omega, by omega⟩
      · rintro ⟨hcell, hreg, hread, hafter⟩
        have hreg := hreg.resolve_left fun h => hch h.symm
        exact ⟨⟨by omega, by omega⟩, by omega, by omega⟩

/-- Between two allocations of a run the next page is on the flash of the
root that is asked next. -/
theorem newPage_flash (g : Geo c) {tr : List FemuRemap.Event} {s : Ssd}
    (h : Visited c s tr) {fuel q : Nat}
    (hres : (getNewPage c fuel s).res = .ok (some q)) :
    calcFlash c q = s.lists.emptyBlockTableIndex := by
  obtain ⟨p, hp⟩ := h.aligned g
  have hsat := (g.getNewPage_sat hp.lists hp.pool (fun _ => trivial)
    (fun _ _ _ _ => trivial) fuel).ends
  rw [hres] at hsat
  obtain ⟨_, p', ⟨⟩, b, k, _, hn, rfl, -⟩ := hsat
  obtain ⟨hb, hk⟩ := Pool.next_lt hp.pool g.sbPages_pos hn
  rw [g.sized.calcFlash_eq (g.pageAt_lt hb hk), hp.lists.index,
    turn_next hp.pool hn]
  exact flashOf_ppnAt _ hb (pos_div_lt hk)

/-- The page returned is the one handed out. -/
theorem programPage_new {fuel : Nat} {info : LpnInfo} {slot : Slot}
    {max max' : Int} {q : Nat}
    (h : programPage c n fuel info slot max t
      = ⟨.ok (some (q, max')), t', l⟩) :
    (getNewPage c fuel t.ssd).res = .ok (some q) := by
  obtain ⟨r, t₁, l₁, l₂, hnew, hrest, rfl⟩ := Prog.bind_ok h
  obtain ⟨s₁, l₀, hbase, -, -⟩ := (layer n).lift_ok hnew
  cases r with
  | none => cases hrest
  | some q' =>
      obtain ⟨_, _, _, _, -, hend, -⟩ := Prog.bind_ok hrest
      cases hend
      exact congrArg Out.res hbase

/-- Charging a page as `_FTL_WRITE` does is right just when it is written
whole, or the old page is not mapped, or the old page's chip may stand for
that of the new page. -/
theorem rightlyCharged_iff {fuel : Nat} {info : LpnInfo} {slot : Slot}
    {max max' : Int} {newPpn : Nat}
    (h : programPage c n fuel info slot max t
      = ⟨.ok (some (newPpn, max')), t', l⟩) :
    RightlyCharged c n slot (t.ssd.mappingTable slot.lpn) newPpn
        (t.clock 0) t.ts t'.ts
      ↔ ∀ o, t.ssd.mappingTable slot.lpn = some o → InPart slot →
        Interchangeable n (t.clock 0) t.ts (calcFlash c o)
          (calcFlash c newPpn) := by
  rw [programPage_ts h]
  unfold RightlyCharged chargedFlash
  cases hold : t.ssd.mappingTable slot.lpn with
  | none =>
      have hwhole := pageWrite_programCharged (n := n) (t.clock 0) t.ts
        (calcFlash c newPpn)
      exact iff_of_true ⟨hwhole, nofun⟩ nofun
  | some o =>
      dsimp only
      -- a slot in part is charged to the flash of its old page
      by_cases hpart : InPart slot
      · rw [if_pos hpart]
        have hiff := inPart_charged_iff (n := n) (t.clock 0) t.ts
          (calcFlash c o) (calcFlash c newPpn)
        constructor
        · rintro ⟨hprog, hread⟩ o' ho' -
          cases ho'
          exact hiff.1 ⟨hprog, hread o rfl hpart⟩
        · intro hall
          obtain ⟨hprog, hread⟩ := hiff.2 (hall o rfl hpart)
          refine ⟨hprog, ?_⟩
          rintro o' ho' -
          cases ho'
          exact hread
      · rw [if_neg hpart]
        have hwhole := pageWrite_programCharged (n := n) (t.clock 0) t.ts
          (calcFlash c newPpn)
        exact iff_of_true ⟨hwhole, fun _ _ h => absurd h hpart⟩
          fun _ _ h => absurd h hpart

/-- A page that goes to a newly allocated `newPpn` is charged to the
chips it is on just when it is written whole, or the old page is not
mapped, or the old page's chip may stand for the new page's. In the states
of runs the new page's chip is the one at `empty_block_table_index`. -/
theorem programmed_chip_charged_iff (c : Conf) (n : NandConf) (fuel : Nat)
    (info : LpnInfo) (slot : Slot) (max max' : Int) (newPpn : Nat)
    (t t' : State) (l : List Event)
    (h : programPage c n fuel info slot max t
      = ⟨.ok (some (newPpn, max')), t', l⟩) :
    (RightlyCharged c n slot (t.ssd.mappingTable slot.lpn) newPpn
        (t.clock 0) t.ts t'.ts
      ↔ ∀ o, t.ssd.mappingTable slot.lpn = some o → InPart slot →
        Interchangeable n (t.clock 0) t.ts (calcFlash c o)
          (calcFlash c newPpn))
    ∧ ∀ tr, Geo c → Visited c t.ssd tr →
      (RightlyCharged c n slot (t.ssd.mappingTable slot.lpn) newPpn
          (t.clock 0) t.ts t'.ts
        ↔ ∀ o, t.ssd.mappingTable slot.lpn = some o → InPart slot →
          Interchangeable n (t.clock 0) t.ts (calcFlash c o)
            t.ssd.lists.emptyBlockTableIndex) := by
  refine ⟨rightlyCharged_iff h, fun tr g hv => ?_⟩
  rw [← newPage_flash g hv (programPage_new h)]
  exact rightlyCharged_iff h

-- ===================================================== two flashes

/-- Two flashes with two sectors a page. -/
def pairConf : Conf := initSsdConfig 2 8 2 2

/-- Each flash on a channel of its own. -/
def pairNand : NandConf := { nand with channelNb := 2 }

/-- A write of the whole first page. -/
def wholePage : Cmd := .write ⟨2, 0, fun _ => ⟨0, -1, some 7⟩⟩

/-- The device after it, at rest. -/
def written : State :=
  ⟨(runCmds pairConf 200 [wholePage] (ftlInit pairConf)).st,
    Timing.initFlashTs, fun _ => 0⟩

theorem written_reach : ∃ tr, Reach pairConf written.ssd tr := by
  have hin : ∀ cmd ∈ [wholePage], InRange pairConf cmd := by
    intro cmd hcmd
    cases List.mem_singleton.1 hcmd
    intro i
    show (-1 : Int) < pairConf.pageMappingEntryNb
    decide
  have hok : (runCmds pairConf 200 [wholePage] (ftlInit pairConf)).res
      = .ok () := by decide +kernel
  exact ⟨_, (Ran.runCmds 200 [wholePage] hin .init hok).reach⟩

/-- A page's first sector alone. -/
def firstSector : Slot := ⟨0, 0, 1, 1⟩

/-- The request that cuts it. -/
example : slots pairConf 0 1 = [firstSector] := by decide

/-- The whole first page. -/
def wholeSlot : Slot := ⟨0, 0, 0, 2⟩

/-- A slot over the whole page is charged to the new page's chip. -/
theorem programmed_chip_charged_wholeSlot :
    (programPage pairConf pairNand 200 ⟨0, -1, some 8⟩ wholeSlot 0
        written).res = .ok (some (16, 840000))
      ∧ RightlyCharged pairConf pairNand wholeSlot
        (written.ssd.mappingTable 0) 16 (written.clock 0) written.ts
        (programPage pairConf pairNand 200 ⟨0, -1, some 8⟩ wholeSlot 0
          written).st.ts := by
  have hrun : (programPage pairConf pairNand 200 ⟨0, -1, some 8⟩ wholeSlot 0
      written).res = .ok (some (16, 840000)) := by decide +kernel
  refine ⟨hrun, ?_⟩
  refine (programmed_chip_charged_iff pairConf pairNand 200 ⟨0, -1, some 8⟩
    wholeSlot 0 840000 16 written _ _ (Out.eq_of_res hrun)).1.2 ?_
  intro o _ hpart
  exact absurd hpart (by decide)

/-- The first page is on flash 0. Its first sector is written again, the
new page is on flash 1, and nothing of flash 1 is charged. -/
theorem programmed_chip_not_charged :
    (∃ tr, Reach pairConf written.ssd tr)
      ∧ written.ssd.mappingTable 0 = some 0
      ∧ calcFlash pairConf 0 = 0
      ∧ (programPage pairConf pairNand 200 ⟨0, -1, some 8⟩ firstSector 0
        written).res = .ok (some (16, 840000))
      ∧ calcFlash pairConf 16 = 1
      ∧ written.ts.chipNextAvailTime 1 = 0
      ∧ written.ts.chnlNextAvailTime 1 = 0
      ∧ (programPage pairConf pairNand 200 ⟨0, -1, some 8⟩ firstSector 0
        written).st.ts.chipNextAvailTime 1 = 0
      ∧ (programPage pairConf pairNand 200 ⟨0, -1, some 8⟩ firstSector 0
        written).st.ts.chnlNextAvailTime 1 = 0
      ∧ pairNand.cellProgramDelay = 800000 :=
  ⟨written_reach, by decide +kernel, by decide, by decide +kernel, by decide,
    by decide, by decide, by decide +kernel, by decide +kernel, rfl⟩

end FemuRemap.Timed
