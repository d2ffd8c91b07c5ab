/-
Running out of pages. `GET_NEW_PAGE` tests the block it got for `NULL`
only after the `SB_DEBUG` checks have read its fields, so that the `FAIL`
its callers are written for is never returned: what should be a failed
write or a failed collection stops the device.

A clean failure is therefore one that does not come up: the theorem says
in which states that is so, for an allocation and for a collection.
-/
import FemuRemap.Proofs.Agreement

namespace FemuRemap

open Lib

variable {c : Conf} {p : Pool} {s : Ssd} {tr : List Event} {fuel : Nat}

/-- Pages that have not been handed out since their last erase. -/
def pagesLeft (c : Conf) (s : Ssd) : Nat :=
  c.sbPages * (s.lists.emptyBlockList 0).emptyHead.length + activeRoom c s

/-- What can be handed out is the pool's room. -/
theorem Geo.pagesLeft_eq (g : Geo c) {out : List Nat}
    (h : Aligned c out p s) : pagesLeft c s = p.room c.sbPages := by
  unfold pagesLeft Pool.room
  rw [g.activeRoom_eq h.pool h.lists, h.lists.roots 0 g.flash_pos]
  simp [rootOf]

/-- The tables of the host's view are the same. -/
structure SameTables (s s' : Ssd) : Prop where
  mapping : s'.mappingTable = s.mappingTable
  lists : s'.inverseMappingTable = s.inverseMappingTable
  states : s'.blockStateTable = s.blockStateTable
  inNvram : s'.inNvram = s.inNvram

/-- Without an empty block `GET_NEW_PAGE` fails, and so does a write at
the first page it has to program, leaving the tables alone. -/
structure CleanAllocation (c : Conf) (fuel : Nat) (s : Ssd) : Prop where
  newPage : (getEmptyBlock c fuel s).res = .ok none →
    (getNewPage c fuel s).res = .ok none
  write : ∀ info slot rest i q, (info i).flag = 0 →
    (getEmptyBlock c fuel s).res = .ok none →
    (writePages c fuel info (slot :: rest) i q s).res = .ok none
      ∧ SameTables s (writePages c fuel info (slot :: rest) i q s).st

/-- A collection that chose a victim and does not succeed fails with all
blocks in place and the records kept. -/
def CleanCollection (c : Conf) (fuel : Nat) (s : Ssd) : Prop :=
  ∀ b, (selectVictimSuperblock c s).res = .ok (some b) →
    (sbGarbageCollection c fuel s).res ≠ .ok .success →
    (sbGarbageCollection c fuel s).res = .ok .fail
      ∧ BlocksInPlace c (sbGarbageCollection c fuel s).st.lists
      ∧ OneRecord c (sbGarbageCollection c fuel s).st

-- ========================================================== allocations

/-- The alignment needs nothing of the counts. -/
theorem Visited.aligned (g : Geo c) (h : Visited c s tr) :
    AllAligned c s := by
  have hstep : ∀ s fuel cmd, AllAligned c s → InRange c cmd →
      Sat (fun _ => True) NoListError (exec c fuel cmd) s
        (fun _ s' => AllAligned c s') fun _ _ => True :=
    fun s fuel cmd h _ => g.exec_aligned h fuel cmd
  refine (Visited.invariant ⟨_, g.aligned_init⟩ hstep
    (fun s fuel req h _ _ => g.writePages_aligned h fuel _ _ _ _)
    (fun s b h => (framed_useRemap (I := anyBlock) b).aligned h) ?_ h
    fun _ _ => trivial).1
  intro s fuel h
  exact g.sbGarbageCollection_aligned h fuel

/-- `GET_EMPTY_BLOCK` finds none exactly when no page is left. -/
theorem Geo.getEmptyBlock_none (g : Geo c) (h : Aligned c [] p s)
    (hf : fuelBound c < fuel) :
    (getEmptyBlock c fuel s).res = .ok none ↔ p.room c.sbPages = 0 := by
  have hsat := (g.getEmptyBlock_sat h.lists.toRep h.pool
    (fun _ => trivial) fuel).ends
  rw [← Pool.next_eq_none g.sbPages_pos]
  cases hres : (getEmptyBlock c fuel s).res with
  | error e =>
      rw [hres] at hsat
      have := g.sized.flashNb_le
      have hle := hsat.2
      unfold fuelBound at hf
      omega
  | ok r =>
      rw [hres] at hsat
      cases r with
      | none => exact ⟨fun _ => hsat, fun _ => rfl⟩
      | some r =>
          obtain ⟨b, k, p', l, hn, -⟩ := hsat
          rw [hn]
          simp

/-- `GET_NEW_PAGE` never returns `FAIL`. -/
theorem Geo.getNewPage_ne_none (g : Geo c) (h : Aligned c [] p s) :
    (getNewPage c fuel s).res ≠ .ok none := by
  intro hres
  have hsat := (g.getNewPage_sat h.lists h.pool (fun _ => trivial)
    (fun _ _ _ _ => trivial) fuel).ends
  rw [hres] at hsat
  obtain ⟨q, p', hq, -⟩ := hsat
  cases hq

/-- Without fuel running out, an allocation fails for want of pages only. -/
theorem Geo.cleanAllocation_iff (g : Geo c) (h : Aligned c [] p s)
    (hf : fuelBound c < fuel) :
    CleanAllocation c fuel s ↔ 0 < pagesLeft c s := by
  rw [g.pagesLeft_eq h, Nat.pos_iff_ne_zero, Ne,
    ← g.getEmptyBlock_none h hf]
  constructor
  · exact fun hclean hnone =>
      g.getNewPage_ne_none h (hclean.newPage hnone)
  · exact fun hsome => ⟨fun hnone => absurd hnone hsome,
      fun _ _ _ _ _ _ hnone => absurd hnone hsome⟩

-- ========================================================== collections

/-- The victim is a full superblock with a page to gain. -/
theorem Geo.victim_mem (g : Geo c) (h : Sound c p s) {b : Nat}
    (hb : (selectVictimSuperblock c s).res = .ok (some b)) :
    b ∈ p.full ∧ livePages c s b < c.sbPages := by
  have hsat := (g.selectVictimSuperblock_sat (E := fun _ _ => True)
    h.pages.lists h.pages.pool h.pages.recount
    fun _ => ⟨trivial, trivial⟩).ends
  rw [hb] at hsat
  obtain ⟨i, l, hi, -, -, hfew, -⟩ := hsat
  exact ⟨List.mem_of_getElem? hi, hfew⟩

/-- A collection is clean when its live pages find room. -/
theorem Geo.cleanCollection_iff (g : Geo c) (h : Sound c p s)
    (hf : fuelBound c < fuel)
    (hlog : ∀ e ∈ (sbGarbageCollection c fuel s).log, NoWrap e) :
    CleanCollection c fuel s
      ↔ ∀ b, (selectVictimSuperblock c s).res = .ok (some b) →
        livePages c s b ≤ pagesLeft c s := by
  rw [g.pagesLeft_eq h.pages.toAligned]
  have hrely : ∀ e ∈ (sbGarbageCollection c fuel s).log,
      Relied c False e := fun e he => relied_false (hlog e he)
  constructor
  · intro hclean b hb
    by_contra hlt
    obtain ⟨hmem, hfew⟩ := g.victim_mem h hb
    have hpost := (g.sbGarbageCollection_serves (A := True) (B := False) h
      fuel (.inl trivial) hrely).2
    -- a success would have moved more pages than there was room for
    have hne : (sbGarbageCollection c fuel s).res ≠ .ok .success := by
      intro hres
      rw [hres] at hpost
      obtain ⟨b', ρ, l, p', hrel, hb', -⟩ := hpost
      rw [hb] at hb'
      cases hb'
      obtain ⟨i, p₂, -, hchain, -⟩ := hrel.pool
      have hroom := hchain.room g.sbPages_pos
      rw [Pool.room_eject, hrel.count] at hroom
      omega
    have hfail := (hclean b hb hne).1
    rw [hfail] at hpost
    exact absurd (hpost.2.1 b hmem) (Nat.not_le.2 hfew)
  · intro hroom b hb hne
    exfalso
    obtain ⟨hmem, hfew⟩ := g.victim_mem h hb
    have hpost := (g.sbGarbageCollection_serves (A := False) (B := False) h
      fuel (.inr ⟨⟨b, hmem, hfew⟩, fun b' hb' _ => hroom b' hb'⟩) hrely).2
    cases hres : (sbGarbageCollection c fuel s).res with
    | ok r =>
        rw [hres] at hpost
        cases r with
        | success => exact hne hres
        | fail => exact hpost.1
    | error e =>
        rw [hres] at hpost
        rcases hpost with ⟨-, hle⟩ | ⟨-, hfalse⟩
        · omega
        · exact hfalse

/-- In every state that a run visits, an allocation cannot fail uncleanly
exactly when a page is left, and, if no count wraps, neither can a
collection exactly when there are pages left for the live pages of its
victim. -/
theorem exhaustion_clean_iff (g : Geo c) (h : Visited c s tr)
    (hf : fuelBound c < fuel) :
    (CleanAllocation c fuel s ↔ 0 < pagesLeft c s)
      ∧ ((∀ e ∈ tr ++ (sbGarbageCollection c fuel s).log, NoWrap e) →
        (CleanCollection c fuel s
          ↔ ∀ b, (selectVictimSuperblock c s).res = .ok (some b) →
            livePages c s b ≤ pagesLeft c s)) := by
  obtain ⟨p, hp⟩ := h.aligned g
  refine ⟨g.cleanAllocation_iff hp hf, fun hr => ?_⟩
  obtain ⟨hr₁, hr₂⟩ := List.forall_mem_append.1 hr
  obtain ⟨⟨p', hp'⟩, -⟩ := h.sound g hr₁
  exact g.cleanCollection_iff hp' hf hr₂

/-- After a run with collections: the next victim has a live page, and two
pages are left. -/
theorem exhaustion_clean_busy :
    pagesLeft tinyConf busyOut.st = 2
      ∧ (selectVictimSuperblock tinyConf busyOut.st).res = .ok (some 2)
      ∧ livePages tinyConf busyOut.st 2 = 1
      ∧ CleanAllocation tinyConf 200 busyOut.st
      ∧ CleanCollection tinyConf 200 busyOut.st := by
  have heval : pagesLeft tinyConf busyOut.st = 2
      ∧ (selectVictimSuperblock tinyConf busyOut.st).res = .ok (some 2)
      ∧ livePages tinyConf busyOut.st 2 = 1
      ∧ ∀ e ∈ busyOut.log
        ++ (sbGarbageCollection tinyConf 200 busyOut.st).log, NoWrap e := by
    decide +kernel
  obtain ⟨hleft, hvictim, hlive, hlog⟩ := heval
  obtain ⟨halloc, hcollect⟩ := exhaustion_clean_iff tinyConf_geo
    busyOut_reach.visited (show fuelBound tinyConf < 200 by decide)
  refine ⟨hleft, hvictim, hlive, halloc.2 (by omega),
    (hcollect hlog).2 fun b hb => ?_⟩
  rw [hvictim] at hb
  cases hb
  omega

-- ======================================================= a full device

/-- Two flashes of one block of one page. -/
def fullConf : Conf := initSsdConfig 2 1 1 1

def fullOut : Out Ssd Event Fault Unit :=
  runCmds fullConf 200 [writeOf 0 7, writeOf 1 8] (ftlInit fullConf)

/-- Overwriting a page of a full device reads the missing block. -/
theorem exhaustion_faults_full :
    Reach fullConf fullOut.st fullOut.log
      ∧ (getEmptyBlock fullConf 200 fullOut.st).res = .ok none
      ∧ (getNewPage fullConf 200 fullOut.st).res = .error .nullEmptyBlock
      ∧ (exec fullConf 200 (writeOf 0 9) fullOut.st).res
        = .error .nullEmptyBlock := by
  have heval : fullOut.res = .ok ()
      ∧ (getEmptyBlock fullConf 200 fullOut.st).res = .ok none
      ∧ (getNewPage fullConf 200 fullOut.st).res = .error .nullEmptyBlock
      ∧ (exec fullConf 200 (writeOf 0 9) fullOut.st).res
        = .error .nullEmptyBlock := by
    decide +kernel
  refine ⟨(Ran.start 200 [writeOf 0 7, writeOf 1 8] ?_ heval.1).reach,
    heval.2⟩
  intro cmd hc
  simp only [List.mem_cons, List.not_mem_nil, or_false] at hc
  rcases hc with rfl | rfl
  · exact inRange_writeOf _ _
  · exact inRange_writeOf _ _

end FemuRemap
