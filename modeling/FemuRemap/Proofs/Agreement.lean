/-
Runs in which no count wraps: the map, the inverse lists, the reference
counts and the NVRAM records agree in every state between requests.

# The condition

`NoWrap` asks that an lpn enters only lists of fewer than 127 nodes. That
is slightly more than that at most 127 lpns share a page
(`FewSharers`): remapping an lpn to the page it is already mapped to
enters it a second time before the first node is removed, so a page with
127 lpns holds 128 nodes for a moment. The counters are `int8_t` and no
check guards them. `wrapRun` is a run that goes this way.
-/
import FemuRemap.Proofs.Host
import FemuRemap.Proofs.Run

namespace FemuRemap

open Lib

variable {c : Conf} {p : Pool} {s : Ssd} {tr : List Event} {B : Prop}

-- ================================================================ runs

/-- A new device: nothing mapped, every page free. -/
theorem Geo.sound_init (g : Geo c) :
    Sound c (.init c.blockNb) (ftlInit c) where
  pages := g.pages_init
  maps :=
    { count := fun q _ L => by simp [ftlInit, Ssd.refs, ind]
      bound := fun L q h => by simp [ftlInit] at h }
  records :=
    { flag := fun L q h => by simp [ftlInit] at h
      single := fun L L' q h => by simp [ftlInit] at h
      entries := fun b _ _ => by
        have hz : nvramRefs c (ftlInit c).mappingTable.get
            (ftlInit c).inNvram.get b = 0 :=
          tally_eq_zero fun L _ => by simp [ftlInit]
        rw [hz]
        simp [ftlInit, initNvramOob, stored, ind]
      cleared := fun b hb => absurd hb (by simp) }

/-- The budget holds before the first entry. -/
theorem Geo.held_init (g : Geo c) (hT : B → c.totalOobSeg < 2 ^ 64) :
    Held c B (.init c.blockNb) (ftlInit c) := by
  refine ⟨g.sound_init, fun hB => ⟨?_, hT hB⟩⟩
  have hz : segs c (ftlInit c) = 0 := tally_eq_zero fun _ _ => rfl
  rw [hz]
  exact Int.natCast_nonneg _

/-- A command in a sound state, when space may run out. -/
theorem Geo.exec_held (g : Geo c) (h : ∃ p, Held c B p s) {cmd : Cmd}
    (hin : InRange c cmd) (fuel : Nat) :
    Serves c B fuel True (exec c fuel cmd) s fun _ s' =>
      ∃ p, Held c B p s' := by
  obtain ⟨p, h⟩ := h
  refine Sat.mono (g.exec_serves (M := 0) (R := 0) h hin (.inl trivial)
    fuel) ?_ fun _ _ h => h
  rintro _ s' ⟨p', h', -⟩
  exact ⟨p', h'⟩

/-- Without a budget, only the counts are relied on. -/
theorem relied_false {e : Event} (h : NoWrap e) : Relied c False e :=
  ⟨h, False.elim⟩

/-- Every state at which the collector may be called is sound and within
the budget, and every event is allowed, if the run is as relied on. -/
theorem Visited.held (g : Geo c) (hT : B → c.totalOobSeg < 2 ^ 64)
    (h : Visited c s tr) (hr : ∀ e ∈ tr, Relied c B e) :
    (∃ p, Held c B p s) ∧ ∀ e ∈ tr, Allowed c True e := by
  have hany : ∀ {α : Type} {m : Ftl α} {s : Ssd} {fuel : Nat}
      {Q Q' : α → Ssd → Prop}, Serves c B fuel True m s Q →
      (∀ a s', Q a s' → Q' a s') → Sat (Relied c B) (Allowed c True) m s Q'
        fun _ _ => True := fun hs hQ => Sat.mono hs hQ fun _ _ _ => trivial
  -- commands, writes cut off before the check, grants and collections
  refine Visited.invariant (P := fun s => ∃ p, Held c B p s)
    (E := fun _ _ => True) ⟨_, g.held_init hT⟩ ?_ ?_ ?_ ?_ h hr
  · exact fun s fuel cmd h hin =>
      hany (g.exec_held h hin fuel) fun _ _ h => h
  · rintro s fuel req ⟨p, h⟩ - hlen
    refine hany (g.writePages_serves fuel _ _ 0 none h (.inl trivial)
      (g.slots_lpn_lt hlen)) ?_
    rintro _ s' ⟨_, p', -, h', -⟩
    exact ⟨p', h'⟩
  · rintro s b ⟨p, h⟩
    have hs : Serves c B 0 True (useRemap c b) s _ :=
      Step.serves (h.useRemap_step b)
    refine hany hs ?_
    exact fun _ s' h' => ⟨p, h'.1⟩
  · rintro s fuel ⟨p, h⟩
    refine hany (g.sbGarbageCollection_serves h.sound fuel
      (.inl trivial)) ?_
    intro r s' hc
    cases r with
    | success =>
        obtain ⟨b, ρ, l, p', hrel, -, hfits⟩ := hc
        exact ⟨p', hrel.sound, fun hB =>
          hrel.budget h.sound (h.budget hB) (hfits hB)⟩
    | fail =>
        obtain ⟨-, -, t, rfl⟩ := hc
        exact ⟨p, h.sound.alike (by constructor <;> rfl), h.budget⟩

/-- The states between requests are among them. -/
theorem Reach.visited (h : Reach c s tr) : Visited c s tr := by
  induction h with
  | init => exact .init
  | cmd fuel cmd _ hin hex ih => exact ih.cmd fuel cmd hin hex

/-- The invariant holds after every part of a command, not only between
commands. -/
theorem Visited.sound (g : Geo c) (h : Visited c s tr)
    (hr : ∀ e ∈ tr, NoWrap e) :
    (∃ p, Sound c p s) ∧ ∀ e ∈ tr, Allowed c True e := by
  obtain ⟨⟨p, hp⟩, hg⟩ := h.held g False.elim fun e he =>
    relied_false (hr e he)
  exact ⟨⟨p, hp.sound⟩, hg⟩

/-- What a further command reports and how it may stop. -/
theorem Visited.next (g : Geo c) (h : Visited c s tr)
    (hr : ∀ e ∈ tr, NoWrap e) {cmd : Cmd} (hin : InRange c cmd)
    (fuel : Nat) (hlog : ∀ e ∈ (exec c fuel cmd s).log, NoWrap e) :
    (∀ e ∈ (exec c fuel cmd s).log, Allowed c True e)
      ∧ ∀ f, (exec c fuel cmd s).res = .error f →
        f = .outOfFuel ∨ f = .nullEmptyBlock := by
  obtain ⟨⟨p, hp⟩, -⟩ := h.sound g hr
  obtain ⟨hg, hres⟩ := g.exec_held (B := False) ⟨p, hp, False.elim⟩ hin
    fuel fun e he => relied_false (hlog e he)
  refine ⟨hg, fun f hf => ?_⟩
  rw [hf] at hres
  exact hres.imp And.left And.left

/-- Of the errors, only those of the host's own doing and those of a full
device. -/
theorem allowed_error {A : Prop} {m : Msg} (h : Allowed c A (.error m)) :
    m ∈ hostErrors ∨ m ∈ exhausted :=
  h.imp_right And.right

instance (e : Event) : Decidable (NoWrap e) := by
  unfold NoWrap
  split <;> infer_instance

theorem tinyOut_noWrap : ∀ e ∈ tinyOut.log, NoWrap e := by
  decide +kernel

-- =========================================================== agreement

/-- The map, the inverse lists and the reference counts agree. -/
structure Agrees (c : Conf) (s : Ssd) : Prop where
  /-- `L` is in the list of `P` once if it maps to `P`, else not. -/
  lists : ∀ P, P < c.pageMappingEntryNb → ∀ L,
    (s.refs P).count L = if s.mappingTable L = some P then 1 else 0
  lpnCnt : ∀ P, P < c.pageMappingEntryNb →
    (s.inverseMappingTable P).lpnCnt = (s.refs P).length
  live : ∀ P, P < c.pageMappingEntryNb → 0 < (s.refs P).length →
    s.valid c P = (s.refs P).length
  dead : ∀ P, P < c.pageMappingEntryNb →
    (s.valid c P = 0 ∨ s.valid c P = -1 ↔ s.refs P = [])

/-- What the invariant says of the tables. -/
theorem Tracked.agrees (h : Sound c p s) : Agrees c s where
  lists P hP L := by
    rw [h.maps.count P hP L]
    simp [ind]
  lpnCnt := h.pages.cnt
  live P hP hpos := h.pages.live P hP id (List.length_pos_iff.1 hpos)
  dead P hP := by
    constructor
    · intro hv
      by_contra hne
      have h₁ := h.pages.live P hP id hne
      have h₂ := List.length_pos_iff.2 hne
      omega
    · intro hnil
      have h₁ := h.pages.dead P hP id hnil
      have h₂ := h.pages.lower P hP
      omega

/-- In every run in which no count wraps, the map, the lists and the
counts agree between requests, the collector never finds `valid_array`
and `lpn_cnt` to differ, and no further command removes an lpn from a
list it is not in. -/
theorem mapping_agrees (g : Geo c) (h : Reach c s tr)
    (hr : ∀ e ∈ tr, NoWrap e) :
    Agrees c s ∧ .error .gcLpnCnt ∉ tr
      ∧ ∀ fuel cmd, InRange c cmd →
        (∀ e ∈ (exec c fuel cmd s).log, NoWrap e) →
        .error .gcLpnCnt ∉ (exec c fuel cmd s).log
          ∧ (exec c fuel cmd s).res ≠ .error .nullInverseNode := by
  obtain ⟨⟨p, hp⟩, hg⟩ := h.visited.sound g hr
  have hno : ¬ Allowed c True (.error .gcLpnCnt) := fun h =>
    absurd (allowed_error h) (by decide)
  refine ⟨hp.agrees, fun he => hno (hg _ he), ?_⟩
  intro fuel cmd hin hlog
  obtain ⟨hg', hf⟩ := h.visited.next g hr hin fuel hlog
  refine ⟨fun he => hno (hg' _ he), fun he => ?_⟩
  rcases hf _ he with h₀ | h₀ <;> cases h₀

/-- The tables agree after `tinyRun`. -/
theorem mapping_agrees_tiny : Agrees tinyConf tinyOut.st :=
  (mapping_agrees tinyConf_geo tinyOut_reach tinyOut_noWrap).1

-- ============================================================ wrapping

/-- At most 127 lpns share the page that an lpn is entered at. -/
def FewSharers : Event → Prop
  | .share _ lpn lpns => (insert lpn lpns.toFinset).card ≤ 127
  | _ => True

/-- A page with 127 lpns may be entered by one of them. -/
def fewSharers : Event → Bool
  | .share _ lpn lpns => lpns.length < 127
      || (lpns.length == 127 && lpns.contains lpn)
  | _ => true

/-- The check is sound; it counts the list and not the set. -/
theorem FewSharers.of_check {e : Event} (h : fewSharers e = true) :
    FewSharers e := by
  cases e with
  | share q lpn lpns =>
      have hle := List.toFinset_card_le lpns
      simp only [fewSharers, Bool.or_eq_true, decide_eq_true_eq,
        Bool.and_eq_true, beq_iff_eq, List.contains_iff_mem] at h
      rcases h with h | ⟨h, hmem⟩
      · have := Finset.card_insert_le lpn lpns.toFinset
        show (insert lpn lpns.toFinset).card ≤ 127
        omega
      · show (insert lpn lpns.toFinset).card ≤ 127
        rw [Finset.insert_eq_of_mem (List.mem_toFinset.2 hmem)]
        omega
  | _ => trivial

/-- Two flashes of six blocks of eleven pages, one sector each. -/
def wrapConf : Conf := initSsdConfig 2 6 11 1

/-- Copy lpn 0 to the lpns below 127 and then once more to lpn 1. -/
def wrapRemaps : List Cmd :=
  [.remap 0 1 1 3, .remap 0 2 2 3, .remap 0 4 4 3, .remap 0 8 8 3,
    .remap 0 16 16 3, .remap 0 32 32 3, .remap 0 64 63 3, .remap 0 1 1 3]

/-- Write lpn 0, fill the device up to the threshold, and share. -/
def wrapRun : List Cmd :=
  writeOf 0 7 :: List.replicate 120 (writeOf 1 8) ++ wrapRemaps

def wrapOut : Out Ssd Event Fault Unit :=
  runCmds wrapConf 300 wrapRun (ftlInit wrapConf)

theorem wrapRun_inRange : ∀ cmd ∈ wrapRun, InRange wrapConf cmd := by
  intro cmd hc
  simp only [wrapRun, List.cons_append, List.mem_cons, List.mem_append,
    List.mem_replicate] at hc
  rcases hc with rfl | ⟨-, rfl⟩ | hc
  · exact inRange_writeOf _ _
  · exact inRange_writeOf _ _
  · simp only [wrapRemaps, List.mem_cons, List.not_mem_nil, or_false] at hc
    rcases hc with rfl | rfl | rfl | rfl | rfl | rfl | rfl | rfl <;>
      exact ⟨by decide, by decide⟩

/-- The count of page zero has wrapped under its 127 lpns. -/
theorem wrapOut_eval : wrapOut.res = .ok ()
    ∧ wrapOut.log.all fewSharers = true
    ∧ wrapOut.st.valid wrapConf 0 = -128
    ∧ (wrapOut.st.refs 0).length = 127 := by
  decide +kernel

theorem wrapOut_ran : Ran wrapConf wrapRun wrapOut.st wrapOut.log :=
  Ran.start 300 wrapRun wrapRun_inRange wrapOut_eval.1

/-- No page has more than 127 lpns in it. -/
theorem wrapOut_fewSharers : ∀ e ∈ wrapOut.log, FewSharers e :=
  fun e he => .of_check (List.all_eq_true.1 wrapOut_eval.2.1 e he)

/-- At most 127 lpns ever share a page, and yet the counts are wrong. -/
theorem mapping_disagrees_wrap :
    Reach wrapConf wrapOut.st wrapOut.log
      ∧ (∀ e ∈ wrapOut.log, FewSharers e) ∧ ¬ Agrees wrapConf wrapOut.st := by
  obtain ⟨-, -, hv, hl⟩ := wrapOut_eval
  refine ⟨wrapOut_ran.reach, wrapOut_fewSharers, fun h => ?_⟩
  have := h.live 0 (by decide) (by omega)
  omega

-- ============================================================ counters

/-- The lpns that map to a page. -/
def sharers (c : Conf) (s : Ssd) (P : Nat) : List Nat :=
  (List.range c.pageMappingEntryNb).filter fun L =>
    s.mappingTable L = some P

/-- An increment yields the old value plus one. -/
def CountsUp : Event → Prop
  | .count old new => new = old + 1
  | _ => True

theorem Allowed.countsUp {A : Prop} {e : Event} (h : Allowed c A e) :
    CountsUp e := by
  cases e with
  | count old new => exact h
  | _ => trivial

/-- The count is the number of lpns, and it is an `int8_t`. -/
theorem Tracked.sharers_le (h : Sound c p s) {P : Nat}
    (hP : P < c.pageMappingEntryNb) : (sharers c s P).length ≤ 127 := by
  refine Nat.le_trans ?_ (h.pages.le P hP)
  refine (List.Nodup.subperm (List.nodup_range.filter _) ?_).length_le
  intro L hL
  have hm : s.mappingTable L = some P := by
    simpa using (List.mem_filter.1 hL).2
  exact h.maps.mem_refs hm

/-- In every run that enters lpns only at pages with fewer than 127
nodes, no page has more than 127 lpns, every increment of a counter
yields the old value plus one, and the collector sees every mapped page
as live. -/
theorem counters_in_range (g : Geo c) (h : Visited c s tr)
    (hr : ∀ e ∈ tr, NoWrap e) :
    (∀ P, P < c.pageMappingEntryNb → (sharers c s P).length ≤ 127)
      ∧ (∀ e ∈ tr, CountsUp e)
      ∧ (∀ L P, s.mappingTable L = some P → 0 < s.valid c P)
      ∧ ∀ fuel cmd, InRange c cmd →
        (∀ e ∈ (exec c fuel cmd s).log, NoWrap e) →
        ∀ e ∈ (exec c fuel cmd s).log, CountsUp e := by
  obtain ⟨⟨p, hp⟩, hg⟩ := h.sound g hr
  refine ⟨fun P => hp.sharers_le, fun e he => (hg e he).countsUp,
    fun L P hL => (hp.live hL).valid, ?_⟩
  intro fuel cmd hin hlog e he
  exact ((h.next g hr hin fuel hlog).1 e he).countsUp

theorem counters_in_range_tiny :
    Visited tinyConf tinyOut.st tinyOut.log
      ∧ ∀ e ∈ tinyOut.log, CountsUp e :=
  ⟨tinyOut_reach.visited, (counters_in_range tinyConf_geo
    tinyOut_reach.visited tinyOut_noWrap).2.1⟩

/-- Copy lpn 0 to the lpns below 128. -/
def crowdRun : List Cmd :=
  [writeOf 0 7, .remap 0 1 1 3, .remap 0 2 2 3, .remap 0 4 4 3,
    .remap 0 8 8 3, .remap 0 16 16 3, .remap 0 32 32 3, .remap 0 64 64 3]

def crowdOut : Out Ssd Event Fault Unit :=
  runCmds wrapConf 300 crowdRun (ftlInit wrapConf)

theorem crowdRun_inRange : ∀ cmd ∈ crowdRun, InRange wrapConf cmd := by
  intro cmd hc
  simp only [crowdRun, List.mem_cons, List.not_mem_nil, or_false] at hc
  rcases hc with rfl | rfl | rfl | rfl | rfl | rfl | rfl | rfl
  · exact inRange_writeOf _ _
  all_goals exact ⟨by decide, by decide⟩

/-- The 128th lpn takes both counters from 127 to -128. -/
theorem counters_wrap_crowd :
    Reach wrapConf crowdOut.st crowdOut.log
      ∧ (sharers wrapConf crowdOut.st 0).length = 128
      ∧ .count 127 (-128) ∈ crowdOut.log
      ∧ crowdOut.st.mappingTable 0 = some 0
      ∧ crowdOut.st.valid wrapConf 0 = -128 := by
  have heval : crowdOut.res = .ok ()
      ∧ (sharers wrapConf crowdOut.st 0).length = 128
      ∧ .count 127 (-128) ∈ crowdOut.log
      ∧ crowdOut.st.mappingTable 0 = some 0
      ∧ crowdOut.st.valid wrapConf 0 = -128 := by
    decide +kernel
  exact ⟨(Ran.start 300 crowdRun crowdRun_inRange heval.1).reach,
    heval.2⟩

-- =========================================================== the flash

/-- Program once and in order, and erase only dead blocks. -/
def NandDiscipline (c : Conf) : Event → Prop
  | .alloc ppn valid lpns handed =>
      valid = 0 ∧ lpns = [] ∧ handed = List.range (ppn % c.pageNb)
  | .erase _ _ mapped => mapped = []
  | _ => True

/-- What is allowed keeps to the rules of the flash. -/
theorem Allowed.nandDiscipline {A : Prop} {e : Event}
    (h : Allowed c A e) : NandDiscipline c e := by
  cases e with
  | alloc _ _ _ _ => exact h
  | erase _ _ _ => exact h
  | _ => trivial

/-- In every run in which no count wraps, and in a command that fails
after it, a page handed out is unreferenced and the next one of its
block since the last erase, and no lpn maps into an erased block. -/
theorem nand_discipline (g : Geo c) (h : Reach c s tr)
    (hr : ∀ e ∈ tr, NoWrap e) :
    (∀ e ∈ tr, NandDiscipline c e)
      ∧ ∀ fuel cmd, InRange c cmd →
        (∀ e ∈ (exec c fuel cmd s).log, NoWrap e) →
        ∀ e ∈ (exec c fuel cmd s).log, NandDiscipline c e := by
  refine ⟨fun e he => ((h.visited.sound g hr).2 e he).nandDiscipline, ?_⟩
  intro fuel cmd hin hlog e he
  exact ((h.visited.next g hr hin fuel hlog).1 e he).nandDiscipline

theorem nand_discipline_tiny :
    Reach tinyConf tinyOut.st tinyOut.log
      ∧ ∀ e ∈ tinyOut.log, NandDiscipline tinyConf e :=
  ⟨tinyOut_reach,
    (nand_discipline tinyConf_geo tinyOut_reach tinyOut_noWrap).1⟩

/-- One more write lets the collector run after `wrapRun`. -/
def lostOut : Out Ssd Event Fault Unit :=
  runCmds wrapConf 300 [writeOf 1 8] wrapOut.st

/-- An erase under a mapped page. -/
def erasesMapped : Event → Bool
  | .erase _ _ mapped => mapped ≠ []
  | _ => false

/-- The superblock of page zero was erased, with its NVRAM entries, under
the lpns that map to it. -/
theorem lostOut_eval : lostOut.res = .ok ()
    ∧ lostOut.log.all fewSharers = true
    ∧ lostOut.log.any erasesMapped = true
    ∧ lostOut.st.mappingTable 0 = some 0
    ∧ lostOut.st.content 0 = none
    ∧ lostOut.st.mappingTable 2 = some 0
    ∧ lostOut.st.inNvram 2 = 1
    ∧ lostOut.st.nvram.oobTable 0 = ⟨0, 0, 0⟩ := by
  decide +kernel

theorem lostOut_ran : Ran wrapConf (wrapRun ++ [writeOf 1 8]) lostOut.st
    (wrapOut.log ++ lostOut.log) :=
  Ran.runCmds 300 [writeOf 1 8] (by simpa using inRange_writeOf 1 8)
    wrapOut_ran lostOut_eval.1

/-- No page has too many lpns in it either. -/
theorem lostOut_fewSharers : ∀ e ∈ wrapOut.log ++ lostOut.log,
    FewSharers e :=
  List.forall_mem_append.2 ⟨wrapOut_fewSharers, fun e he =>
    .of_check (List.all_eq_true.1 lostOut_eval.2.1 e he)⟩

/-- At most 127 lpns ever share a page, and yet a block is erased while
lpns map into it. -/
theorem nand_discipline_fails_wrap :
    Reach wrapConf lostOut.st (wrapOut.log ++ lostOut.log)
      ∧ (∀ e ∈ wrapOut.log ++ lostOut.log, FewSharers e)
      ∧ ∃ e ∈ wrapOut.log ++ lostOut.log, ¬ NandDiscipline wrapConf e := by
  refine ⟨lostOut_ran.reach, lostOut_fewSharers, ?_⟩
  obtain ⟨e, he, hm⟩ := List.any_eq_true.1 lostOut_eval.2.2.1
  refine ⟨e, List.mem_append_right _ he, fun h => ?_⟩
  cases e with
  | erase f b mapped =>
      have hnil : mapped = [] := h
      simp [erasesMapped, hnil] at hm
  | _ => simp [erasesMapped] at hm

-- ============================================================= records

/-- Every mapped lpn has one persistent reverse-mapping record: in the
page it maps to, or among the entries of its superblock in the NVRAM. -/
structure OneRecord (c : Conf) (s : Ssd) : Prop where
  flag : ∀ L P, s.mappingTable L = some P →
    s.inNvram L = 0 ∨ s.inNvram L = 1
  single : ∀ P L L', s.mappingTable L = some P →
    s.mappingTable L' = some P → s.inNvram L = 0 → s.inNvram L' = 0 →
    L = L'
  entries : ∀ b, b < c.blockNb →
    (s.nvram.oobTable b).allocSeg * c.oobEntryPerSeg
        - (s.nvram.oobTable b).freeEntry - (s.nvram.oobTable b).invalidEntry
      = nvramRefs c s.mappingTable.get s.inNvram.get b
  /-- `valid_entry_nb` of `NVRAM_OOB_GC` is not negative. -/
  validEntries : ∀ b, b < c.blockNb → (s.nvram.oobTable b).invalidEntry
    ≤ (s.nvram.oobTable b).allocSeg * c.oobEntryPerSeg
      - (s.nvram.oobTable b).freeEntry

/-- The invariant has one record an lpn. -/
theorem Tracked.oneRecord (h : Sound c p s) : OneRecord c s := by
  have hentries : ∀ b, b < c.blockNb →
      (s.nvram.oobTable b).allocSeg * c.oobEntryPerSeg
          - (s.nvram.oobTable b).freeEntry
          - (s.nvram.oobTable b).invalidEntry
        = nvramRefs c s.mappingTable.get s.inNvram.get b :=
    fun b hb => h.records.entries b hb (by simp)
  refine ⟨h.records.flag, fun P L L' hL hL' => h.records.single L L' P hL hL',
    hentries, fun b hb => ?_⟩
  have := hentries b hb
  omega

/-- In every run in which no count wraps, every mapped lpn has one
record in every state between requests. -/
theorem one_record (g : Geo c) (h : Reach c s tr)
    (hr : ∀ e ∈ tr, NoWrap e) : OneRecord c s := by
  obtain ⟨⟨p, hp⟩, -⟩ := h.visited.sound g hr
  exact hp.oneRecord

/-- One record an lpn after `tinyRun`. -/
theorem one_record_tiny : OneRecord tinyConf tinyOut.st :=
  one_record tinyConf_geo tinyOut_reach tinyOut_noWrap

/-- At most 127 lpns ever share a page, and yet the record of a mapped
lpn is gone. -/
theorem one_record_fails_wrap :
    Reach wrapConf lostOut.st (wrapOut.log ++ lostOut.log)
      ∧ (∀ e ∈ wrapOut.log ++ lostOut.log, FewSharers e)
      ∧ ¬ OneRecord wrapConf lostOut.st := by
  refine ⟨lostOut_ran.reach, lostOut_fewSharers, fun h => ?_⟩
  obtain ⟨-, -, -, -, -, hm, hn, ht⟩ := lostOut_eval
  have hnone := h.entries 0 (by decide)
  have hpos : 1 ≤ nvramRefs wrapConf lostOut.st.mappingTable.get
      lostOut.st.inNvram.get 0 := by
    have hle := le_tally (n := wrapConf.pageMappingEntryNb) (q := 2)
      (g := fun L => ind (lostOut.st.inNvram L = 1
        ∧ (lostOut.st.mappingTable L).map (blockOf wrapConf) = some 0))
      (by decide)
    rwa [ind_true ⟨hn, by rw [hm]; rfl⟩] at hle
  rw [ht] at hnone
  simp only at hnone
  omega

end FemuRemap
