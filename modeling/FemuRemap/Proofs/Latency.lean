/-
Latencies of requests (`FTL_WRITE`, `FTL_READ`).

Seen from below, a timed write is a write: the timestamps steer nothing
(`ftlWriteInner_shadows`). `Tally` follows the maximum along a run: one
access for each page, and the slowest of them at the end. It is the
`int` of `FTL_WRITE` that may lose it, and does so just when some access
is due `2 ^ 31` nanoseconds or more after it was made (`InTime`).
-/
import FemuRemap.Model.Latency
import FemuRemap.Proofs.Trigger

namespace FemuRemap.Timed

open Lib
open Timing (FlashTs NandConf)

variable {c : Conf} {n : NandConf} {t t' : State} {l l' : List Event}

-- =================================================== seen from below

/-- A timed access does to the FTL what the access does alone. -/
theorem access_shadows (io : Io) (m : Ftl Unit) (t : State) :
    (layer n).Shadows (fun _ => ()) (access n io m) m t := by
  refine Layer.Shadows.get_aside ?_
  refine (Layer.Shadows.lift m t).followed fun _ t' => ?_
  exact Sat.emit_bind fun _ => ⟨rfl, Sat.pure ⟨rfl, rfl⟩⟩

/-- A timed remap, with the charge to the NVRAM. -/
theorem remapLpn_shadows (host : Bool) (src ppn : Option Nat) (lpn : Nat)
    (max : Int) (t : State) :
    (layer n).Shadows (fun _ => ()) (remapLpn c n host src ppn lpn max)
      (FemuRemap.remapLpn c true host src ppn lpn) t := by
  refine (Layer.Shadows.lift _ t).bind fun r t₁ _ _ => ?_
  cases ppn with
  | none => exact Layer.Shadows.pure _
  | some p =>
      cases r with
      | fail => exact Layer.Shadows.pure _
      | success =>
          refine (Layer.Shadows.lift _ _).bind fun _ t₂ _ _ => ?_
          refine (Layer.Shadows.lift _ _).bind fun _ t₃ _ _ => ?_
          refine (access_shadows _ _ _).bind fun _ t₄ _ _ => ?_
          exact (Layer.Shadows.lift _ _).map fun _ => rfl

theorem remapHinted_shadows (info : LpnInfo) (hPpn : Option Nat)
    (lpn : Nat) (max : Int) (t : State) :
    (layer n).Shadows (fun _ => ()) (remapHinted c n info hPpn lpn max)
      (FemuRemap.remapHinted c info hPpn lpn) t := by
  unfold remapHinted FemuRemap.remapHinted
  by_cases hcp : info.flag = cpWrite
  · rw [if_pos hcp, if_pos hcp]
    exact remapLpn_shadows _ _ _ _ _ _
  · rw [if_neg hcp, if_neg hcp]
    by_cases hdup : info.flag = dedupWrite
    · rw [if_pos hdup, if_pos hdup]
      exact remapLpn_shadows _ _ _ _ _ _
    · rw [if_neg hdup, if_neg hdup]
      exact remapLpn_shadows _ _ _ _ _ _

/-- The access of a written page, whole or in part. -/
theorem accessPage_shadows (slot : Slot) (old : Option Nat) (newPpn : Nat)
    (t : State) :
    (layer n).Shadows (fun _ => ()) (accessPage c n slot old newPpn)
      (FemuRemap.accessPage c slot old newPpn) t := by
  unfold accessPage FemuRemap.accessPage
  cases old with
  | none => exact access_shadows _ _ _
  | some old =>
      by_cases hskip : slot.leftSkip ≠ 0 ∨ slot.rightSkip ≠ 0
      · simp only [if_pos hskip]
        exact access_shadows _ _ _
      · simp only [if_neg hskip]
        exact access_shadows _ _ _

/-- The bookkeeping of a written page. -/
theorem storePage_shadows (info : LpnInfo) (slot : Slot) (newPpn : Nat)
    (max : Int) (t : State) :
    (layer n).Shadows (fun _ => ()) (storePage c n info slot newPpn max)
      (FemuRemap.storePage c info slot newPpn) t := by
  refine Layer.Shadows.get_bind ?_
  refine (accessPage_shadows _ _ _ t).bind fun _ t₁ _ _ => ?_
  exact (Layer.Shadows.lift _ _).map fun _ => rfl

/-- A page programmed: the time is returned beside the page. -/
theorem programPage_shadows (fuel : Nat) (info : LpnInfo) (slot : Slot)
    (max : Int) (t : State) :
    (layer n).Shadows (Option.map Prod.fst)
      (programPage c n fuel info slot max)
      (FemuRemap.programPage c fuel info slot) t := by
  refine (Layer.Shadows.lift _ t).bind fun r t₁ _ _ => ?_
  cases r with
  | none =>
      refine (Layer.Shadows.lift _ _).bind fun _ t₂ _ _ => ?_
      exact Layer.Shadows.pure _
  | some q =>
      refine (storePage_shadows _ _ _ _ _).bind fun _ t₂ _ _ => ?_
      exact Layer.Shadows.pure _

/-- The same branches as the untimed function. -/
theorem writePage_shadows (fuel : Nat) (info : LpnInfo) (slot : Slot)
    (newPpn : Option Nat) (max : Int) (t : State) :
    (layer n).Shadows (Option.map Prod.fst)
      (writePage c n fuel info slot newPpn max)
      (FemuRemap.writePage c fuel info slot newPpn) t := by
  refine Layer.Shadows.get_bind ?_
  refine (Layer.Shadows.lift _ t).bind fun r t₁ _ _ => ?_
  cases r with
  | success =>
      refine (remapHinted_shadows _ _ _ _ _).bind fun _ t₂ _ _ => ?_
      exact Layer.Shadows.pure _
  | fail =>
      refine (programPage_shadows _ _ _ _ _).bind fun r t₂ _ _ => ?_
      cases r with
      | none => exact Layer.Shadows.pure _
      | some r => exact Layer.Shadows.pure _

theorem writePages_shadows (fuel : Nat) (info : Nat → LpnInfo)
    (ss : List Slot) : ∀ (i : Nat) (newPpn : Option Nat) (max : Int)
    (t : State),
    (layer n).Shadows (Option.map Prod.fst)
      (writePages c n fuel info ss i newPpn max)
      (FemuRemap.writePages c fuel info ss i newPpn) t := by
  induction ss with
  | nil =>
      intro i newPpn max t
      exact Layer.Shadows.pure _
  | cons slot rest ih =>
      intro i newPpn max t
      refine (writePage_shadows _ _ _ _ _ t).bind fun r t₁ _ _ => ?_
      cases r with
      | none => exact Layer.Shadows.pure _
      | some r => exact ih _ _ _ _

/-- The status that a result of `_FTL_WRITE` stands for. -/
def statusOf : Option Int → Ret
  | none => .fail
  | some _ => .success

/-- A timed write is the write, whatever the timestamps. -/
theorem ftlWriteInner_shadows (fuel : Nat) (req : RequestMeta) (t : State) :
    (layer n).Shadows statusOf (ftlWriteInner c n fuel req)
      (FemuRemap.ftlWrite c fuel req) t := by
  unfold ftlWriteInner FemuRemap.ftlWrite
  by_cases hout : c.sectorNb < req.sectorNb + req.length
  · rw [if_pos hout, if_pos hout]
    refine (Layer.Shadows.lift _ t).bind fun _ t₁ _ _ => ?_
    exact Layer.Shadows.pure none
  · rw [if_neg hout, if_neg hout]
    refine (writePages_shadows _ _ _ _ _ _ t).bind fun r t₁ _ _ => ?_
    cases r with
    | none => exact Layer.Shadows.pure none
    | some r =>
        refine (Layer.Shadows.lift _ _).bind fun _ t₂ _ _ => ?_
        exact Layer.Shadows.pure (some r.2)

-- ======================================================== the maximum

/-- The times that the pages' accesses returned, in their order. -/
def pageTimes (l : List Event) : List Int :=
  l.filterMap fun
    | .page _ _ _ cur => some cur
    | .ftl _ => none

/-- `l` has `k` accesses of pages, each with the time it returns, and
takes the maximum from `max` to `max'`. -/
structure Tally (n : NandConf) (max : Int) (l : List Event) (k : Nat)
    (max' : Int) : Prop where
  pages : (pageTimes l).length = k
  slowest : max' = (pageTimes l).foldl slower max
  honest : ∀ now ts io cur, Event.page now ts io cur ∈ l →
    cur = emulated n now ts io

theorem Tally.nil (max : Int) : Tally n max [] 0 max := ⟨rfl, rfl, nofun⟩

theorem Tally.append {max₁ max₂ max₃ : Int} {k k' : Nat}
    (h : Tally n max₁ l k max₂) (h' : Tally n max₂ l' k' max₃) :
    Tally n max₁ (l ++ l') (k + k') max₃ where
  pages := by
    rw [pageTimes, List.filterMap_append, List.length_append]
    exact congrArg₂ _ h.pages h'.pages
  slowest := by
    rw [pageTimes, List.filterMap_append, List.foldl_append, h'.slowest,
      h.slowest]
    rfl
  honest now ts io cur hin := by
    rcases List.mem_append.1 hin with hin | hin
    · exact h.honest now ts io cur hin
    · exact h'.honest now ts io cur hin

/-- An untimed part accesses nothing that is counted. -/
theorem tally_lift {α : Type} {m : Ftl α} {a : α} (max : Int)
    (h : (layer n).lift m t = ⟨.ok a, t', l⟩) : Tally n max l 0 max := by
  obtain ⟨s, l₀, -, -, rfl⟩ := (layer n).lift_ok h
  have hnone : pageTimes (l₀.map (layer n).event) = [] := by
    rw [pageTimes, List.filterMap_map]
    exact List.filterMap_eq_nil_iff.2 fun _ _ => rfl
  refine ⟨by rw [hnone]; rfl, by rw [hnone]; rfl, ?_⟩
  intro now ts io cur hin
  obtain ⟨e, -, he⟩ := List.mem_map.1 hin
  cases he

/-- One access, counted at the time it returns. -/
theorem tally_access {io : Io} {m : Ftl Unit} {cur : Int} (max : Int)
    (h : access n io m t = ⟨.ok cur, t', l⟩) :
    Tally n max l 1 (slower max cur) := by
  unfold access at h
  rw [Prog.run_get_bind] at h
  obtain ⟨_, t₁, l₁, l₂, hlift, hrest, rfl⟩ := Prog.bind_ok h
  cases hrest
  have hpage : Tally n max [.page (t.clock 0) t.ts io
      (emulated n (t.clock 0) t.ts io)] 1
      (slower max (emulated n (t.clock 0) t.ts io)) := by
    refine ⟨rfl, rfl, ?_⟩
    intro now ts io' cur hin
    cases List.mem_singleton.1 hin
    rfl
  exact (tally_lift max hlift).append hpage

/-- A slot is one access, whole or in part. -/
theorem tally_accessPage {slot : Slot} {old : Option Nat} {newPpn : Nat}
    {cur : Int} (max : Int)
    (h : accessPage c n slot old newPpn t = ⟨.ok cur, t', l⟩) :
    Tally n max l 1 (slower max cur) := by
  unfold accessPage at h
  cases old with
  | none => exact tally_access max h
  | some old =>
      dsimp only at h
      by_cases hskip : slot.leftSkip ≠ 0 ∨ slot.rightSkip ≠ 0
      · rw [if_pos hskip] at h
        exact tally_access max h
      · rw [if_neg hskip] at h
        exact tally_access max h

/-- The program of the slot is its one access. -/
theorem tally_storePage {info : LpnInfo} {slot : Slot} {newPpn : Nat}
    {max max' : Int}
    (h : storePage c n info slot newPpn max t = ⟨.ok max', t', l⟩) :
    Tally n max l 1 max' := by
  unfold storePage at h
  rw [Prog.run_get_bind] at h
  obtain ⟨cur, t₁, l₁, l₂, haccess, hrest, rfl⟩ := Prog.bind_ok h
  obtain ⟨_, t₂, l₃, l₄, hlift, hend, rfl⟩ := Prog.bind_ok hrest
  cases hend
  have hdelay : cur + fingDelay = cur := Int.add_zero cur
  rw [hdelay, List.append_nil]
  exact (tally_accessPage max haccess).append (tally_lift _ hlift)

/-- With a page to share, the branch charges the NVRAM. -/
theorem tally_remapLpn {host : Bool} {src : Option Nat} {p lpn : Nat}
    {max max' : Int}
    (h : remapLpn c n host src (some p) lpn max t = ⟨.ok max', t', l⟩) :
    Tally n max l 1 max' := by
  unfold remapLpn at h
  obtain ⟨r, t₁, l₁, l₂, hinc, hrest, rfl⟩ := Prog.bind_ok h
  obtain ⟨s₁, l₀, hbase, -, -⟩ := (layer n).lift_ok hinc
  have hr : r = .success := by
    cases hbase
    rfl
  subst hr
  obtain ⟨_, t₂, l₃, l₄, hstate, hrest₁, rfl⟩ := Prog.bind_ok hrest
  obtain ⟨_, t₃, l₅, l₆, hoob, hrest₂, rfl⟩ := Prog.bind_ok hrest₁
  obtain ⟨cur, t₄, l₇, l₈, hts, hrest₃, rfl⟩ := Prog.bind_ok hrest₂
  obtain ⟨_, t₅, l₉, l₁₀, hmap, hend, rfl⟩ := Prog.bind_ok hrest₃
  cases hend
  rw [List.append_nil]
  have htail := (tally_access max hts).append (tally_lift _ hmap)
  have hmid := (tally_lift max hoob).append htail
  have hall := (tally_lift max hinc).append ((tally_lift max hstate).append
    hmid)
  simpa using hall

/-- A remapped slot counts the NVRAM access. -/
theorem tally_remapHinted {info : LpnInfo} {p lpn : Nat} {max max' : Int}
    (h : remapHinted c n info (some p) lpn max t = ⟨.ok max', t', l⟩) :
    Tally n max l 1 max' := by
  unfold remapHinted at h
  by_cases hcp : info.flag = cpWrite
  · rw [if_pos hcp] at h
    exact tally_remapLpn h
  · rw [if_neg hcp] at h
    by_cases hdup : info.flag = dedupWrite
    · rw [if_pos hdup] at h
      exact tally_remapLpn h
    · rw [if_neg hdup] at h
      exact tally_remapLpn h

/-- "Get new page fail" is reported. -/
def FailReported (l : List Event) : Prop :=
  Event.ftl (.error .writeGetNewPage) ∈ l

/-- What the pages of a request do to the maximum: all of them are
tallied, or the failure is reported. -/
def PagesTallied (n : NandConf) (max : Int) (l : List Event) (k : Nat) :
    Option (Option Nat × Int) → Prop
  | some (_, max') => Tally n max l k max'
  | none => FailReported l

/-- One page, tallied or reported as failed. -/
theorem tally_programPage {fuel : Nat} {info : LpnInfo} {slot : Slot}
    {max : Int} {r : Option (Nat × Int)}
    (h : programPage c n fuel info slot max t = ⟨.ok r, t', l⟩) :
    PagesTallied n max l 1 (r.map fun x => (some x.1, x.2)) := by
  unfold programPage at h
  obtain ⟨q, t₁, l₁, l₂, hnew, hrest, rfl⟩ := Prog.bind_ok h
  cases q with
  | none =>
      cases hrest
      exact List.mem_append_right _ (List.mem_singleton.2 rfl)
  | some q =>
      obtain ⟨max', t₂, l₃, l₄, hstore, hend, rfl⟩ := Prog.bind_ok hrest
      cases hend
      rw [List.append_nil]
      have hall := (tally_lift max hnew).append (tally_storePage hstore)
      rw [Nat.zero_add] at hall
      exact hall

/-- `USE_REMAP` is asked about a hinted page only. -/
theorem askRemap_success {info : LpnInfo} {hPpn : Option Nat} {s s' : Ssd}
    {l : List FemuRemap.Event}
    (h : askRemap c info hPpn s = ⟨.ok .success, s', l⟩) :
    ∃ p, hPpn = some p := by
  cases hPpn with
  | some p => exact ⟨p, rfl⟩
  | none =>
      unfold askRemap at h
      split at h
      · cases h
      · cases h

/-- Remapped or programmed, one access either way. -/
theorem tally_writePage {fuel : Nat} {info : LpnInfo} {slot : Slot}
    {newPpn : Option Nat} {max : Int} {r : Option (Option Nat × Int)}
    (h : writePage c n fuel info slot newPpn max t = ⟨.ok r, t', l⟩) :
    PagesTallied n max l 1 r := by
  unfold writePage at h
  rw [Prog.run_get_bind] at h
  obtain ⟨asked, t₁, l₁, l₂, hask, hrest, rfl⟩ := Prog.bind_ok h
  have hnone := tally_lift max hask
  cases asked with
  | success =>
      obtain ⟨s₁, l₀, hbase, -, -⟩ := (layer n).lift_ok hask
      obtain ⟨p, hp⟩ := askRemap_success hbase
      rw [hp] at hrest
      obtain ⟨max', t₂, l₃, l₄, hremap, hend, rfl⟩ := Prog.bind_ok hrest
      cases hend
      rw [List.append_nil]
      have hall := hnone.append (tally_remapHinted hremap)
      rw [Nat.zero_add] at hall
      exact hall
  | fail =>
      obtain ⟨r', t₂, l₃, l₄, hprog, hend, rfl⟩ := Prog.bind_ok hrest
      have htally := tally_programPage hprog
      cases r' with
      | none =>
          cases hend
          rw [List.append_nil]
          exact List.mem_append_right _ htally
      | some x =>
          cases hend
          rw [List.append_nil]
          have hall := hnone.append htally
          rw [Nat.zero_add] at hall
          exact hall

/-- By induction on the slots; a failure ends the loop and its report stays in
the trace. -/
theorem tally_writePages {fuel : Nat} {info : Nat → LpnInfo}
    {ss : List Slot} : ∀ {i : Nat} {newPpn : Option Nat} {max : Int}
    {r : Option (Option Nat × Int)} {t : State} {l : List Event},
    writePages c n fuel info ss i newPpn max t = ⟨.ok r, t', l⟩ →
      PagesTallied n max l ss.length r := by
  induction ss with
  | nil =>
      intro i newPpn max r t l h
      cases h
      exact Tally.nil max
  | cons slot rest ih =>
      intro i newPpn max r t l h
      unfold writePages at h
      obtain ⟨r₁, t₁, l₁, l₂, hpage, hrest, rfl⟩ := Prog.bind_ok h
      have hfirst := tally_writePage hpage
      cases r₁ with
      | none =>
          cases hrest
          rw [List.append_nil]
          exact hfirst
      | some x =>
          have hothers := ih hrest
          cases r with
          | none => exact List.mem_append_right _ hothers
          | some y =>
              have hall := hfirst.append hothers
              rw [Nat.add_comm] at hall
              exact hall

theorem tally_readPages {ss : List Slot} : ∀ {max max' : Int} {t : State}
    {l : List Event}, readPages c n ss max t = ⟨.ok max', t', l⟩ →
      Tally n max l ss.length max' := by
  induction ss with
  | nil =>
      intro max max' t l h
      cases h
      exact Tally.nil max
  | cons slot rest ih =>
      intro max max' t l h
      unfold readPages at h
      obtain ⟨max₁, t₁, l₁, l₂, hpage, hrest, rfl⟩ := Prog.bind_ok h
      unfold readPage at hpage
      rw [Prog.run_get_bind] at hpage
      obtain ⟨cur, t₂, l₃, l₄, haccess, hend, rfl⟩ := Prog.bind_ok hpage
      cases hend
      rw [List.append_nil]
      have hall := (tally_access max haccess).append (ih hrest)
      rw [Nat.add_comm] at hall
      exact hall

-- ================================================= times and their bound

/-- The access is done less than `2 ^ 31` nanoseconds after it was made:
the backlog of what it waits for leaves room for its own delays. -/
def InTime (n : NandConf) (now : Int) (ts : FlashTs) : Io → Prop
  | .pageRead flash _ _ =>
      ts.chipNextAvailTime flash + n.cellReadDelay + n.regReadDelay
          < now + 2 ^ 31
        ∧ ts.chnlNextAvailTime (Timing.numChannel n flash) + n.regReadDelay
          < now + 2 ^ 31
        ∧ n.cellReadDelay + n.regReadDelay < 2 ^ 31
  | .pageWrite flash _ _ | .partialWrite flash _ _ _ _ _ =>
      ts.chipNextAvailTime flash + n.cellProgramDelay < now + 2 ^ 31
        ∧ ts.chnlNextAvailTime (Timing.numChannel n flash)
          + n.regWriteDelay + n.cellProgramDelay < now + 2 ^ 31
        ∧ n.regWriteDelay + n.cellProgramDelay < 2 ^ 31
  | .nvram block needTime =>
      ts.nvramNextAvailTime block + needTime < now + 2 ^ 31
        ∧ needTime < 2 ^ 31
  | .blockErase _ _ => True
  | .nvramGc _ _ => True
  | .gcNvramRead _ _ => True

/-- The returned time is not negative, and it fits `int` exactly when no
resource is booked that far ahead. -/
theorem pageWrite_time (now : Int) (flash : Nat) (ts : FlashTs) :
    0 ≤ (Timing.ssdPageWrite n now flash ts).2
      ∧ ((Timing.ssdPageWrite n now flash ts).2 < 2 ^ 31
        ↔ ts.chipNextAvailTime flash + n.cellProgramDelay < now + 2 ^ 31
          ∧ ts.chnlNextAvailTime (Timing.numChannel n flash)
            + n.regWriteDelay + n.cellProgramDelay < now + 2 ^ 31
          ∧ n.regWriteDelay + n.cellProgramDelay < 2 ^ 31) := by
  unfold Timing.ssdPageWrite
  dsimp only
  split <;> split <;> omega

theorem pageRead_time (now : Int) (flash : Nat) (ts : FlashTs) :
    0 ≤ (Timing.ssdPageRead n now flash ts).2
      ∧ ((Timing.ssdPageRead n now flash ts).2 < 2 ^ 31
        ↔ ts.chipNextAvailTime flash + n.cellReadDelay + n.regReadDelay
            < now + 2 ^ 31
          ∧ ts.chnlNextAvailTime (Timing.numChannel n flash)
            + n.regReadDelay < now + 2 ^ 31
          ∧ n.cellReadDelay + n.regReadDelay < 2 ^ 31) := by
  unfold Timing.ssdPageRead
  dsimp only
  split <;> split <;> omega

theorem nvram_time (now : Int) (block needTime : Nat) (ts : FlashTs) :
    0 ≤ (Timing.updateNvramTs now block needTime ts).2
      ∧ ((Timing.updateNvramTs now block needTime ts).2 < 2 ^ 31
        ↔ ts.nvramNextAvailTime block + needTime < now + 2 ^ 31
          ∧ needTime < 2 ^ 31) := by
  unfold Timing.updateNvramTs
  dsimp only
  split <;> omega

theorem emulated_time (now : Int) (ts : FlashTs) (io : Io) :
    0 ≤ emulated n now ts io
      ∧ (emulated n now ts io < 2 ^ 31 ↔ InTime n now ts io) := by
  cases io with
  | pageRead flash _ _ => exact pageRead_time now flash ts
  | pageWrite flash _ _ => exact pageWrite_time now flash ts
  | partialWrite flash _ _ _ _ _ => exact pageWrite_time now flash ts
  | nvram block needTime => exact nvram_time now block needTime ts
  | blockErase _ _ => simp [emulated, InTime]
  | nvramGc _ _ => simp [emulated, InTime]
  | gcNvramRead _ _ => simp [emulated, InTime]

/-- The slowest of the times; of none it is 0. -/
def Slowest (x : Int) (times : List Int) : Prop :=
  (∀ y ∈ times, y ≤ x) ∧ (x ∈ times ∨ times = [] ∧ x = 0)

/-- The fold bounds all of them, -/
theorem le_foldl_slower (times : List Int) (max : Int) :
    max ≤ times.foldl slower max
      ∧ ∀ y ∈ times, y ≤ times.foldl slower max := by
  induction times generalizing max with
  | nil => simp
  | cons y times ih =>
      obtain ⟨hmax, htimes⟩ := ih (slower max y)
      have hslower : max ≤ slower max y ∧ y ≤ slower max y := by
        unfold slower
        split <;> omega
      rw [List.foldl_cons, List.forall_mem_cons]
      exact ⟨by omega, by omega, htimes⟩

/-- and is one of them, or what it started from. -/
theorem foldl_slower_mem (times : List Int) (max : Int) :
    times.foldl slower max = max ∨ times.foldl slower max ∈ times := by
  induction times generalizing max with
  | nil => exact Or.inl rfl
  | cons y times ih =>
      rw [List.foldl_cons, List.mem_cons]
      rcases ih (slower max y) with h | h
      · rw [h]
        unfold slower
        split
        · exact Or.inr (Or.inl rfl)
        · exact Or.inl rfl
      · exact Or.inr (Or.inr h)

/-- Of times that are not negative, the slowest is the fold from zero. -/
theorem slowest_iff {times : List Int} (hpos : ∀ y ∈ times, 0 ≤ y)
    (x : Int) : Slowest x times ↔ x = times.foldl slower 0 := by
  obtain ⟨hzero, hle⟩ := le_foldl_slower times 0
  have hmem := foldl_slower_mem times 0
  cases times with
  | nil => simp [Slowest]
  | cons y times =>
      have hy := hpos y (List.mem_cons_self ..)
      have hyle := hle y (List.mem_cons_self ..)
      have hin : (y :: times).foldl slower 0 ∈ y :: times := by
        rcases hmem with hmem | hmem
        · -- then every time is 0, the first one too
          have hy0 : y = 0 := by omega
          rw [hmem, hy0]
          exact List.mem_cons_self ..
        · exact hmem
      constructor
      · rintro ⟨hall, hx | ⟨hx, -⟩⟩
        · exact Int.le_antisymm (hle x hx) (hall _ hin)
        · cases hx
      · rintro rfl
        exact ⟨hle, Or.inl hin⟩

/-- The times of a tally, all at once. -/
theorem Tally.times {max : Int} {k : Nat} (h : Tally n 0 l k max) :
    (∀ y ∈ pageTimes l, 0 ≤ y) ∧ 0 ≤ max
      ∧ (max < 2 ^ 31 ↔ ∀ now ts io cur, Event.page now ts io cur ∈ l →
        InTime n now ts io) := by
  have hpage : ∀ y, y ∈ pageTimes l ↔ ∃ now ts io,
      Event.page now ts io y ∈ l := by
    intro y
    unfold pageTimes
    rw [List.mem_filterMap]
    constructor
    · rintro ⟨e, he, hy⟩
      cases e with
      | ftl _ => cases hy
      | page now ts io cur =>
          cases hy
          exact ⟨now, ts, io, he⟩
    · rintro ⟨now, ts, io, he⟩
      exact ⟨_, he, rfl⟩
  obtain ⟨hzero, hle⟩ := le_foldl_slower (pageTimes l) 0
  have hmem := foldl_slower_mem (pageTimes l) 0
  rw [← h.slowest] at hzero hle hmem
  refine ⟨?_, hzero, ?_⟩
  · intro y hy
    obtain ⟨now, ts, io, he⟩ := (hpage y).1 hy
    rw [h.honest _ _ _ _ he]
    exact (emulated_time now ts io).1
  · constructor
    · intro hmax now ts io cur he
      have hcur := hle cur ((hpage cur).2 ⟨now, ts, io, he⟩)
      rw [h.honest _ _ _ _ he] at hcur
      exact (emulated_time now ts io).2.1 (by omega)
    · -- the maximum is the time of some access, or zero
      intro hall
      rcases hmem with hmem | hmem
      · omega
      · obtain ⟨now, ts, io, he⟩ := (hpage max).1 hmem
        rw [h.honest _ _ _ _ he]
        exact (emulated_time now ts io).2.2 (hall _ _ _ _ he)

-- ================================================ what is returned

/-- `_FTL_WRITE` does not return `FAIL`. -/
def Served (c : Conf) (n : NandConf) (fuel : Nat) (req : RequestMeta)
    (t : State) : Prop :=
  (ftlWriteInner c n fuel req t).res ≠ .ok none

/-- A request that is served has one access for each of its pages, and
`_FTL_WRITE` returns the slowest. -/
theorem tally_ftlWriteInner {fuel : Nat} {req : RequestMeta} {max : Int}
    (h : ftlWriteInner c n fuel req t = ⟨.ok (some max), t', l⟩) :
    Tally n 0 l (slots c req.sectorNb req.length).length max := by
  unfold ftlWriteInner at h
  by_cases hout : c.sectorNb < req.sectorNb + req.length
  · rw [if_pos hout] at h
    obtain ⟨_, t₁, l₁, l₂, -, hend, rfl⟩ := Prog.bind_ok h
    cases hend
  · rw [if_neg hout] at h
    obtain ⟨r, t₁, l₁, l₂, hpages, hrest, rfl⟩ := Prog.bind_ok h
    have hpages := tally_writePages hpages
    cases r with
    | none => cases hrest
    | some r =>
        obtain ⟨_, t₂, l₃, l₄, hgc, hend, rfl⟩ := Prog.bind_ok hrest
        cases hend
        rw [List.append_nil]
        exact hpages.append (tally_lift _ hgc)

/-- A read within the device counts one access a slot. -/
theorem tally_ssdRead {length sectorNb : Nat} {ret : Int}
    (hin : sectorNb + length ≤ c.sectorNb)
    (h : ssdRead c n length sectorNb t = ⟨.ok ret, t', l⟩) :
    Tally n 0 l (slots c sectorNb length).length ret := by
  unfold ssdRead at h
  rw [if_neg (Nat.not_lt.2 hin)] at h
  exact tally_readPages h

/-- The `int` keeps a latency just when it is below `2 ^ 31`. -/
theorem i32_nonneg_eq_iff {x : Int} (hx : 0 ≤ x) :
    i32 x = x ↔ x < 2 ^ 31 := by
  unfold i32
  omega

/-- In the states that runs lead to there is always a page, or the
device stops. -/
theorem served_of_reach (g : Geo c) {tr : List FemuRemap.Event}
    (h : Reach c t.ssd tr) {fuel : Nat} {req : RequestMeta}
    (hin : req.sectorNb + req.length ≤ c.sectorNb) :
    Served c n fuel req t := by
  intro hnone
  obtain ⟨p, hp⟩ := h.visited.aligned g
  have hbase := (ftlWriteInner_shadows fuel req t).ok (Out.eq_of_res hnone)
  unfold FemuRemap.ftlWrite at hbase
  rw [if_neg (Nat.not_lt.2 hin)] at hbase
  obtain ⟨r, s₁, l₁, l₂, hpages, hrest, -⟩ := Prog.bind_ok hbase
  have hprog : Quiet (FemuRemap.writePages c fuel req.lpnsInfo
      (slots c req.sectorNb req.length) 0 none) t.ssd _ :=
    g.writePages_programs hp req.lpnsInfo
      (slots c req.sectorNb req.length) 0 none
  have hsome := (hprog fun _ _ => trivial).2
  rw [show FemuRemap.writePages c fuel req.lpnsInfo
    (slots c req.sectorNb req.length) 0 none t.ssd = _ from hpages] at hsome
  obtain ⟨q', _, _, rfl, -⟩ := hsome
  obtain ⟨_, s₂, l₃, l₄, -, hend, -⟩ := Prog.bind_ok hrest
  cases hend

/-- A served write returns a latency that is not negative and is that of
its slowest page just when every page's access is done within `2 ^ 31`
nanoseconds; one access is made for each page. With one plane a flash,
the writes of a run are all served. A read returns the slowest page's
latency in any case. -/
theorem write_latency_exact_iff (c : Conf) (n : NandConf) (fuel : Nat)
    (req : RequestMeta) (t : State)
    (hin : req.sectorNb + req.length ≤ c.sectorNb) :
    (∀ ret t' l, ssdWrite c n fuel req t = ⟨.ok ret, t', l⟩ →
        Served c n fuel req t →
        (pageTimes l).length = (slots c req.sectorNb req.length).length
          ∧ ((0 ≤ ret ∧ Slowest ret (pageTimes l))
            ↔ ∀ now ts io cur, Event.page now ts io cur ∈ l →
              InTime n now ts io))
      ∧ (∀ tr, Geo c → Reach c t.ssd tr → Served c n fuel req t)
      ∧ ∀ length sectorNb ret t' l, sectorNb + length ≤ c.sectorNb →
        ssdRead c n length sectorNb t = ⟨.ok ret, t', l⟩ →
        (pageTimes l).length = (slots c sectorNb length).length
          ∧ 0 ≤ ret ∧ Slowest ret (pageTimes l) := by
  refine ⟨?_, fun tr g h => served_of_reach g h hin, ?_⟩
  · intro ret t' l hrun hserved
    obtain ⟨r, hinner, hret⟩ : ∃ r, ftlWriteInner c n fuel req t
        = ⟨.ok r, t', l⟩ ∧ ret = i32 (r.getD fail) := by
      obtain ⟨r, t₁, l₁, l₂, hinner, hend, rfl⟩ := Prog.bind_ok hrun
      cases hend
      exact ⟨r, by rw [hinner, List.append_nil], rfl⟩
    cases r with
    | none => exact absurd (by rw [hinner]) hserved
    | some max =>
        have htally := tally_ftlWriteInner hinner
        obtain ⟨hpos, hmax, hiff⟩ := htally.times
        refine ⟨htally.pages, ?_⟩
        -- the maximum is taken in 64 bits and returned as an `int`
        rw [slowest_iff hpos, ← htally.slowest, ← hiff,
          ← i32_nonneg_eq_iff hmax]
        subst hret
        constructor
        · intro h
          exact h.2
        · intro h
          rw [Option.getD_some, h]
          exact ⟨hmax, rfl⟩
  · intro length sectorNb ret t' l hin hrun
    have htally := tally_ssdRead hin hrun
    obtain ⟨hpos, hmax, -⟩ := htally.times
    exact ⟨htally.pages, hmax, (slowest_iff hpos ret).2 htally.slowest⟩

/-- The delays of a flash chip in nanoseconds; both flashes are on one
channel. -/
def nand : NandConf where
  flashNb := 2
  channelNb := 1
  regWriteDelay := 40000
  cellProgramDelay := 800000
  regReadDelay := 60000
  cellReadDelay := 40000
  blockEraseDelay := 3000000

/-- A write of the first page. -/
def firstPage : RequestMeta := ⟨1, 0, fun _ => ⟨0, -1, some 7⟩⟩

/-- A fresh device with chips that are busy until `avail`. -/
def freshState (avail : Int) : State :=
  ⟨ftlInit tinyConf, { Timing.initFlashTs with
    chipNextAvailTime := .fill avail }, fun _ => 0⟩

/-- All of `busyRun` but its last write. -/
def backlogRun : List Cmd := busyRun.take 35

def backlogOut : Out Ssd FemuRemap.Event Fault Unit :=
  runCmds tinyConf 200 backlogRun (ftlInit tinyConf)

theorem backlogOut_reach : Reach tinyConf backlogOut.st backlogOut.log :=
  (Ran.start 200 backlogRun
    (fun cmd hc => busyRun_inRange cmd (List.mem_of_mem_take hc))
    (by decide +kernel)).reach

/-- The device after it, with work left for its chips; a microsecond
passes between two accesses. -/
def backlogState : State where
  ssd := backlogOut.st
  ts := { Timing.initFlashTs with
    chipNextAvailTime := (Table.fill 500000).set 0 5000000 }
  clock i := 1000 * i

/-- Three pages that are not hinted. -/
def threePages : RequestMeta := ⟨3, 2, fun _ => ⟨0, -1, some 7⟩⟩

/-- The second of three pages waits longest; superblock 2 is collected
after them. -/
theorem write_latency_exact_backlog :
    (ssdWrite tinyConf nand 200 threePages backlogState).res = .ok 5799000
      ∧ pageTimes (ssdWrite tinyConf nand 200 threePages backlogState).log
        = [1300000, 5799000, 2098000]
      ∧ (ssdWrite tinyConf nand 200 threePages backlogState).log.any
        (fun e => match e with
          | .ftl (.io (.blockErase 0 2)) => true
          | _ => false) = true
      ∧ ∀ now ts io cur, Event.page now ts io cur
          ∈ (ssdWrite tinyConf nand 200 threePages backlogState).log →
        InTime nand now ts io := by
  have heval : (ssdWrite tinyConf nand 200 threePages backlogState).res
        = .ok 5799000
      ∧ pageTimes (ssdWrite tinyConf nand 200 threePages backlogState).log
        = [1300000, 5799000, 2098000]
      ∧ (ssdWrite tinyConf nand 200 threePages backlogState).log.any
        (fun e => match e with
          | .ftl (.io (.blockErase 0 2)) => true
          | _ => false) = true := by
    decide +kernel
  obtain ⟨hrun, htimes, herase⟩ := heval
  have hreach : Reach tinyConf backlogState.ssd backlogOut.log := by
    dsimp only [backlogState]
    exact backlogOut_reach
  have hall := write_latency_exact_iff tinyConf nand 200 threePages
    backlogState (by decide)
  have hiff := (hall.1 _ _ _ (Out.eq_of_res hrun)
    (hall.2.1 _ tinyConf_geo hreach)).2
  refine ⟨hrun, htimes, herase, hiff.1 ⟨by decide, ?_⟩⟩
  rw [htimes]
  exact ⟨by decide, Or.inl (by decide)⟩

/-- With two seconds and a bit of backlog the latency comes back
negative. -/
theorem write_latency_lost :
    Reach tinyConf (freshState (2 ^ 31)).ssd []
      ∧ firstPage.sectorNb + firstPage.length ≤ tinyConf.sectorNb
      ∧ pageTimes (ssdWrite tinyConf nand 200 firstPage
          (freshState (2 ^ 31))).log = [2148283648]
      ∧ (ssdWrite tinyConf nand 200 firstPage (freshState (2 ^ 31))).res
        = .ok (-2146683648) :=
  ⟨.init, by decide, by decide +kernel, by decide +kernel⟩

end FemuRemap.Timed
