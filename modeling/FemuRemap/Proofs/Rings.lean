/-
The two ends of one queue, apart from everything else: what each side
may do to it, and the counts behind its indices.

A submission queue goes from the driver to the controller and its
entries may be marked while they lie there; the completion queue goes
the other way, and the driver tells a new entry by its phase. Either has
a chain of counts (`Ring.Flow`) in which the reader follows the writer
and the writer keeps less than a lap ahead of what it knows of the
reader. The doorbell value in guest memory is one more count on the way
from one side to the other.
-/
import FemuRemap.Spec.Driver

namespace FemuRemap.Rings

open Lib Completion

-- ==================================================== submission queue

/-- A submission queue as its two sides have it. -/
structure SqEnds where
  size : Nat
  head : Nat
  tail : Nat
  shadow : Option Nat
  entries : Nat → Entry
  hostTail : Nat
  hostHead : Nat
  fetched : List Entry
  submitted : List Entry

/-- The counts behind the indices. `log` has all entries that were ever
written, with their marks, and `init` what the slots held before. -/
structure SqCounts where
  init : Nat → Entry
  log : List Entry
  known : Nat
  tail : Nat
  shadow : Nat

/-- What the driver asks for. -/
def Entry.asked (e : Entry) : Nat × Verdict := (e.cid, e.verdict)

/-- The indices of a submission ring are the counts modulo its size, and the
slots hold the entries of the log that were not fetched. -/
structure SqLinked (e : SqEnds) (k : SqCounts) : Prop where
  size_lt : e.size < 2 ^ 16
  head : e.head = e.fetched.length % e.size
  tail : e.tail = k.tail % e.size
  shadow : ∀ v ∈ e.shadow, v = k.shadow % e.size
  hostTail : e.hostTail = k.log.length % e.size
  hostHead : e.hostHead = k.known % e.size
  flow : Ring.Flow e.size k.known e.fetched.length k.tail k.log.length
  tail_le : k.tail ≤ k.shadow
  shadow_le : k.shadow ≤ k.log.length
  fetched : e.fetched = k.log.take e.fetched.length
  submitted : k.log.map Entry.asked = e.submitted.map Entry.asked
  holds : Ring.Holds e.size k.init e.entries k.log

namespace SqLinked

variable {e : SqEnds} {k : SqCounts}

theorem size_pos (h : SqLinked e k) : 0 < e.size := by
  have := h.flow.known_le
  have := h.flow.read_le
  have := h.flow.seen_le
  have := h.flow.room
  omega

/-- No more is fetched than was submitted. -/
theorem fetched_le (h : SqLinked e k) : e.fetched.length ≤ k.log.length :=
  Nat.le_trans h.flow.read_le h.flow.seen_le

/-- What is not fetched was written less than a lap ago. -/
theorem room (h : SqLinked e k) :
    k.log.length < e.fetched.length + e.size := by
  have := h.flow.known_le
  have := h.flow.room
  omega

/-- The driver adds an entry to a ring that is not full. -/
theorem submit (h : SqLinked e k) (x : Entry)
    (hroom : (e.hostTail + 1) % e.size ≠ e.hostHead) :
    SqLinked
      { e with
        entries := Function.update e.entries e.hostTail x
        hostTail := (e.hostTail + 1) % e.size
        submitted := e.submitted ++ [x] }
      { k with log := k.log ++ [x] } where
  size_lt := h.size_lt
  head := h.head
  tail := h.tail
  shadow := h.shadow
  hostTail := by
    rw [h.hostTail, Nat.mod_add_mod, List.length_append,
      List.length_singleton]
  hostHead := h.hostHead
  flow := by
    rw [h.hostTail, h.hostHead] at hroom
    rw [List.length_append, List.length_singleton]
    exact h.flow.write hroom
  tail_le := h.tail_le
  shadow_le := by
    rw [List.length_append]
    exact Nat.le_add_right_of_le h.shadow_le
  fetched := by
    rw [List.take_append_of_le_length h.fetched_le]
    exact h.fetched
  submitted := by
    rw [List.map_append, List.map_append, h.submitted]
  holds := by
    rw [h.hostTail]
    exact h.holds.push x

/-- The driver publishes its tail in guest memory. -/
theorem publish (h : SqLinked e k) :
    SqLinked { e with shadow := e.shadow.map fun _ => e.hostTail }
      { k with shadow := k.log.length } :=
  { h with
    shadow := by
      intro v hv
      obtain ⟨_, _, rfl⟩ := Option.mem_map.1 hv
      exact h.hostTail
    tail_le := h.flow.seen_le
    shadow_le := Nat.le_refl _ }

/-- The driver writes its tail to the register. -/
theorem ring (h : SqLinked e k) (hshadow : e.shadow = none) :
    SqLinked { e with tail := e.hostTail }
      { k with tail := k.log.length, shadow := k.log.length } :=
  { h with
    tail := h.hostTail
    shadow := by
      intro v hv
      rw [hshadow] at hv
      cases hv
    flow := h.flow.see h.flow.seen_le (Nat.le_refl _)
    tail_le := Nat.le_refl _
    shadow_le := Nat.le_refl _ }

/-- The controller reads the tail from guest memory. -/
theorem sync (h : SqLinked e k) :
    SqLinked { e with tail := e.shadow.getD e.tail }
      { k with tail := if e.shadow.isSome then k.shadow else k.tail } := by
  cases hs : e.shadow with
  | none => exact { h with shadow := nofun }
  | some v =>
      have hv := h.shadow v hs
      exact
        { h with
          tail := hv
          shadow := fun w hw => h.shadow w (hs ▸ hw)
          flow := h.flow.see h.tail_le h.shadow_le
          tail_le := Nat.le_refl _ }

/-- The slot at the head holds the next entry of the log. -/
theorem next (h : SqLinked e k) (hne : e.head ≠ e.tail) :
    ∃ hlt : e.fetched.length < k.log.length,
      e.entries e.head = k.log[e.fetched.length] := by
  rw [h.head, h.tail] at hne
  have hlt : e.fetched.length < k.log.length :=
    Nat.lt_of_lt_of_le (h.flow.lt_of_ne hne) h.flow.seen_le
  refine ⟨hlt, ?_⟩
  rw [h.head]
  exact h.holds.entry _ hlt (Nat.le_of_lt h.room)

/-- The device takes the next entry. -/
theorem fetch (h : SqLinked e k) (hne : e.head ≠ e.tail) :
    SqLinked
      { e with
        head := (e.head + 1) % e.size
        fetched := e.fetched ++ [e.entries e.head] }
      k := by
  obtain ⟨hlt, hentry⟩ := h.next hne
  rw [h.head, h.tail] at hne
  exact
    { h with
      head := by
        rw [h.head, Nat.mod_add_mod, List.length_append,
          List.length_singleton]
      flow := by
        rw [List.length_append, List.length_singleton]
        exact h.flow.take (h.flow.lt_of_ne hne)
      fetched := by
        rw [List.length_append, List.length_singleton,
          List.take_succ_eq_append_getElem hlt, ← h.fetched, hentry] }

/-- An entry that is not fetched is written again, for the same thing. -/
theorem mark (h : SqLinked e k) {i : Nat} {x : Entry}
    (hle : e.fetched.length ≤ i) (hi : i < k.log.length)
    (hx : x.asked = k.log[i].asked) :
    SqLinked
      { e with entries := Function.update e.entries (i % e.size) x }
      { k with log := k.log.set i x } where
  size_lt := h.size_lt
  head := h.head
  tail := h.tail
  shadow := h.shadow
  hostTail := by
    rw [List.length_set]
    exact h.hostTail
  hostHead := h.hostHead
  flow := by
    rw [List.length_set]
    exact h.flow
  tail_le := h.tail_le
  shadow_le := by
    rw [List.length_set]
    exact h.shadow_le
  fetched := by
    rw [List.take_set_of_le hle]
    exact h.fetched
  submitted := by
    rw [List.map_set, hx, ← List.getElem_map Entry.asked, List.set_getElem_self]
    · exact h.submitted
    · rwa [List.length_map]
  holds := h.holds.set hi (by have := h.room; omega) x

/-- The driver is told of a head. -/
theorem learn (h : SqLinked e k) {v : Nat} (hle : k.known ≤ v)
    (hv : v ≤ e.fetched.length) :
    SqLinked { e with hostHead := v % e.size } { k with known := v } :=
  { h with
    hostHead := rfl
    flow := h.flow.learn hle hv }

end SqLinked

-- ==================================================== completion queue

/-- The completion queue as its two sides have it. -/
structure CqEnds where
  size : Nat
  head : Nat
  tail : Nat
  phase : Bool
  shadow : Option Nat
  entries : Nat → Cqe
  hostHead : Nat
  hostPhase : Bool
  reaped : List Cqe
  posted : List Cqe

/-- What each side of the completion ring was told. -/
structure CqCounts where
  known : Nat
  shadow : Nat

/-- The same of the completion ring, whose slots also carry the phase of their
lap. -/
structure CqLinked (e : CqEnds) (k : CqCounts) : Prop where
  head : e.head = k.known % e.size
  tail : e.tail = e.posted.length % e.size
  phase : e.phase = Ring.phase e.size e.posted.length
  shadow : ∀ v ∈ e.shadow, v = k.shadow % e.size
  hostHead : e.hostHead = e.reaped.length % e.size
  hostPhase : e.hostPhase = Ring.phase e.size e.reaped.length
  flow : Ring.Flow e.size k.known e.reaped.length e.posted.length
    e.posted.length
  known_le : k.known ≤ k.shadow
  shadow_le : k.shadow ≤ e.reaped.length
  reaped : e.reaped = e.posted.take e.reaped.length
  tags : ∀ i (h : i < e.posted.length),
    phaseTag e.posted[i] = Ring.phase e.size i
  holds : Ring.Holds e.size (fun _ => ⟨0, 0, 0, 0⟩) e.entries e.posted

namespace CqLinked

variable {e : CqEnds} {k : CqCounts}

/-- The device never laps the driver. -/
theorem room (h : CqLinked e k) :
    e.posted.length < e.reaped.length + e.size := by
  have := h.flow.known_le
  have := h.flow.room
  omega

theorem size_pos (h : CqLinked e k) : 0 < e.size := by
  have := h.flow.read_le
  have := h.room
  omega

/-- The device adds a completion, in the phase of its lap. -/
theorem post (h : CqLinked e k) (x : Cqe) (htag : phaseTag x = e.phase)
    (hroom : (e.tail + 1) % e.size ≠ e.head) :
    CqLinked
      { e with
        tail := if e.size ≤ e.tail + 1 then 0 else e.tail + 1
        phase := if e.size ≤ e.tail + 1 then !e.phase else e.phase
        entries := Function.update e.entries e.tail x
        posted := e.posted ++ [x] }
      k where
  head := h.head
  tail := by
    rw [h.tail, List.length_append, List.length_singleton,
      Ring.slot_succ h.size_pos]
  phase := by
    rw [h.tail, h.phase, List.length_append, List.length_singleton,
      Ring.phase_succ h.size_pos]
  shadow := h.shadow
  hostHead := h.hostHead
  hostPhase := h.hostPhase
  flow := by
    rw [h.tail, h.head] at hroom
    rw [List.length_append, List.length_singleton]
    exact (h.flow.write hroom).see (Nat.le_succ _) (Nat.le_refl _)
  known_le := h.known_le
  shadow_le := h.shadow_le
  reaped := by
    rw [List.take_append_of_le_length h.flow.read_le]
    exact h.reaped
  tags i hi := by
    rw [List.length_append, List.length_singleton] at hi
    rcases Nat.lt_or_ge i e.posted.length with hlt | hge
    · rw [List.getElem_append_left hlt]
      exact h.tags i hlt
    · obtain rfl : i = e.posted.length := by omega
      simp [htag, h.phase]
  holds := by
    rw [h.tail]
    exact h.holds.push x

/-- The driver publishes its head in guest memory. -/
theorem publish (h : CqLinked e k) :
    CqLinked { e with shadow := e.shadow.map fun _ => e.hostHead }
      { k with shadow := e.reaped.length } :=
  { h with
    shadow := by
      intro v hv
      obtain ⟨_, _, rfl⟩ := Option.mem_map.1 hv
      exact h.hostHead
    known_le := h.flow.known_le
    shadow_le := Nat.le_refl _ }

/-- The driver writes its head to the register. -/
theorem ring (h : CqLinked e k) (hshadow : e.shadow = none) :
    CqLinked { e with head := e.hostHead }
      { k with known := e.reaped.length, shadow := e.reaped.length } :=
  { h with
    head := h.hostHead
    shadow := by
      intro v hv
      rw [hshadow] at hv
      cases hv
    flow := h.flow.learn h.flow.known_le (Nat.le_refl _)
    known_le := Nat.le_refl _
    shadow_le := Nat.le_refl _ }

/-- The controller reads the head from guest memory. -/
theorem sync (h : CqLinked e k) :
    CqLinked { e with head := e.shadow.getD e.head }
      { k with known := if e.shadow.isSome then k.shadow else k.known } := by
  cases hs : e.shadow with
  | none => exact { h with shadow := nofun }
  | some v =>
      have hv := h.shadow v hs
      exact
        { h with
          head := hv
          shadow := fun w hw => h.shadow w (hs ▸ hw)
          flow := h.flow.learn h.known_le h.shadow_le
          known_le := Nat.le_refl _ }

/-- The driver sees the phase it waits for just when there is an entry
that it has not taken. -/
theorem tag_eq_iff (h : CqLinked e k) :
    phaseTag (e.entries e.hostHead) = e.hostPhase
      ↔ e.reaped.length < e.posted.length := by
  rw [h.hostHead, h.hostPhase]
  exact h.holds.tag_eq_phase_iff h.size_pos (fun _ => rfl) h.tags
    h.flow.read_le (Nat.le_of_lt h.room)

/-- The driver reads the oldest completion it has not taken. -/
theorem next (h : CqLinked e k) (hlt : e.reaped.length < e.posted.length) :
    e.entries e.hostHead = e.posted[e.reaped.length] := by
  rw [h.hostHead]
  exact h.holds.entry _ hlt (Nat.le_of_lt h.room)

theorem reap (h : CqLinked e k) (hlt : e.reaped.length < e.posted.length) :
    CqLinked
      { e with
        hostHead := if e.size ≤ e.hostHead + 1 then 0 else e.hostHead + 1
        hostPhase :=
          if e.size ≤ e.hostHead + 1 then !e.hostPhase else e.hostPhase
        reaped := e.reaped ++ [e.entries e.hostHead] }
      k :=
  { h with
    hostHead := by
      rw [h.hostHead, List.length_append, List.length_singleton,
        Ring.slot_succ h.size_pos]
    hostPhase := by
      rw [h.hostHead, h.hostPhase, List.length_append,
        List.length_singleton, Ring.phase_succ h.size_pos]
    flow := by
      rw [List.length_append, List.length_singleton]
      exact h.flow.take hlt
    shadow_le := by
      rw [List.length_append]
      exact Nat.le_add_right_of_le h.shadow_le
    reaped := by
      rw [List.length_append, List.length_singleton,
        List.take_succ_eq_append_getElem hlt, ← h.reaped, h.next hlt] }

end CqLinked

-- ====================================================== reported heads

/-- The heads that the entries of the completion queue report, as counts:
none is ahead of its queue, they grow, and what the driver knows is not
ahead of those it has yet to read. -/
structure Reports (size fetched known : Nat → Nat) (posted : List Cqe)
    (reaped : Nat) (heads : List (Nat × Nat)) : Prop where
  slots : posted.map (fun e => (e.sqId, e.sqHead))
    = heads.map fun h => (h.1, h.2 % size h.1)
  le : ∀ h ∈ heads, h.2 ≤ fetched h.1
  mono : heads.Pairwise fun g h => g.1 = h.1 → g.2 ≤ h.2
  known : ∀ h ∈ heads.drop reaped, known h.1 ≤ h.2

namespace Reports

variable {size fetched fetched' known : Nat → Nat} {posted : List Cqe}
  {reaped : Nat} {heads : List (Nat × Nat)}

theorem length (h : Reports size fetched known posted reaped heads) :
    heads.length = posted.length := by
  have := congrArg List.length h.slots
  rwa [List.length_map, List.length_map, eq_comm] at this

/-- The controller goes on. -/
theorem fetch (h : Reports size fetched known posted reaped heads)
    (hle : ∀ s, fetched s ≤ fetched' s) :
    Reports size fetched' known posted reaped heads :=
  { h with le := fun g hg => Nat.le_trans (h.le g hg) (hle g.1) }

/-- A completion reports how far its queue was fetched. -/
theorem post (h : Reports size fetched known posted reaped heads)
    (hreaped : reaped ≤ posted.length) {x : Cqe}
    (hx : x.sqHead = fetched x.sqId % size x.sqId)
    (hknown : known x.sqId ≤ fetched x.sqId) :
    Reports size fetched known (posted ++ [x]) reaped
      (heads ++ [(x.sqId, fetched x.sqId)]) where
  slots := by
    rw [List.map_append, List.map_append, h.slots, List.map_singleton,
      List.map_singleton, hx]
  le g hg := by
    rcases List.mem_append.1 hg with hg | hg
    · exact h.le g hg
    · rw [List.mem_singleton.1 hg]
  mono := by
    refine List.pairwise_append.2
      ⟨h.mono, List.pairwise_singleton _ _, fun g hg b hb heq => ?_⟩
    rw [List.mem_singleton.1 hb] at heq ⊢
    exact Nat.le_trans (h.le g hg) (Nat.le_of_eq (congrArg fetched heq))
  known g hg := by
    rw [List.drop_append_of_le_length (h.length ▸ hreaped)] at hg
    rcases List.mem_append.1 hg with hg | hg
    · exact h.known g hg
    · rw [List.mem_singleton.1 hg]
      exact hknown

/-- The driver reads the next one, which is not behind what it knows. -/
theorem next (h : Reports size fetched known posted reaped heads)
    (hlt : reaped < posted.length) :
    ∃ v, posted[reaped].sqHead = v % size posted[reaped].sqId ∧
      known posted[reaped].sqId ≤ v ∧ v ≤ fetched posted[reaped].sqId ∧
      Reports size fetched (Function.update known posted[reaped].sqId v)
        posted (reaped + 1) heads := by
  have hlt' : reaped < heads.length := by rwa [h.length]
  have hslot : (posted[reaped].sqId, posted[reaped].sqHead)
      = (heads[reaped].1, heads[reaped].2 % size heads[reaped].1) := by
    have := List.getElem_of_eq h.slots
      (i := reaped) (by rwa [List.length_map])
    rwa [List.getElem_map, List.getElem_map] at this
  obtain ⟨hid, hhead⟩ := Prod.mk.inj hslot
  have hdrop := List.drop_eq_getElem_cons hlt'
  rw [hid, hhead]
  refine ⟨heads[reaped].2, rfl, ?_, h.le _ (List.getElem_mem hlt'),
    { h with known := fun g hg => ?_ }⟩
  · apply h.known
    rw [hdrop]
    exact List.mem_cons_self
  · rw [Function.update_apply]
    split
    case isTrue hg1 =>
      -- a later report of the same queue
      have hmono := h.mono.sublist (List.drop_sublist reaped heads)
      rw [hdrop, List.pairwise_cons] at hmono
      exact hmono.1 g hg hg1.symm
    case isFalse =>
      apply h.known
      rw [hdrop]
      exact List.mem_cons_of_mem _ hg

end Reports

-- ============================================================== balance

/-- A command of queue `s` is an entry not yet fetched, or in flight, or
completed; one that was aborted again is there once more. -/
def Balanced (s : Nat) (posted : List Cqe) (live : List (Nat × Nat))
    (fetched : Nat) (log : List Entry) (again : List Nat) : Prop :=
  ∀ cid, posted.countP (fun e => e.sqId == s && e.cid == cid)
    + live.countP (·.2 == cid)
    + (log.drop fetched).countP (fun e => e.aborts == 0 && e.cid == cid)
    = log.countP (·.cid == cid) + again.count cid

namespace Balanced

variable {s fetched slot cid i : Nat} {posted : List Cqe}
  {live live' : List (Nat × Nat)} {log : List Entry} {again : List Nat}

/-- The order of those in flight does not matter. -/
theorem perm (h : Balanced s posted live fetched log again)
    (hlive : live'.Perm live) :
    Balanced s posted live' fetched log again := by
  intro c
  rw [hlive.countP_eq]
  exact h c

/-- A new entry is still to be fetched. -/
theorem submit (h : Balanced s posted live fetched log again)
    (hle : fetched ≤ log.length) {x : Entry} (hx : x.aborts = 0) :
    Balanced s posted live fetched (log ++ [x]) again := by
  intro c
  have hc := h c
  rw [List.drop_append_of_le_length hle]
  simp only [List.countP_append, List.countP_singleton, hx, beq_self_eq_true,
    Bool.true_and]
  omega

/-- A command is fetched, or dropped if its entry is marked. -/
theorem fetch (h : Balanced s posted live fetched log again)
    (hlt : fetched < log.length) (hzero : log[fetched].aborts = 0)
    (hlive : live'.Perm ((slot, log[fetched].cid) :: live)) :
    Balanced s posted live' (fetched + 1) log again := by
  intro c
  have hc := h c
  rw [List.drop_eq_getElem_cons hlt] at hc
  simp only [List.countP_cons, hzero, beq_self_eq_true, Bool.true_and] at hc
  simp only [hlive.countP_eq, List.countP_cons]
  omega

/-- An aborted entry was answered before: it is skipped. -/
theorem drop (h : Balanced s posted live fetched log again)
    (hlt : fetched < log.length) (hmarked : log[fetched].aborts ≠ 0) :
    Balanced s posted live (fetched + 1) log again := by
  intro c
  have hc := h c
  rw [List.drop_eq_getElem_cons hlt,
    List.countP_cons_of_neg (by simp [hmarked])] at hc
  exact hc

/-- A completion ends what was in flight. -/
theorem post (h : Balanced s posted live fetched log again) {x : Cqe}
    (hs : x.sqId = s) (hlive : live.Perm ((slot, x.cid) :: live')) :
    Balanced s (posted ++ [x]) live' fetched log again := by
  intro c
  have hc := h c
  simp only [hlive.countP_eq, List.countP_cons] at hc
  simp only [List.countP_append, List.countP_singleton, hs, beq_self_eq_true,
    Bool.true_and]
  omega

theorem post_ne (h : Balanced s posted live fetched log again) {x : Cqe}
    (hs : s ≠ x.sqId) :
    Balanced s (posted ++ [x]) live fetched log again := by
  intro c
  have hne : (x.sqId == s) = false := beq_eq_false_iff_ne.2 hs.symm
  simp only [List.countP_append, List.countP_singleton, hne, Bool.false_and]
  exact h c

/-- `List.countP_set`, without its subtraction. -/
theorem countP_set_add {α : Type} {p : α → Bool} {l : List α} {i : Nat}
    (hi : i < l.length) (a : α) :
    (l.set i a).countP p + (if p l[i] then 1 else 0)
      = l.countP p + if p a then 1 else 0 := by
  rw [List.countP_set hi]
  split
  case isTrue hp =>
    have := List.countP_pos_iff.2 ⟨l[i], List.getElem_mem hi, hp⟩
    omega
  case isFalse => omega

/-- An entry is marked, and its command in flight. -/
theorem mark (h : Balanced s posted live fetched log again)
    (hle : fetched ≤ i) (hi : i < log.length) {x : Entry}
    (hcid : x.cid = log[i].cid) (hx : x.aborts = log[i].aborts + 1)
    (hlive : live'.Perm ((slot, log[i].cid) :: live)) :
    Balanced s posted live' fetched (log.set i x)
      (if log[i].aborts = 0 then again else again ++ [log[i].cid]) := by
  intro c
  have hc := h c
  have hi' : i - fetched < (log.drop fetched).length := by
    rw [List.length_drop]
    omega
  have hget : (log.drop fetched)[i - fetched] = log[i] := by
    rw [List.getElem_drop]
    simp only [Nat.add_sub_of_le hle]
  have hall := countP_set_add (p := fun e : Entry => e.cid == c) hi x
  have hrest := countP_set_add
    (p := fun e : Entry => e.aborts == 0 && e.cid == c) hi' x
  have hmarked : (x.aborts == 0) = false := by simp [hx]
  rw [List.drop_set, if_neg (Nat.not_lt.2 hle), hlive.countP_eq,
    List.countP_cons]
  dsimp only
  simp only [hget, hmarked, hcid, Bool.false_and, Bool.false_eq_true,
    if_false] at hall hrest
  by_cases hzero : log[i].aborts = 0
  · rw [if_pos hzero]
    simp only [hzero, beq_self_eq_true, Bool.true_and] at hrest
    omega
  · rw [if_neg hzero, List.count_append, List.count_singleton]
    simp only [beq_eq_false_iff_ne.2 hzero, Bool.false_and,
      Bool.false_eq_true, if_false] at hrest
    omega

end Balanced

end FemuRemap.Rings
