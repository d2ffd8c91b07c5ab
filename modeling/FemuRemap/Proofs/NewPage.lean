/-
Programming a new page: allocation in a sound state, and the write that
maps an lpn to the page.

# Running out

`Runs c fuel A` is the judgement from here on. Two things can stop a
function: the fuel of the model, which is not used up above `fuelBound`,
and the lack of space. `A` is the proposition that space may run out.
With `A` true nothing is asked of the space; with `A` false every call
that needs pages has to show that they are there, and neither the fault
nor the diagnostics of an exhausted device can occur.
-/
import FemuRemap.Proofs.Updates

namespace FemuRemap

open Lib

variable {c : Conf}

-- ======================================================== the judgement

/-- Fuel that no function uses up: the loop of `GC_CHECK` frees a page
in each round, and no list is longer than 127. -/
def fuelBound (c : Conf) : Nat := c.pageMappingEntryNb + 128

/-- The diagnostics of an exhausted device. -/
def exhausted : List Msg := [.noEmptyBlock, .noVictimBlock, .tooManyValid]

/-- What events may be reported when `A` says that space may run out. -/
def Allowed (c : Conf) (A : Prop) : Event → Prop
  | .error m => m ∈ hostErrors ∨ A ∧ m ∈ exhausted
  | .checked emptyBlockNb ppnFree => A ∨
      (c.gcThresholdBlockNb ≤ emptyBlockNb
        ∧ c.gcThresholdBlockNb * c.pageNb ≤ ppnFree)
  | e => Good c e

/-- What is always fine is allowed. -/
theorem Good.allowed {A : Prop} {e : Event} (h : Good c e) :
    Allowed c A e := by
  cases e with
  | error m => exact .inl h
  | checked _ _ => exact h.elim
  | io _ => exact h
  | alloc _ _ _ _ => exact h
  | share _ _ _ => exact h
  | count _ _ => exact h
  | restated _ _ _ _ => exact h
  | refused => exact h.elim
  | erase _ _ _ => exact h
  | collect _ _ _ => exact h

/-- How a function may stop. -/
def Faulty (c : Conf) (fuel : Nat) (A : Prop) (e : Fault) : Prop :=
  (e = .outOfFuel ∧ fuel ≤ fuelBound c) ∨ (e = .nullEmptyBlock ∧ A)

/-- The judgement of functions that may need new pages. -/
abbrev Runs (c : Conf) (fuel : Nat) (A : Prop) {α : Type} (m : Ftl α)
    (s : Ssd) (Q : α → Ssd → Prop) : Prop :=
  Sat NoWrap (Allowed c A) m s Q fun e _ => Faulty c fuel A e

variable {fuel : Nat} {A : Prop} {s : Ssd}

/-- A function that never faults is one of them. -/
theorem Step.runs {α : Type} {m : Ftl α} {Q : α → Ssd → Prop}
    (h : Step c m s Q) : Runs c fuel A m s Q :=
  h.sat.weaken fun _ => Good.allowed

-- ========================================================== allocation

/-- Page `q` was just handed out and is still empty. -/
structure Fresh (c : Conf) (p : Pool) (out : List Nat) (D : Nat → Prop)
    (q : Nat) (p' : Pool) : Prop where
  lt : q < c.pageMappingEntryNb
  unused : ¬ Used c p out q
  used : ∀ x, x < c.pageMappingEntryNb →
    (Used c p' out x ↔ Used c p out x ∨ x = q)
  inside : blockOf c q ∉ out
  live : ¬ D q
  room : p.room c.sbPages = p'.room c.sbPages + 1

variable {p p' : Pool} {out : List Nat} {H : Option Nat} {D : Nat → Prop}
  {m : Nat → Option Nat} {nv : Nat → Int} {y : Option Nat} {q L : Nat}

/-- The page that was handed out is free and the pool's next. -/
theorem Geo.newPage_fresh (g : Geo c) (h : Pages c p out none D s)
    {s' : Ssd} (hn : NewPage c p s q p' s') : Fresh c p out D q p' := by
  obtain ⟨b, k, l, hn, rfl, -, -⟩ := hn
  obtain ⟨hb, hk⟩ := Pool.next_lt h.pool g.sbPages_pos hn
  have hout : blockOf c (pageAt c b k) ∉ out := by
    rw [blockOf_pageAt hb hk]
    exact (Pool.next_fresh h.pool hn).2
  exact ⟨g.pageAt_lt hb hk, g.not_used_next h.pool hn,
    fun x hx => g.used_next h.pool hn hx, hout,
    fun hD => hout (h.drained _ hD), Pool.room_next g.sbPages_pos hn⟩

theorem Geo.getNewPage_runs (g : Geo c)
    (h : Tracked c p out none D m nv none y s) (fuel : Nat)
    (hA : p.room c.sbPages = 0 → A) :
    Runs c fuel A (getNewPage c fuel) s fun r s' =>
      ∃ q p', r = some q ∧ NewPage c p s q p' s' ∧ Fresh c p out D q p'
        ∧ Tracked c p' out (some q) D m nv none y s' := by
  have hA' : p.next c.sbPages = none → A := fun hn =>
    hA ((Pool.next_eq_none g.sbPages_pos).1 hn)
  refine Sat.mono (g.getNewPage_sat h.pages.lists h.pages.pool
    (fun hn => .inr ⟨hA' hn, by decide⟩) (fun b k p' hn => ?_) fuel) ?_ ?_
  · obtain ⟨h₁, h₂, h₃⟩ := g.pages_next h.pages hn
    exact ⟨h₁, h₂, h₃⟩
  · rintro r s' ⟨q, p', rfl, hq⟩
    refine ⟨q, p', rfl, hq, g.newPage_fresh h.pages hq, ?_⟩
    obtain ⟨b, k, l, hn, rfl, rfl, hl⟩ := hq
    exact ⟨g.pages_take h.pages hn hl, h.maps.congr fun _ => rfl,
      h.records⟩
  · rintro e _ (⟨rfl, hn⟩ | ⟨rfl, hle⟩)
    · exact .inr ⟨rfl, hA' hn⟩
    · have := g.sized.flashNb_le
      exact .inl ⟨rfl, by unfold fuelBound; omega⟩

/-- A page no lpn maps to, handed out and not yet programmed. -/
theorem Tracked.hole (h : Tracked c p out (some q) D m nv none y s)
    (hq : q < c.pageMappingEntryNb) (hm : ∀ K, m K ≠ some q) :
    s.refs q = [] ∧ s.valid c q = 0 := by
  refine ⟨List.eq_nil_iff_forall_not_mem.2 fun K hK => ?_,
    (h.pages.fresh q hq).2 (.inr rfl)⟩
  exact hm K ((h.maps.mem_iff hq).1 hK)

/-- No lpn maps to a page that was not in use. -/
theorem Tracked.unmapped (h : Tracked c p out H D m nv none y s)
    (hu : ¬ Used c p out q) (hD : ¬ D q) (K : Nat) : m K ≠ some q :=
  fun hK => hu (h.in_use hK hD).2.1

-- ============================================================ writing

/-- The counters of accesses changed. -/
def accessed (r w : Nat) (s : Ssd) : Ssd :=
  { s with stat := { s.stat with totalReadCount := r
                                 totalWriteCount := w } }

/-- A read counts and changes nothing else, -/
theorem ssdPageRead_step (f b k : Nat) :
    Step c (ssdPageRead f b k) s fun _ s' =>
      ∃ r w, s' = accessed r w s :=
  Sat.modify_bind (Sat.emit fun _ => ⟨trivial, _, _, rfl⟩)

/-- nor does a write. -/
theorem ssdPageWrite_step (f b k : Nat) :
    Step c (ssdPageWrite f b k) s fun _ s' =>
      ∃ r w, s' = accessed r w s :=
  Sat.modify_bind (Sat.emit fun _ => ⟨trivial, _, _, rfl⟩)

theorem accessPage_step (slot : Slot) (old : Option Nat) (q : Nat) :
    Step c (accessPage c slot old q) s fun _ s' =>
      ∃ r w, s' = accessed r w s := by
  cases old with
  | none => exact ssdPageWrite_step _ _ _
  | some o =>
      unfold accessPage
      dsimp only
      split
      · exact Sat.modify_bind (Sat.emit fun _ => ⟨trivial, _, _, rfl⟩)
      · exact ssdPageWrite_step _ _ _

/-- A sound state in which `L` was mapped to the new page `q`, holding
`d`. -/
structure Written (c : Conf) (p : Pool) (s : Ssd) (L q : Nat)
    (d : Option Nat) (s' : Ssd) : Prop where
  sound : Sound c p s'
  mapping : s'.mappingTable.get
    = Function.update s.mappingTable.get L (some q)
  content : s'.content = s.content.set q d
  gcWrites : s'.stat.gcWriteCount = s.stat.gcWriteCount
  segs : segs c s' = segs c s

/-- Once the lpn is detached and the map written, it takes the reference
that is ahead. -/
theorem Tracked.sound_stored {s' : Ssd}
    (h : Tracked c p [] none noPage
      (Function.update s.mappingTable.get L none) s.inNvram.get
      (some (q, L)) none s')
    (hm : s'.mappingTable.get
      = Function.update s.mappingTable.get L (some q))
    (hnv : s'.inNvram = s.inNvram) (hq : q < c.pageMappingEntryNb)
    (hL : L < c.pageMappingEntryNb)
    (hfirst : ∀ K, Function.update s.mappingTable.get L none K ≠ some q) :
    Sound c p { s' with inNvram := s'.inNvram.set L 0 } := by
  have hnew := h.attach_flash (Function.update_self ..) hq hL hfirst
  rw [Function.update_idem] at hnew
  unfold Sound
  rw [hm, Table.get_set_eq, hnv]
  exact hnew.alike (by constructor <;> rfl)

/-- Detaching an lpn maps nothing to a new page. -/
theorem update_none_ne (hm : ∀ K, m K ≠ some q) (K : Nat) :
    Function.update m L none K ≠ some q := by
  by_cases hK : K = L
  · simp [hK]
  · rw [Function.update_of_ne hK]
    exact hm K

/-- Programming a page that was just handed out. -/
theorem Geo.storePage_step (g : Geo c)
    (h : Tracked c p [] (some q) noPage s.mappingTable.get s.inNvram.get
      none none s)
    (hq : q < c.pageMappingEntryNb) (hu : Used c p [] q)
    (hm : ∀ K, s.mappingTable K ≠ some q) (info : LpnInfo)
    {slot : Slot} (hL : slot.lpn < c.pageMappingEntryNb) :
    Step c (storePage c info slot q) s fun _ s' =>
      Written c p s slot.lpn q (pageData s info) s' := by
  refine Sat.get_bind (Sat.bind (accessPage_step slot _ q) ?_)
  rintro _ _ ⟨r, w, rfl⟩
  refine Sat.modify_bind ?_
  refine Sat.bind (g.updateOldPageMapping_step
    (h.alike (by constructor <;> rfl)) rfl rfl
    fun _ _ => ⟨id, by simp⟩) ?_
  rintro _ s₁ ⟨h₁, hk₁, hs₁⟩
  -- the old page is dropped before the new one is entered, and the new one
  -- has no lpn yet
  have hm₁ := update_none_ne (L := slot.lpn) hm
  obtain ⟨hr₁, hv₁⟩ := h₁.hole hq hm₁
  refine Sat.bind (g.updateNewPageMapping_step h₁ hq id hu
    (by rw [hr₁, hv₁]; rfl) (.inr rfl) slot.lpn) ?_
  rintro _ s₂ ⟨h₂, hk₂, hn₂⟩
  have hmap : s₂.mappingTable.get
      = Function.update s.mappingTable.get slot.lpn (some q) := by
    rw [hk₂.mapping, Table.get_set_eq, hk₁.mapping]
    rfl
  have hflag : s₂.inNvram = s.inNvram := hk₂.inNvram.trans hk₁.inNvram
  refine Sat.modify_bind (Sat.modify ⟨?_, hmap, ?_, ?_, ?_⟩)
  · exact (h₂.sound_stored (s := s) hmap hflag hq hL hm₁).alike
      (by constructor <;> rfl)
  · rw [hk₂.content]
    exact hk₁.content
  · exact hk₂.writes.gc.trans hk₁.writes.gc
  · unfold segs
    rw [hn₂]
    exact hs₁

/-- A page is found, accessed and entered. -/
theorem Geo.programPage_runs (g : Geo c) (h : Sound c p s) (fuel : Nat)
    (hA : p.room c.sbPages = 0 → A) (info : LpnInfo) {slot : Slot}
    (hL : slot.lpn < c.pageMappingEntryNb) :
    Runs c fuel A (programPage c fuel info slot) s fun r s' =>
      ∃ q p', r = some q ∧ Fresh c p [] noPage q p'
        ∧ Written c p' s slot.lpn q (pageData s info) s' := by
  refine Sat.bind (g.getNewPage_runs h fuel hA) ?_
  rintro _ s₁ ⟨q, p₁, rfl, ⟨b, k, l, -, -, rfl, -⟩, hf, h₁⟩
  refine Sat.bind (Step.runs (g.storePage_step
    (s := takePage c q l s) h₁ hf.lt ((hf.used q hf.lt).2 (.inr rfl))
    (h.unmapped hf.unused id) info hL)) ?_
  intro _ s₂ h₂
  exact Sat.pure ⟨q, p₁, rfl, hf, h₂.sound, h₂.mapping, h₂.content,
    h₂.gcWrites, h₂.segs⟩

end FemuRemap
