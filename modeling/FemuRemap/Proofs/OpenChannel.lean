/-
What the buffer of OpenChannel mode holds after a run.

# Runs as histories

A write command is the list of the sectors it names, each with the
metadata the host gave for it (`ops`); a run of accepted commands is the
concatenation of these, its history. `Image` says what the buffer holds
after a history: the state word of every sector but the first is exact,
while the record of sector 0 is shared. Its state word is overwritten by
the metadata of whichever sector was written last, and that metadata is
what is read back for every sector, with the word `FEMU_OC_SEC_WRITTEN`
over its first bytes if sector 0 was written since.
-/
import Mathlib.Data.List.Induction
import FemuRemap.Model.OpenChannel

namespace FemuRemap.OpenChannel

open Lib

/-- Not hybrid, and a buffer of all records fits its size. -/
structure Plain (c : Params) : Prop where
  dom : c.dom ≠ 1
  fits : c.metaLen * c.totalSecs < 2 ^ 31

-- ============================================ the metadata functions

/-- The bytes of `FEMU_OC_SEC_WRITTEN`. -/
def mark : List UInt8 := leBytes intMetaSize MetaState.written.code

section Functions

variable {c : Params} (hc : Plain c) {m : Bytes} {p : Nat}
include hc

/-- The metadata's size in bytes, without the wrap of its type. -/
theorem Plain.tbytes : c.metaTbytes = (c.metaLen * c.totalSecs : Nat) := by
  have h := hc.fits
  unfold Params.metaTbytes
  rw [← Int.natCast_mul, u32_of_lt rfl (by omega)]
  exact (i32_natCast_iff (by omega)).2 h

omit hc in
/-- The record of a sector ends inside the buffer. -/
theorem record_le (hp : p < c.totalSecs) :
    p * c.metaLen + c.metaLen ≤ c.metaLen * c.totalSecs := by
  calc p * c.metaLen + c.metaLen = (p + 1) * c.metaLen :=
        (Nat.succ_mul _ _).symm
    _ ≤ c.totalSecs * c.metaLen := Nat.mul_le_mul_right _ hp
    _ = c.metaLen * c.totalSecs := Nat.mul_comm _ _

/-- The offset of a record, without the wrap. -/
theorem Plain.recordOft_eq (hp : p < c.totalSecs) :
    recordOft c p = p * c.metaLen := by
  have h := hc.fits
  have hr := record_le hp
  exact u32_of_lt (by push_cast; rfl) (by omega)

omit hc in
/-- A record has room for its state, -/
theorem four_le : intMetaSize ≤ c.metaLen := Nat.le_add_right _ _

omit hc in
/-- and for the host's entry. -/
theorem sos_le : c.sos ≤ c.metaLen := Nat.le_add_left _ _

/-- A copy within the metadata succeeds. -/
theorem Plain.copyTo_run {o : Nat} {bs : List UInt8}
    (h : o + bs.length ≤ c.metaLen * c.totalSecs) :
    copyTo c o bs m = ⟨.ok (), store m o bs, []⟩ := by
  unfold copyTo
  rw [if_pos (by rw [hc.tbytes]; omega)]
  rfl

theorem Plain.copyFrom_run {o n : Nat}
    (h : o + n ≤ c.metaLen * c.totalSecs) :
    copyFrom c o n m = ⟨.ok (load m o n), m, []⟩ := by
  unfold copyFrom
  rw [Prog.run_get_bind, if_pos (by rw [hc.tbytes]; omega)]
  rfl

/-- Marking a sector stores the mark at its record. -/
theorem Plain.metaStateSetWritten_run (hp : p < c.totalSecs) :
    metaStateSetWritten c p m
      = ⟨.ok (), store m (p * c.metaLen) mark, []⟩ := by
  have hr := record_le hp
  have h4 := four_le (c := c)
  unfold metaStateSetWritten
  rw [hc.recordOft_eq hp]
  refine hc.copyTo_run ?_
  rw [length_leBytes]
  omega

theorem Plain.metaStateGet_run (hp : p < c.totalSecs) :
    metaStateGet c p m
      = ⟨.ok (leWord (load m (p * c.metaLen) intMetaSize)), m, []⟩ := by
  have hr := record_le hp
  have h4 := four_le (c := c)
  have hfit := hc.fits
  unfold metaStateGet
  simp only [hc.recordOft_eq hp]
  rw [hc.tbytes, ← Int.natCast_add, u32_of_lt rfl (by omega),
    u32_of_lt rfl (by omega), if_pos hr, Prog.run_bind,
    hc.copyFrom_run (by omega), Prog.andThen_ok]
  rfl

/-- The entry goes to the first record, whichever sector is meant. -/
theorem Plain.metaWrite_run {bs : List UInt8} (hb : bs.length = c.sos)
    (h0 : 0 < c.totalSecs) :
    metaWrite c bs m = ⟨.ok (), store m 0 bs, []⟩ := by
  have hr := record_le h0
  have hs := sos_le (c := c)
  exact hc.copyTo_run (by omega)

/-- And is read from the first record. -/
theorem Plain.metaRead_run (h0 : 0 < c.totalSecs) :
    metaRead c m = ⟨.ok (load m 0 c.sos), m, []⟩ := by
  have hr := record_le h0
  have hs := sos_le (c := c)
  exact hc.copyFrom_run (by omega)

end Functions

-- ========================================================== histories

/-- A sector written, with the metadata given for it. -/
structure Op where
  sector : Nat
  entry : Option (List UInt8)

/-- The sectors written, oldest first. -/
def sectors (hist : List Op) : List Nat := hist.map Op.sector

/-- The metadata last written for sector `p`. -/
def lastEntry (p : Nat) (hist : List Op) : Option (List UInt8) :=
  hist.foldl (fun e op => if op.sector = p then op.entry.or e else e) none

/-- The metadata last written for any sector, and whether sector 0 was
written since. -/
def latest (hist : List Op) : Option (List UInt8 × Bool) :=
  hist.foldl (fun e op =>
    match op.entry with
    | some bs => some (bs, false)
    | none => e.map fun x => (x.1, x.2 || op.sector == 0)) none

/-- The history fits the device. -/
structure Sectored (c : Params) (hist : List Op) : Prop where
  sector : ∀ op ∈ hist, op.sector < c.totalSecs
  entry : ∀ op ∈ hist, ∀ bs, op.entry = some bs → bs.length = c.sos

section Histories

variable {c : Params} {hist : List Op} {op : Op} {p : Nat}

/-- The sectors of a history, -/
theorem sectors_snoc :
    sectors (hist ++ [op]) = sectors hist ++ [op.sector] := by
  simp [sectors]

theorem mem_sectors_snoc :
    p ∈ sectors (hist ++ [op]) ↔ p ∈ sectors hist ∨ p = op.sector := by
  simp [sectors_snoc]

/-- the latest entry, -/
theorem latest_snoc : latest (hist ++ [op])
    = match op.entry with
      | some bs => some (bs, false)
      | none => (latest hist).map fun x => (x.1, x.2 || op.sector == 0) := by
  unfold latest
  rw [List.foldl_append]
  rfl

/-- and the latest of one sector, by one operation more. -/
theorem lastEntry_snoc : lastEntry p (hist ++ [op])
    = if op.sector = p then op.entry.or (lastEntry p hist)
      else lastEntry p hist := by
  unfold lastEntry
  rw [List.foldl_append]
  rfl

/-- Sector 0 was written since only if it was written. -/
theorem zero_of_latest {bs : List UInt8}
    (h : latest hist = some (bs, true)) : 0 ∈ sectors hist := by
  induction hist using List.reverseRecOn with
  | nil => cases h
  | append_singleton hist op ih =>
      rw [latest_snoc] at h
      rw [mem_sectors_snoc]
      split at h
      · simp at h
      · obtain ⟨⟨bs', b⟩, hl, he⟩ := Option.map_eq_some_iff.1 h
        simp only [Prod.mk.injEq, Bool.or_eq_true, beq_iff_eq] at he
        obtain ⟨rfl, hb | h0⟩ := he
        · exact .inl (ih (hb ▸ hl))
        · exact .inr h0.symm

/-- The latest metadata was written with some sector. -/
theorem mem_of_latest {bs : List UInt8} {b : Bool}
    (h : latest hist = some (bs, b)) : ∃ op ∈ hist, op.entry = some bs := by
  induction hist using List.reverseRecOn generalizing b with
  | nil => cases h
  | append_singleton hist op ih =>
      rw [latest_snoc] at h
      split at h
      · next bs' he =>
          simp only [Option.some.injEq, Prod.mk.injEq] at h
          exact ⟨op, by simp, he.trans (congrArg some h.1)⟩
      · obtain ⟨⟨bs', b'⟩, hl, he⟩ := Option.map_eq_some_iff.1 h
        simp only [Prod.mk.injEq] at he
        obtain ⟨op', hop, he'⟩ := ih (he.1 ▸ hl)
        exact ⟨op', List.mem_append_left _ hop, he'⟩

/-- A sector with metadata was written, and there is a latest one. -/
theorem of_lastEntry {bs : List UInt8} (h : lastEntry p hist = some bs) :
    p ∈ sectors hist ∧ latest hist ≠ none := by
  induction hist using List.reverseRecOn with
  | nil => cases h
  | append_singleton hist op ih =>
      rw [lastEntry_snoc] at h
      rw [mem_sectors_snoc, latest_snoc]
      cases he : op.entry with
      | some bs' =>
          refine ⟨?_, by simp⟩
          by_cases hp : op.sector = p
          · exact .inr hp.symm
          · rw [if_neg hp] at h
            exact .inl (ih h).1
      | none =>
          rw [he] at h
          have hl : lastEntry p hist = some bs := by
            split at h <;> simpa using h
          exact ⟨.inl (ih hl).1, by simpa using (ih hl).2⟩

end Histories

-- ========================================================== the image

/-- Byte `j` of the record of sector 0, counted among its first `sos`. -/
def shown (hist : List Op) (j : Nat) : UInt8 :=
  match latest hist with
  | none => if 0 ∈ sectors hist then (mark[j]?).getD 0 else 0
  | some (bs, false) => (bs[j]?).getD 0
  | some (bs, true) => (mark[j]?).getD ((bs[j]?).getD 0)

/-- What the buffer holds after a history. -/
structure Image (c : Params) (hist : List Op) (m : Bytes) : Prop where
  words : ∀ p, 0 < p → p < c.totalSecs →
    load m (p * c.metaLen) intMetaSize
      = if p ∈ sectors hist then mark else leBytes intMetaSize 0
  front : ∀ j, j < c.sos → m j = shown hist j
  rest : ∀ j, c.sos ≤ j → j < intMetaSize →
    m j = if 0 ∈ sectors hist then (mark[j]?).getD 0 else 0

section Images

variable {c : Params} {hist : List Op} {m : Bytes} {p : Nat}

/-- Before the first write the metadata is blank. -/
theorem image_init : Image c [] initMeta where
  words := fun _ _ _ => rfl
  front := fun _ _ => rfl
  rest := fun _ _ _ => rfl

theorem length_mark : mark.length = intMetaSize := length_leBytes _ _

/-- Records of different sectors are apart. -/
theorem records_apart {q : Nat} (h : p ≠ q) :
    p * c.metaLen + c.metaLen ≤ q * c.metaLen
      ∨ q * c.metaLen + c.metaLen ≤ p * c.metaLen := by
  rcases Nat.lt_or_gt_of_ne h with hlt | hgt
  · left
    calc p * c.metaLen + c.metaLen = (p + 1) * c.metaLen :=
          (Nat.succ_mul _ _).symm
      _ ≤ q * c.metaLen := Nat.mul_le_mul_right _ hlt
  · right
    calc q * c.metaLen + c.metaLen = (q + 1) * c.metaLen :=
          (Nat.succ_mul _ _).symm
      _ ≤ p * c.metaLen := Nat.mul_le_mul_right _ hgt

/-- `femu_oc_meta_state_set_written` of sector 0. -/
theorem Image.mark_zero (h : Image c hist m) :
    Image c (hist ++ [⟨0, none⟩]) (store m (0 * c.metaLen) mark) := by
  have h4 := four_le (c := c)
  have hlen := length_mark
  rw [Nat.zero_mul]
  refine ⟨fun q hq hq' => ?_, fun j hj => ?_, fun j hj hj' => ?_⟩
  · have hle : c.metaLen ≤ q * c.metaLen := Nat.le_mul_of_pos_left _ hq
    rw [load_store_out (.inr (by omega)), h.words q hq hq']
    simp only [mem_sectors_snoc, Nat.ne_of_gt hq, or_false]
  · unfold shown
    rw [latest_snoc]
    have hz : 0 ∈ sectors (hist ++ [⟨0, none⟩]) :=
      mem_sectors_snoc.2 (.inr rfl)
    have hst : store m 0 mark j = (mark[j]?).getD (shown hist j) := by
      rw [← h.front j hj]
      rfl
    rw [hst, if_pos hz]
    unfold shown
    rcases Nat.lt_or_ge j intMetaSize with hlt | hge
    · rw [List.getElem?_eq_getElem (by omega)]
      cases latest hist <;> simp
    · rw [List.getElem?_eq_none (by omega)]
      rcases latest hist with _ | ⟨bs, _ | _⟩ <;> simp
  · have hz : 0 ∈ sectors (hist ++ [⟨0, none⟩]) :=
      mem_sectors_snoc.2 (.inr rfl)
    rw [if_pos hz]
    show (mark[j - 0]?).getD (m j) = _
    rw [Nat.sub_zero, List.getElem?_eq_getElem (by omega)]
    rfl

/-- `femu_oc_meta_state_set_written` of another sector. -/
theorem Image.mark_pos (h : Image c hist m) (h0 : 0 < p) :
    Image c (hist ++ [⟨p, none⟩]) (store m (p * c.metaLen) mark) := by
  have h4 := four_le (c := c)
  have hs := sos_le (c := c)
  have hlen := length_mark
  have hle : c.metaLen ≤ p * c.metaLen := Nat.le_mul_of_pos_left _ h0
  have hz : 0 ∈ sectors (hist ++ [⟨p, none⟩]) ↔ 0 ∈ sectors hist := by
    simp only [mem_sectors_snoc, Nat.ne_of_lt h0, or_false]
  refine ⟨fun q hq hq' => ?_, fun j hj => ?_, fun j hj hj' => ?_⟩
  · by_cases hpq : q = p
    · subst hpq
      rw [if_pos (mem_sectors_snoc.2 (.inr rfl)), ← hlen]
      exact load_store_self
    · have happ := records_apart (c := c) hpq
      rw [load_store_out (by omega), h.words q hq hq']
      simp only [mem_sectors_snoc, hpq, or_false]
  · rw [store_out (.inl (by omega)), h.front j hj]
    unfold shown
    rw [latest_snoc]
    have hbeq : (p == 0) = false := by simpa using Nat.ne_of_gt h0
    rcases latest hist with _ | ⟨bs, _ | _⟩ <;> simp [hz, hbeq]
  · rw [store_out (.inl (by omega)), h.rest j hj hj']
    simp only [hz]

/-- `femu_oc_meta_write`. -/
theorem Image.entry {bs : List UInt8}
    (h : Image c (hist ++ [⟨p, none⟩]) m) (hb : bs.length = c.sos) :
    Image c (hist ++ [⟨p, some bs⟩]) (store m 0 bs) := by
  have hs := sos_le (c := c)
  have hsec : sectors (hist ++ [⟨p, some bs⟩])
      = sectors (hist ++ [⟨p, none⟩]) := by
    rw [sectors_snoc, sectors_snoc]
  refine ⟨fun q hq hq' => ?_, fun j hj => ?_, fun j hj hj' => ?_⟩
  · have hle : c.metaLen ≤ q * c.metaLen := Nat.le_mul_of_pos_left _ hq
    rw [load_store_out (.inr (by omega)), h.words q hq hq', hsec]
  · unfold shown
    rw [latest_snoc]
    show store m 0 bs j = (bs[j]?).getD 0
    have hj' : j < bs.length := by omega
    have hin := store_in (m := m) (o := 0) hj'
    rw [Nat.zero_add] at hin
    rw [hin, List.getElem?_eq_getElem hj', Option.getD_some]
  · rw [store_out (.inr (by omega)), h.rest j hj hj', hsec]

end Images

-- =========================================================== commands

/-- A command that `femu_oc_rw` accepts, with sectors of the device: it
comes to the loop. -/
structure Accepted (c : Params) (r : RwCmd) : Prop where
  sized : c.secSize ≠ 0
  memory : c.sos * c.maxSecPerRq ≠ 0
  some : 0 < nPages c r
  few : nPages c r ≤ c.maxSecPerRq
  enough : r.isWrite → c.dom = 0 → c.secPerPl ≤ nPages c r
  mapped : r.spba ≠ pbaUnmapped
  check : ∀ sppa ∈ (psl c r).head?, ∀ eppa ∈ (psl c r).getLast?,
    checkSectors c r sppa eppa = .success
  layout : r.isWrite = false → (secsLayout c (psl c r)).length ≤ 64
  timed : Timed c r
  inRange : ∀ p ∈ psl c r, p < c.totalSecs

/-- The writes of the sectors from the `i`-th on. -/
def opsFrom (c : Params) (r : RwCmd) : List Nat → Nat → List Op
  | [], _ => []
  | p :: ps, i =>
      ⟨p, r.metadata.map fun host => load host (i * c.sos) c.sos⟩
        :: opsFrom c r ps (i + 1)

/-- What a command writes. -/
def ops (c : Params) (r : RwCmd) : List Op :=
  if r.isWrite then opsFrom c r (psl c r) 0 else []

section Commands

variable {c : Params} (hc : Plain c) {r : RwCmd} {m : Bytes}

/-- The source lists one sector a page. -/
theorem length_psl : (psl c r).length = nPages c r := by
  simp [psl]

include hc

/-- Past the checks there is the loop. -/
theorem Plain.femuOcRw_eq (ha : Accepted c r) :
    femuOcRw c r = rwLoop c r (psl c r) 0 (msl c r) := by
  have hlen := length_psl (c := c) (r := r)
  have hpos := ha.some
  have hfit := hc.fits
  have hnot : ∀ p ∈ psl c r, p ≠ pbaUnmapped := by
    intro p hp
    have hlt := ha.inRange p hp
    have hr := record_le (c := c) hlt
    have h4 := four_le (c := c)
    have hle : p ≤ p * c.metaLen :=
      Nat.le_mul_of_pos_right _ (by unfold intMetaSize at h4; omega)
    unfold pbaUnmapped
    omega
  have hne : psl c r ≠ [] := fun h => by
    rw [h] at hlen
    simp only [List.length_nil] at hlen
    omega
  have hhead := List.head?_eq_some_head hne
  have hlast := List.getLast?_eq_some_getLast hne
  have hemu : emulate c r = pure () := by
    unfold emulate
    rw [if_neg, if_pos ha.timed]
    rintro ⟨hr, hlong⟩
    exact absurd (ha.layout (Bool.eq_false_iff.2 hr)) (Nat.not_le.2 hlong)
  unfold femuOcRw
  rw [if_neg ha.sized, if_neg ha.memory,
    if_neg (Nat.not_lt.2 ha.few),
    if_neg (fun h => by have := ha.enough h.1 h.2.1; omega),
    if_neg ha.mapped, hhead, hlast]
  simp only
  rw [if_neg (fun h => h.elim (hnot _ (List.head_mem hne))
      (hnot _ (List.getLast_mem hne))),
    if_neg (not_not_intro (ha.check _ hhead _ hlast)), hemu]
  rfl

theorem Plain.hybridDev : c.hybridDev = false := by
  simp [Params.hybridDev, hc.dom]

theorem Plain.stateToRead_run {p : Nat} (hp : p < c.totalSecs) :
    stateToRead c p m
      = ⟨.ok (leWord (load m (p * c.metaLen) intMetaSize)), m, []⟩ := by
  unfold stateToRead
  rw [hc.hybridDev, if_neg Bool.false_ne_true]
  exact hc.metaStateGet_run hp

/-- The buffer after one sector of a write. -/
theorem Plain.writeSector_run {p : Nat} (hp : p < c.totalSecs)
    {bs : List UInt8} (hb : bs.length = c.sos) :
    writeSector c r p bs m = ⟨.ok (),
      if r.metadata.isSome then store (store m (p * c.metaLen) mark) 0 bs
      else store m (p * c.metaLen) mark, []⟩ := by
  have hset := hc.metaStateSetWritten_run (m := m) hp
  have hwr := hc.metaWrite_run (m := store m (p * c.metaLen) mark) hb
    (Nat.zero_lt_of_lt hp)
  unfold writeSector
  rw [hc.hybridDev]
  simp only [Bool.false_eq_true, if_false]
  rw [Prog.run_bind, hset, Prog.andThen_ok]
  by_cases hm : r.metadata.isSome
  · rw [if_pos hm, if_pos hm, hwr]
    simp only [List.append_nil]
  · rw [if_neg hm, if_neg hm, Prog.run_pure]
    simp only [List.append_nil]

omit hc in
/-- One sector of a write. -/
theorem Image.writeSector {hist : List Op} (h : Image c hist m)
    {p : Nat} {bs : List UInt8} (hb : bs.length = c.sos) :
    Image c (hist ++ [⟨p, r.metadata.map fun _ => bs⟩])
      (if r.metadata.isSome then store (store m (p * c.metaLen) mark) 0 bs
      else store m (p * c.metaLen) mark) := by
  have hmark : Image c (hist ++ [⟨p, none⟩])
      (store m (p * c.metaLen) mark) := by
    rcases Nat.eq_zero_or_pos p with rfl | h0
    · exact h.mark_zero
    · exact h.mark_pos h0
  cases r.metadata with
  | none => exact hmark
  | some host => exact hmark.entry hb

/-- The loop of a write. -/
theorem Plain.writeLoop_run (hw : r.isWrite = true) {buf : Bytes}
    {ps : List Nat} {i : Nat} {hist : List Op} (h : Image c hist m)
    (hp : ∀ p ∈ ps, p < c.totalSecs)
    (hbuf : ∀ host, r.metadata = Option.some host → ∀ k, i ≤ k →
      k < i + ps.length →
      metaIndex c buf k = load host (k * c.sos) c.sos) :
    ∃ m', rwLoop c r ps i buf m
        = ⟨.ok ⟨.success, none, buf, none⟩, m', []⟩
      ∧ Image c (hist ++ opsFrom c r ps i) m' := by
  induction ps generalizing i m hist with
  | nil =>
      refine ⟨m, rfl, ?_⟩
      rwa [opsFrom, List.append_nil]
  | cons p ps ih =>
      have hlen : (metaIndex c buf i).length = c.sos := length_load
      have hrun := hc.writeSector_run (r := r) (m := m)
        (hp p List.mem_cons_self) hlen
      have himg := h.writeSector (r := r) (p := p) hlen
      -- the entry of the first sector is the host's, at its place in the
      -- buffer
      have hentry : (r.metadata.map fun _ => metaIndex c buf i)
          = r.metadata.map fun host => load host (i * c.sos) c.sos := by
        cases hm : r.metadata with
        | none => rfl
        | some host =>
            exact congrArg Option.some (hbuf host hm i (Nat.le_refl i)
              (by rw [List.length_cons]; omega))
      rw [hentry] at himg
      obtain ⟨m₂, hloop, himg'⟩ := ih (i := i + 1) himg
        (fun q hq => hp q (List.mem_cons_of_mem _ hq))
        (fun host hh k hk hk' => hbuf host hh k (by omega)
          (by rw [List.length_cons]; omega))
      refine ⟨m₂, ?_, ?_⟩
      · unfold rwLoop
        rw [if_pos hw, Prog.run_bind, hrun, Prog.andThen_ok, hloop]
        rfl
      · rw [List.append_assoc] at himg'
        exact himg'

/-- What a read from sector `i` on finds: the reply says which sectors
it got to, and the metadata of these is that of the buffer's front. -/
structure ReadReply (c : Params) (r : RwCmd) (m : Bytes) (ps : List Nat)
    (i : Nat) (buf : Bytes) (y : Reply) : Prop where
  unread : y.status ≠ .notWritten → y.unread = none
  failed : y.status = .notWritten ↔ ∃ p ∈ ps,
    leWord (load m (p * c.metaLen) intMetaSize) ≠ MetaState.written.code
  earlier : ∀ k, k < i → metaIndex c y.msl k = metaIndex c buf k
  got : r.metadata ≠ none → ∀ k, i ≤ k →
    k < (y.unread.elim (i + ps.length) Prod.fst) →
    metaIndex c y.msl k = load m 0 c.sos

/-- The loop of a read. -/
theorem Plain.readLoop_run (hr : r.isWrite = false) {buf : Bytes}
    {ps : List Nat} {i : Nat} (hp : ∀ p ∈ ps, p < c.totalSecs) :
    ∃ y, rwLoop c r ps i buf m = ⟨.ok y, m, []⟩
      ∧ ReadReply c r m ps i buf y := by
  induction ps generalizing i buf with
  | nil =>
      refine ⟨_, rfl, fun _ => rfl, ?_, fun _ _ => rfl, ?_⟩
      · simp
      · intro _ k hk hk'
        simp only [Option.elim_none, List.length_nil] at hk'
        omega
  | cons p ps ih =>
      have hlt := hp p List.mem_cons_self
      have hps := fun q hq => hp q (List.mem_cons_of_mem p hq)
      have hrun := hc.stateToRead_run (m := m) hlt
      by_cases hst : leWord (load m (p * c.metaLen) intMetaSize)
          ≠ MetaState.written.code
      · -- the first sector that was not written ends the loop
        refine ⟨⟨.notWritten, Option.some (i, nPages c r - i), buf,
          if r.metadata.isSome then
            Option.some (load buf 0 (nPages c r * c.sos))
          else none⟩, ?_, ?_⟩
        · unfold rwLoop
          rw [if_neg (by rw [hr]; exact Bool.false_ne_true), Prog.run_bind,
            hrun, Prog.andThen_ok, if_pos hst]
          rfl
        · refine ⟨fun h => absurd rfl h, ?_, fun _ _ => rfl, ?_⟩
          · exact iff_of_true rfl ⟨p, List.mem_cons_self, hst⟩
          · intro _ k hk hk'
            simp only [Option.elim_some] at hk'
            omega
      have hfailed : (∃ q ∈ p :: ps,
          leWord (load m (q * c.metaLen) intMetaSize)
            ≠ MetaState.written.code)
          ↔ ∃ q ∈ ps, leWord (load m (q * c.metaLen) intMetaSize)
            ≠ MetaState.written.code := by
        simp only [List.mem_cons, exists_eq_or_imp, hst, false_or]
      cases hm : r.metadata with
      | none =>
          obtain ⟨y, hloop, hy⟩ : ∃ y, rwLoop c r ps (i + 1) buf m
              = ⟨.ok y, m, []⟩ ∧ ReadReply c r m ps (i + 1) buf y := ih hps
          refine ⟨y, ?_, hy.unread, hy.failed.trans hfailed.symm,
            fun k hk => hy.earlier k (by omega),
            fun hne => absurd hm hne⟩
          unfold rwLoop
          rw [if_neg (by rw [hr]; exact Bool.false_ne_true), Prog.run_bind,
            hrun, Prog.andThen_ok, if_neg hst, hm, Option.isSome_none,
            if_neg Bool.false_ne_true, hloop]
          rfl
      | some host =>
          have hread := hc.metaRead_run (m := m) (by omega)
          -- what was read goes to the sector's place in the buffer
          generalize hnext : store buf (i * c.sos) (load m 0 c.sos) = buf'
          obtain ⟨y, hloop, hy⟩ : ∃ y, rwLoop c r ps (i + 1) buf' m
              = ⟨.ok y, m, []⟩ ∧ ReadReply c r m ps (i + 1) buf' y := ih hps
          refine ⟨y, ?_, hy.unread, hy.failed.trans hfailed.symm, ?_, ?_⟩
          · unfold rwLoop
            rw [if_neg (by rw [hr]; exact Bool.false_ne_true),
              Prog.run_bind, hrun, Prog.andThen_ok, if_neg hst, hm,
              Option.isSome_some, if_pos rfl, Prog.run_bind, hread,
              Prog.andThen_ok, hnext, hloop]
            rfl
          · intro k hk
            rw [hy.earlier k (by omega), ← hnext]
            refine load_store_out (.inl ?_)
            calc k * c.sos + c.sos = (k + 1) * c.sos :=
                  (Nat.succ_mul _ _).symm
              _ ≤ i * c.sos := Nat.mul_le_mul_right _ hk
          · intro hne k hk hk'
            rcases Nat.eq_or_lt_of_le hk with rfl | hlt'
            · rw [hy.earlier i (by omega), ← hnext]
              have hself : load (store buf (i * c.sos) (load m 0 c.sos))
                  (i * c.sos) (load m 0 c.sos).length = _ := load_store_self
              rwa [length_load] at hself
            · refine hy.got hne k hlt' ?_
              rw [List.length_cons] at hk'
              rwa [Nat.add_right_comm, Nat.add_assoc]

end Commands

-- =============================================================== runs

/-- The buffer after accepted commands with the history `hist`. -/
inductive Ran (c : Params) : List Op → Bytes → Prop
  | start : Ran c [] initMeta
  | rw {hist : List Op} {m : Bytes} {r : RwCmd} :
      Ran c hist m → Accepted c r →
      Ran c (hist ++ ops c r) (femuOcRw c r m).st

section Runs

variable {c : Params} (hc : Plain c) {r : RwCmd} {m : Bytes}
  {hist : List Op}

/-- The host's metadata is in `msl` when a write starts. -/
theorem metaIndex_msl (hw : r.isWrite = true) {host : Bytes}
    (hm : r.metadata = some host) {k : Nat} (hk : k < nPages c r) :
    metaIndex c (msl c r) k = load host (k * c.sos) c.sos := by
  refine load_congr fun i hi => ?_
  have hlt : k * c.sos + i < nPages c r * c.sos := by
    calc k * c.sos + i < k * c.sos + c.sos := by omega
      _ = (k + 1) * c.sos := (Nat.succ_mul _ _).symm
      _ ≤ nPages c r * c.sos := Nat.mul_le_mul_right _ hk
  unfold msl
  rw [hm]
  exact if_pos ⟨hw, hlt⟩

/-- The operations of a request are on its sectors. -/
theorem sectored_opsFrom {ps : List Nat} {i : Nat}
    (h : ∀ p ∈ ps, p < c.totalSecs) : Sectored c (opsFrom c r ps i) := by
  induction ps generalizing i with
  | nil => exact ⟨nofun, nofun⟩
  | cons p ps ih =>
      obtain ⟨h₁, h₂⟩ := ih (i := i + 1)
        fun q hq => h q (List.mem_cons_of_mem _ hq)
      constructor
      · intro op hop
        rcases List.mem_cons.1 hop with rfl | hop
        · exact h p List.mem_cons_self
        · exact h₁ op hop
      · intro op hop bs hbs
        rcases List.mem_cons.1 hop with rfl | hop
        · obtain ⟨host, -, rfl⟩ := Option.map_eq_some_iff.1 hbs
          exact length_load
        · exact h₂ op hop bs hbs

theorem Ran.sectored (h : Ran c hist m) : Sectored c hist := by
  induction h with
  | start => exact ⟨nofun, nofun⟩
  | @rw hist m r _ ha ih =>
      have hops : Sectored c (ops c r) := by
        unfold ops
        split
        · exact sectored_opsFrom ha.inRange
        · exact ⟨nofun, nofun⟩
      refine ⟨fun op hop => ?_, fun op hop => ?_⟩
      · exact (List.mem_append.1 hop).elim (ih.sector op) (hops.sector op)
      · exact (List.mem_append.1 hop).elim (ih.entry op) (hops.entry op)

include hc

/-- A read finds what the buffer holds and leaves it alone. -/
theorem Plain.read_run (ha : Accepted c r) (hr : r.isWrite = false) :
    ∃ y, femuOcRw c r m = ⟨.ok y, m, []⟩
      ∧ ReadReply c r m (psl c r) 0 (msl c r) y := by
  rw [hc.femuOcRw_eq ha]
  exact hc.readLoop_run hr ha.inRange

/-- Every run ends in the image of its history. -/
theorem Ran.image (h : Ran c hist m) : Image c hist m := by
  induction h with
  | start => exact image_init
  | @rw hist m r _ ha ih =>
      unfold ops
      cases hw : r.isWrite with
      | true =>
          have hbuf : ∀ host, r.metadata = Option.some host → ∀ k, 0 ≤ k →
              k < 0 + (psl c r).length →
              metaIndex c (msl c r) k = load host (k * c.sos) c.sos := by
            intro host hm k _ hk
            rw [Nat.zero_add, length_psl] at hk
            exact metaIndex_msl hw hm hk
          obtain ⟨m', hrun, himg⟩ := hc.writeLoop_run hw ih ha.inRange hbuf
          rw [hc.femuOcRw_eq ha, hrun, if_pos rfl]
          exact himg
      | false =>
          obtain ⟨y, hrun, -⟩ := hc.read_run (m := m) ha hw
          rw [hrun, if_neg Bool.false_ne_true, List.append_nil]
          exact ih

end Runs

end FemuRemap.OpenChannel
