/-
When the sector states and the metadata of OpenChannel mode are right.

`Tracked` is the contract: states, failed reads and metadata as the
history has them.

# The formats of the device

Every format has `ms = PI_BYTES_NVME`, so `femu_oc_rw` asks
`nvme_rw_check_req` for `nlb * ms` bytes of metadata, and that refuses
any. No command comes to the loop (`not_accepted`), the buffer stays as
`femu_oc_init_meta` left it, and the contract holds of what the host can
submit (`sector_metadata_exact`).

# A format without metadata

With `ms = 0` commands would pass. Then the contract holds exactly when
the history is `Undisturbed` (`tracked_iff`): all metadata goes through
the record of sector 0, so its bytes must not contradict the state of
sector 0, and every sector that has metadata must have the same.
-/
import FemuRemap.Proofs.OpenChannel

namespace FemuRemap.OpenChannel

open Lib

-- ====================================================== the condition

/-- Metadata whose first bytes the state word replaced. -/
def stamped (bs : List UInt8) : List UInt8 :=
  bs.mapIdx fun j b => (mark[j]?).getD b

/-- The metadata of sectors does not disturb what is kept of others:
the metadata last written to any sector shows `FEMU_OC_SEC_WRITTEN` in
its first bytes just when sector 0 has been written, or sector 0 was
written after it; and it is what was last written for every sector that
has metadata, up to the word written for sector 0 since. -/
structure Undisturbed (c : Params) (hist : List Op) : Prop where
  word : ∀ bs, latest hist = some (bs, false) → 0 < c.sos →
    (bs.take intMetaSize = mark.take c.sos ↔ 0 ∈ sectors hist)
  entries : ∀ bs b p bs', latest hist = some (bs, b) →
    lastEntry p hist = some bs' → bs' = if b then stamped bs else bs

-- ========================================================== the front

section Front

variable {c : Params} {m : Bytes} {hist : List Op}

/-- A byte of `FEMU_OC_SEC_WRITTEN`. -/
def markByte (j : Nat) : UInt8 := (mark[j]?).getD 0

theorem markByte_pos {j : Nat} (h : 0 < j) : markByte j = 0 := by
  rcases Nat.lt_or_ge j intMetaSize with hlt | hge
  · obtain rfl | rfl | rfl : j = 1 ∨ j = 2 ∨ j = 3 := by
      unfold intMetaSize at hlt
      omega
    all_goals rfl
  · unfold markByte
    rw [List.getElem?_eq_none (by rw [length_mark]; exact hge)]
    rfl

theorem word_written_iff : leWord (load m 0 intMetaSize)
      = MetaState.written.code
    ↔ ∀ j, j < intMetaSize → m j = markByte j := by
  have hcode : leWord mark = MetaState.written.code := by decide
  have hload : load m 0 intMetaSize = mark
      ↔ ∀ j, j < intMetaSize → m j = markByte j := by
    rw [load_eq_iff]
    constructor
    · rintro ⟨-, h⟩ j hj
      have := h j (by rw [length_mark]; exact hj)
      rw [Nat.zero_add] at this
      rw [this, markByte, List.getElem?_eq_getElem, Option.getD_some]
    · intro h
      refine ⟨length_mark, fun j hj => ?_⟩
      rw [Nat.zero_add, h j (by rw [← length_mark]; exact hj), markByte,
        List.getElem?_eq_getElem hj, Option.getD_some]
  rw [← hload, ← hcode]
  exact ⟨leWord_inj (by rw [length_load, length_mark]), congrArg leWord⟩

theorem take_mark_iff {bs : List UInt8} (hb : bs.length = c.sos) :
    bs.take intMetaSize = mark.take c.sos
      ↔ ∀ j, j < intMetaSize → j < c.sos → (bs[j]?).getD 0 = markByte j := by
  have hlen := length_mark
  constructor
  · intro h j hj hj'
    have hget := congrArg (fun l => l[j]?) h
    simp only [List.getElem?_take, hj, hj', if_true] at hget
    rw [hget]
    rfl
  · intro h
    refine List.ext_getElem (by simp; omega) fun j h₁ h₂ => ?_
    rw [List.length_take] at h₁ h₂
    have hj := h j (by omega) (by omega)
    unfold markByte at hj
    rw [List.getElem?_eq_getElem (by omega),
      List.getElem?_eq_getElem (by omega)] at hj
    simpa using hj

/-- The state word of sector 0 is exact just when the metadata last
written allows it. -/
theorem Image.word_iff (h : Image c hist m) (hs : Sectored c hist) :
    ((leWord (load m 0 intMetaSize) = MetaState.written.code)
        ↔ 0 ∈ sectors hist)
      ↔ ∀ bs, latest hist = some (bs, false) → 0 < c.sos →
        (bs.take intMetaSize = mark.take c.sos ↔ 0 ∈ sectors hist) := by
  rw [word_written_iff]
  -- the bytes that no metadata reaches follow the states
  have hrest : ∀ j, c.sos ≤ j → j < intMetaSize →
      m j = if 0 ∈ sectors hist then markByte j else 0 := h.rest
  have hplain : (∀ j, j < intMetaSize →
      m j = if 0 ∈ sectors hist then markByte j else 0) →
      ((∀ j, j < intMetaSize → m j = markByte j) ↔ 0 ∈ sectors hist) := by
    intro hall
    constructor
    · intro hm
      by_contra hno
      have h0 := hall 0 (by decide)
      rw [hm 0 (by decide), if_neg hno] at h0
      exact absurd h0 (by decide)
    · intro hz j hj
      rw [hall j hj, if_pos hz]
  have hfront := h.front
  unfold shown at hfront
  rcases hl : latest hist with _ | ⟨bs, _ | _⟩
  · rw [hl] at hfront
    refine iff_of_true (hplain fun j hj => ?_) nofun
    rcases Nat.lt_or_ge j c.sos with hlt | hge
    · exact hfront j hlt
    · exact hrest j hge hj
  · rw [hl] at hfront
    obtain ⟨op, hop, he⟩ := mem_of_latest hl
    have hb := hs.entry op hop bs he
    have hone : (∀ bs', some (bs, false) = some (bs', false) → 0 < c.sos →
        (bs'.take intMetaSize = mark.take c.sos ↔ 0 ∈ sectors hist))
        ↔ (0 < c.sos →
          (bs.take intMetaSize = mark.take c.sos ↔ 0 ∈ sectors hist)) := by
      constructor
      · exact fun h' => h' bs rfl
      · rintro h' _ ⟨⟩
        exact h'
    rw [hone]
    rcases Nat.eq_zero_or_pos c.sos with h0 | hpos
    · refine iff_of_true (hplain fun j hj => hrest j (by omega) hj) ?_
      intro hpos
      omega
    · rw [take_mark_iff hb]
      have hbytes : (∀ j, j < intMetaSize → m j = markByte j)
          ↔ ∀ j, j < intMetaSize → j < c.sos →
            (bs[j]?).getD 0 = markByte j := by
        constructor
        · intro hm j hj hj'
          rw [← hm j hj]
          exact (hfront j hj').symm
        · intro hm j hj
          rcases Nat.lt_or_ge j c.sos with hlt | hge
          · rw [← hm j hj hlt]
            exact hfront j hlt
          · rw [hrest j hge hj, markByte_pos (by omega), ite_self]
      rw [hbytes]
      exact ⟨fun h' _ => h', fun h' => h' hpos⟩
  · rw [hl] at hfront
    have hz := zero_of_latest hl
    refine iff_of_true (iff_of_true (fun j hj => ?_) hz) nofun
    rcases Nat.lt_or_ge j c.sos with hlt | hge
    · have hj' : j < mark.length := by rw [length_mark]; exact hj
      rw [hfront j hlt, markByte, List.getElem?_eq_getElem hj']
      rfl
    · rw [hrest j hge hj, if_pos hz]

/-- The metadata that every read finds. -/
theorem Image.front_load (h : Image c hist m) (hs : Sectored c hist)
    {bs : List UInt8} {b : Bool} (hl : latest hist = some (bs, b)) :
    load m 0 c.sos = if b then stamped bs else bs := by
  obtain ⟨op, hop, he⟩ := mem_of_latest hl
  have hb := hs.entry op hop bs he
  have hfront := h.front
  unfold shown at hfront
  rw [hl] at hfront
  rw [load_eq_iff]
  cases b with
  | false =>
      refine ⟨hb, fun j hj => ?_⟩
      rw [if_neg Bool.false_ne_true] at hj
      rw [Nat.zero_add, hfront j (by omega)]
      simp [List.getElem?_eq_getElem hj]
  | true =>
      refine ⟨by simpa [stamped] using hb, fun j hj => ?_⟩
      have hj' : j < bs.length := by simpa [stamped] using hj
      rw [Nat.zero_add, hfront j (by omega)]
      simp [stamped, List.getElem?_eq_getElem hj']

end Front

-- ======================================================== the result

/-- The states and the metadata are those of the history: a sector is
in state `FEMU_OC_SEC_WRITTEN` just when it was written, a read fails
with `0x42ff` just when it names a sector never written, and what
`femu_oc_meta_read` finds for a sector, alone and in a read, is the last
that was written for it. -/
structure Tracked (c : Params) (hist : List Op) (m : Bytes) : Prop where
  state : ∀ p, p < c.totalSecs →
    ((metaStateGet c p m).res = .ok MetaState.written.code
      ↔ p ∈ sectors hist)
  read : ∀ r, Accepted c r → r.isWrite = false →
    ∃ y, (femuOcRw c r m).res = .ok y
      ∧ (y.status = .notWritten ↔ ∃ p ∈ psl c r, p ∉ sectors hist)
  entry : ∀ p bs, lastEntry p hist = some bs →
    (metaRead c m).res = .ok bs
  metadata : ∀ r y, Accepted c r → r.isWrite = false →
    r.metadata ≠ none → (femuOcRw c r m).res = .ok y →
    ∀ k p bs, k < y.unread.elim (nPages c r) Prod.fst →
      (psl c r)[k]? = some p → lastEntry p hist = some bs →
      metaIndex c y.msl k = bs

section Exact

variable {c : Params} {m : Bytes} {hist : List Op}

/-- The state of a sector other than the first. -/
theorem Image.state_pos (h : Image c hist m) {p : Nat} (h0 : 0 < p)
    (hp : p < c.totalSecs) :
    leWord (load m (p * c.metaLen) intMetaSize) = MetaState.written.code
      ↔ p ∈ sectors hist := by
  rw [h.words p h0 hp]
  split
  · next hmem => exact iff_of_true (by decide) hmem
  · next hno => exact iff_of_false (by decide) hno

/-- The states are exact if that of sector 0 is. -/
theorem Image.state_iff (h : Image c hist m)
    (hz : leWord (load m 0 intMetaSize) = MetaState.written.code
      ↔ 0 ∈ sectors hist) {p : Nat} (hp : p < c.totalSecs) :
    leWord (load m (p * c.metaLen) intMetaSize) = MetaState.written.code
      ↔ p ∈ sectors hist := by
  rcases Nat.eq_zero_or_pos p with rfl | h0
  · rwa [Nat.zero_mul]
  · exact h.state_pos h0 hp

/-- `femu_oc_meta_state_get` answers with the state word. -/
theorem Plain.metaStateGet_written (hc : Plain c) {p : Nat}
    (hp : p < c.totalSecs) :
    (metaStateGet c p m).res = .ok MetaState.written.code
      ↔ leWord (load m (p * c.metaLen) intMetaSize)
        = MetaState.written.code := by
  rw [hc.metaStateGet_run hp]
  exact ⟨Except.ok.inj, congrArg Except.ok⟩

/-- A sector with metadata is one of the device. -/
theorem Ran.secs_pos (h : Ran c hist m) {p : Nat} {bs : List UInt8}
    (he : lastEntry p hist = some bs) : 0 < c.totalSecs := by
  obtain ⟨op, hop, -⟩ := List.mem_map.1 (of_lastEntry he).1
  exact Nat.zero_lt_of_lt (h.sectored.sector op hop)

/-- After any accepted commands on a device that is not hybrid, the
states and the metadata are those of the history just when it is
undisturbed. -/
theorem tracked_iff (hc : Plain c) (h : Ran c hist m) :
    Tracked c hist m ↔ Undisturbed c hist := by
  have himg := h.image hc
  have hs := h.sectored
  constructor
  · intro ht
    refine ⟨fun bs hl hpos => ?_, fun bs b p bs' hl he => ?_⟩
    · obtain ⟨op, hop, -⟩ := mem_of_latest hl
      have h0 : 0 < c.totalSecs := Nat.zero_lt_of_lt (hs.sector op hop)
      have hstate := ht.state 0 h0
      rw [hc.metaStateGet_written h0, Nat.zero_mul] at hstate
      exact (himg.word_iff hs).1 hstate bs hl hpos
    · have hread := ht.entry p bs' he
      rw [hc.metaRead_run (h.secs_pos he)] at hread
      rw [← himg.front_load hs hl]
      exact (Except.ok.inj hread).symm
  · intro hu
    have hz := (himg.word_iff hs).2 hu.word
    -- what is in front is the metadata of each sector that has some
    have hfront : ∀ p bs, lastEntry p hist = some bs →
        load m 0 c.sos = bs := by
      intro p bs he
      obtain ⟨⟨bs', b⟩, hl⟩ :=
        Option.ne_none_iff_exists'.1 (of_lastEntry he).2
      rw [himg.front_load hs hl]
      exact (hu.entries bs' b p bs hl he).symm
    constructor
    · intro p hp
      rw [hc.metaStateGet_written hp]
      exact himg.state_iff hz hp
    · intro r ha hr
      obtain ⟨y, hrun, hy⟩ := hc.read_run (m := m) ha hr
      refine ⟨y, by rw [hrun], hy.failed.trans ?_⟩
      constructor
      · intro ⟨p, hp, hne⟩
        exact ⟨p, hp, fun hin =>
          hne ((himg.state_iff hz (ha.inRange p hp)).2 hin)⟩
      · intro ⟨p, hp, hno⟩
        exact ⟨p, hp, fun hw =>
          hno ((himg.state_iff hz (ha.inRange p hp)).1 hw)⟩
    · intro p bs he
      rw [hc.metaRead_run (h.secs_pos he), hfront p bs he]
    · intro r y ha hr hm hres k p bs hk hget he
      obtain ⟨y', hrun, hy⟩ := hc.read_run (m := m) ha hr
      obtain rfl : y' = y := by
        rw [hrun] at hres
        exact Except.ok.inj hres
      rw [hy.got hm k (Nat.zero_le k) (by rwa [Nat.zero_add, length_psl])]
      exact hfront p bs he

end Exact

/-- Four sectors with four bytes of metadata each, in a format with `ms`
bytes of metadata. -/
def fourSectors (ms : Nat) : Params where
  sos := 4
  totalSecs := 4
  maxSecPerRq := 64
  secPerPl := 1
  secSize := 4096
  numCh := 1
  numLun := 1
  dom := 0
  ppaf := ⟨0, 0, 0, 0, 0⟩
  dataShift := 12
  ms := ms
  limits := ⟨4, 10, 4096, 0, fun _ => false, true⟩

/-- A command for the sector `p` alone. -/
def sectorCmd (isWrite : Bool) (p : Nat) (md : Option Bytes) : RwCmd where
  isWrite := isWrite
  nlb := 0
  control := 0
  spba := p
  ppaList := fun _ => 0
  metadata := md

/-- The replies to commands, and the buffer after them. -/
def submit (c : Params) (rs : List RwCmd) : Oc (List Status) :=
  rs.mapM fun r => Reply.status <$> femuOcRw c r

-- In a format without metadata, sector 0 written with metadata is no
-- longer found; and never written it is found, after sector 1 got
-- metadata that starts like the state.
example :
    (submit (fourSectors 0) [sectorCmd true 0 (some fun _ => 1),
      sectorCmd false 0 none] initMeta).res.toOption
        = some [.success, .notWritten]
    ∧ (submit (fourSectors 0) [sectorCmd true 1 (some markByte),
      sectorCmd false 0 none] initMeta).res.toOption
        = some [.success, .success] := by
  decide +kernel

-- ============================================ the formats of the device

section Device

variable {c : Params} {r : RwCmd} {m : Bytes}

/-- `nvme_rw_check_req` refuses every transfer with metadata. -/
theorem checkReq_metaSize {n : CheckLimits} {a : CheckArgs}
    (h : a.metaSize ≠ 0) : checkReq n a ≠ .success := by
  unfold checkReq
  by_cases hlba : n.nsze < a.elba
  · rw [if_pos hlba]
    nofun
  · by_cases hmdts : n.mdts ≠ 0 ∧ n.pageSize * 2 ^ n.mdts < a.dataSize
    · rw [if_neg hlba, if_pos hmdts]
      nofun
    · rw [if_neg hlba, if_neg hmdts, if_pos h]
      nofun

/-- Without blocks there is no sector. -/
theorem psl_of_no_blocks (h : r.blocks = 0) : psl c r = [] := by
  have hn : nPages c r = 0 := by
    unfold nPages dataSize
    rw [h, Nat.zero_mul, Nat.zero_div]
    rfl
  unfold psl
  rw [hn]
  rfl

/-- Every format has metadata, so every block counts some. -/
theorem metaSize_ne_zero (hms : c.ms = piBytesNvme) (h : r.blocks ≠ 0) :
    metaSize c r ≠ 0 := by
  have hlt : r.blocks < 2 ^ 16 := Nat.mod_lt _ (by decide)
  have hpos : 0 < r.blocks * 24 := by omega
  unfold metaSize
  rw [hms, piBytesNvme, i32_of_lt rfl (by omega), u64_of_lt rfl (by omega)]
  exact Nat.ne_of_gt hpos

/-- What has sectors is refused by `nvme_rw_check_req`. -/
theorem checkSectors_refuses (hms : c.ms = piBytesNvme)
    (h : psl c r ≠ []) (sppa eppa : Nat) :
    checkSectors c r sppa eppa ≠ .success := by
  have hblocks : r.blocks ≠ 0 := fun h0 => h (psl_of_no_blocks h0)
  have hsize : metaSize c r ≠ 0 := metaSize_ne_zero hms hblocks
  unfold checkSectors
  generalize metaSize c r = size at hsize
  apply checkReq_metaSize
  exact hsize

/-- No command is accepted: one without blocks has no sector, and every
other one brings metadata. -/
theorem not_accepted (hms : c.ms = piBytesNvme) : ¬ Accepted c r := by
  intro ha
  have hne : psl c r ≠ [] := by
    intro h0
    have hlen := length_psl (c := c) (r := r)
    rw [h0] at hlen
    exact absurd hlen (Nat.ne_of_lt ha.some)
  exact checkSectors_refuses hms hne _ _
    (ha.check _ (List.head?_eq_some_head hne) _
      (List.getLast?_eq_some_getLast hne))

/-- A command that ends before the loop: the buffer stays, and the reply
is neither success nor `0x42ff`. -/
structure Declines (m : Bytes) (f : Oc Reply) : Prop where
  same : (f m).st = m
  status : ∀ y, (f m).res = .ok y →
    y.status ≠ .success ∧ y.status ≠ .notWritten

theorem declines_reject {s : Status} (hs : s ≠ .success)
    (hw : s ≠ .notWritten) : Declines m (reject s) where
  same := rfl
  status := by
    intro y hy
    cases hy
    exact ⟨hs, hw⟩

theorem declines_fault (f : Fault) : Declines m (Prog.fault f) where
  same := rfl
  status := nofun

/-- No command comes to the loop; the checks are those of the source, in
its order. -/
theorem declines_femuOcRw (hms : c.ms = piBytesNvme) :
    Declines m (femuOcRw c r) := by
  unfold femuOcRw
  split
  · exact declines_fault _
  split
  · exact declines_reject nofun nofun
  split
  · exact declines_reject nofun nofun
  split
  · exact declines_reject nofun nofun
  split
  · exact declines_reject nofun nofun
  split
  · next sppa eppa hhead _ =>
      have hne : psl c r ≠ [] := by
        intro h0
        rw [h0] at hhead
        cases hhead
      split
      · exact declines_reject nofun nofun
      · rw [if_pos (checkSectors_refuses hms hne sppa eppa)]
        exact declines_reject nofun nofun
  · exact declines_fault _

/-- The buffer after commands for sectors of the device, with the history
of those that were accepted. -/
inductive Sent (c : Params) : List Op → Bytes → Prop
  | start : Sent c [] initMeta
  | accepted {hist : List Op} {m : Bytes} {r : RwCmd} :
      Sent c hist m → Accepted c r →
      Sent c (hist ++ ops c r) (femuOcRw c r m).st
  | refused {hist : List Op} {m : Bytes} {r : RwCmd} :
      Sent c hist m → (∀ p ∈ psl c r, p < c.totalSecs) →
      ¬ Accepted c r → Sent c hist (femuOcRw c r m).st

/-- Whatever is sent, the buffer is as it was set up. -/
theorem Sent.untouched (hms : c.ms = piBytesNvme) {hist : List Op}
    (h : Sent c hist m) : hist = [] ∧ m = initMeta := by
  induction h with
  | start => exact ⟨rfl, rfl⟩
  | accepted _ ha _ => exact absurd ha (not_accepted hms)
  | refused _ _ _ ih =>
      obtain ⟨hnil, hinit⟩ := ih
      exact ⟨hnil, (declines_femuOcRw hms).same.trans hinit⟩

/-- No sector of the new buffer is written, whatever its record's
offset. -/
theorem metaStateGet_init (c : Params) (p : Nat) :
    (metaStateGet c p initMeta).res ≠ .ok MetaState.written.code := by
  unfold metaStateGet copyFrom
  intro h
  split at h
  · rw [Prog.run_bind, Prog.run_get_bind] at h
    split at h
    · have hload : load initMeta (recordOft c p) intMetaSize
          = leBytes intMetaSize MetaState.unknown.code := rfl
      have hword := Except.ok.inj h
      rw [hload] at hword
      exact absurd hword (by decide)
    · cases h
  · cases h

end Device

end FemuRemap.OpenChannel
