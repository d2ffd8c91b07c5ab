/-
The books of the device: what was written, and what is free.

Every flash write is counted as a write of the host or of the collector,
and it takes one free page; an erase gives back the pages of its block.
The counts of writes need no invariant (`Counted`, `Gathers`). That a
collection copies as many pages as its victim has live ones, and that
`stat_ppn_free` is the room of the pool, are facts of runs without
wrapped counts.
-/
import FemuRemap.Proofs.Effects

namespace FemuRemap

open Lib

variable {c : Conf} {p p' : Pool} {s s' : Ssd} {fuel : Nat}

-- ============================================================= the books

/-- The write counters agree with each other and with the free pages, as
`uint32_t` counters. -/
structure Balanced (c : Conf) (s : Ssd) : Prop where
  sources : s.stat.totalWriteCount
    ≡ s.stat.hostWriteCount + s.stat.gcWriteCount [MOD 2 ^ 32]
  pages : s.stat.totalWriteCount + s.stat.ppnFree
    ≡ c.pageMappingEntryNb + c.pageNb * s.stat.eraseCount [MOD 2 ^ 32]

/-- The books stay balanced when every write has a source and takes a
page that an erase gave back. -/
theorem Balanced.entry (h : Balanced c s) {a b d e : Nat}
    (hc : Counted a b d e s.stat s'.stat) (hsum : a = b + d)
    (hfree : s'.stat.ppnFree + a
      ≡ s.stat.ppnFree + c.pageNb * e [MOD 2 ^ 32]) :
    Balanced c s' where
  sources := by
    have h₁ := h.sources
    have h₂ := hc.all
    have h₃ := hc.host
    have h₄ := hc.gc
    unfold Nat.ModEq at *
    omega
  pages := by
    have herase := hc.erases.mul_left c.pageNb
    rw [Nat.mul_add] at herase
    have h₁ := h.pages
    have h₂ := hc.all
    unfold Nat.ModEq at *
    omega

/-- A state without wrapped counts whose books are balanced. -/
def Booked (c : Conf) (s : Ssd) : Prop :=
  (∃ p, Sound c p s) ∧ Balanced c s

/-- What holds of a call in which no count wraps. -/
abbrev Accounts {α : Type} (m : Ftl α) (s : Ssd) (Q : α → Ssd → Prop) :
    Prop :=
  Sat NoWrap anyEvent m s Q fun _ _ => True

/-- What is known of a call that serves a command carries over: nothing is
asked here of its faults and its events. -/
theorem Serves.accounts {A : Prop} {α : Type} {m : Ftl α}
    {Q : α → Ssd → Prop} (h : Serves c False fuel A m s Q) :
    Accounts m s Q :=
  Sat.mono ((Sat.relying h fun _ he => relied_false he).weaken
    fun _ _ => trivial) (fun _ _ h => h) fun _ _ _ => trivial

theorem Step.accounts {α : Type} {m : Ftl α} {Q : α → Ssd → Prop}
    (h : Step c m s Q) : Accounts m s Q :=
  Sat.mono (h.weaken fun _ _ => trivial) (fun _ _ h => h)
    fun _ _ h => h.elim

/-- A change of the mapping that writes nothing and uses no page. -/
theorem Geo.booked_effect (g : Geo c) (hb : Balanced c s)
    (h : Sound c p s) (h' : Sound c p s') {m : Nat → Option Nat}
    (he : Effect m 0 0 s s') : Booked c s' := by
  refine ⟨⟨p, h'⟩, hb.entry he.counted rfl ?_⟩
  rw [g.ppnFree_eq h.pages, g.ppnFree_eq h'.pages, Nat.mul_zero]

-- ============================================================ collection

/-- A collection copies the live pages of its victim and gets all its
pages back. -/
theorem Geo.sbGarbageCollection_booked (g : Geo c) (h : Booked c s) :
    Accounts (sbGarbageCollection c fuel) s fun _ s' => Booked c s' := by
  obtain ⟨⟨p, hp⟩, hb⟩ := h
  refine Sat.mono (Sat.and (Serves.accounts (g.sbGarbageCollection_serves
    (A := True) hp fuel (.inl trivial)))
    (sbGarbageCollection_gathers fuel)) ?_ fun _ _ h => h
  rintro r s' ⟨hend, hgather⟩
  cases r with
  | fail =>
      obtain ⟨-, -, t, rfl⟩ := hend
      exact ⟨⟨p, hp.alike (by constructor <;> rfl)⟩,
        hb.sources, hb.pages⟩
  | success =>
      obtain ⟨b, ρ, l, p', hrel, -⟩ := hend
      obtain ⟨k, hk⟩ := hgather.counted
      refine ⟨⟨p', hrel.sound⟩, hb.entry hk (Nat.zero_add k).symm ?_⟩
      have hroom := hrel.room g
      have hcopies := hk.gc.symm.trans hrel.gcWrites
      have hplanes : c.pageNb * erasesOf c .success = c.sbPages := by
        rw [erasesOf, g.planes, Nat.mul_one, Conf.sbPages]
      rw [hplanes, g.ppnFree_eq hrel.sound.pages, g.ppnFree_eq hp.pages]
      unfold Nat.ModEq at *
      omega

/-- The rounds of the check, by induction: each collection balances its own
writes and erases. -/
theorem Geo.gcCheckLoop_booked (g : Geo c) (h : Booked c s)
    (rounds : Nat) :
    Accounts (gcCheckLoop c fuel rounds) s fun _ s' => Booked c s' := by
  induction rounds generalizing s with
  | zero => exact Sat.fault trivial
  | succ rounds ih =>
      refine Sat.get_bind ?_
      split
      · refine Sat.bind (g.sbGarbageCollection_booked h) ?_
        intro r s₁ h₁
        cases r with
        | fail => exact Sat.pure h₁
        | success =>
            obtain ⟨⟨p₁, hp₁⟩, hb₁⟩ := h₁
            refine Sat.modify_bind (ih ⟨⟨p₁, ?_⟩, hb₁.sources, hb₁.pages⟩)
            exact hp₁.alike (by constructor <;> rfl)
      · exact Sat.pure h

/-- The check is skipped without a new page. -/
theorem Geo.gcCheckAfter_booked (g : Geo c) (h : Booked c s)
    (q : Option Nat) :
    Accounts (gcCheckAfter c fuel q) s fun _ s' => Booked c s' := by
  cases q with
  | none => exact Sat.pure h
  | some q =>
      rw [gcCheckAfter]
      split
      · refine Sat.bind (g.gcCheckLoop_booked h fuel) ?_
        intro _ s₁ h₁
        exact Sat.get_bind (Sat.emit fun _ => ⟨trivial, h₁⟩)
      · exact Sat.pure h

-- ================================================================ writes

/-- A granted page of a write counts no write: the default build sets no
`DEDUP_WRITE`, the one flag that would. -/
theorem remapHinted_effect {info : LpnInfo}
    (hd : info.flag ≠ dedupWrite) (q lpn : Nat) :
    Ends (remapHinted c info (some q) lpn) s fun _ s' =>
      ∃ m, Effect m 0 0 s s' := by
  unfold remapHinted
  split
  · exact Sat.mono (remapLpn_effect true false none q lpn)
      (fun _ _ h => ⟨_, h⟩) fun _ _ h => h
  · exact Sat.mono (remapLpn_effect true false _ q lpn)
      (fun _ _ h => ⟨_, h⟩) fun _ _ h => h

/-- A page that is programmed takes a free one; one that is remapped takes
none and counts none. A write flagged as a duplicate is left out: the default
build has none. -/
theorem Geo.writePage_booked (g : Geo c) (h : Booked c s)
    {info : LpnInfo} (hd : info.flag ≠ dedupWrite) {slot : Slot}
    (hL : slot.lpn < c.pageMappingEntryNb) (q : Option Nat) :
    Accounts (writePage c fuel info slot q) s fun _ s' => Booked c s' := by
  obtain ⟨⟨p, hp⟩, hb⟩ := h
  refine Sat.get_bind (Sat.bind (Step.accounts (g.askRemap_held
    (B := False) ⟨hp, False.elim⟩ info (hintedPpn s info))) ?_)
  rintro r _ ⟨h₁, ⟨n, rfl⟩, hr⟩
  cases r with
  | success =>
      obtain ⟨hflag, x, hx, hg⟩ := hr rfl
      rw [hx]
      refine Sat.bind (Sat.and (Step.accounts
        (g.remapHinted_held h₁ hflag hx hL hg))
        (remapHinted_effect hd x slot.lpn)) ?_
      rintro _ s₂ ⟨⟨h₂, -⟩, m, he⟩
      refine Sat.pure (g.booked_effect (p := p) ?_ h₁.sound h₂.sound he)
      exact ⟨hb.sources, hb.pages⟩
  | fail =>
      refine Sat.bind (Sat.and (Serves.accounts (Runs.serves
        (g.programPage_runs (A := True) h₁.sound fuel (fun _ => trivial)
          info hL))) (programPage_effect fuel info slot)) ?_
      rintro _ s₂ ⟨⟨x, p₂, rfl, hf, hw⟩, he⟩
      have hb₁ : Balanced c { s with nvram := n } :=
        ⟨hb.sources, hb.pages⟩
      refine Sat.pure ⟨⟨p₂, hw.sound⟩,
        hb₁.entry (he x rfl).counted rfl ?_⟩
      rw [g.ppnFree_eq h₁.sound.pages, g.ppnFree_eq hw.sound.pages,
        hf.room, Nat.mul_zero]

theorem Geo.writePages_booked (g : Geo c) (h : Booked c s)
    {info : Nat → LpnInfo} (hd : ∀ i, (info i).flag ≠ dedupWrite)
    (l : List Slot) (hl : ∀ slot ∈ l, slot.lpn < c.pageMappingEntryNb)
    (i : Nat) (q : Option Nat) :
    Accounts (writePages c fuel info l i q) s fun _ s' => Booked c s' := by
  induction l generalizing s i q with
  | nil => exact Sat.pure h
  | cons slot l ih =>
      obtain ⟨hslot, hl⟩ := List.forall_mem_cons.1 hl
      refine Sat.bind (g.writePage_booked h (hd i) hslot q) ?_
      intro r s₁ h₁
      cases r with
      | none => exact Sat.pure h₁
      | some q => exact ih h₁ hl (i + 1) q

/-- A whole write, with the check after it. -/
theorem Geo.ftlWrite_booked (g : Geo c) (h : Booked c s)
    {req : RequestMeta} (hd : ∀ i, (req.lpnsInfo i).flag ≠ dedupWrite) :
    Accounts (ftlWrite c fuel req) s fun _ s' => Booked c s' := by
  unfold ftlWrite
  split
  · exact Sat.emit_bind fun _ => ⟨trivial, Sat.pure h⟩
  · next hle =>
      refine Sat.bind (g.writePages_booked h hd _
        (g.slots_lpn_lt (Nat.le_of_not_lt hle)) 0 none) ?_
      intro r s₁ h₁
      cases r with
      | none => exact Sat.pure h₁
      | some q =>
          refine Sat.bind (g.gcCheckAfter_booked h₁ q) ?_
          intro _ s₂ h₂
          exact Sat.pure h₂

-- =================================================== discards and remaps

theorem Geo.unmapLpn_booked (g : Geo c) (h : Booked c s) (L : Nat) :
    Accounts (unmapLpn c L) s fun _ s' => Booked c s' := by
  obtain ⟨⟨p, hp⟩, hb⟩ := h
  refine Sat.mono (Sat.and (Step.accounts (g.unmapLpn_step hp L))
    (unmapLpn_effect L)) ?_ fun _ _ h => h
  rintro _ s' ⟨⟨hr, -⟩, he⟩
  exact g.booked_effect hb hp hr.sound he

theorem Geo.unmapSource_booked (g : Geo c) (h : Booked c s)
    (src : Option Nat) :
    Accounts (unmapSource c src) s fun _ s' => Booked c s' := by
  cases src with
  | none => exact Sat.pure h
  | some L => exact g.unmapLpn_booked h L

/-- A discard is a series of unmaps. -/
theorem Geo.discard_booked (g : Geo c) (h : Booked c s)
    (length sectorNb : Nat) :
    Accounts (femuDiscardProcess c length sectorNb) s fun _ s' =>
      Booked c s' := by
  unfold femuDiscardProcess
  split
  · exact Sat.emit_bind fun _ => ⟨trivial, Sat.pure h⟩
  · refine Sat.bind (Sat.each (fun _ s' => Booked c s') ?_ h) ?_
    · intro _ slot _ s₁ _ h₁
      refine Sat.bind (R := fun _ s' => Booked c s') ?_ ?_
      · unfold printErrorIf
        split
        · exact Sat.emit fun _ => ⟨trivial, h₁⟩
        · exact Sat.pure h₁
      · intro _ s₂ h₂
        exact g.unmapLpn_booked h₂ slot.lpn
    · intro _ s₁ h₁
      exact Sat.pure h₁

/-- One page of a remap: redirected, or refused and written. -/
theorem Geo.remapPage_booked (g : Geo c) (h : Booked c s)
    (ope : RemapOpe) (K : Nat) {L : Nat} (hL : L < c.pageMappingEntryNb) :
    Accounts (remapPage c fuel ope K L) s fun _ s' => Booked c s' := by
  obtain ⟨⟨p, hp⟩, hb⟩ := h
  have hheld : Held c False p s := ⟨hp, False.elim⟩
  refine Sat.get_bind (Sat.bind (Step.accounts (hheld.useRemap_step _)) ?_)
  rintro r _ ⟨h₁, ⟨n, rfl⟩, -⟩
  have hb₁ : Booked c { s with nvram := n } :=
    ⟨⟨p, h₁.sound⟩, hb.sources, hb.pages⟩
  cases r with
  | success =>
      cases hK : s.mappingTable K with
      | none =>
          -- the source is not mapped: an error, and nothing else
          refine Sat.bind (R := fun r s' => r = .fail ∧ Booked c s') ?_ ?_
          · exact Sat.emit_bind fun _ => ⟨trivial, Sat.pure ⟨rfl, hb₁⟩⟩
          · rintro _ s₂ ⟨rfl, h₂⟩
            exact Sat.pure h₂
      | some q =>
          refine Sat.mono (Sat.and (Step.accounts (g.remapLpn_step
            h₁.sound (K := K) hK hL false false _))
            (remapLpn_effect false false _ q L)) ?_ fun _ _ h => h
          rintro _ s₂ ⟨⟨hr, -⟩, he⟩
          exact g.booked_effect hb₁.2 h₁.sound hr.sound he
  | fail =>
      refine Sat.bind (g.ftlWrite_booked hb₁ fun _ =>
        show (0 : Nat) ≠ dedupWrite by decide) ?_
      intro _ s₂ h₂
      exact g.unmapSource_booked h₂ _

theorem Geo.remapPages_booked (g : Geo c) (h : Booked c s)
    (ope : RemapOpe) (len K L : Nat)
    (hL : L + len ≤ c.pageMappingEntryNb) :
    Accounts (remapPages c fuel ope len K L) s fun _ s' => Booked c s' := by
  induction len generalizing s K L with
  | zero => exact Sat.pure h
  | succ len ih =>
      refine Sat.bind (g.remapPage_booked h ope K (by omega)) ?_
      intro _ s₁ h₁
      exact ih h₁ (K + 1) (L + 1) (by omega)

-- ================================================================== runs

/-- The default build has no `DEDUP_WRITE`: the flag is set only where
`DUP_RATIO` is defined, and not taken from a request's metadata. -/
def DefaultBuild : Cmd → Prop
  | .write req => ∀ i, (req.lpnsInfo i).flag ≠ dedupWrite
  | _ => True

theorem Geo.exec_booked (g : Geo c) (fuel : Nat) (h : Booked c s) {cmd : Cmd}
    (hin : InRange c cmd) (hd : DefaultBuild cmd) :
    Accounts (exec c fuel cmd) s fun _ s' => Booked c s' := by
  cases cmd with
  | write req =>
      refine Sat.bind (g.ftlWrite_booked h hd) ?_
      intro _ s₁ h₁
      exact Sat.pure h₁
  | discard length sectorNb =>
      refine Sat.bind (g.discard_booked h length sectorNb) ?_
      intro _ s₁ h₁
      exact Sat.pure h₁
  | remap srcLpn dstLpn len ope =>
      refine Sat.bind (R := fun _ s' => Booked c s') ?_ ?_
      · unfold ssdRemap
        split
        · exact Sat.emit_bind fun _ => ⟨trivial, Sat.pure h⟩
        · have hlen : dstLpn + (if len < 2 ^ 31 then len else 0)
              ≤ c.pageMappingEntryNb := by
            have := hin.2
            split <;> omega
          refine Sat.bind (g.remapPages_booked h _ _ srcLpn dstLpn hlen) ?_
          intro _ s₁ h₁
          exact Sat.pure h₁
      · intro _ s₁ h₁
        exact Sat.pure h₁

/-- A new device: nothing written, every page free. -/
theorem Geo.booked_init (g : Geo c) : Booked c (ftlInit c) :=
  ⟨⟨_, g.sound_init⟩, .refl _, by
    rw [show (ftlInit c).stat.eraseCount = 0 from rfl, Nat.mul_zero]
    exact congrArg (· % 2 ^ 32) (Nat.zero_add _)⟩

variable {cmds : List Cmd} {tr : List Event}

/-- Along a run without wrapped counts. -/
theorem Ran.booked (g : Geo c) (h : Ran c cmds s tr)
    (hd : ∀ cmd ∈ cmds, DefaultBuild cmd) (hr : ∀ e ∈ tr, NoWrap e) :
    Booked c s := by
  induction h with
  | init => exact g.booked_init
  | @cmd cmds s s' tr log fuel cmd _ hin hrun ih =>
      obtain ⟨hd₁, hd₂⟩ := List.forall_mem_append.1 hd
      obtain ⟨hr₁, hr₂⟩ := List.forall_mem_append.1 hr
      exact (Sat.of_ok (g.exec_booked fuel (ih hd₁ hr₁) hin
        (hd₂ cmd (by simp))) hrun hr₂).2

/-- In every run of the default build in which no count wraps, between
requests: every write was the host's or the collector's, and the pages
written are those not free now and those erased since. -/
theorem writes_accounted (g : Geo c) (h : Ran c cmds s tr)
    (hd : ∀ cmd ∈ cmds, DefaultBuild cmd) (hr : ∀ e ∈ tr, NoWrap e) :
    s.stat.totalWriteCount
        ≡ s.stat.hostWriteCount + s.stat.gcWriteCount [MOD 2 ^ 32]
      ∧ s.stat.ppnFree ≤ c.pageMappingEntryNb
      ∧ s.stat.totalWriteCount
        ≡ (c.pageMappingEntryNb - s.stat.ppnFree)
          + c.pageNb * s.stat.eraseCount [MOD 2 ^ 32] := by
  obtain ⟨⟨p, hp⟩, hb⟩ := h.booked g hd hr
  have hle : s.stat.ppnFree ≤ c.pageMappingEntryNb := by
    rw [g.ppnFree_eq hp.pages]
    exact g.room_le hp
  refine ⟨hb.sources, hle, Nat.ModEq.add_right_cancel' s.stat.ppnFree ?_⟩
  have hpages := hb.pages
  unfold Nat.ModEq at *
  omega

/-- A plain write carries no flag of a duplicate. -/
theorem defaultBuild_writeOf (lpn data : Nat) :
    DefaultBuild (writeOf lpn data) :=
  fun _ => show (0 : Nat) ≠ dedupWrite by decide

theorem defaultBuild_remap (srcLpn dstLpn len ope : Nat) :
    DefaultBuild (.remap srcLpn dstLpn len ope) :=
  trivial

theorem tinyRun_defaultBuild : ∀ cmd ∈ tinyRun, DefaultBuild cmd := by
  simp [tinyRun, defaultBuild_writeOf, defaultBuild_remap]

theorem lostRun_defaultBuild : ∀ cmd ∈ wrapRun ++ [writeOf 1 8],
    DefaultBuild cmd := by
  intro cmd hc
  simp only [wrapRun, wrapRemaps, List.mem_append, List.mem_cons,
    List.mem_replicate, List.not_mem_nil, or_false] at hc
  rcases hc with ((rfl | ⟨-, rfl⟩) | hc) | rfl
  · exact defaultBuild_writeOf 0 7
  · exact defaultBuild_writeOf 1 8
  · rcases hc with rfl | rfl | rfl | rfl | rfl | rfl | rfl | rfl <;> trivial
  · exact defaultBuild_writeOf 1 8

/-- The five writes of `tinyRun`. -/
theorem writes_accounted_tiny : tinyOut.st.stat.totalWriteCount = 5
    ∧ tinyOut.st.stat.totalWriteCount
      ≡ (tinyConf.pageMappingEntryNb - tinyOut.st.stat.ppnFree)
        + tinyConf.pageNb * tinyOut.st.stat.eraseCount [MOD 2 ^ 32] :=
  ⟨by decide +kernel, (writes_accounted tinyConf_geo tinyOut_ran
    tinyRun_defaultBuild tinyOut_noWrap).2.2⟩

/-- At most 127 lpns ever share a page, and yet a page that was erased is
never counted as free again. -/
theorem writes_unaccounted_wrap :
    Ran wrapConf (wrapRun ++ [writeOf 1 8]) lostOut.st
        (wrapOut.log ++ lostOut.log)
      ∧ (∀ cmd ∈ wrapRun ++ [writeOf 1 8], DefaultBuild cmd)
      ∧ (∀ e ∈ wrapOut.log ++ lostOut.log, FewSharers e)
      ∧ ¬ lostOut.st.stat.totalWriteCount
        ≡ (wrapConf.pageMappingEntryNb - lostOut.st.stat.ppnFree)
          + wrapConf.pageNb * lostOut.st.stat.eraseCount [MOD 2 ^ 32] :=
  ⟨lostOut_ran, lostRun_defaultBuild, lostOut_fewSharers,
    by decide +kernel⟩

end FemuRemap
