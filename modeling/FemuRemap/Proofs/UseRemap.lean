/-
`USE_REMAP` and the NVRAM collection it may run: only the segments
change, no live entry is lost, and no segment is added. A granted remap
finds room for its entry.
-/
import FemuRemap.Proofs.Updates

namespace FemuRemap

open Lib

variable {c : Conf}

/-- Fewer entries never need more segments. -/
theorem SegOk.alloc_le {e e' : OobSeg} (h : SegOk c e) (h' : SegOk c e')
    (hle : stored c e' ≤ stored c e) : e'.allocSeg ≤ e.allocSeg := by
  unfold stored at hle
  have h₁ := h.free
  have h₂ := h'.room
  have h₃ := h.room
  by_contra hlt
  have hE : (0 : Int) ≤ c.oobEntryPerSeg := Int.natCast_nonneg _
  have hmul : (e.allocSeg + 1) * c.oobEntryPerSeg
      ≤ e'.allocSeg * c.oobEntryPerSeg :=
    Int.mul_le_mul_of_nonneg_right (by omega) hE
  rw [Int.add_mul, Int.one_mul] at hmul
  omega

variable {p : Pool} {s : Ssd} {m : Nat → Option Nat} {nv : Nat → Int}
  {n n' : Nvram} {b : Nat}

/-- The live entries of the victim are rewritten. -/
theorem Records.compact (h : Records c [] m nv none n)
    (hb : b < c.blockNb)
    (ht : ∀ x, n'.oobTable x = if x = b
      then (putEntry c)^[(stored c (n.oobTable b)
        - (n.oobTable b).invalidEntry).toNat] ⟨0, 0, 0⟩
      else n.oobTable x) : Records c [] m nv none n' where
  toFlags := h.toFlags
  entries x hx hxo := by
    have h₁ := h.entries x hx hxo
    rw [ht]
    by_cases hxb : x = b
    · subst hxb
      obtain ⟨h₂, h₃⟩ := stored_iterate (c := c) ⟨0, 0, 0⟩
        (stored c (n.oobTable x) - (n.oobTable x).invalidEntry).toNat
      rw [if_pos rfl, h₂, h₃]
      have h₄ : stored c ⟨0, 0, 0⟩ = 0 := by simp [stored]
      dsimp only
      omega
    · rw [if_neg hxb, h₁]
  cleared x hx := absurd hx (by simp)

/-- Only the NVRAM changed, to a state as sound, with no more
segments. -/
structure Compacted (c : Conf) (p : Pool) (s s' : Ssd) : Prop where
  sound : Sound c p s'
  only : ∃ n, s' = { s with nvram := n }
  segs : segs c s' ≤ segs c s

theorem Compacted.refl (h : Sound c p s) : Compacted c p s s :=
  ⟨h, ⟨_, rfl⟩, Int.le_refl _⟩

theorem Compacted.trans {s₁ s₂ s₃ : Ssd} (h : Compacted c p s₁ s₂)
    (h' : Compacted c p s₂ s₃) : Compacted c p s₁ s₃ := by
  obtain ⟨n, rfl⟩ := h.only
  obtain ⟨n', rfl⟩ := h'.only
  exact ⟨h'.sound, ⟨n', rfl⟩, h'.segs.trans h.segs⟩

/-- Another NVRAM under the same map. -/
theorem Sound.set_nvram (h : Sound c p s) (hn : Totals c n)
    (hr : Records c [] s.mappingTable.get s.inNvram.get none n) :
    Sound c p { s with nvram := n } :=
  ⟨h.pages.of_eq rfl rfl (fun _ => rfl) id (fun _ => hn) rfl
    ⟨rfl, rfl, rfl, rfl, rfl⟩, h.maps.congr fun _ => rfl, hr⟩

/-- The reclaim keeps all but the NVRAM. -/
theorem Sound.nvramOobGc_step (h : Sound c p s) :
    Step c (nvramOobGc c) s fun _ s' => Compacted c p s s' := by
  unfold nvramOobGc
  refine Sat.get_bind ?_
  split
  · refine Sat.emit_bind fun _ => ⟨good_error (by decide), Sat.pure ?_⟩
    exact Compacted.refl h
  · next b hv =>
      obtain ⟨hb, -⟩ := oobVictim_spec hv
      unfold updateNvramOob
      rw [if_neg (Nat.not_le.2 hb), if_neg (by decide)]
      refine Sat.modify_bind (Sat.modify_bind (Sat.emit_bind fun _ =>
        ⟨trivial, Sat.pure ?_⟩))
      have ht : ∀ x, (storeEntries c b (stored c (s.nvram.oobTable b)
          - (s.nvram.oobTable b).invalidEntry).toNat
            (releaseSegs c b s.nvram)).oobTable x
          = if x = b then (putEntry c)^[(stored c (s.nvram.oobTable b)
              - (s.nvram.oobTable b).invalidEntry).toNat] ⟨0, 0, 0⟩
            else s.nvram.oobTable x := by
        intro x
        rw [storeEntries_oobTable, releaseSegs_oobTable,
          releaseSegs_oobTable, if_pos rfl]
        split <;> rfl
      have htot := (h.pages.totals.release hb).store_many hb
        (stored c (s.nvram.oobTable b)
          - (s.nvram.oobTable b).invalidEntry).toNat
      refine ⟨h.set_nvram htot (h.records.compact hb ht), ⟨_, rfl⟩, ?_⟩
      -- the victim's entries only became fewer
      refine Int.le_trans (Int.le_of_eq (segSum_set _ hb ht)) ?_
      have hshape := htot.shape b hb
      rw [ht, if_pos rfl] at hshape
      have hold := h.pages.totals.shape b hb
      have hrec := h.records.entries b hb (by simp)
      have hle := hold.alloc_le hshape (by
        rw [(stored_iterate _ _).1]
        have := hold.invalid
        simp only [stored] at hrec ⊢
        omega)
      unfold segs
      omega

/-- What `USE_REMAP` grants: a free entry, or a segment for it. -/
def Granted (c : Conf) (b : Nat) (s : Ssd) : Prop :=
  0 < (s.nvram.oobTable b).freeEntry
    ∨ s.nvram.totalAllocSeg < c.totalOobSeg

/-- A refusal grants nothing, so the promise is empty. -/
theorem Compacted.refuse {s' : Ssd} (h : Compacted c p s s') (b : Nat) :
    Step c refuseRemap s' fun r s'' =>
      Compacted c p s s'' ∧ (r = .success → Granted c b s'') := by
  refine Sat.modify_bind (Sat.pure ⟨h.trans ?_, by simp⟩)
  exact ⟨h.sound.set_nvram (h.sound.pages.totals.refuse _ _)
    (h.sound.records.congr fun _ => rfl), ⟨_, rfl⟩, Int.le_refl _⟩

/-- By induction on the rounds: each reclaims, and then grants, refuses or
goes on. -/
theorem Sound.useRemapLoop_step (h : Sound c p s) (b rounds : Nat)
    (ratio : Nat × Nat) :
    Step c (useRemapLoop c b rounds ratio) s fun r s' =>
      Compacted c p s s' ∧ (r = .success → Granted c b s') := by
  induction rounds generalizing s ratio with
  | zero => exact (Compacted.refl h).refuse b
  | succ rounds ih =>
      have hrefl := Compacted.refl h
      refine Sat.get_bind ?_
      dsimp only
      generalize (if 0 < s.nvram.totalOobEntry then _ else ratio) = ratio'
      split
      · next hfree => exact Sat.pure ⟨hrefl, fun _ => .inl hfree⟩
      · split
        · next hseg => exact Sat.pure ⟨hrefl, fun _ => .inr hseg⟩
        · split
          · exact hrefl.refuse b
          · refine Sat.bind h.nvramOobGc_step ?_
            intro r s₁ h₁
            cases r with
            | fail => exact h₁.refuse b
            | success =>
                refine Sat.mono (ih h₁.sound _) ?_ fun _ _ h => h
                rintro r s₂ ⟨h₂, hg⟩
                exact ⟨h₁.trans h₂, hg⟩

/-- A grant is given only with room for the entry. -/
theorem Sound.useRemap_step (h : Sound c p s) (b : Nat) :
    Step c (useRemap c b) s fun r s' =>
      Compacted c p s s' ∧ (r = .success → Granted c b s') := by
  unfold useRemap
  split
  · refine Sat.emit_bind fun _ => ⟨good_error (by decide),
      Sat.pure ⟨?_, by simp⟩⟩
    exact Compacted.refl h
  · exact h.useRemapLoop_step b _ _

end FemuRemap
