/-
The page cutting loop of `_FTL_READ`, `_FTL_WRITE` and
`femu_discard_process`, at the widths of the source.

At a start that is not negative, and every start that reaches it is one,
it is the loop of the model (`cutSectors_eq`), so what is known of the
slots carries over.
-/
import FemuRemap.Model.Nvme
import FemuRemap.Proofs.Host

namespace FemuRemap

open Lib

variable {spp fuel lba remain skip : Nat}

-- ============================================ from zero on

/-- What one iteration takes, at a skip within the page. -/
theorem cutSectors_step (hs : skip < spp) (h : spp < 2 ^ 31)
    (hr : remain < 2 ^ 32) (h₀ : remain ≠ 0) :
    cutSectors spp (fuel + 1) (lba : Int) remain skip
      = ((lba / spp : Nat) : Int)
        :: cutSectors spp fuel ((lba + min remain (spp - skip) : Nat) : Int)
          (remain - min remain (spp - skip)) 0 := by
  have hsects : u32 ((spp : Int) - skip - ((if (spp : Int) - skip < remain
      then 0 else u32 ((spp : Int) - skip - remain) : Nat) : Int))
      = min remain (spp - skip) := by
    unfold u32
    split <;> omega
  have hrest : u32 ((remain : Int) - (min remain (spp - skip) : Nat))
      = remain - min remain (spp - skip) := by
    unfold u32
    omega
  simp only [cutSectors, if_neg h₀, hsects, hrest]
  rw [Int.tdiv_eq_ediv_of_nonneg (by omega)]
  norm_cast

/-- What one iteration of the model's loop takes. -/
theorem cutPages_step (fuel lba : Nat) (hs : skip < spp)
    (h₀ : remain ≠ 0) :
    ∃ slot, slot.lpn = lba / spp
      ∧ cutPages spp (fuel + 1) lba remain skip
        = slot :: cutPages spp fuel (lba + min remain (spp - skip))
          (remain - min remain (spp - skip)) 0 := by
  have hsects : spp - skip - (if spp - skip < remain then 0
      else spp - skip - remain) = min remain (spp - skip) := by
    split <;> omega
  refine ⟨_, ?_, by rw [cutPages, if_neg h₀]; simp only [hsects]; rfl⟩
  rfl

/-- The loop at the widths of the source is the model's. -/
theorem cutSectors_eq (hs : skip < spp) (h : spp < 2 ^ 31)
    (hr : remain < 2 ^ 32) :
    cutSectors spp fuel (lba : Int) remain skip
      = (cutPages spp fuel lba remain skip).map
        fun slot => (slot.lpn : Int) := by
  induction fuel generalizing lba remain skip with
  | zero => rfl
  | succ fuel ih =>
      by_cases h₀ : remain = 0
      · simp [cutSectors, cutPages, h₀]
      · obtain ⟨slot, hlpn, hcut⟩ := cutPages_step fuel lba hs h₀
        rw [cutSectors_step hs h hr h₀, hcut, List.map_cons, hlpn,
          ih (by omega) (by omega)]

/-- The loop reaches the page of every sector. -/
theorem mem_cutPages {k : Nat} (hs : lba % spp = skip) (hspp : 0 < spp)
    (hk : k < remain) (hf : remain ≤ fuel) :
    ∃ slot ∈ cutPages spp fuel lba remain skip,
      slot.lpn = (lba + k) / spp := by
  induction fuel generalizing lba remain skip k with
  | zero => omega
  | succ fuel ih =>
      have hskip : skip < spp := hs ▸ Nat.mod_lt _ hspp
      obtain ⟨slot, hlpn, hcut⟩ := cutPages_step fuel lba hskip
        (show remain ≠ 0 by omega)
      rw [hcut]
      by_cases hin : k < spp - skip
      · -- the sector is in the page of the first one
        refine ⟨slot, List.mem_cons_self, ?_⟩
        have hsplit : lba + k = spp * (lba / spp) + (skip + k) := by
          have hdiv := Nat.div_add_mod lba spp
          omega
        rw [hlpn, hsplit, Nat.mul_add_div hspp,
          Nat.div_eq_of_lt (show skip + k < spp by omega), Nat.add_zero]
      · -- the next iteration starts at a page boundary
        have hmin : min remain (spp - skip) = spp - skip := by omega
        have halign : (lba + (spp - skip)) % spp = 0 := by
          have hnext : lba + (spp - skip) = spp * (lba / spp) + spp := by
            have hdiv := Nat.div_add_mod lba spp
            omega
          rw [hnext, Nat.mul_add_mod, Nat.mod_self]
        rw [hmin]
        have hk' : k - (spp - skip) < remain - (spp - skip) := by omega
        obtain ⟨slot', hmem, heq⟩ := ih halign hk' (by omega)
        refine ⟨slot', List.mem_cons_of_mem _ hmem, ?_⟩
        rw [heq]
        congr 1
        omega

/-- From a sector number that is not negative the loop stays in the table
exactly when its sectors do. -/
theorem cutSectors_inside {N : Nat} (hs : lba % spp = skip) (hspp : 0 < spp)
    (h : spp < 2 ^ 31) (hr : remain < 2 ^ 32) :
    (∀ fuel, ∀ lpn ∈ cutSectors spp fuel (lba : Int) remain skip,
        0 ≤ lpn ∧ lpn < N)
      ↔ remain = 0 ∨ lba + remain ≤ spp * N := by
  have hskip : skip < spp := hs ▸ Nat.mod_lt _ hspp
  constructor
  · intro hall
    by_cases h₀ : remain = 0
    · exact .inl h₀
    · refine .inr ?_
      obtain ⟨slot, hmem, hlpn⟩ := mem_cutPages hs hspp
        (show remain - 1 < remain by omega) (Nat.le_refl remain)
      have hmap : ((slot.lpn : Nat) : Int)
          ∈ cutSectors spp remain (lba : Int) remain skip := by
        rw [cutSectors_eq hskip h hr]
        exact List.mem_map_of_mem hmem
      have hlt := (hall remain _ hmap).2
      rw [hlpn] at hlt
      have hlast : lba + (remain - 1) < N * spp :=
        (Nat.div_lt_iff_lt_mul hspp).1 (by omega)
      rw [Nat.mul_comm]
      omega
  · intro hend fuel lpn hmem
    rw [cutSectors_eq hskip h hr] at hmem
    obtain ⟨slot, hslot, rfl⟩ := List.mem_map.1 hmem
    rcases hend with rfl | hend
    · cases fuel <;> simp [cutPages] at hslot
    · have hlt := cutPages_lpn_lt hspp fuel lba remain skip hend slot hslot
      omega

/-- The pages of a request that starts at sector `lba`. -/
theorem NvmeCtrl.sectorLpns_eq (n : NvmeCtrl) (fuel lba length : Nat) :
    sectorLpns n.conf fuel (lba : Int) length
      = cutSectors n.conf.sectorsPerPage fuel (lba : Int) length
        (lba % n.conf.sectorsPerPage) := by
  have hmod := Nat.mod_lt lba n.spp_pos
  have hspp := n.spp_lt
  unfold sectorLpns
  rw [Int.tmod_eq_emod_of_nonneg (by omega), ← Int.natCast_emod,
    u32_of_lt rfl (by omega)]

/-- The loop reaches page `j` of a request, counted from its first, if
the request does. -/
theorem lt_length_cutPages {j : Nat} (hs : skip < spp)
    (h₀ : remain ≠ 0 ∨ skip = 0) :
    j < (cutPages spp fuel lba remain skip).length
      ↔ j < fuel ∧ j * spp < skip + remain := by
  induction fuel generalizing lba remain skip j with
  | zero => simp [cutPages]
  | succ fuel ih =>
      by_cases hr : remain = 0
      · obtain rfl := h₀.resolve_left (not_not_intro hr)
        simp [cutPages, hr]
      · obtain ⟨slot, -, hcut⟩ := cutPages_step fuel lba hs hr
        rw [hcut, List.length_cons]
        cases j with
        | zero => simp; omega
        | succ j =>
            rw [Nat.add_lt_add_iff_right, ih (by omega) (.inr rfl),
              Nat.succ_mul]
            omega

end FemuRemap
