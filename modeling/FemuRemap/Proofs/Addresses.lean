/-
How far page numbers carry: up to `2 ^ 32` pages they encode the address
they were computed from, and from there on some address is lost.

The page numbers are `unsigned int` expressions kept in an `int64_t` and
decoded by 64-bit divisions, so what is decoded is the address modulo
`2 ^ 32` pages. The first number that wraps is that of page `2 ^ 32`,
which comes out as page zero.
-/
import FemuRemap.Proofs.Geometry
import Mathlib.Data.Set.Function

namespace FemuRemap

open Lib

/-- Any geometry of positive `int`s. -/
structure IntSized (c : Conf) : Prop where
  flash : 0 < c.flashNb
  block : 0 < c.blockNb
  page : 0 < c.pageNb
  flash_lt : c.flashNb < 2 ^ 31
  block_lt : c.blockNb < 2 ^ 31
  page_lt : c.pageNb < 2 ^ 31

/-- The address is one of the device. -/
structure OnDevice (c : Conf) (flash block page : Nat) : Prop where
  flash : flash < c.flashNb
  block : block < c.blockNb
  page : page < c.pageNb

variable {c : Conf} {f b k : Nat}

-- ===================================================== the expressions

/-- However it is spelled, it is the address modulo `2 ^ 32`. -/
theorem encodePpn_mod (f b k : Nat) :
    encodePpn c f b k = ppnAt c f b k % 2 ^ 32 := by
  rw [← u32_mod]
  unfold encodePpn ppnAt
  congr 1
  push_cast
  ring

theorem addressPpn_eq (f b k : Nat) :
    addressPpn c f b k = encodePpn c f b k := by
  unfold addressPpn encodePpn
  rw [u32_add, u32_mul, add_assoc, u32_add, ← add_assoc, add_right_comm,
    u32_add_u32, add_right_comm]

theorem oldPpn_eq_encodePpn (f b k : Nat) :
    oldPpn c f b k = encodePpn c f b k := by
  have hflash : (f : Int) * (c.pageNb * c.blockNb)
      = f * c.blockNb * c.pageNb := by ring
  unfold oldPpn encodePpn
  rw [u32_add, add_assoc, u32_add, ← add_assoc, add_right_comm,
    u32_add_u32, add_right_comm, add_assoc, add_comm, ← u32_add_u32,
    u32_mul_i32, u32_add_u32, hflash, add_comm, ← add_assoc]

-- ======================================================== the decoders

/-- The decoders invert the address of any page number. -/
theorem IntSized.calc_eq (g : IntSized c) {q : Nat} (hq : q < 2 ^ 32) :
    calcFlash c q = flashOf c q ∧ calcBlock c q = blockOf c q
      ∧ calcPage c q = pageOf c q := by
  have hflash : flashOf c q ≤ q :=
    (Nat.div_le_self _ _).trans (Nat.div_le_self _ _)
  have hblock : blockOf c q < c.blockNb := Nat.mod_lt _ g.block
  have hpage : pageOf c q < c.pageNb := Nat.mod_lt _ g.page
  have hb := g.block_lt
  have hp := g.page_lt
  refine ⟨?_, ?_, ?_⟩
  · refine u32_of_lt ?_ (by omega)
    rw [← Int.ofNat_tdiv, ← Int.ofNat_tdiv, flashOf]
  · refine u32_of_lt ?_ (by omega)
    rw [← Int.ofNat_tdiv, ← Int.ofNat_tmod, blockOf]
  · refine u32_of_lt ?_ (by omega)
    rw [← Int.ofNat_tmod, pageOf]

/-- The address comes back from its page number. -/
def Decodes (c : Conf) (f b k : Nat) : Prop :=
  calcFlash c (encodePpn c f b k) = f
    ∧ calcBlock c (encodePpn c f b k) = b
    ∧ calcPage c (encodePpn c f b k) = k

/-- It does just when the page number does not wrap. -/
theorem IntSized.decodes_iff (g : IntSized c) (h : OnDevice c f b k) :
    Decodes c f b k ↔ ppnAt c f b k < 2 ^ 32 := by
  have hlt : encodePpn c f b k < 2 ^ 32 := u32_lt _
  obtain ⟨hf, hb, hk⟩ := g.calc_eq hlt
  unfold Decodes
  rw [hf, hb, hk]
  constructor
  · rintro ⟨hf, hb, hk⟩
    -- a page number is determined by its address
    have hq := ppnAt_of (c := c) (encodePpn c f b k)
    rw [hf, hb, hk] at hq
    rwa [hq]
  · intro hfit
    rw [encodePpn_mod, Nat.mod_eq_of_lt hfit]
    exact ⟨flashOf_ppnAt f h.block h.page, blockOf_ppnAt f h.block h.page,
      pageOf_ppnAt f b h.page⟩

/-- The address of a page of the device. -/
theorem IntSized.onDevice (g : IntSized c) {q : Nat}
    (hq : q < c.pageMappingEntryNb) :
    OnDevice c (flashOf c q) (blockOf c q) (pageOf c q) :=
  ⟨flashOf_lt hq, Nat.mod_lt _ g.block, Nat.mod_lt _ g.page⟩

/-- Page numbers encode addresses faithfully exactly up to `2 ^ 32`
pages, and then one to one; the collector and the page states use the
same encoding. -/
theorem page_numbers_faithful_iff (g : IntSized c) :
    ((∀ f b k, OnDevice c f b k → Decodes c f b k)
      ↔ c.flashNb * c.blockNb * c.pageNb ≤ 2 ^ 32)
    ∧ (c.flashNb * c.blockNb * c.pageNb ≤ 2 ^ 32 →
      Set.BijOn (fun a : Nat × Nat × Nat => encodePpn c a.1 a.2.1 a.2.2)
          {a | OnDevice c a.1 a.2.1 a.2.2} {q | q < c.pageMappingEntryNb}
        ∧ ∀ f b k, OnDevice c f b k →
          addressPpn c f b k = encodePpn c f b k
            ∧ oldPpn c f b k = encodePpn c f b k) := by
  have htotal : c.flashNb * c.blockNb * c.pageNb
      = c.pageMappingEntryNb := by
    unfold Conf.pageMappingEntryNb
    ring
  have hfit : c.pageMappingEntryNb ≤ 2 ^ 32 →
      ∀ f b k, OnDevice c f b k → ppnAt c f b k < 2 ^ 32 :=
    fun hle f b k h =>
      Nat.lt_of_lt_of_le (ppnAt_lt h.flash h.block h.page) hle
  rw [htotal]
  refine ⟨⟨fun hall => ?_, fun hle f b k h => ?_⟩, fun hle => ⟨?_, ?_⟩⟩
  · -- page `2 ^ 32` would have to come back
    by_contra hlt
    have hdev := g.onDevice (q := 2 ^ 32) (by omega)
    have hback := (g.decodes_iff hdev).1 (hall _ _ _ hdev)
    rw [ppnAt_of] at hback
    exact Nat.lt_irrefl _ hback
  · exact (g.decodes_iff h).2 (hfit hle f b k h)
  · have henc : ∀ f b k, OnDevice c f b k →
        encodePpn c f b k = ppnAt c f b k := fun f b k h => by
      rw [encodePpn_mod, Nat.mod_eq_of_lt (hfit hle f b k h)]
    refine ⟨fun a h => ?_, fun a h a' h' he => ?_, fun q hq => ?_⟩
    · show encodePpn c _ _ _ < _
      rw [henc _ _ _ h]
      exact ppnAt_lt h.flash h.block h.page
    · have he : encodePpn c a.1 a.2.1 a.2.2
          = encodePpn c a'.1 a'.2.1 a'.2.2 := he
      obtain ⟨h₁, h₂, h₃⟩ := (g.decodes_iff h).2 (hfit hle _ _ _ h)
      obtain ⟨h₁', h₂', h₃'⟩ := (g.decodes_iff h').2 (hfit hle _ _ _ h')
      rw [he] at h₁ h₂ h₃
      exact Prod.ext (h₁.symm.trans h₁')
        (Prod.ext (h₂.symm.trans h₂') (h₃.symm.trans h₃'))
    · have hdev := g.onDevice hq
      refine ⟨(flashOf c q, blockOf c q, pageOf c q), hdev, ?_⟩
      show encodePpn c _ _ _ = q
      rw [henc _ _ _ hdev, ppnAt_of]
  · exact fun f b k _ => ⟨addressPpn_eq f b k, oldPpn_eq_encodePpn f b k⟩

/-- At exactly `2 ^ 32` pages. -/
theorem page_numbers_faithful_full :
    IntSized (initSsdConfig 4 32768 32768 8)
      ∧ ∀ f b k, OnDevice (initSsdConfig 4 32768 32768 8) f b k →
        Decodes (initSsdConfig 4 32768 32768 8) f b k := by
  have g : IntSized (initSsdConfig 4 32768 32768 8) := by
    constructor <;> decide
  exact ⟨g, (page_numbers_faithful_iff g).1.2 (by decide)⟩

end FemuRemap
