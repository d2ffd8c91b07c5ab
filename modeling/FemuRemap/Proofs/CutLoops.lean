/-
The page cutting loops cut a request into its pages exactly, and all of
them do it alike.

From a sector number that is not negative the differences that the loops
take are those of natural numbers (`cutBody_eq`), so an iteration takes
what is left of its page or of the request, and the next one starts at a
page boundary (`Exact.cons`). `ALLOC_IO_REQUEST` runs along with the
others (`Loops.simulate`), and what it counts, it counts in an `int`.
-/
import FemuRemap.Model.Cutting
import FemuRemap.Proofs.Cutting

namespace FemuRemap.Cutting

open Lib

variable {spp lba remain skip : Nat}

-- ===================================================== specification

/-- The number of pages that the sectors from `lba` on touch. -/
def pageSpan (spp lba length : Nat) : Nat :=
  if length = 0 then 0 else (lba + length - 1) / spp + 1 - lba / spp

/-- Consecutive cuts from `a` to `b`. -/
def Tiles : Int → List Cut → Int → Prop
  | a, [], b => a = b
  | a, x :: l, b => x.lba = a ∧ Tiles (a + x.sects) l b

/-- The cuts of a request: the pages it touches in order, by parts of at
least a sector that tile it and stay within their pages. -/
structure Exact (spp lba length : Nat) (l : List Cut) : Prop where
  lpns : l.map (·.lpn)
    = (List.range' (lba / spp) (pageSpan spp lba length)).map Int.ofNat
  sects : ∀ x ∈ l, 1 ≤ x.sects ∧ x.sects ≤ spp
  tiles : Tiles lba l (lba + length : Nat)
  inside : ∀ x ∈ l,
    x.lpn * spp ≤ x.lba ∧ x.lba + x.sects ≤ (x.lpn + 1) * spp

theorem Exact.length_eq {l : List Cut} (h : Exact spp lba remain l) :
    l.length = pageSpan spp lba remain := by
  have hlen := congrArg List.length h.lpns
  simpa using hlen

theorem exact_nil (spp lba : Nat) : Exact spp lba 0 [] where
  lpns := by simp [pageSpan]
  sects _ hx := nomatch hx
  tiles := rfl
  inside _ hx := nomatch hx

-- ===================================================== one iteration

/-- The source's arithmetic does not wrap on such sizes: the sectors of a
page, -/
theorem sects_eq (hs : skip < spp) (h : spp < 2 ^ 31)
    (hr : remain < 2 ^ 32) :
    sects spp remain skip = min remain (spp - skip) := by
  unfold sects rightSkip u32
  split <;> omega

/-- those to the right of the range, -/
theorem rightSkip_eq (hs : skip < spp) (h : spp < 2 ^ 31) :
    rightSkip spp remain skip
      = if spp - skip < remain then 0 else spp - skip - remain := by
  unfold rightSkip u32
  split <;> split <;> omega

/-- An iteration at a skip within the page. -/
theorem cutBody_eq (hs : skip < spp) (h : spp < 2 ^ 31)
    (hr : remain < 2 ^ 32) (hend : lba + remain < 2 ^ 63)
    (h₀ : 0 < remain) :
    cutBody spp ⟨lba, remain, skip⟩
      = some
        (⟨lba, (lba / spp : Nat), skip, rightSkip spp remain skip,
            min remain (spp - skip)⟩,
          ⟨(lba + min remain (spp - skip) : Nat),
            remain - min remain (spp - skip), 0⟩) := by
  have hlba : i64 ((lba : Int) + (min remain (spp - skip) : Nat))
      = (lba + min remain (spp - skip) : Nat) :=
    i64_of_lt rfl (by omega)
  have hrest : u32 ((remain : Int) - (min remain (spp - skip) : Nat))
      = remain - min remain (spp - skip) :=
    u32_of_lt (by omega) (by omega)
  simp only [cutBody, if_pos h₀, sects_eq hs h hr, hlba, hrest]
  rw [Int.tdiv_eq_ediv_of_nonneg (by omega), ← Int.natCast_ediv]

/-- The last sector of a first part that ends the request is in the page
of the first. -/
theorem pageSpan_last (hspp : 0 < spp) (h₀ : 0 < remain)
    (hle : remain ≤ spp - lba % spp) : pageSpan spp lba remain = 1 := by
  have hdiv := Nat.div_add_mod lba spp
  have hlast : lba + remain - 1
      = spp * (lba / spp) + (lba % spp + remain - 1) := by omega
  rw [pageSpan, if_neg (by omega), hlast, Nat.mul_add_div hspp,
    Nat.div_eq_of_lt (a := lba % spp + remain - 1) (by omega)]
  omega

/-- A first part that does not leaves the pages from the next one on. -/
theorem pageSpan_next (hspp : 0 < spp) (hlt : spp - lba % spp < remain) :
    (lba + (spp - lba % spp)) / spp = lba / spp + 1 ∧
      pageSpan spp lba remain
        = pageSpan spp (lba + (spp - lba % spp))
            (remain - (spp - lba % spp)) + 1 := by
  have hdiv := Nat.div_add_mod lba spp
  have hmod := Nat.mod_lt lba hspp
  have hnext : (lba + (spp - lba % spp)) / spp = lba / spp + 1 := by
    rw [show lba + (spp - lba % spp) = spp * (lba / spp) + spp by omega,
      Nat.mul_add_div hspp, Nat.div_self hspp]
  have hle : lba / spp + 1 ≤ (lba + remain - 1) / spp := by
    rw [← hnext]
    exact Nat.div_le_div_right (by omega)
  refine ⟨hnext, ?_⟩
  rw [pageSpan, if_neg (by omega), pageSpan, if_neg (by omega), hnext,
    show lba + (spp - lba % spp) + (remain - (spp - lba % spp)) - 1
      = lba + remain - 1 by omega]
  omega

/-- The first cut and those of the rest. -/
theorem Exact.cons {n r : Nat} {l : List Cut} (hspp : 0 < spp)
    (h₀ : 0 < remain) (hn : n = min remain (spp - lba % spp))
    (h : Exact spp (lba + n) (remain - n) l) :
    Exact spp lba remain
      (⟨lba, (lba / spp : Nat), lba % spp, r, n⟩ :: l) := by
  have hmod := Nat.mod_lt lba hspp
  have hdiv := Nat.div_add_mod lba spp
  refine ⟨?_, List.forall_mem_cons.2 ⟨?_, h.sects⟩, ⟨rfl, ?_⟩,
    List.forall_mem_cons.2 ⟨⟨?_, ?_⟩, h.inside⟩⟩
  · -- the pages: this one, then none or those from the next one on
    have hl := h.lpns
    by_cases hle : remain ≤ spp - lba % spp
    · obtain rfl : n = remain := by omega
      rw [Nat.sub_self, pageSpan, if_pos rfl] at hl
      rw [pageSpan_last hspp h₀ hle, List.map_cons, hl]
      rfl
    · obtain rfl : n = spp - lba % spp := by omega
      obtain ⟨hnext, hspan⟩ := pageSpan_next hspp (Nat.lt_of_not_le hle)
      rw [hspan, List.range'_succ, List.map_cons, List.map_cons, hl, hnext]
      rfl
  · show 1 ≤ n ∧ n ≤ spp
    omega
  · show Tiles ((lba : Int) + n) l (lba + remain : Nat)
    have htiles := h.tiles
    rw [show lba + n + (remain - n) = lba + remain by omega] at htiles
    exact htiles
  · show ((lba / spp : Nat) : Int) * spp ≤ lba
    exact_mod_cast Nat.div_mul_le_self lba spp
  · have hfit : lba + n ≤ (lba / spp + 1) * spp := by
      rw [Nat.add_one_mul, Nat.mul_comm]
      omega
    show (lba : Int) + n ≤ ((lba / spp : Nat) + 1 : Int) * spp
    exact_mod_cast hfit

-- ========================================================== the runs

/-- The slot of the model that a cut is. -/
def Cut.toSlot (x : Cut) : Slot :=
  ⟨x.lpn.toNat, x.leftSkip, x.rightSkip, x.sects⟩

/-- The loops end, and their cuts are exact and are the slots over which
the model runs them. -/
theorem loops_cutBody (hspp : 0 < spp) (h : spp < 2 ^ 31) (fuel lba : Nat)
    (hf : remain ≤ fuel) (hr : remain < 2 ^ 32)
    (hend : lba + remain < 2 ^ 63) (hs : remain = 0 ∨ skip = lba % spp) :
    ∃ l t, Loops (cutBody spp) ⟨lba, remain, skip⟩ l t
      ∧ Exact spp lba remain l
      ∧ l.map Cut.toSlot = cutPages spp fuel lba remain skip := by
  induction fuel generalizing lba remain skip with
  | zero =>
      obtain rfl : remain = 0 := by omega
      exact ⟨[], _, .stop rfl, exact_nil spp lba, rfl⟩
  | succ fuel ih =>
      rcases Nat.eq_zero_or_pos remain with rfl | h₀
      · exact ⟨[], _, .stop rfl, exact_nil spp lba, by simp [cutPages]⟩
      obtain rfl := hs.resolve_left (Nat.ne_of_gt h₀)
      have hmod := Nat.mod_lt lba hspp
      have hdiv := Nat.div_add_mod lba spp
      generalize hn : min remain (spp - lba % spp) = n
      -- what is left is nothing, or starts at a page boundary
      have hnext : remain - n = 0 ∨ 0 = (lba + n) % spp := by
        by_cases hle : remain ≤ spp - lba % spp
        · exact .inl (by omega)
        · refine .inr ?_
          rw [show lba + n = spp * (lba / spp) + spp by omega,
            Nat.mul_add_mod, Nat.mod_self]
      obtain ⟨l, t, hrun, hexact, hslots⟩ := ih (lba + n)
        (show remain - n ≤ fuel by omega) (by omega) (by omega) hnext
      have hbody := cutBody_eq hmod h hr hend h₀
      rw [hn] at hbody
      refine ⟨_, t, .next hbody hrun, hexact.cons hspp h₀ hn.symm, ?_⟩
      have hsects : spp - lba % spp - rightSkip spp remain (lba % spp)
          = n := by
        rw [rightSkip_eq hmod h]
        split <;> omega
      rw [List.map_cons, hslots, cutPages, if_neg (Nat.ne_of_gt h₀)]
      simp only [← rightSkip_eq hmod h, hsects]
      rfl

/-- and those to its left. -/
theorem firstSkip_eq (h : spp < 2 ^ 31) (lba : Nat) (hspp : 0 < spp) :
    firstSkip spp lba = lba % spp := by
  have hmod := Nat.mod_lt lba hspp
  unfold firstSkip
  rw [Int.tmod_eq_emod_of_nonneg (by omega), ← Int.natCast_emod,
    u32_of_lt rfl (by omega)]

/-- What the slots of a request are. -/
theorem slots_exact (c : Conf) (hspp : 0 < c.sectorsPerPage)
    (h : c.sectorsPerPage < 2 ^ 31) {sectorNb length : Nat}
    (hr : length < 2 ^ 32) (hend : sectorNb + length < 2 ^ 63) :
    ∃ l t,
      Loops (cutBody c.sectorsPerPage)
        (cutStart c.sectorsPerPage sectorNb length) l t
      ∧ Exact c.sectorsPerPage sectorNb length l
      ∧ l.map Cut.toSlot = slots c sectorNb length := by
  unfold cutStart
  rw [firstSkip_eq h sectorNb hspp]
  exact loops_cutBody hspp h length sectorNb (Nat.le_refl _) hr hend
    (.inr rfl)

-- ======================================================= the counter

/-- The locals that `ALLOC_IO_REQUEST` shares with the other loops. -/
def Along (s : Cursor) (u : Counter) : Prop :=
  u.remain = s.remain ∧ u.leftSkip = s.leftSkip

/-- The counting loop ends with the cutting loop, -/
theorem alloc_stop (s : Cursor) (u : Counter) (h : Along s u)
    (hnone : cutBody spp s = none) : allocIoRequestLoop spp u = none := by
  obtain ⟨hr, -⟩ := h
  unfold cutBody at hnone
  unfold allocIoRequestLoop
  split at hnone
  case isTrue => cases hnone
  case isFalse hdone => rw [if_neg (hr ▸ hdone)]

/-- and goes on with it. -/
theorem alloc_next (s : Cursor) (u : Counter) (a : Cut) (s' : Cursor)
    (h : Along s u) (hsome : cutBody spp s = some (a, s')) :
    ∃ u', allocIoRequestLoop spp u = some (a.sects, u') ∧ Along s' u' := by
  obtain ⟨hr, hs⟩ := h
  unfold cutBody at hsome
  unfold allocIoRequestLoop
  split at hsome
  case isTrue hrun =>
    cases hsome
    rw [hr, hs, if_pos hrun]
    exact ⟨_, rfl, rfl, rfl⟩
  case isFalse => cases hsome

/-- Its counter, in an `int`. -/
theorem ioPageNb_eq {s t : Counter} {l : List Nat}
    (h : Loops (allocIoRequestLoop spp) s l t)
    (hs : i32 s.ioPageNb = s.ioPageNb) :
    t.ioPageNb = i32 (s.ioPageNb + l.length) := by
  induction h with
  | stop => simpa using hs.symm
  | next hsome _ ih =>
      unfold allocIoRequestLoop at hsome
      split at hsome
      case isFalse => cases hsome
      case isTrue =>
        cases hsome
        rw [ih (by simp), i32_i32_add,
          List.length_cons]
        congr 1
        push_cast
        ring

/-- The loop of `ALLOC_IO_REQUEST`, over the cuts of the others. -/
theorem loops_alloc (sectorNb : Int) (length : Nat) {t : Cursor}
    {l : List Cut}
    (h : Loops (cutBody spp) (cutStart spp sectorNb length) l t) :
    ∃ v, Loops (allocIoRequestLoop spp) (allocStart spp sectorNb length)
        (l.map (·.sects)) v
      ∧ v.ioPageNb = i32 l.length := by
  have hstart : Along (cutStart spp sectorNb length)
      (allocStart spp sectorNb length) := ⟨rfl, rfl⟩
  obtain ⟨v, hrun, -⟩ :=
    h.simulate (fun x : Cut => x.sects) alloc_stop alloc_next hstart
  refine ⟨v, hrun, (ioPageNb_eq hrun rfl).trans ?_⟩
  rw [List.length_map]
  exact congrArg i32 (Int.zero_add _)

theorem pageSpan_le (hspp : 0 < spp) (lba length : Nat) :
    pageSpan spp lba length ≤ length := by
  unfold pageSpan
  split
  · exact Nat.zero_le _
  · have hlast : (lba + length - 1) / spp ≤ lba / spp + (length - 1) := by
      calc (lba + length - 1) / spp
          ≤ (lba + spp * (length - 1)) / spp := by
            refine Nat.div_le_div_right ?_
            have := Nat.le_mul_of_pos_left (length - 1) hspp
            omega
        _ = lba / spp + (length - 1) := Nat.add_mul_div_left _ _ hspp
    omega

/-- All five loops cut a request exactly, and `io_page_nb` is the number
of their steps just when that is an `int`. -/
theorem cut_exact_iff {spp sectorNb length total : Nat} (hspp : 0 < spp)
    (hint : spp < 2 ^ 31) (hlen : length < 2 ^ 32)
    (hend : sectorNb + length ≤ total) (htotal : total < 2 ^ 63) :
    (∃ l, Exact spp sectorNb length l
        ∧ (∀ body ∈ lbaLoops, ∃ t,
          Loops (body spp) (cutStart spp sectorNb length) l t)
        ∧ ∃ v, Loops (allocIoRequestLoop spp)
            (allocStart spp sectorNb length) (l.map (·.sects)) v
          ∧ v.ioPageNb = l.length)
      ↔ pageSpan spp sectorNb length < 2 ^ 31 := by
  have hspan : pageSpan spp sectorNb length < 2 ^ 32 :=
    Nat.lt_of_le_of_lt (pageSpan_le hspp _ _) hlen
  constructor
  · rintro ⟨l, hexact, -, v, hrun, hv⟩
    have hcount := ioPageNb_eq hrun rfl
    rw [List.length_map, hv] at hcount
    rw [← hexact.length_eq] at hspan ⊢
    refine (i32_natCast_iff hspan).1 (Eq.symm (hcount.trans ?_))
    exact congrArg i32 (Int.zero_add _)
  · intro hlt
    obtain ⟨l, t, hrun, hexact, -⟩ :=
      loops_cutBody hspp hint length sectorNb (Nat.le_refl _) hlen
        (by omega) (.inr (firstSkip_eq hint sectorNb hspp))
    refine ⟨l, hexact, ?_, ?_⟩
    · intro body hbody
      simp only [lbaLoops, List.mem_cons, List.not_mem_nil, or_false] at hbody
      rcases hbody with rfl | rfl | rfl | rfl <;> exact ⟨t, hrun⟩
    · obtain ⟨v, hrun', hv⟩ := loops_alloc sectorNb length hrun
      rw [← hexact.length_eq] at hspan hlt
      exact ⟨v, hrun', hv.trans ((i32_natCast_iff hspan).2 hlt)⟩

/-- Eight sectors a page, and a request that starts and ends within
pages. -/
theorem cut_exact_unaligned :
    ∃ l, Exact 8 5 20 l
      ∧ (∀ body ∈ lbaLoops, ∃ t, Loops (body 8) (cutStart 8 5 20) l t)
      ∧ ∃ v, Loops (allocIoRequestLoop 8) (allocStart 8 5 20)
          (l.map (·.sects)) v
        ∧ v.ioPageNb = l.length :=
  (cut_exact_iff (by decide) (by decide) (by decide)
    (show 5 + 20 ≤ 64 by decide) (by decide)).2 (by decide)

/-- A request of `2 ^ 31` pages: the loops make as many steps, and
`io_page_nb` is negative. -/
theorem ioPageNb_overflows :
    ∃ l, Exact 1 0 (2 ^ 31) l ∧ l.length = 2 ^ 31
      ∧ (∃ t, Loops (ftlWriteLoop 1) (cutStart 1 0 (2 ^ 31)) l t)
      ∧ ∃ v, Loops (allocIoRequestLoop 1) (allocStart 1 0 (2 ^ 31))
          (l.map (·.sects)) v
        ∧ v.ioPageNb = -2 ^ 31 := by
  obtain ⟨l, t, hrun, hexact, -⟩ :=
    loops_cutBody (show 0 < 1 by decide) (by decide) (2 ^ 31) 0
      (Nat.le_refl (2 ^ 31)) (by decide) (by decide)
      (.inr (show 0 = 0 % 1 by decide))
  have hlen : l.length = 2 ^ 31 := hexact.length_eq.trans (by decide)
  obtain ⟨v, hrun', hv⟩ := loops_alloc 0 (2 ^ 31) hrun
  refine ⟨l, hexact, hlen, ⟨t, hrun⟩, v, hrun', hv.trans ?_⟩
  rw [hlen]
  decide

end FemuRemap.Cutting
