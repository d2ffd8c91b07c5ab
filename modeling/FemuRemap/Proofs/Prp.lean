/-
`nvme_map_prp` maps what a driver describes, and nothing else.

The loop over the lists goes on an array, an index and a remaining
length. The invariant is that from the index on the array holds the
entries of the current list, as far as they are needed
(`Filled`); from it follows that no entry is used that was not read, and
that the loop goes along `Listed` entry by entry (`mapList_spec`).
-/
import FemuRemap.Spec.Buffers

namespace FemuRemap.Transfer

open Lib

variable {p : Paging} {m : Memory} {addr i len fuel prp1 prp2 : Nat}
  {list : Nat → Option Nat} {frames pages : List Nat} {segs : List Span}

-- ============================================================== numbers

/-- The page sizes a controller may choose: the smallest, -/
theorem Paging.pageSize_ge (p : Paging) : 4096 ≤ p.pageSize := by
  show 2 ^ 12 ≤ 2 ^ p.pageBits
  exact Nat.pow_le_pow_right Nat.two_pos p.pageBits_ge

/-- and the largest. -/
theorem Paging.pageSize_le (p : Paging) : p.pageSize ≤ 32768 := by
  show 2 ^ p.pageBits ≤ 2 ^ 15
  exact Nat.pow_le_pow_right Nat.two_pos p.pageBits_le

/-- A page full of entries of eight bytes. -/
theorem Paging.eight_mul_maxPrpEnts (p : Paging) :
    8 * p.maxPrpEnts = p.pageSize := by
  refine Nat.mul_div_cancel' ?_
  show 2 ^ 3 ∣ 2 ^ p.pageBits
  have := p.pageBits_ge
  exact Nat.pow_dvd_pow 2 (by omega)

/-- A list page has an entry and a link. -/
theorem Paging.maxPrpEnts_ge (p : Paging) : 2 ≤ p.maxPrpEnts := by
  have := p.eight_mul_maxPrpEnts
  have := p.pageSize_ge
  omega

@[simp] theorem Paging.pages_zero (p : Paging) : p.pages 0 = 0 := by
  have := p.pageSize_ge
  rw [Paging.pages, Nat.zero_add]
  exact Nat.div_eq_of_lt (by omega)

/-- One page, and those of the rest. -/
theorem Paging.pages_succ (p : Paging) (h : 0 < len) :
    p.pages len = p.pages (len - min len p.pageSize) + 1 := by
  have hpos := p.pageSize_ge
  rcases Nat.lt_or_ge p.pageSize len with hlt | hge
  · rw [Nat.min_eq_right (Nat.le_of_lt hlt), Paging.pages, Paging.pages,
      ← Nat.add_div_right _ (by omega : 0 < p.pageSize)]
    congr 1
    omega
  · rw [Nat.min_eq_left hge, Nat.sub_self, p.pages_zero, Paging.pages]
    exact Nat.div_eq_of_lt_le (by omega) (by omega)

theorem Paging.pages_eq_zero_iff (p : Paging) : p.pages len = 0 ↔ len = 0 := by
  rcases Nat.eq_zero_or_pos len with rfl | hpos
  · simp
  · rw [p.pages_succ hpos]
    omega

/-- More than one page is needed when a page is still missing after the
first. -/
theorem Paging.pageSize_lt_iff (p : Paging) :
    p.pageSize < len ↔ p.pages (len - min len p.pageSize) ≠ 0 := by
  rw [ne_eq, p.pages_eq_zero_iff]
  omega

/-- The source's rounding does not wrap. -/
theorem nents_eq (h : len + p.pageSize ≤ 2 ^ 32) :
    nents p len = p.pages len := by
  have := p.pageSize_ge
  rw [nents, u32_of_lt rfl (by omega), Paging.pages]

-- ============================================================== the list

/-- The entries that were asked for are read. -/
theorem readList_eq (h : len + p.pageSize ≤ 2 ^ 32)
    (hi : i < min p.maxPrpEnts (p.pages len)) :
    readList p m addr len list i = some (word m addr i) := by
  rw [readList, nents_eq h]
  dsimp only
  rw [if_pos hi, nvmeAddrRead, word]
  cases m.cmbAt addr with
  | none => exact congrArg (some ∘ leWord) (load_part (by omega))
  | some c => exact congrArg (some ∘ leWord) (load_part (by omega))

/-- From entry `i` on, the array holds the list at `addr`, as far as `len`
bytes need it. -/
def Filled (p : Paging) (m : Memory) (addr i len : Nat)
    (list : Nat → Option Nat) : Prop :=
  ∀ j, i ≤ j → j < min p.maxPrpEnts (i + p.pages len) →
    list j = some (word m addr j)

/-- So a list that was just read is filled from its start. -/
theorem Filled.readList (h : len + p.pageSize ≤ 2 ^ 32) :
    Filled p m addr 0 len (readList p m addr len list) := by
  intro j _ hj
  rw [Nat.zero_add] at hj
  exact readList_eq h hj

/-- The entry at hand is in the list. -/
theorem Filled.here (h : Filled p m addr i len list)
    (hi : i < p.maxPrpEnts) (hlen : 0 < len) :
    list i = some (word m addr i) := by
  refine h i (Nat.le_refl i) ?_
  rw [p.pages_succ hlen]
  omega

theorem Filled.succ (h : Filled p m addr i len list) (hlen : 0 < len) :
    Filled p m addr (i + 1) (len - min len p.pageSize) list := by
  intro j hj hlt
  refine h j (by omega) ?_
  rw [p.pages_succ hlen]
  omega

section Guarded

variable {P : Prop} [Decidable P] {x : Except Fault (Option (List Span))}
  {s : Span} {ss : List Span}

/-- An entry that passes a check, and what is mapped behind it. -/
def guarded (P : Prop) [Decidable P] (s : Span)
    (x : Except Fault (Option (List Span))) :
    Except Fault (Option (List Span)) :=
  if P then x.map (·.map (s :: ·)) else .ok none

/-- A check in front of a computation that returns returns too. -/
theorem guarded_ok (h : ∃ r, x = .ok r) : ∃ r, guarded P s x = .ok r := by
  obtain ⟨r, rfl⟩ := h
  unfold guarded
  split
  · exact ⟨_, rfl⟩
  · exact ⟨_, rfl⟩

/-- It yields a value when the check passes and the rest does. -/
theorem guarded_some_iff : guarded P s x = .ok (some ss)
    ↔ P ∧ ∃ ts, x = .ok (some ts) ∧ ss = s :: ts := by
  unfold guarded
  split
  case isFalse hP => exact iff_of_false nofun fun h => hP h.1
  case isTrue hP =>
    rw [map_ok_iff]
    constructor
    · intro h
      obtain ⟨o, hx, ho⟩ := h
      obtain ⟨ts, rfl, rfl⟩ := Option.map_eq_some_iff.1 ho
      exact ⟨hP, ts, hx, rfl⟩
    · intro h
      obtain ⟨-, ts, hx, rfl⟩ := h
      exact ⟨some ts, hx, rfl⟩

end Guarded

/-- An iteration that uses the entry at the index. -/
theorem mapList_here {ent : Nat} (hlen : len ≠ 0) (hent : list i = some ent)
    (hhere : ¬ (i = p.maxPrpEnts - 1 ∧ p.pageSize < len)) :
    mapList p m (fuel + 1) list i len =
      guarded (p.Page ent) ⟨ent, min len p.pageSize⟩
        (mapList p m fuel list (i + 1) (len - min len p.pageSize)) := by
  rw [mapList, if_neg hlen, nextEnt, hent]
  dsimp only
  rw [if_neg hhere]
  rfl

/-- An iteration that goes on to the next list. -/
theorem mapList_next {ent page : Nat} (hlen : len ≠ 0)
    (hent : list i = some ent)
    (hnext : i = p.maxPrpEnts - 1 ∧ p.pageSize < len)
    (hpage : readList p m ent len list 0 = some page) :
    mapList p m (fuel + 1) list i len =
      guarded (p.Page ent ∧ p.Page page) ⟨page, min len p.pageSize⟩
        (mapList p m fuel (readList p m ent len list) 1
          (len - min len p.pageSize)) := by
  rw [mapList, if_neg hlen, nextEnt, hent]
  dsimp only
  rw [if_pos hnext, guarded]
  by_cases hP : p.Page ent
  · rw [if_pos hP, hpage]
    simp only [hP, true_and]
  · rw [if_neg hP, if_neg fun h => hP h.1]

/-- A page named by the entry at hand, -/
theorem listed_here {page : Nat}
    (hhere : ¬ (i + 1 = p.maxPrpEnts ∧ pages ≠ [])) :
    Listed p m addr i frames (page :: pages) ↔
      word m addr i = page ∧ p.Page page ∧
        Listed p m addr (i + 1) frames pages := by
  rw [Listed, if_neg hhere]

/-- or, at the last entry of a full list page, by the first entry of the next
list page. -/
theorem listed_next {page : Nat}
    (hnext : i + 1 = p.maxPrpEnts ∧ pages ≠ []) :
    Listed p m addr i frames (page :: pages) ↔
      ∃ frame rest, frames = frame :: rest ∧ word m addr i = frame ∧
        p.Page frame ∧ word m frame 0 = page ∧ p.Page page ∧
        Listed p m frame 1 rest pages := by
  rw [Listed, if_pos hnext]

/-- The first of the pages, and whether there are more. -/
theorem Paging.pages_split (p : Paging) (hlen : 0 < len)
    (h : pages.length = p.pages len) :
    ∃ page rest, pages = page :: rest ∧
      rest.length = p.pages (len - min len p.pageSize) := by
  rw [p.pages_succ hlen] at h
  cases pages with
  | nil => cases h
  | cons page rest => exact ⟨page, rest, rfl, Nat.succ.inj h⟩

/-- Whether pages remain is a comparison of lengths. -/
theorem Paging.rest_ne_nil_iff (p : Paging)
    (h : pages.length = p.pages (len - min len p.pageSize)) :
    pages ≠ [] ↔ p.pageSize < len := by
  rw [p.pageSize_lt_iff, ← h, ne_eq, ne_eq, List.length_eq_zero_iff]

/-- The parts that the list describes from entry `i` on. -/
def ListMaps (p : Paging) (m : Memory) (addr i len : Nat)
    (segs : List Span) : Prop :=
  ∃ frames pages, pages.length = p.pages len ∧
    Listed p m addr i frames pages ∧ segs = pageSpans p len pages

theorem listMaps_zero {segs : List Span} :
    ListMaps p m addr i 0 segs ↔ segs = [] := by
  constructor
  · intro h
    obtain ⟨frames, pages, hcount, -, rfl⟩ := h
    rw [p.pages_zero, List.length_eq_zero_iff] at hcount
    rw [hcount, pageSpans]
  · intro h
    exact ⟨[], [], p.pages_zero.symm, rfl, h⟩

/-- The same two cases for the segments: an entry at hand, -/
theorem listMaps_here {segs : List Span} (hpos : 0 < len)
    (hhere : ¬ (i + 1 = p.maxPrpEnts ∧ p.pageSize < len)) :
    ListMaps p m addr i len segs ↔ p.Page (word m addr i) ∧
      ∃ ts, ListMaps p m addr (i + 1) (len - min len p.pageSize) ts ∧
        segs = ⟨word m addr i, min len p.pageSize⟩ :: ts := by
  constructor
  · intro h
    obtain ⟨frames, pages, hpages, hlisted, rfl⟩ := h
    obtain ⟨page, pages, rfl, hrest⟩ := p.pages_split hpos hpages
    rw [← p.rest_ne_nil_iff hrest] at hhere
    obtain ⟨rfl, hpage, hlisted⟩ := (listed_here hhere).1 hlisted
    exact ⟨hpage, _, ⟨frames, pages, hrest, hlisted, rfl⟩, rfl⟩
  · intro h
    obtain ⟨hpage, ts, ⟨frames, pages, hpages, hlisted, rfl⟩, rfl⟩ := h
    rw [← p.rest_ne_nil_iff hpages] at hhere
    refine ⟨frames, word m addr i :: pages, ?_, ?_, rfl⟩
    · rw [List.length_cons, hpages, p.pages_succ hpos]
    · exact (listed_here hhere).2 ⟨rfl, hpage, hlisted⟩

/-- and a link to the next list page. -/
theorem listMaps_next {segs : List Span} (hpos : 0 < len)
    (hnext : i + 1 = p.maxPrpEnts ∧ p.pageSize < len) :
    ListMaps p m addr i len segs ↔
      (p.Page (word m addr i) ∧ p.Page (word m (word m addr i) 0)) ∧
      ∃ ts, ListMaps p m (word m addr i) 1 (len - min len p.pageSize) ts ∧
        segs = ⟨word m (word m addr i) 0, min len p.pageSize⟩ :: ts := by
  constructor
  · intro h
    obtain ⟨frames, pages, hpages, hlisted, rfl⟩ := h
    obtain ⟨page, pages, rfl, hrest⟩ := p.pages_split hpos hpages
    rw [← p.rest_ne_nil_iff hrest] at hnext
    obtain ⟨_, rest, -, rfl, hframe, rfl, hpage, hlisted⟩ :=
      (listed_next hnext).1 hlisted
    exact ⟨⟨hframe, hpage⟩, _, ⟨rest, pages, hrest, hlisted, rfl⟩, rfl⟩
  · intro h
    obtain ⟨⟨hframe, hpage⟩, ts, ⟨rest, pages, hpages, hlisted, rfl⟩, rfl⟩ :=
      h
    rw [← p.rest_ne_nil_iff hpages] at hnext
    refine ⟨word m addr i :: rest, word m (word m addr i) 0 :: pages, ?_, ?_,
      rfl⟩
    · rw [List.length_cons, hpages, p.pages_succ hpos]
    · exact (listed_next hnext).2
        ⟨_, rest, rfl, rfl, hframe, rfl, hpage, hlisted⟩

/-- The loop comes to an end, and maps what is listed. -/
theorem mapList_spec (hlen : len + p.pageSize ≤ 2 ^ 32) (hfuel : len < fuel)
    (hi : len ≠ 0 → i < p.maxPrpEnts) (hlist : Filled p m addr i len list) :
    (∃ r, mapList p m fuel list i len = .ok r) ∧
      ∀ segs, mapList p m fuel list i len = .ok (some segs) ↔
        ListMaps p m addr i len segs := by
  induction fuel generalizing addr i len list with
  | zero => omega
  | succ fuel ih =>
      have hsize := p.pageSize_ge
      have hmax := p.maxPrpEnts_ge
      by_cases hzero : len = 0
      · subst hzero
        rw [mapList, if_pos rfl]
        refine ⟨⟨_, rfl⟩, fun segs => ?_⟩
        rw [listMaps_zero, Except.ok.injEq, Option.some.injEq]
        exact eq_comm
      · have hpos := Nat.pos_of_ne_zero hzero
        have hent := hlist.here (hi hzero) hpos
        by_cases hchain : i = p.maxPrpEnts - 1 ∧ p.pageSize < len
        · -- the entry leads to the next list
          have hcount := p.pages_succ hpos
          have hread : readList p m (word m addr i) len list 0
              = some (word m (word m addr i) 0) :=
            readList_eq hlen (by omega)
          obtain ⟨hok, hiff⟩ := ih (by omega) (by omega) (by omega)
            ((Filled.readList (m := m) hlen).succ hpos)
          rw [mapList_next hzero hent hchain hread]
          refine ⟨guarded_ok hok, fun segs => ?_⟩
          have hnext : i + 1 = p.maxPrpEnts := by omega
          rw [guarded_some_iff, listMaps_next hpos ⟨hnext, hchain.2⟩]
          simp only [hiff]
        · obtain ⟨hok, hiff⟩ := ih (by omega) (by omega) (by omega)
            (hlist.succ hpos)
          rw [mapList_here hzero hent hchain]
          refine ⟨guarded_ok hok, fun segs => ?_⟩
          have hhere : ¬ (i + 1 = p.maxPrpEnts ∧ p.pageSize < len) := by omega
          rw [guarded_some_iff, listMaps_here hpos hhere]
          simp only [hiff]

-- ========================================================= the mapping

/-- The loop of the source from its first call, with a list that was just read
and fuel for every byte. -/
theorem mapList_start (m : Memory) (addr len : Nat)
    (hlen : len + p.pageSize ≤ 2 ^ 32) :
    (∃ r, mapList p m (len + 1) (readList p m addr len fun _ => none) 0 len
        = .ok r) ∧
      ∀ segs, mapList p m (len + 1) (readList p m addr len fun _ => none) 0
          len = .ok (some segs) ↔ ListMaps p m addr 0 len segs := by
  have hmax := p.maxPrpEnts_ge
  exact mapList_spec hlen (Nat.lt_succ_self len) (fun _ => by omega)
    (.readList hlen)

/-- Whatever the entries are and wherever they lie, `nvme_map_prp` comes
to an end and uses no entry that it has not read. -/
theorem nvmeMapPrp_ok (hlen : len + p.pageSize ≤ 2 ^ 32) (prp1 prp2 : Nat) :
    ∃ r, nvmeMapPrp p m prp1 prp2 len = .ok r := by
  unfold nvmeMapPrp
  dsimp only
  split
  · exact ⟨_, rfl⟩
  · split
    · exact ⟨_, rfl⟩
    · split
      · exact ⟨_, rfl⟩
      · split
        · obtain ⟨⟨r, hr⟩, -⟩ := mapList_start (p := p) m prp2
            (len - min len (p.pageSize - prp1 % p.pageSize)) (by omega)
          rw [hr]
          exact ⟨_, rfl⟩
        · split
          · exact ⟨_, rfl⟩
          · exact ⟨_, rfl⟩

/-- A transfer within the first page has no other. -/
theorem Describes.pages_eq (h : Describes p m prp1 prp2 len pages)
    (hrest : len - firstLen p prp1 len = 0) : pages = [] := by
  have := h.count
  rwa [hrest, p.pages_zero, List.length_eq_zero_iff] at this

/-- A buffer within the page of the first entry. -/
theorem describes_nil_iff (hrest : len - firstLen p prp1 len = 0) :
    Describes p m prp1 prp2 len pages ↔ prp1 ≠ 0 ∧ pages = [] := by
  constructor
  · intro h
    exact ⟨h.first, h.pages_eq hrest⟩
  · intro h
    obtain ⟨hprp1, rfl⟩ := h
    refine ⟨hprp1, ?_, nofun, nofun, nofun⟩
    rw [hrest, p.pages_zero, List.length_nil]

/-- A buffer that needs one more page. -/
theorem describes_single_iff
    (hone : p.pages (len - firstLen p prp1 len) = 1) :
    Describes p m prp1 prp2 len pages ↔
      prp1 ≠ 0 ∧ p.Page prp2 ∧ pages = [prp2] := by
  constructor
  · intro h
    obtain ⟨hpages, hpage⟩ := h.single (h.count.trans hone)
    exact ⟨h.first, hpage, hpages⟩
  · intro h
    obtain ⟨hprp1, hpage, rfl⟩ := h
    exact ⟨hprp1, hone.symm, fun _ => hpage.1, fun _ => ⟨rfl, hpage⟩,
      fun h => absurd h (by simp)⟩

/-- A buffer that needs a list. -/
theorem describes_list_iff
    (hmany : 2 ≤ p.pages (len - firstLen p prp1 len)) :
    Describes p m prp1 prp2 len pages ↔ prp1 ≠ 0 ∧ prp2 ≠ 0 ∧
      pages.length = p.pages (len - firstLen p prp1 len) ∧
      ∃ frames, Listed p m prp2 0 frames pages := by
  constructor
  · intro h
    have hcount := h.count
    refine ⟨h.first, h.second ?_, hcount, h.list (by omega)⟩
    rintro rfl
    rw [List.length_nil] at hcount
    omega
  · intro h
    obtain ⟨hprp1, hprp2, hcount, hlisted⟩ := h
    exact ⟨hprp1, hcount, fun _ => hprp2, by omega, fun _ => hlisted⟩

/-- It maps what the entries describe, if they do not point to the
controller memory buffer. -/
theorem nvmeMapPrp_some_iff (hlen : len + p.pageSize ≤ 2 ^ 32)
    (hcmb : m.cmbAt prp1 = none) {mapping : Mapping} :
    nvmeMapPrp p m prp1 prp2 len = .ok (some mapping) ↔
      ∃ pages, Describes p m prp1 prp2 len pages ∧
        mapping = ⟨false, spans p prp1 len pages⟩ := by
  have hle : firstLen p prp1 len ≤ len := Nat.min_le_left _ _
  unfold nvmeMapPrp
  rw [hcmb]
  dsimp only
  rw [← firstLen]
  by_cases hprp1 : prp1 = 0
  · rw [if_pos hprp1]
    exact iff_of_false nofun fun ⟨_, h, _⟩ => h.first hprp1
  · rw [if_neg hprp1]
    by_cases hrest : len - firstLen p prp1 len = 0
    · rw [if_pos hrest]
      simp only [describes_nil_iff hrest]
      constructor
      · intro h
        cases h
        exact ⟨[], ⟨hprp1, rfl⟩, rfl⟩
      · intro h
        obtain ⟨_, ⟨-, rfl⟩, rfl⟩ := h
        rfl
    · rw [if_neg hrest]
      have hcount := p.pages_succ (Nat.pos_of_ne_zero hrest)
      have hmore : p.pageSize < len - firstLen p prp1 len ↔ _ :=
        p.pageSize_lt_iff
      -- the rest is on `prp2` alone, or `prp2` is a list
      by_cases hlist : p.pageSize < len - firstLen p prp1 len
      · have hmany : 2 ≤ p.pages (len - firstLen p prp1 len) := by omega
        have hmap := (mapList_start (p := p) m prp2
          (len - firstLen p prp1 len) (by omega)).2
        simp only [describes_list_iff hmany]
        by_cases hprp2 : prp2 = 0
        · rw [if_pos hprp2]
          exact iff_of_false nofun fun ⟨_, h, _⟩ => h.2.1 hprp2
        · rw [if_neg hprp2, if_pos hlist, map_ok_iff]
          constructor
          · intro h
            obtain ⟨r, hr, hsome⟩ := h
            obtain ⟨segs, rfl, rfl⟩ := Option.map_eq_some_iff.1 hsome
            obtain ⟨frames, pages, hpages, hlisted, rfl⟩ := (hmap segs).1 hr
            exact ⟨pages, ⟨hprp1, hprp2, hpages, frames, hlisted⟩, rfl⟩
          · intro h
            obtain ⟨pages, ⟨-, -, hpages, frames, hlisted⟩, rfl⟩ := h
            exact ⟨_, (hmap _).2 ⟨frames, pages, hpages, hlisted, rfl⟩, rfl⟩
      · have hone : p.pages (len - firstLen p prp1 len) = 1 := by
          rw [hcount, Decidable.not_not.1 (hmore.not.1 hlist)]
        have hspans : spans p prp1 len [prp2]
            = [⟨prp1, firstLen p prp1 len⟩,
              ⟨prp2, len - firstLen p prp1 len⟩] := by
          rw [spans, pageSpans, pageSpans,
            Nat.min_eq_left (Nat.not_lt.1 hlist)]
        simp only [describes_single_iff hone]
        by_cases hpage : p.Page prp2
        · rw [if_neg hpage.1, if_neg hlist, if_neg fun h => h hpage.2]
          constructor
          · intro h
            cases h
            exact ⟨[prp2], ⟨hprp1, hpage, rfl⟩, by rw [hspans]; rfl⟩
          · intro h
            obtain ⟨_, ⟨-, -, rfl⟩, rfl⟩ := h
            rw [hspans]
            rfl
        · refine iff_of_false (fun h => ?_) fun ⟨_, h, _⟩ => hpage h.2.1
          by_cases hprp2 : prp2 = 0
          · rw [if_pos hprp2] at h
            cases h
          · rw [if_neg hprp2, if_neg hlist,
              if_pos fun heq => hpage ⟨hprp2, heq⟩] at h
            cases h

/-- The spans of the pages add up to the length. -/
theorem total_pageSpans (h : pages.length = p.pages len) :
    total (pageSpans p len pages) = len := by
  induction pages generalizing len with
  | nil => exact (p.pages_eq_zero_iff.1 h.symm).symm
  | cons page pages ih =>
      have hpos : 0 < len := by
        refine Nat.pos_of_ne_zero fun hzero => ?_
        rw [hzero, p.pages_zero] at h
        cases h
      rw [p.pages_succ hpos, List.length_cons] at h
      rw [pageSpans, total_cons, ih (Nat.succ.inj h)]
      dsimp only
      omega

/-- The parts of the buffer have its length. -/
theorem Describes.total_spans (h : Describes p m prp1 prp2 len pages) :
    total (spans p prp1 len pages) = len := by
  have hle : firstLen p prp1 len ≤ len := Nat.min_le_left _ _
  rw [spans, total_cons, total_pageSpans h.count]
  dsimp only
  omega

-- ============================================================ the driver

section Driver

variable {guest guest' : Bytes} {cmb : Option Cmb} {a b j w : Nat}

/-- Two pages are the same or have no byte in common. -/
theorem Paging.Page.apart (ha : p.Page a) (hb : p.Page b) (h : a ≠ b) :
    a + p.pageSize ≤ b ∨ b + p.pageSize ≤ a := by
  have ha' := Nat.dvd_of_mod_eq_zero ha.2
  have hb' := Nat.dvd_of_mod_eq_zero hb.2
  rcases Nat.lt_or_gt_of_ne h with hlt | hgt
  · have := Nat.le_of_dvd (by omega) (Nat.dvd_sub hb' ha')
    omega
  · have := Nat.le_of_dvd (by omega) (Nat.dvd_sub ha' hb')
    omega

/-- The lists are not in the controller memory buffer. -/
def Outside (cmb : Option Cmb) (addr : Nat) : Prop :=
  ∀ guest, (Memory.mk guest cmb).cmbAt addr = none

/-- Away from the controller's memory, an entry is read from the guest. -/
theorem Outside.word_eq (h : Outside cmb addr) :
    word ⟨guest, cmb⟩ addr i = leWord (load guest (addr + 8 * i) 8) := by
  rw [word, h]

/-- And what was written there is read back. -/
theorem Outside.word_putWord (h : Outside cmb addr) (hw : w < 2 ^ 64) :
    word ⟨putWord guest addr i w, cmb⟩ addr i = w := by
  have hself : load (store guest (addr + 8 * i) (leBytes 8 w)) (addr + 8 * i)
      (leBytes 8 w).length = leBytes 8 w := load_store_self
  rw [length_leBytes] at hself
  rw [h.word_eq, putWord, hself]
  exact leWord_leBytes hw

/-- The bytes of the list from entry `i` on, and of the further lists. -/
def Touches (p : Paging) (addr i : Nat) (frames : List Nat) (x : Nat) :
    Prop :=
  addr + 8 * i ≤ x ∧ x < addr + p.pageSize ∨
    ∃ frame ∈ frames, frame ≤ x ∧ x < frame + p.pageSize

/-- The next entry is on this page, or there is none. -/
theorem index_succ (hi : i < p.maxPrpEnts)
    (hhere : ¬ (i + 1 = p.maxPrpEnts ∧ pages ≠ [])) :
    i + 1 < p.maxPrpEnts ∨ pages = [] := by
  by_cases hnil : pages = []
  · exact .inr hnil
  · exact .inl (Nat.lt_of_le_of_ne hi fun h => hhere ⟨h, hnil⟩)

/-- Only the bytes of the lists matter. -/
theorem Listed.congr (h : Listed p ⟨guest, cmb⟩ addr i frames pages)
    (hi : i < p.maxPrpEnts ∨ pages = []) (hcmb : Outside cmb addr)
    (hframes : ∀ frame ∈ frames, Outside cmb frame)
    (hsame : ∀ x, Touches p addr i frames x → guest' x = guest x) :
    Listed p ⟨guest', cmb⟩ addr i frames pages := by
  induction pages generalizing addr i frames with
  | nil => exact h
  | cons page pages ih =>
      have hi : i < p.maxPrpEnts := hi.resolve_right nofun
      have hmax := p.eight_mul_maxPrpEnts
      have hword : word ⟨guest', cmb⟩ addr i = word ⟨guest, cmb⟩ addr i := by
        rw [hcmb.word_eq, hcmb.word_eq]
        refine congrArg leWord (load_congr fun k hk => hsame _ (.inl ?_))
        omega
      -- the last entry of a full list page is read as a link
      by_cases hnext : i + 1 = p.maxPrpEnts ∧ pages ≠ []
      · obtain ⟨frame, rest, rfl, haddr, hframe, hfirst, hpage, hrest⟩ :=
          (listed_next hnext).1 h
        have hout := hframes frame List.mem_cons_self
        refine (listed_next hnext).2 ⟨frame, rest, rfl, hword.trans haddr,
          hframe, ?_, hpage, ?_⟩
        · rw [← hfirst, hout.word_eq, hout.word_eq]
          refine congrArg leWord (load_congr fun k hk => hsame _ (.inr ?_))
          exact ⟨frame, List.mem_cons_self, by omega, by omega⟩
        · refine ih hrest (.inl p.maxPrpEnts_ge) hout
            (fun f hf => hframes f (List.mem_cons_of_mem _ hf))
            fun x hx => hsame x (.inr ?_)
          rcases hx with hx | ⟨f, hf, hx⟩
          · exact ⟨frame, List.mem_cons_self, by omega, by omega⟩
          · exact ⟨f, List.mem_cons_of_mem _ hf, hx⟩
      · obtain ⟨haddr, hpage, hrest⟩ := (listed_here hnext).1 h
        refine (listed_here hnext).2 ⟨hword.trans haddr, hpage, ?_⟩
        refine ih hrest ?_ hcmb hframes fun x hx => hsame x ?_
        · exact index_succ hi hnext
        · rcases hx with hx | hx
          · exact .inl (by omega)
          · exact .inr hx

/-- A word that is written elsewhere. -/
theorem Outside.word_putWord_ne (h : Outside cmb a)
    (hne : a + 8 * j + 8 ≤ addr + 8 * i ∨ addr + 8 * i + 8 ≤ a + 8 * j) :
    word ⟨putWord guest addr i w, cmb⟩ a j = word ⟨guest, cmb⟩ a j := by
  rw [h.word_eq, h.word_eq, putWord, load_store_out (by rwa [length_leBytes])]

/-- A word changes its own eight bytes. -/
theorem putWord_out {x : Nat}
    (h : x < addr + 8 * i ∨ addr + 8 * i + 8 ≤ x) :
    putWord guest addr i w x = guest x := by
  refine store_out ?_
  rwa [length_leBytes]

/-- Writing a word below the entries of a list, or off its pages, keeps the
list. -/
theorem Listed.putWord (h : Listed p ⟨guest, cmb⟩ a j frames pages)
    (hj : j < p.maxPrpEnts ∨ pages = [])
    (hcmb : ∀ frame ∈ a :: frames, Outside cmb frame)
    (hhere : addr + 8 * i + 8 ≤ a + 8 * j ∨ a + p.pageSize ≤ addr + 8 * i)
    (hframes : ∀ frame ∈ frames, addr + 8 * i + 8 ≤ frame ∨
      frame + p.pageSize ≤ addr + 8 * i) :
    Listed p ⟨putWord guest addr i w, cmb⟩ a j frames pages := by
  refine h.congr hj (hcmb a List.mem_cons_self)
    (fun f hf => hcmb f (List.mem_cons_of_mem _ hf)) fun x hx => ?_
  apply putWord_out
  rcases hx with hx | ⟨frame, hmem, hx⟩
  · omega
  · have := hframes frame hmem
    omega

/-- The list is written from its end, so that a later word never covers an
earlier one. -/
theorem writeList_here {page : Nat}
    (hhere : ¬ (i + 1 = p.maxPrpEnts ∧ pages ≠ [])) :
    writeList p guest addr i frames (page :: pages)
      = putWord (writeList p guest addr (i + 1) frames pages) addr i page := by
  cases frames with
  | nil => rw [writeList, if_neg hhere]
  | cons => rw [writeList, if_neg hhere]

/-- How many further lists are needed for so many entries. -/
def Paging.lists (p : Paging) (count : Nat) : Nat :=
  (count - 2) / (p.maxPrpEnts - 1)

theorem Paging.lists_next (p : Paging) (hi : i + 1 = p.maxPrpEnts)
    (hj : 0 < j) : p.lists (i + (j + 1)) = p.lists (1 + j) + 1 := by
  have := p.maxPrpEnts_ge
  rw [Paging.lists, Paging.lists, ← Nat.add_div_right _ (by omega)]
  congr 1
  omega

/-- Where a driver may put a list. -/
structure Frame (p : Paging) (cmb : Option Cmb) (addr : Nat) : Prop where
  page : p.Page addr
  lt : addr < 2 ^ 64
  outside : Outside cmb addr

/-- Where it puts the first list and those after it. -/
structure Frames (p : Paging) (cmb : Option Cmb) (frames : List Nat) :
    Prop where
  frame : ∀ addr ∈ frames, Frame p cmb addr
  nodup : frames.Nodup

theorem Frames.tail (h : Frames p cmb (addr :: frames)) :
    Frames p cmb frames :=
  ⟨fun f hf => h.frame f (List.mem_cons_of_mem _ hf), h.nodup.of_cons⟩

theorem Frames.head (h : Frames p cmb (addr :: frames)) : Frame p cmb addr :=
  h.frame addr List.mem_cons_self

/-- Distinct list pages do not overlap. -/
theorem Frames.apart (h : Frames p cmb (addr :: frames)) (hb : b ∈ frames) :
    addr + p.pageSize ≤ b ∨ b + p.pageSize ≤ addr := by
  refine h.head.page.apart (h.tail.frame b hb).page fun heq => ?_
  rw [heq] at h
  exact (List.nodup_cons.1 h.nodup).1 hb

/-- A driver with enough room for the lists lists the pages. -/
theorem writeList_listed (guest : Bytes)
    (hpages : ∀ page ∈ pages, p.Page page ∧ page < 2 ^ 64)
    (hframes : Frames p cmb (addr :: frames))
    (hi : i < p.maxPrpEnts ∨ pages = [])
    (hroom : p.lists (i + pages.length) ≤ frames.length) :
    ∃ used, used ⊆ frames ∧
      Listed p ⟨writeList p guest addr i frames pages, cmb⟩ addr i used
        pages := by
  induction pages generalizing addr i frames with
  | nil => exact ⟨[], List.nil_subset _, rfl⟩
  | cons page pages ih =>
      have hi : i < p.maxPrpEnts := hi.resolve_right nofun
      have hmax := p.eight_mul_maxPrpEnts
      have hge := p.maxPrpEnts_ge
      obtain ⟨hpage, hrest⟩ := List.forall_mem_cons.1 hpages
      rw [List.length_cons] at hroom
      by_cases hnext : i + 1 = p.maxPrpEnts ∧ pages ≠ []
      · rw [p.lists_next hnext.1 (List.length_pos_iff.2 hnext.2)] at hroom
        cases frames with
        | nil => exact absurd hroom (Nat.not_succ_le_zero _)
        | cons frame frames =>
            obtain ⟨used, hused, hlisted⟩ := ih hrest hframes.tail (.inl hge)
              (Nat.le_of_succ_le_succ hroom)
            have hframe := hframes.tail.head
            have hapart := hframes.apart List.mem_cons_self
            have hout : ∀ f ∈ frame :: used, Outside cmb f := fun f hf =>
              (hframes.tail.frame f
                (List.cons_subset_cons frame hused hf)).outside
            refine ⟨frame :: used, List.cons_subset_cons frame hused, ?_⟩
            rw [writeList, if_pos hnext]
            refine (listed_next hnext).2 ⟨frame, used, rfl,
              hframes.head.outside.word_putWord hframe.lt, hframe.page, ?_,
              hpage.1, ?_⟩
            · rw [hframe.outside.word_putWord_ne (by omega)]
              exact hframe.outside.word_putWord hpage.2
            · -- neither word is in the rest of the new list or behind it
              refine (hlisted.putWord (.inl hge) hout (by omega)
                fun f hf => ?_).putWord (.inl hge) hout (by omega)
                fun f hf => ?_
              · have := hframes.tail.apart (hused hf)
                omega
              · have := hframes.apart (List.mem_cons_of_mem _ (hused hf))
                omega
      · have hsucc := index_succ hi hnext
        obtain ⟨used, hused, hlisted⟩ := ih hrest hframes hsucc
          (by rwa [Nat.add_right_comm])
        refine ⟨used, hused, ?_⟩
        rw [writeList_here hnext]
        refine (listed_here hnext).2
          ⟨hframes.head.outside.word_putWord hpage.2, hpage.1, ?_⟩
        refine hlisted.putWord hsucc ?_ (by omega) fun f hf => ?_
        · exact fun f hf => (hframes.frame f
            (List.cons_subset_cons addr hused hf)).outside
        · have := hframes.apart (hused hf)
          omega

theorem writeList_out {x : Nat} (hi : i < p.maxPrpEnts ∨ pages = [])
    (hx : ∀ frame ∈ addr :: frames, x < frame ∨ frame + p.pageSize ≤ x) :
    writeList p guest addr i frames pages x = guest x := by
  induction pages generalizing addr i frames with
  | nil => rw [writeList]
  | cons page pages ih =>
      have hi : i < p.maxPrpEnts := hi.resolve_right nofun
      have hmax := p.eight_mul_maxPrpEnts
      have hge := p.maxPrpEnts_ge
      have haddr := hx addr List.mem_cons_self
      by_cases hnext : i + 1 = p.maxPrpEnts ∧ pages ≠ []
      · cases frames with
        | nil => rw [writeList, if_pos hnext]
        | cons frame frames =>
            have htail := (List.forall_mem_cons.1 hx).2
            have hframe := htail frame List.mem_cons_self
            rw [writeList, if_pos hnext, putWord_out (by omega),
              putWord_out (by omega), ih (.inl hge) htail]
      · rw [writeList_here hnext, putWord_out (by omega),
          ih (index_succ hi hnext) hx]

end Driver

-- ============================================================== results

/-- `nvme_map_prp` comes to an end without using an entry it has not read.
Outside the controller memory buffer it maps what the entries describe,
all of it, and rejects everything else. -/
theorem maps_exactly (p : Paging) (m : Memory) (prp1 prp2 len : Nat)
    (hlen : len + p.pageSize ≤ 2 ^ 32) (hcmb : m.cmbAt prp1 = none) :
    ∃ r, nvmeMapPrp p m prp1 prp2 len = .ok r ∧
      (∀ mapping, r = some mapping ↔
        ∃ pages, Describes p m prp1 prp2 len pages ∧
          mapping = ⟨false, spans p prp1 len pages⟩) ∧
      ∀ mapping, r = some mapping → total mapping.segs = len := by
  obtain ⟨r, hr⟩ := nvmeMapPrp_ok (m := m) hlen prp1 prp2
  have hiff : ∀ mapping, r = some mapping ↔
      ∃ pages, Describes p m prp1 prp2 len pages ∧
        mapping = ⟨false, spans p prp1 len pages⟩ := by
    intro mapping
    rw [← nvmeMapPrp_some_iff hlen hcmb, hr, Except.ok.injEq]
  refine ⟨r, hr, hiff, fun mapping h => ?_⟩
  obtain ⟨pages, hpages, rfl⟩ := (hiff mapping).1 h
  exact hpages.total_spans

/-- Pages of 4 KiB. -/
def pages4k : Paging := ⟨12, by decide, by decide⟩

/-- A transfer over two pages, the second named by `prp2`. -/
theorem maps_exactly_two :
    ∃ r, nvmeMapPrp pages4k ⟨fun _ => 0, none⟩ 4608 8192 6144 = .ok r ∧
      (∀ mapping, r = some mapping ↔
        ∃ pages, Describes pages4k ⟨fun _ => 0, none⟩ 4608 8192 6144 pages ∧
          mapping = ⟨false, spans pages4k 4608 6144 pages⟩) ∧
      ∀ mapping, r = some mapping → total mapping.segs = 6144 :=
  maps_exactly pages4k ⟨fun _ => 0, none⟩ 4608 8192 6144 (by decide) rfl

/-- Lists that a driver makes, in as many pages as they need, are mapped
to the pages it listed, and writing them changes no byte elsewhere. -/
theorem lists_map_back (p : Paging) (guest : Bytes) (cmb : Option Cmb)
    (prp1 prp2 len : Nat) (frames pages : List Nat)
    (hlen : len + p.pageSize ≤ 2 ^ 32)
    (hprp1 : prp1 ≠ 0) (hcmb : Outside cmb prp1)
    (hcount : pages.length = p.pages (len - firstLen p prp1 len))
    (hmany : 2 ≤ pages.length)
    (hpages : ∀ page ∈ pages, p.Page page ∧ page < 2 ^ 64)
    (hframes : Frames p cmb (prp2 :: frames))
    (hroom : p.lists pages.length ≤ frames.length) :
    nvmeMapPrp p ⟨writeList p guest prp2 0 frames pages, cmb⟩ prp1 prp2 len
        = .ok (some ⟨false, spans p prp1 len pages⟩) ∧
      ∀ x, (∀ frame ∈ prp2 :: frames, x < frame ∨ frame + p.pageSize ≤ x) →
        writeList p guest prp2 0 frames pages x = guest x := by
  have hge := p.maxPrpEnts_ge
  have hindex : 0 < p.maxPrpEnts ∨ pages = [] := .inl (by omega)
  obtain ⟨used, -, hlisted⟩ := writeList_listed guest hpages hframes
    hindex (by rwa [Nat.zero_add])
  refine ⟨?_, fun x hx => writeList_out hindex hx⟩
  refine (nvmeMapPrp_some_iff hlen (hcmb _)).2 ⟨pages, ?_, rfl⟩
  exact ⟨hprp1, hcount, fun _ => hframes.head.page.1, by omega,
    fun _ => ⟨used, hlisted⟩⟩

theorem outside_none (addr : Nat) : Outside none addr := fun _ => rfl

/-- More pages than one list has entries. -/
def manyPages : List Nat := (List.range 513).map fun k => 4096 * (k + 3)

/-- All of them are pages of the guest. -/
theorem manyPages_page {page : Nat} (h : page ∈ manyPages) :
    pages4k.Page page ∧ page < 2 ^ 64 := by
  obtain ⟨k, hk, rfl⟩ := List.mem_map.1 h
  have hk := List.mem_range.1 hk
  refine ⟨⟨by omega, ?_⟩, by omega⟩
  exact Nat.mul_mod_right 4096 (k + 3)

/-- One page more than a list page has entries: the last entry is a link. -/
theorem lists_map_back_chain :
    nvmeMapPrp pages4k
        ⟨writeList pages4k (fun _ => 0) 4096 0 [8192] manyPages, none⟩
        4096000 4096 2105344
        = .ok (some ⟨false, spans pages4k 4096000 2105344 manyPages⟩) ∧
      ∀ x, (∀ frame ∈ [4096, 8192],
          x < frame ∨ frame + pages4k.pageSize ≤ x) →
        writeList pages4k (fun _ => 0) 4096 0 [8192] manyPages x = 0 := by
  have hcount : manyPages.length = 513 := by
    rw [manyPages, List.length_map, List.length_range]
  refine lists_map_back pages4k (fun _ => 0) none 4096000 4096 2105344 [8192]
    manyPages (by decide) (by decide) (outside_none _) (hcount.trans rfl)
    (by omega) (fun _ => manyPages_page) ⟨?_, by decide⟩
    (by rw [hcount]; decide)
  intro addr h
  refine ⟨?_, ?_, outside_none _⟩
  · revert addr
    decide
  · revert addr
    decide

end FemuRemap.Transfer
