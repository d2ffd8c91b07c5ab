/-
Runs of a pool: positions given out, blocks ejected and blocks freed, in
any order.

A block is given out from its first position to its last before another
one is begun, so the positions of a run form stripes of `cap`, one block
each (`Path.stripes`), and a block is full only after all its positions
were given out since it was last freed (`Path.since_full`).
-/
import FemuRemap.Lib.Pool

namespace FemuRemap.Lib.Pool

/-- What is seen of a run. -/
inductive Act where
  | give (b k : Nat)
  | free (b : Nat)
deriving DecidableEq

/-- A run of the pool. Ejecting a block is not seen. -/
inductive Path (cap : Nat) (p : Pool) : List Act → Pool → Prop
  | nil : Path cap p [] p
  | give {l : List Act} {p' p'' : Pool} {b k : Nat} :
      Path cap p l p' → p'.next cap = some (b, k, p'') →
      Path cap p (l ++ [.give b k]) p''
  | eject {l : List Act} {p' : Pool} (i : Nat) :
      Path cap p l p' → Path cap p l (p'.eject i)
  | free {l : List Act} {p' : Pool} {b : Nat} :
      Path cap p l p' → b ∉ p'.blocks →
      Path cap p (l ++ [.free b]) (p'.release b)

variable {cap n : Nat} {p p' p'' : Pool} {l l' : List Act} {b k : Nat}

theorem Path.trans (h : Path cap p l p') (h' : Path cap p' l' p'') :
    Path cap p (l ++ l') p'' := by
  induction h' with
  | nil => rwa [List.append_nil]
  | give _ hn ih =>
      rw [← List.append_assoc]
      exact .give ih hn
  | eject i _ ih => exact .eject i ih
  | free _ hb ih =>
      rw [← List.append_assoc]
      exact .free ih hb

-- ============================================================== stripes

/-- The position of an action. -/
def Act.position : Act → Option (Nat × Nat)
  | .give b k => some (b, k)
  | .free _ => none

/-- The positions `l` are the stripes of the blocks `bs`, the last one as
far as the active block `a` has come. -/
structure Stripes (cap : Nat) (bs : List Nat) (a : Option (Nat × Nat))
    (l : List (Nat × Nat)) : Prop where
  at_pos : ∀ i b k, l[i]? = some (b, k) →
    k = i % cap ∧ bs[i / cap]? = some b
  idle : a = none → l.length = cap * bs.length
  busy : ∀ b k, a = some (b, k) → 0 < k ∧ k ≤ cap
    ∧ l.length + cap = cap * bs.length + k ∧ bs.getLast? = some b

variable {bs : List Nat} {a : Option (Nat × Nat)} {q : List (Nat × Nat)}

/-- One more position of the last stripe. -/
theorem Stripes.more (hk : k < cap) (h : Stripes cap bs (some (b, k)) q) :
    Stripes cap bs (some (b, k + 1)) (q ++ [(b, k)]) := by
  obtain ⟨hpos, -, hlen, hlast⟩ := h.busy b k rfl
  -- so many stripes are complete
  obtain ⟨m, hm⟩ : ∃ m, bs.length = m + 1 :=
    Nat.exists_eq_succ_of_ne_zero fun hz => by
      rw [List.length_eq_zero_iff.1 hz] at hlast
      cases hlast
  rw [hm, Nat.mul_succ] at hlen
  have hdiv : q.length / cap = m ∧ q.length % cap = k := by
    rw [show q.length = k + cap * m by omega]
    exact ⟨by rw [Nat.add_mul_div_left _ _ (by omega),
        Nat.div_eq_of_lt hk, Nat.zero_add],
      by rw [Nat.add_mul_mod_self_left, Nat.mod_eq_of_lt hk]⟩
  refine ⟨fun i b' k' hi => ?_, nofun, ?_⟩
  · rcases Nat.lt_trichotomy i q.length with hlt | rfl | hgt
    · rw [List.getElem?_append_left hlt] at hi
      exact h.at_pos i b' k' hi
    · rw [List.getElem?_concat_length] at hi
      obtain ⟨rfl, rfl⟩ := Prod.mk.inj (Option.some.inj hi)
      rw [hdiv.1, hdiv.2]
      refine ⟨rfl, ?_⟩
      rw [← hlast, List.getLast?_eq_getElem?, hm, Nat.add_sub_cancel]
    · rw [List.getElem?_eq_none (by simp; omega)] at hi
      cases hi
  · rintro b' k' ⟨⟩
    refine ⟨by omega, by omega, ?_, hlast⟩
    rw [List.length_append, List.length_singleton, hm, Nat.mul_succ]
    omega

/-- The first position of the next stripe. -/
theorem Stripes.open (hcap : 0 < cap) (h : Stripes cap bs a q)
    (hlen : q.length = cap * bs.length) :
    Stripes cap (bs ++ [b]) (some (b, 1)) (q ++ [(b, 0)]) := by
  have hdiv : q.length / cap = bs.length ∧ q.length % cap = 0 := by
    rw [hlen]
    exact ⟨Nat.mul_div_cancel_left _ hcap, Nat.mul_mod_right _ _⟩
  refine ⟨fun i b' k' hi => ?_, nofun, ?_⟩
  · rcases Nat.lt_trichotomy i q.length with hlt | rfl | hgt
    · rw [List.getElem?_append_left hlt] at hi
      obtain ⟨hk, hb⟩ := h.at_pos i b' k' hi
      refine ⟨hk, ?_⟩
      rw [List.getElem?_append_left (List.getElem?_eq_some_iff.1 hb).1]
      exact hb
    · rw [List.getElem?_concat_length] at hi
      obtain ⟨rfl, rfl⟩ := Prod.mk.inj (Option.some.inj hi)
      rw [hdiv.1, hdiv.2]
      exact ⟨rfl, List.getElem?_concat_length⟩
    · rw [List.getElem?_eq_none (by simp; omega)] at hi
      cases hi
  · rintro b' k' ⟨⟩
    refine ⟨Nat.one_pos, hcap, ?_, List.getLast?_concat⟩
    rw [List.length_append, List.length_append, List.length_singleton,
      List.length_singleton, Nat.mul_succ]
    omega

/-- Along a path from the start, pages are handed out in stripes. -/
theorem Path.stripes (hcap : 0 < cap) (h : Path cap (init n) l p) :
    ∃ bs, Stripes cap bs p.active (l.filterMap Act.position) := by
  induction h with
  | nil => exact ⟨[], by simp, fun _ => rfl, by simp [init]⟩
  | @give l p₁ p₂ b k _ hn ih =>
      obtain ⟨bs, hbs⟩ := ih
      rw [List.filterMap_append]
      rcases next_eq hn with ⟨ha, hk, rfl⟩ | ⟨hfull, rfl, -, ha, -⟩
      · rw [ha] at hbs
        exact ⟨bs, hbs.more hk⟩
      · rw [ha]
        refine ⟨bs ++ [b], hbs.open hcap ?_⟩
        cases hact : p₁.active with
        | none => exact hbs.idle hact
        | some a =>
            obtain ⟨-, hle, hlen, -⟩ := hbs.busy a.1 a.2 hact
            have hge := hfull a.1 a.2 hact
            omega
  | eject i _ ih => exact ih
  | free _ _ ih =>
      rw [List.filterMap_append]
      exact (List.append_nil _).symm ▸ ih

-- ================================================== since the last freeing

/-- The positions of `b` given out since it was last freed. -/
def since (b : Nat) (l : List Act) : List Nat :=
  l.foldl (fun ks act => match act with
    | .give b' k => if b' = b then ks ++ [k] else ks
    | .free b' => if b' = b then [] else ks) []

/-- What was handed out since the last erase, by one page more, -/
theorem since_give (b' : Nat) : since b' (l ++ [.give b k])
    = if b = b' then since b' l ++ [k] else since b' l := by
  rw [since, List.foldl_append]
  rfl

/-- and by an erase. -/
theorem since_free (b' : Nat) : since b' (l ++ [.free b])
    = if b = b' then [] else since b' l := by
  rw [since, List.foldl_append]
  rfl

/-- Each block has given out, since it was last freed, what its place in
the pool says. -/
structure Ledger (cap : Nat) (l : List Act) (p : Pool) : Prop where
  nodup : p.blocks.Nodup
  empty : ∀ b ∈ p.empty, since b l = []
  active : ∀ b k, p.active = some (b, k) →
    k ≤ cap ∧ since b l = List.range k
  full : ∀ b ∈ p.full, since b l = List.range cap

/-- The places of a block exclude each other. -/
theorem Ledger.apart (h : Ledger cap l p) :
    (∀ b ∈ p.empty, b ∉ p.current) ∧ (∀ b ∈ p.empty, b ∉ p.full)
      ∧ ∀ b ∈ p.current, b ∉ p.full := by
  have hd := h.nodup
  rw [blocks, List.nodup_append, List.nodup_append] at hd
  obtain ⟨⟨-, -, hec⟩, -, hf⟩ := hd
  exact ⟨fun b hb hc => hec b hb b hc rfl,
    fun b hb hc => hf b (List.mem_append_left _ hb) b hc rfl,
    fun b hb hc => hf b (List.mem_append_right _ hb) b hc rfl⟩

/-- A further position of the active block. -/
theorem Ledger.more (h : Ledger cap l p) (ha : p.active = some (b, k))
    (hk : k < cap) : Ledger cap (l ++ [.give b k])
      ⟨p.empty, some (b, k + 1), p.full⟩ := by
  obtain ⟨hec, -, hcf⟩ := h.apart
  have hcur : p.current = [b] := by simp [current, ha]
  refine ⟨?_, fun b' hb' => ?_, ?_, fun b' hb' => ?_⟩
  · have hd := h.nodup
    rwa [blocks, hcur] at hd
  · have hne : b ≠ b' := fun he => hec b' hb' (by simp [hcur, he])
    rw [since_give, if_neg hne, h.empty b' hb']
  · rintro _ _ ⟨⟩
    rw [since_give, if_pos rfl, (h.active b k ha).2, List.range_succ]
    exact ⟨hk, rfl⟩
  · have hne : b ≠ b' := fun he => hcf b (by simp [hcur]) (he ▸ hb')
    rw [since_give, if_neg hne, h.full b' hb']

/-- The first position of the next block, the active one being full. -/
theorem Ledger.open (hcap : 0 < cap) (h : Ledger cap l p)
    (hfull : ∀ b₀ k₀, p.active = some (b₀, k₀) → cap ≤ k₀)
    (he : p.empty = b :: p'.empty) (ha : p'.active = some (b, 1))
    (hf : p'.full = p.full ++ p.current) :
    Ledger cap (l ++ [.give b 0]) p' := by
  obtain ⟨hec, hef, -⟩ := h.apart
  have hb : b ∈ p.empty := he ▸ List.mem_cons_self
  have hcur : p'.current = [b] := by simp [current, ha]
  have hd := h.nodup
  rw [blocks, he] at hd
  have hother : ∀ b' ∈ p'.empty, b ≠ b' := fun b' hb' heq => by
    have hn := (List.nodup_append.1 (List.nodup_append.1 hd).1).1
    exact (List.nodup_cons.1 hn).1 (heq ▸ hb')
  refine ⟨?_, fun b' hb' => ?_, ?_, fun b' hb' => ?_⟩
  · rw [blocks, hcur, hf]
    refine List.Perm.nodup ?_ hd
    simp only [List.cons_append, List.append_assoc, List.nil_append]
    refine List.Perm.trans ?_ List.perm_middle.symm
    exact List.Perm.cons b
      (List.Perm.append_left _ List.perm_append_comm)
  · rw [since_give, if_neg (hother b' hb')]
    exact h.empty b' (he ▸ List.mem_cons_of_mem _ hb')
  · intro b' k' hact
    obtain ⟨rfl, rfl⟩ := Prod.mk.inj (Option.some.inj (ha.symm.trans hact))
    rw [since_give, if_pos rfl, h.empty b hb]
    exact ⟨hcap, rfl⟩
  · rw [hf] at hb'
    rcases List.mem_append.1 hb' with hold | hnew
    · have hne : b ≠ b' := fun heq => hef b hb (heq ▸ hold)
      rw [since_give, if_neg hne, h.full b' hold]
    · have hne : b ≠ b' := fun heq => hec b hb (heq ▸ hnew)
      rw [since_give, if_neg hne]
      -- the block that was active has given out everything
      cases hact : p.active with
      | none => simp [current, hact] at hnew
      | some x =>
          obtain ⟨b₀, k₀⟩ := x
          obtain rfl : b' = b₀ := by simpa [current, hact] using hnew
          obtain ⟨hle, hs⟩ := h.active b' k₀ hact
          rw [hs, Nat.le_antisymm hle (hfull b' k₀ hact)]

/-- Taking a block out changes no page. -/
theorem Ledger.eject (h : Ledger cap l p) (i : Nat) :
    Ledger cap l (p.eject i) where
  nodup := by
    refine h.nodup.sublist ?_
    exact List.Sublist.append_left (List.eraseIdx_sublist _ _) _
  empty := h.empty
  active := h.active
  full b hb := h.full b (List.mem_of_mem_eraseIdx hb)

theorem Ledger.free (h : Ledger cap l p) (hb : b ∉ p.blocks) :
    Ledger cap (l ++ [.free b]) (p.release b) := by
  have hne : ∀ b' ∈ p.blocks, b ≠ b' := fun b' hb' he => hb (he ▸ hb')
  have hmem : ∀ b', b' ∈ p.empty ∨ b' ∈ p.current ∨ b' ∈ p.full →
      b' ∈ p.blocks := by
    intro b' hb'
    simpa [blocks, or_assoc] using hb'
  refine ⟨?_, fun b' hb' => ?_, fun b' k' ha => ?_, fun b' hb' => ?_⟩
  · have hperm : (p.release b).blocks.Perm (b :: p.blocks) := by
      simp only [blocks, release, current, List.append_assoc,
        List.cons_append, List.nil_append]
      exact List.perm_middle
    exact hperm.nodup_iff.2 (List.nodup_cons.2 ⟨hb, h.nodup⟩)
  · rw [since_free]
    split
    · rfl
    · next hbb =>
        have hold : b' ∈ p.empty := by
          rcases List.mem_append.1 hb' with hold | hnew
          · exact hold
          · exact absurd (List.mem_singleton.1 hnew).symm hbb
        exact h.empty b' hold
  · have hcur : b' ∈ p.current := by
      have ha' : p.active = some (b', k') := ha
      simp [current, ha']
    rw [since_free, if_neg (hne b' (hmem b' (.inr (.inl hcur))))]
    exact h.active b' k' ha
  · rw [since_free, if_neg (hne b' (hmem b' (.inr (.inr hb'))))]
    exact h.full b' hb'

theorem Path.ledger (hcap : 0 < cap) (h : Path cap (init n) l p) :
    Ledger cap l p := by
  induction h with
  | nil => exact ⟨by simpa [blocks, init, current] using List.nodup_range,
      fun _ _ => rfl, nofun, nofun⟩
  | give _ hn ih =>
      rcases next_eq hn with ⟨ha, hk, rfl⟩ | ⟨hfull, rfl, he, ha, hf⟩
      · exact ih.more ha hk
      · exact ih.open hcap hfull he ha hf
  | eject i _ ih => exact ih.eject i
  | free _ hb ih => exact ih.free hb

/-- A block is full only after all its positions were given out since it
was last freed. -/
theorem Path.since_full (hcap : 0 < cap) (h : Path cap (init n) l p)
    (hb : b ∈ p.full) : since b l = List.range cap :=
  (h.ledger hcap).full b hb

end FemuRemap.Lib.Pool
