/-
`nvme_remap` does its work twice: `SSD_REMAP` moves the mapping and a
`memcpy` moves the data. The two decode the command on their own.

# Where they part

`SSD_REMAP` counts its pages in an `int32_t` and does nothing for an
operation it does not know. The copy counts its bytes in an `unsigned
int`, the product of the length and `PAGE_SIZE`, and is made for every
operation. So they agree on a known operation as long as both counts
hold the length, and on an unknown one only if the product wraps to zero.
-/
import FemuRemap.Proofs.Admission

namespace FemuRemap

open Lib

variable {c : Conf} {n : NvmeCtrl} {m : NvmeRemap} {fuel : Nat}
  {s s' : Ssd} {log : List Event}

-- =========================================================== pages

/-- Page `q` of `hs'` holds what page `p` of `hs` does. -/
def SamePage (ps : Nat) (hs hs' : Nat → UInt8) (p q : Nat) : Prop :=
  ∀ b < ps, hs' (q * ps + b) = hs (p * ps + b)

/-- From `hs` to `hs'` the pages from `src` on are copied to those from
`dst` on, and no other page changes. -/
structure PagesCopied (ps : Nat) (hs hs' : Nat → UInt8)
    (src dst len : Nat) : Prop where
  copied : ∀ i < len, SamePage ps hs hs' (src + i) (dst + i)
  frame : ∀ p, p < dst ∨ dst + len ≤ p → SamePage ps hs hs' p p

/-- What lies in the target is the source's, -/
theorem heapCopy_of_mem {dst src len k : Nat} (hs : Nat → UInt8)
    (h : k < len) : heapCopy dst src len hs (dst + k) = hs (src + k) := by
  unfold heapCopy
  rw [if_pos (by omega), Nat.add_sub_cancel_left]

/-- and the rest stays. -/
theorem heapCopy_of_not_mem {dst src len x : Nat} (hs : Nat → UInt8)
    (h : x < dst ∨ dst + len ≤ x) : heapCopy dst src len hs x = hs x := by
  unfold heapCopy
  rw [if_neg (by omega)]

/-- A copy of all the bytes copies the pages. -/
theorem pagesCopied_heapCopy (ps : Nat) (hs : Nat → UInt8)
    (src dst len : Nat) :
    PagesCopied ps hs (heapCopy (dst * ps) (src * ps) (len * ps) hs)
      src dst len where
  copied i hi b hb := by
    have hin : i * ps + b < len * ps := by
      have hle := Nat.mul_le_mul_right ps (Nat.succ_le_of_lt hi)
      rw [Nat.succ_mul] at hle
      omega
    rw [Nat.add_mul, Nat.add_mul, Nat.add_assoc, Nat.add_assoc,
      heapCopy_of_mem hs hin]
  frame p hp b hb := by
    refine heapCopy_of_not_mem hs ?_
    rcases hp with hp | hp
    · have hle := Nat.mul_le_mul_right ps (Nat.succ_le_of_lt hp)
      rw [Nat.succ_mul] at hle
      omega
    · have hle := Nat.mul_le_mul_right ps hp
      rw [Nat.add_mul] at hle
      omega

/-- The heap with one byte set. -/
def markAt (x y : Nat) : UInt8 := if y = x then 1 else 0

/-- A shorter copy misses a byte of some heap. -/
theorem not_pagesCopied_short {ps src dst len k : Nat} (hne : src ≠ dst)
    (hps : 0 < ps) (hk : k < len * ps) :
    ¬ PagesCopied ps (markAt (src * ps + k))
      (heapCopy (dst * ps) (src * ps) k (markAt (src * ps + k)))
      src dst len := by
  intro h
  have hsplit := Nat.div_add_mod k ps
  have hi : k / ps < len := (Nat.div_lt_iff_lt_mul hps).2 hk
  have hbyte := h.copied (k / ps) hi (k % ps) (Nat.mod_lt _ hps)
  have haddr : ∀ p, (p + k / ps) * ps + k % ps = p * ps + k := by
    intro p
    rw [Nat.add_mul, Nat.mul_comm (k / ps)]
    omega
  rw [haddr, haddr, heapCopy_of_not_mem _ (.inr (Nat.le_refl _))] at hbyte
  have hother : dst * ps + k ≠ src * ps + k := by
    intro heq
    exact hne (Nat.eq_of_mul_eq_mul_right hps (by omega)).symm
  unfold markAt at hbyte
  rw [if_neg hother, if_pos rfl] at hbyte
  exact absurd hbyte (by decide)

-- ========================================================= pairs

/-- The pairs of lpns that the loop of `SSD_REMAP` goes through. -/
def remapPairs (m : NvmeRemap) : List (Nat × Nat) :=
  (List.range (if m.len.toNat < 2 ^ 31 then m.len.toNat else 0)).map
    fun i => (m.srcLpn.toNat + i, m.dstLpn.toNat + i)

/-- The loop over lpns as a loop over pairs. -/
theorem remapPages_eq_each (ope : RemapOpe) (len sLpn dLpn : Nat) :
    remapPages c fuel ope len sLpn dLpn
      = Prog.each (fun q : Nat × Nat => remapPage c fuel ope q.1 q.2)
        ((List.range len).map fun i => (sLpn + i, dLpn + i)) := by
  induction len generalizing sLpn dLpn with
  | zero => rfl
  | succ len ih =>
      rw [List.range_succ_eq_map, List.map_cons, List.map_map]
      show (remapPage c fuel ope sLpn dLpn >>= fun _ => _) = _
      rw [ih (sLpn + 1) (dLpn + 1)]
      have hshift : (fun i => (sLpn + i, dLpn + i)) ∘ Nat.succ
          = fun i => (sLpn + 1 + i, dLpn + 1 + i) := by
        funext i
        show (sLpn + (i + 1), dLpn + (i + 1)) = _
        rw [Nat.add_right_comm sLpn, Nat.add_right_comm dLpn]
        rfl
      rw [hshift]
      rfl

/-- `SSD_REMAP` as one pass over given pairs. -/
def remapEach (c : Conf) (fuel : Nat) (ope : RemapOpe)
    (pairs : List (Nat × Nat)) : Ftl Ret := do
  Prog.each (fun q => remapPage c fuel ope q.1 q.2) pairs
  return .success

theorem ssdRemap_eq_each {ope : RemapOpe}
    (hope : remapOpe m.ope.toNat = some ope) :
    ssdRemap c fuel m.srcLpn.toNat m.dstLpn.toNat m.len.toNat m.ope.toNat
      = remapEach c fuel ope (remapPairs m) := by
  unfold ssdRemap
  rw [hope]
  show (remapPages c fuel ope _ _ _ >>= fun _ => _) = _
  rw [remapPages_eq_each]
  rfl

-- ======================================================== together

/-- Both levels hold the length of the command, or neither does
anything. -/
def NvmeRemap.Agrees (n : NvmeCtrl) (m : NvmeRemap) : Prop :=
  if remapOpe m.ope.toNat = none then
    m.len.toNat * n.flashPageSize % 2 ^ 32 = 0
  else m.len.toNat < 2 ^ 31 ∧ m.len.toNat * n.flashPageSize < 2 ^ 32

/-- The command does to the data what it does to the mapping: a known
operation goes through exactly the pairs of its two ranges and copies
their pages, whatever the heap holds; any other one changes nothing. -/
def MovesTogether (n : NvmeCtrl) (fuel : Nat) (m : NvmeRemap)
    (s : Ssd) : Prop :=
  match remapOpe m.ope.toNat with
  | some ope =>
      (∀ hs, (nvmeRemap n fuel m ⟨s, hs⟩).st.ssd
        = (remapEach n.conf fuel ope (remapPairs m) s).st)
      ∧ remapPairs m = (List.range m.len.toNat).map
        (fun i => (m.srcLpn.toNat + i, m.dstLpn.toNat + i))
      ∧ ∀ hs, PagesCopied n.flashPageSize hs
        (nvmeRemap n fuel m ⟨s, hs⟩).st.heapStorage
        m.srcLpn.toNat m.dstLpn.toNat m.len.toNat
  | none => ∀ hs, (nvmeRemap n fuel m ⟨s, hs⟩).st = ⟨s, hs⟩

/-- The command: the tables change, then the heap is copied. -/
theorem nvmeRemap_eq {r : Ret} (hbb : n.femuMode = .blackbox)
    (hrun : ssdRemap n.conf fuel m.srcLpn.toNat m.dstLpn.toNat m.len.toNat
      m.ope.toNat s = ⟨.ok r, s', log⟩) (hs : Nat → UInt8) :
    nvmeRemap n fuel m ⟨s, hs⟩
      = ⟨.ok .success, ⟨s', heapCopy (pageOffset n m.dstLpn)
        (pageOffset n m.srcLpn) (m.copyLen n) hs⟩, log⟩ := by
  unfold nvmeRemap
  simp only [if_pos hbb, hrun]

/-- The loop counter is an `int`: it reaches all pairs when the length
fits. -/
theorem remapPairs_all_iff (m : NvmeRemap) :
    remapPairs m = (List.range m.len.toNat).map
        (fun i => (m.srcLpn.toNat + i, m.dstLpn.toNat + i))
      ↔ m.len.toNat < 2 ^ 31 := by
  unfold remapPairs
  constructor
  · intro h
    have hlen := congrArg List.length h
    simp only [List.length_map, List.length_range] at hlen
    split at hlen <;> omega
  · intro h
    rw [if_pos h]

/-- The copies of the right length, among those that `memcpy` makes of
the length modulo `2 ^ 32`. -/
theorem pagesCopied_iff {ps src dst len : Nat} (hps : 0 < ps)
    (hdisj : src + len ≤ dst ∨ dst + len ≤ src) :
    (∀ hs, PagesCopied ps hs (heapCopy (dst * ps) (src * ps)
        (len * ps % 2 ^ 32) hs) src dst len) ↔ len * ps < 2 ^ 32 := by
  constructor
  · intro h
    refine Nat.lt_of_not_le fun hle => ?_
    have hmod : len * ps % 2 ^ 32 < len * ps := by
      have := Nat.mod_lt (len * ps) (show 0 < 2 ^ 32 by decide)
      omega
    have hlen : 0 < len := Nat.pos_of_ne_zero fun h₀ => by
      rw [h₀, Nat.zero_mul] at hle
      omega
    exact not_pagesCopied_short (by omega) hps hmod (h _)
  · intro h hs
    rw [Nat.mod_eq_of_lt h]
    exact pagesCopied_heapCopy ps hs src dst len

/-- A copy between two places leaves every heap alone exactly when it is
empty. -/
theorem heapCopy_id_iff {src dst len : Nat} (hne : src ≠ dst) :
    (∀ hs, heapCopy dst src len hs = hs) ↔ len = 0 := by
  constructor
  · intro h
    refine Nat.eq_zero_of_not_pos fun hpos => ?_
    have hbyte := congrFun (h (markAt src)) dst
    rw [show heapCopy dst src len (markAt src) dst = markAt src src from
      heapCopy_of_mem (k := 0) _ hpos] at hbyte
    unfold markAt at hbyte
    rw [if_pos rfl, if_neg (Ne.symm hne)] at hbyte
    exact absurd hbyte (by decide)
  · rintro rfl hs
    funext x
    exact heapCopy_of_not_mem hs (by omega)

/-- A remap in a black box, between two disjoint ranges of the heap, moves
the mapping and the data together exactly when both levels hold its
length. -/
theorem remap_movesTogether_iff {heapSize : Nat} {r : Ret}
    (hbb : n.femuMode = .blackbox) (hps : 0 < n.flashPageSize)
    (hheap : heapSize < 2 ^ 64)
    (hsrc : (m.srcLpn.toNat + m.len.toNat) * n.flashPageSize ≤ heapSize)
    (hdst : (m.dstLpn.toNat + m.len.toNat) * n.flashPageSize ≤ heapSize)
    (hdisj : m.srcLpn.toNat + m.len.toNat ≤ m.dstLpn.toNat
      ∨ m.dstLpn.toNat + m.len.toNat ≤ m.srcLpn.toNat)
    (hrun : ssdRemap n.conf fuel m.srcLpn.toNat m.dstLpn.toNat m.len.toNat
      m.ope.toNat s = ⟨.ok r, s', log⟩) :
    MovesTogether n fuel m s ↔ m.Agrees n := by
  rw [Nat.add_mul] at hsrc hdst
  have hsrcOff : pageOffset n m.srcLpn = m.srcLpn.toNat * n.flashPageSize :=
    u64_of_lt rfl (by omega)
  have hdstOff : pageOffset n m.dstLpn = m.dstLpn.toNat * n.flashPageSize :=
    u64_of_lt rfl (by omega)
  have hlen : m.copyLen n = m.len.toNat * n.flashPageSize % 2 ^ 32 :=
    u32_mod _
  unfold MovesTogether NvmeRemap.Agrees
  simp only [nvmeRemap_eq hbb hrun, hsrcOff, hdstOff, hlen]
  -- an unknown operation changes no table, yet the heap is copied
  cases hope : remapOpe m.ope.toNat with
  | none =>
      have hsame : s' = s := by
        unfold ssdRemap at hrun
        rw [hope] at hrun
        cases hrun
        rfl
      subst hsame
      rw [if_pos rfl]
      by_cases h₀ : m.len.toNat = 0
      · simp only [h₀, Nat.zero_mul, Nat.zero_mod, iff_true]
        intro hs
        congr
        funext x
        exact heapCopy_of_not_mem hs (by omega)
      · have hne : m.srcLpn.toNat * n.flashPageSize
            ≠ m.dstLpn.toNat * n.flashPageSize := by
          intro heq
          have := Nat.eq_of_mul_eq_mul_right hps heq
          omega
        rw [← heapCopy_id_iff hne]
        exact forall_congr' fun hs =>
          ⟨congrArg Device.heapStorage, congrArg (Device.mk s')⟩
  | some ope =>
      rw [ssdRemap_eq_each hope] at hrun
      have hst : (remapEach n.conf fuel ope (remapPairs m) s).st = s' :=
        congrArg Out.st hrun
      rw [if_neg (Option.some_ne_none ope), remapPairs_all_iff,
        pagesCopied_iff hps hdisj]
      exact and_iff_right fun _ => hst.symm

/-- The device after a write of three pages and an overwrite of the
second one. -/
def writtenThree : Ssd :=
  (runCmds (smallCtrl .blackbox).conf 10
    [.write ((plainWrite 0 2).request (smallCtrl .blackbox)),
      .write ((plainWrite 1 0).request (smallCtrl .blackbox))]
    (ftlInit (smallCtrl .blackbox).conf)).st

/-- The three pages are copied, and their ppns are shared. -/
theorem remap_movesTogether_small :
    MovesTogether (smallCtrl .blackbox) 10 ⟨0, 8, 3, 3⟩ writtenThree
      ∧ (List.range 3).map writtenThree.mappingTable.get
        = [some 0, some 513, some 1]
      ∧ (List.range 3).map (fun i =>
          (nvmeRemap (smallCtrl .blackbox) 10 ⟨0, 8, 3, 3⟩
            ⟨writtenThree, fun _ => 0⟩).st.ssd.mappingTable (8 + i))
        = [some 0, some 513, some 1] := by
  have hok : (ssdRemap (smallCtrl .blackbox).conf 10 0 8 3 3
      writtenThree).res = .ok .success := by
    decide +kernel
  refine ⟨?_, by decide +kernel, by decide +kernel⟩
  refine (remap_movesTogether_iff rfl (by decide)
    (show 1024 * 4096 < 2 ^ 64 by decide) (by decide +kernel)
    (by decide +kernel) (by decide +kernel) (Out.eq_of_res hok)).2 ?_
  unfold NvmeRemap.Agrees
  decide +kernel

-- ==================================================== left behind

/-- A device of 8 GiB. -/
def largeCtrl : NvmeCtrl :=
  { smallCtrl .blackbox with
    conf := initSsdConfig 2 8 0x20000 8
    nsze := 0x200000
    bytes_lt := by decide
    sectors_le := by decide
    spp_pos := by decide
    spp_lt := by decide
    entries_pos := by decide
    sectorNb_lt := by decide }

/-- On a new device every remap is granted and finds its source
unmapped. -/
theorem remapPage_init (ope : RemapOpe) (sLpn dLpn : Nat) :
    remapPage largeCtrl.conf fuel ope sLpn dLpn (ftlInit largeCtrl.conf)
      = ⟨.ok (), ftlInit largeCtrl.conf, [.error .increaseNoPpn]⟩ :=
  rfl

/-- On a new device nothing is mapped, so nothing is remapped. -/
theorem remapPages_init (fuel : Nat) (ope : RemapOpe) (len sLpn dLpn : Nat) :
    ∃ log, remapPages largeCtrl.conf fuel ope len sLpn dLpn
      (ftlInit largeCtrl.conf) = ⟨.ok (), ftlInit largeCtrl.conf, log⟩ := by
  induction len generalizing sLpn dLpn with
  | zero => exact ⟨[], rfl⟩
  | succ len ih =>
      obtain ⟨log, hrest⟩ := ih (sLpn + 1) (dLpn + 1)
      refine ⟨.error .increaseNoPpn :: log, ?_⟩
      rw [remapPages, Prog.run_bind, remapPage_init, Prog.andThen_ok, hrest]
      rfl

theorem nvmeRemap_init (fuel : Nat) (m : NvmeRemap) {ope : RemapOpe}
    (hope : remapOpe m.ope.toNat = some ope) (hs : Nat → UInt8) :
    ∃ log, nvmeRemap largeCtrl fuel m ⟨ftlInit largeCtrl.conf, hs⟩
      = ⟨.ok .success, ⟨ftlInit largeCtrl.conf,
        heapCopy (pageOffset largeCtrl m.dstLpn)
          (pageOffset largeCtrl m.srcLpn) (m.copyLen largeCtrl) hs⟩, log⟩ := by
  obtain ⟨log, hpages⟩ := remapPages_init fuel ope
    (if m.len.toNat < 2 ^ 31 then m.len.toNat else 0) m.srcLpn.toNat
    m.dstLpn.toNat
  refine ⟨log ++ [], nvmeRemap_eq (r := .success) rfl ?_ hs⟩
  unfold ssdRemap
  rw [hope]
  show (remapPages largeCtrl.conf fuel ope _ _ _
    >>= fun _ => pure Ret.success) (ftlInit largeCtrl.conf) = _
  rw [Prog.run_bind, hpages]
  rfl

/-- An operation that `SSD_REMAP` does not know overwrites a page; a copy
of 4 GiB, every page of which it goes through, moves no byte. The marked
byte is the first of the source each time. -/
theorem remap_data_leftBehind :
    ((nvmeRemap (smallCtrl .blackbox) 10 ⟨0, 1, 1, 0⟩
          ⟨ftlInit (smallCtrl .blackbox).conf, markAt 0⟩
        ).st.heapStorage (1 * 4096) = 1
      ∧ markAt 0 (1 * 4096) = 0)
    ∧ ((nvmeRemap largeCtrl 10 ⟨0, 0x100000, 0x100000, 3⟩
          ⟨ftlInit largeCtrl.conf, markAt 0⟩).res = .ok .success
      ∧ (nvmeRemap largeCtrl 10 ⟨0, 0x100000, 0x100000, 3⟩
          ⟨ftlInit largeCtrl.conf, markAt 0⟩
        ).st.heapStorage (0x100000 * 4096) = 0
      ∧ markAt 0 (0 * 4096) = 1) := by
  obtain ⟨log, hrun⟩ := nvmeRemap_init 10 ⟨0, 0x100000, 0x100000, 3⟩
    (show remapOpe _ = some .copy by decide) (markAt 0)
  refine ⟨by decide +kernel, ?_, ?_, rfl⟩
  · rw [hrun]
  · rw [hrun]
    dsimp only
    decide +kernel

end FemuRemap
