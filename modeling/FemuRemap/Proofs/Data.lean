/-
What a read returns.

A write puts the bytes of the buffer that its entries describe on the
heap, a read takes them from there (`copyIn_eq`, `copyOut_eq`). In
between, remaps move the bytes of the heap around: `origin` follows a
byte back through a run, to where it was before, or to nothing if it was
written again. `read_back` puts the three together.
-/
import FemuRemap.Proofs.Admission
import FemuRemap.Proofs.Prp

namespace FemuRemap.Transfer

open Lib

variable {n : NvmeCtrl} {p : Paging} {t : RwCmd} {d d' : Disk}
  {st : NvmeStatus} {s : Step} {steps : List Step} {segs : List Span}
  {off a b : Nat} {heap guest : Bytes}

-- ============================================================== copies

/-- The loop over the segments stores them one behind the other. -/
theorem copyIn_eq :
    copyIn guest segs off heap = store heap off (gather guest segs) := by
  induction segs generalizing off heap with
  | nil =>
      funext i
      exact (store_out (by rw [gather, List.length_nil]; omega)).symm
  | cons s ss ih =>
      rw [copyIn, ih, gather, ← store_append, length_load]

/-- And scatters the bytes over them on the way out. -/
theorem copyOut_eq :
    copyOut heap segs off guest
      = scatter guest segs (load heap off (total segs)) := by
  induction segs generalizing off guest with
  | nil => rfl
  | cons s ss ih =>
      rw [copyOut, ih, scatter, total_cons, load_append,
        List.take_left' length_load, List.drop_left' length_load]

/-- Whole sectors lose nothing to the alignment. -/
theorem alignedSegs_eq (h : total segs % 512 = 0) :
    alignedSegs segs = segs := if_pos h

-- ============================================================ a command

/-- Blocks of up to 32 KiB, of which the largest command has less than
`2 ^ 32` bytes. -/
theorem dataSize_eq (hds : n.ds ≤ 15) (t : NvmeRwCmd) :
    t.dataSize n = t.blocks * 2 ^ n.ds ∧ t.dataSize n ≤ 2 ^ 31 := by
  have hblocks : t.blocks ≤ 2 ^ 16 := t.nlb.toNat_lt
  have hpow : 2 ^ n.ds ≤ 2 ^ 15 := Nat.pow_le_pow_right Nat.two_pos hds
  have hmul : t.blocks * 2 ^ n.ds ≤ 2 ^ 16 * 2 ^ 15 :=
    Nat.mul_le_mul hblocks hpow
  have hsize : t.dataSize n = t.blocks * 2 ^ n.ds := u64_of_lt rfl (by omega)
  exact ⟨hsize, by omega⟩

/-- A block is whole sectors, so a transfer is. -/
theorem dataSize_sectors (hds : n.ds ≤ 15) (t : NvmeRwCmd) :
    t.dataSize n % 512 = 0 := by
  rw [(dataSize_eq hds t).1]
  refine Nat.mod_eq_zero_of_dvd (Nat.dvd_mul_left_of_dvd ?_ _)
  show 2 ^ 9 ∣ 2 ^ n.ds
  exact Nat.pow_dvd_pow 2 n.ds_ge

/-- A command that fails changes nothing; one that succeeds copies what it
maps, which is nothing if that is in the controller memory buffer. -/
theorem nvmeRw_cases (hds : n.ds ≤ 15) (h : nvmeRw n p t d = .ok (st, d')) :
    st ≠ .success ∧ d' = d ∨
      st = .success ∧ ∃ mapping,
        nvmeMapPrp p d.mem t.prp1 t.prp2 (t.dataSize n)
            = .ok (some mapping) ∧
          if mapping.cmb then d' = d
          else
            total mapping.segs = t.dataSize n ∧
              d' = nvmeHeapStorageRw t.isWrite mapping.segs
                (t.dataOffset n) d := by
  obtain ⟨hsize, hle⟩ := dataSize_eq hds t.toNvmeRwCmd
  unfold nvmeRw at h
  rw [u32_of_lt rfl (by omega), u32_of_lt rfl (by omega), ← hsize] at h
  split at h
  · cases h
    exact .inl ⟨nofun, rfl⟩
  split at h
  case h_2 hst =>
    cases h
    exact .inl ⟨hst, rfl⟩
  case h_1 =>
    split at h
    · cases h
    · cases h
      exact .inl ⟨nofun, rfl⟩
    · next mapping hmap =>
      refine .inr ?_
      -- a transfer with the controller's buffer leaves the heap alone
      cases hcmb : mapping.cmb with
      | false =>
          simp only [hcmb, Bool.false_eq_true, if_false] at h
          split at h
          · cases h
          · next hassert =>
            split at h
            · cases h
              exact ⟨rfl, mapping, hmap, by
                rw [hcmb]
                exact ⟨(not_not.1 hassert).symm, rfl⟩⟩
            · cases h
      | true =>
          simp only [hcmb, if_true] at h
          split at h
          · cases h
          · split at h
            · cases h
              refine ⟨rfl, mapping, hmap, ?_⟩
              rw [hcmb]
              cases t.isWrite with
              | false => rfl
              | true => rfl
            · cases h

/-- What a successful write or read outside the controller memory buffer
does, in terms of the buffer that it describes. -/
theorem nvmeRw_success (hds : n.ds ≤ 15) (hcmb : d.mem.cmbAt t.prp1 = none)
    (h : nvmeRw n p t d = .ok (.success, d')) :
    ∃ pages, Describes p d.mem t.prp1 t.prp2 (t.dataSize n) pages ∧
      d' = nvmeHeapStorageRw t.isWrite
        (spans p t.prp1 (t.dataSize n) pages) (t.dataOffset n) d := by
  have hle := (dataSize_eq hds t.toNvmeRwCmd).2
  have hpage := p.pageSize_le
  rcases nvmeRw_cases hds h with hfail | ⟨-, mapping, hmap, hdone⟩
  · exact absurd rfl hfail.1
  · obtain ⟨pages, hpages, rfl⟩ :=
      (nvmeMapPrp_some_iff (by omega) hcmb).1 hmap
    exact ⟨pages, hpages, hdone.2⟩

/-- A write puts what the segments hold. -/
theorem nvmeHeapStorageRw_write (h : total segs % 512 = 0) :
    nvmeHeapStorageRw true segs off d
      = { d with heap := store d.heap off (gather d.mem.guest segs) } := by
  unfold nvmeHeapStorageRw
  rw [alignedSegs_eq h, ← copyIn_eq]
  rfl

/-- A read leaves the heap and fills the segments. -/
theorem nvmeHeapStorageRw_read (h : total segs % 512 = 0) :
    (nvmeHeapStorageRw false segs off d).mem.guest
      = scatter d.mem.guest segs (load d.heap off (total segs)) := by
  unfold nvmeHeapStorageRw
  rw [alignedSegs_eq h, ← copyOut_eq]
  rfl

-- ================================================================ runs

/-- Where the byte at an offset of the heap was before a step, if it was
not written. -/
def Step.origin (n : NvmeCtrl) : Step → Nat → Option Nat
  | .rw t, b =>
      if t.isWrite ∧ t.dataOffset n ≤ b ∧ b < t.dataOffset n + t.dataSize n
      then none
      else some b
  | .remap r, b =>
      let dst := pageOffset n r.dstLpn
      if dst ≤ b ∧ b < dst + r.copyLen n then
        some (pageOffset n r.srcLpn + (b - dst))
      else some b
  | .guest _, b => some b

/-- Where it was before a run. -/
def origin (n : NvmeCtrl) : List Step → Nat → Option Nat
  | [], b => some b
  | s :: steps, b => (origin n steps b).bind (s.origin n)

/-- Bytes outside the transfer stay. -/
theorem nvmeRw_heap (hds : n.ds ≤ 15) (h : nvmeRw n p t d = .ok (st, d'))
    (hb : ¬ (t.isWrite ∧ t.dataOffset n ≤ b
      ∧ b < t.dataOffset n + t.dataSize n)) :
    d'.heap b = d.heap b := by
  rcases nvmeRw_cases hds h with ⟨-, rfl⟩ | ⟨-, mapping, -, hdone⟩
  · rfl
  · split at hdone
    · rw [hdone]
    · obtain ⟨htotal, rfl⟩ := hdone
      cases hwrite : t.isWrite with
      | false => rfl
      | true =>
          have hsec := dataSize_sectors hds t.toNvmeRwCmd
          rw [hwrite] at hb
          rw [nvmeHeapStorageRw_write (by rwa [htotal])]
          refine store_out ?_
          rw [length_gather, htotal]
          simp only [true_and] at hb
          omega

/-- A remap that does not fault copies. -/
theorem nvmeRemapCopy_heap {r : NvmeRemap} (h : nvmeRemapCopy n r d = .ok d') :
    d' = { d with
      heap := heapCopy (pageOffset n r.dstLpn) (pageOffset n r.srcLpn)
        (r.copyLen n) d.heap } := by
  unfold nvmeRemapCopy at h
  dsimp only at h
  split at h
  · split at h
    · exact (Except.ok.inj h).symm
    · cases h
  · cases h

/-- One step: a byte comes from where its origin says. -/
theorem step_origin (hds : n.ds ≤ 15) (h : step n p d s = .ok d')
    (ha : s.origin n b = some a) : d'.heap b = d.heap a := by
  cases s with
  | rw t =>
      obtain ⟨⟨st, d'⟩, hrw, rfl⟩ := map_ok_iff.1 h
      rw [Step.origin] at ha
      split at ha
      · cases ha
      · next hb =>
        cases ha
        exact nvmeRw_heap hds hrw hb
  | remap r =>
      obtain rfl := nvmeRemapCopy_heap h
      rw [Step.origin] at ha
      dsimp only [heapCopy]
      split at ha
      · next hb =>
        cases ha
        rw [if_pos hb]
      · next hb =>
        cases ha
        rw [if_neg hb]
  | guest mem =>
      cases h
      cases ha
      rfl

/-- Any number of steps, tracing the origin backwards. -/
theorem run_origin (hds : n.ds ≤ 15) (h : run n p d steps = .ok d')
    (ha : origin n steps b = some a) : d'.heap b = d.heap a := by
  induction steps generalizing d a with
  | nil =>
      cases h
      cases ha
      rfl
  | cons s steps ih =>
      obtain ⟨e, hstep, h⟩ := runs.cons_ok_iff.1 h
      obtain ⟨c, hc, ha⟩ := Option.bind_eq_some_iff.1 ha
      rw [ih h hc, step_origin hds hstep ha]

-- ============================================================== results

/-- A read returns what was written. The write and the read may describe
their buffers in any way outside the controller memory buffer; in between
the guest may do anything, and there may be any commands. The byte that
is read comes from the byte of the write which the remaps in between have
brought to its place, if no other write has hit it on its way. -/
theorem read_back (n : NvmeCtrl) (p : Paging) (w r : RwCmd)
    (steps : List Step) (d₀ : Disk) {d₁ d₂ d₃ : Disk} (hds : n.ds ≤ 15)
    (hw : w.isWrite = true) (hr : r.isWrite = false)
    (hwcmb : d₀.mem.cmbAt w.prp1 = none) (hrcmb : d₂.mem.cmbAt r.prp1 = none)
    (hwrite : nvmeRw n p w d₀ = .ok (.success, d₁))
    (hrun : run n p d₁ steps = .ok d₂)
    (hread : nvmeRw n p r d₂ = .ok (.success, d₃)) :
    ∃ source target,
      Describes p d₀.mem w.prp1 w.prp2 (w.dataSize n) source ∧
      Describes p d₂.mem r.prp1 r.prp2 (r.dataSize n) target ∧
      ((spans p r.prp1 (r.dataSize n) target).Pairwise Span.Apart →
        ∀ a b, a < w.dataSize n → b < r.dataSize n →
          origin n steps (r.dataOffset n + b)
            = some (w.dataOffset n + a) →
          (gather d₃.mem.guest (spans p r.prp1 (r.dataSize n) target))[b]?
            = (gather d₀.mem.guest
                (spans p w.prp1 (w.dataSize n) source))[a]?) := by
  obtain ⟨pages, hpages, rfl⟩ := nvmeRw_success hds hwcmb hwrite
  obtain ⟨pages', hpages', rfl⟩ := nvmeRw_success hds hrcmb hread
  refine ⟨pages, pages', hpages, hpages', fun hapart a b ha hb horigin => ?_⟩
  -- back through the steps to the byte of the heap, then to the buffer it was
  -- written from
  have hheap := run_origin hds hrun horigin
  rw [hw, nvmeHeapStorageRw_write
    (by rw [hpages.total_spans]; exact dataSize_sectors hds _)] at hheap
  rw [hr, nvmeHeapStorageRw_read
    (by rw [hpages'.total_spans]; exact dataSize_sectors hds _),
    hpages'.total_spans,
    gather_scatter hapart (by rw [length_load, hpages'.total_spans])]
  have hlen : a < (gather d₀.mem.guest
      (spans p w.prp1 (w.dataSize n) pages)).length := by
    rwa [length_gather, hpages.total_spans]
  dsimp only at hheap
  rw [store_in hlen] at hheap
  rw [List.getElem?_eq_getElem (by rwa [length_load]),
    List.getElem?_eq_getElem hlen, ← hheap]
  simp [load]

/-- A page of the guest at an address, as the buffer of a command. -/
def pageCmd (isWrite : Bool) (slba : UInt64) (prp1 : Nat) : RwCmd :=
  { plainWrite slba 0 with
    isWrite := isWrite
    prp1 := prp1
    prp2 := 0
    stale := 0 }

/-- A page is written, mapped to another place, and read there, after the
guest has cleared its memory. -/
theorem read_back_moved :
    ∃ d₁ d₂ d₃,
      nvmeRw (smallCtrl .blackbox) pages4k (pageCmd true 3 4096)
          ⟨⟨fun x => UInt8.ofNat x, none⟩, fun _ => 0⟩ = .ok (.success, d₁) ∧
      run (smallCtrl .blackbox) pages4k d₁
          [.remap ⟨3, 5, 1, 0⟩, .guest fun _ => 0] = .ok d₂ ∧
      nvmeRw (smallCtrl .blackbox) pages4k (pageCmd false 5 8192) d₂
          = .ok (.success, d₃) ∧
      (gather d₃.mem.guest [⟨8192, 4096⟩])[7]?
        = (gather (fun x => UInt8.ofNat x) [⟨4096, 4096⟩])[7]? := by
  refine ⟨_, _, _, rfl, rfl, rfl, ?_⟩
  obtain ⟨source, target, hsource, htarget, h⟩ :=
    read_back (smallCtrl .blackbox) pages4k (pageCmd true 3 4096)
      (pageCmd false 5 8192) [.remap ⟨3, 5, 1, 0⟩, .guest fun _ => 0]
      ⟨⟨fun x => UInt8.ofNat x, none⟩, fun _ => 0⟩ (by decide) rfl rfl rfl rfl
      rfl rfl rfl
  rw [hsource.pages_eq (by decide), htarget.pages_eq (by decide)] at h
  exact h (List.pairwise_singleton _ _) 7 7 (by decide) (by decide) (by decide)

end FemuRemap.Transfer
