/-
What the device is for: a map from lpns to contents.

`Logical c cmd v v'` says that serving `cmd` may take the map from `v` to
`v'`. There are no physical pages here, no collections and no NVRAM.

# Where the map is not a function

Two kinds of request leave a choice, which the device makes by its
NVRAM: a `DEDUP_WRITE` or `FS_GC_WRITE` page takes the content of its
`h_lpn` or the one the request carries, and an `SSD_REMAP` page without a
source is skipped or filled with what nobody wrote (`none`). Everything
else is a function of the map: `LogicalMap.exec`, for the commands that
are `Plain` (`Logical.eq_exec`).
-/
import FemuRemap.Model.Ftl

namespace FemuRemap

/-- Contents by lpn; an lpn that is not mapped has none. -/
abbrev LogicalMap := Nat → Option (Option Nat)

namespace LogicalMap

/-- Nothing was written. -/
def empty : LogicalMap := fun _ => none

/-- What a page of a write carries: a `CP_WRITE` page carries the content
of its `h_lpn`. -/
def carries (v : LogicalMap) (info : LpnInfo) : Option Nat :=
  if info.flag = cpWrite ∧ 0 ≤ info.hLpn
  then (v info.hLpn.toNat).getD info.data
  else info.data

/-- Remove lpns. -/
def discard (v : LogicalMap) (lpns : List Nat) : LogicalMap :=
  fun L => if L ∈ lpns then none else v L

/-- Give `dst` the content `d`; a move takes it from `src`. -/
def transfer (v : LogicalMap) (ope : RemapOpe) (src dst : Nat)
    (d : Option Nat) : LogicalMap :=
  if ope = .move then
    Function.update (Function.update v dst (some d)) src none
  else Function.update v dst (some d)

theorem transfer_eq_none {v : LogicalMap} {ope : RemapOpe} {src dst L : Nat}
    {d : Option Nat} : v.transfer ope src dst d L = none
      ↔ (ope = .move ∧ L = src) ∨ (L ≠ dst ∧ v L = none) := by
  unfold transfer
  by_cases ho : ope = .move
  · rw [if_pos ho, Function.update_apply, Function.update_apply]
    split_ifs <;> simp_all
  · rw [if_neg ho, Function.update_apply]
    split_ifs <;> simp_all

end LogicalMap

open LogicalMap

/-- One page of a write. -/
inductive PageWrite (info : LpnInfo) (lpn : Nat) (v : LogicalMap) :
    LogicalMap → Prop
  | store :
      PageWrite info lpn v (Function.update v lpn (some (v.carries info)))
  | dedup {d : Option Nat} : info.flag = dedupWrite → 0 < info.hLpn →
      v info.hLpn.toNat = some d →
      PageWrite info lpn v (v.transfer .copy info.hLpn.toNat lpn d)
  | fsGc {d : Option Nat} : info.flag = fsGcWrite → 0 < info.hLpn →
      v info.hLpn.toNat = some d →
      PageWrite info lpn v (v.transfer .move info.hLpn.toNat lpn d)

/-- The pages of a write from the `i`-th on. -/
inductive PageWrites (info : Nat → LpnInfo) :
    List Nat → Nat → LogicalMap → LogicalMap → Prop
  | nil {i : Nat} {v : LogicalMap} : PageWrites info [] i v v
  | cons {lpn i : Nat} {lpns : List Nat} {v v₁ v₂ : LogicalMap} :
      PageWrite (info i) lpn v v₁ → PageWrites info lpns (i + 1) v₁ v₂ →
      PageWrites info (lpn :: lpns) i v v₂

/-- One page of `SSD_REMAP`. -/
inductive PageRemap (ope : RemapOpe) (src dst : Nat) (v : LogicalMap) :
    LogicalMap → Prop
  | mapped {d : Option Nat} : v src = some d →
      PageRemap ope src dst v (v.transfer ope src dst d)
  | skipped : v src = none → PageRemap ope src dst v v
  | filled : v src = none →
      PageRemap ope src dst v (v.transfer ope src dst none)

/-- The pages of `SSD_REMAP`. -/
inductive PageRemaps (ope : RemapOpe) :
    Nat → Nat → Nat → LogicalMap → LogicalMap → Prop
  | zero {src dst : Nat} {v : LogicalMap} : PageRemaps ope 0 src dst v v
  | succ {len src dst : Nat} {v v₁ v₂ : LogicalMap} :
      PageRemap ope src dst v v₁ →
      PageRemaps ope len (src + 1) (dst + 1) v₁ v₂ →
      PageRemaps ope (len + 1) src dst v v₂

/-- The lpns a range of sectors touches. -/
def lpnsOf (c : Conf) (sectorNb length : Nat) : List Nat :=
  (slots c sectorNb length).map Slot.lpn

/-- What serving a command may do to the map. -/
inductive Logical (c : Conf) : Cmd → LogicalMap → LogicalMap → Prop
  | write {req : RequestMeta} {v v' : LogicalMap} :
      req.sectorNb + req.length ≤ c.sectorNb →
      PageWrites req.lpnsInfo (lpnsOf c req.sectorNb req.length) 0 v v' →
      Logical c (.write req) v v'
  | writeBeyond {req : RequestMeta} {v : LogicalMap} :
      c.sectorNb < req.sectorNb + req.length → Logical c (.write req) v v
  | discard {length sectorNb : Nat} {v : LogicalMap} :
      sectorNb + length ≤ c.sectorNb →
      Logical c (.discard length sectorNb) v
        (v.discard (lpnsOf c sectorNb length))
  | discardBeyond {length sectorNb : Nat} {v : LogicalMap} :
      c.sectorNb < sectorNb + length →
      Logical c (.discard length sectorNb) v v
  | remap {srcLpn dstLpn len ope : Nat} {o : RemapOpe}
      {v v' : LogicalMap} : remapOpe ope = some o →
      PageRemaps o (if len < 2 ^ 31 then len else 0) srcLpn dstLpn v v' →
      Logical c (.remap srcLpn dstLpn len ope) v v'
  | remapUnknown {srcLpn dstLpn len ope : Nat} {v : LogicalMap} :
      remapOpe ope = none → Logical c (.remap srcLpn dstLpn len ope) v v

/-- What serving commands one after another may do. -/
inductive LogicalRun (c : Conf) (v : LogicalMap) :
    List Cmd → LogicalMap → Prop
  | nil : LogicalRun c v [] v
  | snoc {cmds : List Cmd} {cmd : Cmd} {v₁ v₂ : LogicalMap} :
      LogicalRun c v cmds v₁ → Logical c cmd v₁ v₂ →
      LogicalRun c v (cmds ++ [cmd]) v₂

-- ====================================================== plain commands

/-- Give the pages of a write, from the `i`-th on, what they carry. -/
def LogicalMap.write (info : Nat → LpnInfo) :
    List Nat → Nat → LogicalMap → LogicalMap
  | [], _, v => v
  | lpn :: lpns, i, v => write info lpns (i + 1)
      (Function.update v lpn (some (v.carries (info i))))

/-- Copy a range of lpns to another one; a move removes the sources. -/
def LogicalMap.remap (v : LogicalMap) (ope : RemapOpe)
    (src dst len : Nat) : LogicalMap :=
  fun L =>
    if dst ≤ L ∧ L < dst + len then v (src + (L - dst))
    else if ope = .move ∧ src ≤ L ∧ L < src + len then none
    else v L

/-- What a plain command does to the map. -/
def LogicalMap.exec (c : Conf) (v : LogicalMap) : Cmd → LogicalMap
  | .write req =>
      LogicalMap.write req.lpnsInfo (lpnsOf c req.sectorNb req.length) 0 v
  | .discard length sectorNb => v.discard (lpnsOf c sectorNb length)
  | .remap srcLpn dstLpn len ope =>
      match remapOpe ope with
      | some o => v.remap o srcLpn dstLpn len
      | none => v

/-- A write in range without `DEDUP_WRITE` and `FS_GC_WRITE` pages, a
discard in range, or a remap of mapped lpns to a disjoint range. -/
def Plain (c : Conf) (v : LogicalMap) : Cmd → Prop
  | .write req => req.sectorNb + req.length ≤ c.sectorNb
      ∧ ∀ i, (req.lpnsInfo i).flag ≠ dedupWrite
        ∧ (req.lpnsInfo i).flag ≠ fsGcWrite
  | .discard length sectorNb => sectorNb + length ≤ c.sectorNb
  | .remap srcLpn dstLpn len _ => len < 2 ^ 31
      ∧ (srcLpn + len ≤ dstLpn ∨ dstLpn + len ≤ srcLpn)
      ∧ ∀ i, i < len → v (srcLpn + i) ≠ none

/-- Every command is plain when its turn comes. -/
def PlainRun (c : Conf) : LogicalMap → List Cmd → Prop
  | _, [] => True
  | v, cmd :: cmds => Plain c v cmd ∧ PlainRun c (v.exec c cmd) cmds

theorem PageWrites.eq_write {info : Nat → LpnInfo} {lpns : List Nat}
    {i : Nat} {v v' : LogicalMap} (h : PageWrites info lpns i v v')
    (hf : ∀ i, (info i).flag ≠ dedupWrite ∧ (info i).flag ≠ fsGcWrite) :
    v' = LogicalMap.write info lpns i v := by
  induction h with
  | nil => rfl
  | @cons _ i _ _ _ _ hw _ ih =>
      cases hw with
      | store => exact ih
      | dedup hd _ _ => exact absurd hd (hf i).1
      | fsGc hd _ _ => exact absurd hd (hf i).2

theorem PageRemaps.eq_remap {ope : RemapOpe} {len src dst : Nat}
    {v v' : LogicalMap} (h : PageRemaps ope len src dst v v')
    (hdis : src + len ≤ dst ∨ dst + len ≤ src)
    (hsrc : ∀ i, i < len → v (src + i) ≠ none) :
    v' = v.remap ope src dst len := by
  induction h with
  | zero =>
      funext L
      unfold LogicalMap.remap
      rw [if_neg (by omega), if_neg (by omega)]
  | @succ len src dst v v₁ v₂ hp _ ih =>
      -- the first page, whose source is mapped
      have hv₁ : ∀ L, v₁ L = if L = dst then v src
          else if ope = .move ∧ L = src then none else v L := by
        intro L
        have hs := hsrc 0 (Nat.succ_pos _)
        cases hp with
        | mapped hd =>
            unfold LogicalMap.transfer
            split
            · next ho =>
                simp only [Function.update_apply, ho, true_and, hd]
                have : src ≠ dst := by omega
                split_ifs with h₁ h₂ h₂ <;> simp_all
            · next ho =>
                simp only [Function.update_apply, ho, false_and, if_false,
                  hd]
        | skipped hn => exact absurd hn hs
        | filled hn => exact absurd hn hs
      rw [ih (by omega) fun i hi => by
        rw [hv₁, if_neg (by omega), if_neg (by omega), Nat.add_assoc]
        exact hsrc (1 + i) (by omega)]
      funext L
      unfold LogicalMap.remap
      by_cases hL : dst ≤ L ∧ L < dst + (len + 1)
      · rw [if_pos hL]
        rcases Nat.eq_or_lt_of_le hL.1 with rfl | hlt
        · rw [if_neg (by omega), if_neg (by omega), hv₁, if_pos rfl,
            Nat.sub_self, Nat.add_zero]
        · rw [if_pos (by omega), hv₁, if_neg (by omega),
            if_neg (by omega)]
          congr 1
          omega
      · rw [if_neg hL, if_neg (by omega)]
        have hL₁ := hv₁ L
        rw [if_neg (show L ≠ dst by omega)] at hL₁
        by_cases ho : ope = .move
        · simp only [ho, true_and] at hL₁ ⊢
          rw [hL₁]
          split_ifs <;> first | rfl | omega
        · simp only [ho, false_and, if_false] at hL₁ ⊢
          exact hL₁

theorem Logical.eq_exec {c : Conf} {cmd : Cmd} {v v' : LogicalMap}
    (h : Logical c cmd v v') (hp : Plain c v cmd) : v' = v.exec c cmd := by
  cases h with
  | write _ hw => exact hw.eq_write hp.2
  | writeBeyond hlt => exact absurd hp.1 (Nat.not_le.2 hlt)
  | discard _ => rfl
  | discardBeyond hlt => exact absurd hp (Nat.not_le.2 hlt)
  | remap ho hr =>
      obtain ⟨hlen, hdis, hsrc⟩ := hp
      rw [if_pos hlen] at hr
      rw [hr.eq_remap hdis hsrc, LogicalMap.exec, ho]
  | remapUnknown ho => rw [LogicalMap.exec, ho]

end FemuRemap
