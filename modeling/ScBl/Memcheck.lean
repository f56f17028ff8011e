import ScBl.Xlen
import ScBl.Lib.Napot

/-!
# The check of the memory map (`memcheck.c`)

A program of the build that accepts or refuses the regions of `PLF_MEM_MAP`, the
most prioritized one last. It accepts those maps in which each region is a
naturally aligned block that no later region contains (`memcheck_iff`); the regions
of such a map are nested or disjoint.
-/

namespace ScBl

open Napot

variable {x : Xlen}

/-- `scr_mem_region_info`, as far as it is checked. -/
structure MemRegion (x : Xlen) where
  base : x.Word
  size : x.Word
  name : String
  deriving DecidableEq, Repr

/-- What `error` prints before the memory map, and exits with 1. -/
def memcheckError (message : String) : Except String Unit := throw ("memcheck: " ++ message)

/-- `is_power_of_two` -/
def isPowerOfTwo (v : x.Word) : Bool := v &&& (v - 1#_) == 0#_

/-- `check_region` -/
def checkRegion (region : MemRegion x) : Except String Unit := do
  if region.size < 64#_ then
    memcheckError ("memory region " ++ region.name ++
      " is too small (region must be at least 64 bytes)\n")
  if !isPowerOfTwo region.size then
    memcheckError ("size of memory region " ++ region.name ++ " is not power of two\n")
  if region.base % region.size ≠ 0#_ then
    memcheckError ("base address of memory region " ++ region.name ++ " is not NAPOT\n")

/-- `low_max` and `high_max`, the last address of a region. -/
def MemRegion.max (region : MemRegion x) : x.Word := region.size - 1#_ + region.base

/-- `check_region_nestedness` -/
def checkRegionNestedness (low high : MemRegion x) : Except String Unit := do
  if high.base ≤ low.base ∧ low.max ≤ high.max then
    memcheckError ("memory region " ++ low.name ++ " is fully overlapped by larger region " ++
      high.name ++ " with higher priority\n")

/-- The outer loop over `low`; `high` runs over the regions after it. -/
def checkNestedness : List (MemRegion x) → Except String Unit
  | [] => pure ()
  | low :: regions => do
    regions.forM (checkRegionNestedness low)
    checkNestedness regions

/-- `main`, which returns 0 where it is `ok`. -/
def memcheck (regions : List (MemRegion x)) : Except String Unit := do
  regions.forM checkRegion
  checkNestedness regions

/-! ## What a check accepts -/

variable {ε α : Type}

theorem seq_eq_ok {c : Except ε Unit} {f : Unit → Except ε Unit} :
    c >>= f = .ok () ↔ c = .ok () ∧ f () = .ok () := by
  cases c <;> simp [bind, Except.bind]

variable {fault : Prop} [Decidable fault] {message : String}

/-- A check that ends with an error when it finds a fault. -/
theorem guard_eq_ok :
    (if fault then memcheckError message else pure ()) = .ok () ↔ ¬ fault := by
  split <;> simp_all [memcheckError, throw, throwThe, MonadExceptOf.throw, pure, Except.pure]

theorem guard_seq_eq_ok {rest : Unit → Except String Unit} :
    (if fault then memcheckError message >>= rest else rest ()) = .ok () ↔
      ¬ fault ∧ rest () = .ok () := by
  split <;>
    simp_all [memcheckError, throw, throwThe, MonadExceptOf.throw, bind, Except.bind]

theorem forM_eq_ok {xs : List α} {check : α → Except ε Unit} :
    forM xs check = .ok () ↔ ∀ a ∈ xs, check a = .ok () := by
  induction xs with
  | nil => simp [pure, Except.pure]
  | cons a xs ih => rw [List.forM_cons, seq_eq_ok, ih, List.forall_mem_cons]

theorem checkNestedness_eq_ok {regions : List (MemRegion x)} :
    checkNestedness regions = .ok () ↔
      regions.Pairwise fun low high => checkRegionNestedness low high = .ok () := by
  induction regions with
  | nil => simp [checkNestedness, pure, Except.pure]
  | cons low regions ih =>
    rw [checkNestedness, seq_eq_ok, List.forM_eq_forM, forM_eq_ok, ih, List.pairwise_cons]

/-! ## Regions as blocks -/

/-- The addresses of a region, `[base, base + size)`. -/
def MemRegion.addrs (region : MemRegion x) : Set ℕ := block region.base.toNat region.size.toNat

/-- A naturally aligned region of at least 64 bytes. -/
def MemRegion.Napot (region : MemRegion x) : Prop :=
  64 ≤ region.size.toNat ∧ IsNapot region.base.toNat region.size.toNat

theorem isPowerOfTwo_iff {v : x.Word} (hv : 0 < v.toNat) :
    isPowerOfTwo v = true ↔ v.toNat.isPowerOfTwo := by
  rw [isPowerOfTwo, beq_iff_eq, ← BitVec.toNat_inj, BitVec.toNat_and, toNat_sub_one hv,
    BitVec.toNat_zero]
  exact Nat.and_sub_one_eq_zero_iff_isPowerOfTwo (by omega)

theorem checkRegion_eq_ok {region : MemRegion x} :
    checkRegion region = .ok () ↔ region.Napot := by
  rw [checkRegion, guard_seq_eq_ok, guard_seq_eq_ok, guard_eq_ok, BitVec.lt_def,
    toNat_lit le_rfl, not_lt, ne_eq, not_not, ← BitVec.toNat_inj, BitVec.toNat_umod,
    BitVec.toNat_zero, ← Nat.dvd_iff_mod_eq_zero]
  constructor
  · rintro ⟨hsmall, hpow, haligned⟩
    exact ⟨hsmall, (isPowerOfTwo_iff (by omega)).mp (by simpa using hpow), haligned⟩
  · rintro ⟨hsmall, hpow, haligned⟩
    have hbit := (isPowerOfTwo_iff (v := region.size) (by omega)).mpr hpow
    exact ⟨hsmall, by simp [hbit], haligned⟩

/-- No address calculation of the checks wraps. -/
theorem MemRegion.Napot.max_toNat {region : MemRegion x} (h : region.Napot) :
    region.max.toNat = region.base.toNat + region.size.toNat - 1 := by
  obtain ⟨hsize, hblock⟩ := h
  have hend := add_le_two_pow hblock region.base.isLt region.size.isLt.le
  rw [MemRegion.max, BitVec.toNat_add, toNat_sub_one (by omega), Nat.mod_eq_of_lt (by omega)]
  omega

theorem checkRegionNestedness_eq_ok {low high : MemRegion x} (hlow : low.Napot)
    (hhigh : high.Napot) :
    checkRegionNestedness low high = .ok () ↔ ¬ low.addrs ⊆ high.addrs := by
  have hlowSize := hlow.1
  have hhighSize := hhigh.1
  rw [checkRegionNestedness, guard_eq_ok, BitVec.le_def, BitVec.le_def, hlow.max_toNat,
    hhigh.max_toNat, MemRegion.addrs, MemRegion.addrs, block_subset_iff (by omega)]
  omega

/-! ## The accepted maps -/

/-- No region is contained in a later one. -/
def Uncovered (regions : List (MemRegion x)) : Prop :=
  regions.Pairwise fun low high => ¬ low.addrs ⊆ high.addrs

/-- Two regions are disjoint, or the later one is inside the earlier one. -/
def Laminar (regions : List (MemRegion x)) : Prop :=
  regions.Pairwise fun low high => Disjoint low.addrs high.addrs ∨ high.addrs ⊂ low.addrs

theorem memcheck_eq_ok {regions : List (MemRegion x)} :
    memcheck regions = .ok () ↔ (∀ region ∈ regions, region.Napot) ∧ Uncovered regions := by
  simp only [memcheck, seq_eq_ok, List.forM_eq_forM, forM_eq_ok, checkRegion_eq_ok,
    checkNestedness_eq_ok]
  refine and_congr_right fun hnapot => List.Pairwise.iff_of_mem fun hlow hhigh => ?_
  exact checkRegionNestedness_eq_ok (hnapot _ hlow) (hnapot _ hhigh)

theorem Uncovered.laminar {regions : List (MemRegion x)}
    (hnapot : ∀ region ∈ regions, region.Napot) (h : Uncovered regions) : Laminar regions :=
  h.imp_of_mem fun hlow hhigh hnot =>
    disjoint_or_ssubset_of_not_subset (hnapot _ hlow).2 (hnapot _ hhigh).2 hnot

/-- **`memcheck` accepts exactly the safe maps**: the maps of naturally aligned regions in
which none is contained in a later one. In such a map no last address wraps, and the
regions are disjoint or the later one is strictly inside the earlier one. -/
theorem memcheck_iff (regions : List (MemRegion x)) :
    (memcheck regions = .ok () ↔ (∀ region ∈ regions, region.Napot) ∧ Uncovered regions) ∧
      (memcheck regions = .ok () → Laminar regions ∧ ∀ region ∈ regions,
        region.max.toNat = region.base.toNat + region.size.toNat - 1) := by
  refine ⟨memcheck_eq_ok, fun hok => ?_⟩
  obtain ⟨hnapot, huncovered⟩ := memcheck_eq_ok.mp hok
  exact ⟨huncovered.laminar hnapot, fun region hregion => (hnapot region hregion).max_toNat⟩

end ScBl
