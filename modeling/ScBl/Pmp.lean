import ScBl.Bitops
import ScBl.Lib.Napot

/-!
# The regions of the PMP (`include/pmp.h`)

A naturally aligned region is written into one register: the ones at the end of it say how large
the region is. Reading the register gives back the region that was written (`pmp_napot`), up to a
half of the address space.
-/

namespace ScBl

open Napot Words

/-- `PMP_SHIFT`, of the HAL. -/
def pmpShift : ℕ := 2

/-- `pmp_set_region`: what is written into `csr`. -/
def pmpSetRegion (addr mask : U64) : U64 :=
  let t0 := mask
  let t0 := ~~~ t0
  let t0 := t0 >>> 3
  let t1 := addr
  let t1 := t1 >>> pmpShift
  t0 ||| t1

/-- `pmp_decode_napot`: `*addr` and `*range`. -/
def pmpDecodeNapot (region : U64) : U64 × U64 :=
  let a := (region <<< 2) ||| 0x3#64
  let addr := a &&& (a + 1#64)
  (addr, (a ||| (a + 1#64)) - addr + 1#64)

variable {base : U64} {k : ℕ}

/-- The address in a register, with the ones at its end. -/
theorem pmpSetRegion_shiftLeft (hk : 3 ≤ k) (hk64 : k < 64) :
    (pmpSetRegion base (~~~ BitVec.ofNat 64 (2 ^ k - 1))) <<< 2 ||| 0x3#64 =
      base ||| BitVec.ofNat 64 (2 ^ (k - 1) - 1) := by
  refine BitVec.eq_of_getLsbD_eq fun i hi => ?_
  rw [pmpSetRegion, pmpShift, BitVec.not_not, BitVec.getLsbD_or, BitVec.getLsbD_or,
    BitVec.getLsbD_shiftLeft, BitVec.getLsbD_or, BitVec.getLsbD_ushiftRight,
    BitVec.getLsbD_ushiftRight, getLsbD_lowMask, getLsbD_lowMask]
  have hthree : (0x3#64).getLsbD i = decide (i < 2) :=
    (getLsbD_lowMask 2 i).trans (by rw [decide_eq_true hi, Bool.true_and])
  rw [hthree, decide_eq_true hi, Bool.true_and, Bool.true_and]
  by_cases hlow : i < 2
  · have hk1 : i < k - 1 := by omega
    simp [hlow, hk1]
  · have hsub : 2 + (i - 2) = i := by omega
    have hones : (decide (3 + (i - 2) < 64) && decide (3 + (i - 2) < k)) = decide (i < k - 1) := by
      simp only [← Bool.decide_and, decide_eq_decide]
      omega
    rw [hsub, hones, decide_eq_false hlow, Bool.not_false, Bool.true_and, Bool.or_false,
      Bool.or_comm]

/-- The ones below a bit and that bit, joined to a word that is zero there. -/
theorem or_and_carry (base : U64) (hk64 : k < 64) :
    (base ||| BitVec.ofNat 64 (2 ^ k - 1)) &&& (base ||| BitVec.twoPow 64 k) = base ∧
      (base ||| BitVec.ofNat 64 (2 ^ k - 1)) ||| (base ||| BitVec.twoPow 64 k) =
        base ||| BitVec.ofNat 64 (2 ^ (k + 1) - 1) := by
  constructor
  · refine BitVec.eq_of_getLsbD_eq fun i hi => ?_
    have hne : (decide (i < k) && decide (k = i)) = false := by
      rw [← Bool.decide_and, decide_eq_false_iff_not]
      omega
    simp only [BitVec.getLsbD_and, BitVec.getLsbD_or, getLsbD_lowMask, BitVec.getLsbD_twoPow, hi,
      hk64, decide_true, Bool.true_and, ← Bool.or_and_distrib_left, hne, Bool.or_false]
  · refine BitVec.eq_of_getLsbD_eq fun i hi => ?_
    have hle : (decide (i < k) || decide (k = i)) = decide (i < k + 1) := by
      simp only [← Bool.decide_or, decide_eq_decide]
      omega
    simp only [BitVec.getLsbD_or, getLsbD_lowMask, BitVec.getLsbD_twoPow, hi, hk64, decide_true,
      Bool.true_and, ← hle]
    cases base.getLsbD i <;> simp

/-- **A region** that is naturally aligned is read back as it was written. Its address register has
the base with a run of ones below, as many as the size asks for, and decoding finds the length of
that run. -/
theorem pmp_napot (base size : U64) (hsize : 8 ≤ size.toNat)
    (hnapot : IsNapot base.toNat size.toNat) :
    pmpDecodeNapot (pmpSetRegion base (~~~ (size - 1#64))) = (base, size) := by
  obtain ⟨⟨k, hk⟩, haligned⟩ := hnapot
  have hk3 : 3 ≤ k := by
    rw [hk] at hsize
    exact (Nat.pow_le_pow_iff_right (by decide : 1 < 2)).mp hsize
  have hk64 : k < 64 := by
    have hlt := size.isLt
    rw [hk] at hlt
    exact (Nat.pow_lt_pow_iff_right (by decide : 1 < 2)).mp hlt
  obtain ⟨j, rfl⟩ : ∃ j, k = j + 1 := ⟨k - 1, by omega⟩
  have hsucc : BitVec.ofNat 64 (2 ^ (j + 1) - 1) + 1#64 = size := by
    rw [← BitVec.ofNat_add, Nat.sub_add_cancel (Nat.two_pow_pos _), ← hk, BitVec.ofNat_toNat,
      BitVec.setWidth_eq]
  have hbase : ∀ i < j + 1, base.getLsbD i = false := by
    intro i hi
    obtain ⟨m, hm⟩ := hk ▸ haligned
    rw [BitVec.getLsbD, hm, Nat.testBit_two_pow_mul, decide_eq_false (by omega), Bool.false_and]
  have hpow : 2 ^ j < 2 ^ (j + 1) := Nat.pow_lt_pow_right (by decide) (Nat.lt_succ_self j)
  have hcarry : (base ||| BitVec.ofNat 64 (2 ^ j - 1)) + 1#64 = base ||| BitVec.twoPow 64 j := by
    have htwo : BitVec.ofNat 64 (2 ^ j) = BitVec.twoPow 64 j := by
      refine BitVec.eq_of_toNat_eq ?_
      rw [BitVec.toNat_ofNat, BitVec.toNat_twoPow]
    rw [← add_ofNat_eq_or hbase ((Nat.sub_le _ _).trans_lt hpow), BitVec.add_assoc,
      ← BitVec.ofNat_add, Nat.sub_add_cancel (Nat.two_pow_pos j), add_ofNat_eq_or hbase hpow, htwo]
  have hall : base ||| BitVec.ofNat 64 (2 ^ (j + 1) - 1) =
      BitVec.ofNat 64 (2 ^ (j + 1) - 1) + base := by
    rw [← add_ofNat_eq_or hbase (Nat.sub_one_lt_of_lt (Nat.two_pow_pos (j + 1))), BitVec.add_comm]
  obtain ⟨hand, hor⟩ := or_and_carry base (Nat.lt_of_succ_lt hk64)
  rw [← hsucc, BitVec.add_sub_cancel]
  simp only [pmpDecodeNapot, pmpSetRegion_shiftLeft hk3 hk64, Nat.add_sub_cancel, hcarry, hand, hor,
    hall, BitVec.add_sub_cancel]

/-- The upper half of the address space, in a region of the largest size. -/
theorem pmp_napot_half : pmpDecodeNapot
    (pmpSetRegion 0x8000000000000000#64 (~~~ (0x8000000000000000#64 - 1#64))) =
      (0x8000000000000000#64, 0x8000000000000000#64) :=
  pmp_napot 0x8000000000000000#64 0x8000000000000000#64 (by decide)
    ⟨⟨63, by decide⟩, Nat.dvd_refl _⟩

end ScBl
