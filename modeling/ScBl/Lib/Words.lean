import Mathlib.Data.BitVec
import Mathlib.Tactic.Ring

/-!
# Bits and fields of machine words

Facts about `BitVec` that decoders and bit-scanning loops rest on: when a masked word is zero,
in terms of its bits, and when a masked word equals a constant, in terms of its fields. A
mask/match test of an instruction decoder is a conjunction of field tests (`and_or_eq_or_iff`,
`and_fieldMask_eq_iff`). At the end, masks that are walked bit by bit.
-/

namespace Words

variable {w : ℕ}

/-! ## Zero tests -/

/-- A word is non-zero exactly when one of its bits is set. -/
theorem ne_zero_iff {x : BitVec w} : x ≠ 0#w ↔ ∃ i, x.getLsbD i = true := by
  constructor
  · intro hx
    by_contra hno
    refine hx (BitVec.eq_of_getLsbD_eq fun i _ => ?_)
    rw [BitVec.getLsbD_zero]
    by_contra hb
    exact hno ⟨i, by simpa using hb⟩
  · rintro ⟨i, hi⟩ rfl
    rw [BitVec.getLsbD_zero] at hi
    cases hi

theorem eq_zero_iff {x : BitVec w} : x = 0#w ↔ ∀ i, x.getLsbD i = false := by
  constructor
  · rintro rfl i
    exact BitVec.getLsbD_zero
  · intro h
    exact BitVec.eq_of_getLsbD_eq fun i _ => by rw [h i, BitVec.getLsbD_zero]

/-- A set bit lies inside the word. -/
theorem lt_of_getLsbD {x : BitVec w} {i : ℕ} (h : x.getLsbD i = true) : i < w := by
  by_contra hge
  rw [BitVec.getLsbD_of_ge x i (by omega)] at h
  cases h

theorem getLsbD_lowMask (k i : ℕ) :
    (BitVec.ofNat w (2 ^ k - 1)).getLsbD i = (decide (i < w) && decide (i < k)) := by
  rw [BitVec.getLsbD_ofNat, Nat.testBit_two_pow_sub_one]

/-- Masking with the `k` low bits gives zero: none of them is set. -/
theorem and_lowMask_eq_zero {x : BitVec w} {k : ℕ} :
    x &&& BitVec.ofNat w (2 ^ k - 1) = 0#w ↔ ∀ i < k, x.getLsbD i = false := by
  rw [eq_zero_iff]
  refine forall_congr' fun i => ?_
  rw [BitVec.getLsbD_and, getLsbD_lowMask]
  constructor
  · intro h hik
    by_cases hiw : i < w
    · simpa [hiw, hik] using h
    · exact BitVec.getLsbD_of_ge x i (by omega)
  · intro h
    by_cases hik : i < k
    · rw [h hik, Bool.false_and]
    · simp [hik]

/-- A number is added to a word that is zero where the number has its bits by joining them. -/
theorem add_ofNat_eq_or {k n : ℕ} {x : BitVec w} (hx : ∀ i < k, x.getLsbD i = false)
    (hn : n < 2 ^ k) : x + BitVec.ofNat w n = x ||| BitVec.ofNat w n := by
  refine BitVec.add_eq_or_of_and_eq_zero _ _ (eq_zero_iff.mpr fun i => ?_)
  rw [BitVec.getLsbD_and]
  by_cases hi : i < k
  · rw [hx i hi, Bool.false_and]
  · have hbit : n.testBit i = false :=
      Nat.testBit_lt_two_pow (hn.trans_le (Nat.pow_le_pow_right (by decide) (by omega)))
    rw [BitVec.getLsbD_ofNat, hbit, Bool.and_false, Bool.and_false]

theorem getLsbD_one_shiftLeft {b : ℕ} (hb : b < w) (i : ℕ) :
    (1#w <<< b).getLsbD i = decide (i = b) := by
  rw [BitVec.getLsbD_shiftLeft, BitVec.getLsbD_one]
  by_cases hi : i = b
  · simp [hi, hb, Nat.lt_of_le_of_lt (Nat.zero_le b) hb]
  · have hne : ¬ (b ≤ i ∧ i - b = 0) := by omega
    by_cases hbi : b ≤ i
    · have hne' : i - b ≠ 0 := by omega
      simp [hi, hne']
    · simp [hi, Nat.lt_of_not_le hbi]

/-- Masking with one bit. -/
theorem and_oneBit_eq_zero {x : BitVec w} {b : ℕ} (hb : b < w) :
    x &&& (1#w <<< b) = 0#w ↔ x.getLsbD b = false := by
  rw [eq_zero_iff]
  simp only [BitVec.getLsbD_and, getLsbD_one_shiftLeft hb, Bool.and_eq_false_iff,
    decide_eq_false_iff_not]
  refine ⟨fun h => (h b).resolve_right (not_not.mpr rfl), fun h i => ?_⟩
  by_cases hi : i = b
  · exact .inl (hi ▸ h)
  · exact .inr hi

/-- Clearing one bit. -/
theorem getLsbD_and_not_oneBit {b : ℕ} (hb : b < w) (x : BitVec w) (i : ℕ) :
    (x &&& ~~~(1#w <<< b)).getLsbD i = (x.getLsbD i && decide (i ≠ b)) := by
  rw [BitVec.getLsbD_and, BitVec.getLsbD_not, getLsbD_one_shiftLeft hb]
  by_cases hi : i < w
  · simp [hi]
  · rw [BitVec.getLsbD_of_ge x i (Nat.le_of_not_lt hi), Bool.false_and, Bool.false_and]

/-- Masking with everything from bit `k` on gives zero: none of those bits is
set. -/
theorem and_highMask_eq_zero {x : BitVec w} {k : ℕ} :
    x &&& (BitVec.allOnes w <<< k) = 0#w ↔ ∀ i, k ≤ i → x.getLsbD i = false := by
  rw [eq_zero_iff]
  refine forall_congr' fun i => ?_
  rw [BitVec.getLsbD_and, BitVec.getLsbD_shiftLeft]
  by_cases hiw : i < w
  · have hsub : i - k < w := by omega
    by_cases hik : k ≤ i
    · simp [hiw, hik, hsub, Nat.not_lt.mpr hik]
    · simp [hik, Nat.not_le.mp hik]
  · simp [BitVec.getLsbD_of_ge x i (by omega)]

/-! ## Fields -/

/-- The mask of the `k`-bit field at bit `j`. -/
def fieldMask (w j k : ℕ) : BitVec w := (BitVec.allOnes k).setWidth w <<< j

theorem getLsbD_fieldMask {j k i : ℕ} (hw : j + k ≤ w) :
    (fieldMask w j k).getLsbD i = (decide (j ≤ i) && decide (i < j + k)) := by
  rw [fieldMask, BitVec.getLsbD_shiftLeft, BitVec.getLsbD_setWidth, BitVec.getLsbD_allOnes]
  by_cases hji : j ≤ i <;> by_cases hik : i < j + k
  · have hlt : i < w := by omega
    have hjw : i - j < w := by omega
    have hjk : i - j < k := by omega
    simp [hji, hik, hlt, hjw, hjk]
  · have hnot : ¬ i - j < k := by omega
    simp [hik, hnot]
  · have hlt : i < j := by omega
    simp [hji, hlt]
  · omega

/-- Masking out a field and comparing it with a constant compares the field, where the constant has
no bit outside of it. -/
theorem and_fieldMask_eq_iff {x : BitVec w} {j k : ℕ} {v : BitVec k} (hw : j + k ≤ w) :
    x &&& fieldMask w j k = v.setWidth w <<< j ↔ x.extractLsb' j k = v := by
  constructor
  · intro h
    refine BitVec.eq_of_getLsbD_eq fun i hi => ?_
    have hbit := congrArg (fun y : BitVec w => y.getLsbD (j + i)) h
    simp only [BitVec.getLsbD_and, getLsbD_fieldMask hw, BitVec.getLsbD_shiftLeft,
      BitVec.getLsbD_setWidth] at hbit
    rw [BitVec.getLsbD_extractLsb']
    have hlt : j + i < w := by omega
    have hlt' : i < w := by omega
    have hnot : ¬ j + i < j := by omega
    simpa [hi, hlt, hlt', hnot] using hbit
  · rintro rfl
    refine BitVec.eq_of_getLsbD_eq fun i hi => ?_
    rw [BitVec.getLsbD_and, getLsbD_fieldMask hw, BitVec.getLsbD_shiftLeft,
      BitVec.getLsbD_setWidth, BitVec.getLsbD_extractLsb']
    by_cases hji : j ≤ i
    · by_cases hik : i < j + k
      · have hjw : i - j < w := by omega
        have hjk : i - j < k := by omega
        simp [hi, hji, hik, Nat.not_lt.mpr hji, hjw, hjk]
      · have hnot : ¬ i - j < k := by omega
        simp [hik, hnot]
    · simp [hji, Nat.not_le.mp hji]

/-- A value put into a field lies under its mask. -/
theorem setWidth_shiftLeft_and_fieldMask {j k : ℕ} (v : BitVec k) (hw : j + k ≤ w) :
    (v.setWidth w <<< j) &&& fieldMask w j k = v.setWidth w <<< j := by
  refine BitVec.eq_of_getLsbD_eq fun i hi => ?_
  rw [BitVec.getLsbD_and, getLsbD_fieldMask hw, BitVec.getLsbD_shiftLeft, BitVec.getLsbD_setWidth]
  by_cases hji : j ≤ i
  · by_cases hik : i < j + k
    · simp [hji, hik]
    · have hle : k ≤ i - j := by omega
      simp [hle]
  · simp [Nat.not_le.mp hji]

/-- Shifting a field down and masking it is extracting it. -/
theorem ushiftRight_and_lowMask (x : BitVec w) (j k : ℕ) :
    (x >>> j) &&& BitVec.ofNat w (2 ^ k - 1) = (x.extractLsb' j k).setWidth w := by
  refine BitVec.eq_of_getLsbD_eq fun i hi => ?_
  rw [BitVec.getLsbD_and, BitVec.getLsbD_ushiftRight, getLsbD_lowMask, BitVec.getLsbD_setWidth,
    BitVec.getLsbD_extractLsb']
  simp [hi, Bool.and_comm]

/-- Two masks without a common bit are tested independently. -/
theorem and_or_eq_or_iff {x m₁ m₂ v₁ v₂ : BitVec w} (hd : m₁ &&& m₂ = 0#w)
    (h₁ : v₁ &&& m₁ = v₁) (h₂ : v₂ &&& m₂ = v₂) :
    x &&& (m₁ ||| m₂) = v₁ ||| v₂ ↔ x &&& m₁ = v₁ ∧ x &&& m₂ = v₂ := by
  have hx₁ : (m₁ ||| m₂) &&& m₁ = m₁ := by
    rw [BitVec.and_or_distrib_right, BitVec.and_self, BitVec.and_comm m₂, hd, BitVec.or_zero]
  have hx₂ : (m₁ ||| m₂) &&& m₂ = m₂ := by
    rw [BitVec.and_or_distrib_right, BitVec.and_self, hd, BitVec.zero_or]
  have hv₂ : v₂ &&& m₁ = 0#w := by
    rw [← h₂, BitVec.and_assoc, BitVec.and_comm m₂, hd, BitVec.and_zero]
  have hv₁ : v₁ &&& m₂ = 0#w := by
    rw [← h₁, BitVec.and_assoc, hd, BitVec.and_zero]
  constructor
  · intro h
    constructor
    · rw [← hx₁, ← BitVec.and_assoc, h, BitVec.and_or_distrib_right, h₁, hv₂, BitVec.or_zero]
    · rw [← hx₂, ← BitVec.and_assoc, h, BitVec.and_or_distrib_right, h₂, hv₁, BitVec.zero_or]
  · rintro ⟨ha, hb⟩
    rw [BitVec.and_or_distrib_left, ha, hb]

/-! ## Sign extension -/

/-- A word whose sign bit is clear keeps its value. -/
theorem signExtend_of_lt {n : ℕ} {x : BitVec w} (hx : 2 * x.toNat < 2 ^ w) :
    x.signExtend n = BitVec.ofNat n x.toNat := by
  have hmsb : x.msb = false := BitVec.msb_eq_false_iff_two_mul_lt.mpr hx
  rw [BitVec.signExtend_eq_setWidth_of_msb_false hmsb, BitVec.ofNat_toNat]

theorem toNat_signExtend_of_lt {n : ℕ} {x : BitVec w} (hn : w ≤ n) (hx : 2 * x.toNat < 2 ^ w) :
    (x.signExtend n).toNat = x.toNat := by
  rw [signExtend_of_lt hx, BitVec.toNat_ofNat,
    Nat.mod_eq_of_lt (x.isLt.trans_le (Nat.pow_le_pow_right (by decide) hn))]

/-! ## One bit of a word -/

/-- The word with `b` for bit `k`, and no other. -/
def bitAt (w k : ℕ) (b : Bool) : BitVec w := if b then 1#w <<< k else 0#w

/-- `x` with `b` for bit `k`. -/
def setBit (x : BitVec w) (k : ℕ) (b : Bool) : BitVec w := x &&& ~~~(1#w <<< k) ||| bitAt w k b

section Bit

variable {x : BitVec w} {k : ℕ} {b : Bool}

theorem getLsbD_bitAt (hk : k < w) (i : ℕ) :
    (bitAt w k b).getLsbD i = (decide (i = k) && b) := by
  cases b
  · simp [bitAt]
  · rw [bitAt, if_pos rfl, getLsbD_one_shiftLeft hk, Bool.and_true]

theorem getLsbD_setBit (hk : k < w) (i : ℕ) :
    (setBit x k b).getLsbD i = if i = k then b else x.getLsbD i := by
  rw [setBit, BitVec.getLsbD_or, getLsbD_and_not_oneBit hk, getLsbD_bitAt hk]
  by_cases hi : i = k <;> simp [hi]

theorem setBit_self (h : x.getLsbD k = b) : setBit x k b = x := by
  by_cases hk : k < w
  · refine BitVec.eq_of_getLsbD_eq fun i _ => ?_
    rw [getLsbD_setBit hk]
    by_cases hi : i = k <;> simp [hi, h]
  · have hzero : 1#w <<< k = 0#w := BitVec.shiftLeft_eq_zero (Nat.le_of_not_lt hk)
    rw [setBit, bitAt, hzero]
    simp

theorem and_not_one_shiftLeft : x &&& ~~~(1#w <<< k) = setBit x k false := by
  rw [setBit, bitAt, if_neg Bool.false_ne_true, BitVec.or_zero]

theorem setBit_eq_self_iff (hk : k < w) : setBit x k b = x ↔ x.getLsbD k = b := by
  refine ⟨fun h => ?_, setBit_self⟩
  rw [← h, getLsbD_setBit hk, if_pos rfl]

/-- A field of one bit. -/
theorem and_one_shiftLeft (hk : k < w) : x &&& 1#w <<< k = bitAt w k (x.getLsbD k) := by
  refine BitVec.eq_of_getLsbD_eq fun i _ => ?_
  rw [BitVec.getLsbD_and, getLsbD_one_shiftLeft hk, getLsbD_bitAt hk]
  by_cases hi : i = k <;> simp [hi]

/-- A field of one bit, moved down. -/
theorem ushiftRight_and_one_shiftLeft {j : ℕ} (hk : k < w) :
    x >>> j &&& 1#w <<< k = bitAt w k (x.getLsbD (j + k)) := by
  rw [and_one_shiftLeft hk, BitVec.getLsbD_ushiftRight]

/-- A field of one bit, moved up. -/
theorem bitAt_shiftLeft (k j : ℕ) (b : Bool) : bitAt w k b <<< j = bitAt w (k + j) b := by
  cases b
  · simp [bitAt]
  · rw [bitAt, bitAt, if_pos rfl, if_pos rfl, BitVec.shiftLeft_add]

/-- Two bits side by side. -/
theorem three_shiftLeft (w k : ℕ) : 3#w <<< k = 1#w <<< k ||| 1#w <<< (k + 1) := by
  have hthree : 3#w = 1#w ||| 1#w <<< 1 := by
    refine BitVec.eq_of_getLsbD_eq fun i hi => ?_
    have hbit : Nat.testBit 3 i = decide (i < 2) := Nat.testBit_two_pow_sub_one 2 i
    rw [BitVec.getLsbD_ofNat, hbit, BitVec.getLsbD_or, BitVec.getLsbD_shiftLeft, BitVec.getLsbD_one,
      BitVec.getLsbD_one]
    grind
  rw [hthree, BitVec.shiftLeft_or_distrib, ← BitVec.shiftLeft_add, Nat.add_comm]

end Bit

/-! ## A mask, from its top bit down

A loop over a mask of `w` bits that tests the sign and shifts by one: with `mask <<< (w - 1 - k)`
it is at bit `k`. -/

section Mask

variable {mask : BitVec w} {k : ℕ}

/-- The bit that is tested. -/
theorem msb_shiftLeft_sub (mask : BitVec w) (hk : k < w) :
    (mask <<< (w - 1 - k)).msb = mask.getLsbD k := by
  have hnot : ¬ w - 1 < w - 1 - k := by omega
  have heq : w - 1 - (w - 1 - k) = k := by omega
  have hlast : w - 1 < w := by omega
  rw [BitVec.msb_eq_getLsbD_last, BitVec.getLsbD_shiftLeft, heq, decide_eq_true hlast,
    decide_eq_false hnot]
  rfl

/-- Each round shifts the mask by one bit more. -/
theorem shiftLeft_sub_succ (mask : BitVec w) (hk : k + 1 < w) :
    mask <<< (w - 1 - (k + 1)) <<< 1 = mask <<< (w - 1 - k) := by
  have heq : w - 1 - (k + 1) + 1 = w - 1 - k := by omega
  rw [← BitVec.shiftLeft_add, heq]

/-- A mask that is used up has no bit left, from the one that it is at on. -/
theorem getLsbD_of_shiftLeft_sub_eq_zero (hk : k < w) (hzero : mask <<< (w - 1 - k) = 0#w)
    {i : ℕ} (hi : i ≤ k) : mask.getLsbD i = false := by
  have hshifted : i + (w - 1 - k) < w := by omega
  have hbit : (mask <<< (w - 1 - k)).getLsbD (i + (w - 1 - k)) = false := by
    rw [hzero, BitVec.getLsbD_zero]
  rw [BitVec.getLsbD_shiftLeft, Nat.add_sub_cancel] at hbit
  simpa [hshifted] using hbit

/-- The amount that a mask is shifted by to have bit `n` next to the top, as it is computed in a
word: shifts take it modulo the width. -/
theorem toNat_neg_add_one_sub_mod (hw : w ∣ 2 ^ w) (n : BitVec w) :
    (-(n + (1#w - BitVec.ofNat w w))).toNat % w = w - 1 - n.toNat % w := by
  rcases Nat.eq_zero_or_pos w with rfl | hpos
  · exact absurd hw (by decide)
  · have hlt : w < 2 ^ w := Nat.lt_two_pow_self
    have hneg : -(n + (1#w - BitVec.ofNat w w)) = BitVec.ofNat w (w - 1) - n := by
      have hsum : BitVec.ofNat w w = BitVec.ofNat w (w - 1) + 1#w := by
        rw [← BitVec.ofNat_add, Nat.sub_add_cancel hpos]
      rw [hsum]
      ring
    obtain ⟨q, hq⟩ := hw
    rw [hneg, BitVec.toNat_sub, BitVec.toNat_ofNat, Nat.mod_eq_of_lt (a := w - 1) (by omega),
      Nat.mod_mod_of_dvd _ ⟨q, hq⟩]
    -- all but the remainder of `n` is a multiple of the width
    have hmod := Nat.mod_lt n.toNat hpos
    have hdiv := Nat.div_add_mod n.toNat w
    have hn := n.isLt
    have hle : n.toNat / w ≤ q := by
      rw [hq] at hn
      exact Nat.div_le_of_le_mul hn.le
    have hrest : 2 ^ w - n.toNat + (w - 1) =
        w - 1 - n.toNat % w + w * (q - n.toNat / w) := by
      rw [hq, Nat.mul_sub]
      have hmul : w * (n.toNat / w) ≤ w * q := Nat.mul_le_mul_left _ hle
      rw [hq] at hn
      omega
    rw [hrest, Nat.add_mul_mod_self_left, Nat.mod_eq_of_lt (by omega)]

end Mask

/-- The low bits of a sign-extended word. -/
theorem toNat_signExtend_mod {n m : ℕ} (x : BitVec w) (hw : m ≤ w) (hn : m ≤ n) :
    (x.signExtend n).toNat % 2 ^ m = x.toNat % 2 ^ m := by
  have hlow : (x.signExtend n).setWidth m = x.setWidth m := by
    refine BitVec.eq_of_getLsbD_eq fun i hi => ?_
    rw [BitVec.getLsbD_setWidth, BitVec.getLsbD_setWidth, BitVec.getLsbD_signExtend,
      if_pos (hi.trans_le hw), decide_eq_true (hi.trans_le hn), Bool.true_and]
  have htoNat := congrArg BitVec.toNat hlow
  rwa [BitVec.toNat_setWidth, BitVec.toNat_setWidth] at htoNat

/-! ## Areas of one size, downwards from a base -/

section Areas

variable {base : BitVec w} {size i j : ℕ}

/-- The area before is one size up. -/
theorem sub_ofNat_succ_mul (base : BitVec w) (i size : ℕ) :
    base - BitVec.ofNat w ((i + 1) * size) + BitVec.ofNat w size =
      base - BitVec.ofNat w (i * size) := by
  rw [Nat.succ_mul, BitVec.ofNat_add]
  ring

/-- Areas that fit in the address space are apart. -/
theorem sub_ofNat_mul_inj (hsize : 0 < size) (hi : i * size < 2 ^ w) (hj : j * size < 2 ^ w) :
    base - BitVec.ofNat w (i * size) = base - BitVec.ofNat w (j * size) ↔ i = j := by
  refine ⟨fun h => ?_, fun h => h ▸ rfl⟩
  have hofNat : BitVec.ofNat w (i * size) = BitVec.ofNat w (j * size) := sub_right_inj.mp h
  have hmul := congrArg BitVec.toNat hofNat
  rw [BitVec.toNat_ofNat, BitVec.toNat_ofNat, Nat.mod_eq_of_lt hi, Nat.mod_eq_of_lt hj] at hmul
  exact Nat.eq_of_mul_eq_mul_right hsize hmul

end Areas

end Words
