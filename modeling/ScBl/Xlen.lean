import Mathlib.Data.BitVec

/-!
# Machine words

The integer types of the code, and its two builds: most of it is for RV64 only, and what is built
for RV32 too is over the width.
-/

namespace ScBl

/-! ## Integer types -/

/-- `unsigned long` on RV64. -/
abbrev U64 : Type := BitVec 64

/-- `unsigned int`, `uint32_t`. -/
abbrev U32 : Type := BitVec 32

/-- A byte. -/
abbrev U8 : Type := BitVec 8

/-- The low half of a word. -/
theorem toNat_low (x : U64) : (x &&& 0xFFFFFFFF#64).toNat = x.toNat % 2 ^ 32 := by
  have hmask : 0xFFFFFFFF#64 = BitVec.ofNat 64 (2 ^ 32 - 1) := by decide
  rw [hmask, BitVec.toNat_and, BitVec.toNat_ofNat, Nat.mod_eq_of_lt (by decide),
    Nat.and_two_pow_sub_one_eq_mod]

/-- The high half of a word. -/
theorem toNat_high (x : U64) : (x >>> 32).toNat = x.toNat / 2 ^ 32 := by
  rw [BitVec.toNat_ushiftRight, Nat.shiftRight_eq_div_pow]

/-! ## Builds -/

/-- The two builds of the code, by `__riscv_xlen`. -/
inductive Xlen
  | rv32
  | rv64
  deriving DecidableEq, Repr

/-- `PLF_HART8_XLEN`, the number of bytes in a word. -/
def Xlen.hart8 : Xlen → ℕ
  | rv32 => 4
  | rv64 => 8

/-- `unsigned long` -/
abbrev Xlen.Word (x : Xlen) : Type := BitVec (8 * x.hart8)

theorem Xlen.le_bits (x : Xlen) : 32 ≤ 8 * x.hart8 := by
  cases x <;> decide

theorem Xlen.bits_le (x : Xlen) : 8 * x.hart8 ≤ 64 := by
  cases x <;> decide

theorem Xlen.bits_pos (x : Xlen) : 0 < 8 * x.hart8 := by
  cases x <;> decide

/-- A positive `int` is positive in a word. -/
theorem Xlen.lt_half {x : Xlen} {n : ℕ} (hn : n < 2 ^ 31) : n < 2 ^ (8 * x.hart8 - 1) := by
  have hle := x.le_bits
  exact hn.trans_le (Nat.pow_le_pow_right (by decide) (by omega))

/-- A small constant in a word. -/
theorem toNat_lit {x : Xlen} {k : ℕ} (hk : k ≤ 64) : (BitVec.ofNat (8 * x.hart8) k).toNat = k := by
  have hpow : 2 ^ 7 ≤ 2 ^ (8 * x.hart8) :=
    Nat.pow_le_pow_right (by decide) (le_trans (by decide) x.le_bits)
  rw [BitVec.toNat_ofNat, Nat.mod_eq_of_lt (by omega)]

theorem toNat_one {x : Xlen} : (1#(8 * x.hart8)).toNat = 1 := toNat_lit (by decide)

theorem toNat_add_one {x : Xlen} {i : x.Word} {n : ℕ} (h : i.toNat < n)
    (hn : n < 2 ^ (8 * x.hart8)) : (i + 1#_).toNat = i.toNat + 1 := by
  rw [BitVec.toNat_add_of_lt (by rw [toNat_one]; omega), toNat_one]

theorem toNat_sub_one {x : Xlen} {v : x.Word} (hv : 0 < v.toNat) :
    (v - 1#_).toNat = v.toNat - 1 := by
  rw [BitVec.toNat_sub_of_le (by rwa [BitVec.le_def, toNat_one]), toNat_one]

theorem toNat_pos_iff {w : ℕ} {v : BitVec w} : 0 < v.toNat ↔ v ≠ 0#w := by
  rw [Nat.pos_iff_ne_zero, ne_eq, ne_eq, ← BitVec.toNat_inj, BitVec.toNat_ofNat, Nat.zero_mod]

end ScBl
