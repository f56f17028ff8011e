import Mathlib.Data.BitVec
import Mathlib.Logic.Function.Basic

/-!
# RISC-V register files

The integer registers by their ABI names, with `w` bits each, and the instructions that
only work on them: an operation of a register file for each mnemonic, in the order of the
operands of the assembler. So a run of instructions is a chain of operations, and what it
leaves in a register is computed by `get_set` and its variants. Branches are the conditions
they test, on the values of registers.

`Writes rs x y` says that only the registers `rs` differ, which is what a routine promises
to its caller.
-/

namespace Rv

/-- The integer registers. -/
inductive IntReg
  | zero | ra | sp | gp | tp
  | t0 | t1 | t2
  | s0 | s1
  | a0 | a1 | a2 | a3 | a4 | a5 | a6 | a7
  | s2 | s3 | s4 | s5 | s6 | s7 | s8 | s9 | s10 | s11
  | t3 | t4 | t5 | t6
  deriving DecidableEq, Repr

/-- A register file; `zero` is the zero of the machine, whatever is stored. -/
structure RegFile (w : ℕ) where
  val : IntReg → BitVec w

namespace RegFile

variable {w : ℕ} (x : RegFile w)

/-- The value of a register. -/
def get (r : IntReg) : BitVec w := if r = .zero then 0#w else x.val r

/-- Write a register. -/
def set (rd : IntReg) (v : BitVec w) : RegFile w := ⟨Function.update x.val rd v⟩

section

variable {x} {r rd : IntReg} {v : BitVec w}

@[simp] theorem get_zero : x.get .zero = 0#w := rfl

@[simp] theorem get_set_self (h : rd ≠ .zero) : (x.set rd v).get rd = v := by
  simp only [get, set, if_neg h, Function.update_self]

@[simp] theorem get_set_of_ne (h : r ≠ rd) : (x.set rd v).get r = x.get r := by
  simp only [get, set, Function.update_of_ne h]

/-- Of two writes, the second. -/
@[simp] theorem set_set {v' : BitVec w} : (x.set rd v).set rd v' = x.set rd v' := by
  rw [set, set, set, Function.update_idem]

end

/-! ## Instructions -/

def li (rd : IntReg) (imm : BitVec w) : RegFile w := x.set rd imm

def lui (rd : IntReg) (imm : BitVec 20) : RegFile w := x.set rd ((imm ++ 0#12).signExtend w)

def mv (rd rs : IntReg) : RegFile w := x.set rd (x.get rs)

def neg (rd rs : IntReg) : RegFile w := x.set rd (-x.get rs)

def add (rd rs₁ rs₂ : IntReg) : RegFile w := x.set rd (x.get rs₁ + x.get rs₂)

def sub (rd rs₁ rs₂ : IntReg) : RegFile w := x.set rd (x.get rs₁ - x.get rs₂)

def and (rd rs₁ rs₂ : IntReg) : RegFile w := x.set rd (x.get rs₁ &&& x.get rs₂)

def or (rd rs₁ rs₂ : IntReg) : RegFile w := x.set rd (x.get rs₁ ||| x.get rs₂)

/-- Shifts take the amount modulo the width. -/
def sll (rd rs₁ rs₂ : IntReg) : RegFile w := x.set rd (x.get rs₁ <<< ((x.get rs₂).toNat % w))

def addi (rd rs : IntReg) (imm : BitVec w) : RegFile w := x.set rd (x.get rs + imm)

def slli (rd rs : IntReg) (n : ℕ) : RegFile w := x.set rd (x.get rs <<< n)

/-- `slliw`, which shifts the low word and extends its sign. -/
def slliw (x : RegFile 64) (rd rs : IntReg) (n : ℕ) : RegFile 64 :=
  x.set rd (((x.get rs).setWidth 32 <<< n).signExtend 64)

def srli (rd rs : IntReg) (n : ℕ) : RegFile w := x.set rd (x.get rs >>> n)

def srai (rd rs : IntReg) (n : ℕ) : RegFile w := x.set rd ((x.get rs).sshiftRight n)

def andi (rd rs : IntReg) (imm : BitVec w) : RegFile w := x.set rd (x.get rs &&& imm)

def ori (rd rs : IntReg) (imm : BitVec w) : RegFile w := x.set rd (x.get rs ||| imm)

/-! ## What a routine writes -/

/-- From `x` to `y`, registers other than `rs` are as they were. -/
def Writes (rs : List IntReg) (x y : RegFile w) : Prop := ∀ r ∉ rs, y.get r = x.get r

section

variable {x} {y z : RegFile w} {rs : List IntReg} {rd : IntReg} {v : BitVec w}

theorem Writes.refl (rs : List IntReg) (x : RegFile w) : Writes rs x x := fun _ _ => rfl

theorem Writes.trans (h : Writes rs x y) (h' : Writes rs y z) : Writes rs x z :=
  fun r hr => (h' r hr).trans (h r hr)

theorem Writes.mono {rs' : List IntReg} (h : Writes rs x y) (hrs : rs ⊆ rs') : Writes rs' x y :=
  fun r hr => h r fun hmem => hr (hrs hmem)

theorem Writes.set (h : Writes rs x y) (hrd : rd ∈ rs) : Writes rs x (y.set rd v) := by
  intro r hr
  have hne : r ≠ rd := fun heq => hr (heq ▸ hrd)
  rw [get_set_of_ne hne, h r hr]

end

end RegFile

/-! ## Constants in two instructions -/

/-- `%hi(v)`, for `lui` -/
def hi20 (v : BitVec 64) : BitVec 20 := ((v + 0x800#64) >>> 12).setWidth 20

/-- `%lo(v)`, for the instruction after it -/
def lo12 (v : BitVec 64) : BitVec 12 := v.setWidth 12

section

variable {v : BitVec 64} (hv : v.toNat < 0x7ffff000)

include hv

theorem toNat_hi20 : (hi20 v).toNat = (v.toNat + 0x800) / 0x1000 := by
  rw [hi20, BitVec.toNat_setWidth, BitVec.toNat_ushiftRight, BitVec.toNat_add, BitVec.toNat_ofNat,
    Nat.shiftRight_eq_div_pow]
  omega

/-- The low part counts as negative where the high part has been rounded up. -/
theorem hi20_add_lo12 : (hi20 v ++ 0#12).signExtend 64 + (lo12 v).signExtend 64 = v := by
  have hhi : (hi20 v ++ 0#12).toNat = (v.toNat + 0x800) / 0x1000 * 0x1000 := by
    rw [BitVec.toNat_append, toNat_hi20 hv, BitVec.toNat_zero, Nat.or_zero, Nat.shiftLeft_eq]
  have hlo : (lo12 v).toNat = v.toNat % 0x1000 := BitVec.toNat_setWidth _ _
  have hmsb : (hi20 v ++ 0#12).msb = false := by
    rw [BitVec.msb_eq_false_iff_two_mul_lt, hhi]
    omega
  refine BitVec.eq_of_toNat_eq ?_
  rw [BitVec.toNat_add, BitVec.toNat_signExtend, BitVec.toNat_signExtend, hmsb,
    BitVec.toNat_setWidth, BitVec.toNat_setWidth, hhi, hlo, BitVec.msb_eq_decide, hlo]
  simp only [Bool.false_eq_true, if_false, decide_eq_true_eq]
  split <;> omega

end

/-! ## Branches -/

section

variable {w : ℕ} (hw : 0 < w)

include hw

theorem toInt_ofNat {k : ℕ} (hk : k < 2 ^ (w - 1)) : (BitVec.ofNat w k).toInt = k := by
  have hpow : 2 ^ w = 2 * 2 ^ (w - 1) := by rw [← pow_succ', Nat.sub_add_cancel hw]
  have htoNat : (BitVec.ofNat w k).toNat = k := by
    rw [BitVec.toNat_ofNat, Nat.mod_eq_of_lt (by omega)]
  rw [BitVec.toInt_eq_toNat_of_lt (by omega), htoNat]

/-- `bgtz`, on a difference. -/
theorem slt_ofNat_sub {n c : ℕ} (hn : n < 2 ^ (w - 1)) (hc : c < 2 ^ (w - 1)) :
    BitVec.slt 0#w (BitVec.ofNat w n - BitVec.ofNat w c) = decide (c < n) := by
  have hpow : 2 ^ w = 2 * 2 ^ (w - 1) := by rw [← pow_succ', Nat.sub_add_cancel hw]
  rw [BitVec.slt, BitVec.toInt_sub, toInt_ofNat hw hn, toInt_ofNat hw hc, BitVec.toInt_zero,
    Int.bmod_eq_of_le (by omega) (by omega)]
  exact decide_eq_decide.mpr (by omega)

/-- `bltz`, on a difference. -/
theorem slt_ofNat_sub_zero {n c : ℕ} (hn : n < 2 ^ (w - 1)) (hc : c < 2 ^ (w - 1)) :
    BitVec.slt (BitVec.ofNat w n - BitVec.ofNat w c) 0#w = decide (n < c) := by
  have hpow : 2 ^ w = 2 * 2 ^ (w - 1) := by rw [← pow_succ', Nat.sub_add_cancel hw]
  rw [BitVec.slt, BitVec.toInt_sub, toInt_ofNat hw hn, toInt_ofNat hw hc, BitVec.toInt_zero,
    Int.bmod_eq_of_le (by omega) (by omega)]
  exact decide_eq_decide.mpr (by omega)

end

/-! ## Registers across a trap

A trap handler has its storage in `mscratch`, swaps it with the `sp` of the program, and saves
`a0` and `a1` to work in. It comes back behind the call that has trapped. -/

section Trap

variable {w : ℕ} {x y z u : RegFile w} {scratch scratch' scratch'' epc epc' epc'' : BitVec w}
  {saved : RegFile w}

/-- A call with the registers `x` has returned with `y`: all but `a0` and `a1` are as they were. -/
structure CallKept (x : RegFile w) (scratch epc : BitVec w) (y : RegFile w)
    (scratch' epc' : BitVec w) : Prop where
  regs : ∀ r, r ≠ .a0 → r ≠ .a1 → y.get r = x.get r
  mscratch : scratch' = scratch
  mepc : epc' = epc + 4#w

/-- Past the entry of the handler: all registers but `a0` and `a1` are as they were. -/
structure InTrap (x : RegFile w) (scratch epc : BitVec w) (y : RegFile w)
    (scratch' epc' : BitVec w) : Prop where
  sp : y.get .sp = scratch
  mscratch : scratch' = x.get .sp
  mepc : epc' = epc
  regs : ∀ r ∉ [.sp, .a0, .a1], y.get r = x.get r

/-- In the handler, where `a2` and `a3` have been saved too. -/
structure ArgsSaved (x : RegFile w) (scratch epc : BitVec w) (y : RegFile w)
    (scratch' epc' : BitVec w) (saved : RegFile w) : Prop where
  sp : y.get .sp = scratch
  mscratch : scratch' = x.get .sp
  mepc : epc' = epc
  regs : ∀ r ∉ [.sp, .a0, .a1, .a2, .a3], y.get r = x.get r
  arg2 : saved.get .a2 = x.get .a2
  arg3 : saved.get .a3 = x.get .a3

/-- Writes to `a0` and `a1` are free. -/
theorem InTrap.of_regs (h : InTrap x scratch epc y scratch' epc')
    (hregs : ∀ r, r ≠ .a0 → r ≠ .a1 → z.get r = y.get r) (hscratch : scratch'' = scratch')
    (hepc : epc'' = epc') : InTrap x scratch epc z scratch'' epc'' where
  sp := (hregs .sp (by decide) (by decide)).trans h.sp
  mscratch := hscratch.trans h.mscratch
  mepc := hepc.trans h.mepc
  regs r hr := by
    have hr' := hr
    simp only [List.mem_cons, List.not_mem_nil, or_false, not_or] at hr'
    exact (hregs r hr'.2.1 hr'.2.2).trans (h.regs r hr)

/-- The handler returns: `sp` is swapped back, and `a0` and `a1` are those of the return. -/
theorem InTrap.returned (h : InTrap x scratch epc y scratch' epc')
    (hregs : ∀ r, r ≠ .a0 → r ≠ .a1 → z.get r = if r = .sp then scratch' else y.get r)
    (hscratch : scratch'' = y.get .sp) (hepc : epc'' = epc' + 4#w) :
    CallKept x scratch epc z scratch'' epc'' where
  regs r h0 h1 := by
    rw [hregs r h0 h1]
    by_cases hsp : r = .sp
    · rw [if_pos hsp, h.mscratch, hsp]
    · rw [if_neg hsp]
      exact h.regs r (by simp [hsp, h0, h1])
  mscratch := hscratch.trans h.sp
  mepc := by rw [hepc, h.mepc]

/-- `a2` and `a3` are saved, and used with `a0` and `a1`. -/
theorem InTrap.argsSaved (h : InTrap x scratch epc y scratch' epc') (saved : RegFile w)
    (hregs : ∀ r ∉ [.a0, .a1, .a2, .a3], z.get r = y.get r) :
    ArgsSaved x scratch epc z scratch' epc'
      ((saved.set .a2 (y.get .a2)).set .a3 (y.get .a3)) where
  sp := (hregs .sp (by decide)).trans h.sp
  mscratch := h.mscratch
  mepc := h.mepc
  regs r hr := by
    simp only [List.mem_cons, List.not_mem_nil, or_false, not_or] at hr
    obtain ⟨hsp, h0, h1, h2, h3⟩ := hr
    exact (hregs r (by simp [h0, h1, h2, h3])).trans (h.regs r (by simp [hsp, h0, h1]))
  arg2 := by
    rw [← h.regs .a2 (by decide)]
    simp
  arg3 := by
    rw [← h.regs .a3 (by decide)]
    simp

/-- `a2` and `a3` are given back. -/
theorem ArgsSaved.restored (h : ArgsSaved x scratch epc y scratch' epc' saved)
    (hregs : ∀ r ∉ [.a0, .a1, .a2, .a3], z.get r = y.get r) :
    InTrap x scratch epc ((z.set .a2 (saved.get .a2)).set .a3 (saved.get .a3)) scratch' epc' where
  sp := by
    rw [RegFile.get_set_of_ne (by decide), RegFile.get_set_of_ne (by decide),
      hregs .sp (by decide)]
    exact h.sp
  mscratch := h.mscratch
  mepc := h.mepc
  regs r hr := by
    simp only [List.mem_cons, List.not_mem_nil, or_false, not_or] at hr
    obtain ⟨hsp, h0, h1⟩ := hr
    by_cases h3 : r = .a3
    · simpa [h3] using h.arg3
    · by_cases h2 : r = .a2
      · simpa [h2] using h.arg2
      · rw [RegFile.get_set_of_ne h3, RegFile.get_set_of_ne h2,
          hregs r (by simp [h0, h1, h2, h3]), h.regs r (by simp [hsp, h0, h1, h2, h3])]

end Trap

end Rv
