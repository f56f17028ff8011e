import ScBl.Emu.Hart

/-!
# Loads and stores as the ISA defines them

The RV64GC load and store instructions that the emulator accepts: their encoding
as instruction fields, the register they name, the number of bytes they move and
what a load makes of them. Nothing here is taken from the emulator; the decoder
of `emu_ldst.c` is compared with these definitions in `ScBl.Emu.Decode`.

Opcodes are kept as bits 6..2 and quadrants as numbers below 3, so that a
format always tells a 32-bit from a 16-bit instruction, and a word matches at
most one format (`Format.matches_iff_eq`).
-/

namespace ScBl

open Bytes

/-! ## Fields -/

/-- The `rd` field. -/
def rdField (ins : U64) : BitVec 5 := ins.extractLsb' 7 5
/-- The `rs2` field of a 32-bit instruction. -/
def rs2Field (ins : U64) : BitVec 5 := ins.extractLsb' 20 5
/-- The `rs2` field of the stack-pointer forms of the C extension. -/
def crs2Field (ins : U64) : BitVec 5 := ins.extractLsb' 2 5
/-- The `rd'`/`rs2'` field of the C extension: `x8`..`x15`, `f8`..`f15`. -/
def cregField (ins : U64) : BitVec 5 := 0b01#2 ++ ins.extractLsb' 2 3

/-- An instruction format: the major opcode (bits 6..2, bits 1..0 being set) and
`funct3`, or the quadrant and `funct3` of a compressed instruction. -/
inductive Format
  | word (opcode : BitVec 5) (funct3 : BitVec 3)
  | half (quadrant : Fin 3) (funct3 : BitVec 3)
  deriving DecidableEq, Repr

/-- The instruction has the format. -/
def Format.Matches (ins : U64) : Format → Prop
  | .word opcode funct3 =>
    ins.extractLsb' 0 7 = opcode ++ 0b11#2 ∧ ins.extractLsb' 12 3 = funct3
  | .half quadrant funct3 =>
    ins.extractLsb' 0 2 = BitVec.ofNat 2 quadrant ∧ ins.extractLsb' 13 3 = funct3

instance (ins : U64) : (f : Format) → Decidable (f.Matches ins)
  | .word _ _ => instDecidableAnd
  | .half _ _ => instDecidableAnd

/-- Instruction length in bytes. -/
def Format.length : Format → U64
  | .word _ _ => 4#64
  | .half _ _ => 2#64

theorem extract_low_two (ins : U64) :
    (ins.extractLsb' 0 7).extractLsb' 0 2 = ins.extractLsb' 0 2 := by
  refine BitVec.eq_of_getLsbD_eq fun i hi => ?_
  simp

theorem append_low_two (o : BitVec 5) : (o ++ 0b11#2).extractLsb' 0 2 = 0b11#2 := by
  revert o
  decide

theorem append_low_two_inj {o o' : BitVec 5} (h : o ++ 0b11#2 = o' ++ 0b11#2) : o = o' := by
  revert o o'
  decide

theorem ofNat_quadrant_ne (q : Fin 3) : BitVec.ofNat 2 q ≠ 0b11#2 := by
  revert q
  decide

theorem ofNat_quadrant_inj {q q' : Fin 3} (h : BitVec.ofNat 2 q = BitVec.ofNat 2 q') : q = q' := by
  revert q q'
  decide

/-- The low two bits of a 32-bit instruction are set. -/
theorem Format.low_two_of_word {ins : U64} {o : BitVec 5} {f3 : BitVec 3}
    (h : (Format.word o f3).Matches ins) : ins.extractLsb' 0 2 = 0b11#2 := by
  rw [← extract_low_two, h.1, append_low_two]

/-- The low two bits of a 16-bit instruction are not both set. -/
theorem Format.low_two_of_half {ins : U64} {q : Fin 3} {f3 : BitVec 3}
    (h : (Format.half q f3).Matches ins) : ins.extractLsb' 0 2 ≠ 0b11#2 := by
  rw [h.1]
  exact ofNat_quadrant_ne q

/-- A word has one format at most: any two of them differ in a bit that both of them fix. -/
theorem Format.matches_iff_eq {ins : U64} {f g : Format} (hf : f.Matches ins) :
    g.Matches ins ↔ g = f := by
  constructor
  · intro hg
    cases f with
    | word o f3 =>
      cases g with
      | word o' f3' => rw [append_low_two_inj (hg.1.symm.trans hf.1), hg.2.symm.trans hf.2]
      | half q f3' => exact absurd (low_two_of_word hf) (low_two_of_half hg)
    | half q f3 =>
      cases g with
      | word o f3' => exact absurd (low_two_of_word hg) (low_two_of_half hf)
      | half q' f3' =>
        rw [ofNat_quadrant_inj (hg.1.symm.trans hf.1), hg.2.symm.trans hf.2]
  · rintro rfl
    exact hf

/-! ## Registers -/

/-- An architectural register. -/
inductive Reg
  | x (n : BitVec 5)
  | f (n : BitVec 5)
  deriving DecidableEq, Repr

/-- The hart with a register set. -/
def Hart.setReg (h : Hart) : Reg → U64 → Hart
  | .x n, v => { h with regs := Function.update h.regs n v }
  | .f n, v => { h with fregs := Function.update h.fregs n v }

/-- The architectural value of a register: `x0` reads as zero. -/
def Hart.archReg (h : Hart) : Reg → U64
  | .x n => if n = 0#5 then 0#64 else h.regs n
  | .f n => h.fregs n

/-! ## Loads -/

/-- The emulated loads. -/
inductive LoadOp
  | lh | lhu | lw | lwu | ld | flw | fld
  | cLw | cLd | cLwsp | cLdsp | cFld | cFldsp
  deriving DecidableEq, Repr

/-- Opcodes `LOAD` and `LOAD-FP`, quadrants 0 and 2. -/
def LoadOp.format : LoadOp → Format
  | .lh => .word 0b00000 0b001
  | .lw => .word 0b00000 0b010
  | .ld => .word 0b00000 0b011
  | .lhu => .word 0b00000 0b101
  | .lwu => .word 0b00000 0b110
  | .flw => .word 0b00001 0b010
  | .fld => .word 0b00001 0b011
  | .cFld => .half 0 0b001
  | .cLw => .half 0 0b010
  | .cLd => .half 0 0b011
  | .cFldsp => .half 2 0b001
  | .cLwsp => .half 2 0b010
  | .cLdsp => .half 2 0b011

/-- The stack-pointer loads with `rd = x0` are reserved encodings. -/
def LoadOp.Encodes (op : LoadOp) (ins : U64) : Prop :=
  op.format.Matches ins ∧ (op = .cLwsp ∨ op = .cLdsp → rdField ins ≠ 0#5)

instance (op : LoadOp) (ins : U64) : Decidable (op.Encodes ins) := instDecidableAnd

/-- Number of bytes loaded. -/
def LoadOp.bytes : LoadOp → ℕ
  | .lh | .lhu => 2
  | .lw | .lwu | .flw | .cLw | .cLwsp => 4
  | .ld | .fld | .cLd | .cLdsp | .cFld | .cFldsp => 8

/-- The destination register. -/
def LoadOp.rd (op : LoadOp) (ins : U64) : Reg :=
  match op with
  | .lh | .lhu | .lw | .lwu | .ld | .cLwsp | .cLdsp => .x (rdField ins)
  | .flw | .fld | .cFldsp => .f (rdField ins)
  | .cLw | .cLd => .x (cregField ins)
  | .cFld => .f (cregField ins)

/-- The value the destination gets when the bytes `f 0`, `f 1`, … are read:
sign-extended, zero-extended, or NaN-boxed for a single-precision number. -/
def LoadOp.value (op : LoadOp) (f : ℕ → U8) : U64 :=
  match op with
  | .lh => (leWord f 2).signExtend 64
  | .lhu => (leWord f 2).setWidth 64
  | .lw | .cLw | .cLwsp => (leWord f 4).signExtend 64
  | .lwu => (leWord f 4).setWidth 64
  | .ld | .cLd | .cLdsp | .fld | .cFld | .cFldsp => leWord f 8
  | .flw => BitVec.allOnes 32 ++ (leWord f 4 : BitVec 32)

/-! ## Stores -/

/-- The emulated stores. -/
inductive StoreOp
  | sh | sw | sd | fsw | fsd
  | cSw | cSd | cSwsp | cSdsp | cFsd | cFsdsp
  deriving DecidableEq, Repr

/-- Opcodes `STORE` and `STORE-FP`, quadrants 0 and 2. -/
def StoreOp.format : StoreOp → Format
  | .sh => .word 0b01000 0b001
  | .sw => .word 0b01000 0b010
  | .sd => .word 0b01000 0b011
  | .fsw => .word 0b01001 0b010
  | .fsd => .word 0b01001 0b011
  | .cFsd => .half 0 0b101
  | .cSw => .half 0 0b110
  | .cSd => .half 0 0b111
  | .cFsdsp => .half 2 0b101
  | .cSwsp => .half 2 0b110
  | .cSdsp => .half 2 0b111

def StoreOp.Encodes (op : StoreOp) (ins : U64) : Prop := op.format.Matches ins

instance (op : StoreOp) (ins : U64) : Decidable (op.Encodes ins) :=
  inferInstanceAs (Decidable (op.format.Matches ins))

/-- Number of bytes stored. -/
def StoreOp.bytes : StoreOp → ℕ
  | .sh => 2
  | .sw | .fsw | .cSw | .cSwsp => 4
  | .sd | .fsd | .cSd | .cSdsp | .cFsd | .cFsdsp => 8

/-- The register whose low bytes are stored. -/
def StoreOp.rs2 (op : StoreOp) (ins : U64) : Reg :=
  match op with
  | .sh | .sw | .sd => .x (rs2Field ins)
  | .fsw | .fsd => .f (rs2Field ins)
  | .cSw | .cSd => .x (cregField ins)
  | .cSwsp | .cSdsp => .x (crs2Field ins)
  | .cFsd => .f (cregField ins)
  | .cFsdsp => .f (crs2Field ins)

theorem LoadOp.format_inj {op op' : LoadOp} (h : op.format = op'.format) : op = op' := by
  cases op <;> cases op' <;> first | rfl | cases h

theorem StoreOp.format_inj {op op' : StoreOp} (h : op.format = op'.format) : op = op' := by
  cases op <;> cases op' <;> first | rfl | cases h

/-- A word encodes one load at most. -/
theorem LoadOp.eq_of_encodes {op op' : LoadOp} {ins : U64} (h : op.Encodes ins)
    (h' : op'.Encodes ins) : op' = op :=
  format_inj ((Format.matches_iff_eq h.1).mp h'.1)

/-- A word encodes one store at most. -/
theorem StoreOp.eq_of_encodes {op op' : StoreOp} {ins : U64} (h : op.Encodes ins)
    (h' : op'.Encodes ins) : op' = op :=
  format_inj ((Format.matches_iff_eq h).mp h')

end ScBl
