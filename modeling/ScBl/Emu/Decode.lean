import ScBl.Emu.Isa
import ScBl.Lib.Words

/-!
# The emulator's decoder (`emu_ldst.c`)

The `INSN_MASK_*`/`INSN_MATCH_*` chains of `emu_misaligned_load` and
`emu_misaligned_store`, the register-number macros and the jump-table offset of
the fp accessors, each compared with the ISA's fields: a mask/match test is a
format (`wordTest_iff`, `halfTest_iff`), so exactly one test of a chain can
succeed and the chain finds the instruction the word encodes
(`decodeLoad_of_encodes`, `decodeStore_of_encodes`, and the two `_eq_none_iff`).
-/

namespace ScBl

open Words

/-! ## Register numbers -/

/-- `SH_RD` -/
def shRd : ℕ := 7
/-- `SH_RS2` -/
def shRs2 : ℕ := 20
/-- `SH_RS2C` -/
def shRs2c : ℕ := 2

/-- `RVC_RS2S(instr)` -/
def rvcRs2s (instr : U64) : U64 := 8#64 + ((instr >>> shRs2c) &&& 7#64)

/-- `SHIFT_RIGHT(x, y)`: a negative shift goes left. -/
def shiftRight (x : U64) (y : ℤ) : U64 := if y < 0 then x <<< (-y).toNat else x >>> y.toNat

/-- `REG_NUM(instr, pos)` -/
def regNum (instr : U64) (pos : ℕ) : BitVec 5 := ((instr >>> pos) &&& 0x1f#64).setWidth 5

/-- `REG_PTR(instr, pos, regs)`, dereferenced. -/
def regPtr (instr : U64) (pos : ℕ) (h : Hart) : U64 := h.regs (regNum instr pos)

/-- `GET_RS2(instr, regs)` -/
def getRs2 (instr : U64) (h : Hart) : U64 := regPtr instr shRs2 h
/-- `GET_RS2S(instr, regs)` -/
def getRs2s (instr : U64) (h : Hart) : U64 := regPtr (rvcRs2s instr) 0 h
/-- `GET_RS2C(instr, regs)` -/
def getRs2c (instr : U64) (h : Hart) : U64 := regPtr instr shRs2c h

/-- `SET_RD(instr, regs, val)` -/
def setRd (instr : U64) (val : U64) (h : Hart) : Hart :=
  { h with regs := Function.update h.regs (regNum instr shRd) val }

/-- The entry of the fp jump table that `SHIFT_RIGHT(ins, pos - 3) & 0xf8` is
the offset of. Entry `n`, eight bytes long, accesses `f<n>`. -/
def fregEntry (ins : U64) (pos : ℤ) : BitVec 5 :=
  ((shiftRight ins (pos - 3) &&& 0xf8#64) >>> 3).setWidth 5

/-- `get_f32_reg`: `fsw` to `*res`, the other four bytes stay. -/
def getF32Reg (ins : U64) (pos : ℤ) (res : U64) (h : Hart) : U64 :=
  (res &&& 0xffffffff00000000#64) ||| (h.fregs (fregEntry ins pos) &&& 0xffffffff#64)

/-- `get_f64_reg`: `fsd` to `*res`. -/
def getF64Reg (ins : U64) (pos : ℤ) (h : Hart) : U64 := h.fregs (fregEntry ins pos)

/-- `set_f32_reg`: `flw`, which NaN-boxes the low four bytes of `*value`. -/
def setF32Reg (ins : U64) (pos : ℤ) (value : U64) (h : Hart) : Hart :=
  { h with
    fregs := Function.update h.fregs (fregEntry ins pos)
      (BitVec.allOnes 32 ++ value.setWidth 32) }

/-- `set_f64_reg`: `fld` -/
def setF64Reg (ins : U64) (pos : ℤ) (value : U64) (h : Hart) : Hart :=
  { h with fregs := Function.update h.fregs (fregEntry ins pos) value }

/-- `REG_NUM` is the five-bit field at `pos`. -/
theorem regNum_eq (instr : U64) (pos : ℕ) : regNum instr pos = instr.extractLsb' pos 5 := by
  have hfield := ushiftRight_and_lowMask instr pos 5
  have heq : BitVec.ofNat 64 (2 ^ 5 - 1) = 0x1f#64 := rfl
  rw [heq] at hfield
  rw [regNum, hfield, BitVec.setWidth_setWidth_of_le _ (by decide), BitVec.setWidth_eq]

/-- `RVC_RS2S` is the register that the compressed field names. -/
theorem rvcRs2s_eq (instr : U64) : rvcRs2s instr = (cregField instr).setWidth 64 := by
  have hfield := ushiftRight_and_lowMask instr 2 3
  have heq : BitVec.ofNat 64 (2 ^ 3 - 1) = 7#64 := rfl
  rw [heq] at hfield
  rw [rvcRs2s, shRs2c, hfield, cregField]
  generalize instr.extractLsb' 2 3 = field
  revert field
  decide

/-- The compressed field moved to `rd`, as the load path does it. -/
theorem regNum_rvcRs2s_shiftLeft (instr : U64) :
    regNum (rvcRs2s instr <<< shRd) shRd = cregField instr := by
  rw [regNum_eq, rvcRs2s_eq]
  generalize cregField instr = field
  revert field
  decide

/-- The compressed field at position 0, as the store path does it. -/
theorem regNum_rvcRs2s_zero (instr : U64) : regNum (rvcRs2s instr) 0 = cregField instr := by
  rw [regNum_eq, rvcRs2s_eq]
  generalize cregField instr = field
  revert field
  decide

theorem getLsbD_shiftRight {x : U64} {pos i : ℕ} (hi3 : 3 + i < 64) :
    (shiftRight x (pos - 3)).getLsbD (3 + i) = x.getLsbD (pos + i) := by
  by_cases hneg : (pos : ℤ) - 3 < 0
  · have heq : (-((pos : ℤ) - 3)).toNat = 3 - pos := by omega
    rw [shiftRight, if_pos hneg, heq, BitVec.getLsbD_shiftLeft]
    have hnot : ¬ 3 + i < 3 - pos := by omega
    have heq' : 3 + i - (3 - pos) = pos + i := by omega
    simp [hi3, hnot, heq']
  · have heq : ((pos : ℤ) - 3).toNat = pos - 3 := by omega
    have heq' : pos - 3 + (3 + i) = pos + i := by omega
    rw [shiftRight, if_neg hneg, heq, BitVec.getLsbD_ushiftRight, heq']

/-- The jump table is entered at the five-bit field at `pos`. -/
theorem fregEntry_eq (ins : U64) (pos : ℕ) :
    fregEntry ins pos = ins.extractLsb' pos 5 := by
  refine BitVec.eq_of_getLsbD_eq fun i hi => ?_
  have hmask : (0xf8#64).getLsbD (3 + i) = true := by
    have heq : (0xf8#64) = fieldMask 64 3 5 := rfl
    rw [heq, getLsbD_fieldMask (by decide)]
    have hlt : 3 + i < 8 := by omega
    simp [hlt]
  rw [fregEntry, BitVec.getLsbD_setWidth, BitVec.getLsbD_ushiftRight, BitVec.getLsbD_and, hmask,
    getLsbD_shiftRight (by omega), BitVec.getLsbD_extractLsb', Bool.and_true]

/-! ## `enum Reg_type` -/

/-- `enum Reg_type`: the byte count as a power of two, and flags. -/
abbrev RegType : Type := U32

def rtBmask : RegType := 3#32
def rtB16 : RegType := 1#32
def rtB32 : RegType := 2#32
def rtB64 : RegType := 3#32
def rtSign : RegType := 1#32 <<< 2
def rtFp : RegType := 1#32 <<< 3
def rtRvc : RegType := 1#32 <<< 4

def rtS16 : RegType := rtB16 ||| rtSign
def rtU16 : RegType := rtB16
def rtS32 : RegType := rtB32 ||| rtSign
def rtU32 : RegType := rtB32
def rtS64 : RegType := rtB64 ||| rtSign
def rtF32 : RegType := rtB32 ||| rtFp
def rtF64 : RegType := rtB64 ||| rtFp

/-- `1 << (reg_type & rt_bmask)` -/
def memLen (regType : RegType) : ℕ := 1 <<< (regType &&& rtBmask).toNat

/-! ## The mask/match chains -/

/-- `INSN_MASK_*` of the 32-bit encodings: opcode and `funct3`. -/
def insnMask : U64 := 0x707f#64
/-- `INSN_MASK_C_*`: quadrant and `funct3`. -/
def insnMaskC : U64 := 0xe003#64

def insnMatchLh : U64 := 0x1003#64
def insnMatchLw : U64 := 0x2003#64
def insnMatchLd : U64 := 0x3003#64
def insnMatchLhu : U64 := 0x5003#64
def insnMatchLwu : U64 := 0x6003#64
def insnMatchFlw : U64 := 0x2007#64
def insnMatchFld : U64 := 0x3007#64
def insnMatchSh : U64 := 0x1023#64
def insnMatchSw : U64 := 0x2023#64
def insnMatchSd : U64 := 0x3023#64
def insnMatchFsw : U64 := 0x2027#64
def insnMatchFsd : U64 := 0x3027#64
def insnMatchCFld : U64 := 0x2000#64
def insnMatchCLw : U64 := 0x4000#64
def insnMatchCLd : U64 := 0x6000#64
def insnMatchCFsd : U64 := 0xa000#64
def insnMatchCSw : U64 := 0xc000#64
def insnMatchCSd : U64 := 0xe000#64
def insnMatchCFldsp : U64 := 0x2002#64
def insnMatchCLwsp : U64 := 0x4002#64
def insnMatchCLdsp : U64 := 0x6002#64
def insnMatchCFsdsp : U64 := 0xa002#64
def insnMatchCSwsp : U64 := 0xc002#64
def insnMatchCSdsp : U64 := 0xe002#64

/-- The decoder of `emu_misaligned_load`; `none` is its last `else`. -/
def decodeLoad (ins : U64) : Option RegType :=
  if ins &&& insnMask = insnMatchLw then some rtS32
  else if ins &&& insnMask = insnMatchLd then some rtS64
  else if ins &&& insnMask = insnMatchLwu then some rtU32
  else if ins &&& insnMask = insnMatchFld then some rtF64
  else if ins &&& insnMask = insnMatchFlw then some rtF32
  else if ins &&& insnMask = insnMatchLh then some rtS16
  else if ins &&& insnMask = insnMatchLhu then some rtU16
  else if ins &&& insnMaskC = insnMatchCLd then some (rtS64 ||| rtRvc)
  else if ins &&& insnMaskC = insnMatchCLdsp ∧ regNum ins shRd ≠ 0#5 then some rtS64
  else if ins &&& insnMaskC = insnMatchCLw then some (rtS32 ||| rtRvc)
  else if ins &&& insnMaskC = insnMatchCLwsp ∧ regNum ins shRd ≠ 0#5 then some rtS32
  else if ins &&& insnMaskC = insnMatchCFld then some (rtF64 ||| rtRvc)
  else if ins &&& insnMaskC = insnMatchCFldsp then some rtF64
  else none

/-- The decoder of `emu_misaligned_store`, with the eight bytes that `reg_val`
points to: a slot of the trap frame, or `val`, zero at first, with the fp
register stored into it. -/
def decodeStore (ins : U64) (h : Hart) : Option (RegType × U64) :=
  if ins &&& insnMask = insnMatchSw then some (rtS32, getRs2 ins h)
  else if ins &&& insnMask = insnMatchSd then some (rtS64, getRs2 ins h)
  else if ins &&& insnMask = insnMatchFsd then some (rtF64, getF64Reg ins 20 h)
  else if ins &&& insnMask = insnMatchFsw then some (rtF32, getF32Reg ins 20 0#64 h)
  else if ins &&& insnMask = insnMatchSh then some (rtS16, getRs2 ins h)
  else if ins &&& insnMaskC = insnMatchCSd then some (rtS64 ||| rtRvc, getRs2s ins h)
  else if ins &&& insnMaskC = insnMatchCSdsp then some (rtS64 ||| rtRvc, getRs2c ins h)
  else if ins &&& insnMaskC = insnMatchCSw then some (rtS32 ||| rtRvc, getRs2s ins h)
  else if ins &&& insnMaskC = insnMatchCSwsp then some (rtS32 ||| rtRvc, getRs2c ins h)
  else if ins &&& insnMaskC = insnMatchCFsd then
    some (rtF64 ||| rtRvc, getF64Reg (rvcRs2s ins) 0 h)
  else if ins &&& insnMaskC = insnMatchCFsdsp then some (rtF64 ||| rtRvc, getF64Reg ins 2 h)
  else none

/-! ## Tests are formats -/

/-- The `INSN_MASK_*` constant of a format. -/
def Format.insnMask : Format → U64
  | .word _ _ => ScBl.insnMask
  | .half _ _ => insnMaskC

/-- The `INSN_MATCH_*` constant of a format. -/
def Format.insnMatch : Format → U64
  | .word opcode funct3 => (opcode ++ 0b11#2).setWidth 64 <<< 0 ||| funct3.setWidth 64 <<< 12
  | .half quadrant funct3 =>
    (BitVec.ofNat 2 quadrant).setWidth 64 <<< 0 ||| funct3.setWidth 64 <<< 13

/-- A mask/match test of the decoder. -/
def Format.Test (ins : U64) (f : Format) : Prop := ins &&& f.insnMask = f.insnMatch

instance (ins : U64) (f : Format) : Decidable (f.Test ins) :=
  inferInstanceAs (Decidable (ins &&& f.insnMask = f.insnMatch))

/-- **A mask/match test is a format.** The tests of the chain are written as constants; read by
fields, each of them asks for an opcode and a function, and for nothing else. -/
theorem Format.test_iff {ins : U64} {f : Format} : f.Test ins ↔ f.Matches ins := by
  cases f with
  | word opcode funct3 =>
    have heq : ScBl.insnMask = fieldMask 64 0 7 ||| fieldMask 64 12 3 := by decide
    rw [Test, insnMask, heq,
      insnMatch, and_or_eq_or_iff (by decide) (setWidth_shiftLeft_and_fieldMask _ (by decide))
        (setWidth_shiftLeft_and_fieldMask _ (by decide)),
      and_fieldMask_eq_iff (by decide), and_fieldMask_eq_iff (by decide)]
    rfl
  | half quadrant funct3 =>
    have heq' : insnMaskC = fieldMask 64 0 2 ||| fieldMask 64 13 3 := by decide
    rw [Test, insnMask, heq',
      insnMatch, and_or_eq_or_iff (by decide) (setWidth_shiftLeft_and_fieldMask _ (by decide))
        (setWidth_shiftLeft_and_fieldMask _ (by decide)),
      and_fieldMask_eq_iff (by decide), and_fieldMask_eq_iff (by decide)]
    rfl

/-- Only the test of the format that a word has succeeds. -/
theorem Format.test_iff_eq {ins : U64} {f g : Format} (hf : f.Matches ins) :
    g.Test ins ↔ g = f :=
  test_iff.trans (matches_iff_eq hf)

/-! ## Loads -/

/-- The `reg_type` of a load. -/
def LoadOp.regType : LoadOp → RegType
  | .lh => rtS16
  | .lhu => rtU16
  | .lw | .cLwsp => rtS32
  | .lwu => rtU32
  | .ld | .cLdsp => rtS64
  | .flw => rtF32
  | .fld | .cFldsp => rtF64
  | .cLw => rtS32 ||| rtRvc
  | .cLd => rtS64 ||| rtRvc
  | .cFld => rtF64 ||| rtRvc

/-- The load chain with its constants read as formats. As no word has two formats, the order of the
chain makes no difference below. -/
theorem decodeLoad_eq (ins : U64) :
    decodeLoad ins =
      if LoadOp.lw.format.Test ins then some rtS32
      else if LoadOp.ld.format.Test ins then some rtS64
      else if LoadOp.lwu.format.Test ins then some rtU32
      else if LoadOp.fld.format.Test ins then some rtF64
      else if LoadOp.flw.format.Test ins then some rtF32
      else if LoadOp.lh.format.Test ins then some rtS16
      else if LoadOp.lhu.format.Test ins then some rtU16
      else if LoadOp.cLd.format.Test ins then some (rtS64 ||| rtRvc)
      else if LoadOp.cLdsp.format.Test ins ∧ regNum ins shRd ≠ 0#5 then some rtS64
      else if LoadOp.cLw.format.Test ins then some (rtS32 ||| rtRvc)
      else if LoadOp.cLwsp.format.Test ins ∧ regNum ins shRd ≠ 0#5 then some rtS32
      else if LoadOp.cFld.format.Test ins then some (rtF64 ||| rtRvc)
      else if LoadOp.cFldsp.format.Test ins then some rtF64
      else none := rfl

/-- The decoder finds the load that a word encodes. -/
theorem decodeLoad_of_encodes {op : LoadOp} {ins : U64} (h : op.Encodes ins) :
    decodeLoad ins = some op.regType := by
  obtain ⟨hformat, hrd⟩ := h
  rw [decodeLoad_eq]
  simp only [Format.test_iff_eq hformat]
  rw [rdField, ← regNum_eq] at hrd
  cases op <;> simp [LoadOp.format, LoadOp.regType, shRd] at hrd ⊢ <;> exact hrd

/-- The decoder rejects exactly the words that encode no load, so that an unknown instruction is
never taken for a load. -/
theorem decodeLoad_eq_none_iff {ins : U64} :
    decodeLoad ins = none ↔ ∀ op : LoadOp, ¬ op.Encodes ins := by
  constructor
  · intro hnone op hop
    rw [decodeLoad_of_encodes hop] at hnone
    cases hnone
  · intro hno
    have hplain : ∀ op : LoadOp, op ≠ .cLwsp → op ≠ .cLdsp → ¬ op.format.Test ins := by
      intro op hlw hld htest
      refine hno op ⟨Format.test_iff.mp htest, fun hsp => ?_⟩
      rcases hsp with rfl | rfl
      · exact absurd rfl hlw
      · exact absurd rfl hld
    have hsp : ∀ op : LoadOp, ¬ (op.format.Test ins ∧ regNum ins shRd ≠ 0#5) := by
      rintro op ⟨htest, hrd⟩
      rw [regNum_eq] at hrd
      exact hno op ⟨Format.test_iff.mp htest, fun _ => hrd⟩
    rw [decodeLoad_eq, if_neg (hsp .cLdsp), if_neg (hsp .cLwsp)]
    simp [hplain]

/-! ## Stores -/

/-- The `reg_type` of a store. -/
def StoreOp.regType : StoreOp → RegType
  | .sh => rtS16
  | .sw => rtS32
  | .sd => rtS64
  | .fsw => rtF32
  | .fsd => rtF64
  | .cSw | .cSwsp => rtS32 ||| rtRvc
  | .cSd | .cSdsp => rtS64 ||| rtRvc
  | .cFsd | .cFsdsp => rtF64 ||| rtRvc

/-- What the trap frame and the fp registers hold for a register: slot 0 of
the frame for `x0`. -/
def Hart.slot (h : Hart) : Reg → U64
  | .x n => h.regs n
  | .f n => h.fregs n

/-- The eight bytes a store takes its data from. `fsw` fills four of them. -/
def StoreOp.source (op : StoreOp) (ins : U64) (h : Hart) : U64 :=
  match op with
  | .fsw => h.slot (op.rs2 ins) &&& 0xffffffff#64
  | _ => h.slot (op.rs2 ins)

/-- The store chain with its constants read as formats. -/
theorem decodeStore_eq (ins : U64) (h : Hart) :
    decodeStore ins h =
      if StoreOp.sw.format.Test ins then some (rtS32, getRs2 ins h)
      else if StoreOp.sd.format.Test ins then some (rtS64, getRs2 ins h)
      else if StoreOp.fsd.format.Test ins then some (rtF64, getF64Reg ins 20 h)
      else if StoreOp.fsw.format.Test ins then some (rtF32, getF32Reg ins 20 0#64 h)
      else if StoreOp.sh.format.Test ins then some (rtS16, getRs2 ins h)
      else if StoreOp.cSd.format.Test ins then some (rtS64 ||| rtRvc, getRs2s ins h)
      else if StoreOp.cSdsp.format.Test ins then some (rtS64 ||| rtRvc, getRs2c ins h)
      else if StoreOp.cSw.format.Test ins then some (rtS32 ||| rtRvc, getRs2s ins h)
      else if StoreOp.cSwsp.format.Test ins then some (rtS32 ||| rtRvc, getRs2c ins h)
      else if StoreOp.cFsd.format.Test ins then
        some (rtF64 ||| rtRvc, getF64Reg (rvcRs2s ins) 0 h)
      else if StoreOp.cFsdsp.format.Test ins then some (rtF64 ||| rtRvc, getF64Reg ins 2 h)
      else none := rfl

theorem getRs2_eq (ins : U64) (h : Hart) : getRs2 ins h = h.slot (.x (rs2Field ins)) := by
  rw [getRs2, regPtr, regNum_eq]
  rfl

theorem getRs2s_eq (ins : U64) (h : Hart) : getRs2s ins h = h.slot (.x (cregField ins)) := by
  rw [getRs2s, regPtr, regNum_rvcRs2s_zero]
  rfl

theorem getRs2c_eq (ins : U64) (h : Hart) : getRs2c ins h = h.slot (.x (crs2Field ins)) := by
  rw [getRs2c, regPtr, regNum_eq]
  rfl

theorem fregEntry_rvcRs2s (ins : U64) : fregEntry (rvcRs2s ins) 0 = cregField ins := by
  rw [← regNum_rvcRs2s_zero, regNum_eq]
  exact fregEntry_eq _ 0

/-- The decoder finds the store that a word encodes, and its data. No word encodes two stores, so
that the order of the tests in the chain does not matter. -/
theorem decodeStore_of_encodes {op : StoreOp} {ins : U64} (h : op.Encodes ins) (hart : Hart) :
    decodeStore ins hart = some (op.regType, op.source ins hart) := by
  have h20 : fregEntry ins 20 = rs2Field ins := fregEntry_eq ins 20
  have h2 : fregEntry ins 2 = crs2Field ins := fregEntry_eq ins 2
  rw [decodeStore_eq]
  simp only [Format.test_iff_eq h, getRs2_eq, getRs2s_eq, getRs2c_eq, getF64Reg, getF32Reg,
    fregEntry_rvcRs2s, h20, h2]
  cases op <;> simp [StoreOp.format, StoreOp.regType, StoreOp.source, StoreOp.rs2, Hart.slot]

/-- The decoder rejects exactly the words that encode no store: the chain tests for all of them, and
for nothing else. -/
theorem decodeStore_eq_none_iff {ins : U64} {hart : Hart} :
    decodeStore ins hart = none ↔ ∀ op : StoreOp, ¬ op.Encodes ins := by
  constructor
  · intro hnone op hop
    rw [decodeStore_of_encodes hop] at hnone
    cases hnone
  · intro hno
    have htest : ∀ op : StoreOp, ¬ op.format.Test ins :=
      fun op ht => hno op (Format.test_iff.mp ht)
    simp [decodeStore_eq, htest]

end ScBl
