import ScBl.Emu.Decode
import ScBl.Lib.Loops

/-!
# Misaligned loads and stores (`emu_misaligned_load`, `emu_misaligned_store`)

The two emulator entry points. Both fetch the instruction, decode it and move
its bytes one by one; an access that traps sends the hart back to the
instruction (TLB miss) or on to S-mode (any other cause).

Everything the entry points can do is said once here, as one equation for each
way through them:

* the fetch traps (`…_of_fetchFault`);
* the word encodes nothing the emulator accepts (`…_of_reject`);
* byte `i` is the first to trap (`…_of_fault`);
* all bytes go through (`…_of_complete`).
-/

namespace ScBl

open Bytes Loops

/-! ## The entry points -/

/-- An access in the byte loop trapped on `addr`: back to the instruction after
a TLB refill, or redirect to S-mode. -/
def dataAbort (m : Mmu) (insAddr addr : U64) (h : Hart) : U64 × Hart :=
  if h.mcause = excTlbMiss then (0#64, { emuProcessTlbMiss m h with mepc := insAddr })
  else (1#64, { h with mtval := addr, mepc := insAddr })

/-- The instruction fetch trapped: the same, with the load causes of the fetch
access turned into fetch causes. -/
def fetchAbort (m : Mmu) (insAddr : U64) (h : Hart) : U64 × Hart :=
  let mcause := h.mcause
  if mcause = excTlbMiss then (0#64, { emuProcessTlbMiss m h with mepc := insAddr })
  else
    let h :=
      if mcause = excMemLoad then { h with mcause := excMemFetch }
      else if mcause = excPfLoad then { h with mcause := excPfFetch }
      else h
    (1#64, { h with mtval := insAddr, mepc := insAddr })

/-- `ins_len` -/
def insLen (ins : U64) : U64 := if ins &&& 3#64 = 3#64 then 4#64 else 2#64

/-- One round of the load loop on the hart, `reg_val` and `val`. -/
def loadByte (m : Mmu) (insAddr memAddr : U64) (regType : RegType) (i : ℕ) :
    Hart × U64 × U64 → Option U64 × (Hart × U64 × U64)
  | (h, regVal, val) =>
    let (v, h) := emuLoad8 m (memAddr + BitVec.ofNat 64 i) h
    if v.slt 0#64 then
      let (ret, h) := dataAbort m insAddr (memAddr + BitVec.ofNat 64 i) h
      (some ret, (h, regVal, val))
    else if regType &&& rtFp = 0#32 then
      (none, (h, regVal ||| ((v &&& 0xff#64) <<< (i * 8)), val))
    else (none, (h, regVal, setByte val i (v.setWidth 8)))

/-- The sign extension after the load loop. -/
def extendReg (regType : RegType) (regVal : U64) : U64 :=
  if regType &&& rtFp = 0#32 then
    if regType &&& rtSign ≠ 0#32 then
      let shift := 8 * (8 - memLen regType)
      (regVal <<< shift).sshiftRight shift
    else regVal
  else regVal

/-- The register write at the end of `emu_misaligned_load`. -/
def writeBack (regType : RegType) (ins regVal val : U64) (h : Hart) : Hart :=
  let ins := if regType &&& rtRvc ≠ 0#32 then rvcRs2s ins <<< shRd else ins
  if regType &&& rtFp = 0#32 then setRd ins regVal h
  else if regType &&& rtBmask = rtB64 then setF64Reg ins 7 val h
  else setF32Reg ins 7 val h

/-- `emu_misaligned_load` -/
def emuMisalignedLoad (m : Mmu) (h : Hart) : U64 × Hart :=
  let insAddr := h.mepc
  let memAddr := h.mtval
  let (ins, h) := emuGetInstr m insAddr h
  if ins ≠ 0#64 then
    match decodeLoad ins with
    | none =>
      -- redirect to smode
      (1#64, { h with mcause := excMisLoad, mtval := memAddr, mepc := insAddr })
    | some regType =>
      match runUntil (loadByte m insAddr memAddr regType) (List.range (memLen regType))
          (h, 0#64, 0#64) with
      | (some ret, (h, _, _)) => (ret, h)
      | (none, (h, regVal, val)) =>
        let h := writeBack regType ins (extendReg regType regVal) val h
        (0#64, { h with mepc := insAddr + insLen ins })
  else fetchAbort m insAddr h

/-- One round of the store loop; `regVal` is what `reg_val` points to. -/
def storeByte (m : Mmu) (insAddr memAddr regVal : U64) (i : ℕ) (h : Hart) : Option U64 × Hart :=
  let (v, h) := emuStore8 m (memAddr + BitVec.ofNat 64 i) (byteOf regVal i) h
  if v.slt 0#64 then
    let (ret, h) := dataAbort m insAddr (memAddr + BitVec.ofNat 64 i) h
    (some ret, h)
  else (none, h)

/-- `emu_misaligned_store` -/
def emuMisalignedStore (m : Mmu) (h : Hart) : U64 × Hart :=
  let insAddr := h.mepc
  let memAddr := h.mtval
  let (ins, h) := emuGetInstr m insAddr h
  if ins ≠ 0#64 then
    match decodeStore ins h with
    | none =>
      -- redirect to smode
      (1#64, { h with mcause := excMisStore, mtval := memAddr, mepc := insAddr })
    | some (regType, regVal) =>
      match runUntil (storeByte m insAddr memAddr regVal) (List.range (memLen regType)) h with
      | (some ret, h) => (ret, h)
      | (none, h) => (0#64, { h with mepc := insAddr + insLen ins })
  else fetchAbort m insAddr h

/-! ## Aborts -/

/-- The hart after an emulation attempt that a trap on `addr` cut short. -/
def Hart.aborted (h : Hart) (insAddr cause addr : U64) : Hart :=
  { h with mepc := insAddr, mcause := cause, mtval := addr }

/-- The return value of an aborted attempt: 0 to repeat the instruction, 1 to
redirect to S-mode. -/
def abortRet (cause : U64) : U64 := if cause = excTlbMiss then 0#64 else 1#64

/-- The cause a fetch trap is reported with. -/
def fetchCause (cause : U64) : U64 :=
  if cause = excMemLoad then excMemFetch else if cause = excPfLoad then excPfFetch else cause

/-- The address a fetch trap is reported with; after a TLB miss `mtval` is left
as the hardware wrote it. -/
def fetchTval (cause insAddr addr : U64) : U64 := if cause = excTlbMiss then addr else insAddr

variable {m : Mmu} {h : Hart} {insAddr addr cause : U64}

/-- After a trap on a byte of the operand, the hart is as it was but for the trap registers, which
tell of that byte. -/
theorem dataAbort_trapped :
    dataAbort m insAddr addr (h.trapped m cause addr) =
      (abortRet cause, h.aborted insAddr cause addr) := by
  by_cases hmiss : cause = excTlbMiss
  · simp [dataAbort, Hart.trapped, Hart.aborted, abortRet, emuProcessTlbMiss, hmiss]
  · simp [dataAbort, Hart.trapped, Hart.aborted, abortRet, hmiss]

/-- After a trap on the instruction, they tell of the instruction, with the causes of a fetch. -/
theorem fetchAbort_trapped :
    fetchAbort m insAddr (h.trapped m cause addr) =
      (abortRet cause, h.aborted insAddr (fetchCause cause) (fetchTval cause insAddr addr)) := by
  have hne : excTlbMiss ≠ excMemLoad ∧ excTlbMiss ≠ excPfLoad := by decide
  have hpfmem : excPfLoad ≠ excMemLoad := by decide
  by_cases hmiss : cause = excTlbMiss
  · simp [fetchAbort, Hart.trapped, Hart.aborted, abortRet, fetchTval, fetchCause,
      emuProcessTlbMiss, hmiss, hne.1, hne.2]
  · simp only [fetchAbort, Hart.trapped, abortRet, fetchTval, fetchCause, hmiss, if_false]
    by_cases hmem : cause = excMemLoad
    · simp only [hmem, if_true]
      rfl
    · by_cases hpf : cause = excPfLoad
      · simp only [hpf, hpfmem, if_true, if_false]
        rfl
      · simp only [hmem, hpf, if_false]
        rfl

/-! ## Instruction fetch and decoding -/

/-- **Loads, fetch trap.** -/
theorem emuMisalignedLoad_of_fetchFault (hf : m.fetchFault h.mem h.mepc = some (addr, cause)) :
    emuMisalignedLoad m h =
      (abortRet cause, h.aborted h.mepc (fetchCause cause) (fetchTval cause h.mepc addr)) := by
  rw [emuMisalignedLoad, emuGetInstr_of_trap hf]
  exact fetchAbort_trapped

/-- **Stores, fetch trap.** -/
theorem emuMisalignedStore_of_fetchFault (hf : m.fetchFault h.mem h.mepc = some (addr, cause)) :
    emuMisalignedStore m h =
      (abortRet cause, h.aborted h.mepc (fetchCause cause) (fetchTval cause h.mepc addr)) := by
  rw [emuMisalignedStore, emuGetInstr_of_trap hf]
  exact fetchAbort_trapped

/-- **Loads, no such instruction.** Redirected to S-mode as it came. -/
theorem emuMisalignedLoad_of_reject (hf : m.fetchFault h.mem h.mepc = none)
    (hne : instrAt h.mem h.mepc ≠ 0#64)
    (hno : ∀ op : LoadOp, ¬ op.Encodes (instrAt h.mem h.mepc)) :
    emuMisalignedLoad m h = (1#64, { h with mcause := excMisLoad }) := by
  simp [emuMisalignedLoad, emuGetInstr_of_ok hf, hne, decodeLoad_eq_none_iff.mpr hno]

/-- **Stores, no such instruction.** Redirected to S-mode as it came. -/
theorem emuMisalignedStore_of_reject (hf : m.fetchFault h.mem h.mepc = none)
    (hne : instrAt h.mem h.mepc ≠ 0#64)
    (hno : ∀ op : StoreOp, ¬ op.Encodes (instrAt h.mem h.mepc)) :
    emuMisalignedStore m h = (1#64, { h with mcause := excMisStore }) := by
  simp [emuMisalignedStore, emuGetInstr_of_ok hf, hne, decodeStore_eq_none_iff.mpr hno]

/-- The all-zero word, which stands for a failed fetch, encodes no load. -/
theorem LoadOp.Encodes.ne_zero {op : LoadOp} {ins : U64} (h : op.Encodes ins) : ins ≠ 0#64 := by
  rintro rfl
  revert h
  cases op <;> decide

/-- Nor a store. -/
theorem StoreOp.Encodes.ne_zero {op : StoreOp} {ins : U64} (h : op.Encodes ins) : ins ≠ 0#64 := by
  rintro rfl
  revert h
  cases op <;> decide

/-! ## The byte loop of loads -/

variable {memAddr regVal : U64} {regType : RegType} {k : ℕ}

/-- The hart, `reg_val` and `val` after `k` rounds: the bytes so far are in the
one or in the other. -/
def loadedAt (h : Hart) (regType : RegType) (memAddr : U64) (k : ℕ) : Hart × U64 × U64 :=
  if regType &&& rtFp = 0#32 then (h, (leWord (bytesAt h.mem memAddr) k).setWidth 64, 0#64)
  else (h, 0#64, (leWord (bytesAt h.mem memAddr) k).setWidth 64)

/-- The loop over the bytes of a load does not touch the hart. -/
theorem loadedAt_fst : (loadedAt h regType memAddr k).1 = h := by
  rw [loadedAt]
  split_ifs <;> rfl

/-- A round that reads its byte: it goes to the next byte, and the value has one byte more at the
top. -/
theorem loadByte_of_ok (h : Hart) (insAddr : U64) (regType : RegType)
    (hok : m.lbu (memAddr + BitVec.ofNat 64 k) = none) :
    loadByte m insAddr memAddr regType k (loadedAt h regType memAddr k) =
      (none, loadedAt h regType memAddr (k + 1)) := by
  have hbyte : (h.mem (memAddr + BitVec.ofNat 64 k)).setWidth 64 &&& 0xff#64 =
      (bytesAt h.mem memAddr k).setWidth 64 := by
    refine BitVec.eq_of_getLsbD_eq fun i hi => ?_
    have heq : (0xff#64) = BitVec.ofNat 64 (2 ^ 8 - 1) := rfl
    rw [BitVec.getLsbD_and, heq,
      Words.getLsbD_lowMask, BitVec.getLsbD_setWidth, bytesAt]
    by_cases hi8 : i < 8
    · simp [hi, hi8]
    · simp [hi8, BitVec.getLsbD_of_ge _ i (Nat.not_lt.mp hi8)]
  by_cases hfp : regType &&& rtFp = 0#32
  · simp only [loadedAt, if_pos hfp, loadByte, emuLoad8_of_ok hok, byte_not_neg, hbyte]
    rw [Nat.mul_comm k 8, setWidth_leWord_or]
    rfl
  · simp only [loadedAt, if_neg hfp, loadByte, emuLoad8_of_ok hok, byte_not_neg]
    have heq' : h.mem (memAddr + BitVec.ofNat 64 k) = bytesAt h.mem memAddr k := rfl
    rw [BitVec.setWidth_setWidth_of_le _ (by decide), BitVec.setWidth_eq,
      heq', setByte_leWord]
    rfl

/-- A round that traps ends the loop, with the hart restored and the address of the byte reported.
-/
theorem loadByte_of_trap (insAddr : U64) (regType : RegType) {s : Hart × U64 × U64} (hs : s.1 = h)
    (htrap : m.lbu (memAddr + BitVec.ofNat 64 k) = some cause) :
    (loadByte m insAddr memAddr regType k s).1 = some (abortRet cause) ∧
      (loadByte m insAddr memAddr regType k s).2.1 =
        h.aborted insAddr cause (memAddr + BitVec.ofNat 64 k) := by
  obtain ⟨h', regVal, val⟩ := s
  obtain rfl : h' = h := hs
  simp [loadByte, emuLoad8_of_trap htrap, dataAbort_trapped]

/-- The load loop as long as no byte traps: after `k` rounds the value has the first `k` bytes. By
induction on `k`. -/
theorem runUntil_loadByte_of_ok (h : Hart) (insAddr : U64) (regType : RegType) :
    ∀ {k : ℕ}, (∀ i < k, m.lbu (memAddr + BitVec.ofNat 64 i) = none) →
      runUntil (loadByte m insAddr memAddr regType) (List.range k) (h, 0#64, 0#64) =
        (none, loadedAt h regType memAddr k) := by
  intro k
  induction k with
  | zero =>
    intro _
    simp [loadedAt, leWord]
  | succ n ih =>
    intro hok
    have hround := loadByte_of_ok h insAddr regType (hok n (by omega))
    rw [runUntil_range_succ (ih fun i hi => hok i (by omega)) (by rw [hround]), hround]

/-! ## The byte loop of stores -/

/-- The hart after `k` rounds: the first `k` bytes are in memory. -/
def Hart.stored (h : Hart) (memAddr regVal : U64) (k : ℕ) : Hart :=
  { h with mem := writeBytes h.mem memAddr regVal k }

/-- `fsw` keeps the four bytes it stores. -/
theorem byteOf_low_word (x : U64) {i : ℕ} (hi : i < 4) :
    byteOf (x &&& 0xffffffff#64) i = byteOf x i := by
  refine BitVec.eq_of_getLsbD_eq fun j hj => ?_
  have heq : (0xffffffff#64) = BitVec.ofNat 64 (2 ^ 32 - 1) := rfl
  rw [byteOf, byteOf, BitVec.getLsbD_extractLsb', BitVec.getLsbD_extractLsb', BitVec.getLsbD_and,
    heq, Words.getLsbD_lowMask]
  have hlt : 8 * i + j < 64 := by omega
  have hlt' : 8 * i + j < 32 := by omega
  simp [hlt, hlt']

/-- No store has more than eight bytes. -/
theorem StoreOp.bytes_le (op : StoreOp) : op.bytes ≤ 8 := by cases op <;> decide

/-- What a store writes is the content of the slot of its `rs2`. -/
theorem Hart.stored_source {op : StoreOp} {ins : U64} (hk : k ≤ op.bytes) :
    h.stored memAddr (op.source ins h) k = h.stored memAddr (h.slot (op.rs2 ins)) k := by
  have hk64 : k ≤ 2 ^ 64 := le_trans hk (le_trans op.bytes_le (by decide))
  rw [Hart.stored, Hart.stored, (writeBytes_eq_iff hk64).mpr]
  intro i hi
  cases op with
  | fsw => exact byteOf_low_word _ (lt_of_lt_of_le hi hk)
  | _ => rfl

/-- A round that writes its byte. The bytes of earlier rounds stay, also where the attempt ends
early. -/
theorem storeByte_of_ok (h : Hart) (insAddr regVal : U64) (hk : k < 2 ^ 64)
    (hok : m.sb (memAddr + BitVec.ofNat 64 k) = none) :
    storeByte m insAddr memAddr regVal k (h.stored memAddr regVal k) =
      (none, h.stored memAddr regVal (k + 1)) := by
  simp only [storeByte, emuStore8_of_ok hok, byte_not_neg, Hart.stored, writeBytes_succ hk]
  rfl

/-- A round that traps ends the loop, with the bytes of the rounds before it in memory. -/
theorem storeByte_of_trap (h : Hart) (insAddr regVal : U64)
    (htrap : m.sb (memAddr + BitVec.ofNat 64 k) = some cause) :
    storeByte m insAddr memAddr regVal k h =
      (some (abortRet cause), h.aborted insAddr cause (memAddr + BitVec.ofNat 64 k)) := by
  simp [storeByte, emuStore8_of_trap htrap, dataAbort_trapped]

/-- The store loop as long as no byte traps: after `k` rounds the first `k` bytes are in memory. By
induction on `k`. -/
theorem runUntil_storeByte_of_ok (h : Hart) (insAddr regVal : U64) :
    ∀ {k : ℕ}, k < 2 ^ 64 → (∀ i < k, m.sb (memAddr + BitVec.ofNat 64 i) = none) →
      runUntil (storeByte m insAddr memAddr regVal) (List.range k) h =
        (none, h.stored memAddr regVal k) := by
  intro k
  induction k with
  | zero =>
    intro _ _
    simp [Hart.stored]
  | succ n ih =>
    intro hk hok
    have hlt : n < 2 ^ 64 := by omega
    have hround := storeByte_of_ok h insAddr regVal
      hlt (hok n (by omega))
    rw [runUntil_range_succ (ih (by omega) fun i hi => hok i (by omega)) (by rw [hround]), hround]

/-! ## The register write of loads -/

/-- Fields that the register write reads: `rd`, or the compressed field. -/
def destField (regType : RegType) (ins : U64) : BitVec 5 :=
  if regType &&& rtRvc ≠ 0#32 then cregField ins else rdField ins

/-- The compressed field is moved to where `SET_F64_RD` looks for a register. -/
theorem fregEntry_rvcRs2s_shiftLeft (ins : U64) :
    fregEntry (rvcRs2s ins <<< shRd) 7 = cregField ins := by
  rw [← regNum_rvcRs2s_shiftLeft, regNum_eq]
  exact fregEntry_eq _ 7

/-- An integer load writes its register, unless that is `x0`. -/
theorem writeBack_int {ins val : U64} (hfp : regType &&& rtFp = 0#32) :
    writeBack regType ins regVal val h = h.setReg (.x (destField regType ins)) regVal := by
  by_cases hrvc : regType &&& rtRvc = 0#32
  · simp [writeBack, hfp, hrvc, setRd, destField, Hart.setReg, regNum_eq, rdField, shRd]
  · simp [writeBack, hfp, hrvc, setRd, destField, Hart.setReg, regNum_rvcRs2s_shiftLeft]

/-- A double is written as it is. -/
theorem writeBack_f64 {ins val : U64} (hfp : regType &&& rtFp ≠ 0#32)
    (hlen : regType &&& rtBmask = rtB64) :
    writeBack regType ins regVal val h = h.setReg (.f (destField regType ins)) val := by
  have hrd : fregEntry ins 7 = rdField ins := fregEntry_eq ins 7
  by_cases hrvc : regType &&& rtRvc = 0#32
  · simp [writeBack, hfp, hlen, hrvc, setF64Reg, destField, Hart.setReg, hrd]
  · simp [writeBack, hfp, hlen, hrvc, setF64Reg, destField, Hart.setReg,
      fregEntry_rvcRs2s_shiftLeft]

/-- A single is boxed: the upper half of the register becomes ones. -/
theorem writeBack_f32 {ins val : U64} (hfp : regType &&& rtFp ≠ 0#32)
    (hlen : regType &&& rtBmask ≠ rtB64) :
    writeBack regType ins regVal val h =
      h.setReg (.f (destField regType ins)) (BitVec.allOnes 32 ++ val.setWidth 32) := by
  have hrd : fregEntry ins 7 = rdField ins := fregEntry_eq ins 7
  by_cases hrvc : regType &&& rtRvc = 0#32
  · simp [writeBack, hfp, hlen, hrvc, setF32Reg, destField, Hart.setReg, hrd]
  · simp [writeBack, hfp, hlen, hrvc, setF32Reg, destField, Hart.setReg,
      fregEntry_rvcRs2s_shiftLeft]

/-- The shift pair sign-extends the bytes read. -/
theorem extendReg_of_sign {n : ℕ} (f : ℕ → U8) (hfp : regType &&& rtFp = 0#32)
    (hsign : regType &&& rtSign ≠ 0#32) (hlen : memLen regType = n) (hn : 0 < n) (hn8 : n ≤ 8) :
    extendReg regType ((leWord f n).setWidth 64) = (leWord f n).signExtend 64 := by
  rw [extendReg, if_pos hfp, if_pos hsign, hlen]
  simp only
  have heq : 8 * (8 - n) = 64 - 8 * n := by omega
  rw [heq,
    sshiftRight_shiftLeft_setWidth _ (by omega) (by omega)]

/-- An unsigned load is not extended. -/
theorem extendReg_of_zero (hsign : regType &&& rtSign = 0#32) :
    extendReg regType regVal = regVal := by
  simp [extendReg, hsign]

@[simp] theorem LoadOp.memLen_regType (op : LoadOp) : memLen op.regType = op.bytes := by
  cases op <;> rfl

@[simp] theorem StoreOp.memLen_regType (op : StoreOp) : memLen op.regType = op.bytes := by
  cases op <;> rfl

/-- **The register write.** After all bytes were read, the register that the
encoding names gets the value that the ISA gives it. -/
theorem writeBack_loadedAt (op : LoadOp) (ins memAddr : U64) (h : Hart) :
    writeBack op.regType ins (extendReg op.regType (loadedAt h op.regType memAddr op.bytes).2.1)
        (loadedAt h op.regType memAddr op.bytes).2.2 h =
      h.setReg (op.rd ins) (op.value (bytesAt h.mem memAddr)) := by
  have hint : op.regType &&& rtFp = 0#32 →
      (loadedAt h op.regType memAddr op.bytes).2.1 =
        (leWord (bytesAt h.mem memAddr) op.bytes).setWidth 64 := by
    intro hfp
    rw [loadedAt, if_pos hfp]
  have hfloat : op.regType &&& rtFp ≠ 0#32 →
      (loadedAt h op.regType memAddr op.bytes).2.2 =
        (leWord (bytesAt h.mem memAddr) op.bytes).setWidth 64 := by
    intro hfp
    rw [loadedAt, if_neg hfp]
  cases op with
  | lh | lw | cLw | cLwsp =>
    rw [writeBack_int (by decide), hint (by decide),
      extendReg_of_sign _ (by decide) (by decide) (LoadOp.memLen_regType _) (by decide) (by decide)]
    rfl
  | ld | cLd | cLdsp =>
    rw [writeBack_int (by decide), hint (by decide),
      extendReg_of_sign _ (by decide) (by decide) (LoadOp.memLen_regType _) (by decide) (by decide)]
    exact congrArg (h.setReg _) (BitVec.signExtend_eq (leWord (bytesAt h.mem memAddr) 8))
  | lhu | lwu =>
    rw [writeBack_int (by decide), hint (by decide), extendReg_of_zero (by decide)]
    rfl
  | flw =>
    rw [writeBack_f32 (by decide) (by decide), hfloat (by decide),
      BitVec.setWidth_setWidth_of_le _ (by decide)]
    exact congrArg (fun b : BitVec 32 => h.setReg _ (BitVec.allOnes 32 ++ b))
      (BitVec.setWidth_eq (leWord (bytesAt h.mem memAddr) 4))
  | fld | cFld | cFldsp =>
    rw [writeBack_f64 (by decide) (by decide), hfloat (by decide)]
    exact congrArg (h.setReg _) (BitVec.setWidth_eq (leWord (bytesAt h.mem memAddr) 8))

/-! ## The ways through the byte loop -/

/-- Instruction length as the ISA counts it. -/
theorem insLen_of_matches {ins : U64} {f : Format} (h : f.Matches ins) : insLen ins = f.length := by
  have hlow : ins &&& 3#64 = 3#64 ↔ ins.extractLsb' 0 2 = 0b11#2 :=
    Words.and_fieldMask_eq_iff (j := 0) (k := 2) (v := 0b11#2) (by decide)
  cases f with
  | word o f3 => rw [insLen, if_pos (hlow.mpr (Format.low_two_of_word h))]; rfl
  | half q f3 => rw [insLen, if_neg (fun h3 => Format.low_two_of_half h (hlow.mp h3))]; rfl

variable {i : ℕ}

/-- **Loads, trap at byte `i`.** No register is written, and the trap is reported at the byte that
raised it, with the instruction as the one to be repeated. -/
theorem emuMisalignedLoad_of_fault {op : LoadOp} (hf : m.fetchFault h.mem h.mepc = none)
    (hop : op.Encodes (instrAt h.mem h.mepc)) (hi : i < op.bytes)
    (hok : ∀ j < i, m.lbu (h.mtval + BitVec.ofNat 64 j) = none)
    (htrap : m.lbu (h.mtval + BitVec.ofNat 64 i) = some cause) :
    emuMisalignedLoad m h =
      (abortRet cause, h.aborted h.mepc cause (h.mtval + BitVec.ofNat 64 i)) := by
  obtain ⟨hret, hhart⟩ := loadByte_of_trap h.mepc op.regType
    (s := loadedAt h op.regType h.mtval i) loadedAt_fst htrap
  have hloop := runUntil_range_exit hi (runUntil_loadByte_of_ok h _ _ hok) hret
  simp [emuMisalignedLoad, emuGetInstr_of_ok hf, hop.ne_zero, decodeLoad_of_encodes hop, hloop,
    hhart]

/-- **Loads, all bytes read.** The value goes to the register that the word names, and `mepc` past
the instruction. -/
theorem emuMisalignedLoad_of_complete {op : LoadOp} (hf : m.fetchFault h.mem h.mepc = none)
    (hop : op.Encodes (instrAt h.mem h.mepc))
    (hok : ∀ j < op.bytes, m.lbu (h.mtval + BitVec.ofNat 64 j) = none) :
    emuMisalignedLoad m h =
      (0#64, { h.setReg (op.rd (instrAt h.mem h.mepc)) (op.value (bytesAt h.mem h.mtval)) with
        mepc := h.mepc + op.format.length }) := by
  have hloop := runUntil_loadByte_of_ok h h.mepc op.regType hok
  simp only [emuMisalignedLoad, emuGetInstr_of_ok hf, hop.ne_zero, decodeLoad_of_encodes hop,
    LoadOp.memLen_regType, hloop, ne_eq, not_false_eq_true, if_true]
  rw [loadedAt_fst, writeBack_loadedAt, insLen_of_matches hop.1]

/-- **Stores, trap at byte `i`.** The bytes below `i` are in memory, the registers are untouched,
and the trap tells of the address of byte `i`. -/
theorem emuMisalignedStore_of_fault {op : StoreOp} (hf : m.fetchFault h.mem h.mepc = none)
    (hop : op.Encodes (instrAt h.mem h.mepc)) (hi : i < op.bytes)
    (hok : ∀ j < i, m.sb (h.mtval + BitVec.ofNat 64 j) = none)
    (htrap : m.sb (h.mtval + BitVec.ofNat 64 i) = some cause) :
    emuMisalignedStore m h =
      (abortRet cause,
        (h.stored h.mtval (h.slot (op.rs2 (instrAt h.mem h.mepc))) i).aborted h.mepc cause
          (h.mtval + BitVec.ofNat 64 i)) := by
  have hi64 : i < 2 ^ 64 := by
    have := op.bytes_le
    omega
  have hround := storeByte_of_trap (h.stored h.mtval (op.source (instrAt h.mem h.mepc) h) i) h.mepc
    (op.source (instrAt h.mem h.mepc) h) htrap
  have hloop := runUntil_range_exit hi (runUntil_storeByte_of_ok h _ _ hi64 hok)
    (by rw [hround])
  have hle : i ≤ op.bytes := by omega
  rw [hround, Hart.stored_source hle] at hloop
  simp [emuMisalignedStore, emuGetInstr_of_ok hf, hop.ne_zero, decodeStore_of_encodes hop, hloop]

/-- **Stores, all bytes written.** The bytes of the source register are in memory, the lowest one
first, and `mepc` is past the instruction. -/
theorem emuMisalignedStore_of_complete {op : StoreOp} (hf : m.fetchFault h.mem h.mepc = none)
    (hop : op.Encodes (instrAt h.mem h.mepc))
    (hok : ∀ j < op.bytes, m.sb (h.mtval + BitVec.ofNat 64 j) = none) :
    emuMisalignedStore m h =
      (0#64, { h.stored h.mtval (h.slot (op.rs2 (instrAt h.mem h.mepc))) op.bytes with
        mepc := h.mepc + op.format.length }) := by
  have hlen : op.bytes < 2 ^ 64 := by
    have := op.bytes_le
    omega
  have hloop := runUntil_storeByte_of_ok h h.mepc (op.source (instrAt h.mem h.mepc) h) hlen hok
  simp only [emuMisalignedStore, emuGetInstr_of_ok hf, hop.ne_zero, decodeStore_of_encodes hop,
    StoreOp.memLen_regType, hloop, ne_eq, not_false_eq_true, if_true]
  rw [insLen_of_matches hop, Hart.stored_source (le_refl _)]

/-! ## Everything a call can do -/

/-- Either no byte traps, or one is the first to: the loops stop there, and do not look at the bytes
after it. -/
theorem first_fault (access : U64 → Option U64) (addr : U64) (n : ℕ) :
    (∀ i < n, access (addr + BitVec.ofNat 64 i) = none) ∨
      ∃ i < n, ∃ cause, (∀ j < i, access (addr + BitVec.ofNat 64 j) = none) ∧
        access (addr + BitVec.ofNat 64 i) = some cause := by
  induction n with
  | zero => exact .inl fun i hi => absurd hi (Nat.not_lt_zero i)
  | succ n ih =>
    rcases ih with hok | ⟨i, hi, cause, hok, htrap⟩
    · rcases hn : access (addr + BitVec.ofNat 64 n) with _ | cause
      · refine .inl fun i hi => ?_
        by_cases hin : i = n
        · rw [hin, hn]
        · exact hok i (by omega)
      · exact .inr ⟨n, by omega, cause, hok, hn⟩
    · exact .inr ⟨i, by omega, cause, hok, htrap⟩

/-- Instruction and operand bytes of a load are all readable. -/
def LoadCompletes (m : Mmu) (h : Hart) (op : LoadOp) : Prop :=
  m.fetchFault h.mem h.mepc = none ∧ op.Encodes (instrAt h.mem h.mepc) ∧
    ∀ i < op.bytes, m.lbu (h.mtval + BitVec.ofNat 64 i) = none

instance (m : Mmu) (h : Hart) (op : LoadOp) : Decidable (LoadCompletes m h op) := instDecidableAnd

/-- The instruction bytes of a store are readable, the operand bytes writable. -/
def StoreCompletes (m : Mmu) (h : Hart) (op : StoreOp) : Prop :=
  m.fetchFault h.mem h.mepc = none ∧ op.Encodes (instrAt h.mem h.mepc) ∧
    ∀ i < op.bytes, m.sb (h.mtval + BitVec.ofNat 64 i) = none

/-- The instruction at `mepc` encodes one load. -/
theorem LoadCompletes.op_unique {op op' : LoadOp} (hc : LoadCompletes m h op)
    (hc' : LoadCompletes m h op') : op' = op :=
  LoadOp.eq_of_encodes hc.2.1 hc'.2.1

/-- Or one store. -/
theorem StoreCompletes.op_unique {op op' : StoreOp} (hc : StoreCompletes m h op)
    (hc' : StoreCompletes m h op') : op' = op :=
  StoreOp.eq_of_encodes hc.2.1 hc'.2.1

theorem fetchAbort_regs : (fetchAbort m insAddr h).2.regs = h.regs := by
  simp only [fetchAbort]
  split_ifs <;> rfl

/-- A load that does not complete writes no register, whether it is rejected, cannot be fetched, or
traps at one of its bytes. -/
theorem emuMisalignedLoad_regs (hno : ∀ op : LoadOp, ¬ LoadCompletes m h op) :
    (emuMisalignedLoad m h).2.regs = h.regs := by
  rcases hf : m.fetchFault h.mem h.mepc with _ | ⟨addr, cause⟩
  · by_cases hz : instrAt h.mem h.mepc = 0#64
    · simp [emuMisalignedLoad, emuGetInstr_of_ok hf, hz, fetchAbort_regs]
    · by_cases hop : ∃ op : LoadOp, op.Encodes (instrAt h.mem h.mepc)
      · obtain ⟨op, hop⟩ := hop
        rcases first_fault m.lbu h.mtval op.bytes with hok | ⟨i, hi, cause, hok, htrap⟩
        · exact absurd ⟨hf, hop, hok⟩ (hno op)
        · rw [emuMisalignedLoad_of_fault hf hop hi hok htrap]
          rfl
      · rw [emuMisalignedLoad_of_reject hf hz fun op h => hop ⟨op, h⟩]
  · rw [emuMisalignedLoad_of_fetchFault hf]
    rfl

/-- A store writes no register. -/
theorem emuMisalignedStore_regs : (emuMisalignedStore m h).2.regs = h.regs := by
  rcases hf : m.fetchFault h.mem h.mepc with _ | ⟨addr, cause⟩
  · by_cases hz : instrAt h.mem h.mepc = 0#64
    · simp [emuMisalignedStore, emuGetInstr_of_ok hf, hz, fetchAbort_regs]
    · by_cases hop : ∃ op : StoreOp, op.Encodes (instrAt h.mem h.mepc)
      · obtain ⟨op, hop⟩ := hop
        rcases first_fault m.sb h.mtval op.bytes with hok | ⟨i, hi, cause, hok, htrap⟩
        · rw [emuMisalignedStore_of_complete hf hop hok]
          rfl
        · rw [emuMisalignedStore_of_fault hf hop hi hok htrap]
          rfl
      · rw [emuMisalignedStore_of_reject hf hz fun op h => hop ⟨op, h⟩]
  · rw [emuMisalignedStore_of_fetchFault hf]
    rfl

end ScBl
