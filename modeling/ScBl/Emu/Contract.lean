import ScBl.Emu.Misaligned

/-!
# Emulated loads implement the ISA

`emuMisalignedLoad_isa`: a load of the emulator's list leaves the destination
register of the encoding with the value the ISA gives it and moves on to the
next instruction; any other instruction goes to S-mode with the trap it came
with.

A load to `x0` is a load of the list too: it is completed, not redirected.
-/

namespace ScBl

open Bytes

/-- **Loads.** With a readable instruction and readable bytes, the emulator completes exactly the
loads of `LoadOp`: it writes the register that the encoding names with the value that the
instruction loads, and goes on with the next instruction. Every other word is redirected to S-mode.
-/
theorem emuMisalignedLoad_isa (m : Mmu) (h : Hart) (hfetch : m.fetchFault h.mem h.mepc = none)
    (hne : instrAt h.mem h.mepc ≠ 0#64) :
    (∀ op : LoadOp, op.Encodes (instrAt h.mem h.mepc) → op.rd (instrAt h.mem h.mepc) ≠ .x 0#5 →
      (∀ i < op.bytes, m.lbu (h.mtval + BitVec.ofNat 64 i) = none) →
      emuMisalignedLoad m h =
        (0#64, { h.setReg (op.rd (instrAt h.mem h.mepc)) (op.value (bytesAt h.mem h.mtval)) with
          mepc := h.mepc + op.format.length })) ∧
    ((∀ op : LoadOp, ¬ op.Encodes (instrAt h.mem h.mepc)) →
      emuMisalignedLoad m h = (1#64, { h with mcause := excMisLoad })) := by
  constructor
  · intro op hop _ hok
    exact emuMisalignedLoad_of_complete hfetch hop hok
  · intro hno
    exact emuMisalignedLoad_of_reject hfetch hne hno

/-- A memory system that lets every access through. -/
def Mmu.allOk : Mmu where
  lhu := fun _ => none
  lbu := fun _ => none
  sb := fun _ => none
  accessPc := 0#64
  tempLabel := 0#64
  trapStatus := id

theorem Mmu.fetchFault_allOk (mem : U64 → U8) (pc : U64) : Mmu.allOk.fetchFault mem pc = none := by
  simp [Mmu.fetchFault, Mmu.allOk]

/-- A hart about to emulate the instruction word `ins` at `pc` on an operand at
`addr`; the rest of the memory holds `fill`. -/
def Hart.sample (pc : U64) (ins : U32) (addr : U64) (fill : U8) (regs : BitVec 5 → U64) :
    Hart where
  regs := regs
  fregs := fun _ => 0#64
  mem := fun a => if (a - pc).toNat < 4 then byteOf ins (a - pc).toNat else fill
  mepc := pc
  mcause := 0#64
  mtval := addr
  mtvec := 0#64
  mstatus := 0#64

/-- `lh x5, 0(x6)` of the bytes 0x80 0x80 puts 0xffffffffffff8080 into slot 5. -/
theorem emuMisalignedLoad_isa_lh :
    emuMisalignedLoad Mmu.allOk (Hart.sample 0#64 0x00031283#32 0x101#64 0x80#8 fun _ => 0#64) =
      (0#64, { (Hart.sample 0#64 0x00031283#32 0x101#64 0x80#8 fun _ => 0#64).setReg (.x 5#5)
        0xffffffffffff8080#64 with mepc := 4#64 }) := by
  have hload := (emuMisalignedLoad_isa Mmu.allOk
    (Hart.sample 0#64 0x00031283#32 0x101#64 0x80#8 fun _ => 0#64)
    (Mmu.fetchFault_allOk _ _) (by decide)).1 .lh (by decide) (by decide) (fun _ _ => rfl)
  rw [hload]
  rfl

/-- The list is not limited to destinations other than `x0`: `lw x0, 0(x1)` is
completed, although it names no other destination. -/
theorem emuMisalignedLoad_x0_not_redirected :
    ¬ ∀ (m : Mmu) (h : Hart), m.fetchFault h.mem h.mepc = none → instrAt h.mem h.mepc ≠ 0#64 →
      (∀ op : LoadOp, op.Encodes (instrAt h.mem h.mepc) →
        op.rd (instrAt h.mem h.mepc) = .x 0#5) →
      (emuMisalignedLoad m h).1 = 1#64 := by
  intro hall
  have hload := emuMisalignedLoad_of_complete (m := Mmu.allOk)
    (h := Hart.sample 0#64 0x0000a003#32 0x101#64 0#8 fun _ => 0#64)
    (Mmu.fetchFault_allOk _ _) (show LoadOp.Encodes .lw _ by decide) (fun _ _ => rfl)
  have hone := hall Mmu.allOk (Hart.sample 0#64 0x0000a003#32 0x101#64 0#8 fun _ => 0#64)
    (Mmu.fetchFault_allOk _ _) (by decide)
    (fun op hop => by
      have hlw : op = .lw := LoadOp.eq_of_encodes (by decide) hop
      subst hlw
      decide)
  rw [hload] at hone
  exact absurd hone (by decide)

end ScBl
