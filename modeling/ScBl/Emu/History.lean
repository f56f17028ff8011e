import ScBl.Emu.Contract
import ScBl.Lib.Runs

/-!
# Histories of emulated traps

One hart takes one misaligned access after the other. Trap entry rewrites the
slots of `x1`..`x31` every time, but never slot 0, and the load path writes any
slot: a load to `x0` leaves its value in slot 0, and the store path takes `x0`
from there.

`eachStep_storeLaw_iff` says when that shows. The bits left in slot 0 are a
function of the history alone (`residue`): the value of the last completed load
to `x0`. Stores write the architectural value in every history in which those
that name `x0` find zero bytes there, and in no other.
-/

namespace ScBl

open Bytes Runs

/-! ## Traps -/

/-- The slots of `trap_frame`. -/
abbrev Frame : Type := BitVec 5 → U64

/-- A misaligned access: the hart when it traps, and how its memory answers the
emulator. -/
structure MisTrap where
  isStore : Bool
  mmu : Mmu
  hart : Hart

/-- The state the emulator is entered in: the registers were saved over the
frame, except for slot 0. -/
def MisTrap.enter (e : MisTrap) (frame : Frame) : Hart :=
  { e.hart with
    regs := fun n => if n = 0#5 then frame 0#5 else e.hart.regs n
    mcause := if e.isStore then excMisStore else excMisLoad }

/-- The trap is emulated, and leaves its frame to the next one. -/
def takeTrap (frame : Frame) (e : MisTrap) : Frame :=
  if e.isStore then (emuMisalignedStore e.mmu (e.enter frame)).2.regs
  else (emuMisalignedLoad e.mmu (e.enter frame)).2.regs

/-- The frame before the first trap. -/
def zeroFrame : Frame := fun _ => 0#64

/-- What a completed store has to do: the low bytes of the architectural value
of its `rs2` go to memory, `mepc` moves on, nothing else changes. -/
def StoreLaw (frame : Frame) (e : MisTrap) : Prop :=
  e.isStore = true → ∀ op : StoreOp, StoreCompletes e.mmu (e.enter frame) op →
    emuMisalignedStore e.mmu (e.enter frame) =
      (0#64, { e.enter frame with
        mem := writeBytes e.hart.mem e.hart.mtval
          ((e.enter frame).archReg (op.rs2 (instrAt e.hart.mem e.hart.mepc))) op.bytes
        mepc := e.hart.mepc + op.format.length })

/-! ## Slot 0 -/

/-- The loads, in the order of `LoadOp`. -/
def LoadOp.all : List LoadOp :=
  [.lh, .lhu, .lw, .lwu, .ld, .flw, .fld, .cLw, .cLd, .cLwsp, .cLdsp, .cFld, .cFldsp]

theorem LoadOp.mem_all (op : LoadOp) : op ∈ LoadOp.all := by cases op <;> decide

/-- The load to `x0` that a trap completes, if it does. -/
def MisTrap.x0Load (e : MisTrap) : Option LoadOp :=
  if e.isStore then none
  else LoadOp.all.find? fun op => decide
    (LoadCompletes e.mmu e.hart op ∧ op.rd (instrAt e.hart.mem e.hart.mepc) = .x 0#5)

/-- The value of the last completed load to `x0`, one trap later. -/
def residue (r : U64) (e : MisTrap) : U64 :=
  match e.x0Load with
  | some op => op.value (bytesAt e.hart.mem e.hart.mtval)
  | none => r

/-- A completed store of `x0` meets no set bit in the bytes it writes. -/
def X0StoreClear (r : U64) (e : MisTrap) : Prop :=
  e.isStore = true → ∀ op : StoreOp, StoreCompletes e.mmu e.hart op →
    op.rs2 (instrAt e.hart.mem e.hart.mepc) = .x 0#5 → ∀ i < op.bytes, byteOf r i = 0#8

variable {frame : Frame} {e : MisTrap}

theorem MisTrap.x0Load_eq_some {op : LoadOp} :
    e.x0Load = some op ↔ e.isStore = false ∧ LoadCompletes e.mmu e.hart op ∧
      op.rd (instrAt e.hart.mem e.hart.mepc) = .x 0#5 := by
  by_cases hs : e.isStore = true
  · simp [x0Load, hs]
  · rw [x0Load, if_neg hs]
    constructor
    · intro h
      exact ⟨by simpa using hs, by simpa using List.find?_some h⟩
    · rintro ⟨_, hc, hrd⟩
      rcases hf : LoadOp.all.find? _ with _ | op'
      · have hnone := List.find?_eq_none.mp hf op (LoadOp.mem_all op)
        simp [hc, hrd] at hnone
      · have hop' : LoadCompletes e.mmu e.hart op' ∧
            op'.rd (instrAt e.hart.mem e.hart.mepc) = .x 0#5 := by
          simpa using List.find?_some hf
        rw [hc.op_unique hop'.1]

theorem residue_of_store (hs : e.isStore = true) (r : U64) : residue r e = r := by
  simp [residue, MisTrap.x0Load, hs]

/-- Slot 0 after a completed load. -/
theorem setReg_slot_zero (h : Hart) (rd : Reg) (v : U64) :
    (h.setReg rd v).regs 0#5 = if rd = .x 0#5 then v else h.regs 0#5 := by
  cases rd with
  | x n =>
    by_cases hn : n = 0#5
    · simp [Hart.setReg, hn]
    · simp [Hart.setReg, hn, Function.update_of_ne (Ne.symm hn)]
  | f n => simp [Hart.setReg]

/-- **Slot 0 holds the residue of the history.** A load to `x0` writes the slot, a store of `x0`
reads it, and no other instruction comes near it. -/
theorem takeTrap_slot_zero : takeTrap frame e 0#5 = residue (frame 0#5) e := by
  by_cases hs : e.isStore = true
  · rw [takeTrap, if_pos hs, emuMisalignedStore_regs, residue_of_store hs]
    rfl
  · rw [takeTrap, if_neg hs]
    by_cases hc : ∃ op : LoadOp, LoadCompletes e.mmu e.hart op
    · obtain ⟨op, hc⟩ := hc
      rw [emuMisalignedLoad_of_complete (h := e.enter frame) hc.1 hc.2.1 hc.2.2]
      simp only [setReg_slot_zero]
      by_cases hrd : op.rd (instrAt e.hart.mem e.hart.mepc) = .x 0#5
      · have hx0 := MisTrap.x0Load_eq_some.mpr ⟨by simpa using hs, hc, hrd⟩
        rw [residue, hx0]
        exact if_pos hrd
      · have hx0 : e.x0Load = none := by
          rw [Option.eq_none_iff_forall_ne_some]
          intro op' hop'
          obtain ⟨_, hc', hrd'⟩ := MisTrap.x0Load_eq_some.mp hop'
          rw [hc.op_unique hc'] at hrd'
          exact hrd hrd'
        rw [residue, hx0]
        exact if_neg hrd
    · have hno : ∀ op : LoadOp, ¬ LoadCompletes e.mmu e.hart op := fun op h => hc ⟨op, h⟩
      have hx0 : e.x0Load = none := by
        rw [Option.eq_none_iff_forall_ne_some]
        intro op' hop'
        exact hno op' (MisTrap.x0Load_eq_some.mp hop').2.1
      rw [emuMisalignedLoad_regs (h := e.enter frame) hno, residue, hx0]
      rfl

/-! ## Stores -/

theorem slot_eq_archReg {h : Hart} {r : Reg} (hr : r ≠ .x 0#5) : h.slot r = h.archReg r := by
  cases r with
  | x n =>
    have hn : n ≠ 0#5 := fun he => hr (by rw [he])
    rw [Hart.slot, Hart.archReg, if_neg hn]
  | f n => rfl

/-- The store law is about the bytes written: whatever they are, the rest of the
hart is as it says. -/
theorem storeLaw_iff_mem :
    StoreLaw frame e ↔ (e.isStore = true → ∀ op : StoreOp, StoreCompletes e.mmu e.hart op →
      writeBytes e.hart.mem e.hart.mtval
          ((e.enter frame).slot (op.rs2 (instrAt e.hart.mem e.hart.mepc))) op.bytes =
        writeBytes e.hart.mem e.hart.mtval
          ((e.enter frame).archReg (op.rs2 (instrAt e.hart.mem e.hart.mepc))) op.bytes) := by
  refine imp_congr_right fun _ => forall_congr' fun op => imp_congr_right fun hc => ?_
  rw [emuMisalignedStore_of_complete (h := e.enter frame) hc.1 hc.2.1 hc.2.2]
  constructor
  · intro heq
    exact congrArg (fun r : U64 × Hart => r.2.mem) heq
  · intro hmem
    exact congrArg (fun mem : U64 → U8 => ((0#64 : U64), ({ e.enter frame with
      mem := mem, mepc := e.hart.mepc + op.format.length } : Hart))) hmem

/-- **One store.** It meets the law exactly when slot 0 is clear where it
matters. -/
theorem storeLaw_iff : StoreLaw frame e ↔ X0StoreClear (frame 0#5) e := by
  rw [storeLaw_iff_mem]
  refine imp_congr_right fun _ => forall_congr' fun op => imp_congr_right fun _ => ?_
  by_cases hrs : op.rs2 (instrAt e.hart.mem e.hart.mepc) = .x 0#5
  · have hlen : op.bytes ≤ 2 ^ 64 := le_trans op.bytes_le (by decide)
    have hzero : ∀ i, byteOf (0#64 : U64) i = 0#8 := by simp [byteOf]
    have harch : (e.enter frame).archReg (.x 0#5) = 0#64 := rfl
    have hslot : (e.enter frame).slot (.x 0#5) = frame 0#5 := rfl
    simp only [hrs, harch, hslot, writeBytes_eq_iff hlen, hzero, true_implies]
  · simp only [slot_eq_archReg hrs, hrs, false_implies]

/-! ## Histories -/

/-- **Histories, from any frame.** -/
theorem eachStep_storeLaw_iff_of_slot {r : U64} {history : List MisTrap} (hr : frame 0#5 = r) :
    EachStep takeTrap StoreLaw frame history ↔ EachStep residue X0StoreClear r history := by
  refine eachStep_iff_of_sim (R := fun frame r => frame 0#5 = r) ?_ ?_ hr
  · rintro frame _ e rfl
    exact storeLaw_iff
  · rintro frame _ e rfl
    exact takeTrap_slot_zero

/-- **Histories of emulated traps.** Every completed store writes the
architectural value exactly when no completed store of `x0` comes after a
completed load to `x0` with set bits in the bytes it writes. -/
theorem eachStep_storeLaw_iff (history : List MisTrap) :
    EachStep takeTrap StoreLaw zeroFrame history ↔
      EachStep residue X0StoreClear 0#64 history :=
  eachStep_storeLaw_iff_of_slot rfl

/-- Without loads to `x0` the law always holds. -/
theorem eachStep_storeLaw_of_no_x0Load {history : List MisTrap}
    (hno : ∀ e ∈ history, e.x0Load = none) : EachStep takeTrap StoreLaw zeroFrame history := by
  rw [eachStep_storeLaw_iff_of_slot (r := 0#64) rfl]
  have hclear : ∀ (r : U64) (e : MisTrap), r = 0#64 → e.x0Load = none →
      X0StoreClear r e ∧ residue r e = 0#64 := by
    rintro _ e rfl hx0
    refine ⟨fun _ op _ _ i _ => by simp [byteOf], ?_⟩
    rw [residue, hx0]
  exact (EachStep.of_inv _ hclear rfl (EachStep.of_mem hno)).1

/-- `lw x0, 0(x1)` of four bytes `0xff`. -/
def x0LoadTrap : MisTrap where
  isStore := false
  mmu := Mmu.allOk
  hart := Hart.sample 0#64 0x0000a003#32 0x101#64 0xff#8 fun _ => 0#64

/-- `sw x0, 0(x1)` -/
def x0StoreTrap : MisTrap where
  isStore := true
  mmu := Mmu.allOk
  hart := Hart.sample 0#64 0x0000a023#32 0x101#64 0#8 fun _ => 0#64

/-- The store of `x0` after the load to `x0` writes `0xffffffff`. -/
theorem x0_history_breaks_storeLaw :
    ¬ EachStep takeTrap StoreLaw zeroFrame [x0LoadTrap, x0StoreTrap] := by
  rw [eachStep_storeLaw_iff_of_slot (r := 0#64) rfl]
  rintro ⟨_, hstore, _⟩
  have hx0 : x0LoadTrap.x0Load = some .lw :=
    MisTrap.x0Load_eq_some.mpr
      ⟨rfl, ⟨Mmu.fetchFault_allOk _ _, by decide, fun _ _ => rfl⟩, by decide⟩
  rw [residue, hx0] at hstore
  have hbyte := hstore rfl .sw ⟨Mmu.fetchFault_allOk _ _, by decide, fun _ _ => rfl⟩ (by decide) 0
    (by decide)
  exact absurd hbyte (by decide)

end ScBl
