import ScBl.Ipi.Msg
import ScBl.Lib.Rv

/-!
# The two consumers of the IPI mailbox (`ipi.c`, `mentry.S`, `ipi_msg.h`)

A command is read either by `ipi_check_local_cmd`, while the hart waits for
another one, or by `interrupt_handler`. Both transports are covered: the
mailbox behind CSRs, whose words have 64 bits, and ICCM with words of 32 bits.
-/

namespace ScBl

open Rv

/-- What the reader of a command does. -/
inductive IpiEffect
  | setMip (bits : U64)
  | fenceI
  /-- Call a function with one argument. -/
  | call (fn arg : U64)
  /-- `atomic_add` to the word at an address. -/
  | atomicAdd (d : ℤ) (addr : U64)
  /-- Jump to `_crt_start`. -/
  | crtStart
  /-- Go to `handle_trap_in_machine_mode`. -/
  | handleTrapInMachineMode
  deriving DecidableEq, Repr

/-- The pool in memory. -/
structure PoolMem where
  /-- The address of `ipi_msg_pool`. -/
  base : U64
  /-- Memory, by doublewords. -/
  mem : U64 → U64

/-! ## Polling -/

/-- `ipi_read_data` -/
def ipiReadData : MailWord → U64
  | .csr w => w >>> scrIpiRecvSrcBits
  | .iccm w => w.setWidth 64

/-- `EXTRACT_SCIPI_MSG_CMD(msg)` after the shift in `do_local_ipi_cmd` -/
def localIpiCmd (t : IpiTransport) (msg : U64) : U64 :=
  match t with
  | .csr => (msg <<< scrIpiRecvSrcBits) >>> scrIpiRecvCshift
  | .iccm => msg >>> 26

/-- The branches of `do_local_ipi_cmd`. -/
def doLocalIpiCmdBranches (m : PoolMem) (cmd : U64) : List IpiEffect :=
  if cmd = BitVec.ofNat 64 scrIpiCmdSignal then [.setMip (1#64 <<< 1)]
  else if cmd = BitVec.ofNat 64 scrIpiCmdFenceI then [.fenceI]
  else if BitVec.ofNat 64 scrIpiCmdMsgBase ≤ cmd ∧
      cmd < BitVec.ofNat 64 (scrIpiCmdMsgBase + scipiMsgPoolSize) then
    let im := m.base + (cmd - BitVec.ofNat 64 scrIpiCmdMsgBase) * 64#64
    [.call (m.mem (im + 8#64)) im, .atomicAdd (-1) im]
  else []

/-- `do_local_ipi_cmd` -/
def doLocalIpiCmdEffects (m : PoolMem) (t : IpiTransport) (msg : U64) : List IpiEffect :=
  doLocalIpiCmdBranches m (localIpiCmd t msg)

/-- `ipi_check_local_cmd`, when a word is available. -/
def ipiCheckLocalCmdEffects (m : PoolMem) : MailWord → List IpiEffect
  | .csr w => doLocalIpiCmdEffects m .csr (ipiReadData (.csr w))
  | .iccm w => doLocalIpiCmdEffects m .iccm (ipiReadData (.iccm w))

/-! ## Interrupts -/

/-- `ipi_read_cmd`: the word in `a0`, the command in `a1`. -/
def ipiReadCmd (x : RegFile 64) : MailWord → RegFile 64
  | .csr w => (x.li .a0 w).srli .a1 .a0 scrIpiRecvCshift
  -- `lw`
  | .iccm w => (x.li .a0 (w.signExtend 64)).srli .a1 .a0 26

/-- `interrupt_handler`, on a machine software interrupt. -/
def interruptHandler (m : PoolMem) (w : MailWord) (x : RegFile 64) : List IpiEffect :=
  let x := ipiReadCmd x w
  let x := x.addi .a1 .a1 (-BitVec.ofNat 64 scrIpiCmdReset)
  if x.get .a1 = 0#64 then [.crtStart]
  else
    let x := x.addi .a1 .a1 (-BitVec.ofNat 64 (scrIpiCmdSignal - scrIpiCmdReset))
    if x.get .a1 = 0#64 then [.setMip (1#64 <<< 1)]
    else
      let x := x.addi .a1 .a1 (-BitVec.ofNat 64 (scrIpiCmdFenceI - scrIpiCmdSignal))
      if x.get .a1 = 0#64 then [.fenceI]
      else
        let x := x.addi .a1 .a1 (-BitVec.ofNat 64 (scrIpiCmdMsgBase - scrIpiCmdFenceI))
        if (x.get .a1).slt 0#64 then [.handleTrapInMachineMode]
        else
          let x := x.li .a0 (BitVec.ofNat 64 scipiMsgPoolSize)
          if x.get .a0 ≤ x.get .a1 then [.handleTrapInMachineMode]
          else
            let x := x.li .a0 m.base
            -- `SCIPI_MSG_SIZE_LOG`
            let x := x.slli .a1 .a1 6
            let x := x.add .a0 .a0 .a1
            let x := x.mv .s0 .a0
            let x := x.li .a1 (m.mem (x.get .a0 + 8#64))
            [.call (x.get .a1) (x.get .a0), .atomicAdd (-1) (x.get .s0)]

/-! ## What the commands stand for -/

/-- The effects of a command: a message runs its handler and is released. -/
def IpiCmd.effects (m : PoolMem) : IpiCmd → List IpiEffect
  | .signal => [.setMip (1#64 <<< 1)]
  | .fenceI => [.fenceI]
  | .msg n =>
    let im := m.base + BitVec.ofNat 64 n * 64#64
    [.call (m.mem (im + 8#64)) im, .atomicAdd (-1) im]

variable {m : PoolMem} {w : MailWord} {x : RegFile 64} {c : IpiCmd}

/-- The shifts of the poller undo each other. -/
theorem localIpiCmd_csr (w : U64) :
    localIpiCmd .csr (ipiReadData (.csr w)) = BitVec.ofNat 64 (MailWord.csr w).cmd := by
  rw [localIpiCmd, ipiReadData, MailWord.cmd, BitVec.ofNat_toNat, BitVec.setWidth_eq]
  refine BitVec.eq_of_getLsbD_eq fun i hi => ?_
  simp only [BitVec.getLsbD_ushiftRight, BitVec.getLsbD_shiftLeft, scrIpiRecvSrcBits,
    scrIpiRecvCshift]
  by_cases hlow : 58 + i < 64
  · have hnot : ¬ 58 + i < 4 := by omega
    have heq : 4 + (58 + i - 4) = 58 + i := by omega
    simp [hlow, hnot, heq]
  · simp [hlow, BitVec.getLsbD_of_ge w (58 + i) (Nat.le_of_not_lt hlow)]

theorem localIpiCmd_iccm (w : U32) :
    localIpiCmd .iccm (ipiReadData (.iccm w)) = BitVec.ofNat 64 (MailWord.iccm w).cmd := by
  rw [localIpiCmd, ipiReadData, MailWord.cmd, BitVec.ofNat_toNat, BitVec.setWidth_ushiftRight]
  decide

/-- `ipi_read_cmd` leaves the command in `a1`; a word of 32 bits must not be
taken for a negative one. -/
theorem get_ipiReadCmd (hcmd : w.cmd < 32) :
    (ipiReadCmd x w).get .a1 = BitVec.ofNat 64 w.cmd := by
  cases w with
  | csr w =>
    have ha1 : (ipiReadCmd x (.csr w)).get .a1 = w >>> scrIpiRecvCshift := by
      simp [ipiReadCmd, RegFile.srli, RegFile.li]
    rw [ha1, MailWord.cmd, BitVec.ofNat_toNat, BitVec.setWidth_eq]
  | iccm w =>
    have hmsb : w.msb = false := by
      rw [BitVec.msb_eq_false_iff_two_mul_lt]
      rw [MailWord.cmd, BitVec.toNat_ushiftRight, Nat.shiftRight_eq_div_pow] at hcmd
      omega
    have ha1 : (ipiReadCmd x (.iccm w)).get .a1 = w.setWidth 64 >>> 26 := by
      simp [ipiReadCmd, RegFile.srli, RegFile.li, BitVec.signExtend_eq_setWidth_of_msb_false hmsb]
    rw [ha1]
    exact localIpiCmd_iccm w

/-! ## The consumers -/

theorem msgSlot_cases (n : MsgSlot) : n = 0 ∨ n = 1 ∨ n = 2 ∨ n = 3 := by
  revert n
  decide

theorem ipiCheckLocalCmdEffects_number :
    ipiCheckLocalCmdEffects m w =
      doLocalIpiCmdBranches m (BitVec.ofNat 64 w.cmd) := by
  cases w with
  | csr w => exact congrArg (doLocalIpiCmdBranches m) (localIpiCmd_csr w)
  | iccm w => exact congrArg (doLocalIpiCmdBranches m) (localIpiCmd_iccm w)

/-- The polling consumer does what the command stands for, if the number in the word is that of a
command. -/
theorem ipiCheckLocalCmdEffects_eq (hcmd : w.cmd = c.number) :
    ipiCheckLocalCmdEffects m w = c.effects m := by
  rw [ipiCheckLocalCmdEffects_number, hcmd]
  cases c with
  | signal => rfl
  | fenceI => rfl
  | msg n =>
    obtain rfl | rfl | rfl | rfl := msgSlot_cases n
    all_goals simp [doLocalIpiCmdBranches, IpiCmd.number, IpiCmd.effects, scrIpiCmdSignal,
      scrIpiCmdFenceI, scrIpiCmdMsgBase, scipiMsgPoolSize]

/-- It has no branch for `SCR_IPI_CMD_RESET`. -/
theorem ipiCheckLocalCmdEffects_reset (hcmd : w.cmd = scrIpiCmdReset) :
    ipiCheckLocalCmdEffects m w = [] := by
  rw [ipiCheckLocalCmdEffects_number, hcmd]
  rfl

/-- The interrupt handler does what the command stands for, whichever layout the mailbox has. -/
theorem interruptHandler_eq (hcmd : w.cmd = c.number) :
    interruptHandler m w x = c.effects m := by
  have ha1 : (ipiReadCmd x w).get .a1 = BitVec.ofNat 64 c.number := by
    rw [← hcmd]
    exact get_ipiReadCmd (by have := c.number_lt; omega)
  rw [interruptHandler]
  generalize ipiReadCmd x w = x at ha1
  cases c with
  | signal =>
    simp [RegFile.addi, ha1, IpiCmd.number, IpiCmd.effects, scrIpiCmdSignal, scrIpiCmdReset]
  | fenceI =>
    simp [RegFile.addi, ha1, IpiCmd.number, IpiCmd.effects, scrIpiCmdSignal, scrIpiCmdReset,
      scrIpiCmdFenceI]
  | msg n =>
    obtain rfl | rfl | rfl | rfl := msgSlot_cases n
    all_goals simp [RegFile.addi, RegFile.li, RegFile.slli, RegFile.add, RegFile.mv, ha1,
      IpiCmd.number, IpiCmd.effects, scrIpiCmdSignal, scrIpiCmdReset, scrIpiCmdFenceI,
      scrIpiCmdMsgBase, scipiMsgPoolSize]

theorem interruptHandler_reset (hcmd : w.cmd = scrIpiCmdReset) :
    interruptHandler m w x = [.crtStart] := by
  have ha1 : (ipiReadCmd x w).get .a1 = BitVec.ofNat 64 scrIpiCmdReset := by
    rw [← hcmd]
    exact get_ipiReadCmd (by rw [hcmd]; decide)
  rw [interruptHandler]
  simp [RegFile.addi, ha1]

/-- A command that the firmware posts to a running hart. -/
def MailWord.Posted (w : MailWord) : Prop :=
  w.cmd = scrIpiCmdReset ∨ ∃ c : IpiCmd, w.cmd = c.number

/-- **The consumers** do the same with a posted command, and something, exactly
when it is not a reset. -/
theorem consumers_agree_iff (m : PoolMem) (x : RegFile 64) (w : MailWord) (hw : w.Posted) :
    (ipiCheckLocalCmdEffects m w = interruptHandler m w x ∧ ipiCheckLocalCmdEffects m w ≠ []) ↔
      w.cmd ≠ scrIpiCmdReset := by
  constructor
  · intro h hreset
    exact h.2 (ipiCheckLocalCmdEffects_reset hreset)
  · intro hne
    obtain hreset | ⟨c, hcmd⟩ := hw
    · exact absurd hreset hne
    · rw [ipiCheckLocalCmdEffects_eq hcmd, interruptHandler_eq hcmd]
      refine ⟨rfl, ?_⟩
      cases c with
      | signal => exact List.cons_ne_nil _ _
      | fenceI => exact List.cons_ne_nil _ _
      | msg n => exact List.cons_ne_nil _ _

/-- A pool, and registers, to try words on. -/
def PoolMem.sample : PoolMem := ⟨0x80001000#64, fun _ => 0x80000200#64⟩

def ipiSampleRegs : RegFile 64 := ⟨fun _ => 0#64⟩

/-- A fence with data bits set. -/
theorem consumers_agree_fence :
    ipiCheckLocalCmdEffects .sample (.iccm 0x14000007#32) =
        interruptHandler .sample (.iccm 0x14000007#32) ipiSampleRegs ∧
      ipiCheckLocalCmdEffects .sample (.iccm 0x14000007#32) ≠ [] :=
  (consumers_agree_iff .sample ipiSampleRegs (.iccm 0x14000007#32) (.inr ⟨.fenceI, by decide⟩)).mpr
    (by decide)

/-- The master hart is asked to reset while it polls its mailbox. -/
theorem poll_drops_reset :
    MailWord.Posted (.csr 0x0C00000000000000#64) ∧
      interruptHandler .sample (.csr 0x0C00000000000000#64) ipiSampleRegs = [.crtStart] ∧
      ipiCheckLocalCmdEffects .sample (.csr 0x0C00000000000000#64) = [] := by
  have hcmd : (MailWord.csr 0x0C00000000000000#64).cmd = scrIpiCmdReset := by decide
  exact ⟨.inl hcmd, interruptHandler_reset hcmd, ipiCheckLocalCmdEffects_reset hcmd⟩

end ScBl
