import ScBl.Lib.Rv
import ScBl.Sbi.CallerRegs
import ScBl.Trap.Mmode

/-!
# The interrupt handler (`mentry.S`, `interrupt_handler`)

Software and timer interrupts of M-mode, instruction by instruction, with the registers that
are saved for them. All others, and the commands that nothing is known of, go on to the C half
with what is left of the cause in `a0`, which is not the cause any more
(`unexpectedInterrupt_iff`).
-/

namespace ScBl

open Rv

/-- `SCR_IPI_CMD_RESET` and the others reach the hart; the timer is served by these. -/
inductive InterruptEffect
  | ipi (e : IpiEffect)
  | clearMie (bits : U64)
  | setMip (bits : U64)

/-- Where `interrupt_handler` goes on. -/
inductive InterruptExit
  /-- `mret` -/
  | mret (s : SbiHart)
  /-- `_crt_start` -/
  | crtStart
  | handleTrapInMachineMode (s : SbiHart)

namespace SbiHart

variable (m : PoolMem) (w : MailWord) (call : U64 → RegFile 64 → RegFile 64) (s : SbiHart)

/-! ## The handler -/

/-- `.Lmret` -/
def lmret : SbiHart := ((s.loadReg .a0).loadReg .a1).swapSp

/-- The registers that are saved for the function of a message. -/
def saveForMsg : SbiHart :=
  let s := (s.saveReg .s0).saveReg .s1
  let s := (s.saveReg .t0).saveReg .t1
  s.exec (·.mv .s1 .ra)

/-- The message with the index in `a1`, and its function in `a1`. -/
def findMsg : SbiHart :=
  let s := s.exec (·.li .a0 m.base)
  -- `SCIPI_MSG_SIZE_LOG`
  let s := s.exec (·.slli .a1 .a1 6)
  let s := s.exec (·.add .a0 .a0 .a1)
  let s := s.exec (·.mv .s0 .a0)
  s.exec (·.li .a1 (m.mem (s.x.get .a0 + 8#64)))

/-- What follows the call, up to `.Lmret`, the release of the message apart. -/
def restoreAfterMsg : SbiHart :=
  let s := s.exec (·.li .a1 (-1#64))
  let s := s.exec (·.mv .ra .s1)
  let s := (s.loadReg .s0).loadReg .s1
  (s.loadReg .t0).loadReg .t1

/-- An IPI message with a handler; `call` is what its function does to the registers. -/
def runMsg : InterruptExit × List InterruptEffect :=
  let s := s.saveForMsg.findMsg m
  let called := InterruptEffect.ipi (.call (s.x.get .a1) (s.x.get .a0))
  -- `jalr`
  let s := s.exec (call (s.x.get .a1))
  let released := InterruptEffect.ipi (.atomicAdd (-1) (s.x.get .s0))
  (.mret s.restoreAfterMsg.lmret, [called, released])

/-- A software interrupt, with the word `w` in the mailbox. -/
def ipiInterrupt : InterruptExit × List InterruptEffect :=
  let s := s.exec (ipiReadCmd · w)
  let s := s.exec (·.addi .a1 .a1 (-BitVec.ofNat 64 scrIpiCmdReset))
  if s.x.get .a1 = 0#64 then (.crtStart, [.ipi .crtStart])
  else
    let s := s.exec (·.addi .a1 .a1 (-BitVec.ofNat 64 (scrIpiCmdSignal - scrIpiCmdReset)))
    if s.x.get .a1 = 0#64 then (.mret s.lmret, [.ipi (.setMip (1#64 <<< 1))])
    else
      let s := s.exec (·.addi .a1 .a1 (-BitVec.ofNat 64 (scrIpiCmdFenceI - scrIpiCmdSignal)))
      if s.x.get .a1 = 0#64 then (.mret s.lmret, [.ipi .fenceI])
      else
        let s := s.exec (·.addi .a1 .a1 (-BitVec.ofNat 64 (scrIpiCmdMsgBase - scrIpiCmdFenceI)))
        if (s.x.get .a1).slt 0#64 then
          (.handleTrapInMachineMode s, [.ipi .handleTrapInMachineMode])
        else
          let s := s.exec (·.li .a0 (BitVec.ofNat 64 scipiMsgPoolSize))
          if s.x.get .a0 ≤ s.x.get .a1 then
            (.handleTrapInMachineMode s, [.ipi .handleTrapInMachineMode])
          else s.runMsg m call

/-- `INT_MM_SOFTWARE` -/
def intMmSoftware : ℕ := 3

/-- A timer interrupt. -/
def timerInterrupt : InterruptExit × List InterruptEffect :=
  let s := s.exec (·.li .a0 (1#64 <<< intMmTimer))
  let cleared := InterruptEffect.clearMie (s.x.get .a0)
  let s := s.exec (·.li .a0 (1#64 <<< intSmTimer))
  let raised := InterruptEffect.setMip (s.x.get .a0)
  (.mret s.lmret, [cleared, raised])

/-- `interrupt_handler` -/
def interruptHandler : InterruptExit × List InterruptEffect :=
  -- discard MSB
  let s := s.exec (·.slli .a0 .a0 1)
  let s := s.exec (·.addi .a0 .a0 (-BitVec.ofNat 64 (intMmSoftware * 2)))
  if s.x.get .a0 = 0#64 then s.ipiInterrupt m w call
  else
    let s := s.exec (·.addi .a0 .a0 (-BitVec.ofNat 64 ((intMmTimer - intMmSoftware) * 2)))
    if s.x.get .a0 ≠ 0#64 then (.handleTrapInMachineMode s, [])
    else s.timerInterrupt

/-! ## The registers -/

/-- What a handler of messages promises: it works in the registers that are saved for it, and in
`ra`. -/
def KeepsRegs (call : U64 → RegFile 64 → RegFile 64) : Prop :=
  ∀ fn x, ∀ r ∉ [.ra, .a0, .a1, .t0, .t1], (call fn x).get r = x.get r

/-- Inside the trap handler: `a0` and `a1` have been saved, and the others are as they were. -/
structure Held (s e : SbiHart) : Prop extends Inside s e where
  arg0 : e.xreg.get .a0 = s.x.get .a0
  arg1 : e.xreg.get .a1 = s.x.get .a1

variable {m w call s} {e t : SbiHart} {r : IntReg}

/-- Writes to `a0` and `a1` are free. -/
theorem Held.of_regs (h : Held s e) (hregs : ∀ r, r ≠ .a0 → r ≠ .a1 → t.x.get r = e.x.get r)
    (ht : t = { e with x := t.x }) : Held s t where
  toInTrap := h.toInTrap.of_regs hregs (by rw [ht]) (by rw [ht])
  arg0 := by
    rw [ht]
    exact h.arg0
  arg1 := by
    rw [ht]
    exact h.arg1

/-- The interrupted program finds its registers. -/
structure Undisturbed (s t : SbiHart) : Prop where
  regs : ∀ r, t.x.get r = s.x.get r
  mscratch : t.mscratch = s.mscratch
  mepc : t.mepc = s.mepc

/-- From anywhere inside the trap handler, `.Lmret` gives the program its registers back. -/
theorem Held.lmret (h : Held s e) : Undisturbed s e.lmret where
  regs r := by
    rcases eq_or_ne r .sp with rfl | hsp
    · simpa [SbiHart.lmret, swapSp, loadReg] using h.mscratch
    · rcases eq_or_ne r .a1 with rfl | h1
      · simpa [SbiHart.lmret, swapSp, loadReg] using h.arg1
      · rcases eq_or_ne r .a0 with rfl | h0
        · simpa [SbiHart.lmret, swapSp, loadReg] using h.arg0
        · have hrest := h.regs r (by simp [hsp, h0, h1])
          simpa [SbiHart.lmret, swapSp, loadReg, hsp, h0, h1] using hrest
  mscratch := by simpa [SbiHart.lmret, swapSp, loadReg] using h.sp
  mepc := h.mepc

/-- The hart that calls the function of a message. -/
structure AtCall (e u : SbiHart) : Prop where
  frame : u = { e with x := u.x, xreg := u.xreg }
  regs : ∀ r ∉ [.a0, .a1, .s0, .s1], u.x.get r = e.x.get r
  ra : u.x.get .s1 = e.x.get .ra
  saved : ∀ r ∈ [.s0, .s1, .t0, .t1], u.xreg.get r = e.x.get r
  args : ∀ r ∉ [.s0, .s1, .t0, .t1], u.xreg.get r = e.xreg.get r

/-- At the call all registers have been saved that the function may use. -/
theorem atCall_findMsg (m : PoolMem) (e : SbiHart) : AtCall e (e.saveForMsg.findMsg m) where
  frame := rfl
  regs r hr := by
    simp only [List.mem_cons, List.not_mem_nil, or_false, not_or] at hr
    simp [findMsg, saveForMsg, saveReg, exec, RegFile.li, RegFile.slli, RegFile.add, RegFile.mv, hr]
  ra := by
    simp [findMsg, saveForMsg, saveReg, exec, RegFile.li, RegFile.slli, RegFile.add, RegFile.mv]
  saved r hr := by
    simp only [List.mem_cons, List.not_mem_nil, or_false] at hr
    obtain rfl | rfl | rfl | rfl := hr
    all_goals simp [findMsg, saveForMsg, saveReg, exec]
  args r hr := by
    simp only [List.mem_cons, List.not_mem_nil, or_false, not_or] at hr
    simp [findMsg, saveForMsg, saveReg, exec, hr]

/-- What is restored, of the registers. -/
theorem restoreAfterMsg_get (hr : r ≠ .a1) : s.restoreAfterMsg.x.get r =
    if r ∈ [.s0, .s1, .t0, .t1] then s.xreg.get r else if r = .ra then s.x.get .s1
    else s.x.get r := by
  cases r <;> simp [restoreAfterMsg, exec, loadReg, RegFile.mv, RegFile.li] at hr ⊢

/-- All registers but `a0` and `a1`, after the call. -/
theorem AtCall.restored_get {u : SbiHart} (hu : AtCall e u) {x : RegFile 64}
    (hx : ∀ r ∉ [.ra, .a0, .a1, .t0, .t1], x.get r = u.x.get r) (h0 : r ≠ .a0) (h1 : r ≠ .a1) :
    (SbiHart.restoreAfterMsg { u with x := x }).x.get r = e.x.get r := by
  rw [restoreAfterMsg_get h1]
  split_ifs with hsaved hra
  · exact hu.saved r hsaved
  · rw [hra, hx .s1 (by decide)]
    exact hu.ra
  · simp only [List.mem_cons, List.not_mem_nil, or_false, not_or] at hsaved
    rw [hx r (by simp [hra, h0, h1, hsaved]), hu.regs r (by simp [h0, h1, hsaved])]

/-- After it, they are loaded again. -/
theorem Held.restored (h : Held s e) {u : SbiHart} (hu : AtCall e u) {x : RegFile 64}
    (hx : ∀ r ∉ [.ra, .a0, .a1, .t0, .t1], x.get r = u.x.get r) :
    Held s (SbiHart.restoreAfterMsg { u with x := x }) where
  sp := (hu.restored_get hx (by decide) (by decide)).trans h.sp
  mscratch := by
    rw [hu.frame]
    exact h.mscratch
  mepc := by
    rw [hu.frame]
    exact h.mepc
  regs r hr := by
    have hr' := hr
    simp only [List.mem_cons, List.not_mem_nil, or_false, not_or] at hr'
    exact (hu.restored_get hx hr'.2.1 hr'.2.2).trans (h.regs r hr)
  arg0 := (hu.args .a0 (by decide)).trans h.arg0
  arg1 := (hu.args .a1 (by decide)).trans h.arg1

/-- The handler of messages gets its registers saved, and they are given back. -/
theorem Held.runMsg (h : Held s e) (hcall : KeepsRegs call) :
    ∃ t, (e.runMsg m call).1 = .mret t ∧ Undisturbed s t := by
  have hat := atCall_findMsg m e
  exact ⟨_, rfl, (h.restored hat (hcall _ _)).lmret⟩

/-! ## Effects -/

theorem exec_x (s : SbiHart) (f : RegFile 64 → RegFile 64) : (s.exec f).x = f s.x := rfl

/-- The function of the message is called, with the address of the message, and after that the
message is released. -/
theorem runMsg_effects (m : PoolMem) (e : SbiHart) (hcall : KeepsRegs call) :
    (e.runMsg m call).2 =
      [.ipi (.call (m.mem (m.base + e.x.get .a1 <<< 6 + 8#64)) (m.base + e.x.get .a1 <<< 6)),
        .ipi (.atomicAdd (-1) (m.base + e.x.get .a1 <<< 6))] := by
  have hs0 : ∀ fn x, (call fn x).get .s0 = x.get .s0 := fun fn x => hcall fn x .s0 (by decide)
  simp [runMsg, findMsg, saveForMsg, saveReg, exec, hs0, RegFile.li, RegFile.slli, RegFile.add,
    RegFile.mv]

/-- The branches of the handler, on the side of its effects. -/
theorem effects_ite {p : Prop} [Decidable p] {a b : InterruptExit × List InterruptEffect}
    {a' b' : List IpiEffect} (ha : a.2 = a'.map .ipi) (hb : b.2 = b'.map .ipi) :
    (if p then a else b).2 = (if p then a' else b').map .ipi := by
  split_ifs
  · exact ha
  · exact hb

/-- **Outside of the registers** the handler does what is read off its branches alone. -/
theorem ipiInterrupt_effects (m : PoolMem) (w : MailWord) (e : SbiHart) (hcall : KeepsRegs call) :
    (e.ipiInterrupt m w call).2 = (ScBl.interruptHandler m w e.x).map .ipi := by
  simp only [ipiInterrupt, ScBl.interruptHandler, exec_x]
  refine effects_ite rfl (effects_ite rfl (effects_ite rfl (effects_ite rfl (effects_ite rfl ?_))))
  rw [runMsg_effects m _ hcall]
  simp [exec, RegFile.li, RegFile.slli, RegFile.add, RegFile.mv]

/-! ## Commands -/

/-- The word of the mailbox, in `a0`. -/
def mailReg : MailWord → U64
  | .csr w => w
  | .iccm w => w.signExtend 64

/-- Its command, in `a1`. -/
def cmdReg : MailWord → U64
  | .csr w => w >>> scrIpiRecvCshift
  | .iccm w => w.signExtend 64 >>> 26

/-- Inside the trap handler, with values in `a0` and `a1`. -/
structure HeldWith (s : SbiHart) (a0 a1 : U64) (e : SbiHart) : Prop extends Held s e where
  a0 : e.x.get .a0 = a0
  a1 : e.x.get .a1 = a1

variable {a0 a1 c : U64}

/-- The word of the mailbox comes into `a0` and its command into `a1`. -/
theorem Held.readCmd (h : Held s e) (w : MailWord) :
    HeldWith s (mailReg w) (cmdReg w) (e.exec (ipiReadCmd · w)) where
  toHeld := h.of_regs (fun r h0 h1 => by
    cases w <;> simp [exec, ipiReadCmd, RegFile.li, RegFile.srli, h0, h1]) rfl
  a0 := by cases w <;> simp [exec, ipiReadCmd, RegFile.li, RegFile.srli, mailReg]
  a1 := by cases w <;> simp [exec, ipiReadCmd, RegFile.li, RegFile.srli, cmdReg]

/-- The tests of the command subtract from `a1`. -/
theorem HeldWith.addi (h : HeldWith s a0 a1 e) (c : U64) :
    HeldWith s a0 (a1 + c) (e.exec (·.addi .a1 .a1 c)) where
  toHeld := h.toHeld.of_regs (fun r _ h1 => by simp [exec, RegFile.addi, h1]) rfl
  a0 := by simpa [exec, RegFile.addi] using h.a0
  a1 := by simp [exec, RegFile.addi, h.a1]

/-- A constant is loaded into `a0`. -/
theorem HeldWith.li (h : HeldWith s a0 a1 e) (c : U64) :
    HeldWith s c a1 (e.exec (·.li .a0 c)) where
  toHeld := h.toHeld.of_regs (fun r h0 _ => by simp [exec, RegFile.li, h0]) rfl
  a0 := by simp [exec, RegFile.li]
  a1 := by simpa [exec, RegFile.li] using h.a1

/-- Commands below 32 have nothing of the sign. -/
theorem toNat_cmdReg (hcmd : w.cmd < 32) : (cmdReg w).toNat = w.cmd := by
  have hword : cmdReg w = BitVec.ofNat 64 w.cmd := by
    rw [← get_ipiReadCmd (x := ⟨fun _ => 0#64⟩) hcmd]
    cases w <;> simp [ipiReadCmd, RegFile.li, RegFile.srli, cmdReg]
  rw [hword, BitVec.toNat_ofNat, Nat.mod_eq_of_lt (by omega)]

/-- The command in the register is at least the command of the word. -/
theorem le_toNat_cmdReg (w : MailWord) : w.cmd ≤ (cmdReg w).toNat := by
  cases w with
  | csr w => exact le_rfl
  | iccm w =>
    have hle : w.toNat ≤ (w.signExtend 64).toNat := by
      rw [BitVec.toNat_signExtend, BitVec.toNat_setWidth_of_le (by decide)]
      exact Nat.le_add_right _ _
    rw [cmdReg, BitVec.toNat_ushiftRight, Nat.shiftRight_eq_div_pow, MailWord.cmd,
      BitVec.toNat_ushiftRight, Nat.shiftRight_eq_div_pow]
    exact Nat.div_le_div_right hle

/-- A bound up to 32 may be tested on the register, which with the CSR mailbox has more bits than
the command. -/
theorem toNat_cmdReg_lt_iff {k : ℕ} (hk : k ≤ 32) : (cmdReg w).toNat < k ↔ w.cmd < k := by
  refine ⟨(le_toNat_cmdReg w).trans_lt, fun hlt => ?_⟩
  rwa [toNat_cmdReg (by omega)]

/-- So may equality with a constant below 32. -/
theorem toNat_cmdReg_eq_iff {k : ℕ} (hk : k < 32) : (cmdReg w).toNat = k ↔ w.cmd = k := by
  refine ⟨fun heq => ?_, fun heq => ?_⟩
  · have hlt : w.cmd < 32 := by
      have hle := le_toNat_cmdReg w
      omega
    rw [← heq, toNat_cmdReg hlt]
  · rw [toNat_cmdReg (by omega), heq]

theorem toNat_cmdReg_lt (w : MailWord) : (cmdReg w).toNat < 2 ^ 38 := by
  cases w with
  | csr w =>
    have hlt := w.isLt
    rw [cmdReg, BitVec.toNat_ushiftRight, Nat.shiftRight_eq_div_pow, scrIpiRecvCshift]
    omega
  | iccm w =>
    have hlt := (w.signExtend 64).isLt
    rw [cmdReg, BitVec.toNat_ushiftRight, Nat.shiftRight_eq_div_pow]
    omega

/-- Tests that subtract one constant after another. -/
theorem sub_ofNat_sub_ofNat (v : U64) (b c : ℕ) :
    v - BitVec.ofNat 64 b + -BitVec.ofNat 64 c = v - BitVec.ofNat 64 (b + c) := by
  rw [BitVec.ofNat_add]
  ring

/-- `beqz` after a subtraction tests for the constant. -/
theorem sub_ofNat_eq_zero_iff {v : U64} {b : ℕ} (hb : b < 2 ^ 64) :
    v - BitVec.ofNat 64 b = 0#64 ↔ v.toNat = b := by
  have hzero : v - BitVec.ofNat 64 b = 0#64 ↔ v = BitVec.ofNat 64 b := sub_eq_zero
  rw [hzero, ← BitVec.toNat_inj, BitVec.toNat_ofNat, Nat.mod_eq_of_lt hb]

/-- `bltz` after a subtraction tests for less, where neither side has the top bit. -/
theorem sub_ofNat_slt_zero_iff {v : U64} {b : ℕ} (hv : v.toNat < 2 ^ 63) (hb : b < 2 ^ 63) :
    (v - BitVec.ofNat 64 b).slt 0#64 = true ↔ v.toNat < b := by
  have hword : v = BitVec.ofNat 64 v.toNat := by rw [BitVec.ofNat_toNat, BitVec.setWidth_eq]
  rw [hword, Rv.slt_ofNat_sub_zero (by decide) hv hb, decide_eq_true_iff, ← hword]

/-- The command after some of it has been taken away. -/
theorem HeldWith.sub {b : ℕ} (h : HeldWith s a0 (a1 - BitVec.ofNat 64 b) e) (k : ℕ) :
    HeldWith s a0 (a1 - BitVec.ofNat 64 (b + k))
      (e.exec (·.addi .a1 .a1 (-BitVec.ofNat 64 k))) := by
  rw [← sub_ofNat_sub_ofNat]
  exact h.addi _

/-- How a software interrupt goes on. -/
inductive IpiGoes (s : SbiHart) (w : MailWord) : InterruptExit → Prop
  | reset (hcmd : w.cmd = scrIpiCmdReset) : IpiGoes s w .crtStart
  | served {t : SbiHart} (c : IpiCmd) (hcmd : w.cmd = c.number) (ht : Undisturbed s t) :
    IpiGoes s w (.mret t)
  /-- The word is in `a0`. -/
  | low {t : SbiHart} (hcmd : w.cmd < scrIpiCmdMsgBase) (hreset : w.cmd ≠ scrIpiCmdReset)
    (hserved : ∀ c : IpiCmd, w.cmd ≠ c.number) (ht : Held s t) (ha0 : t.x.get .a0 = mailReg w) :
    IpiGoes s w (.handleTrapInMachineMode t)
  /-- The size of the pool is in `a0`. -/
  | high {t : SbiHart} (hcmd : scrIpiCmdMsgBase + scipiMsgPoolSize ≤ w.cmd) (ht : Held s t)
    (ha0 : t.x.get .a0 = BitVec.ofNat 64 scipiMsgPoolSize) :
    IpiGoes s w (.handleTrapInMachineMode t)

/-- **How a software interrupt goes on**: a reset jumps to the start, a command of no meaning goes
to the C handler, and all others end in an `mret` that disturbs nothing. -/
theorem Held.ipiGoes (h : Held s e) (hcall : KeepsRegs call) :
    IpiGoes s w (e.ipiInterrupt m w call).1 := by
  have h0 : HeldWith s (mailReg w) (cmdReg w - BitVec.ofNat 64 0) (e.exec (ipiReadCmd · w)) := by
    have hread := h.readCmd w
    rwa [← BitVec.sub_zero (cmdReg w)] at hread
  have h1 := h0.sub scrIpiCmdReset
  have h2 := h1.sub (scrIpiCmdSignal - scrIpiCmdReset)
  have h3 := h2.sub (scrIpiCmdFenceI - scrIpiCmdSignal)
  have h4 := h3.sub (scrIpiCmdMsgBase - scrIpiCmdFenceI)
  have h5 := h4.li (BitVec.ofNat 64 scipiMsgPoolSize)
  have hlt := toNat_cmdReg_lt w
  have htest : ∀ b, b < 32 → (cmdReg w - BitVec.ofNat 64 b = 0#64 ↔ w.cmd = b) := fun b hb => by
    rw [sub_ofNat_eq_zero_iff (by omega), toNat_cmdReg_eq_iff hb]
  have hneg : (cmdReg w - BitVec.ofNat 64 8).slt 0#64 = true ↔ w.cmd < 8 := by
    rw [sub_ofNat_slt_zero_iff (by omega) (by decide), toNat_cmdReg_lt_iff (by decide)]
  have hbig : ¬ w.cmd < 8 →
      (BitVec.ofNat 64 scipiMsgPoolSize ≤ cmdReg w - BitVec.ofNat 64 8 ↔ ¬ w.cmd < 12) := by
    intro hlow
    rw [← toNat_cmdReg_lt_iff (by decide)] at hlow
    rw [← toNat_cmdReg_lt_iff (by decide), BitVec.le_def, BitVec.toNat_sub_of_le
      (BitVec.le_def.mpr (Nat.le_of_not_lt hlow)), BitVec.toNat_ofNat, BitVec.toNat_ofNat,
      scipiMsgPoolSize]
    omega
  simp only [ipiInterrupt, h1.a1, h2.a1, h3.a1, h4.a1, h5.a1, h5.a0]
  split_ifs with hreset hsignal hfence hlow hhigh
  · exact .reset ((htest 3 (by decide)).mp hreset)
  · exact .served .signal ((htest 4 (by decide)).mp hsignal) h2.toHeld.lmret
  · exact .served .fenceI ((htest 5 (by decide)).mp hfence) h3.toHeld.lmret
  · have hcmd := hneg.mp hlow
    refine .low hcmd ((htest 3 (by decide)).not.mp hreset) (fun c hc => ?_) h4.toHeld h4.a0
    cases c with
    | signal => exact hsignal ((htest 4 (by decide)).mpr hc)
    | fenceI => exact hfence ((htest 5 (by decide)).mpr hc)
    | msg n =>
      rw [hc] at hcmd
      exact absurd hcmd (Nat.not_lt.mpr (Nat.le_add_right _ _))
  · have hlow := mt hneg.mpr hlow
    exact .high (Nat.le_of_not_lt ((hbig hlow).mp hhigh)) h5.toHeld h5.a0
  · have hlow := mt hneg.mpr hlow
    have hhigh := not_not.mp (mt (hbig hlow).mpr hhigh)
    obtain ⟨t, ht, hundisturbed⟩ := h5.toHeld.runMsg (m := m) hcall
    have hcmd : w.cmd = IpiCmd.number (.msg ⟨w.cmd - 8, by
        rw [scipiMsgPoolSize]
        omega⟩) :=
      (Nat.add_sub_cancel' (Nat.le_of_not_lt hlow)).symm
    rw [ht]
    exact .served _ hcmd hundisturbed

/-! ## Interrupts -/

/-- The code of an interrupt. -/
def interruptCode (mcause : U64) : ℕ := mcause.toNat % 2 ^ 63

/-- The hart where the trap handler tests for an interrupt. -/
def atEntry (s : SbiHart) : SbiHart :=
  ((s.swapSp.saveReg .a0).saveReg .a1).exec (·.li .a0 s.mcause)

/-- The trap handler saves `a0` and `a1` before its first test. -/
theorem held_atEntry (s : SbiHart) : Held s s.atEntry where
  sp := by simp [atEntry, exec, saveReg, swapSp, RegFile.li]
  mscratch := rfl
  mepc := rfl
  regs r hr := by
    simp only [List.mem_cons, List.not_mem_nil, or_false, not_or] at hr
    simp [atEntry, exec, saveReg, swapSp, RegFile.li, hr]
  arg0 := by simp [atEntry, exec, saveReg, swapSp]
  arg1 := by simp [atEntry, exec, saveReg, swapSp]

/-- The first test is on the top bit of `mcause`. -/
theorem trapHander_interrupt (plf : SbiPlf) (hint : s.mcause.msb = true) :
    s.trapHander plf = .interruptHandler s.atEntry := by
  have hneg : s.mcause.slt 0#64 = true := by rwa [BitVec.slt_zero_eq_msb]
  simp [trapHander, atEntry, exec, saveReg, swapSp, RegFile.li, hneg]

/-- How an interrupt goes on. -/
inductive InterruptGoes (s : SbiHart) (w : MailWord) : InterruptExit → Prop
  | ipi {exit : InterruptExit} (hcode : interruptCode s.mcause = intMmSoftware)
    (h : IpiGoes s w exit) : InterruptGoes s w exit
  | timer {t : SbiHart} (hcode : interruptCode s.mcause = intMmTimer) (ht : Undisturbed s t) :
    InterruptGoes s w (.mret t)
  /-- What is left of the cause is in `a0`. -/
  | unexpected {t : SbiHart} (hsoftware : interruptCode s.mcause ≠ intMmSoftware)
    (htimer : interruptCode s.mcause ≠ intMmTimer) (ht : Held s t)
    (ha0 : t.x.get .a0 = BitVec.ofNat 64 (2 * interruptCode s.mcause) - BitVec.ofNat 64 14) :
    InterruptGoes s w (.handleTrapInMachineMode t)

/-- The shift discards that bit, which leaves twice the code. -/
theorem shiftLeft_one_eq (mcause : U64) :
    mcause <<< 1 = BitVec.ofNat 64 (2 * interruptCode mcause) := by
  refine BitVec.eq_of_toNat_eq ?_
  rw [BitVec.toNat_shiftLeft, BitVec.toNat_ofNat, interruptCode, Nat.shiftLeft_eq]
  omega

/-- A timer interrupt ends in an `mret` that disturbs nothing. -/
theorem Held.timerInterrupt (h : Held s e) :
    ∃ t, e.timerInterrupt.1 = .mret t ∧ Undisturbed s t := by
  refine ⟨_, rfl, Held.lmret ?_⟩
  exact h.of_regs (fun r h0 _ => by simp [exec, RegFile.li, h0]) rfl

/-- The hart at the two tests. -/
def atSoftware (s : SbiHart) : SbiHart :=
  (s.atEntry.exec (·.slli .a0 .a0 1)).exec (·.addi .a0 .a0 (-BitVec.ofNat 64 (intMmSoftware * 2)))

def atTimer (s : SbiHart) : SbiHart :=
  s.atSoftware.exec (·.addi .a0 .a0 (-BitVec.ofNat 64 ((intMmTimer - intMmSoftware) * 2)))

/-- The two tests of the handler, from the entry on. -/
theorem interruptHandler_atEntry (m : PoolMem) (w : MailWord) (call : U64 → RegFile 64 → RegFile 64)
    (s : SbiHart) : s.atEntry.interruptHandler m w call =
      if s.atSoftware.x.get .a0 = 0#64 then s.atSoftware.ipiInterrupt m w call
      else if s.atTimer.x.get .a0 ≠ 0#64 then (.handleTrapInMachineMode s.atTimer, [])
      else s.atTimer.timerInterrupt := rfl

theorem held_atSoftware (s : SbiHart) : Held s s.atSoftware :=
  (held_atEntry s).of_regs
    (fun r h0 _ => by simp [atSoftware, exec, RegFile.addi, RegFile.slli, h0]) rfl

theorem held_atTimer (s : SbiHart) : Held s s.atTimer :=
  (held_atSoftware s).of_regs (fun r h0 _ => by simp [atTimer, exec, RegFile.addi, h0]) rfl

/-- What the test for a software interrupt looks at. -/
theorem atSoftware_a0 (s : SbiHart) : s.atSoftware.x.get .a0 =
    BitVec.ofNat 64 (2 * interruptCode s.mcause) - BitVec.ofNat 64 6 := by
  rw [← shiftLeft_one_eq, sub_eq_add_neg]
  simp [atSoftware, atEntry, exec, RegFile.li, RegFile.addi, RegFile.slli, intMmSoftware]

/-- What the test for a timer interrupt looks at. -/
theorem atTimer_a0 (s : SbiHart) : s.atTimer.x.get .a0 =
    BitVec.ofNat 64 (2 * interruptCode s.mcause) - BitVec.ofNat 64 14 := by
  rw [← sub_ofNat_sub_ofNat _ 6 8, ← atSoftware_a0]
  simp [atTimer, exec, RegFile.addi, intMmTimer, intMmSoftware]

/-- What the tests of the code find. -/
theorem double_sub_eq_zero_iff {n b : ℕ} (hn : n < 2 ^ 63) (hb : b < 32) :
    BitVec.ofNat 64 (2 * n) - BitVec.ofNat 64 b = 0#64 ↔ 2 * n = b := by
  rw [sub_ofNat_eq_zero_iff (by omega), BitVec.toNat_ofNat, Nat.mod_eq_of_lt (by omega)]

/-- **Each interrupt** goes on in one of these ways: a software interrupt by the word in the
mailbox, a timer interrupt to its end, any other one to C. -/
theorem interruptGoes (s : SbiHart) (hcall : KeepsRegs call) :
    InterruptGoes s w (s.atEntry.interruptHandler m w call).1 := by
  have hlt : interruptCode s.mcause < 2 ^ 63 := Nat.mod_lt _ (Nat.two_pow_pos 63)
  rw [interruptHandler_atEntry, atSoftware_a0, atTimer_a0]
  split_ifs with hsoftware htimer
  · rw [double_sub_eq_zero_iff hlt (by decide)] at hsoftware
    have hcode : interruptCode s.mcause = intMmSoftware := by
      rw [intMmSoftware]
      omega
    exact .ipi hcode ((held_atSoftware s).ipiGoes hcall)
  · rw [double_sub_eq_zero_iff hlt (by decide)] at hsoftware
    rw [ne_eq, double_sub_eq_zero_iff hlt (by decide)] at htimer
    refine .unexpected ?_ ?_ (held_atTimer s) (atTimer_a0 s)
    · rw [intMmSoftware]
      omega
    · rw [intMmTimer]
      omega
  · rw [not_not, double_sub_eq_zero_iff hlt (by decide)] at htimer
    have hcode : interruptCode s.mcause = intMmTimer := by
      rw [intMmTimer]
      omega
    obtain ⟨t, ht, hundisturbed⟩ := (held_atTimer s).timerInterrupt
    rw [ht]
    exact .timer hcode hundisturbed

/-! ## What C takes them for -/

/-- The interrupt does not look like another trap, to C. -/
def Recognised (s : SbiHart) (w : MailWord) : Prop :=
  if interruptCode s.mcause = intMmSoftware then
    w.cmd < scrIpiCmdMsgBase ∧ (mailReg w).toNat ∉ Mmode.knownCauses
  else interruptCode s.mcause ∉ [9, 10, 11, 12]

instance (s : SbiHart) (w : MailWord) : Decidable (Recognised s w) :=
  inferInstanceAs (Decidable (ite ..))

/-- An interrupt that is no software or timer interrupt reaches C with this number in `a0`, where
four codes are taken for known causes. -/
theorem toNat_unexpected {n : ℕ} (hn : n < 2 ^ 63) :
    (BitVec.ofNat 64 (2 * n) - BitVec.ofNat 64 14).toNat ∉ Mmode.knownCauses ↔
      n ∉ [9, 10, 11, 12] := by
  have hword : (BitVec.ofNat 64 (2 * n) - BitVec.ofNat 64 14).toNat = 2 * n - 14 ∨ n < 7 ∧
      2 ^ 32 ≤ (BitVec.ofNat 64 (2 * n) - BitVec.ofNat 64 14).toNat := by
    rw [BitVec.toNat_sub, BitVec.toNat_ofNat, BitVec.toNat_ofNat]
    omega
  simp only [Mmode.knownCauses, Mmode.excMisLoad, Mmode.excMisStore, List.mem_cons,
    List.not_mem_nil, or_false]
  omega

/-- **An interrupt that nothing serves** reaches C in disguise: the handler halts on it, as on any
trap that it does not know, exactly where neither its code, less seven and doubled, nor the word
in the mailbox, nor the size of the message pool looks like the cause of another trap. -/
theorem unexpectedInterrupt_iff {σ : Type} (plf : SbiPlf) (hint : s.mcause.msb = true)
    (hcall : KeepsRegs call)
    (hexit : (s.atEntry.interruptHandler m w call).1 = .handleTrapInMachineMode t)
    (cfg : MmodeCfg) (c : MmodeCalls .rv64 σ) (s' : MmodeState .rv64 σ) :
    s.trapHander plf = .interruptHandler s.atEntry ∧
      (Mmode.mmodeTrapHandler cfg c s' (t.x.get .a0) = .badTrapHandler ↔ Recognised s w) := by
  refine ⟨trapHander_interrupt plf hint, Mmode.mmodeTrapHandler_bad_iff.trans ?_⟩
  change (t.x.get .a0).toNat ∉ Mmode.knownCauses ↔ Recognised s w
  have hgoes := interruptGoes (m := m) (w := w) s hcall
  rw [hexit] at hgoes
  rw [Recognised]
  cases hgoes with
  | ipi hcode hipi =>
    rw [if_pos hcode]
    cases hipi with
    | low hcmd hreset hserved ht ha0 =>
      rw [ha0]
      exact (and_iff_right hcmd).symm
    | high hcmd ht ha0 =>
      rw [ha0]
      refine iff_of_false (not_not.mpr (by decide)) fun h => ?_
      exact absurd h.1 (by omega)
  | unexpected hsoftware htimer ht ha0 =>
    rw [if_neg hsoftware, ha0]
    exact toNat_unexpected (Nat.mod_lt _ (Nat.two_pow_pos 63))

/-- A hart on an external interrupt of M-mode. -/
def machineExternal : SbiHart where
  x := ⟨fun _ => 0#64⟩
  mscratch := 0x10000#64
  mepc := 0x80200000#64
  mcause := 0x800000000000000B#64
  xreg := ⟨fun _ => 0#64⟩
  ipiN _ := 0#8
  mem _ := 0#64
  hartsOnline := 1#64
  numHarts := 1#32
  slotBitsShift := 0#32
  effects := []

/-- It is taken for a call of U-mode. -/
theorem unexpectedInterrupt_external : ∃ t,
    (machineExternal.atEntry.interruptHandler .sample (.csr 0#64) fun _ x => x).1 =
      .handleTrapInMachineMode t ∧
    ∀ (cfg : MmodeCfg) (s' : MmodeState .rv64 Unit),
      Mmode.mmodeTrapHandler cfg Mmode.quietCalls s' (t.x.get .a0) ≠ .badTrapHandler := by
  have hexit : (machineExternal.atEntry.interruptHandler .sample (.csr 0#64) fun _ x => x).1 =
      .handleTrapInMachineMode machineExternal.atTimer := by
    rw [interruptHandler_atEntry, if_neg (by decide), if_pos (by decide)]
  refine ⟨_, hexit, fun cfg s' hbad => ?_⟩
  have hrecognised := (unexpectedInterrupt_iff iccmPlf (by decide) (fun _ _ _ _ => rfl) hexit cfg
    Mmode.quietCalls s').2.mp hbad
  exact absurd hrecognised (by decide)

end SbiHart

end ScBl
