import ScBl.Lib.Rv
import ScBl.Sbi.FastPath
import ScBl.Timer

/-!
# The SBI fast path on RV32

The labels of `Sbi/FastPath.lean` as they are assembled with `XLEN = 32`: on 32-bit
registers, with the timer set in three stores through `a7`. The transport is the mailbox in
CSRs; `ipi_send_wait` of ICCM loads a doubleword, which is no instruction of RV32.
-/

namespace ScBl

open Rv

/-- The constants of a platform. -/
structure SbiPlf32 where
  /-- `PLF_MTIMER_BASE` -/
  mtimerBase : U32
  /-- `PLF_MEM_BASE` -/
  memBase : U32
  /-- `PLF_MEM_SIZE` -/
  memSize : U32
  /-- `PAGE_OFFSET` -/
  pageOffset : U32
  /-- `__TLS0_BASE__` -/
  tls0Base : U32
  /-- `PLF_L2_STACK_8CORE` -/
  l2Stack8Core : Bool

/-- `HLSHIFT` -/
def SbiPlf32.hlshift (plf : SbiPlf32) : ℕ := if plf.l2Stack8Core then 11 else 12

/-- `HLSIZE` -/
def SbiPlf32.hlsize (plf : SbiPlf32) : U32 := 1#32 <<< plf.hlshift

/-- What a call does outside of the registers. -/
inductive SbiEffect32
  | setMip (bits : U32)
  | clearMip (bits : U32)
  | setMie (bits : U32)
  /-- A store to a register of the timer. -/
  | sw (addr word : U32)
  /-- A write of `word` to `SCR_CSR_IPI_MWDATA` with `SCR_CSR_IPI_MADDR = dest`. -/
  | post (dest word : U32)
  deriving DecidableEq, Repr

/-- A hart in the trap handler. -/
structure SbiHart32 where
  x : RegFile 32
  mscratch : U32
  mepc : U32
  mcause : U32
  /-- `hart_local_storage.xreg` of this hart, at `sp`. -/
  xreg : RegFile 32
  /-- `hls.ipi_n`, by the address of the storage of a hart. -/
  ipiN : U32 → U8
  /-- Memory, by words, as a physical address finds it. -/
  mem : U32 → U32
  hartsOnline : U32
  numHarts : U32
  slotBitsShift : U32
  /-- What the call did, the latest last. -/
  effects : List SbiEffect32

/-- Where the trap handler goes on. -/
inductive FastPathExit32
  /-- `mret` -/
  | mret (s : SbiHart32)
  | interruptHandler (s : SbiHart32)
  | tlbMissTrapHandler (s : SbiHart32)
  | handleTrapInMachineMode (s : SbiHart32)

/-- `SCR_RTC_CMP_OFF` -/
def scrRtcCmpOff : U32 := 16#32
/-- `SCR_RTC_CMPH_OFF` -/
def scrRtcCmphOff : U32 := 20#32
/-- `SCR_IPI_SEND_CSHIFT` -/
def scrIpiSendCshift32 : ℕ := 22

namespace SbiHart32

/-! ## Instructions -/

variable (plf : SbiPlf32) (s : SbiHart32)

/-- Instructions on registers. -/
def exec (f : RegFile 32 → RegFile 32) : SbiHart32 := { s with x := f s.x }

/-- `save_reg_idx`, with base `sp` -/
def saveReg (r : IntReg) : SbiHart32 := { s with xreg := s.xreg.set r (s.x.get r) }

/-- `load_reg_idx`, with base `sp` -/
def loadReg (r : IntReg) : SbiHart32 := { s with x := s.x.set r (s.xreg.get r) }

/-- `load_reg_offs rd, 32, rs`: the `ipi_n` of the hart whose storage `rs` points to. -/
def loadIpiN (rd rs : IntReg) : SbiHart32 :=
  { s with x := s.x.set rd ((s.ipiN (s.x.get rs)).setWidth 32) }

/-- `csrrw sp, mscratch, sp` -/
def swapSp : SbiHart32 := { s with x := s.x.set .sp s.mscratch, mscratch := s.x.get .sp }

def effect (e : SbiEffect32) : SbiHart32 := { s with effects := s.effects ++ [e] }

/-- `sw rs, off(base)`, to the timer -/
def sw (rs : IntReg) (off : U32) (base : IntReg) : SbiHart32 :=
  s.effect (.sw (s.x.get base + off) (s.x.get rs))

/-- `ipi_send_wait`, when the receiver is free at last. -/
def ipiSendWait : SbiHart32 :=
  let receiver := s.x.get .a0
  -- `.Lipi_status_wait`, and in `a0` what ends it
  let s := s.exec (·.li .a0 0#32)
  s.effect (.post receiver (s.x.get .a1))

/-! ## Return -/

def mtrapScallRet : SbiHart32 :=
  let s := s.exec (·.li .a1 s.mepc)
  let s := s.exec (·.addi .a1 .a1 4#32)
  let s := { s with mepc := s.x.get .a1 }
  let s := s.exec (·.li .a0 0#32)
  let s := s.loadReg .a1
  s.swapSp

def sbi02CallRetErr : SbiHart32 :=
  let s := s.exec (·.li .a1 s.mepc)
  let s := s.exec (·.addi .a1 .a1 4#32)
  let s := { s with mepc := s.x.get .a1 }
  let s := s.exec (·.li .a0 (-2#32))
  let s := s.loadReg .a1
  s.swapSp

/-! ## IPIs -/

/-- One round of `.Lipi_mask_loop`, up to the test at its end. -/
def lipiMaskRound : SbiHart32 :=
  let s := s.exec (·.slli .a3 .a3 1)
  let s := s.exec (·.li .a0 plf.hlsize)
  let s := s.exec (·.add .a2 .a2 .a0)
  if ¬ (s.x.get .a3).msb then s
  else if s.x.get .a2 = s.x.get .sp then s.effect (.setMip (1#32 <<< intSmSoftware))
  else
    let s := s.loadIpiN .a0 .a2
    s.ipiSendWait

/-- `.Lipi_mask_loop`; a mask of 32 bits is used up after 32 rounds at the latest. -/
def lipiMaskLoop : ℕ → SbiHart32 → SbiHart32
  | 0, s => s
  | n + 1, s =>
    let s := s.lipiMaskRound plf
    if s.x.get .a3 = 0#32 then s else lipiMaskLoop n s

/-- `.Lipi_send_masked`, up to the loop. -/
def lipiMaskStart : SbiHart32 :=
  let s := s.exec (·.li .a1 (BitVec.ofNat 32 scrIpiCmdSignal <<< scrIpiSendCshift32))
  let s := s.exec (·.li .a2 s.slotBitsShift)
  let s := s.exec (·.sll .a1 .a1 .a2)
  let s := s.exec (·.li .a2 s.numHarts)
  let s := s.exec (·.addi .a0 .a2 (1#32 - 32#32))
  let s := s.exec (·.neg .a0 .a0)
  let s := s.exec (·.sll .a3 .a3 .a0)
  let s := s.exec (·.slli .a0 .a2 plf.hlshift)
  let s := s.exec (·.li .a2 plf.tls0Base)
  s.exec (·.sub .a2 .a2 .a0)

def lipiSendMasked : SbiHart32 :=
  let s := s.lipiMaskStart plf
  let s := s.lipiMaskLoop plf 32
  let s := s.loadReg .a2
  let s := s.loadReg .a3
  s.mtrapScallRet

def sbiCallSendIpi : SbiHart32 :=
  let s := s.saveReg .a2
  let s := s.saveReg .a3
  let s := s.loadReg .a0
  let s := s.exec (·.li .a3 s.hartsOnline)
  let s := s.exec (·.li .a2 (plf.pageOffset - plf.memBase))
  let s := s.exec (·.sub .a0 .a0 .a2)
  let s := s.exec (·.li .a2 plf.memBase)
  if s.x.get .a0 < s.x.get .a2 then s.lipiSendMasked plf
  else
    let s := s.exec (·.li .a2 (plf.memBase + plf.memSize))
    if s.x.get .a2 ≤ s.x.get .a0 then s.lipiSendMasked plf
    else
      let s := s.exec (·.li .a3 (s.mem (s.x.get .a0)))
      let s := s.exec (·.li .a2 s.hartsOnline)
      let s := s.exec (·.and .a3 .a3 .a2)
      s.lipiSendMasked plf

def sbi02CallSendIpi : SbiHart32 :=
  if s.x.get .a6 ≠ 0#32 then s.sbi02CallRetErr
  else
    let s := s.loadReg .a1
    let s := s.exec (·.li .a0 32#32)
    -- `bge`, signed
    if (s.x.get .a0).sle (s.x.get .a1) then s.mtrapScallRet
    else
      let s := s.saveReg .a2
      let s := s.saveReg .a3
      let s := s.exec (·.li .a3 s.hartsOnline)
      if (s.x.get .a1).slt 0#32 then s.lipiSendMasked plf
      else
        let s := s.loadReg .a0
        let s := s.exec (·.sll .a0 .a0 .a1)
        let s := s.exec (·.and .a3 .a3 .a0)
        s.lipiSendMasked plf

def sbiCallClearIpi : SbiHart32 :=
  (s.effect (.clearMip (1#32 <<< intSmSoftware))).mtrapScallRet

/-! ## Timer -/

def lsbiCallTimerRet : SbiHart32 :=
  let s := s.exec (·.li .a1 (1#32 <<< intSmTimer))
  let s := s.effect (.clearMip (s.x.get .a1))
  let s := s.exec (·.li .a1 (1#32 <<< intMmTimer))
  let s := s.effect (.setMie (s.x.get .a1))
  s.mtrapScallRet

/-- The stores to the timer, with its base in `a7`, which holds `func` otherwise. -/
def storeCmp (func : U32) : SbiHart32 :=
  let s := s.exec (·.li .a7 plf.mtimerBase)
  let s := s.loadReg .a0
  let s := s.exec (·.li .a1 (~~~0#32))
  let s := s.sw .a1 scrRtcCmphOff .a7
  let s := s.loadReg .a1
  let s := s.sw .a0 scrRtcCmpOff .a7
  let s := s.sw .a1 scrRtcCmphOff .a7
  s.exec (·.li .a7 func)

def sbiCallSetTimer : SbiHart32 :=
  (s.storeCmp plf (sbiSetTimer.setWidth 32)).lsbiCallTimerRet

def sbi02CallSetTimer : SbiHart32 :=
  if s.x.get .a6 ≠ 0#32 then s.sbi02CallRetErr
  else (s.storeCmp plf (sbiExtTime.setWidth 32)).lsbiCallTimerRet

/-! ## Entry -/

def trapHander : FastPathExit32 :=
  let s := s.swapSp
  let s := s.saveReg .a0
  let s := s.saveReg .a1
  let s := s.exec (·.li .a0 s.mcause)
  if (s.x.get .a0).slt 0#32 then .interruptHandler s
  else
    let s := s.exec (·.li .a1 (excTlbMiss.setWidth 32))
    if s.x.get .a1 = s.x.get .a0 then .tlbMissTrapHandler s
    else
      let s := s.exec (·.li .a1 (excSmEcall.setWidth 32))
      if s.x.get .a1 ≠ s.x.get .a0 then .handleTrapInMachineMode s
      else
        let s := s.exec (·.li .a1 (sbiSendIpi.setWidth 32))
        if s.x.get .a1 = s.x.get .a7 then .mret (s.sbiCallSendIpi plf)
        else
          let s := s.exec (·.li .a1 (sbiSetTimer.setWidth 32))
          if s.x.get .a1 = s.x.get .a7 then .mret (s.sbiCallSetTimer plf)
          else
            let s := s.exec (·.li .a1 (sbiExtTime.setWidth 32))
            if s.x.get .a1 = s.x.get .a7 then .mret (s.sbi02CallSetTimer plf)
            else
              let s := s.exec (·.li .a1 (sbiExtIpi.setWidth 32))
              if s.x.get .a1 = s.x.get .a7 then .mret (s.sbi02CallSendIpi plf)
              else
                let s := s.exec (·.li .a1 (sbiClearIpi.setWidth 32))
                if s.x.get .a1 = s.x.get .a7 then .mret s.sbiCallClearIpi
                else .handleTrapInMachineMode s

/-! ## The registers of the caller -/

variable {plf s} {e t u : SbiHart32} {x : RegFile 32} {r : IntReg}

/-- A call in state `s` that returns in state `t`. -/
abbrev CallerKept (s t : SbiHart32) : Prop :=
  CallKept s.x s.mscratch s.mepc t.x t.mscratch t.mepc

/-- From `s` to `t`, only `a0` to `a3` have been written. -/
structure Works (s t : SbiHart32) : Prop where
  frame : t = { s with x := t.x, effects := t.effects }
  regs : ∀ r ∉ [.a0, .a1, .a2, .a3], t.x.get r = s.x.get r

theorem Works.trans (h : Works s t) (h' : Works t u) : Works s u where
  frame := by
    rw [h'.frame, h.frame]
  regs r hr := (h'.regs r hr).trans (h.regs r hr)

/-- A round of the loop works in `a0` to `a3`, whether it signals a hart or not. -/
theorem works_lipiMaskRound (plf : SbiPlf32) (s : SbiHart32) : Works s (s.lipiMaskRound plf) := by
  have hround : (s.lipiMaskRound plf) =
      { s with x := (s.lipiMaskRound plf).x, effects := (s.lipiMaskRound plf).effects } := by
    simp only [lipiMaskRound]
    split_ifs <;> rfl
  refine ⟨hround, fun r hr => ?_⟩
  simp only [List.mem_cons, List.not_mem_nil, or_false, not_or] at hr
  obtain ⟨h0, h1, h2, h3⟩ := hr
  simp only [lipiMaskRound]
  split_ifs
  all_goals simp [exec, effect, loadIpiN, ipiSendWait, RegFile.slli, RegFile.li, RegFile.add,
    h0, h2, h3]

/-- So does any number of rounds. -/
theorem works_lipiMaskLoop (plf : SbiPlf32) (n : ℕ) :
    ∀ s : SbiHart32, Works s (s.lipiMaskLoop plf n) := by
  induction n with
  | zero => exact fun s => ⟨rfl, fun r _ => rfl⟩
  | succ n ih =>
    intro s
    rw [lipiMaskLoop]
    have hround := works_lipiMaskRound plf s
    by_cases hzero : (s.lipiMaskRound plf).x.get .a3 = 0#32
    · rw [if_pos hzero]
      exact hround
    · rw [if_neg hzero]
      exact hround.trans (ih _)

theorem works_lipiMaskStart (plf : SbiPlf32) (s : SbiHart32) : Works s (s.lipiMaskStart plf) := by
  refine ⟨by simp only [lipiMaskStart, exec], fun r hr => ?_⟩
  simp only [List.mem_cons, List.not_mem_nil, or_false, not_or] at hr
  obtain ⟨h0, h1, h2, h3⟩ := hr
  simp [lipiMaskStart, exec, RegFile.li, RegFile.sll, RegFile.addi, RegFile.neg, RegFile.slli,
    RegFile.sub, h0, h1, h2, h3]

/-- The hart past the entry of the trap handler: all registers but `a0` and `a1` are as they
were. -/
abbrev Inside (s e : SbiHart32) : Prop :=
  InTrap s.x s.mscratch s.mepc e.x e.mscratch e.mepc

/-- The return swaps `sp` back, and leaves all registers but those of the answer. -/
theorem mtrapScallRet_get (h0 : r ≠ .a0) (h1 : r ≠ .a1) :
    s.mtrapScallRet.x.get r = if r = .sp then s.mscratch else s.x.get r := by
  by_cases hsp : r = .sp
  · simp [mtrapScallRet, swapSp, loadReg, exec, hsp]
  · simp [mtrapScallRet, swapSp, loadReg, exec, RegFile.li, RegFile.addi, h0, h1, hsp]

theorem sbi02CallRetErr_get (h0 : r ≠ .a0) (h1 : r ≠ .a1) :
    s.sbi02CallRetErr.x.get r = if r = .sp then s.mscratch else s.x.get r := by
  by_cases hsp : r = .sp
  · simp [sbi02CallRetErr, swapSp, loadReg, exec, hsp]
  · simp [sbi02CallRetErr, swapSp, loadReg, exec, RegFile.li, RegFile.addi, h0, h1, hsp]

theorem Inside.mtrapScallRet_kept (h : Inside s e) : CallerKept s e.mtrapScallRet :=
  h.returned (fun _ => mtrapScallRet_get)
    (by simp [mtrapScallRet, swapSp, loadReg, exec, RegFile.li, RegFile.addi])
    (by simp [mtrapScallRet, swapSp, loadReg, exec, RegFile.li, RegFile.addi])

theorem Inside.sbi02CallRetErr_kept (h : Inside s e) : CallerKept s e.sbi02CallRetErr :=
  h.returned (fun _ => sbi02CallRetErr_get)
    (by simp [sbi02CallRetErr, swapSp, loadReg, exec, RegFile.li, RegFile.addi])
    (by simp [sbi02CallRetErr, swapSp, loadReg, exec, RegFile.li, RegFile.addi])

/-- The hart where `a2` and `a3` have been saved. -/
abbrev Sending (s t : SbiHart32) : Prop :=
  ArgsSaved s.x s.mscratch s.mepc t.x t.mscratch t.mepc t.xreg

/-- **`.Lipi_send_masked`** gives back `a2` and `a3`. -/
theorem Sending.lipiSendMasked_kept (h : Sending s t) : CallerKept s (t.lipiSendMasked plf) := by
  have hworks := (works_lipiMaskStart plf t).trans (works_lipiMaskLoop plf 32 _)
  rw [lipiSendMasked]
  obtain ⟨u, hu⟩ : ∃ u, u = (t.lipiMaskStart plf).lipiMaskLoop plf 32 := ⟨_, rfl⟩
  rw [← hu] at hworks ⊢
  have hinside : Inside s ((u.loadReg .a2).loadReg .a3) := by
    rw [hworks.frame]
    exact ArgsSaved.restored h hworks.regs
  exact Inside.mtrapScallRet_kept hinside

/-- `a2` and `a3` saved, and other registers in use. -/
def saved (e : SbiHart32) (x : RegFile 32) : SbiHart32 :=
  { e with x := x, xreg := (e.xreg.set .a2 (e.x.get .a2)).set .a3 (e.x.get .a3) }

/-- With `a2` and `a3` saved, a call may use them up to `.Lipi_send_masked`, which gives them back.
-/
theorem Inside.saved_kept (h : Inside s e) (ht : t = e.saved t.x)
    (hregs : ∀ r, r ≠ .a0 ∧ r ≠ .a1 ∧ r ≠ .a2 ∧ r ≠ .a3 → t.x.get r = e.x.get r) :
    CallerKept s (t.lipiSendMasked plf) := by
  rw [ht]
  refine Sending.lipiSendMasked_kept (InTrap.argsSaved h e.xreg fun r hr => hregs r ?_)
  simpa only [List.mem_cons, List.not_mem_nil, or_false, not_or] using hr

theorem Inside.sbiCallSendIpi_kept (h : Inside s e) : CallerKept s (e.sbiCallSendIpi plf) := by
  simp (disch := decide) only [sbiCallSendIpi, exec, saveReg, loadReg, RegFile.li, RegFile.sub,
    RegFile.and, RegFile.get_set_self, RegFile.get_set_of_ne]
  split_ifs
  all_goals exact h.saved_kept rfl fun r hr => by simp [hr]

theorem Inside.sbi02CallSendIpi_kept (h : Inside s e) :
    CallerKept s (e.sbi02CallSendIpi plf) := by
  rw [sbi02CallSendIpi]
  by_cases hfn : e.x.get .a6 ≠ 0#32
  · rw [if_pos hfn]
    exact h.sbi02CallRetErr_kept
  · rw [if_neg hfn]
    simp (disch := decide) only [exec, saveReg, loadReg, RegFile.li, RegFile.sll, RegFile.and,
      RegFile.get_set_self, RegFile.get_set_of_ne]
    split_ifs
    · apply Inside.mtrapScallRet_kept
      exact h.of_regs (fun r h0 h1 => by simp [h0, h1]) rfl rfl
    · exact h.saved_kept rfl fun r hr => by simp [hr]
    · exact h.saved_kept rfl fun r hr => by simp [hr]

/-- The timer's stores put back what `a7` held. -/
theorem storeCmp_get {func : U32} (h7 : s.x.get .a7 = func) (h0 : r ≠ .a0) (h1 : r ≠ .a1) :
    (s.storeCmp plf func).x.get r = s.x.get r := by
  by_cases hr : r = .a7
  · rw [hr, h7]
    simp [storeCmp, exec, RegFile.li]
  · simp [storeCmp, exec, loadReg, sw, effect, RegFile.li, h0, h1, hr]

theorem Inside.lsbiCallTimerRet_kept (h : Inside s e) : CallerKept s e.lsbiCallTimerRet := by
  rw [lsbiCallTimerRet]
  apply Inside.mtrapScallRet_kept
  refine h.of_regs (fun r h0 h1 => ?_) rfl rfl
  simp [exec, effect, RegFile.li, h1]

/-- The three stores of the timer go through `a7`, which then gets the number of the call again. -/
theorem Inside.storeCmp {func : U32} (h : Inside s e) (h7 : e.x.get .a7 = func) :
    Inside s (e.storeCmp plf func) :=
  h.of_regs (fun _ => storeCmp_get h7) rfl rfl

theorem Inside.sbiCallClearIpi_kept (h : Inside s e) : CallerKept s e.sbiCallClearIpi := by
  rw [sbiCallClearIpi]
  apply Inside.mtrapScallRet_kept
  exact h.of_regs (fun _ _ _ => rfl) rfl rfl

/-- The hart past a test of the call number, which leaves `v` in `a1`. -/
def atTest (s : SbiHart32) (v : U32) : SbiHart32 :=
  (((s.swapSp.saveReg .a0).saveReg .a1).exec (·.li .a0 s.mcause)).exec (·.li .a1 v)

theorem atTest_inside (s : SbiHart32) (v : U32) : Inside s (s.atTest v) where
  sp := by simp [atTest, exec, saveReg, swapSp, RegFile.li]
  mscratch := rfl
  mepc := rfl
  regs r hr := by
    simp only [List.mem_cons, List.not_mem_nil, or_false, not_or] at hr
    obtain ⟨hsp, h0, h1⟩ := hr
    simp [atTest, exec, saveReg, swapSp, RegFile.li, hsp, h0, h1]

/-- The tests of the call number. -/
theorem trapHander_ecall (plf : SbiPlf32) (hecall : s.mcause = excSmEcall.setWidth 32) :
    s.trapHander plf =
      if sbiSendIpi.setWidth 32 = s.x.get .a7 then
        .mret ((s.atTest (sbiSendIpi.setWidth 32)).sbiCallSendIpi plf)
      else if sbiSetTimer.setWidth 32 = s.x.get .a7 then
        .mret ((s.atTest (sbiSetTimer.setWidth 32)).sbiCallSetTimer plf)
      else if sbiExtTime.setWidth 32 = s.x.get .a7 then
        .mret ((s.atTest (sbiExtTime.setWidth 32)).sbi02CallSetTimer plf)
      else if sbiExtIpi.setWidth 32 = s.x.get .a7 then
        .mret ((s.atTest (sbiExtIpi.setWidth 32)).sbi02CallSendIpi plf)
      else if sbiClearIpi.setWidth 32 = s.x.get .a7 then
        .mret (s.atTest (sbiClearIpi.setWidth 32)).sbiCallClearIpi
      else .handleTrapInMachineMode (s.atTest (sbiClearIpi.setWidth 32)) := by
  have hpos : ¬ (excSmEcall.setWidth 32).slt 0#32 := by decide
  have htlb : excTlbMiss.setWidth 32 ≠ excSmEcall.setWidth 32 := by decide
  simp [trapHander, atTest, exec, saveReg, swapSp, RegFile.li, hecall, hpos, htlb]

/-- **On RV32 each call** that the fast path completes keeps the registers of the caller. The
mailbox is in CSRs there, so that no message takes a temporary register. -/
theorem kept_of_mret (hmret : s.trapHander plf = .mret t) : s.CallerKept t := by
  have hinside := s.atTest_inside
  have hecall : s.mcause = excSmEcall.setWidth 32 := by
    by_contra hne
    rw [trapHander] at hmret
    simp [exec, saveReg, swapSp, RegFile.li, Ne.symm hne] at hmret
    split_ifs at hmret
  have h7 : ∀ v, (s.atTest v).x.get .a7 = s.x.get .a7 := by
    intro v
    exact (hinside v).regs .a7 (by decide)
  rw [trapHander_ecall plf hecall] at hmret
  split_ifs at hmret with hfunc hfunc hfunc hfunc hfunc
  · cases hmret
    exact (hinside _).sbiCallSendIpi_kept
  · cases hmret
    exact ((hinside _).storeCmp ((h7 _).trans hfunc.symm)).lsbiCallTimerRet_kept
  · cases hmret
    rw [sbi02CallSetTimer]
    split_ifs
    · exact (hinside _).sbi02CallRetErr_kept
    · exact ((hinside _).storeCmp ((h7 _).trans hfunc.symm)).lsbiCallTimerRet_kept
  · cases hmret
    exact (hinside _).sbi02CallSendIpi_kept
  · cases hmret
    exact (hinside _).sbiCallClearIpi_kept

/-! ## The timer -/

/-- What setting the timer does. -/
def timerEffects (plf : SbiPlf32) (a0 a1 : U32) : List SbiEffect32 :=
  [.sw (plf.mtimerBase + scrRtcCmphOff) (~~~0#32), .sw (plf.mtimerBase + scrRtcCmpOff) a0,
    .sw (plf.mtimerBase + scrRtcCmphOff) a1, .clearMip (1#32 <<< intSmTimer),
    .setMie (1#32 <<< intMmTimer)]

/-- The old call reads its deadline from the saved `a0` and `a1`, since the registers are used by
then. -/
theorem sbiCallSetTimer_effects : (s.sbiCallSetTimer plf).effects =
    s.effects ++ timerEffects plf (s.xreg.get .a0) (s.xreg.get .a1) := by
  simp [sbiCallSetTimer, storeCmp, lsbiCallTimerRet, mtrapScallRet, swapSp, exec, loadReg, sw,
    effect, RegFile.li, RegFile.addi, timerEffects]

end SbiHart32

/-- The instruction for the timer behind an effect. -/
def SbiEffect32.timerOp (plf : SbiPlf32) : SbiEffect32 → Option TimerOp
  | .sw addr word =>
    if addr = plf.mtimerBase + scrRtcCmpOff then some (.store (.cmp word))
    else if addr = plf.mtimerBase + scrRtcCmphOff then some (.store (.cmph word))
    else none
  | .clearMip mask => if mask = 1#32 <<< intSmTimer then some .clearStip else none
  | .setMie mask => if mask = 1#32 <<< intMmTimer then some .setMtie else none
  | _ => none

/-- The set-timer calls do to the timer what those of the hart with a timer do. -/
theorem timerEffects32_timerOp (plf : SbiPlf32) (a0 a1 : U32) :
    (SbiHart32.timerEffects plf a0 a1).filterMap (SbiEffect32.timerOp plf) =
      (TimerCall.stores (x := .rv32) (.fast a0 a1)).map .store ++ timerRet := by
  have hne : plf.mtimerBase + scrRtcCmphOff ≠ plf.mtimerBase + scrRtcCmpOff := by
    rw [Ne, add_right_inj]
    decide
  simp [SbiHart32.timerEffects, SbiEffect32.timerOp, hne, TimerCall.stores, sbiCallSetTimer,
    timerRet]

end ScBl
