import ScBl.Emu.Hart
import ScBl.Ipi.Consume

/-!
# The SBI fast path (`mentry.S`, `__trap_hander`)

The part of the trap handler in assembly that serves timer and IPI calls of
S-mode by itself, `PLF_IPI_ASM_HANDLERS = 1`, `PLF_SMP_SUPPORT = 1`,
`PLF_HSM_SUPPORT = 1`, `XLEN = 64`. Each label is a definition; an instruction is
an operation of the register file or of the hart. A hart waits for a receiver of
an IPI as long as it takes.
-/

namespace ScBl

open Rv

/-! ## The platform and the hart -/

/-- The constants of a platform. -/
structure SbiPlf where
  transport : IpiTransport
  /-- `SCR_ICCM_SEG_A_BASE` -/
  iccmSegABase : U64
  /-- `PLF_MTIMER_BASE` -/
  mtimerBase : U64
  /-- `PLF_MEM_BASE` -/
  memBase : U64
  /-- `PLF_MEM_SIZE` -/
  memSize : U64
  /-- `PAGE_OFFSET` -/
  pageOffset : U64
  /-- `__TLS0_BASE__` -/
  tls0Base : U64
  /-- `PLF_L2_STACK_8CORE` -/
  l2Stack8Core : Bool

/-- `HLSHIFT` -/
def SbiPlf.hlshift (plf : SbiPlf) : ℕ := if plf.l2Stack8Core then 11 else 12

/-- `HLSIZE` -/
def SbiPlf.hlsize (plf : SbiPlf) : U64 := 1#64 <<< plf.hlshift

/-- What a call does outside of the registers. -/
inductive SbiEffect
  | setMip (bits : U64)
  | clearMip (bits : U64)
  | setMie (bits : U64)
  /-- A write to the register at `SCR_RTC_CMP_OFF` of the timer at `base`. -/
  | setCmp (base deadline : U64)
  /-- A write of `word` to `SCR_CSR_IPI_MWDATA` with `SCR_CSR_IPI_MADDR = dest`, or,
  with ICCM, to the buffer at the address `dest`. -/
  | post (dest word : U64)
  deriving DecidableEq, Repr

/-- A hart in the trap handler. -/
structure SbiHart where
  x : RegFile 64
  mscratch : U64
  mepc : U64
  mcause : U64
  /-- `hart_local_storage.xreg` of this hart, at `sp`. -/
  xreg : RegFile 64
  /-- `hls.ipi_n`, by the address of the storage of a hart: a slot of the transport,
  which has eight bits for it at most. -/
  ipiN : U64 → U8
  /-- Memory, by doublewords, as a physical address finds it. -/
  mem : U64 → U64
  hartsOnline : U64
  numHarts : U32
  slotBitsShift : U32
  /-- What the call did, the latest last. -/
  effects : List SbiEffect

/-- Where the trap handler goes on. -/
inductive FastPathExit
  /-- `mret` -/
  | mret (s : SbiHart)
  | interruptHandler (s : SbiHart)
  | tlbMissTrapHandler (s : SbiHart)
  | handleTrapInMachineMode (s : SbiHart)

def intSmSoftware : ℕ := 1
def intSmTimer : ℕ := 5
def intMmTimer : ℕ := 7
def excSmEcall : U64 := 9#64

def sbiSetTimer : U64 := 0#64
def sbiClearIpi : U64 := 3#64
def sbiSendIpi : U64 := 4#64
def sbiExtTime : U64 := 0x54494D45#64
def sbiExtIpi : U64 := 0x735049#64

namespace SbiHart

/-! ## Instructions -/

variable (plf : SbiPlf) (s : SbiHart)

/-- Instructions on registers. -/
def exec (f : RegFile 64 → RegFile 64) : SbiHart := { s with x := f s.x }

/-- `save_reg_idx`, with base `sp` -/
def saveReg (r : IntReg) : SbiHart := { s with xreg := s.xreg.set r (s.x.get r) }

/-- `load_reg_idx`, with base `sp` -/
def loadReg (r : IntReg) : SbiHart := { s with x := s.x.set r (s.xreg.get r) }

/-- `load_reg_offs rd, 32, rs`: the `ipi_n` of the hart whose storage `rs` points to. -/
def loadIpiN (rd rs : IntReg) : SbiHart :=
  { s with x := s.x.set rd ((s.ipiN (s.x.get rs)).setWidth 64) }

/-- `csrrw sp, mscratch, sp` -/
def swapSp : SbiHart := { s with x := s.x.set .sp s.mscratch, mscratch := s.x.get .sp }

def effect (e : SbiEffect) : SbiHart := { s with effects := s.effects ++ [e] }

/-- `ipi_send_wait`, when the receiver is free at last. -/
def ipiSendWait : SbiHart :=
  match plf.transport with
  | .csr =>
    let receiver := s.x.get .a0
    -- `.Lipi_status_wait`, and in `a0` what ends it
    let s := s.exec (·.li .a0 0#64)
    s.effect (.post receiver (s.x.get .a1))
  | .iccm =>
    -- `.Lipi_status_wait`, and in `t2` what ends it
    let s := s.exec (·.li .t0 (plf.iccmSegABase + 0x400#64))
    let s := s.loadIpiN .t1 .sp
    let s := s.exec (·.slli .t2 .t1 4)
    let s := s.exec (·.add .t0 .t0 .t2)
    let s := s.exec (·.li .t3 1#64)
    let s := s.exec (·.sll .t3 .t3 .a0)
    let s := s.exec (·.li .t2 0#64)
    let s := s.exec (·.li .t0 (plf.iccmSegABase + 0xC00#64))
    let s := s.exec (·.slli .t2 .a0 2)
    let s := s.exec (·.add .t0 .t0 .t2)
    -- `sw`
    s.effect (.post (s.x.get .t0) (((s.x.get .a1).setWidth 32).setWidth 64))

/-! ## Return -/

def mtrapScallRet : SbiHart :=
  let s := s.exec (·.li .a1 s.mepc)
  let s := s.exec (·.addi .a1 .a1 4#64)
  let s := { s with mepc := s.x.get .a1 }
  let s := s.exec (·.li .a0 0#64)
  let s := s.loadReg .a1
  s.swapSp

def sbi02CallRetErr : SbiHart :=
  let s := s.exec (·.li .a1 s.mepc)
  let s := s.exec (·.addi .a1 .a1 4#64)
  let s := { s with mepc := s.x.get .a1 }
  let s := s.exec (·.li .a0 (-2#64))
  let s := s.loadReg .a1
  s.swapSp

/-! ## IPIs -/

/-- One round of `.Lipi_mask_loop`, up to the test at its end. -/
def lipiMaskRound : SbiHart :=
  let s := s.exec (·.slli .a3 .a3 1)
  let s := s.exec (·.li .a0 plf.hlsize)
  let s := s.exec (·.add .a2 .a2 .a0)
  if ¬ (s.x.get .a3).msb then s
  else if s.x.get .a2 = s.x.get .sp then s.effect (.setMip (1#64 <<< intSmSoftware))
  else
    let s := s.loadIpiN .a0 .a2
    s.ipiSendWait plf

/-- `.Lipi_mask_loop`; a mask of 64 bits is used up after 64 rounds at the latest. -/
def lipiMaskLoop : ℕ → SbiHart → SbiHart
  | 0, s => s
  | n + 1, s =>
    let s := s.lipiMaskRound plf
    if s.x.get .a3 = 0#64 then s else lipiMaskLoop n s

def lipiSendMasked : SbiHart :=
  let s := s.exec (·.li .a1 (BitVec.ofNat 64 scrIpiCmdSignal <<< plf.transport.sendCshift))
  let s :=
    match plf.transport with
    | .csr =>
      let s := s.exec (·.li .a2 (s.slotBitsShift.signExtend 64))
      s.exec (·.sll .a1 .a1 .a2)
    | .iccm => s
  let s := s.exec (·.li .a2 (s.numHarts.signExtend 64))
  let s := s.exec (·.addi .a0 .a2 (1#64 - 64#64))
  let s := s.exec (·.neg .a0 .a0)
  let s := s.exec (·.sll .a3 .a3 .a0)
  let s := s.exec (·.slli .a0 .a2 plf.hlshift)
  let s := s.exec (·.li .a2 plf.tls0Base)
  let s := s.exec (·.sub .a2 .a2 .a0)
  let s := s.lipiMaskLoop plf 64
  let s := s.loadReg .a2
  let s := s.loadReg .a3
  s.mtrapScallRet

def sbiCallSendIpi : SbiHart :=
  let s := s.saveReg .a2
  let s := s.saveReg .a3
  let s := s.loadReg .a0
  let s := s.exec (·.li .a3 s.hartsOnline)
  let s := s.exec (·.li .a2 (plf.pageOffset - plf.memBase))
  let s := s.exec (·.sub .a0 .a0 .a2)
  let s := s.exec (·.li .a2 plf.memBase)
  if s.x.get .a0 < s.x.get .a2 then s.lipiSendMasked plf
  else
    let s := s.exec (·.li .a2 (plf.memBase + plf.memSize))
    if s.x.get .a2 ≤ s.x.get .a0 then s.lipiSendMasked plf
    else
      let s := s.exec (·.li .a3 (s.mem (s.x.get .a0)))
      let s := s.exec (·.li .a2 s.hartsOnline)
      let s := s.exec (·.and .a3 .a3 .a2)
      s.lipiSendMasked plf

def sbi02CallSendIpi : SbiHart :=
  if s.x.get .a6 ≠ 0#64 then s.sbi02CallRetErr
  else
    let s := s.loadReg .a1
    let s := s.exec (·.li .a0 64#64)
    -- `bge`, signed
    if (s.x.get .a0).sle (s.x.get .a1) then s.mtrapScallRet
    else
      let s := s.saveReg .a2
      let s := s.saveReg .a3
      let s := s.exec (·.li .a3 s.hartsOnline)
      if (s.x.get .a1).slt 0#64 then s.lipiSendMasked plf
      else
        let s := s.loadReg .a0
        let s := s.exec (·.sll .a0 .a0 .a1)
        let s := s.exec (·.and .a3 .a3 .a0)
        s.lipiSendMasked plf

def sbiCallClearIpi : SbiHart :=
  (s.effect (.clearMip (1#64 <<< intSmSoftware))).mtrapScallRet

/-! ## Timer -/

def lsbiCallTimerRet : SbiHart :=
  let s := s.exec (·.li .a1 plf.mtimerBase)
  let s := s.loadReg .a0
  let s := s.effect (.setCmp (s.x.get .a1) (s.x.get .a0))
  let s := s.exec (·.li .a1 (1#64 <<< intSmTimer))
  let s := s.effect (.clearMip (s.x.get .a1))
  let s := s.exec (·.li .a1 (1#64 <<< intMmTimer))
  let s := s.effect (.setMie (s.x.get .a1))
  s.mtrapScallRet

def sbi02CallSetTimer : SbiHart :=
  if s.x.get .a6 ≠ 0#64 then s.sbi02CallRetErr else s.lsbiCallTimerRet plf

/-! ## Entry -/

def trapHander : FastPathExit :=
  let s := s.swapSp
  let s := s.saveReg .a0
  let s := s.saveReg .a1
  let s := s.exec (·.li .a0 s.mcause)
  if (s.x.get .a0).slt 0#64 then .interruptHandler s
  else
    let s := s.exec (·.li .a1 excTlbMiss)
    if s.x.get .a1 = s.x.get .a0 then .tlbMissTrapHandler s
    else
      let s := s.exec (·.li .a1 excSmEcall)
      if s.x.get .a1 ≠ s.x.get .a0 then .handleTrapInMachineMode s
      else
        let s := s.exec (·.li .a1 sbiSendIpi)
        if s.x.get .a1 = s.x.get .a7 then .mret (s.sbiCallSendIpi plf)
        else
          let s := s.exec (·.li .a1 sbiSetTimer)
          if s.x.get .a1 = s.x.get .a7 then .mret (s.lsbiCallTimerRet plf)
          else
            let s := s.exec (·.li .a1 sbiExtTime)
            if s.x.get .a1 = s.x.get .a7 then .mret (s.sbi02CallSetTimer plf)
            else
              let s := s.exec (·.li .a1 sbiExtIpi)
              if s.x.get .a1 = s.x.get .a7 then .mret (s.sbi02CallSendIpi plf)
              else
                let s := s.exec (·.li .a1 sbiClearIpi)
                if s.x.get .a1 = s.x.get .a7 then .mret s.sbiCallClearIpi
                else .handleTrapInMachineMode s

end SbiHart

end ScBl
