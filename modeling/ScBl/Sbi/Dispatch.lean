import ScBl.Ipi.Send
import ScBl.Sbi.FastPath

/-!
# The SBI dispatcher in C (`mtrap.c`, `mmode_trap_handler`)

The calls that the fast path has too, as `mmode_trap_handler` serves them when it
is built with `PLF_IPI_ASM_HANDLERS = 0`. The other calls are left out.
-/

namespace ScBl

open Rv

/-- `__pa(vaddr)` -/
def SbiPlf.pa (plf : SbiPlf) (vaddr : U64) : U64 := vaddr - (plf.pageOffset - plf.memBase)

/-- `hart_tls(hartn)` -/
def SbiPlf.hartTls (plf : SbiPlf) (hartn : ℕ) : U64 :=
  plf.tls0Base - BitVec.ofNat 64 hartn * plf.hlsize

/-- `PACK_SCIPI_MSG(cmd, 0)` -/
def SbiPlf.packScipiMsg (plf : SbiPlf) (cmd : ℕ) : U64 :=
  BitVec.ofNat 64 cmd <<< plf.transport.sendCshift

namespace SbiHart

variable (plf : SbiPlf) (s : SbiHart)

/-! ## Masks -/

/-- `actual_mask` -/
def actualMask (mask : U64) : U64 := mask &&& s.hartsOnline

/-- `mcall_pmask2mask` -/
def mcallPmask2mask (pmask : U64) : U64 :=
  s.actualMask
    (if pmask ≠ 0#64 ∧ plf.memBase ≤ plf.pa pmask ∧ plf.pa pmask < plf.memBase + plf.memSize then
      s.mem (plf.pa pmask)
    else BitVec.allOnes 64)

/-- `mcall_maskoff2mask` -/
def mcallMaskoff2mask (mask offs : U64) : U64 :=
  if offs = -1#64 then s.actualMask (-1#64)
  else if offs < 64#64 then s.actualMask (mask <<< offs.toNat)
  else 0#64

/-! ## Calls -/

/-- `ipi_send_data` -/
def ipiSendData (receiver : U32) (data : U64) : SbiEffect :=
  match plf.transport with
  | .csr => .post (receiver.setWidth 64) (data <<< (s.slotBitsShift.toNat % 64))
  | .iccm =>
    .post (plf.iccmSegABase + 0xC00#64 + (receiver * 4#32).setWidth 64)
      ((data.setWidth 32).setWidth 64)

/-- The loop of `ipi_send_cmd` with a signal, when it gets out to all harts that it
goes through. -/
def sendSignalLoop (hartMask : U64) : SbiHart :=
  { s with
    effects := s.effects ++ (loopTargets s.numHarts.toNat 0 hartMask).map fun i =>
      s.ipiSendData plf ((s.ipiN (plf.hartTls i)).setWidth 32)
        (plf.packScipiMsg scrIpiCmdSignal) }

/-- `mcall_signal` on hart `self`; `do_local_ipi_cmd` serves the own bit. -/
def mcallSignal (self : ℕ) (hartMask : U64) : SbiHart :=
  let curHartMask := 1#64 <<< (self % 64)
  if hartMask &&& curHartMask ≠ 0#64 then
    (s.effect (.setMip (1#64 <<< intSmSoftware))).sendSignalLoop plf (hartMask &&& ~~~curHartMask)
  else s.sendSignalLoop plf hartMask

/-- `mcall_clear_ipi` -/
def mcallClearIpi : SbiHart := s.effect (.clearMip (1#64 <<< intSmSoftware))

/-- `mcall_set_timer` -/
def mcallSetTimer (when_ : U64) : SbiHart :=
  ((s.effect (.setCmp plf.mtimerBase when_)).effect (.clearMip (1#64 <<< 5))).effect
    (.setMie (1#64 <<< 7))

/-- `mmode_trap_handler` on an environment call: the hart and the value of
`retval`, for the calls above. -/
def mmodeTrapHandler (self : ℕ) : Option (SbiHart × U64) :=
  let callNum := s.xreg.get .a7
  let arg0 := s.xreg.get .a0
  if callNum = sbiSendIpi then
    some (s.mcallSignal plf self (s.mcallPmask2mask plf arg0), 0#64)
  else if callNum = sbiClearIpi then some (s.mcallClearIpi, 0#64)
  else if callNum = sbiExtTime then
    if s.xreg.get .a6 ≠ 0#64 then some (s, -2#64) else some (s.mcallSetTimer plf arg0, 0#64)
  else if callNum = sbiSetTimer then some (s.mcallSetTimer plf arg0, 0#64)
  else if callNum = sbiExtIpi then
    if s.xreg.get .a6 = 0#64 then
      some (s.mcallSignal plf self (s.mcallMaskoff2mask arg0 (s.xreg.get .a1)), 0#64)
    else some (s, -3#64)
  else none

/-- `handle_trap_in_machine_mode`, from the ecall to the `mret`: the registers are
saved, and restored with `retval` in `a0`. -/
def slowPath (self : ℕ) : Option SbiHart :=
  (SbiHart.mmodeTrapHandler plf { s with xreg := s.x } self).map fun (s', retval) =>
    { s' with x := s'.xreg.set .a0 retval, mepc := s'.mepc + 4#64 }

end SbiHart

end ScBl
