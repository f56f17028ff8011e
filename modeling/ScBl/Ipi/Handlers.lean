import ScBl.Ipi.Rfence

/-!
# The functions of messages (`mentry.S`, 182 to 282)

A recipient calls the function of a message with the address of the message in `a0`, from inside
its trap handler, which has saved no more for it than `a0`, `a1`, `t0`, `t1` and `ra`. There are
three of them: the two fences, and the callback by which the master hart takes a core that has
stopped down. However long their loops take and whatever they read, the three write no other
registers (`HandlerReturns.writes`).
-/

namespace ScBl

open Progs Rv

variable {σ : Type}

/-! ## `ipi_handler_hsm_stop_callback` -/

/-- `SCIPI_MSG_HSM_PRIV_OFF` -/
def scipiMsgHsmPrivOff : ℕ := scipiMsgPayloadOff + 8

/-- `CL_CPU_CTRL_RESET_N_BIT` -/
def clCpuCtrlResetNBit : BitVec 64 := 1#64 <<< 0
/-- `CL_CPU_CTRL_WFI_BIT` -/
def clCpuCtrlWfiBit : BitVec 64 := 1#64 <<< 9
/-- `CL_CPU_CTRL_ACT_BIT` -/
def clCpuCtrlActBit : BitVec 64 := 1#64 <<< 10
/-- `CL_CPU_CTRL_LINKUP_BIT` -/
def clCpuCtrlLinkupBit : BitVec 64 := 1#64 <<< 32
/-- `CL_CPU_CTRL_LINK_STS_MASK` -/
def clCpuCtrlLinkStsMask : BitVec 64 := 1#64 <<< 40 ||| 1#64 <<< 41 ||| 1#64 <<< 42 ||| 1#64 <<< 43

/-- The registers of the cluster, where a read may change the device too: how long a core is
active, and its link up, is up to it. -/
structure ClusterCtl (σ : Type) where
  read : BitVec 64 → σ → BitVec 64 × σ
  write : BitVec 64 → BitVec 64 → σ → σ

/-- The build, and the hart that runs the callback. -/
structure StopPlf where
  /-- `CL_CPU_0_CTRL` -/
  clCpu0Ctrl : BitVec 64
  mhartid : BitVec 64

/-- A hart in the callback. -/
structure StopHart (σ : Type) where
  regs : RegFile 64
  dev : σ

namespace StopHart

/-- Instructions on registers. -/
def exec (f : RegFile 64 → RegFile 64) : Prog (StopHart σ) Unit :=
  act fun h => ((), { h with regs := f h.regs })

/-- The value of a register, for a branch. -/
def reg (r : IntReg) : Prog (StopHart σ) (BitVec 64) := act fun h => (h.regs.get r, h)

variable (ctl : ClusterCtl σ)

/-- `ld rd, 0(rs)` -/
def ld (rd rs : IntReg) : Prog (StopHart σ) Unit :=
  act fun h =>
    let (v, dev) := ctl.read (h.regs.get rs) h.dev
    ((), ⟨h.regs.set rd v, dev⟩)

/-- `sd rs2, 0(rs1)` -/
def sd (rs2 rs1 : IntReg) : Prog (StopHart σ) Unit :=
  act fun h => ((), { h with dev := ctl.write (h.regs.get rs1) (h.regs.get rs2) h.dev })

/-- `.Lread_wfi` -/
def lreadWfi : Prog (StopHart σ) Unit :=
  loop (fun _ : Unit => do
    ld ctl .t0 .a1
    exec (·.andi .t0 .t0 clCpuCtrlWfiBit)
    let t0 ← reg .t0
    if t0 = 0#64 then pure (.inl ()) else pure (.inr ())) ()

/-- `.Lread_act` -/
def lreadAct : Prog (StopHart σ) Unit :=
  loop (fun _ : Unit => do
    ld ctl .t0 .a1
    exec (·.andi .t0 .t0 clCpuCtrlActBit)
    let t0 ← reg .t0
    if t0 ≠ 0#64 then pure (.inl ()) else pure (.inr ())) ()

/-- `.Lread_sts`, with the mask in `t1`. -/
def lreadSts : Prog (StopHart σ) Unit :=
  loop (fun _ : Unit => do
    ld ctl .t0 .a1
    exec (·.and .t0 .t0 .t1)
    let t0 ← reg .t0
    if t0 ≠ 0#64 then pure (.inl ()) else pure (.inr ())) ()

variable (plf : StopPlf) (m : MsgMem .rv64)

/-- The core in `a0` is taken down, from `slliw a1, a0, 0x6` on. -/
def takeDown : Prog (StopHart σ) Unit := do
  -- calculate register offset from core 0: (N) * 0x40
  exec (RegFile.slliw · .a1 .a0 6)
  exec (·.slli .a1 .a1 32)
  exec (·.srli .a1 .a1 32)
  exec (·.li .t0 plf.clCpu0Ctrl)
  exec (·.add .a1 .a1 .t0)
  lreadWfi ctl
  lreadAct ctl
  -- turn off chi link
  ld ctl .t1 .a1
  exec (·.li .t0 (~~~clCpuCtrlLinkupBit))
  exec (·.and .t0 .t0 .t1)
  sd ctl .t0 .a1
  exec (·.li .t1 clCpuCtrlLinkStsMask)
  lreadSts ctl
  -- assert cpu reset
  ld ctl .t0 .a1
  exec (·.li .t1 (~~~clCpuCtrlResetNBit))
  exec (·.and .t0 .t0 .t1)
  sd ctl .t0 .a1

def ipiHandlerHsmStopCallback : Prog (StopHart σ) Unit := do
  exec (fun x => x.set .a0 (m (x.get .a0 + BitVec.ofNat 64 scipiMsgHsmPrivOff)))
  exec (·.li .a1 plf.mhartid)
  exec (·.slli .t0 .a0 32)
  exec (·.srli .t0 .t0 32)
  let t0 ← reg .t0
  let a1 ← reg .a1
  -- nothing to do where the core is the hart's own
  if t0 = a1 then pure () else takeDown ctl plf

end StopHart

/-! ## The registers that are written -/

/-- The registers that a function of messages may write. -/
def msgScratch : List IntReg := [.a0, .a1, .t0, .t1]

/-- From one hart to the next, the other registers are as they were. -/
def SparesRegs {α : Type} (regs : α → RegFile 64) (h h' : α) : Prop :=
  RegFile.Writes msgScratch (regs h) (regs h')

theorem SparesRegs.trans {α : Type} {regs : α → RegFile 64} {h h' h'' : α}
    (hs : SparesRegs regs h h') (hs' : SparesRegs regs h' h'') : SparesRegs regs h h'' :=
  RegFile.Writes.trans hs hs'

namespace StopHart

variable {ctl : ClusterCtl σ} {plf : StopPlf} {m : MsgMem .rv64}

/-- A program of a hart that writes scratch registers only. -/
abbrev Spares {α : Type} (c : Prog (StopHart σ) α) : Prop := Respects (SparesRegs regs) c

theorem Spares.bind {α β : Type} {c : Prog (StopHart σ) α} {f : α → Prog (StopHart σ) β}
    (h : Spares c) (h' : ∀ a, Spares (f a)) : Spares (c >>= f) :=
  Respects.bind SparesRegs.trans h h'

theorem Spares.pure {α : Type} (a : α) : Spares (pure a : Prog (StopHart σ) α) :=
  Respects.pure fun _ => .refl _ _

/-- An instruction that writes one register, and what follows it. -/
theorem Spares.exec {α : Type} {f : RegFile 64 → RegFile 64} {rd : IntReg}
    {v : RegFile 64 → BitVec 64} {c : Prog (StopHart σ) α} (hf : ∀ x, f x = x.set rd (v x))
    (hrd : rd ∈ msgScratch) (hc : Spares c) : Spares (StopHart.exec f >>= fun _ => c) := by
  refine Spares.bind (Respects.act fun h => ?_) fun _ => hc
  rw [SparesRegs, hf]
  exact (RegFile.Writes.refl _ _).set hrd

theorem spares_reg (r : IntReg) : Spares (reg r : Prog (StopHart σ) (BitVec 64)) :=
  Respects.act fun _ => .refl _ _

theorem spares_ld {rd rs : IntReg} (hrd : rd ∈ msgScratch) : Spares (ld ctl rd rs) :=
  Respects.act fun _ => (RegFile.Writes.refl _ _).set hrd

theorem spares_sd {rs2 rs1 : IntReg} : Spares (sd ctl rs2 rs1) :=
  Respects.act fun _ => .refl _ _

/-- **A wait loop**: load the register of the core, mask it and branch on what is left. Only `t0` is
written, however often the loop goes round. -/
theorem spares_wait {f : RegFile 64 → RegFile 64} {v : RegFile 64 → BitVec 64}
    (hf : ∀ x, f x = x.set .t0 (v x)) {again : BitVec 64 → Prop} [DecidablePred again] :
    Spares (loop (fun _ : Unit => do
      ld ctl .t0 .a1
      exec f
      let t0 ← reg .t0
      if again t0 then pure (.inl ()) else pure (.inr ())) () : Prog (StopHart σ) Unit) := by
  refine Respects.loop SparesRegs.trans fun _ => ?_
  apply (spares_ld (by decide)).bind
  intro _
  apply Spares.exec hf (by decide)
  apply (spares_reg _).bind
  intro _
  exact Respects.ite (Spares.pure _) (Spares.pure _)

/-- The core is taken down with the scratch registers only. -/
theorem spares_takeDown : Spares (takeDown ctl plf) := by
  rw [takeDown]
  apply Spares.exec (fun _ => rfl) (by decide)
  apply Spares.exec (fun _ => rfl) (by decide)
  apply Spares.exec (fun _ => rfl) (by decide)
  apply Spares.exec (fun _ => rfl) (by decide)
  apply Spares.exec (fun _ => rfl) (by decide)
  apply Spares.bind (spares_wait fun _ => rfl)
  intro _
  apply Spares.bind (spares_wait fun _ => rfl)
  intro _
  apply (spares_ld (by decide)).bind
  intro _
  apply Spares.exec (fun _ => rfl) (by decide)
  apply Spares.exec (fun _ => rfl) (by decide)
  apply spares_sd.bind
  intro _
  apply Spares.exec (fun _ => rfl) (by decide)
  apply Spares.bind (spares_wait fun _ => rfl)
  intro _
  apply (spares_ld (by decide)).bind
  intro _
  apply Spares.exec (fun _ => rfl) (by decide)
  apply Spares.exec (fun _ => rfl) (by decide)
  exact spares_sd

/-- **The stop of a hart** uses the scratch registers of the message handlers only. -/
theorem spares_ipiHandlerHsmStopCallback : Spares (ipiHandlerHsmStopCallback ctl plf m) := by
  apply Spares.exec (fun _ => rfl) (by decide)
  apply Spares.exec (fun _ => rfl) (by decide)
  apply Spares.exec (fun _ => rfl) (by decide)
  apply Spares.exec (fun _ => rfl) (by decide)
  apply (spares_reg _).bind
  intro _
  apply (spares_reg _).bind
  intro _
  exact Respects.ite (Spares.pure _) spares_takeDown

end StopHart

namespace FenceHart

variable {m : MsgMem .rv64} {rs2 : IntReg}

theorem spares_lsfenceVmaLoop (u : Unit) :
    Respects (SparesRegs regs) (lsfenceVmaLoop (x := .rv64) rs2 u) :=
  Respects.act fun _ => ((RegFile.Writes.refl _ _).set (by decide)).set (by decide)

/-- From the test of the size on, for messages of any content: the fences do not rely on it that
`mcall_sfence_vma` has filled in what they read. -/
theorem spares_lsfenceVma : Respects (SparesRegs regs) (lsfenceVma m rs2) := by
  have hload (s : FenceHart .rv64) : SparesRegs regs s (s.loadAddr m) :=
    writes_loadAddr.mono (by decide)
  have halign (s : FenceHart .rv64) : SparesRegs regs s s.alignRange :=
    writes_alignRange.mono (by decide)
  have hfence : Respects (SparesRegs regs) (act fun s : FenceHart .rv64 =>
      ((), s.sfenceVma .zero rs2)) := Respects.act fun _ => .refl _ _
  refine Respects.bind SparesRegs.trans (Respects.act fun _ => .refl _ _) fun _ => ?_
  refine Respects.ite hfence ?_
  refine Respects.bind SparesRegs.trans (Respects.act hload) fun _ => ?_
  refine Respects.ite hfence ?_
  refine Respects.bind SparesRegs.trans (Respects.act halign) fun _ => ?_
  exact Respects.loop SparesRegs.trans spares_lsfenceVmaLoop

/-- **The fences** use the scratch registers only, whichever of the branches is taken. -/
theorem spares_ipiHandlerSfenceVma : Respects (SparesRegs regs) (ipiHandlerSfenceVma m) := by
  refine Respects.bind SparesRegs.trans (Respects.act fun _ => ?_) fun _ => spares_lsfenceVma
  exact (RegFile.Writes.refl _ _).set (by decide)

theorem spares_ipiHandlerSfenceVmaAsid :
    Respects (SparesRegs regs) (ipiHandlerSfenceVmaAsid m) := by
  refine Respects.bind SparesRegs.trans (Respects.act fun _ => ?_) fun _ => spares_lsfenceVma
  exact ((RegFile.Writes.refl _ _).set (by decide)).set (by decide)

end FenceHart

/-! ## Calls -/

/-- A function of messages, called with the registers `x`, has returned with these. It may have
found anything in memory and in the registers of the cluster. -/
inductive HandlerReturns (x : RegFile 64) : RegFile 64 → Prop
  | sfenceVma (m : MsgMem .rv64) (fuel : ℕ) {t : FenceHart .rv64}
    (h : FenceHart.ipiHandlerSfenceVma m fuel ⟨x, []⟩ = some ((), t)) : HandlerReturns x t.regs
  | sfenceVmaAsid (m : MsgMem .rv64) (fuel : ℕ) {t : FenceHart .rv64}
    (h : FenceHart.ipiHandlerSfenceVmaAsid m fuel ⟨x, []⟩ = some ((), t)) :
    HandlerReturns x t.regs
  | hsmStopCallback {σ : Type} (ctl : ClusterCtl σ) (plf : StopPlf) (m : MsgMem .rv64) (dev : σ)
    (fuel : ℕ) {t : StopHart σ}
    (h : StopHart.ipiHandlerHsmStopCallback ctl plf m fuel ⟨x, dev⟩ = some ((), t)) :
    HandlerReturns x t.regs

/-- **The functions of messages** work in the registers that are saved for them. -/
theorem HandlerReturns.writes {x y : RegFile 64} (h : HandlerReturns x y) :
    RegFile.Writes msgScratch x y := by
  cases h with
  | sfenceVma m fuel h => exact FenceHart.spares_ipiHandlerSfenceVma fuel _ _ h
  | sfenceVmaAsid m fuel h => exact FenceHart.spares_ipiHandlerSfenceVmaAsid fuel _ _ h
  | hsmStopCallback ctl plf m dev fuel h =>
    exact StopHart.spares_ipiHandlerHsmStopCallback fuel _ _ h

/-- A message whose size is negative has all fenced, in one round. -/
theorem handlerReturns_all (x : RegFile 64) : HandlerReturns x (x.set .a1 (-1#64)) :=
  .sfenceVma (fun _ => -1#64) 0 rfl

end ScBl
