import ScBl.Sbi
import ScBl.Lib.Runs
import Mathlib.Logic.Function.Basic

/-!
# Harts that start and stop each other (`mcall_ext_hsm`, `enter_entry_point`)

The harts of a system with hotplug, each at some point of `HART_START`,
`HART_STOP` or `HART_STATUS`, of its boot, or, on the master hart, of the
callback of a `HART_STOP`. A step is one access of one hart to what they share:
`hsm_start_arr`, the `hls` of the harts, their `CL_CPU_N_CTRL` registers and
mailboxes. The harts have the cores and the slots of their numbers.

What a poll of the WFI, activity and link bits or of `harts_online` reads is left
open. `armed`, `taken`, `reported` and `promised` are history: no code reads them.
-/

namespace ScBl

open Function

/-! ## States -/

/-- `hls->state`, the values that are written. -/
inductive HartState
  | start
  | stop
  | startPending
  deriving DecidableEq, Repr

/-- `SBI_HSM_STATE_START` and so on. -/
def HartState.value : HartState → U64
  | .start => 0#64
  | .stop => 1#64
  | .startPending => 2#64

/-- `sbi_hsm_start_regs` -/
structure HsmStartRegs where
  hartid : U64
  startAddr : U64
  opaqueArg : U64
  initialized : Bool
  deriving DecidableEq, Repr

def HsmStartRegs.empty : HsmStartRegs := ⟨0#64, 0#64, 0#64, false⟩

/-- A word in the mailbox of a hart that boots. -/
inductive BootCmd
  /-- `SCR_IPI_CMD_SETUP` -/
  | setup
  /-- `SCR_IPI_CMD_START` -/
  | start
  deriving DecidableEq, Repr

/-- A `HART_START` under way: its target, the number of the entry it has armed, and
whether `HART_STATUS` had reported that the target is stopped. -/
structure StartCall where
  target : ℕ
  entry : ℕ
  sawStop : Bool
  deriving DecidableEq, Repr

/-- What `HART_START` does next. -/
inductive StartStage
  /-- Read the reset bit. -/
  | check
  /-- `plf_ext_cpu_activate` -/
  | activate
  | waitReset
  | waitWfi
  | sendSetup
  | waitPending
  | sendStart
  | waitStart
  | waitOnline
  deriving DecidableEq, Repr

/-- Where a hart is. -/
inductive HsmPc
  /-- There is no such hart. -/
  | absent
  /-- The reset of its core is asserted. -/
  | reset
  /-- `secondary_reset_wait`, until `SCR_IPI_CMD_SETUP` comes -/
  | resetWait
  /-- After `hart_fill_hls`, until `SCR_IPI_CMD_START` comes -/
  | setUp
  /-- `machine_init`, before `start_slave_hart` writes its state -/
  | starting
  /-- `enter_entry_point`, until `initialized` is set -/
  | entering
  /-- It has read these registers, and is about to clean the table. -/
  | taking (regs : HsmStartRegs)
  /-- Outside of M-mode. -/
  | kernel
  | start (k : StartCall) (stage : StartStage)
  /-- `HART_STATUS`, before it reads `hls->state` -/
  | status (t : ℕ)
  /-- `HART_STOP`, before `hsm_send_ipi_stop` -/
  | stopSend
  /-- `HART_STOP`, in `plf_local_cpu_deactivation_prepare` -/
  | stopPrepare
  /-- `HART_STOP`, in `wfi` -/
  | stopped
  /-- `ipi_handler_hsm_stop_callback`, before it asserts the reset of hart `t` -/
  | callbackWait (t : ℕ)
  | callbackReset (t : ℕ)
  deriving DecidableEq, Repr

namespace HsmPc

/-- On the way from reset to `enter_entry_point`. -/
def isBooting : HsmPc → Bool
  | .resetWait => true
  | .setUp => true
  | .starting => true
  | .entering => true
  | _ => false

/-- From the first write of `HART_STOP` on. -/
def isStopping : HsmPc → Bool
  | .stopSend => true
  | .stopPrepare => true
  | .stopped => true
  | _ => false

/-- Started and not stopping. -/
def isUp : HsmPc → Bool
  | .kernel => true
  | .start _ _ => true
  | .status _ => true
  | .callbackWait _ => true
  | .callbackReset _ => true
  | _ => false

def isStopped : HsmPc → Bool
  | .stopped => true
  | _ => false

def inReset : HsmPc → Bool
  | .reset => true
  | _ => false

end HsmPc

/-- What the system is built for. The code does not look at the last two. -/
structure HsmConfig where
  /-- `PLF_SMP_HART_NUM` -/
  smpHartNum : ℕ
  /-- `PLF_HSM_HOTPLUG` -/
  hotplug : Bool
  /-- `num_harts` -/
  numHarts : ℕ
  /-- `hls->active` -/
  active : ℕ → Bool

structure HsmSys where
  pc : ℕ → HsmPc
  /-- `hls->state` -/
  state : ℕ → HartState
  /-- `CL_CPU_CTRL_RESET_N_BIT` -/
  resetN : ℕ → Bool
  inbox : ℕ → List BootCmd
  /-- `hsm_start_arr` -/
  startArr : ℕ → HsmStartRegs
  /-- The harts whose stop messages are in the mailbox of the master hart. -/
  stops : List ℕ
  /-- What the last call of a hart has returned, in `a0` and `a1`. -/
  ret : ℕ → ℤ × U64
  /-- The registers a hart has entered the kernel with. -/
  entered : ℕ → HsmStartRegs
  /-- How many entries have been armed for a hart. -/
  armed : ℕ → ℕ
  /-- The number of the last one that it has read. -/
  taken : ℕ → ℕ
  /-- `HART_STATUS` has reported that the hart is stopped, and no `HART_START` of
  it has returned since. -/
  reported : ℕ → Bool
  /-- A `HART_START` has returned while the hart was stopping, and the entry it has
  armed is not taken. -/
  promised : ℕ → Bool

inductive HsmEvent
  | start (c : ℕ) (hartid startAddr opaqueArg : U64)
  | stop (c : ℕ)
  | status (c : ℕ) (hartid : U64)
  /-- The master hart takes a stop message. -/
  | callback
  /-- A hart goes on; `answer` is what it reads of the bits left open. -/
  | go (c : ℕ) (answer : Bool)
  deriving DecidableEq, Repr

namespace HsmSys

/-! ## The code -/

def setPc (s : HsmSys) (c : ℕ) (pc : HsmPc) : HsmSys := { s with pc := update s.pc c pc }

@[simp] theorem setPc_pc (s : HsmSys) (c : ℕ) (pc : HsmPc) :
    (s.setPc c pc).pc = update s.pc c pc := rfl

/-- `mcall_ext_hsm` returns. -/
def answer (s : HsmSys) (c : ℕ) (error : ℤ) (out : U64) : HsmSys :=
  { s with pc := update s.pc c .kernel, ret := update s.ret c (error, out) }

/-- The target is stopping, and has not taken the entry of the call. -/
def leaves (s : HsmSys) (k : StartCall) : Bool :=
  (s.pc k.target).isStopping && decide (s.taken k.target < k.entry)

/-- `HART_START` returns `SBI_ERROR_SUCCESS`. -/
def startReturn (s : HsmSys) (c : ℕ) (k : StartCall) : HsmSys :=
  { s.answer c sbiErrorSuccess 0#64 with
    reported := update s.reported k.target false
    promised := if s.leaves k then update s.promised k.target true else s.promised }

/-- `HART_START` goes on. -/
def goStart (cfg : HsmConfig) (s : HsmSys) (c : ℕ) (k : StartCall) (answer : Bool) :
    StartStage → HsmSys
  | .check =>
    if cfg.hotplug && !s.resetN k.target then s.setPc c (.start k .activate)
    else s.startReturn c k
  | .activate =>
    let s := s.setPc c (.start k .waitReset)
    if (s.pc k.target).inReset then
      { s with
        resetN := update s.resetN k.target true
        pc := update s.pc k.target .resetWait
        inbox := update s.inbox k.target [] }
    else { s with resetN := update s.resetN k.target true }
  | .waitReset => if s.resetN k.target then s.setPc c (.start k .waitWfi) else s
  | .waitWfi => if answer then s.setPc c (.start k .sendSetup) else s
  | .sendSetup =>
    { s.setPc c (.start k .waitPending) with
      inbox := update s.inbox k.target (s.inbox k.target ++ [.setup]) }
  | .waitPending =>
    if s.state k.target = .startPending then s.setPc c (.start k .sendStart) else s
  | .sendStart =>
    { s.setPc c (.start k .waitStart) with
      inbox := update s.inbox k.target (s.inbox k.target ++ [.start]) }
  | .waitStart => if s.state k.target = .start then s.setPc c (.start k .waitOnline) else s
  | .waitOnline => if answer then s.startReturn c k else s

/-- `ipi_wait_cmd`: the other commands are dropped. -/
def waitCmd (s : HsmSys) (c : ℕ) (cmd : BootCmd) (state : HartState) (pc : HsmPc) : HsmSys :=
  match s.inbox c with
  | [] => s
  | cmd' :: inbox =>
    if cmd' = cmd then
      { s with
        inbox := update s.inbox c inbox
        state := update s.state c state
        pc := update s.pc c pc }
    else { s with inbox := update s.inbox c inbox }

/-- A hart goes on. -/
def go (cfg : HsmConfig) (s : HsmSys) (c : ℕ) (answer : Bool) : HsmSys :=
  match s.pc c with
  | .absent => s
  | .reset => s
  -- `hart_fill_hls` follows
  | .resetWait => s.waitCmd c .setup .startPending .setUp
  | .setUp => s.waitCmd c .start (s.state c) .starting
  | .starting => { s.setPc c .entering with state := update s.state c .start }
  | .entering =>
    if (s.startArr c).initialized then
      { s.setPc c (.taking (s.startArr c)) with taken := update s.taken c (s.armed c) }
    else s
  | .taking regs =>
    { s.setPc c .kernel with
      startArr := update s.startArr c .empty
      entered := update s.entered c regs }
  | .kernel => s
  | .start k stage => s.goStart cfg c k answer stage
  | .status t =>
    { s.answer c sbiErrorSuccess (s.state t).value with
      reported := if s.state t = .stop then update s.reported t true else s.reported }
  | .stopSend => { s.setPc c .stopPrepare with stops := s.stops ++ [c] }
  | .stopPrepare => s.setPc c .stopped
  | .stopped => s
  | .callbackWait t =>
    if (s.pc t).isStopped && answer then s.setPc c (.callbackReset t) else s
  | .callbackReset t =>
    { s with
      resetN := update s.resetN t false
      pc := update (update s.pc t .reset) c .kernel
      promised := update s.promised t false }

/-- `SBI_EXT_HSM_FN_HART_START`, up to where the entry is armed. -/
def hartStart (cfg : HsmConfig) (s : HsmSys) (c : ℕ) (hartid startAddr opaqueArg : U64) :
    HsmSys :=
  if hartid = 0#64 ∨ cfg.smpHartNum ≤ hartid.toNat then s.answer c sbiErrorInvalidParam 0#64
  else
    { s.setPc c (.start ⟨hartid.toNat, s.armed hartid.toNat + 1, s.reported hartid.toNat⟩ .check)
        with
      startArr := update s.startArr hartid.toNat ⟨hartid, startAddr, opaqueArg, true⟩
      armed := update s.armed hartid.toNat (s.armed hartid.toNat + 1) }

/-- `SBI_EXT_HSM_FN_HART_STOP`, up to the write of the state. Hart 0 is the master. -/
def hartStop (cfg : HsmConfig) (s : HsmSys) (c : ℕ) : HsmSys :=
  if cfg.hotplug then
    if c ≠ 0 then { s.setPc c .stopSend with state := update s.state c .stop }
    else s.answer c sbiErrorFailure 0#64
  else s.answer c sbiErrorNotSupported 0#64

/-- `SBI_EXT_HSM_FN_HART_STATUS`, up to the read of the reset bit. -/
def hartStatus (cfg : HsmConfig) (s : HsmSys) (c : ℕ) (hartid : U64) : HsmSys :=
  if cfg.hotplug then
    if hartid.toNat < cfg.smpHartNum then
      if s.resetN hartid.toNat then s.setPc c (.status hartid.toNat)
      else
        { s.answer c sbiErrorSuccess HartState.stop.value with
          reported := update s.reported hartid.toNat true }
    else s.answer c sbiErrorInvalidParam 0#64
  else s.answer c sbiErrorNotSupported 0#64

/-- A step. Calls come from harts outside of M-mode, where the master hart takes its
messages, too. -/
def step (cfg : HsmConfig) (s : HsmSys) : HsmEvent → HsmSys
  | .start c hartid startAddr opaqueArg =>
    match s.pc c with
    | .kernel => s.hartStart cfg c hartid startAddr opaqueArg
    | _ => s
  | .stop c =>
    match s.pc c with
    | .kernel => s.hartStop cfg c
    | _ => s
  | .status c hartid =>
    match s.pc c with
    | .kernel => s.hartStatus cfg c hartid
    | _ => s
  | .callback =>
    match s.pc 0, s.stops with
    | .kernel, t :: stops => { s.setPc 0 (.callbackWait t) with stops := stops }
    | _, _ => s
  | .go c answer => s.go cfg c answer

end HsmSys

/-! ## Boot -/

/-- How a hart comes out of the boot of the system. -/
inductive BootPhase
  /-- In the kernel, as the master hart. -/
  | up
  /-- In `enter_entry_point`. -/
  | waiting
  /-- Not taken out of reset yet. -/
  | inReset
  /-- Not there; the reset bit reads so. -/
  | absent (resetN : Bool)
  deriving DecidableEq, Repr

namespace BootPhase

def pc : BootPhase → HsmPc
  | .up => .kernel
  | .waiting => .entering
  | .inReset => .reset
  | .absent _ => .absent

def state : BootPhase → HartState
  | .up => .start
  | .waiting => .start
  | .inReset => .stop
  | .absent _ => .stop

def resetN : BootPhase → Bool
  | .up => true
  | .waiting => true
  | .inReset => false
  | .absent resetN => resetN

end BootPhase

/-- The system after its boot. -/
def HsmSys.init (phase : ℕ → BootPhase) : HsmSys where
  pc t := (phase t).pc
  state t := (phase t).state
  resetN t := (phase t).resetN
  inbox _ := []
  startArr _ := .empty
  stops := []
  ret _ := (0, 0#64)
  entered _ := .empty
  armed _ := 0
  taken _ := 0
  reported _ := false
  promised _ := false

end ScBl
