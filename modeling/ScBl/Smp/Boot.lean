import ScBl.Smp.Init
import ScBl.Ipi.Consume
import ScBl.Sbi.Hls
import ScBl.Lib.Runs

/-!
# The start-up of the harts (`minit.c`, `mentry.S`)

The master hart wakes up the secondary ones by IPIs and waits for each of them by polling
`hls->state`: first all of them set up their storage, then all of them start and wait until
the master hart is done with the platform. The system is the master hart and the harts of
the other slots, each of which does one access to a mailbox or to shared memory at a time.
`XLEN = 64`, with the CSR mailbox and coherent caches.
-/

namespace ScBl

open Rv

/-! ## The code -/

/-- `SBI_HSM_STATE_START` -/
def sbiHsmStateStart : ℕ := 0
/-- `SBI_HSM_STATE_STOP` -/
def sbiHsmStateStop : ℕ := 1
/-- `SBI_HSM_STATE_START_PENDING` -/
def sbiHsmStateStartPending : ℕ := 2

/-- The tries of `ipi_wait_receiver_avail` in `init_smp`. -/
def slotTimeoutUs : ℕ := 100000

/-- Where the master hart is. -/
inductive MasterPc
  /-- `init_smp`, before the `RESET` for a slot -/
  | probe (slotn : ℕ)
  /-- Looks whether that has come back to itself. -/
  | loopback (slotn : ℕ)
  /-- `ipi_wait_receiver_avail`, with this many tries left -/
  | await (slotn left : ℕ)
  /-- Before the `SETUP` for a logical hart -/
  | setup (hartn : ℕ)
  | setupWait (hartn : ℕ)
  /-- `init_smp` has returned; `machine_init` is called next. -/
  | monitor
  /-- `init_slaves`, before the `START` for a logical hart -/
  | start (hartn : ℕ)
  | startWait (hartn : ℕ)
  /-- `init_dtb`, `plf_irq_map` and `scr_rtc_init` -/
  | platform
  /-- Before the write of `root_page_table` that lets the others go -/
  | openGate
  /-- Past that write, and at `enter_entry_point`; what follows is not modelled. -/
  | entered
  /-- `hart_halt` -/
  | halted
  deriving DecidableEq, Repr

/-- Where a secondary hart is; from its setup on with the address of its `hls`. -/
inductive SecondaryPc
  /-- `.Lsmp_hart_halt_loop`, with `mtvec` set to `secondary_reset` -/
  | halted
  /-- `ipi_wait_cmd SCR_IPI_CMD_SETUP` -/
  | waitSetup
  /-- `secondary_setup`, before the state is written in `hart_fill_hls` -/
  | setup (hls : U64)
  /-- `ipi_wait_cmd SCR_IPI_CMD_START` -/
  | waitStart (hls : U64)
  /-- `machine_init`, before the state is written in `start_slave_hart` -/
  | start (hls : U64)
  /-- Waits for `root_page_table`. -/
  | gate (hls : U64)
  /-- `enter_entry_point` -/
  | entered (hls : U64)
  deriving DecidableEq, Repr

/-- A platform, with what its slots are connected to. -/
structure BootPlf where
  /-- Its `slotActive` is not used: the run finds that out. -/
  board : SmpBoard
  lay : HartLayout
  /-- What a mailbox makes of the word that is posted. -/
  receive : U64 → U64
  /-- There is a hart in the slot, which has come to `.Lsmp_hart_halt_loop`. -/
  present : ℕ → Bool

/-- The mailboxes, the memory that is shared and the harts. -/
structure Boot where
  master : MasterPc
  /-- The hart of each slot. -/
  secondary : ℕ → SecondaryPc
  /-- `SCR_CSR_IPI_MRDATA` of each slot, where there is a word. -/
  mailbox : ℕ → Option U64
  /-- The slots that have been found active. -/
  slotActive : ℕ → Bool
  /-- `ipi_n` and `active` of the logical harts below `num_harts` -/
  harts : List Hls
  /-- `state`, by the address of the `hls_t` -/
  state : U64 → ℕ
  /-- `root_page_table` is not `NULL`. -/
  rootPageTable : Bool

namespace Boot

variable (s : Boot)

def goto (pc : MasterPc) : Boot := { s with master := pc }

def gotoSecondary (slotn : ℕ) (pc : SecondaryPc) : Boot :=
  { s with secondary := Function.update s.secondary slotn pc }

/-- The word is read. -/
def take (slotn : ℕ) : Boot := { s with mailbox := Function.update s.mailbox slotn none }

def setState (hls : U64) (state : ℕ) : Boot :=
  { s with state := Function.update s.state hls state }

def found (slotn : ℕ) : Boot := { s with slotActive := Function.update s.slotActive slotn true }

end Boot

/-- A step of the master hart, or one of the hart in a slot. -/
inductive BootEvent
  | master
  | secondary (slotn : ℕ)
  deriving DecidableEq, Repr

namespace BootPlf

variable (plf : BootPlf)

/-- Where `hls_t` of a logical hart is: `hart_hls(hartn)` -/
def hlsOf (hartn : ℕ) : U64 := plf.lay.hartTls (BitVec.ofNat 32 hartn) + plf.lay.hlsOffset

/-- Where the hart that gets this word in `secondary_setup` has its `hls_t`: `HLS()` -/
def secondaryHls (word : U64) : U64 :=
  plf.lay.hls ((plf.lay.secondarySetup (RegFile.set ⟨fun _ => 0#64⟩ .a1 word)).get .tp)

/-- `ipi_send_data` -/
def post (s : Boot) (slotn : ℕ) (msg : U64) : Boot :=
  { s with mailbox := Function.update s.mailbox slotn (some (plf.receive msg)) }

/-- The board with the slots that have been found. -/
def boardOf (s : Boot) : SmpBoard := { plf.board with slotActive := s.slotActive }

/-- The states that `hls_init` writes. -/
def hlsInitStates (n : ℕ) (state : U64 → ℕ) : U64 → ℕ :=
  (List.range' 1 (n - 1)).foldl (fun state hartn =>
    Function.update state (plf.hlsOf hartn) sbiHsmStateStop) state

/-- A step of `init_smp`, `start_master_hart` and `init_slaves`. -/
def masterStep (s : Boot) : Boot :=
  match s.master with
  | .probe slotn =>
    if slotn < plf.board.numSlots then
      (plf.post s slotn (packScipiMsg scrIpiCmdReset 0xdeadbeaf#64)).goto (.loopback slotn)
    else
      match (plf.boardOf s).initSmp with
      | none => s.goto .halted
      | some harts =>
        { s with
          harts := harts
          state := plf.hlsInitStates harts.length s.state
          master := .setup 1 }
  | .loopback slotn =>
    -- `ipi_msg_avail` and `ipi_read_data` are about the slot of the master hart
    if (s.mailbox plf.board.masterHart).isSome then
      ((s.take plf.board.masterHart).found slotn).goto (.probe (slotn + 1))
    else s.goto (.await slotn slotTimeoutUs)
  | .await slotn 0 => s.goto (.probe (slotn + 1))
  | .await slotn (left + 1) =>
    if (s.mailbox slotn).isNone then (s.found slotn).goto (.probe (slotn + 1))
    else s.goto (.await slotn left)
  | .setup hartn =>
    match s.harts[hartn]? with
    | none => s.goto .monitor
    | some ⟨ipiN, active⟩ =>
      if active then
        (plf.post s ipiN (plf.lay.setupMsg (BitVec.ofNat 32 hartn))).goto (.setupWait hartn)
      else s.goto (.setup (hartn + 1))
  | .setupWait hartn =>
    if s.state (plf.hlsOf hartn) = sbiHsmStateStartPending then s.goto (.setup (hartn + 1)) else s
  | .monitor => { s with rootPageTable := false, master := .start 1 }
  | .start hartn =>
    match s.harts[hartn]? with
    | none => s.goto .platform
    | some ⟨ipiN, active⟩ =>
      if active then (plf.post s ipiN (packScipiMsg scrIpiCmdStart 0#64)).goto (.startWait hartn)
      else s.goto (.start (hartn + 1))
  | .startWait hartn =>
    if s.state (plf.hlsOf hartn) = sbiHsmStateStart then s.goto (.start (hartn + 1)) else s
  | .platform => s.goto .openGate
  -- the write lets the others go, and nothing but `enter_entry_point` is left to do
  | .openGate => { s with rootPageTable := true, master := .entered }
  | .entered => s
  | .halted => s

/-- A step from `secondary_reset_wait` on to `enter_entry_point`. -/
def secondaryStep (s : Boot) (slotn : ℕ) : Boot :=
  match s.secondary slotn with
  | .halted => if (s.mailbox slotn).isSome then s.gotoSecondary slotn .waitSetup else s
  | .waitSetup =>
    match s.mailbox slotn with
    | none => s
    | some word =>
      if ipiWaitCmd scrIpiCmdSetup word then
        (s.take slotn).gotoSecondary slotn (.setup (plf.secondaryHls word))
      else s.take slotn
  | .setup hls => (s.setState hls sbiHsmStateStartPending).gotoSecondary slotn (.waitStart hls)
  | .waitStart hls =>
    match s.mailbox slotn with
    | none => s
    | some word =>
      if ipiWaitCmd scrIpiCmdStart word then (s.take slotn).gotoSecondary slotn (.start hls)
      else s.take slotn
  | .start hls => (s.setState hls sbiHsmStateStart).gotoSecondary slotn (.gate hls)
  | .gate hls => if s.rootPageTable then s.gotoSecondary slotn (.entered hls) else s
  | .entered _ => s

def step (s : Boot) : BootEvent → Boot
  | .master => plf.masterStep s
  | .secondary slotn =>
    if plf.present slotn && slotn != plf.board.masterHart then plf.secondaryStep s slotn else s

end BootPlf

/-- `init_smp` is called: all mailboxes are clear, and `.bss` is. -/
def Boot.init (memory : U64 → ℕ) : Boot where
  master := .probe 0
  secondary := fun _ => .halted
  mailbox := fun _ => none
  slotActive := fun _ => false
  harts := []
  state := memory
  rootPageTable := false

end ScBl
