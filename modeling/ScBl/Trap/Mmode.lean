import ScBl.Lib.Loops
import ScBl.Sbi
import ScBl.Sbi.Agree
import ScBl.Sbi.FastPath32
import ScBl.Trap.Redirect

/-!
# The C half of the trap handler (`mtrap.c`, `mmode_trap_handler`)

What `handle_trap_in_machine_mode` calls with the saved registers: the emulation of misaligned
accesses, and the calls of the SBI, every extension with its functions. What a function of
an extension does to the machine is a parameter; which function a call reaches, with which
registers, and what comes back is here.
-/

namespace ScBl

open Rv (IntReg)
open Switches

variable {x : Xlen} {σ : Type}

/-! ## Numbers -/

/-- A constant of `sbi.h`, in a register. -/
def Xlen.sbi (x : Xlen) (n : ℕ) : x.Word := BitVec.ofNat _ n

/-- An error of the SBI, in a register. -/
def Xlen.sbiError (x : Xlen) (e : ℤ) : x.Word := BitVec.ofInt _ e

namespace Mmode

def excMisLoad : ℕ := 4
def excMisStore : ℕ := 6
def excUmEcall : ℕ := 8
def excMmEcall : ℕ := 11

def sbiConsolePutchar : ℕ := 1
def sbiConsoleGetchar : ℕ := 2
def sbiRemoteFenceI : ℕ := 5
def sbiRemoteSfenceVma : ℕ := 6
def sbiRemoteSfenceVmaAsid : ℕ := 7
def sbiShutdown : ℕ := 8
def sbiSetTimer : ℕ := 0
def sbiClearIpi : ℕ := 3
def sbiSendIpi : ℕ := 4
def sbiExtBase : ℕ := 0x10
def sbiExtTime : ℕ := 0x54494D45
def sbiExtIpi : ℕ := 0x735049
def sbiExtRfence : ℕ := 0x52464E43
def sbiExtHsm : ℕ := 0x48534D
def sbiExtPmu : ℕ := 0x504D55
def sbiExtScr : ℕ := 0x090006bb
def sbiExtVendorStart : ℕ := 0x09000000
def sbiExtVendorEnd : ℕ := 0x09FFFFFF

/-- `SCR_SBI_SPEC` -/
def scrSbiSpec : ℕ := 3
/-- `SCR_SBI_IMP_ID` -/
def scrSbiImpId : ℕ := 8
/-- `SCR_SBI_IMP_VER` -/
def scrSbiImpVer : ℕ := 3

end Mmode

/-- What is built in, `PLF_*_SUPPORT` and `PLF_IPI_ASM_HANDLERS`. -/
structure MmodeCfg where
  smp : Bool
  hsm : Bool
  ipiAsmHandlers : Bool
  pmu : Bool
  l2Pmu : Bool
  l3Pmu : Bool
  vcsXchg : Bool
  /-- `PLF_L3CTL_BASE` is defined. -/
  l3ctl : Bool

/-- The hart in C: the saved registers, where the trap came from, and the rest. -/
structure MmodeState (x : Xlen) (σ : Type) where
  regs : TrapFrame x
  mepc : x.Word
  world : σ

/-- What a function of an extension returns; the value stays zero where it writes none. -/
structure SbiRet (x : Xlen) (σ : Type) where
  error : x.Word
  value : x.Word
  world : σ

/-- The functions of `pmu.c`. -/
structure PmuCalls (x : Xlen) (σ : Type) where
  numCtr : σ → SbiRet x σ
  ctrGetInfo : x.Word → σ → SbiRet x σ
  ctrCfgMatch : x.Word → x.Word → x.Word → x.Word → x.Word → x.Word → σ → SbiRet x σ
  ctrStart : x.Word → x.Word → x.Word → x.Word → x.Word → σ → x.Word × σ
  ctrStop : x.Word → x.Word → x.Word → σ → x.Word × σ
  fwCtrRead : x.Word → σ → SbiRet x σ

/-- The functions of `l2_pmu.c`, or of `l3_pmu.c`. -/
structure CachePmuCalls (x : Xlen) (σ : Type) where
  featuresFlags : σ → x.Word
  numCtr : σ → SbiRet x σ
  ctrGetInfo : x.Word → σ → SbiRet x σ
  ctrCfgMatch : x.Word → x.Word → x.Word → x.Word → x.Word → σ → SbiRet x σ
  ctrStart : x.Word → x.Word → x.Word → x.Word → x.Word → σ → x.Word × σ
  ctrStop : x.Word → x.Word → x.Word → σ → x.Word × σ
  hwCtrRead : x.Word → σ → SbiRet x σ
  getVid : x.Word → σ → SbiRet x σ

/-- The registers that the platform information is read from. -/
inductive PlfInfoCsr
  | featEn | miselect | vcrSchema | coreTimestampId | coreBuildTargetId | coreCfgId | l1dPfCtrl0

/-- What the C code calls. -/
structure MmodeCalls (x : Xlen) (σ : Type) where
  emuMisalignedLoad : MmodeState x σ → x.Word × MmodeState x σ
  emuMisalignedStore : MmodeState x σ → x.Word × MmodeState x σ
  consolePutchar : x.Word → σ → σ
  consoleGetchar : σ → x.Word × σ
  pmask2mask : x.Word → σ → x.Word
  maskoff2mask : x.Word → x.Word → σ → x.Word
  signal : x.Word → σ → σ
  clearIpi : σ → σ
  fenceI : x.Word → σ → σ
  sfenceVma : x.Word → x.Word → x.Word → σ → σ
  sfenceVmaAsid : x.Word → x.Word → x.Word → x.Word → σ → σ
  shutdown : σ → σ
  setTimer : BitVec 64 → σ → σ
  mvendorid : σ → x.Word
  marchid : σ → x.Word
  mimpid : σ → x.Word
  /-- The message on the console about a vendor extension. -/
  invalidVendorExt : x.Word → σ → σ
  extHsm : TrapFrame x → σ → SbiRet x σ
  pmu : PmuCalls x σ
  l2Pmu : CachePmuCalls x σ
  l3Pmu : CachePmuCalls x σ
  /-- The word at `PLF_VCS_XCHG_ADDR`. -/
  vcsRead : σ → x.Word
  vcsWrite : x.Word → σ → σ
  /-- `csr_is_available` and `read_csr` -/
  readCsr : PlfInfoCsr → σ → Option x.Word
  /-- `write_csr(SCR_MISELECT_CSR, ..)` -/
  writeMiselect : x.Word → σ → σ
  /-- `read_safe_m(PLF_L3CTL_BASE, ..)` -/
  readL3ctl : σ → Option x.Word

namespace Mmode

variable (cfg : MmodeCfg) (c : MmodeCalls x σ) (regs : TrapFrame x) (w : σ)

/-- A call that does nothing but refuse. -/
def notSupported : SbiRet x σ := ⟨x.sbiError sbiErrorNotSupported, 0#_, w⟩

/-- A call that succeeds with a value. -/
def success (value : x.Word) : SbiRet x σ := ⟨x.sbiError sbiErrorSuccess, value, w⟩

/-- A call that returns an error only. -/
def errorOnly (r : x.Word × σ) : SbiRet x σ := ⟨r.1, 0#_, r.2⟩

/-! ## Extensions -/

/-- The cases of the `switch` in `SBI_EXT_BASE_FN_PROBE_EXT`. -/
def probeCases : List (Case x.Word (SbiRet x σ)) := [
  ⟨true, x.sbi sbiExtTime, success w 1#_⟩,
  ⟨cfg.smp, x.sbi sbiExtIpi, success w 1#_⟩,
  ⟨cfg.smp, x.sbi sbiExtRfence, success w 1#_⟩,
  ⟨cfg.smp && cfg.hsm, x.sbi sbiExtHsm, success w 1#_⟩,
  ⟨cfg.pmu, x.sbi sbiExtPmu, success w 1#_⟩,
  ⟨true, x.sbi sbiExtScr, success w 1#_⟩]

/-- `SBI_EXT_BASE_FN_PROBE_EXT` of the extension `ext`. -/
def probeExt (ext : x.Word) : SbiRet x σ :=
  switch ext (probeCases cfg w)
    (if x.sbi sbiExtVendorStart ≤ ext ∧ ext ≤ x.sbi sbiExtVendorEnd then
      success (c.invalidVendorExt ext w) 0#_
    else success w 0#_)

/-- `mcall_ext_base` -/
def mcallExtBase : SbiRet x σ :=
  match (regs .a6).toNat with
  | 0 => success w (x.sbi scrSbiSpec)
  | 1 => success w (x.sbi scrSbiImpId)
  | 2 => success w (x.sbi scrSbiImpVer)
  | 3 => probeExt cfg c w (regs .a0)
  | 4 => success w (c.mvendorid w)
  | 5 => success w (c.marchid w)
  | 6 => success w (c.mimpid w)
  | _ => notSupported w

/-- `mcall_ext_pmu` -/
def mcallExtPmu (p : PmuCalls x σ) : SbiRet x σ :=
  match (regs .a6).toNat with
  | 0 => p.numCtr w
  | 1 => p.ctrGetInfo (regs .a0) w
  | 2 =>
    p.ctrCfgMatch (regs .a0) (regs .a1) (regs .a2) (regs .a3) (regs .a4) (regs .a5) w
  | 3 => errorOnly (p.ctrStart (regs .a0) (regs .a1) (regs .a2) (regs .a3) (regs .a4) w)
  | 4 => errorOnly (p.ctrStop (regs .a0) (regs .a1) (regs .a2) w)
  | 5 => p.fwCtrRead (regs .a0) w
  | _ => notSupported w

/-- `mcall_ext_l2_pmu` and `mcall_ext_l3_pmu`, whose functions are numbered in `a0`. -/
def mcallExtCachePmu (p : CachePmuCalls x σ) : SbiRet x σ :=
  match (regs .a0).toNat with
  | 0 => p.numCtr w
  | 1 => p.ctrGetInfo (regs .a1) w
  | 2 => p.ctrCfgMatch (regs .a1) (regs .a2) (regs .a3) (regs .a4) (regs .a5) w
  | 3 => errorOnly (p.ctrStart (regs .a1) (regs .a2) (regs .a3) (regs .a4) (regs .a5) w)
  | 4 => errorOnly (p.ctrStop (regs .a1) (regs .a2) (regs .a3) w)
  | 6 => p.hwCtrRead (regs .a1) w
  | 7 => success w (p.featuresFlags w)
  | 8 => p.getVid (regs .a1) w
  | _ => notSupported w

/-- `mcall_ext_l2_pmu` -/
def mcallExtL2Pmu : SbiRet x σ := mcallExtCachePmu regs w c.l2Pmu

/-- `mcall_ext_l3_pmu` -/
def mcallExtL3Pmu : SbiRet x σ := mcallExtCachePmu regs w c.l3Pmu

/-- `mcall_ext_custom_fn` -/
def mcallExtCustomFn : SbiRet x σ :=
  match (regs .a0).toNat with
  | 1 => success w 0#_
  | 2 => success (c.vcsWrite (regs .a1) w) 0#_
  | 3 => success w (c.vcsRead w)
  | _ => notSupported w

/-- A register that is there or not. -/
def readPlfCsr (csr : PlfInfoCsr) : SbiRet x σ :=
  match c.readCsr csr w with
  | some v => success w v
  | none => notSupported w

/-- A register behind `SCR_MISELECT_CSR`, which is selected first. -/
def readSelected (csr : PlfInfoCsr) : SbiRet x σ :=
  match c.readCsr .miselect w with
  | some _ => readPlfCsr c (c.writeMiselect (1#_ <<< (8 * x.hart8 - 1)) w) csr
  | none => notSupported w

/-- `mcall_ext_plfinfo` -/
def mcallExtPlfinfo : SbiRet x σ :=
  match (regs .a0).toNat with
  | 0 =>
    match c.readCsr .featEn w with
    -- `(uint32_t)`
    | some v => success w ((v.setWidth 32).setWidth _)
    | none => notSupported w
  | 1 => readSelected c w .vcrSchema
  | 2 => readSelected c w .coreTimestampId
  | 3 => readSelected c w .coreBuildTargetId
  | 4 => readSelected c w .coreCfgId
  | 5 =>
    if cfg.l3ctl then
      match c.readL3ctl w with
      | some v => success w v
      | none => notSupported w
    else notSupported w
  | 6 => readPlfCsr c w .l1dPfCtrl0
  | _ => notSupported w

/-! ## Calls -/

/-- What a call comes to. -/
inductive SbiOutcome (x : Xlen) (σ : Type)
  /-- It returns `retval`. -/
  | done (retval : x.Word) (s : MmodeState x σ)
  /-- `mcall_shutdown`, which jumps to `_start`. -/
  | shutdown (w : σ)
  /-- `while (1);` -/
  | hang

variable (s : MmodeState x σ)

/-- A call without a value. -/
def plain (w : σ) : SbiOutcome x σ :=
  .done (x.sbiError sbiErrorSuccess) { s with world := w }

def refuse (e : ℤ) : SbiOutcome x σ := .done (x.sbiError e) s

/-- A call with a value, which goes to `a1`. -/
def valued (r : SbiRet x σ) : SbiOutcome x σ :=
  .done r.error { s with regs := Function.update s.regs .a1 r.value, world := r.world }

/-- The argument of `mcall_set_timer`. -/
def timerWhen : {x : Xlen} → TrapFrame x → BitVec 64
  | .rv32, regs => (regs .a0).setWidth 64 ||| (regs .a1).setWidth 64 <<< 32
  | .rv64, regs => (regs .a0).setWidth 64

/-- `SBI_SET_TIMER` -/
def setTimerCall : SbiOutcome x σ := plain s (c.setTimer (timerWhen s.regs) s.world)

/-- `SBI_EXT_RFENCE` -/
def rfenceCall : SbiOutcome x σ :=
  let mask := c.maskoff2mask (s.regs .a0) (s.regs .a1) s.world
  match (s.regs .a6).toNat with
  | 0 => plain s (c.fenceI mask s.world)
  | 1 => plain s (c.sfenceVma mask (s.regs .a2) (s.regs .a3) s.world)
  | 2 => plain s (c.sfenceVmaAsid mask (s.regs .a2) (s.regs .a3) (s.regs .a4) s.world)
  | _ => refuse s sbiErrorNotSupported

/-- The functional blocks of `SBI_EXT_SCR`. -/
def scrCases : List (Case x.Word (SbiOutcome x σ)) := [
  ⟨cfg.l2Pmu, x.sbi 1, valued s (mcallExtL2Pmu c s.regs s.world)⟩,
  ⟨cfg.l3Pmu, x.sbi 2, valued s (mcallExtL3Pmu c s.regs s.world)⟩,
  ⟨cfg.vcsXchg, x.sbi 3, valued s (mcallExtCustomFn c s.regs s.world)⟩,
  ⟨true, x.sbi 0x101, valued s (mcallExtPlfinfo cfg c s.regs s.world)⟩]

/-- `SBI_EXT_SCR` -/
def scrCall : SbiOutcome x σ :=
  switch (s.regs .a6) (scrCases cfg c s) (refuse s sbiErrorNotSupported)

/-- `SBI_EXT_TIME` -/
def timeCall : SbiOutcome x σ :=
  if s.regs .a6 ≠ 0#_ then refuse s sbiErrorNotSupported else setTimerCall c s

/-- `SBI_EXT_IPI` -/
def ipiCall : SbiOutcome x σ :=
  if s.regs .a6 = 0#_ then
    plain s (c.signal (c.maskoff2mask (s.regs .a0) (s.regs .a1) s.world) s.world)
  else refuse s sbiErrorInvalidParam

/-- The cases of the `switch` over the number of the call. -/
def sbiCases : List (Case x.Word (SbiOutcome x σ)) :=
  let arg0 := s.regs .a0
  let mask := c.pmask2mask arg0 s.world
  let ipiInC := cfg.smp && !cfg.ipiAsmHandlers
  [ ⟨true, x.sbi sbiConsolePutchar, plain s (c.consolePutchar arg0 s.world)⟩,
    ⟨true, x.sbi sbiConsoleGetchar,
      .done (c.consoleGetchar s.world).1 { s with world := (c.consoleGetchar s.world).2 }⟩,
    ⟨ipiInC, x.sbi sbiSendIpi, plain s (c.signal mask s.world)⟩,
    ⟨ipiInC, x.sbi sbiClearIpi, plain s (c.clearIpi s.world)⟩,
    ⟨cfg.smp, x.sbi sbiRemoteFenceI, plain s (c.fenceI mask s.world)⟩,
    ⟨cfg.smp, x.sbi sbiRemoteSfenceVma,
      plain s (c.sfenceVma mask (s.regs .a1) (s.regs .a2) s.world)⟩,
    ⟨cfg.smp, x.sbi sbiRemoteSfenceVmaAsid,
      plain s (c.sfenceVmaAsid mask (s.regs .a1) (s.regs .a2) (s.regs .a3) s.world)⟩,
    ⟨true, x.sbi sbiShutdown, .shutdown (c.shutdown s.world)⟩,
    ⟨true, x.sbi sbiExtTime, timeCall c s⟩,
    ⟨true, x.sbi sbiSetTimer, setTimerCall c s⟩,
    ⟨true, x.sbi sbiExtBase, valued s (mcallExtBase cfg c s.regs s.world)⟩,
    ⟨ipiInC, x.sbi sbiExtIpi, ipiCall c s⟩,
    ⟨cfg.smp, x.sbi sbiExtRfence, rfenceCall c s⟩,
    ⟨cfg.smp && cfg.hsm, x.sbi sbiExtHsm, valued s (c.extHsm s.regs s.world)⟩,
    ⟨cfg.pmu, x.sbi sbiExtPmu, valued s (mcallExtPmu s.regs s.world c.pmu)⟩,
    ⟨true, x.sbi sbiExtScr, scrCall cfg c s⟩,
    ⟨true, x.sbi 255, .hang⟩ ]

/-- The `switch` over the number of the call. -/
def sbiCall : SbiOutcome x σ :=
  switch (s.regs .a7) (sbiCases cfg c s) (refuse s sbiErrorNotSupported)

/-- How `mmode_trap_handler` ends. -/
inductive Exit (x : Xlen) (σ : Type)
  /-- It returns, with `a0`. -/
  | ret (a0 : x.Word) (s : MmodeState x σ)
  | shutdown (w : σ)
  | hang
  /-- `bad_trap_handler`, which halts. -/
  | badTrapHandler

/-- `mmode_trap_handler` -/
def mmodeTrapHandler (cause : x.Word) : Exit x σ :=
  if cause = x.sbi excMisLoad then
    .ret (c.emuMisalignedLoad s).1 (c.emuMisalignedLoad s).2
  else if cause = x.sbi excMisStore then
    .ret (c.emuMisalignedStore s).1 (c.emuMisalignedStore s).2
  else if cause < x.sbi excUmEcall ∨ x.sbi excMmEcall < cause then .badTrapHandler
  else
    match sbiCall cfg c s with
    | .done retval s =>
      .ret 0#_ { s with regs := Function.update s.regs .a0 retval, mepc := s.mepc + 4#_ }
    | .shutdown w => .shutdown w
    | .hang => .hang

/-! ## The caller's registers -/

variable {cfg c s} {t : MmodeState x σ} {a0 retval cause : x.Word} {r : IntReg}

/-- The calls that return a value in `a1`. -/
def valueCalls (x : Xlen) : List x.Word :=
  [sbiExtBase, sbiExtHsm, sbiExtPmu, sbiExtScr].map x.sbi

/-- From `s` to `t` no register has changed that the call is not to return a value in. -/
structure Keeps (s t : MmodeState x σ) : Prop where
  mepc : t.mepc = s.mepc
  regs : ∀ r, (r = .a1 → s.regs .a7 ∉ valueCalls x) → t.regs r = s.regs r

/-- A call without a value keeps all registers. -/
theorem keeps_plain {w : σ} (h : plain s w = .done retval t) : Keeps s t := by
  cases h
  exact ⟨rfl, fun _ _ => rfl⟩

/-- So does one that is refused. -/
theorem keeps_refuse {e : ℤ} (h : refuse s e = .done retval t) : Keeps s t := by
  cases h
  exact ⟨rfl, fun _ _ => rfl⟩

/-- A call with a value may write `a1`, being one of those that return it there. -/
theorem keeps_valued {v : SbiRet x σ} (hcall : s.regs .a7 ∈ valueCalls x)
    (h : valued s v = .done retval t) : Keeps s t := by
  cases h
  refine ⟨rfl, fun r hr => Function.update_of_ne (fun heq => ?_) _ _⟩
  exact hr heq hcall

/-- The fences return no value, whichever function is asked for. -/
theorem keeps_rfenceCall (h : rfenceCall c s = .done retval t) : Keeps s t := by
  rw [rfenceCall] at h
  split at h
  · exact keeps_plain h
  · exact keeps_plain h
  · exact keeps_plain h
  · exact keeps_refuse h

theorem keeps_timeCall (h : timeCall c s = .done retval t) : Keeps s t := by
  rw [timeCall] at h
  split_ifs at h
  · exact keeps_refuse h
  · exact keeps_plain h

theorem keeps_ipiCall (h : ipiCall c s = .done retval t) : Keeps s t := by
  rw [ipiCall] at h
  split_ifs at h
  · exact keeps_plain h
  · exact keeps_refuse h

/-- The vendor's extension returns values, and is among the calls that do. -/
theorem keeps_scrCall (hcall : s.regs .a7 ∈ valueCalls x) (h : scrCall cfg c s = .done retval t) :
    Keeps s t := by
  rw [scrCall] at h
  obtain ⟨case, hcase, -, -, hact⟩ | ⟨-, hdefault⟩ := switch_cases (s.regs .a6)
    (scrCases cfg c s) (refuse s sbiErrorNotSupported)
  · rw [hact] at h
    simp only [scrCases, List.mem_cons, List.not_mem_nil, or_false] at hcase
    obtain rfl | rfl | rfl | rfl := hcase
    all_goals exact keeps_valued hcall h
  · rw [hdefault] at h
    exact keeps_refuse h

/-- **Each call** keeps the registers, `a0` apart, and `a1` where it returns a value. By cases of
the `switch`, and of the functions that are given the call. -/
theorem keeps_sbiCall (h : sbiCall cfg c s = .done retval t) : Keeps s t := by
  rw [sbiCall] at h
  obtain ⟨case, hcase, -, hlabel, hact⟩ | ⟨-, hdefault⟩ := switch_cases (s.regs .a7)
    (sbiCases cfg c s) (refuse s sbiErrorNotSupported)
  · rw [hact] at h
    have hvalue : ∀ n ∈ [sbiExtBase, sbiExtHsm, sbiExtPmu, sbiExtScr], x.sbi n = s.regs .a7 →
        s.regs .a7 ∈ valueCalls x := fun n hn heq => heq ▸ List.mem_map_of_mem hn
    simp only [sbiCases, List.mem_cons, List.not_mem_nil, or_false] at hcase
    obtain rfl | rfl | rfl | rfl | rfl | rfl | rfl | rfl | rfl | rfl | rfl | rfl | rfl | rfl | rfl |
      rfl | rfl := hcase
    · exact keeps_plain h
    · cases h
      exact ⟨rfl, fun _ _ => rfl⟩
    · exact keeps_plain h
    · exact keeps_plain h
    · exact keeps_plain h
    · exact keeps_plain h
    · exact keeps_plain h
    · cases h
    · exact keeps_timeCall h
    · exact keeps_plain h
    · exact keeps_valued (hvalue _ (by decide) hlabel) h
    · exact keeps_ipiCall h
    · exact keeps_rfenceCall h
    · exact keeps_valued (hvalue _ (by decide) hlabel) h
    · exact keeps_valued (hvalue _ (by decide) hlabel) h
    · exact keeps_scrCall (hvalue _ (by decide) hlabel) h
    · cases h
  · rw [hdefault] at h
    exact keeps_refuse h

/-- `mmode_trap_handler` on an environment call. -/
theorem mmodeTrapHandler_ecall (hlow : ¬ cause < x.sbi excUmEcall)
    (hhigh : ¬ x.sbi excMmEcall < cause) (h : mmodeTrapHandler cfg c s cause = .ret a0 t) :
    a0 = 0#_ ∧ t.mepc = s.mepc + 4#_ ∧
      ∀ r ≠ .a0, (r = .a1 → s.regs .a7 ∉ valueCalls x) → t.regs r = s.regs r := by
  have hload : ¬ cause = x.sbi excMisLoad := by
    rintro rfl
    exact hlow (by cases x <;> decide)
  have hstore : ¬ cause = x.sbi excMisStore := by
    rintro rfl
    exact hlow (by cases x <;> decide)
  rw [mmodeTrapHandler, if_neg hload, if_neg hstore, if_neg (not_or.mpr ⟨hlow, hhigh⟩)] at h
  split at h
  · next retval s' hcall =>
    cases h
    have hkeeps := keeps_sbiCall hcall
    refine ⟨rfl, congrArg (· + 4#_) hkeeps.mepc, fun r hr ha1 => ?_⟩
    exact (Function.update_of_ne hr _ _).trans (hkeeps.regs r ha1)
  · cases h
  · cases h

/-! ## What is halted on -/

/-- The causes that are not. -/
def knownCauses : List ℕ := [excMisLoad, excMisStore, 8, 9, 10, 11]

/-- The constants of `sbi.h` fit into a register of either width. -/
theorem toNat_sbi {n : ℕ} (hn : n < 2 ^ 32) : (x.sbi n).toNat = n := by
  rw [Xlen.sbi, BitVec.toNat_ofNat, Nat.mod_eq_of_lt]
  cases x
  · exact hn
  · exact hn.trans (by decide)

/-- Hence comparisons with them are comparisons of numbers. -/
theorem eq_sbi_iff {n : ℕ} (hn : n < 2 ^ 32) : cause = x.sbi n ↔ cause.toNat = n := by
  rw [← BitVec.toNat_inj, toNat_sbi hn]

/-- **`bad_trap_handler`** is called on the other causes. -/
theorem mmodeTrapHandler_bad_iff :
    mmodeTrapHandler cfg c s cause = .badTrapHandler ↔ cause.toNat ∉ knownCauses := by
  simp only [knownCauses, List.mem_cons, List.not_mem_nil, or_false]
  rw [mmodeTrapHandler, ← eq_sbi_iff (by decide), ← eq_sbi_iff (by decide)]
  split_ifs with hload hstore hother
  · exact iff_of_false (fun h => nomatch h) (not_not.mpr (.inl hload))
  · exact iff_of_false (fun h => nomatch h) (not_not.mpr (.inr (.inl hstore)))
  · rw [BitVec.lt_def, BitVec.lt_def, toNat_sbi (by decide), toNat_sbi (by decide), excUmEcall,
      excMmEcall] at hother
    refine iff_of_true rfl ?_
    rintro (h | h | h | h | h | h)
    · exact hload h
    · exact hstore h
    all_goals omega
  · rw [BitVec.lt_def, BitVec.lt_def, toNat_sbi (by decide), toNat_sbi (by decide), excUmEcall,
      excMmEcall] at hother
    refine iff_of_false (fun h => ?_) (not_not.mpr ?_)
    · split at h
      · cases h
      · cases h
      · cases h
    · omega

/-! ## What is served -/

/-- The labels of the `switch`. -/
def callNumbers : List ℕ :=
  [sbiConsolePutchar, sbiConsoleGetchar, sbiSendIpi, sbiClearIpi, sbiRemoteFenceI,
    sbiRemoteSfenceVma, sbiRemoteSfenceVmaAsid, sbiShutdown, sbiExtTime, sbiSetTimer, sbiExtBase,
    sbiExtIpi, sbiExtRfence, sbiExtHsm, sbiExtPmu, sbiExtScr, 255]

/-- No two cases of the `switch` have the same label, so that the first that fits is the only one.
-/
theorem nodup_sbiCases : ((sbiCases cfg c s).map Case.label).Nodup := by
  have hnumbers : (callNumbers.map x.sbi).Nodup := by cases x <;> decide
  exact hnumbers

/-- Nor do two functional blocks. -/
theorem nodup_scrCases : ((scrCases cfg c s).map Case.label).Nodup := by
  have hnumbers : ([1, 2, 3, 0x101].map x.sbi).Nodup := by cases x <;> decide
  exact hnumbers

/-- A call with the number `n`, and with the function `fn`. -/
def callState (n fn : x.Word) : MmodeState x Unit where
  regs r := if r = .a7 then n else if r = .a6 then fn else 0#_
  mepc := 0#_
  world := ()

/-- The functions of a counter unit, which succeed. -/
def quietPmu : PmuCalls x Unit where
  numCtr w := success w 0#_
  ctrGetInfo _ w := success w 0#_
  ctrCfgMatch _ _ _ _ _ _ w := success w 0#_
  ctrStart _ _ _ _ _ w := (0#_, w)
  ctrStop _ _ _ w := (0#_, w)
  fwCtrRead _ w := success w 0#_

def quietCachePmu : CachePmuCalls x Unit where
  featuresFlags _ := 0#_
  numCtr w := success w 0#_
  ctrGetInfo _ w := success w 0#_
  ctrCfgMatch _ _ _ _ _ w := success w 0#_
  ctrStart _ _ _ _ _ w := (0#_, w)
  ctrStop _ _ _ w := (0#_, w)
  hwCtrRead _ w := success w 0#_
  getVid _ w := success w 0#_

/-- A machine where every function that is called does nothing, and succeeds. -/
def quietCalls : MmodeCalls x Unit where
  emuMisalignedLoad s := (0#_, s)
  emuMisalignedStore s := (0#_, s)
  consolePutchar _ w := w
  consoleGetchar w := (0#_, w)
  pmask2mask _ _ := 0#_
  maskoff2mask _ _ _ := 0#_
  signal _ w := w
  clearIpi w := w
  fenceI _ w := w
  sfenceVma _ _ _ w := w
  sfenceVmaAsid _ _ _ _ w := w
  shutdown w := w
  setTimer _ w := w
  mvendorid _ := 0#_
  marchid _ := 0#_
  mimpid _ := 0#_
  invalidVendorExt _ w := w
  extHsm _ w := success w 0#_
  pmu := quietPmu
  l2Pmu := quietCachePmu
  l3Pmu := quietCachePmu
  vcsRead _ := 0#_
  vcsWrite _ w := w
  readCsr _ _ := some 0#_
  writeMiselect _ w := w
  readL3ctl _ := some 0#_

/-- Calls with the number `n` are not all refused. -/
def Serves (cfg : MmodeCfg) (n : x.Word) : Prop :=
  ∃ (c : MmodeCalls x Unit) (s : MmodeState x Unit), s.regs .a7 = n ∧
    sbiCall cfg c s ≠ refuse s sbiErrorNotSupported

/-- Success and refusal can be told apart on both widths. -/
theorem sbiError_ne : x.sbiError sbiErrorSuccess ≠ x.sbiError sbiErrorNotSupported := by
  cases x <;> decide

/-- A call that is served does not look like one that is refused. -/
theorem plain_ne_refuse {w : σ} : plain s w ≠ refuse s sbiErrorNotSupported :=
  fun h => sbiError_ne (SbiOutcome.done.inj h).1

theorem valued_ne_refuse {r : SbiRet x σ} (hr : r.error = x.sbiError sbiErrorSuccess) :
    valued s r ≠ refuse s sbiErrorNotSupported :=
  fun h => sbiError_ne (hr.symm.trans (SbiOutcome.done.inj h).1)

/-- A call is its case, where that is built in. -/
theorem sbiCall_of_mem {case : Case x.Word (SbiOutcome x σ)} (hcase : case ∈ sbiCases cfg c s)
    (hbuilt : case.built = true) (hlabel : case.label = s.regs .a7) :
    sbiCall cfg c s = case.act := by
  rw [sbiCall, ← hlabel]
  exact switch_eq_of_mem nodup_sbiCases hcase hbuilt

/-- The extensions that have a case, the base extension apart. -/
inductive ServedExt (cfg : MmodeCfg) : ℕ → Prop
  | time : ServedExt cfg sbiExtTime
  | scr : ServedExt cfg sbiExtScr
  | ipi (h : (cfg.smp && !cfg.ipiAsmHandlers) = true) : ServedExt cfg sbiExtIpi
  | rfence (h : cfg.smp = true) : ServedExt cfg sbiExtRfence
  | hsm (h : (cfg.smp && cfg.hsm) = true) : ServedExt cfg sbiExtHsm
  | pmu (h : cfg.pmu = true) : ServedExt cfg sbiExtPmu

/-- An extension that has a case serves some call: for each of them there is a function number that
is not refused. -/
theorem ServedExt.serves {n : ℕ} (h : ServedExt cfg n) : Serves cfg (x.sbi n) := by
  cases h with
  | time =>
    refine ⟨quietCalls, callState (x.sbi sbiExtTime) 0#_, rfl, ?_⟩
    rw [sbiCall_of_mem (List.mem_of_getElem? (i := 8) rfl) rfl rfl]
    exact plain_ne_refuse
  | scr =>
    refine ⟨quietCalls, callState (x.sbi sbiExtScr) (x.sbi 0x101), rfl, ?_⟩
    rw [sbiCall_of_mem (List.mem_of_getElem? (i := 15) rfl) rfl rfl]
    have hinfo : scrCall cfg quietCalls (callState (x.sbi sbiExtScr) (x.sbi 0x101)) =
        valued _ (mcallExtPlfinfo cfg quietCalls _ ()) :=
      switch_eq_of_mem nodup_scrCases (List.mem_of_getElem? (i := 3) rfl) rfl
    exact ne_of_eq_of_ne hinfo (valued_ne_refuse rfl)
  | ipi h =>
    refine ⟨quietCalls, callState (x.sbi sbiExtIpi) 0#_, rfl, ?_⟩
    rw [sbiCall_of_mem (List.mem_of_getElem? (i := 11) rfl) h rfl]
    exact plain_ne_refuse
  | rfence h =>
    refine ⟨quietCalls, callState (x.sbi sbiExtRfence) 0#_, rfl, ?_⟩
    rw [sbiCall_of_mem (List.mem_of_getElem? (i := 12) rfl) h rfl]
    exact plain_ne_refuse
  | hsm h =>
    refine ⟨quietCalls, callState (x.sbi sbiExtHsm) 0#_, rfl, ?_⟩
    rw [sbiCall_of_mem (List.mem_of_getElem? (i := 13) rfl) h rfl]
    exact valued_ne_refuse rfl
  | pmu h =>
    refine ⟨quietCalls, callState (x.sbi sbiExtPmu) 0#_, rfl, ?_⟩
    rw [sbiCall_of_mem (List.mem_of_getElem? (i := 14) rfl) h rfl]
    exact valued_ne_refuse rfl

/-- **The extensions** that C serves are those that have a case which is built in; the number 255,
which hangs, is left out here. -/
theorem serves_iff {n : x.Word} (hbase : x.sbi sbiExtBase < n) (hhang : n ≠ x.sbi 255) :
    Serves cfg n ↔ ∃ k, ServedExt cfg k ∧ n = x.sbi k := by
  constructor
  · rintro ⟨c, s, rfl, hne⟩
    have hsmall : ∀ k ∈ [sbiConsolePutchar, sbiConsoleGetchar, sbiSendIpi, sbiClearIpi,
        sbiRemoteFenceI, sbiRemoteSfenceVma, sbiRemoteSfenceVmaAsid, sbiShutdown, sbiSetTimer,
        sbiExtBase], ¬ x.sbi sbiExtBase < x.sbi k := by cases x <;> decide
    obtain ⟨case, hcase, hbuilt, hlabel, -⟩ | ⟨-, hdefault⟩ := switch_cases (s.regs .a7)
      (sbiCases cfg c s) (refuse s sbiErrorNotSupported)
    · rw [← hlabel] at hbase hhang ⊢
      simp only [sbiCases, List.mem_cons, List.not_mem_nil, or_false] at hcase
      obtain rfl | rfl | rfl | rfl | rfl | rfl | rfl | rfl | rfl | rfl | rfl | rfl | rfl | rfl |
        rfl | rfl | rfl := hcase
      · exact absurd hbase (hsmall _ (by decide))
      · exact absurd hbase (hsmall _ (by decide))
      · exact absurd hbase (hsmall _ (by decide))
      · exact absurd hbase (hsmall _ (by decide))
      · exact absurd hbase (hsmall _ (by decide))
      · exact absurd hbase (hsmall _ (by decide))
      · exact absurd hbase (hsmall _ (by decide))
      · exact absurd hbase (hsmall _ (by decide))
      · exact ⟨_, .time, rfl⟩
      · exact absurd hbase (hsmall _ (by decide))
      · exact absurd hbase (hsmall _ (by decide))
      · exact ⟨_, .ipi hbuilt, rfl⟩
      · exact ⟨_, .rfence hbuilt, rfl⟩
      · exact ⟨_, .hsm hbuilt, rfl⟩
      · exact ⟨_, .pmu hbuilt, rfl⟩
      · exact ⟨_, .scr, rfl⟩
      · exact absurd rfl hhang
    · exact absurd hdefault hne
  · rintro ⟨k, hk, rfl⟩
    exact hk.serves

/-- **What is probed** to be there: the extensions with a case, and the IPI extension with several
harts even where the case is left to the fast path. -/
theorem probeExt_iff {n : x.Word} {w : σ} : (probeExt cfg c w n).value = 1#_ ↔
    (∃ k, ServedExt cfg k ∧ n = x.sbi k) ∨ (cfg.smp = true ∧ n = x.sbi sbiExtIpi) := by
  have hone : (0#_ : x.Word) ≠ 1#_ := by cases x <;> decide
  obtain ⟨case, hcase, hbuilt, rfl, hact⟩ | ⟨hnone, hdefault⟩ := switch_cases n (probeCases cfg w)
    (if x.sbi sbiExtVendorStart ≤ n ∧ n ≤ x.sbi sbiExtVendorEnd then
      success (c.invalidVendorExt n w) 0#_
    else success w 0#_)
  · rw [probeExt, hact]
    simp only [probeCases, List.mem_cons, List.not_mem_nil, or_false] at hcase
    obtain rfl | rfl | rfl | rfl | rfl | rfl := hcase
    · exact iff_of_true rfl (.inl ⟨_, .time, rfl⟩)
    · exact iff_of_true rfl (.inr ⟨hbuilt, rfl⟩)
    · exact iff_of_true rfl (.inl ⟨_, .rfence hbuilt, rfl⟩)
    · exact iff_of_true rfl (.inl ⟨_, .hsm hbuilt, rfl⟩)
    · exact iff_of_true rfl (.inl ⟨_, .pmu hbuilt, rfl⟩)
    · exact iff_of_true rfl (.inl ⟨_, .scr, rfl⟩)
  · have hvalue : (probeExt cfg c w n).value = 0#_ := by
      rw [probeExt, hdefault]
      split_ifs <;> rfl
    refine iff_of_false (fun h => hone (hvalue.symm.trans h)) ?_
    have hcase : ∀ i (case : Case x.Word (SbiRet x σ)), (probeCases cfg w)[i]? = some case →
        case.built = true → case.label ≠ n :=
      fun i case hi hbuilt => hnone case (List.mem_of_getElem? hi) hbuilt
    rintro (⟨k, hk, rfl⟩ | ⟨hsmp, rfl⟩)
    · cases hk with
      | time => exact hcase 0 _ rfl rfl rfl
      | scr => exact hcase 5 _ rfl rfl rfl
      | ipi h => exact hcase 1 _ rfl (Bool.and_eq_true_iff.mp h).1 rfl
      | rfence h => exact hcase 2 _ rfl h rfl
      | hsm h => exact hcase 3 _ rfl h rfl
      | pmu h => exact hcase 4 _ rfl h rfl
    · exact hcase 1 _ rfl hsmp rfl

/-- Calls of S-mode with the number `n` return from the fast path. -/
def FastServes : Xlen → ℕ → Prop
  | .rv32, n =>
    ∃ (plf : SbiPlf32) (s t : SbiHart32), s.mcause = excSmEcall.setWidth 32 ∧
      (s.x.get .a7).toNat = n ∧ s.trapHander plf = .mret t
  | .rv64, n =>
    ∃ (plf : SbiPlf) (s t : SbiHart), s.mcause = excSmEcall ∧ (s.x.get .a7).toNat = n ∧
      s.trapHander plf = .mret t

/-- A hart in S-mode that makes the call `n`. -/
def ecallHart (n : U64) : SbiHart where
  x := (Rv.RegFile.mk fun _ => 0#64).set .a7 n
  mscratch := 0x10000#64
  mepc := 0x80200000#64
  mcause := excSmEcall
  xreg := ⟨fun _ => 0#64⟩
  ipiN _ := 0#8
  mem _ := 0#64
  hartsOnline := 1#64
  numHarts := 1#32
  slotBitsShift := 0#32
  effects := []

/-- The same on RV32. -/
def ecallHart32 (n : U32) : SbiHart32 where
  x := (Rv.RegFile.mk fun _ => 0#32).set .a7 n
  mscratch := 0x10000#32
  mepc := 0x80200000#32
  mcause := excSmEcall.setWidth 32
  xreg := ⟨fun _ => 0#32⟩
  ipiN _ := 0#8
  mem _ := 0#32
  hartsOnline := 1#32
  numHarts := 1#32
  slotBitsShift := 0#32
  effects := []

/-- The calls of the fast path. -/
def fastCalls : List ℕ := [sbiSendIpi, sbiSetTimer, sbiExtTime, sbiExtIpi, sbiClearIpi]

theorem lt_of_mem_fastCalls {n : ℕ} (hn : n ∈ fastCalls) : n < 2 ^ 32 := by
  have hall : ∀ n ∈ fastCalls, n < 2 ^ 32 := by decide
  exact hall n hn

/-- On RV64 the fast path serves five calls, as running it on each shows. -/
theorem fastServes_rv64 {n : ℕ} : FastServes .rv64 n ↔ n ∈ fastCalls := by
  constructor
  · rintro ⟨plf, s, t, hecall, rfl, hmret⟩
    rw [SbiHart.trapHander_ecall plf hecall] at hmret
    split_ifs at hmret with h h h h h
    all_goals
      rw [← h]
      decide
  · intro hn
    obtain ⟨t, ht⟩ : ∃ t, (ecallHart (BitVec.ofNat 64 n)).trapHander
        ⟨.csr, 0, 0, 0, 0, 0, 0, false⟩ = .mret t := by
      have ha7 : (ecallHart (BitVec.ofNat 64 n)).x.get .a7 = BitVec.ofNat 64 n := rfl
      rw [SbiHart.trapHander_ecall _ rfl, ha7]
      split_ifs with hsend htimer htime hipi hclear
      · exact ⟨_, rfl⟩
      · exact ⟨_, rfl⟩
      · exact ⟨_, rfl⟩
      · exact ⟨_, rfl⟩
      · exact ⟨_, rfl⟩
      · simp only [fastCalls, List.mem_cons, List.not_mem_nil, or_false] at hn
        obtain rfl | rfl | rfl | rfl | rfl := hn
        · exact absurd rfl hsend
        · exact absurd rfl htimer
        · exact absurd rfl htime
        · exact absurd rfl hipi
        · exact absurd rfl hclear
    have hword : (BitVec.ofNat 64 n).toNat = n := by
      rw [BitVec.toNat_ofNat, Nat.mod_eq_of_lt ((lt_of_mem_fastCalls hn).trans (by decide))]
    exact ⟨_, ecallHart (BitVec.ofNat 64 n), t, rfl, hword, ht⟩

/-- On RV32 it serves the same five. -/
theorem fastServes_rv32 {n : ℕ} : FastServes .rv32 n ↔ n ∈ fastCalls := by
  constructor
  · rintro ⟨plf, s, t, hecall, rfl, hmret⟩
    rw [SbiHart32.trapHander_ecall plf hecall] at hmret
    split_ifs at hmret with h h h h h
    all_goals
      rw [← h]
      decide
  · intro hn
    obtain ⟨t, ht⟩ : ∃ t, (ecallHart32 (BitVec.ofNat 32 n)).trapHander
        ⟨0, 0, 0, 0, 0, false⟩ = .mret t := by
      have ha7 : (ecallHart32 (BitVec.ofNat 32 n)).x.get .a7 = BitVec.ofNat 32 n := rfl
      rw [SbiHart32.trapHander_ecall _ rfl, ha7]
      split_ifs with hsend htimer htime hipi hclear
      · exact ⟨_, rfl⟩
      · exact ⟨_, rfl⟩
      · exact ⟨_, rfl⟩
      · exact ⟨_, rfl⟩
      · exact ⟨_, rfl⟩
      · simp only [fastCalls, List.mem_cons, List.not_mem_nil, or_false] at hn
        obtain rfl | rfl | rfl | rfl | rfl := hn
        · exact absurd rfl hsend
        · exact absurd rfl htimer
        · exact absurd rfl htime
        · exact absurd rfl hipi
        · exact absurd rfl hclear
    have hword : (BitVec.ofNat 32 n).toNat = n := by
      rw [BitVec.toNat_ofNat, Nat.mod_eq_of_lt (lt_of_mem_fastCalls hn)]
    exact ⟨_, ecallHart32 (BitVec.ofNat 32 n), t, rfl, hword, ht⟩

/-- **The fast path** serves the same calls on both widths. -/
theorem fastServes_iff {n : ℕ} : FastServes x n ↔ n ∈ fastCalls := by
  cases x
  · exact fastServes_rv32
  · exact fastServes_rv64

/-- Of the extensions, the fast path has two, `TIME` and `IPI`. The other three of its calls are the
old ones. -/
theorem fastServes_ext_iff {n : x.Word} (hbase : x.sbi sbiExtBase < n) :
    FastServes x n.toNat ↔ n = x.sbi sbiExtIpi ∨ n = x.sbi sbiExtTime := by
  rw [fastServes_iff]
  constructor
  · intro hn
    have hlt : sbiExtBase < n.toNat := by
      have htoNat : (x.sbi sbiExtBase).toNat = sbiExtBase := by cases x <;> decide
      rwa [BitVec.lt_def, htoNat] at hbase
    have hword : n = x.sbi n.toNat := (BitVec.ofNat_toNat _ n).trans (BitVec.setWidth_eq n) |>.symm
    rw [hword]
    generalize n.toNat = k at hn hlt
    simp only [fastCalls, List.mem_cons, List.not_mem_nil, or_false] at hn
    obtain rfl | rfl | rfl | rfl | rfl := hn
    · exact absurd hlt (by decide)
    · exact absurd hlt (by decide)
    · exact .inr rfl
    · exact .inl rfl
    · exact absurd hlt (by decide)
  · rintro (rfl | rfl)
    · cases x <;> decide
    · cases x <;> decide

end Mmode

open Mmode

/-- **An extension is probed** to be there exactly where a call of it from S-mode is served, by
the fast path or in C; in C alone, the IPI extension is missing where the fast path has it. -/
theorem probe_iff (cfg : MmodeCfg) (c : MmodeCalls x σ) (w : σ) (n : x.Word)
    (hbase : x.sbi sbiExtBase < n) (hhang : n ≠ x.sbi 255) :
    ((probeExt cfg c w n).value = 1#_ ↔
      Serves cfg n ∨ (cfg.smp = true ∧ cfg.ipiAsmHandlers = true ∧ FastServes x n.toNat)) ∧
    (((probeExt cfg c w n).value = 1#_ ↔ Serves cfg n) ↔
      ¬ (cfg.smp = true ∧ cfg.ipiAsmHandlers = true ∧ n = x.sbi Mmode.sbiExtIpi)) := by
  rw [probeExt_iff, serves_iff hbase hhang, fastServes_ext_iff hbase]
  refine ⟨⟨?_, ?_⟩, ⟨?_, ?_⟩⟩
  · rintro (hserved | ⟨hsmp, hipi⟩)
    · exact .inl hserved
    · cases hasm : cfg.ipiAsmHandlers with
      | true => exact .inr ⟨hsmp, rfl, .inl hipi⟩
      | false => exact .inl ⟨_, .ipi (by rw [hsmp, hasm]; rfl), hipi⟩
  · rintro (hserved | ⟨hsmp, -, hipi | htime⟩)
    · exact .inl hserved
    · exact .inr ⟨hsmp, hipi⟩
    · exact .inl ⟨_, .time, htime⟩
  · rintro hiff ⟨hsmp, hasm, hipi⟩
    obtain ⟨k, hk, hlabel⟩ := hiff.mp (.inr ⟨hsmp, hipi⟩)
    have heq := hipi.symm.trans hlabel
    cases hk with
    | ipi h =>
      rw [hasm] at h
      exact absurd (Bool.and_eq_true_iff.mp h).2 (by decide)
    | time => exact absurd heq (by cases x <;> decide)
    | scr => exact absurd heq (by cases x <;> decide)
    | rfence => exact absurd heq (by cases x <;> decide)
    | hsm => exact absurd heq (by cases x <;> decide)
    | pmu => exact absurd heq (by cases x <;> decide)
  · intro hnot
    refine ⟨?_, .inl⟩
    rintro (hserved | ⟨hsmp, hipi⟩)
    · exact hserved
    · cases hasm : cfg.ipiAsmHandlers with
      | true => exact absurd ⟨hsmp, hasm, hipi⟩ hnot
      | false => exact ⟨_, .ipi (by rw [hsmp, hasm]; rfl), hipi⟩

/-- Several harts, with the fast path. -/
def MmodeCfg.fast : MmodeCfg := ⟨true, true, true, true, false, false, false, false⟩

/-- There the IPI extension is probed to be there, and C does not have it. -/
theorem probe_iff_ipi :
    ¬ ((probeExt .fast (quietCalls (x := .rv32)) () (Xlen.rv32.sbi Mmode.sbiExtIpi)).value = 1#_ ↔
        Serves .fast (Xlen.rv32.sbi Mmode.sbiExtIpi)) ∧
      ¬ ((probeExt .fast (quietCalls (x := .rv64)) () (Xlen.rv64.sbi Mmode.sbiExtIpi)).value = 1#_ ↔
        Serves .fast (Xlen.rv64.sbi Mmode.sbiExtIpi)) := by
  refine ⟨fun h => ?_, fun h => ?_⟩
  all_goals
    refine (probe_iff .fast quietCalls () _ ?_ ?_).2.mp h ⟨rfl, rfl, rfl⟩
    · decide
    · decide

end ScBl
