import ScBl.CachePmu.Access
import ScBl.Lib.Runs

/-!
# L3 PMU (`l3_pmu.c`)

Every counter has a register pair in every bank of the cache and a control
register common to all banks. A table entry remembers the event and the banks
that count it. `SCR_L3_PMU_COUNTERS` has its default value.
-/

namespace ScBl

open Loops CachePmu

/-- `SCR_L3_PMU_COUNTERS` -/
def scrL3PmuCounters : ℕ := 4
/-- `SCR_L3_CACHE_NOP` -/
def scrL3CacheNop : U64 := 0#64

/-- `struct l3_pmu_event` -/
structure L3PmuEvent where
  ctrl : U64
  banksMask : U32
  banks : U32
  deriving DecidableEq, Repr

/-- The registers of the L3 cache. -/
structure L3Hw where
  /-- `PLF_L3CTL_BASE` -/
  l3ctlBase : U64
  /-- What `L3C_DESCR_CACHE` reads. -/
  descrCache : U64
  /-- What `L3C_VID` reads. -/
  scrVid : U64
  dev : Device

/-- State of the L3 PMU. -/
abbrev L3Pmu : Type := CachePmu L3PmuEvent

namespace L3Hw

variable (hw : L3Hw)

/-- `supported_banks` -/
def supportedBanks : ℕ := ((hw.descrCache >>> 8) &&& 0xff#64).toNat

/-- `supported_banks_mask` -/
def supportedBanksMask : U32 :=
  if hw.supportedBanks ≤ 32 ∧ 0 < hw.supportedBanks then
    (genmask (hw.supportedBanks - 1) 0).setWidth 32
  else 0#32

/-- `scr_l3_cache_events` -/
def scrL3CacheEvents : ℕ := if hw.scrVid ≤ 0x2022010101#64 then 15 else 16

/-- `L3C_PCE_CTRL_N` -/
def l3cPceCtrlN (n : U32) : U64 := hw.l3ctlBase + 152#64 + (n * 8#32).setWidth 64

/-- `L3B_PRIVATE_N_BANK` -/
def l3bPrivateNBank (bank : ℕ) : U64 :=
  hw.l3ctlBase + 0x100#64 + BitVec.ofNat 64 bank * 0x100#64

/-- `L3B_PCE_CTRL_N` -/
def l3bPceCtrlN (bank : ℕ) (n : U32) : U64 :=
  hw.l3bPrivateNBank bank + 168#64 + (n * 0x10#32).setWidth 64

/-- `L3B_PCE_CNTR_N` -/
def l3bPceCntrN (bank : ℕ) (n : U32) : U64 :=
  hw.l3bPrivateNBank bank + 176#64 + (n * 0x10#32).setWidth 64

end L3Hw

/-- `scr_fdt_l3_pmu_init` -/
def scrFdtL3PmuInit (s : L3Pmu) : L3Pmu :=
  { s with activeEvents := fun i =>
      if i < scrL3PmuCounters then { s.activeEvents i with ctrl := scrL3CacheNop }
      else s.activeEvents i }

/-- `scr_l3_banks_mask_num` -/
def scrL3BanksMaskNum (eventData : U64) : U32 := ((eventData &&& genmask 15 8) >>> 8).setWidth 32

/-- `scr_l3_is_event_active` -/
def L3PmuEvent.IsActive (e : L3PmuEvent) : Prop := e.ctrl ≠ scrL3CacheNop

instance (e : L3PmuEvent) : Decidable e.IsActive := instDecidableNot

/-- `__builtin_popcount` -/
def popcount (mask : U32) : ℕ := (indicesIn mask.getLsbD 0 32).length

/-- `divu`, which `/` compiles to. -/
def divu (x y : U64) : U64 := if y = 0#64 then BitVec.allOnes 64 else x / y

variable (hw : L3Hw)

/-- The loops over the banks of a mask, up to `supported_banks`. -/
def forEachBank {σ : Type} (banksMask : U64) (body : ℕ → σ → σ) (s : σ) : σ :=
  (forEachSetBitFrom (wordBitmap banksMask) hw.supportedBanks 0
    (fun bank s => ((none : Option Unit), body bank s)) s).2

/-- `scr_l3_pmu_ctr_write_event` -/
def scrL3PmuCtrWriteEvent (cidx : U32) (ival : U64) (s : L3Pmu) : L3Pmu :=
  writeq ival (hw.l3cPceCtrlN cidx) s

/-- `scr_l3_pmu_bank_write_ctrl` -/
def scrL3PmuBankWriteCtrl (banksMask : U64) (cidx : U32) (ival : U64) (s : L3Pmu) : L3Pmu :=
  forEachBank hw banksMask (fun bank s => writeq ival (hw.l3bPceCtrlN bank cidx) s) s

/-- `scr_l3_pmu_event_validate` -/
def scrL3PmuEventValidate (cidx : U32) (s : L3Pmu) : ℤ × L3Pmu :=
  if scrL3PmuCounters ≤ cidx.toNat then (sbiErrorInvalidParam, s)
  else if ¬ (s.activeEvents cidx.toNat).IsActive then
    (sbiErrorInvalidParam, s.readActive cidx.toNat)
  else (0, s.readActive cidx.toNat)

/-- `scr_l3_pmu_read_cntr`: the sum and the state. -/
def scrL3PmuReadCntr (banksMask : U64) (cidx : U32) (s : L3Pmu) : U64 × L3Pmu :=
  forEachBank hw banksMask (fun bank (val, s) =>
    let (x, s) := readq hw.dev (hw.l3bPceCntrN bank cidx) s
    (val + x, s)) (0#64, s)

/-- `scr_l3_pmu_write_cntr` -/
def scrL3PmuWriteCntr (banksMask : U64) (cidx : U32) (val : U64) (s : L3Pmu) : L3Pmu :=
  forEachBank hw banksMask (fun bank s => writeq val (hw.l3bPceCntrN bank cidx) s) s

/-- `scr_l3_pmu_ctr_stop_hw` -/
def scrL3PmuCtrStopHw (cidx : U32) (s : L3Pmu) : L3Pmu :=
  scrL3PmuCtrWriteEvent hw cidx scrL3CacheNop s

/-- `scr_l3_pmu_ctr_start_hw` -/
def scrL3PmuCtrStartHw (banksMask : U32) (cidx : U32) (ctrlVal cntrVal : U64)
    (cntrUpdate : Prop) [Decidable cntrUpdate] (s : L3Pmu) : L3Pmu :=
  let s := if cntrUpdate then scrL3PmuWriteCntr hw (banksMask.setWidth 64) cidx cntrVal s else s
  scrL3PmuBankWriteCtrl hw (banksMask.setWidth 64) cidx ctrlVal s

/-- What a call returns: the code, `*out` (0 if not written) and the state. -/
abbrev L3Result : Type := ℤ × U64 × L3Pmu

/-- One round of the search for a free counter. -/
def findFreeL3Body (i : ℕ) (s : L3Pmu) : Option ℕ × L3Pmu :=
  if ¬ (s.activeEvents i).IsActive then (some i, s.readActive i) else (none, s.readActive i)

/-- The search, which stops at the first free counter. -/
def findFreeL3Ctr (s : L3Pmu) : Option ℕ × L3Pmu :=
  runUntil findFreeL3Body (List.range scrL3PmuCounters) s

/-- The end of `sbi_l3_pmu_ctr_cfg_match`, from `skip_match` on. -/
def l3SkipMatch (flags : U64) (banksMask : U32) (eventType : U64) (ctrIdx : ℕ) (s : L3Pmu) :
    L3Result :=
  let s :=
    -- clear counter for all banks
    if hasFlag flags sbiPmuCfgFlagClearValue then
      scrL3PmuWriteCntr hw ((~~~0#32).setWidth 64) (BitVec.ofNat 32 ctrIdx) 0#64 s
    else s
  let s :=
    if hasFlag flags sbiPmuCfgFlagAutoStart then
      scrL3PmuCtrStartHw hw banksMask (BitVec.ofNat 32 ctrIdx) eventType 0#64 False s
    else s
  (sbiErrorSuccess, BitVec.ofNat 64 ctrIdx, s)

/-- The event selector of an event index. -/
def l3EventType (eventIdx : U64) : U64 := eventIdx &&& genmask 7 0

/-- The event selector is not supported. -/
def L3Hw.RefusesEvent (hw : L3Hw) (eventIdx : U64) : Prop :=
  hw.scrL3CacheEvents ≤ (l3EventType eventIdx).toNat ∨ l3EventType eventIdx = scrL3CacheNop

instance (eventIdx : U64) : Decidable (hw.RefusesEvent eventIdx) :=
  inferInstanceAs (Decidable (_ ∨ _))

/-- `sbi_l3_pmu_ctr_cfg_match` -/
def sbiL3PmuCtrCfgMatch (cidxBase cidxMask flags eventIdx data1 : U64) (s : L3Pmu) : L3Result :=
  let eventType := l3EventType eventIdx
  let cntMask := shl cidxMask cidxBase
  let banksMask := scrL3BanksMaskNum data1
  if banksMask = 0#32 then (sbiErrorInvalidParam, 0#64, s)
  else if hw.RefusesEvent eventIdx then (sbiErrorNotSupported, 0#64, s)
  else if hasFlag flags sbiPmuCfgFlagSkipMatch then
    let ctrIdx := sbiFfs cntMask
    if scrL3PmuCounters ≤ ctrIdx then (sbiErrorInvalidParam, 0#64, s)
    else if ¬ (s.activeEvents ctrIdx).IsActive then
      (sbiErrorInvalidParam, 0#64, s.readActive ctrIdx)
    else l3SkipMatch hw flags banksMask eventType ctrIdx (s.readActive ctrIdx)
  else if scrL3PmuCounters ≤ sbiFls cntMask then (sbiErrorNotSupported, 0#64, s)
  else
    match findFreeL3Ctr s with
    | (none, s) => (sbiErrorNotSupported, 0#64, s)
    | (some ctrIdx, s) =>
      let banksMask := banksMask &&& hw.supportedBanksMask
      let banks := popcount banksMask
      if banks = 0 then (sbiErrorInvalidParam, 0#64, s)
      else
        -- set events for specified banks
        let s := s.writeActive ctrIdx
          { ctrl := eventType, banksMask := banksMask, banks := BitVec.ofNat 32 banks }
        l3SkipMatch hw flags banksMask eventType ctrIdx s

/-- One round of `sbi_l3_pmu_ctr_start`; `ret` is part of the state of the
loop. -/
def l3StartBody (flags init : U64) (cbase : ℕ) (t : ℤ × L3Pmu) : Option Unit × (ℤ × L3Pmu) :=
  let (invalid, s) := scrL3PmuEventValidate (BitVec.ofNat 32 cbase) t.2
  -- continue the start operation for other counters
  if invalid ≠ 0 then (none, t.1, s)
  else
    let event := s.activeEvents cbase
    let s := s.readActive cbase
    -- counters per bank: divide the initial value by the number of banks
    let initVal := divu init (event.banks.signExtend 64)
    (none, 0, scrL3PmuCtrStartHw hw event.banksMask (BitVec.ofNat 32 cbase) event.ctrl initVal
      (hasFlag flags sbiPmuStartFlagSetInitValue) s)

/-- `sbi_l3_pmu_ctr_start`; `data2` is not used on RV64. -/
def sbiL3PmuCtrStart (cbase cmask flags data1 : U64) (s : L3Pmu) : L3Result :=
  let ctrMask := shl cmask cbase
  if scrL3PmuCounters ≤ sbiFls ctrMask then (sbiErrorInvalidParam, 0#64, s)
  else
    let (_, ret, s) := forEachSetBitFrom (wordBitmap ctrMask) scrL3PmuCounters cbase.toNat
      (l3StartBody hw flags data1) (sbiErrorInvalidParam, s)
    (ret, 0#64, s)

/-- One round of `sbi_l3_pmu_ctr_stop`. -/
def l3StopBody (flags : U64) (cbase : ℕ) (s : L3Pmu) : Option Unit × L3Pmu :=
  let (invalid, s) := scrL3PmuEventValidate (BitVec.ofNat 32 cbase) s
  -- continue the stop operation for other counters
  if invalid ≠ 0 then (none, s)
  else
    let s :=
      if hasFlag flags sbiPmuStopFlagReset then
        s.writeActive cbase { s.activeEvents cbase with ctrl := scrL3CacheNop }
      else s
    (none, scrL3PmuCtrStopHw hw (BitVec.ofNat 32 cbase) s)

/-- `sbi_l3_pmu_ctr_stop` -/
def sbiL3PmuCtrStop (cbase cmask flags : U64) (s : L3Pmu) : L3Result :=
  let ctrMask := shl cmask cbase
  if scrL3PmuCounters ≤ sbiFls ctrMask then (sbiErrorInvalidParam, 0#64, s)
  else
    let (_, s) := forEachSetBitFrom (wordBitmap ctrMask) scrL3PmuCounters cbase.toNat
      (l3StopBody hw flags) s
    (sbiErrorSuccess, 0#64, s)

/-- A start runs its body for the counters that the mask names, if there are only counters. -/
theorem sbiL3PmuCtrStart_eq (cbase cmask flags data1 : U64) (s : L3Pmu) :
    sbiL3PmuCtrStart hw cbase cmask flags data1 s =
      let t := if sbiFls (shl cmask cbase) < 4 then
          (runUntil (l3StartBody hw flags data1)
            (indicesIn (wordBitmap (shl cmask cbase)).bit cbase.toNat 4)
            (sbiErrorInvalidParam, s)).2
        else (sbiErrorInvalidParam, s)
      (t.1, 0#64, t.2) := by
  by_cases hfls : sbiFls (shl cmask cbase) < 4
  · simp only [sbiL3PmuCtrStart, forEachSetBitFrom_eq, if_pos hfls]
    exact if_neg (Nat.not_le.mpr hfls)
  · simp only [if_neg hfls]
    exact if_pos (Nat.not_lt.mp hfls)

/-- So does a stop. -/
theorem sbiL3PmuCtrStop_eq (cbase cmask flags : U64) (s : L3Pmu) :
    sbiL3PmuCtrStop hw cbase cmask flags s =
      (if sbiFls (shl cmask cbase) < 4 then sbiErrorSuccess else sbiErrorInvalidParam, 0#64,
        if sbiFls (shl cmask cbase) < 4 then
          (runUntil (l3StopBody hw flags)
            (indicesIn (wordBitmap (shl cmask cbase)).bit cbase.toNat 4) s).2
        else s) := by
  by_cases hfls : sbiFls (shl cmask cbase) < 4
  · simp only [sbiL3PmuCtrStop, forEachSetBitFrom_eq, if_pos hfls]
    exact if_neg (Nat.not_le.mpr hfls)
  · simp only [if_neg hfls]
    exact if_pos (Nat.not_lt.mp hfls)

/-- `sbi_l3_pmu_hw_ctr_read`: validates the index as `uint32_t`, and uses it as
`unsigned long`. -/
def sbiL3PmuHwCtrRead (cidx : U64) (s : L3Pmu) : L3Result :=
  let (invalid, s) := scrL3PmuEventValidate (cidx.setWidth 32) s
  if invalid ≠ 0 then (sbiErrorInvalidParam, 0#64, s)
  else
    let event := s.activeEvents cidx.toNat
    let s := s.readActive cidx.toNat
    let (val, s) := scrL3PmuReadCntr hw (event.banksMask.setWidth 64) (cidx.setWidth 32) s
    (0, val, s)

/-- The calls that use counters, with their arguments. -/
inductive L3Call
  | cfgMatch (cidxBase cidxMask flags eventIdx data1 : U64)
  | start (cbase cmask flags data1 : U64)
  | stop (cbase cmask flags : U64)
  | hwCtrRead (cidx : U64)
  deriving DecidableEq, Repr

/-- `mcall_ext_l3_pmu` -/
def mcallExtL3Pmu (s : L3Pmu) : L3Call → L3Result
  | .cfgMatch cidxBase cidxMask flags eventIdx data1 =>
    sbiL3PmuCtrCfgMatch hw cidxBase cidxMask flags eventIdx data1 s
  | .start cbase cmask flags data1 => sbiL3PmuCtrStart hw cbase cmask flags data1 s
  | .stop cbase cmask flags => sbiL3PmuCtrStop hw cbase cmask flags s
  | .hwCtrRead cidx => sbiL3PmuHwCtrRead hw cidx s

/-- The state after a call. -/
def L3Hw.next (hw : L3Hw) (s : L3Pmu) (c : L3Call) : L3Pmu := (mcallExtL3Pmu hw s c).2.2

end ScBl
