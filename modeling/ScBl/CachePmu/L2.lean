import ScBl.CachePmu.Access
import ScBl.Lib.Runs

/-!
# L2 PMU (`l2_pmu.c`)

Four counters, each with a control register and a counter register in two
halves. The index of a counter reaches the address computation as `uint32_t`
and is shifted there; the table is indexed with what the caller passes.
-/

namespace ScBl

open Loops CachePmu

/-- `SCR_L2_PMU_CTR_NUM` -/
def scrL2PmuCtrNum : ℕ := 4
/-- `SCR_L2_PMU_CONTROL_BASE` -/
def scrL2PmuControlBase : U64 := 0x400#64
/-- `SCR_L2_CTR_LOW` -/
def scrL2CtrLow : U64 := 0x08#64
/-- `SCR_L2_CTR_HIGH` -/
def scrL2CtrHigh : U64 := 0x0c#64

/-- `SBI_PMU_EVENT_IDX_INVALID` -/
def sbiPmuEventIdxInvalid : U32 := 0xFFFFFFFF#32

/-- The registers of the L2 cache. -/
structure L2Hw where
  /-- `l2_cache_addr` -/
  l2CacheAddr : U64
  /-- `scr_vid` -/
  scrVid : U32
  dev : Device

/-- `scr_l2_cache_events`, as `scr_fdt_l2_pmu_init` sets it. -/
def L2Hw.scrL2CacheEvents (hw : L2Hw) : ℕ := if hw.scrVid < 0x24062001#32 then 9 else 36

/-- State of the L2 PMU. -/
abbrev L2Pmu : Type := CachePmu U32

/-- `scr_fdt_l2_pmu_init` -/
def scrFdtL2PmuInit (s : L2Pmu) : L2Pmu :=
  { s with activeEvents := fun i =>
      if i < scrL2PmuCtrNum then sbiPmuEventIdxInvalid else s.activeEvents i }

/-- `scr_l2_banks_num` -/
def scrL2BanksNum (eventData : U64) : U64 := (eventData &&& genmask 19 16) >>> 16

/-- `get_cidx_addr`; the counter index is shifted as `uint32_t`. -/
def getCidxAddr (x offset : U64) (cidx : U32) : U64 :=
  x + scrL2PmuControlBase + offset + (cidx <<< 4).setWidth 64

variable (hw : L2Hw)

/-- `scr_l2_pmu_ctr_write_event` -/
def scrL2PmuCtrWriteEvent (cidx : U32) (ival : U64) (s : L2Pmu) : L2Pmu :=
  writel ival (getCidxAddr hw.l2CacheAddr 0x0#64 cidx) s

/-- `scr_l2_pmu_ctr_write_hw` -/
def scrL2PmuCtrWriteHw (cidx : U32) (ival : U64) (s : L2Pmu) : L2Pmu :=
  let low := ival &&& 0xFFFFFFFF#64
  let high := ival >>> 32
  let s := writel low (getCidxAddr hw.l2CacheAddr scrL2CtrLow cidx) s
  writel high (getCidxAddr hw.l2CacheAddr scrL2CtrHigh cidx) s

/-- `scr_l2_pmu_ctr_start_hw` -/
def scrL2PmuCtrStartHw (cidx : U32) (ival : U64) (ivalUpdate : Prop) [Decidable ivalUpdate]
    (s : L2Pmu) : L2Pmu :=
  if ivalUpdate then scrL2PmuCtrWriteHw hw cidx ival s else s

/-- `pmu_ctr_validate`; the entry is read once. -/
def pmuCtrValidate (cidx : ℕ) (s : L2Pmu) : ℤ × L2Pmu :=
  if scrL2PmuCtrNum ≤ cidx then (sbiErrorInvalidParam, s)
  else
    let event := s.activeEvents cidx
    let s := s.readActive cidx
    if event = sbiPmuEventIdxInvalid then (sbiErrorInvalidParam, s)
    else if hw.scrL2CacheEvents ≤ event.toNat then (sbiErrorInvalidParam, s)
    else (event.toInt, s)

/-- `scr_l2_pmu_reset_event` -/
def scrL2PmuResetEvent (ctrIdx : ℕ) (s : L2Pmu) : L2Pmu :=
  if scrL2PmuCtrNum ≤ ctrIdx then s else scrL2PmuCtrWriteEvent hw (BitVec.ofNat 32 ctrIdx) 0#64 s

/-- `scr_l2_pmu_read`: the value and the state. -/
def scrL2PmuRead (cidx : U32) (s : L2Pmu) : U64 × L2Pmu :=
  let addrLow := getCidxAddr hw.l2CacheAddr scrL2CtrLow cidx
  let addrHigh := getCidxAddr hw.l2CacheAddr scrL2CtrHigh cidx
  let (highPrev, s) := readl hw.dev addrHigh s
  let (low, s) := readl hw.dev addrLow s
  let (high, s) := readl hw.dev addrHigh s
  let (low, s) := if high ≠ highPrev then readl hw.dev addrLow s else (low, s)
  (high <<< 32 ||| low, s)

/-- What a call returns: the code, `*out` (0 if not written) and the state. -/
abbrev L2Result : Type := ℤ × U64 × L2Pmu

/-- One round of the search for a free counter; `ctr_idx` is part of the state
of the loop. -/
def findFreeL2Body (i : ℕ) (t : ℤ × L2Pmu) : Option Unit × (ℤ × L2Pmu) :=
  (none, if t.2.activeEvents i = sbiPmuEventIdxInvalid then (i : ℤ) else t.1, t.2.readActive i)

/-- The search, which keeps the last free counter. -/
def findFreeL2Ctr (s : L2Pmu) : ℤ × L2Pmu :=
  (runUntil findFreeL2Body (List.range scrL2PmuCtrNum) (sbiErrorNotSupported, s)).2

/-- The end of `sbi_l2_pmu_ctr_cfg_match`, from `skip_match` on; `ctrIdx` is the
`int`. -/
def l2SkipMatch (flags : U64) (ctrIdx : U32) (s : L2Pmu) : L2Result :=
  let s := if hasFlag flags sbiPmuCfgFlagClearValue then scrL2PmuCtrWriteHw hw ctrIdx 0#64 s else s
  let s := if hasFlag flags sbiPmuCfgFlagAutoStart then scrL2PmuCtrStartHw hw ctrIdx 0#64 False s
    else s
  (sbiErrorSuccess, ctrIdx.signExtend 64, s)

/-- The event selector of an event index. -/
def l2EventType (eventIdx : U64) : U64 := eventIdx &&& genmask 3 0

/-- The sanity check of `sbi_l2_pmu_ctr_cfg_match` fails. -/
def L2Hw.RefusesCfgMatch (hw : L2Hw) (cidxBase cidxMask eventIdx eventData : U64) : Prop :=
  scrL2PmuCtrNum ≤ sbiFls (shl cidxMask cidxBase) ∨
    hw.scrL2CacheEvents ≤ (l2EventType eventIdx).toNat ∨ scrL2BanksNum eventData = 0#64

instance (cidxBase cidxMask eventIdx eventData : U64) :
    Decidable (hw.RefusesCfgMatch cidxBase cidxMask eventIdx eventData) :=
  inferInstanceAs (Decidable (_ ∨ _))

/-- `sbi_l2_pmu_ctr_cfg_match` -/
def sbiL2PmuCtrCfgMatch (cidxBase cidxMask flags eventIdx data1 : U64) (s : L2Pmu) : L2Result :=
  let eventData := data1
  if hw.RefusesCfgMatch cidxBase cidxMask eventIdx eventData then (sbiErrorInvalidParam, 0#64, s)
  else if hasFlag flags sbiPmuCfgFlagSkipMatch then
    let event := s.activeEvents cidxBase.toNat
    let s := s.readActive cidxBase.toNat
    if event = sbiPmuEventIdxInvalid then (sbiErrorInvalidParam, 0#64, s)
    else l2SkipMatch hw flags (cidxBase.setWidth 32) s
  else if hw.scrL2CacheEvents ≤ eventIdx.toNat then (sbiErrorNotSupported, 0#64, s)
  else
    let (ctrIdx, s) := findFreeL2Ctr s
    if ctrIdx < 0 then (sbiErrorNotSupported, 0#64, s)
    else
      let ctr := ctrIdx.toNat
      let s := scrL2PmuCtrWriteEvent hw (BitVec.ofNat 32 ctr) (eventData ||| l2EventType eventIdx) s
      let s := s.writeActive ctr (eventIdx.setWidth 32)
      l2SkipMatch hw flags (BitVec.ofNat 32 ctr) s

/-- One round of `sbi_l2_pmu_ctr_start`; `ret` is part of the state of the
loop. -/
def l2StartBody (flags init : U64) (cbase : ℕ) (s : ℤ × L2Pmu) : Option Unit × (ℤ × L2Pmu) :=
  let (eventIdxType, t) := pmuCtrValidate hw cbase s.2
  -- continue the start operation for other counters
  if eventIdxType < 0 then (none, s.1, t)
  else (none, 0, scrL2PmuCtrStartHw hw (BitVec.ofNat 32 cbase) init
    (hasFlag flags sbiPmuStartFlagSetInitValue) t)

/-- `sbi_l2_pmu_ctr_start`; `data2` is not used on RV64. -/
def sbiL2PmuCtrStart (cbase cmask flags data1 : U64) (s : L2Pmu) : L2Result :=
  let ctrMask := shl cmask cbase
  if scrL2PmuCtrNum ≤ sbiFls ctrMask then (sbiErrorInvalidParam, 0#64, s)
  else
    let (_, ret, s) := forEachSetBitFrom (wordBitmap ctrMask) scrL2PmuCtrNum cbase.toNat
      (l2StartBody hw flags data1) (sbiErrorInvalidParam, s)
    (ret, 0#64, s)

/-- One round of `sbi_l2_pmu_ctr_stop`. -/
def l2StopBody (flags : U64) (cbase : ℕ) (s : L2Pmu) : Option Unit × L2Pmu :=
  let (eventIdxType, s) := pmuCtrValidate hw cbase s
  -- continue the stop operation for other counters
  if eventIdxType < 0 then (none, s)
  else if hasFlag flags sbiPmuStopFlagReset then
    (none, scrL2PmuResetEvent hw cbase (s.writeActive cbase sbiPmuEventIdxInvalid))
  else (none, s)

/-- `sbi_l2_pmu_ctr_stop` -/
def sbiL2PmuCtrStop (cbase cmask flags : U64) (s : L2Pmu) : L2Result :=
  let ctrMask := shl cmask cbase
  if scrL2PmuCtrNum ≤ sbiFls ctrMask then (sbiErrorInvalidParam, 0#64, s)
  else
    let (_, s) := forEachSetBitFrom (wordBitmap ctrMask) scrL2PmuCtrNum cbase.toNat
      (l2StopBody hw flags) s
    (sbiErrorSuccess, 0#64, s)

/-- A start runs its body for the counters that the mask names, if there are only counters. -/
theorem sbiL2PmuCtrStart_eq (cbase cmask flags data1 : U64) (s : L2Pmu) :
    sbiL2PmuCtrStart hw cbase cmask flags data1 s =
      let t := if sbiFls (shl cmask cbase) < 4 then
          (runUntil (l2StartBody hw flags data1)
            (indicesIn (wordBitmap (shl cmask cbase)).bit cbase.toNat 4)
            (sbiErrorInvalidParam, s)).2
        else (sbiErrorInvalidParam, s)
      (t.1, 0#64, t.2) := by
  by_cases hfls : sbiFls (shl cmask cbase) < 4
  · simp only [sbiL2PmuCtrStart, forEachSetBitFrom_eq, if_pos hfls]
    exact if_neg (Nat.not_le.mpr hfls)
  · simp only [if_neg hfls]
    exact if_pos (Nat.not_lt.mp hfls)

/-- So does a stop. -/
theorem sbiL2PmuCtrStop_eq (cbase cmask flags : U64) (s : L2Pmu) :
    sbiL2PmuCtrStop hw cbase cmask flags s =
      (if sbiFls (shl cmask cbase) < 4 then sbiErrorSuccess else sbiErrorInvalidParam, 0#64,
        if sbiFls (shl cmask cbase) < 4 then
          (runUntil (l2StopBody hw flags)
            (indicesIn (wordBitmap (shl cmask cbase)).bit cbase.toNat 4) s).2
        else s) := by
  by_cases hfls : sbiFls (shl cmask cbase) < 4
  · simp only [sbiL2PmuCtrStop, forEachSetBitFrom_eq, if_pos hfls]
    exact if_neg (Nat.not_le.mpr hfls)
  · simp only [if_neg hfls]
    exact if_pos (Nat.not_lt.mp hfls)

/-- `sbi_l2_pmu_hw_ctr_read` -/
def sbiL2PmuHwCtrRead (cidx : U64) (s : L2Pmu) : L2Result :=
  let (val, s) := scrL2PmuRead hw (cidx.setWidth 32) s
  (0, val, s)

/-- The calls that use counters, with their arguments. -/
inductive L2Call
  | cfgMatch (cidxBase cidxMask flags eventIdx data1 : U64)
  | start (cbase cmask flags data1 : U64)
  | stop (cbase cmask flags : U64)
  | hwCtrRead (cidx : U64)
  deriving DecidableEq, Repr

/-- `mcall_ext_l2_pmu` -/
def mcallExtL2Pmu (s : L2Pmu) : L2Call → L2Result
  | .cfgMatch cidxBase cidxMask flags eventIdx data1 =>
    sbiL2PmuCtrCfgMatch hw cidxBase cidxMask flags eventIdx data1 s
  | .start cbase cmask flags data1 => sbiL2PmuCtrStart hw cbase cmask flags data1 s
  | .stop cbase cmask flags => sbiL2PmuCtrStop hw cbase cmask flags s
  | .hwCtrRead cidx => sbiL2PmuHwCtrRead hw cidx s

/-- The state after a call. -/
def L2Hw.next (hw : L2Hw) (s : L2Pmu) (c : L2Call) : L2Pmu := (mcallExtL2Pmu hw s c).2.2

end ScBl
