import ScBl.Lib.SplitCounter
import ScBl.Sbi
import Mathlib.Logic.Function.Basic

/-!
# Core PMU (`pmu.c`, `pmu_events.c`)

The SBI PMU extension for the counters of a hart, `XLEN = 64` and
`PLF_PMU_STRICT_EVENTS = 0`. The allocation table is an array of 32 words in
thread-local storage; it is modelled as the flat memory it lies in, so that an
index beyond the table is a value of the model and not excluded by its types.

Every table access, every `csr_write_num` and every counter index that passes
the checks of a call is written to a log. Two views of a call are proved here:
what it does to the table (`…_active`), and what it adds to the log (`…_log`).
-/

namespace ScBl

open Loops

/-! ## State -/

/-- `PMU_HW_CTR_MAX` -/
def pmuHwCtrMax : ℕ := 31
/-- `PMU_HW_CTR_START` -/
def pmuHwCtrStart : ℕ := 3

/-- `CSR_CYCLE` -/
def csrCycle : U64 := 0xc00#64
/-- `CSR_MCYCLE` -/
def csrMcycle : ℕ := 0xb00
/-- `CSR_MHPMEVENT3` -/
def csrMhpmevent3 : ℕ := 0x323

/-- `MHPMEVENT_OF` -/
def mhpmeventOf : U64 := 1#64 <<< 63
/-- `MHPMEVENT_MINH` -/
def mhpmeventMinh : U64 := 1#64 <<< 62
/-- `MHPMEVENT_SINH` -/
def mhpmeventSinh : U64 := 1#64 <<< 61
/-- `MHPMEVENT_UINH` -/
def mhpmeventUinh : U64 := 1#64 <<< 60
/-- `MHPMEVENT_VSINH` -/
def mhpmeventVsinh : U64 := 1#64 <<< 59
/-- `MHPMEVENT_VUINH` -/
def mhpmeventVuinh : U64 := 1#64 <<< 58

/-- What a call did: took a counter index for good, accessed the table at an
index, called `csr_write_num`. -/
inductive PmuAccess
  | acts (cidx : ℕ)
  | activeEvents (index : ℕ)
  | csrWriteNum (csrNum : ℕ)
  deriving DecidableEq, Repr

/-- The counters of a hart. -/
structure PmuHw where
  /-- What `mcounteren` reads back after all ones were written to it. -/
  mcounteren : U32
  /-- What `mcountinhibit` reads back after a value was written to it. -/
  inhibit : U64 → U64

/-- The state behind the calls of one hart. -/
structure Pmu where
  /-- `pmu_hw_ctr_avail` -/
  avail : ℕ
  /-- The memory from `&active_events[0]` on, by entries. -/
  activeEvents : ℕ → U64
  mcountinhibit : U64
  /-- Counter and event CSRs by number. -/
  csr : ℕ → U64
  log : List PmuAccess

def Pmu.access (s : Pmu) (a : PmuAccess) : Pmu := { s with log := s.log ++ [a] }

/-- Read `active_events[i]`; the value is `s.activeEvents i`. -/
def Pmu.readActive (s : Pmu) (i : ℕ) : Pmu := s.access (.activeEvents i)

/-- `active_events[i] = event` -/
def Pmu.writeActive (s : Pmu) (i : ℕ) (event : U64) : Pmu :=
  { s.access (.activeEvents i) with activeEvents := Function.update s.activeEvents i event }

/-- The CSR numbers that have a case in `csr_write_num`. -/
def HasCsrCase (csrNum : ℕ) : Prop :=
  csrNum = 0xb00 ∨ csrNum = 0xb02 ∨ (0xb03 ≤ csrNum ∧ csrNum ≤ 0xb1f) ∨
    (0x323 ≤ csrNum ∧ csrNum ≤ 0x33f)

instance (csrNum : ℕ) : Decidable (HasCsrCase csrNum) := instDecidableOr

/-- `csr_write_num`. Without a case, control is at `__builtin_unreachable`; the
log tells. -/
def csrWriteNum (csrNum : ℕ) (val : U64) (s : Pmu) : Pmu :=
  if HasCsrCase csrNum then
    { s.access (.csrWriteNum csrNum) with csr := Function.update s.csr csrNum val }
  else s.access (.csrWriteNum csrNum)

/-! ## Events -/

/-- `hw_sbi_events`: `event_idx` and `select`. -/
def hwSbiEvents : List (U32 × U64) :=
  [(0x00001, 0x0000001), (0x00002, 0x0000021), (0x00003, 0x0000005), (0x00004, 0x0000015),
   (0x00005, 0x0000012), (0x00006, 0x0000092), (0x00008, 0x0000083), (0x00009, 0x00000e3),
   (0x10000, 0x00000d5), (0x10001, 0x0000015), (0x10004, 0x0000019), (0x10005, 0x0000055),
   (0x10009, 0x0000014), (0x1000d, 0x0000044), (0x10018, 0x0000065), (0x10019, 0x0000075),
   (0x10028, 0x0000012), (0x10029, 0x0000092)]

/-- `pmu_find_raw_event_selector`, `PLF_PMU_STRICT_EVENTS = 0`. -/
def pmuFindRawEventSelector (eventData : U64) : Except ℤ U64 := .ok eventData

/-- `pmu_find_event_selector`: the selector, or the error. -/
def pmuFindEventSelector (eventIdx eventData : U64) : Except ℤ U64 :=
  let type := getCidxType eventIdx
  if type = sbiPmuEventTypeHw ∨ type = sbiPmuEventTypeHwCache then
    match hwSbiEvents.find? fun e =>
        decide (eventIdx = e.1.setWidth 64) && decide (e.2 ≠ sbiPmuEventNotSupp) with
    | some e => .ok e.2
    | none => .error sbiErrorNotSupported
  else if type = sbiPmuEventTypeHwRaw then pmuFindRawEventSelector eventData
  else .error sbiErrorNotSupported

/-- `sbi_pmu_apply_hw_flags` -/
def sbiPmuApplyHwFlags (flags event : U64) : U64 :=
  let event := if hasFlag flags sbiPmuCfgFlagSetVuinh then event ||| mhpmeventVuinh else event
  let event := if hasFlag flags sbiPmuCfgFlagSetVsinh then event ||| mhpmeventVsinh else event
  let event := if hasFlag flags sbiPmuCfgFlagSetUinh then event ||| mhpmeventUinh else event
  let event := if hasFlag flags sbiPmuCfgFlagSetSinh then event ||| mhpmeventSinh else event
  if hasFlag flags sbiPmuCfgFlagSetMinh then event ||| mhpmeventMinh else event

/-! ## Counters -/

/-- The bound test in the loops over a counter mask. -/
def Pmu.badBit (s : Pmu) (bit : ℕ) : Prop := s.avail < bit ∨ bit = 1

instance (s : Pmu) (bit : ℕ) : Decidable (s.badBit bit) := instDecidableOr

/-- One round of `pmu_find_hw_cntr`. -/
def findHwCntrBody (bit : ℕ) (s : Pmu) : Option ℤ × Pmu :=
  if s.badBit bit then (some sbiErrorInvalidParam, s)
  else if s.activeEvents bit = sbiPmuEventNotSupp then (some bit, s.readActive bit)
  else (none, s.readActive bit)

/-- `pmu_find_hw_cntr`; `none` if the loop does not end. -/
def pmuFindHwCntr (base mask : U64) (s : Pmu) : Option (ℤ × Pmu) :=
  -- skip fixed counters
  let ctrMask := shl mask base &&& ~~~sbiPmuFixedCtrMask
  if ctrMask = 0#64 then some (sbiErrorInvalidParam, s)
  else if s.avail < sbiFls ctrMask then some (sbiErrorInvalidParam, s)
  else (forEachSetBit ctrMask findHwCntrBody s).map fun (ret, s) =>
    (ret.getD sbiErrorFailure, s)

/-- `pmu_set_hw_event` -/
def pmuSetHwEvent (cidx : ℕ) (event : U64) (s : Pmu) : Pmu :=
  if cidx < 3 ∨ s.avail < cidx then s else csrWriteNum (csrMhpmevent3 + cidx - 3) event s

/-- `pmu_write_hw_ctr` -/
def pmuWriteHwCtr (cidx : ℕ) (init : U64) (s : Pmu) : Pmu :=
  if cidx = 1 ∨ s.avail < cidx then s else csrWriteNum (csrMcycle + cidx) init s

/-! ## Calls -/

/-- `pmu_hart_init` -/
def pmuHartInit (s : Pmu) : Pmu :=
  { s with activeEvents := fun i =>
      if i ≤ pmuHwCtrMax then sbiPmuEventNotSupp else s.activeEvents i }

/-- What a call returns: the code, `*out` (0 if not written) and the state. -/
abbrev PmuResult : Type := ℤ × U64 × Pmu

/-- `sbi_pmu_num_ctr` -/
def sbiPmuNumCtr (hw : PmuHw) (s : Pmu) : Option PmuResult :=
  let s := { s with avail := 3 }
  let reg := (hw.mcounteren.setWidth 64) >>> pmuHwCtrStart
  (forEachSetBit reg (fun _ s => ((none : Option Unit), { s with avail := s.avail + 1 })) s).map
    fun (_, s) => (sbiErrorSuccess, BitVec.ofNat 64 s.avail, s)

/-- `cinfo` of `sbi_pmu_ctr_get_info`: `csr` in bits 11..0, `width` in bits
17..12, `type` in bit 63. -/
def pmuCtrInfo (cidx : U64) : U64 :=
  ((csrCycle + cidx) &&& 0xfff#64) ||| (63#64 <<< 12)

/-- `sbi_pmu_ctr_get_info` -/
def sbiPmuCtrGetInfo (cidx : U64) (s : Pmu) : Option PmuResult :=
  if s.avail < cidx.toNat ∨ cidx = 1#64 then some (sbiErrorInvalidParam, 0#64, s)
  else some (sbiErrorSuccess, pmuCtrInfo cidx, s.access (.acts cidx.toNat))

/-- `hw_cntr` of a `SKIP_MATCH` call: an `int`, compared as `unsigned long`. -/
def skipMatchCntr (cidxBase cidxMask : U64) : U64 :=
  ((cidxBase + BitVec.ofNat 64 (sbiFfs cidxMask)).setWidth 32).signExtend 64

/-- The last part of `sbi_pmu_ctr_cfg_match`: configure counter `hwCntr`. -/
def cfgMatchCounter (flags selector : U64) (hwCntr : ℕ) (s : Pmu) : PmuResult :=
  let selector := sbiPmuApplyHwFlags flags selector
  let s := (s.access (.acts hwCntr)).writeActive hwCntr selector
  let s := pmuSetHwEvent hwCntr (selector ||| mhpmeventOf) s
  (sbiErrorSuccess, BitVec.ofNat 64 hwCntr, s)

/-- `sbi_pmu_ctr_cfg_match`; `data2` is not used on RV64. -/
def sbiPmuCtrCfgMatch (cidxBase cidxMask flags eventIdx data1 : U64) (s : Pmu) :
    Option PmuResult :=
  if getCidxType eventIdx = sbiPmuEventTypeFw then some (sbiErrorNotSupported, 0#64, s)
  else
    match pmuFindEventSelector eventIdx data1 with
    | .error ret => some (ret, 0#64, s)
    | .ok selector =>
      if hasFlag flags sbiPmuCfgFlagSkipMatch then
        if cidxMask = 0#64 then some (sbiErrorInvalidParam, 0#64, s)
        else
          let hwCntr := (skipMatchCntr cidxBase cidxMask).toNat
          if s.avail < hwCntr then some (sbiErrorInvalidParam, 0#64, s)
          else some (cfgMatchCounter flags selector hwCntr s)
      else
        (pmuFindHwCntr cidxBase cidxMask s).map fun (hwCntr, s) =>
          if hwCntr < 0 then (hwCntr, 0#64, s)
          else cfgMatchCounter flags selector hwCntr.toNat s

/-- `PMU_DFLT_EN_MINH(x)` -/
def pmuDfltEnMinh (x : U64) : U64 := x &&& ~~~5#64

/-- One round of `sbi_pmu_ctr_start`; `mip bit` is what `mip` reads in it. -/
def ctrStartBody (hw : PmuHw) (flags init : U64) (mip : ℕ → U64) (bit : ℕ) (s : Pmu) :
    Option ℤ × Pmu :=
  if s.badBit bit then (some sbiErrorInvalidParam, s)
  else
    let s := s.access (.acts bit)
    let s := if hasFlag flags sbiPmuStartFlagSetInitValue then pmuWriteHwCtr bit init s else s
    -- check if already started
    if s.mcountinhibit.getLsbD bit = false then (none, s)
    else
      let inhbt := s.mcountinhibit &&& ~~~(1#64 <<< bit)
      let s :=
        if mip bit &&& (1#64 <<< 13) = 0#64 then
          pmuSetHwEvent bit (s.activeEvents bit) (s.readActive bit)
        else s
      (none, { s with mcountinhibit := hw.inhibit (pmuDfltEnMinh inhbt) })

/-- The checks and the loop that `sbi_pmu_ctr_start` and `sbi_pmu_ctr_stop`
share. -/
def forCounters (cbase cmask : U64) (body : ℕ → Pmu → Option ℤ × Pmu) (s : Pmu) :
    Option PmuResult :=
  let ctrMask := shl cmask cbase
  if ctrMask = 0#64 then some (sbiErrorInvalidParam, 0#64, s)
  else if s.avail < sbiFls ctrMask then some (sbiErrorInvalidParam, 0#64, s)
  else (forEachSetBit ctrMask body s).map fun (ret, s) => (ret.getD sbiErrorSuccess, 0#64, s)

/-- `sbi_pmu_ctr_start`; `data2` is not used on RV64. -/
def sbiPmuCtrStart (hw : PmuHw) (cbase cmask flags data1 : U64) (mip : ℕ → U64) (s : Pmu) :
    Option PmuResult :=
  forCounters cbase cmask (ctrStartBody hw flags data1 mip) s

/-- One round of `sbi_pmu_ctr_stop`. -/
def ctrStopBody (hw : PmuHw) (flags : U64) (bit : ℕ) (s : Pmu) : Option ℤ × Pmu :=
  if s.badBit bit then (some sbiErrorInvalidParam, s)
  else
    let s := s.access (.acts bit)
    let s :=
      if s.mcountinhibit.getLsbD bit = false then
        { s with mcountinhibit :=
            hw.inhibit (pmuDfltEnMinh (s.mcountinhibit ||| (1#64 <<< bit))) }
      else s
    if hasFlag flags sbiPmuStopFlagReset then
      (none, pmuSetHwEvent bit 0#64 (s.writeActive bit sbiPmuEventNotSupp))
    else (none, s)

/-- `sbi_pmu_ctr_stop` -/
def sbiPmuCtrStop (hw : PmuHw) (cbase cmask flags : U64) (s : Pmu) : Option PmuResult :=
  forCounters cbase cmask (ctrStopBody hw flags) s

/-- The calls of the extension, with their arguments. -/
inductive PmuCall
  | numCtr
  | getInfo (cidx : U64)
  | cfgMatch (cidxBase cidxMask flags eventIdx data1 : U64)
  | start (cbase cmask flags data1 : U64) (mip : ℕ → U64)
  | stop (cbase cmask flags : U64)

/-- `mcall_ext_pmu` -/
def mcallExtPmu (hw : PmuHw) (s : Pmu) : PmuCall → Option PmuResult
  | .numCtr => sbiPmuNumCtr hw s
  | .getInfo cidx => sbiPmuCtrGetInfo cidx s
  | .cfgMatch cidxBase cidxMask flags eventIdx data1 =>
    sbiPmuCtrCfgMatch cidxBase cidxMask flags eventIdx data1 s
  | .start cbase cmask flags data1 mip => sbiPmuCtrStart hw cbase cmask flags data1 mip s
  | .stop cbase cmask flags => sbiPmuCtrStop hw cbase cmask flags s

/-! ## On RV32

A counter is written by halves there, through the CSRs `mcycle + cidx` and `mcycleh + cidx`. -/

section

open SplitCounter

/-- `CSR_MCYCLEH` -/
def csrMcycleh : ℕ := 0xb80

/-- `pmu_write_hw_ctr`, as the CSR numbers and values that it writes. -/
def pmuWriteHwCtr32 (avail cidx : ℕ) (init : U64) : List (ℕ × U32) :=
  if cidx = 1 ∨ avail < cidx then []
  else
    [(csrMcycle + cidx, 0#32), (csrMcycle + cidx, (init &&& 0xFFFFFFFF#64).setWidth 32),
      (csrMcycleh + cidx, (init >>> 32).setWidth 32)]

/-- What the writes are to counter `cidx`. -/
def csrHalfWrites (cidx : ℕ) (writes : List (ℕ × U32)) : List HalfWrite :=
  writes.filterMap fun (csrNum, val) =>
    if csrNum = csrMcycle + cidx then some (.low val.toNat)
    else if csrNum = csrMcycleh + cidx then some (.high val.toNat)
    else none

/-- **`pmu_write_hw_ctr`** clears the low half, and writes the low and the high half. Between the
last two writes the counter may carry. -/
theorem pmuWriteHwCtr32_halves {avail cidx : ℕ} (hcidx : cidx ≠ 1 ∧ cidx ≤ avail) (init : U64) :
    csrHalfWrites cidx (pmuWriteHwCtr32 avail cidx init) =
      [.low 0, .low (init.toNat % 2 ^ 32), .high (init.toNat / 2 ^ 32)] := by
  have hgoes : ¬ (cidx = 1 ∨ avail < cidx) := by omega
  have hne : csrMcycleh + cidx ≠ csrMcycle + cidx := by
    rw [csrMcycleh, csrMcycle]
    omega
  have hhigh : init.toNat / 2 ^ 32 < 2 ^ 32 := by
    have hlt := init.isLt
    omega
  rw [pmuWriteHwCtr32, if_neg hgoes]
  simp only [csrHalfWrites, List.filterMap_cons, List.filterMap_nil, if_true, if_neg hne,
    BitVec.toNat_setWidth, toNat_low, toNat_high, BitVec.toNat_zero, Nat.mod_mod]
  rw [Nat.mod_eq_of_lt hhigh]

/-- **The initial value** is exact if the low half does not overflow before the high
half is written. -/
theorem initExact_pmuWriteHwCtr32 {avail cidx : ℕ} (hcidx : cidx ≠ 1 ∧ cidx ≤ avail) (init : U64)
    {gap : ℕ → ℕ} (hgap : ∀ i, gap i < 2 ^ 32) (old : ℕ) :
    InitExact (2 ^ 32) init.toNat (csrHalfWrites cidx (pmuWriteHwCtr32 avail cidx init)) gap old ↔
      init.toNat % 2 ^ 32 + gap 2 < 2 ^ 32 := by
  have h := initExact_iff [.low 0] (init.toNat / 2 ^ 32)
    (Nat.mod_lt init.toNat (by decide)) hgap (by decide) old
  rw [Nat.div_add_mod'] at h
  rw [pmuWriteHwCtr32_halves hcidx]
  exact h

end

end ScBl
