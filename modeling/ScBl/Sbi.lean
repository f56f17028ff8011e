import ScBl.Bitops

/-!
# SBI constants (`include/sbi.h`)

Return codes, and the flags and event types of the PMU extension, which the
core, L2 and L3 performance counters share, with the counter sets that a caller
names.
-/

namespace ScBl

/-! ## Return codes -/

def sbiErrorSuccess : ℤ := 0
def sbiErrorFailure : ℤ := -1
def sbiErrorNotSupported : ℤ := -2
def sbiErrorInvalidParam : ℤ := -3

/-! ## PMU -/

/-- `SBI_PMU_EVENT_TYPE_HW` -/
def sbiPmuEventTypeHw : U64 := 0x0#64
/-- `SBI_PMU_EVENT_TYPE_HW_CACHE` -/
def sbiPmuEventTypeHwCache : U64 := 0x1#64
/-- `SBI_PMU_EVENT_TYPE_HW_RAW` -/
def sbiPmuEventTypeHwRaw : U64 := 0x2#64
/-- `SBI_PMU_EVENT_TYPE_FW` -/
def sbiPmuEventTypeFw : U64 := 0xf#64

/-- `SBI_PMU_CFG_FLAG_SKIP_MATCH` -/
def sbiPmuCfgFlagSkipMatch : U64 := 1#64 <<< 0
/-- `SBI_PMU_CFG_FLAG_CLEAR_VALUE` -/
def sbiPmuCfgFlagClearValue : U64 := 1#64 <<< 1
/-- `SBI_PMU_CFG_FLAG_AUTO_START` -/
def sbiPmuCfgFlagAutoStart : U64 := 1#64 <<< 2
/-- `SBI_PMU_CFG_FLAG_SET_VUINH` -/
def sbiPmuCfgFlagSetVuinh : U64 := 1#64 <<< 3
/-- `SBI_PMU_CFG_FLAG_SET_VSINH` -/
def sbiPmuCfgFlagSetVsinh : U64 := 1#64 <<< 4
/-- `SBI_PMU_CFG_FLAG_SET_UINH` -/
def sbiPmuCfgFlagSetUinh : U64 := 1#64 <<< 5
/-- `SBI_PMU_CFG_FLAG_SET_SINH` -/
def sbiPmuCfgFlagSetSinh : U64 := 1#64 <<< 6
/-- `SBI_PMU_CFG_FLAG_SET_MINH` -/
def sbiPmuCfgFlagSetMinh : U64 := 1#64 <<< 7

/-- `SBI_PMU_START_FLAG_SET_INIT_VALUE` -/
def sbiPmuStartFlagSetInitValue : U64 := 1#64 <<< 0
/-- `SBI_PMU_STOP_FLAG_RESET` -/
def sbiPmuStopFlagReset : U64 := 1#64 <<< 0

/-- `SBI_PMU_EVENT_NOT_SUPP` -/
def sbiPmuEventNotSupp : U64 := ~~~0#64

/-- `get_cidx_type(x)` -/
def getCidxType (x : U64) : U64 := (x &&& 0xF0000#64) >>> 16

/-- `SBI_PMU_FIXED_CTR_MASK` -/
def sbiPmuFixedCtrMask : U64 := 0x07#64

/-- A flag of a flag word. -/
def hasFlag (flags flag : U64) : Prop := flags &&& flag ≠ 0#64

instance (flags flag : U64) : Decidable (hasFlag flags flag) := instDecidableNot

/-! ## Counter sets -/

/-- Counter `c` is in the set that `base` and `mask` name. -/
def Requested (base mask : U64) (c : ℕ) : Prop :=
  ∃ i, mask.getLsbD i = true ∧ c = base.toNat + i

instance (base mask : U64) (c : ℕ) : Decidable (Requested base mask c) :=
  decidable_of_iff (base.toNat ≤ c ∧ mask.getLsbD (c - base.toNat) = true) <| by
    constructor
    · rintro ⟨hle, hbit⟩
      exact ⟨c - base.toNat, hbit, by omega⟩
    · rintro ⟨i, hbit, rfl⟩
      rw [Nat.add_sub_cancel_left]
      exact ⟨Nat.le_add_right .., hbit⟩

variable {base mask : U64} {c : ℕ}

/-- For bases below 64 the shifted mask has the requested counters of a word. -/
theorem requested_of_shl (hbase : base.toNat < 64) (hbit : (shl mask base).getLsbD c = true) :
    Requested base mask c := by
  rw [shl_of_lt hbase, BitVec.getLsbD_shiftLeft] at hbit
  simp only [Bool.and_eq_true, Bool.not_eq_true', decide_eq_false_iff_not] at hbit
  exact ⟨c - base.toNat, hbit.2, by omega⟩

theorem requested_iff_shl (hbase : base.toNat < 64) (hc : c < 64) :
    Requested base mask c ↔ (shl mask base).getLsbD c = true := by
  refine ⟨?_, requested_of_shl hbase⟩
  rintro ⟨i, hbit, rfl⟩
  rw [shl_of_lt hbase, BitVec.getLsbD_shiftLeft, Nat.add_sub_cancel_left, hbit]
  simp [hc]

/-- From 64 on, no counter of a word is requested. -/
theorem not_requested (hbase : 64 ≤ base.toNat) (hc : c < 64) : ¬ Requested base mask c := by
  rintro ⟨i, _, rfl⟩
  omega

end ScBl
