import ScBl.CachePmu.L2Alloc

/-!
# The requested counters of the cache PMUs

`sbi_l2_pmu_ctr_cfg_match` and `sbi_l3_pmu_ctr_cfg_match` check the counter mask
for bits beyond the table and then forget it: the search goes through all
counters, from the last one in the L2 PMU and from the first one in the L3 PMU.
So a caller gets a counter that it asked for exactly when the search happens to
end there (`cache_requested_iff`).
-/

namespace ScBl

open Loops Runs CachePmu

/-! ## The law -/

section Honours

universe u

variable {ε : Type u} {usable : ℕ → Prop} {base mask : U64} {s : CachePmu ε}
  {r : ℤ × U64 × CachePmu ε} {c : ℕ}

/-- A configuration returns a requested counter; if none of them is usable, it fails
and has only looked at the table. -/
def Honours (usable : ℕ → Prop) (base mask : U64) (s : CachePmu ε) (r : ℤ × U64 × CachePmu ε) :
    Prop :=
  (r.1 = sbiErrorSuccess → Requested base mask r.2.1.toNat) ∧
    ((∀ c, Requested base mask c → ¬ usable c) →
      r.1 ≠ sbiErrorSuccess ∧ TableOnly s r.2.2)

theorem honours_of_fails (hret : r.1 ≠ sbiErrorSuccess) (htable : TableOnly s r.2.2) :
    Honours usable base mask s r :=
  ⟨fun h => absurd h hret, fun _ => ⟨hret, htable⟩⟩

/-- A configuration that succeeds with a counter that was usable. -/
theorem honours_iff_of_success (hret : r.1 = sbiErrorSuccess) (hout : r.2.1.toNat = c)
    (husable : Requested base mask c → usable c) :
    Honours usable base mask s r ↔ Requested base mask c := by
  constructor
  · intro h
    exact hout ▸ h.1 hret
  · intro hreq
    exact ⟨fun _ => hout.symm ▸ hreq, fun hnone => absurd (husable hreq) (hnone c hreq)⟩

end Honours

/-! ## L2 -/

section L2

variable {hw : L2Hw} {s : L2Pmu} {cidxBase cidxMask flags eventIdx data1 : U64} {c : ℕ}

/-- A counter that a configuration can use: a free one, and with `SKIP_MATCH` one
that is configured. -/
def UsableL2 (s : L2Pmu) (flags : U64) (c : ℕ) : Prop :=
  c < 4 ∧ if hasFlag flags sbiPmuCfgFlagSkipMatch then ¬ L2Free s c else L2Free s c

/-- The call is refused, or the counter it ends at is requested: the base itself with
`SKIP_MATCH`, the last free counter without. -/
def EndsRequestedL2 (hw : L2Hw) (s : L2Pmu) (cidxBase cidxMask flags eventIdx data1 : U64) : Prop :=
  hw.RefusesCfgMatch cidxBase cidxMask eventIdx data1 ∨
    if hasFlag flags sbiPmuCfgFlagSkipMatch then
      L2Free s cidxBase.toNat ∨ cidxMask.getLsbD 0 = true
    else
      hw.scrL2CacheEvents ≤ eventIdx.toNat ∨
        ∀ c, L2LastFree s c → Requested cidxBase cidxMask c

/-- Only one counter is the last free one. -/
theorem L2LastFree.unique {c' : ℕ} (h : L2LastFree s c) (h' : L2LastFree s c') : c = c' := by
  rcases Nat.lt_trichotomy c c' with hlt | heq | hlt
  · exact absurd h'.free (h.last c' hlt h'.lt)
  · exact heq
  · exact absurd h.free (h'.last c hlt h.lt)

theorem requested_base (cidxBase cidxMask : U64) : Requested cidxBase cidxMask cidxBase.toNat ↔
    cidxMask.getLsbD 0 = true := by
  constructor
  · rintro ⟨i, hbit, hi⟩
    obtain rfl : i = 0 := by omega
    exact hbit
  · exact fun hbit => ⟨0, hbit, rfl⟩

/-- The index that `SKIP_MATCH` returns. -/
theorem toNat_signExtend_base (hbase : cidxBase.toNat < 64) :
    ((cidxBase.setWidth 32).signExtend 64).toNat = cidxBase.toNat := by
  have hsmall : (cidxBase.setWidth 32).toNat = cidxBase.toNat := by
    rw [BitVec.toNat_setWidth]
    omega
  rw [Words.toNat_signExtend_of_lt (by decide) (by omega), hsmall]

/-- **L2.** The search goes over the whole table, whatever was asked for. So the call honours the
request exactly if the last free counter happens to be requested, or the call is refused. -/
theorem honours_l2_iff (hbase : cidxBase.toNat < 64) :
    Honours (UsableL2 s flags) cidxBase cidxMask s
        (sbiL2PmuCtrCfgMatch hw cidxBase cidxMask flags eventIdx data1 s) ↔
      EndsRequestedL2 hw s cidxBase cidxMask flags eventIdx data1 := by
  have h := sbiL2PmuCtrCfgMatch_spec hw s cidxBase cidxMask flags eventIdx data1
  generalize sbiL2PmuCtrCfgMatch hw cidxBase cidxMask flags eventIdx data1 s = r at h ⊢
  have hinvalid : sbiErrorInvalidParam ≠ sbiErrorSuccess := by decide
  have hunsupported : sbiErrorNotSupported ≠ sbiErrorSuccess := by decide
  rw [EndsRequestedL2]
  cases h with
  | refused href => exact iff_of_true (honours_of_fails hinvalid (.refl s)) (.inl href)
  | skipFree _ hskip hfree =>
    rw [if_pos hskip]
    exact iff_of_true (honours_of_fails hinvalid (tableOnly_readActive _)) (.inr (.inl hfree))
  | skip hok hskip hbusy =>
    rw [if_pos hskip, or_iff_right hok, or_iff_right hbusy, ← requested_base cidxBase cidxMask]
    refine honours_iff_of_success rfl (toNat_signExtend_base hbase) fun hreq => ?_
    rw [UsableL2, if_pos hskip]
    have hfls : ¬ scrL2PmuCtrNum ≤ sbiFls (shl cidxMask cidxBase) := fun h => hok (.inl h)
    have hle := le_sbiFls ((requested_iff_shl hbase hbase).mp hreq)
    rw [scrL2PmuCtrNum] at hfls
    exact ⟨by omega, hbusy⟩
  | noEvent _ hmatch hevent =>
    rw [if_neg hmatch]
    exact iff_of_true (honours_of_fails hunsupported (.refl s)) (.inr (.inl hevent))
  | full _ hmatch _ hbusy =>
    rw [if_neg hmatch]
    refine iff_of_true (honours_of_fails hunsupported (tableOnly_readTable 4))
      (.inr (.inr fun c hc => absurd hc.free (hbusy c hc.lt)))
  | found hok hmatch hevent c hc =>
    rw [if_neg hmatch, or_iff_right hok, or_iff_right (Nat.not_le.mpr hevent)]
    have hall : (∀ c, L2LastFree s c → Requested cidxBase cidxMask c) ↔
        Requested cidxBase cidxMask c :=
      ⟨fun h => h c hc, fun h c' hc' => hc.unique hc' ▸ h⟩
    rw [hall]
    refine honours_iff_of_success rfl ?_ fun _ => ?_
    · have hlt := hc.lt
      rw [l2SkipMatch, signExtend_ofNat hc.lt, BitVec.toNat_ofNat]
      omega
    · rw [UsableL2, if_neg hmatch]
      exact ⟨hc.lt, hc.free⟩

end L2

/-! ## L3 -/

section L3

variable {s : L3Pmu} {c : ℕ}

variable {hw : L3Hw} {cidxBase cidxMask flags eventIdx data1 : U64}

/-- A counter that a configuration can use: a free one, and with `SKIP_MATCH` one
that is configured. -/
def UsableL3 (s : L3Pmu) (flags : U64) (c : ℕ) : Prop :=
  c < 4 ∧ if hasFlag flags sbiPmuCfgFlagSkipMatch then s.Busy c else ¬ s.Busy c

/-- The call is refused, it is one with `SKIP_MATCH`, or the first free counter is
requested. -/
def EndsRequestedL3 (hw : L3Hw) (s : L3Pmu) (cidxBase cidxMask flags eventIdx data1 : U64) : Prop :=
  ¬ L3Call.Passes hw s (.cfgMatch cidxBase cidxMask flags eventIdx data1) ∨
    hasFlag flags sbiPmuCfgFlagSkipMatch ∨
    ∀ c, L3FirstFree s c → Requested cidxBase cidxMask c

/-- **A configuration that fails** only looked at the table. -/
theorem tableOnly_of_fails_l3 {r : L3Result}
    (h : CfgMatchL3 hw s cidxBase cidxMask flags eventIdx data1 r) (hret : r.1 ≠ sbiErrorSuccess) :
    TableOnly s r.2.2 := by
  cases h with
  | noBanks | noEvent | skipBeyond | beyond => exact .refl s
  | skipFree => exact tableOnly_readActive _
  | full => exact tableOnly_readTable 4
  | noSupport => exact tableOnly_readTable _
  | skip | found => exact absurd rfl hret

/-- **L3.** This unit has its search begin at the other end, and is just as blind to the request.
With `SKIP_MATCH` it takes the base, which is always requested. -/
theorem honours_l3_iff (hbase : cidxBase.toNat < 64) :
    Honours (UsableL3 s flags) cidxBase cidxMask s
        (sbiL3PmuCtrCfgMatch hw cidxBase cidxMask flags eventIdx data1 s) ↔
      EndsRequestedL3 hw s cidxBase cidxMask flags eventIdx data1 := by
  have h := sbiL3PmuCtrCfgMatch_spec hw s cidxBase cidxMask flags eventIdx data1
  have hchecks := cfgMatch_outcome hw s cidxBase cidxMask flags eventIdx data1
  generalize sbiL3PmuCtrCfgMatch hw cidxBase cidxMask flags eventIdx data1 s = r at h hchecks ⊢
  rw [EndsRequestedL3]
  by_cases hret : r.1 = sbiErrorSuccess
  case neg =>
    exact iff_of_true (honours_of_fails hret (tableOnly_of_fails_l3 h hret))
      (.inl (hchecks.not_passes hret))
  have hpasses := hchecks.passes hret
  have hinvalid : sbiErrorInvalidParam ≠ sbiErrorSuccess := by decide
  have hunsupported : sbiErrorNotSupported ≠ sbiErrorSuccess := by decide
  have hindex : ∀ {c : ℕ}, c < 4 → (BitVec.ofNat 64 c).toNat = c := by
    intro c hc
    rw [BitVec.toNat_ofNat]
    omega
  cases h with
  | noBanks | skipBeyond | skipFree | noSupport => exact absurd hret hinvalid
  | noEvent | beyond | full => exact absurd hret hunsupported
  | skip _ hskip hc hbusy =>
    refine iff_of_true ?_ (.inr (.inl hskip))
    refine (honours_iff_of_success rfl (hindex hc) fun _ => ?_).mpr ?_
    · rw [UsableL3, if_pos hskip]
      exact ⟨hc, hbusy⟩
    · have hne : shl cidxMask cidxBase ≠ 0#64 := by
        intro hzero
        have hnone : ¬ sbiFfs 0#64 < 4 := by decide
        exact hnone (hzero ▸ hc)
      exact requested_of_shl hbase (sbiFfs_spec hne).1
  | found _ hmatch _ c hc =>
    have hall : (∀ c, L3FirstFree s c → Requested cidxBase cidxMask c) ↔
        Requested cidxBase cidxMask c :=
      ⟨fun h => h c hc, fun h c' hc' => hc.unique hc' ▸ h⟩
    rw [or_iff_right (not_not.mpr hpasses), or_iff_right hmatch, hall]
    refine honours_iff_of_success rfl (hindex hc.lt) fun _ => ?_
    rw [UsableL3, if_neg hmatch]
    exact ⟨hc.lt, hc.free⟩

end L3

/-! ## The law for both -/

/-- **Requested counters.** The L2 PMU returns a requested counter, or fails and
changes nothing if none is usable, exactly when the last free counter (with
`SKIP_MATCH`, the base) is requested or the call is refused; the L3 PMU exactly when
the first free one is. -/
theorem cache_requested_iff (l2 : L2Hw) (l3 : L3Hw) (s₂ : L2Pmu) (s₃ : L3Pmu)
    (cidxBase cidxMask flags eventIdx data1 : U64) (hbase : cidxBase.toNat < 64) :
    (Honours (UsableL2 s₂ flags) cidxBase cidxMask s₂
        (mcallExtL2Pmu l2 s₂ (.cfgMatch cidxBase cidxMask flags eventIdx data1)) ↔
      EndsRequestedL2 l2 s₂ cidxBase cidxMask flags eventIdx data1) ∧
    (Honours (UsableL3 s₃ flags) cidxBase cidxMask s₃
        (mcallExtL3Pmu l3 s₃ (.cfgMatch cidxBase cidxMask flags eventIdx data1)) ↔
      EndsRequestedL3 l3 s₃ cidxBase cidxMask flags eventIdx data1) :=
  ⟨honours_l2_iff hbase, honours_l3_iff hbase⟩

/-- The calls for counter 3 alone. -/
theorem cache_requested_counter_three :
    (Honours (UsableL2 (scrFdtL2PmuInit ⟨fun _ => 0#32, []⟩) 0#64) 0#64 8#64
        (scrFdtL2PmuInit ⟨fun _ => 0#32, []⟩)
        (mcallExtL2Pmu L2Hw.sample (scrFdtL2PmuInit ⟨fun _ => 0#32, []⟩)
          (.cfgMatch 0#64 8#64 0#64 1#64 0x10100#64)) ↔
      EndsRequestedL2 L2Hw.sample (scrFdtL2PmuInit ⟨fun _ => 0#32, []⟩)
        0#64 8#64 0#64 1#64 0x10100#64) ∧
    (Honours (UsableL3 (scrFdtL3PmuInit ⟨fun _ => ⟨0#64, 0#32, 0#32⟩, []⟩) 0#64) 0#64 8#64
        (scrFdtL3PmuInit ⟨fun _ => ⟨0#64, 0#32, 0#32⟩, []⟩)
        (mcallExtL3Pmu L3Hw.sample (scrFdtL3PmuInit ⟨fun _ => ⟨0#64, 0#32, 0#32⟩, []⟩)
          (.cfgMatch 0#64 8#64 0#64 1#64 0x10100#64)) ↔
      EndsRequestedL3 L3Hw.sample (scrFdtL3PmuInit ⟨fun _ => ⟨0#64, 0#32, 0#32⟩, []⟩)
        0#64 8#64 0#64 1#64 0x10100#64) :=
  cache_requested_iff L2Hw.sample L3Hw.sample _ _ 0#64 8#64 0#64 1#64 0x10100#64 (by decide)

/-- Right after the initialisation, the L2 PMU gives counter 3 to a caller that asks
for counter 0, and the L3 PMU gives counter 0 to one that asks for counter 1. -/
theorem unrequested_counter_returned :
    ¬ Honours (UsableL2 (scrFdtL2PmuInit ⟨fun _ => 0#32, []⟩) 0#64) 0#64 1#64
        (scrFdtL2PmuInit ⟨fun _ => 0#32, []⟩)
        (mcallExtL2Pmu L2Hw.sample (scrFdtL2PmuInit ⟨fun _ => 0#32, []⟩)
          (.cfgMatch 0#64 1#64 0#64 1#64 0x10000#64)) ∧
    ¬ Honours (UsableL3 (scrFdtL3PmuInit ⟨fun _ => ⟨0#64, 0#32, 0#32⟩, []⟩) 0#64) 1#64 1#64
        (scrFdtL3PmuInit ⟨fun _ => ⟨0#64, 0#32, 0#32⟩, []⟩)
        (mcallExtL3Pmu L3Hw.sample (scrFdtL3PmuInit ⟨fun _ => ⟨0#64, 0#32, 0#32⟩, []⟩)
          (.cfgMatch 1#64 1#64 0#64 1#64 0x100#64)) := by
  constructor
  · intro h
    have hreq := h.1 (by decide +kernel)
    rw [requested_iff_shl (by decide) (by decide +kernel)] at hreq
    revert hreq
    decide +kernel
  · intro h
    have hreq := h.1 (by decide +kernel)
    rw [requested_iff_shl (by decide) (by decide +kernel)] at hreq
    revert hreq
    decide +kernel

end ScBl
