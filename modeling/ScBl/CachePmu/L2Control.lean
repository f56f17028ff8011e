import ScBl.CachePmu.L2Alloc

/-!
# The control registers of the L2 counters

A counter counts what its control register selects: an event in bits 3..0, banks in
bits 19..16. `sbi_l2_pmu_ctr_cfg_match` ors the caller's data word in whole, and of
the event index it keeps four bits, so that the register has what was asked for
exactly if the data word has banks only and the index has four bits
(`l2_programming_iff`).
-/

namespace ScBl

open Loops Runs CachePmu Words

/-! ## Writes to the control registers -/

/-- The control register of counter `c`. -/
def L2Hw.controlAddr (hw : L2Hw) (c : ℕ) : U64 :=
  getCidxAddr hw.l2CacheAddr 0x0#64 (BitVec.ofNat 32 c)

variable {hw : L2Hw} {s : L2Pmu} {c i : ℕ} {cidx : U32} {ival val flags : U64}

/-- Registers are different if their offsets or their indices are. -/
theorem getCidxAddr_ne {off off' : U64} {cidx' : U32} (hoff : off.toNat < 16)
    (hoff' : off'.toNat < 16)
    (hne : off.toNat ≠ off'.toNat ∨ cidx.toNat % 2 ^ 28 ≠ cidx'.toNat % 2 ^ 28) (x : U64) :
    getCidxAddr x off cidx ≠ getCidxAddr x off' cidx' := by
  intro heq
  rw [getCidxAddr, getCidxAddr, cidx_shiftLeft, cidx_shiftLeft, add_assoc _ off, add_assoc _ off']
    at heq
  have hsum := congrArg BitVec.toNat (add_left_cancel heq)
  simp only [BitVec.toNat_add, BitVec.toNat_mul, BitVec.toNat_ofNat] at hsum
  omega

theorem controlAddr_ne (hc : c < 4) (hi : i < 4) (hne : i ≠ c) :
    hw.controlAddr i ≠ hw.controlAddr c := by
  refine getCidxAddr_ne (by decide) (by decide) (.inr ?_) _
  rw [BitVec.toNat_ofNat, BitVec.toNat_ofNat]
  omega

/-- The counter registers are no control registers. -/
theorem counterAddr_ne :
    getCidxAddr hw.l2CacheAddr scrL2CtrLow cidx ≠ hw.controlAddr c ∧
      getCidxAddr hw.l2CacheAddr scrL2CtrHigh cidx ≠ hw.controlAddr c :=
  ⟨getCidxAddr_ne (by decide) (by decide) (.inl (by decide)) _,
    getCidxAddr_ne (by decide) (by decide) (.inl (by decide)) _⟩

@[simp] theorem writesTo_ctrWriteHw :
    writesTo (hw.controlAddr c) (scrL2PmuCtrWriteHw hw cidx ival s).log =
      writesTo (hw.controlAddr c) s.log := by
  rw [scrL2PmuCtrWriteHw, writesTo_writel counterAddr_ne.2, writesTo_writel counterAddr_ne.1]

@[simp] theorem writesTo_ctrStartHw {ivalUpdate : Prop} [Decidable ivalUpdate] :
    writesTo (hw.controlAddr c) (scrL2PmuCtrStartHw hw cidx ival ivalUpdate s).log =
      writesTo (hw.controlAddr c) s.log := by
  rw [scrL2PmuCtrStartHw]
  split_ifs
  · exact writesTo_ctrWriteHw
  · rfl

@[simp] theorem writesTo_skipMatch :
    writesTo (hw.controlAddr c) (l2SkipMatch hw flags cidx s).2.2.log =
      writesTo (hw.controlAddr c) s.log := by
  rw [l2SkipMatch]
  simp only
  split_ifs <;> simp

theorem writesTo_ctrWriteEvent_self :
    writesTo (hw.controlAddr c) (scrL2PmuCtrWriteEvent hw (BitVec.ofNat 32 c) ival s).log =
      writesTo (hw.controlAddr c) s.log ++ [ival &&& 0xFFFFFFFF#64] :=
  writesTo_writel_self

theorem writesTo_ctrWriteEvent_of_ne (hc : c < 4) (hi : i < 4) (hne : i ≠ c) :
    writesTo (hw.controlAddr c) (scrL2PmuCtrWriteEvent hw (BitVec.ofNat 32 i) ival s).log =
      writesTo (hw.controlAddr c) s.log :=
  writesTo_writel (controlAddr_ne hc hi hne)

/-! ## Programming an event -/

/-- The arguments of `sbi_l2_pmu_ctr_cfg_match`. -/
structure L2CfgMatch where
  cidxBase : U64
  cidxMask : U64
  flags : U64
  eventIdx : U64
  data1 : U64
  deriving DecidableEq, Repr

namespace L2CfgMatch

variable (hw : L2Hw) (s : L2Pmu) (a : L2CfgMatch)

/-- The call itself. -/
def call : L2Call := .cfgMatch a.cidxBase a.cidxMask a.flags a.eventIdx a.data1

/-- The call succeeds and takes a counter. -/
def Accepted : Prop :=
  (mcallExtL2Pmu hw s a.call).1 = sbiErrorSuccess ∧ ¬ hasFlag a.flags sbiPmuCfgFlagSkipMatch

/-- The call writes `v`, and nothing else, to the control register of the counter
that it returns. -/
def Writes (v : U64) : Prop :=
  writesTo (hw.controlAddr (mcallExtL2Pmu hw s a.call).2.1.toNat) (hw.next s a.call).log =
    writesTo (hw.controlAddr (mcallExtL2Pmu hw s a.call).2.1.toNat) s.log ++ [v]

/-- The register value for the event `eventIdx` in the banks of `data1`. -/
structure Encodes (v : U64) : Prop where
  /-- `19..16 BANK` -/
  banks : ∀ i, 16 ≤ i → i < 20 → v.getLsbD i = a.data1.getLsbD i
  /-- `31..20 RSV` -/
  reserved : ∀ i, 20 ≤ i → i < 32 → v.getLsbD i = false
  /-- `15..4 RSV` -/
  between : ∀ i, 4 ≤ i → i < 16 → v.getLsbD i = false
  /-- `3..0 PCE` -/
  selector : l2EventType v = a.eventIdx

/-- An accepted call programs its event. -/
def Faithful : Prop := a.Accepted hw s → ∃ v, a.Writes hw s v ∧ a.Encodes v

/-- The checks let the call through, and a counter is free. -/
def Passes : Prop :=
  ¬ hw.RefusesCfgMatch a.cidxBase a.cidxMask a.eventIdx a.data1 ∧
    ¬ hasFlag a.flags sbiPmuCfgFlagSkipMatch ∧ a.eventIdx.toNat < hw.scrL2CacheEvents ∧
    ¬ L2AllBusy s

instance : Decidable (a.Passes hw s) := inferInstanceAs (Decidable (_ ∧ _))

/-- The event index has four bits, and the low half of the data word has no bits but
banks and bits of the index. -/
structure Clean : Prop where
  eventIdx_lt : a.eventIdx.toNat < 16
  reserved : ∀ i, 20 ≤ i → i < 32 → a.data1.getLsbD i = false
  between : ∀ i, 4 ≤ i → i < 16 → a.data1.getLsbD i = false
  selector : ∀ i, i < 4 → a.data1.getLsbD i = true → a.eventIdx.getLsbD i = true

/-- What is written. -/
def programmed : U64 := (a.data1 ||| l2EventType a.eventIdx) &&& 0xFFFFFFFF#64

variable {hw s a}

theorem getLsbD_l2EventType (x : U64) (i : ℕ) :
    (l2EventType x).getLsbD i = (x.getLsbD i && decide (i < 4)) := by
  have hmask : genmask 3 0 = BitVec.ofNat 64 (2 ^ 4 - 1) := by decide
  rw [l2EventType, hmask, BitVec.getLsbD_and, getLsbD_lowMask]
  by_cases hi : i < 64
  · simp [hi]
  · simp [BitVec.getLsbD_of_ge x i (by omega)]

theorem getLsbD_programmed (i : ℕ) :
    a.programmed.getLsbD i =
      (decide (i < 32) && (a.data1.getLsbD i || (a.eventIdx.getLsbD i && decide (i < 4)))) := by
  have hmask : 0xFFFFFFFF#64 = BitVec.ofNat 64 (2 ^ 32 - 1) := by decide
  rw [programmed, hmask, BitVec.getLsbD_and, BitVec.getLsbD_or, getLsbD_l2EventType,
    getLsbD_lowMask, Bool.and_comm]
  by_cases hi : i < 32
  · have hi64 : i < 64 := by omega
    simp [hi, hi64]
  · simp [hi]

/-- A word below `2 ^ k` has no bit from `k` on. -/
theorem getLsbD_of_toNat_lt {x : U64} {k : ℕ} (hx : x.toNat < 2 ^ k) (hi : k ≤ i) :
    x.getLsbD i = false := by
  refine Nat.testBit_lt_two_pow (Nat.lt_of_lt_of_le hx ?_)
  exact Nat.pow_le_pow_right (by decide) hi

theorem toNat_lt_iff {x : U64} {k : ℕ} :
    x.toNat < 2 ^ k ↔ ∀ i, k ≤ i → x.getLsbD i = false :=
  ⟨fun hx _ hi => getLsbD_of_toNat_lt hx hi, fun h => Nat.lt_pow_two_of_testBit _ h⟩

/-- The selector is the event index if the index has four bits and the data word adds
none to them. -/
theorem selector_programmed_iff :
    l2EventType a.programmed = a.eventIdx ↔
      a.eventIdx.toNat < 16 ∧
        ∀ i, i < 4 → a.data1.getLsbD i = true → a.eventIdx.getLsbD i = true := by
  have hbit : ∀ i, (l2EventType a.programmed).getLsbD i =
      ((a.data1.getLsbD i || a.eventIdx.getLsbD i) && decide (i < 4)) := by
    intro i
    rw [getLsbD_l2EventType, getLsbD_programmed]
    by_cases hi : i < 4
    · have hi32 : i < 32 := by omega
      simp [hi, hi32]
    · simp [hi]
  constructor
  · intro heq
    rw [heq] at hbit
    refine ⟨(toNat_lt_iff (k := 4)).mpr fun i hi => ?_, fun i hi hdata => ?_⟩
    · rw [hbit, decide_eq_false (Nat.not_lt.mpr hi), Bool.and_false]
    · rw [hbit, hdata, Bool.true_or, decide_eq_true hi, Bool.and_self]
  · rintro ⟨hlt, hsub⟩
    apply BitVec.eq_of_getLsbD_eq
    intro i _
    rw [hbit]
    by_cases hi : i < 4
    · rw [decide_eq_true hi, Bool.and_true]
      cases hdata : a.data1.getLsbD i
      · rw [Bool.false_or]
      · rw [hsub i hi hdata, Bool.true_or]
    · rw [decide_eq_false hi, Bool.and_false, getLsbD_of_toNat_lt hlt (Nat.not_lt.mp hi)]

/-- What is written encodes the event if the arguments are clean: the index has four bits, and the
data word has banks and nothing else. The code ors both in as they are. -/
theorem encodes_programmed_iff : a.Encodes a.programmed ↔ a.Clean := by
  have hhigh : ∀ i, 4 ≤ i → i < 32 → a.programmed.getLsbD i = a.data1.getLsbD i := by
    intro i hi hi32
    have hi4 : ¬ i < 4 := Nat.not_lt.mpr hi
    rw [getLsbD_programmed]
    simp [hi4, hi32]
  constructor
  · rintro ⟨_, hreserved, hbetween, hselector⟩
    obtain ⟨hlt, hsub⟩ := selector_programmed_iff.mp hselector
    refine ⟨hlt, fun i hi hi' => ?_, fun i hi hi' => ?_, hsub⟩
    · exact (hhigh i (by omega) hi').symm.trans (hreserved i hi hi')
    · exact (hhigh i hi (by omega)).symm.trans (hbetween i hi hi')
  · rintro ⟨hlt, hreserved, hbetween, hsub⟩
    refine ⟨fun i hi hi' => hhigh i (by omega) (by omega), fun i hi hi' => ?_, fun i hi hi' => ?_,
      selector_programmed_iff.mpr ⟨hlt, hsub⟩⟩
    · exact (hhigh i (by omega) hi').trans (hreserved i hi hi')
    · exact (hhigh i hi (by omega)).trans (hbetween i hi hi')

/-- An accepted call has passed the checks, and writes the programmed value. -/
theorem accepted_iff : a.Accepted hw s ↔ a.Passes hw s := by
  have h := sbiL2PmuCtrCfgMatch_spec hw s a.cidxBase a.cidxMask a.flags a.eventIdx a.data1
  have hinvalid : sbiErrorInvalidParam ≠ sbiErrorSuccess := by decide
  have hunsupported : sbiErrorNotSupported ≠ sbiErrorSuccess := by decide
  rw [Accepted, call, mcallExtL2Pmu, Passes]
  generalize sbiL2PmuCtrCfgMatch hw a.cidxBase a.cidxMask a.flags a.eventIdx a.data1 s = r at h ⊢
  cases h with
  | refused href => exact iff_of_false (fun h => hinvalid h.1) (fun h => h.1 href)
  | skipFree _ hskip | skip _ hskip =>
    exact iff_of_false (fun h => h.2 hskip) (fun h => h.2.1 hskip)
  | noEvent _ _ hevent =>
    exact iff_of_false (fun h => hunsupported h.1) (fun h => Nat.not_lt.mpr hevent h.2.2.1)
  | full _ _ _ hbusy => exact iff_of_false (fun h => hunsupported h.1) (fun h => h.2.2.2 hbusy)
  | found hok hmatch hevent c hc =>
    exact iff_of_true ⟨rfl, hmatch⟩ ⟨hok, hmatch, hevent, fun hbusy => hbusy c hc.lt hc.free⟩

theorem writesTo_programL2 (hw : L2Hw) (s : L2Pmu) (hc : c < 4) (hi : i < 4)
    (eventIdx data1 : U64) :
    writesTo (hw.controlAddr c) (programL2 hw s eventIdx data1 i).log =
      writesTo (hw.controlAddr c) s.log ++
        if i = c then [(data1 ||| l2EventType eventIdx) &&& 0xFFFFFFFF#64] else [] := by
  rw [programL2, writesTo_writeActive]
  split_ifs with hic
  · subst hic
    rw [writesTo_ctrWriteEvent_self, writesTo_readTable]
  · rw [writesTo_ctrWriteEvent_of_ne hc hi hic, writesTo_readTable, List.append_nil]

theorem writes_iff (h : a.Accepted hw s) {v : U64} : a.Writes hw s v ↔ v = a.programmed := by
  obtain ⟨hok, hmatch, hevent, hbusy⟩ := accepted_iff.mp h
  have hspec := sbiL2PmuCtrCfgMatch_spec hw s a.cidxBase a.cidxMask a.flags a.eventIdx a.data1
  rw [Writes, L2Hw.next, call, mcallExtL2Pmu]
  generalize sbiL2PmuCtrCfgMatch hw a.cidxBase a.cidxMask a.flags a.eventIdx a.data1 s = r
    at hspec ⊢
  cases hspec with
  | refused href => exact absurd href hok
  | skipFree _ hskip | skip _ hskip => exact absurd hskip hmatch
  | noEvent _ _ hnone => exact absurd hevent (Nat.not_lt.mpr hnone)
  | full _ _ _ hfull => exact absurd hfull hbusy
  | found _ _ _ c hc =>
    have hout : (l2SkipMatch hw a.flags (BitVec.ofNat 32 c)
        (programL2 hw s a.eventIdx a.data1 c)).2.1.toNat = c := by
      have hlt := hc.lt
      rw [l2SkipMatch, signExtend_ofNat hc.lt, BitVec.toNat_ofNat]
      omega
    rw [hout, writesTo_skipMatch, writesTo_programL2 hw s hc.lt hc.lt, if_pos rfl,
      List.append_cancel_left_eq, List.cons_eq_cons, and_iff_left rfl]
    exact eq_comm

/-- **One call** programs its event exactly if it is refused or its arguments are
clean. -/
theorem faithful_iff : a.Faithful hw s ↔ (a.Passes hw s → a.Clean) := by
  rw [Faithful, ← accepted_iff]
  refine imp_congr_right fun h => ?_
  simp only [writes_iff h, exists_eq_left]
  exact encodes_programmed_iff

end L2CfgMatch

/-- **L2 event programming.** Two calls, from any states, program their events, and
different values for different events in the same banks, exactly if each of them is
refused or has a four-bit index and a data word of banks only. -/
theorem l2_programming_iff (hw : L2Hw) (s₁ s₂ : L2Pmu) (a₁ a₂ : L2CfgMatch) :
    (a₁.Faithful hw s₁ ∧ a₂.Faithful hw s₂ ∧
      (a₁.Accepted hw s₁ → a₂.Accepted hw s₂ → a₁.eventIdx ≠ a₂.eventIdx →
        scrL2BanksNum a₁.data1 = scrL2BanksNum a₂.data1 →
          ∀ v, ¬ (a₁.Writes hw s₁ v ∧ a₂.Writes hw s₂ v))) ↔
      (a₁.Passes hw s₁ → a₁.Clean) ∧ (a₂.Passes hw s₂ → a₂.Clean) := by
  rw [← and_assoc, L2CfgMatch.faithful_iff, L2CfgMatch.faithful_iff, and_iff_left_iff_imp]
  rintro ⟨hclean₁, hclean₂⟩ hacc₁ hacc₂ hne _ v ⟨hw₁, hw₂⟩
  -- both selectors are read off the same value
  have h₁ := hclean₁ (L2CfgMatch.accepted_iff.mp hacc₁)
  have h₂ := hclean₂ (L2CfgMatch.accepted_iff.mp hacc₂)
  rw [← L2CfgMatch.encodes_programmed_iff, ← (L2CfgMatch.writes_iff hacc₁).mp hw₁] at h₁
  rw [← L2CfgMatch.encodes_programmed_iff, ← (L2CfgMatch.writes_iff hacc₂).mp hw₂] at h₂
  exact hne (h₁.selector.symm.trans h₂.selector)

/-- With version 2, event 16 is programmed as event 0. -/
theorem event_sixteen_programs_zero :
    ¬ L2CfgMatch.Faithful L2Hw.sample (scrFdtL2PmuInit ⟨fun _ => 0#32, []⟩)
        ⟨0#64, 1#64, 0#64, 16#64, 0x10000#64⟩ ∧
      ∃ v, L2CfgMatch.Writes L2Hw.sample (scrFdtL2PmuInit ⟨fun _ => 0#32, []⟩)
          ⟨0#64, 1#64, 0#64, 16#64, 0x10000#64⟩ v ∧
        L2CfgMatch.Writes L2Hw.sample (scrFdtL2PmuInit ⟨fun _ => 0#32, []⟩)
          ⟨0#64, 1#64, 0#64, 0#64, 0x10000#64⟩ v := by
  refine ⟨fun hfaithful => ?_, 0x10000#64, ?_, ?_⟩
  · have hclean := L2CfgMatch.faithful_iff.mp hfaithful (by decide +kernel)
    exact absurd hclean.eventIdx_lt (by decide)
  · exact (L2CfgMatch.writes_iff (L2CfgMatch.accepted_iff.mpr (by decide +kernel))).mpr (by decide)
  · exact (L2CfgMatch.writes_iff (L2CfgMatch.accepted_iff.mpr (by decide +kernel))).mpr (by decide)

end ScBl
