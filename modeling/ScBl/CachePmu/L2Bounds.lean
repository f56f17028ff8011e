import ScBl.CachePmu.CfgMatch

/-!
# L2 PMU calls and the counter block

`sbi_l2_pmu_ctr_start` and `sbi_l2_pmu_ctr_stop` loop below the number of
counters, and so stay inside the table and the block whatever they are called
with. `SKIP_MATCH` uses its base as an index after a check of the shifted mask,
which says nothing about the base, and `sbi_l2_pmu_hw_ctr_read` checks nothing
(`l2_in_block_iff`).
-/

namespace ScBl

open Loops Runs CachePmu

/-- The addresses of the block of four counters. -/
def L2Hw.Register (hw : L2Hw) (addr : U64) : Prop :=
  ∃ c : ℕ, c < 4 ∧ ∃ off ∈ [0x0#64, 0x8#64, 0xc#64],
    addr = hw.l2CacheAddr + 0x400#64 + 16#64 * BitVec.ofNat 64 c + off

/-- An access inside the table or the block. -/
def L2Hw.InBlock (hw : L2Hw) : CacheAccess → Prop
  | .activeEvents index => index < 4
  | .read addr => hw.Register addr
  | .write addr _ => hw.Register addr

/-- The call does not bring an unchecked index past the table. -/
def L2Call.KeepsBlock (hw : L2Hw) : L2Call → Prop
  | .cfgMatch cidxBase cidxMask flags eventIdx data1 =>
    ¬ hw.RefusesCfgMatch cidxBase cidxMask eventIdx data1 →
      hasFlag flags sbiPmuCfgFlagSkipMatch → cidxBase.toNat < 4
  | .start .. | .stop .. => True
  | .hwCtrRead cidx => cidx.toNat % 2 ^ 28 < 4

variable {hw : L2Hw} {s : L2Pmu}

/-- The shift in `uint32_t` drops the upper four bits of the index. -/
theorem cidx_shiftLeft (cidx : U32) :
    (cidx <<< 4).setWidth 64 = 16#64 * BitVec.ofNat 64 (cidx.toNat % 2 ^ 28) := by
  apply BitVec.eq_of_toNat_eq
  simp only [BitVec.toNat_setWidth, BitVec.toNat_shiftLeft, BitVec.toNat_mul, BitVec.toNat_ofNat,
    Nat.shiftLeft_eq]
  omega

/-- The address computation stays in the block for indices that are below 4
without those bits. -/
theorem register_getCidxAddr (hw : L2Hw) (cidx : U32) {off : U64}
    (hoff : off ∈ [0x0#64, 0x8#64, 0xc#64]) :
    hw.Register (getCidxAddr hw.l2CacheAddr off cidx) ↔ cidx.toNat % 2 ^ 28 < 4 := by
  rw [getCidxAddr, cidx_shiftLeft]
  constructor
  · rintro ⟨c, hc, off', hoff', heq⟩
    have hsum : off + 16#64 * BitVec.ofNat 64 (cidx.toNat % 2 ^ 28) =
        16#64 * BitVec.ofNat 64 c + off' := by
      rw [add_assoc _ off, add_assoc _ _ off'] at heq
      exact add_left_cancel heq
    have hlt' : 0 < 2 ^ 28 := by decide
    have hlt := Nat.mod_lt cidx.toNat hlt'
    have hnat := congrArg BitVec.toNat hsum
    simp only [BitVec.toNat_add, BitVec.toNat_mul, BitVec.toNat_ofNat] at hnat
    simp only [List.mem_cons, List.not_mem_nil, or_false] at hoff hoff'
    rcases hoff with rfl | rfl | rfl <;> rcases hoff' with rfl | rfl | rfl <;>
      simp only [BitVec.toNat_ofNat] at hnat <;> omega
  · intro h
    refine ⟨cidx.toNat % 2 ^ 28, h, off, hoff, ?_⟩
    rw [add_assoc _ off, add_comm off, ← add_assoc]
    rfl

/-! ## The helpers -/

/-- All accesses so far are inside. -/
abbrev L2Hw.Inside (hw : L2Hw) (s : L2Pmu) : Prop := s.LogAll hw.InBlock

variable {cidx : U32} {ival flags : U64} {c : ℕ}

theorem inside_ctrWriteEvent :
    hw.Inside (scrL2PmuCtrWriteEvent hw cidx ival s) ↔ hw.Inside s ∧ cidx.toNat % 2 ^ 28 < 4 :=
  logAll_writel.trans (and_congr_right fun _ => register_getCidxAddr hw cidx (by decide))

theorem inside_ctrWriteHw :
    hw.Inside (scrL2PmuCtrWriteHw hw cidx ival s) ↔ hw.Inside s ∧ cidx.toNat % 2 ^ 28 < 4 := by
  have hlow := register_getCidxAddr hw cidx (show scrL2CtrLow ∈ _ by decide)
  have hhigh := register_getCidxAddr hw cidx (show scrL2CtrHigh ∈ _ by decide)
  simp only [scrL2PmuCtrWriteHw, L2Hw.Inside, logAll_writel, L2Hw.InBlock, hlow, hhigh, and_assoc,
    and_self]

/-- An index of the table stays in the block. -/
theorem ofNat_keeps (hc : c < 4) : (BitVec.ofNat 32 c).toNat % 2 ^ 28 < 4 := by
  rw [BitVec.toNat_ofNat]
  omega

theorem inside_ctrStartHw {ivalUpdate : Prop} [Decidable ivalUpdate] (hc : c < 4) :
    hw.Inside (scrL2PmuCtrStartHw hw (BitVec.ofNat 32 c) ival ivalUpdate s) ↔ hw.Inside s := by
  rw [scrL2PmuCtrStartHw]
  split_ifs
  · exact inside_ctrWriteHw.trans (and_iff_left (ofNat_keeps hc))
  · exact Iff.rfl

theorem inside_resetEvent (hc : c < 4) :
    hw.Inside (scrL2PmuResetEvent hw c s) ↔ hw.Inside s := by
  rw [scrL2PmuResetEvent, if_neg (by unfold scrL2PmuCtrNum; omega)]
  exact inside_ctrWriteEvent.trans (and_iff_left (ofNat_keeps hc))

theorem inside_validate : hw.Inside (pmuCtrValidate hw c s).2 ↔ hw.Inside s := by
  by_cases hc : scrL2PmuCtrNum ≤ c
  · rw [pmuCtrValidate, if_pos hc]
  · have hread : hw.Inside (s.readActive c) ↔ hw.Inside s :=
      logAll_readActive.trans (and_iff_left (Nat.lt_of_not_le hc))
    rw [pmuCtrValidate, if_neg hc]
    simp only
    split_ifs <;> exact hread

theorem inside_read :
    hw.Inside (scrL2PmuRead hw cidx s).2 ↔ hw.Inside s ∧ cidx.toNat % 2 ^ 28 < 4 := by
  have hlow := register_getCidxAddr hw cidx (show scrL2CtrLow ∈ _ by decide)
  have hhigh := register_getCidxAddr hw cidx (show scrL2CtrHigh ∈ _ by decide)
  simp only [scrL2PmuRead]
  split_ifs <;>
    simp only [L2Hw.Inside, logAll_readl, L2Hw.InBlock, hlow, hhigh, and_assoc, and_self]

/-- Looking at the table. -/
theorem inside_readTable {n : ℕ} (hn : n ≤ 4) : hw.Inside (readTable n s) ↔ hw.Inside s := by
  induction n with
  | zero => rw [readTable_zero]
  | succ n ih =>
    rw [readTable_succ]
    exact (logAll_readActive.trans (and_iff_left hn)).trans (ih (Nat.le_of_succ_le hn))

/-! ## The calls -/

theorem inside_skipMatch {ctrIdx : U32} :
    hw.Inside (l2SkipMatch hw flags ctrIdx s).2.2 ↔
      hw.Inside s ∧ (hasFlag flags sbiPmuCfgFlagClearValue → ctrIdx.toNat % 2 ^ 28 < 4) := by
  rw [l2SkipMatch, scrL2PmuCtrStartHw]
  simp only [if_false, ite_self]
  split_ifs with hclear
  · simpa [hclear] using inside_ctrWriteHw
  · simp [hclear]

theorem inside_cfgMatch {cidxBase cidxMask eventIdx data1 : U64} :
    hw.Inside (sbiL2PmuCtrCfgMatch hw cidxBase cidxMask flags eventIdx data1 s).2.2 ↔
      hw.Inside s ∧ (L2Call.cfgMatch cidxBase cidxMask flags eventIdx data1).KeepsBlock hw := by
  have h := sbiL2PmuCtrCfgMatch_spec hw s cidxBase cidxMask flags eventIdx data1
  generalize sbiL2PmuCtrCfgMatch hw cidxBase cidxMask flags eventIdx data1 s = r at h ⊢
  rw [L2Call.KeepsBlock]
  cases h with
  | refused href => exact (and_iff_left fun hok => absurd href hok).symm
  | skipFree hok hskip _ =>
    rw [imp_iff_right hok, imp_iff_right hskip]
    exact logAll_readActive
  | skip hok hskip _ =>
    -- the base is the index
    have hread : hw.Inside (s.readActive cidxBase.toNat) ↔ hw.Inside s ∧ cidxBase.toNat < 4 :=
      logAll_readActive
    have hkeeps : cidxBase.toNat < 4 → (cidxBase.setWidth 32).toNat % 2 ^ 28 < 4 := by
      rw [BitVec.toNat_setWidth]
      omega
    rw [imp_iff_right hok, imp_iff_right hskip, inside_skipMatch, hread]
    exact and_iff_left_of_imp fun h _ => hkeeps h.2
  | noEvent _ hmatch _ => exact (and_iff_left fun _ hskip => absurd hskip hmatch).symm
  | full _ hmatch _ _ =>
    rw [and_iff_left fun _ hskip => absurd hskip hmatch]
    exact inside_readTable (le_refl 4)
  | found _ hmatch _ c hc =>
    rw [and_iff_left fun _ hskip => absurd hskip hmatch, inside_skipMatch,
      and_iff_left fun _ => ofNat_keeps hc.lt]
    refine (logAll_writeActive.trans (and_iff_left hc.lt)).trans ?_
    exact (inside_ctrWriteEvent.trans (and_iff_left (ofNat_keeps hc.lt))).trans
      (inside_readTable (le_refl 4))

theorem inside_start {cbase cmask data1 : U64} :
    hw.Inside (sbiL2PmuCtrStart hw cbase cmask flags data1 s).2.2 ↔ hw.Inside s := by
  simp only [sbiL2PmuCtrStart_eq]
  split_ifs
  · refine runUntil_inv (fun t : ℤ × L2Pmu => hw.Inside t.2 ↔ hw.Inside s)
      (fun b hb t ht => ?_) Iff.rfl
    have hb4 : b < 4 := (mem_indicesIn.mp hb).2.1
    simp only [l2StartBody]
    split_ifs
    · exact inside_validate.trans ht
    · exact ((inside_ctrStartHw hb4).trans inside_validate).trans ht
  · exact Iff.rfl

theorem inside_stop {cbase cmask : U64} :
    hw.Inside (sbiL2PmuCtrStop hw cbase cmask flags s).2.2 ↔ hw.Inside s := by
  simp only [sbiL2PmuCtrStop_eq]
  split_ifs
  · refine runUntil_inv (fun t : L2Pmu => hw.Inside t ↔ hw.Inside s)
      (fun b hb t ht => ?_) Iff.rfl
    have hb4 : b < 4 := (mem_indicesIn.mp hb).2.1
    simp only [l2StopBody]
    split_ifs
    · exact inside_validate.trans ht
    · rw [inside_resetEvent hb4]
      exact (logAll_writeActive.trans (and_iff_left hb4)).trans (inside_validate.trans ht)
    · exact inside_validate.trans ht
  · exact Iff.rfl

/-- **One call** stays inside exactly when it keeps its index in the table. -/
theorem inside_next (hw : L2Hw) (s : L2Pmu) (c : L2Call) :
    hw.Inside (hw.next s c) ↔ hw.Inside s ∧ c.KeepsBlock hw := by
  cases c with
  | cfgMatch cidxBase cidxMask flags eventIdx data1 => exact inside_cfgMatch
  | start cbase cmask flags data1 => exact inside_start.trans (and_iff_left trivial).symm
  | stop cbase cmask flags => exact inside_stop.trans (and_iff_left trivial).symm
  | hwCtrRead cidx =>
    refine inside_read.trans (and_congr_right fun _ => ?_)
    rw [L2Call.KeepsBlock, BitVec.toNat_setWidth]
    omega

/-- **The L2 block.** From any table, a history of calls makes accesses inside the
table and the counter block only, exactly when no call of it brings an unchecked
index past the table. -/
theorem l2_in_block_iff (hw : L2Hw) (s : L2Pmu) (calls : List L2Call) :
    hw.Inside (run hw.next s calls) ↔ hw.Inside s ∧ ∀ c ∈ calls, c.KeepsBlock hw := by
  refine (good_run_iff (fun _ => True) (C := fun _ c => c.KeepsBlock hw)
    (fun _ _ _ => trivial) (fun s c _ => inside_next hw s c) trivial).trans ?_
  rw [eachStep_const_iff]

/-- An L2 cache of version 2 whose registers read zero. -/
def L2Hw.sample : L2Hw where
  l2CacheAddr := 0x10000000#64
  scrVid := 0x24062001#32
  dev := fun _ _ => 0#64

/-- Right after `scr_fdt_l2_pmu_init`, reading counter 4 reads past the block. -/
theorem hwCtrRead_four_leaves_block :
    ¬ L2Hw.sample.Inside (run L2Hw.sample.next
      (scrFdtL2PmuInit { activeEvents := fun _ => 0#32, log := [] }) [.hwCtrRead 4#64]) := by
  intro hinside
  have hkeeps : 4 % 2 ^ 28 < 4 := ((inside_next _ _ _).mp hinside).2
  exact absurd hkeeps (by decide)

end ScBl
