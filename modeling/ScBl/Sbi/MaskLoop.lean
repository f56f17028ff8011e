import ScBl.Sbi.Dispatch

/-!
# The hart mask in assembly (`.Lipi_send_masked`)

The loop of the fast path goes from the last hart down to the first, and sends the
signals of the mask (`lipiSendMasked_spec`).
-/

namespace ScBl

open Rv

/-! ## What is to be sent -/

/-- The signal to hart `i`. -/
def SbiHart.signal (plf : SbiPlf) (s : SbiHart) (self i : ℕ) : SbiEffect :=
  if i = self then .setMip (1#64 <<< intSmSoftware)
  else
    s.ipiSendData plf ((s.ipiN (plf.hartTls i)).setWidth 32) (plf.packScipiMsg scrIpiCmdSignal)

/-- The signals to the harts of a mask among the first `n`. -/
def SbiHart.signals (plf : SbiPlf) (s : SbiHart) (self : ℕ) (mask : U64) (n : ℕ) :
    List SbiEffect :=
  ((List.range n).filter fun i => mask.getLsbD i).map (s.signal plf self)

/-! ## One receiver -/

variable {plf : SbiPlf} {s s₀ : SbiHart} {self k : ℕ} {mask : U64}

/-- The word of a signal, as the loop has it in `a1`. -/
def SbiHart.signalWord (plf : SbiPlf) (s : SbiHart) : U64 :=
  match plf.transport with
  | .csr => plf.packScipiMsg scrIpiCmdSignal <<< ((s.slotBitsShift.signExtend 64).toNat % 64)
  | .iccm => plf.packScipiMsg scrIpiCmdSignal

/-- A shift takes no more than the low bits of its amount. -/
theorem toNat_signExtend_mod (v : U32) : (v.signExtend 64).toNat % 64 = v.toNat % 64 :=
  Words.toNat_signExtend_mod (m := 6) v (by decide) (by decide)

/-- The offset of a buffer, computed in 64 bits and as an `unsigned`. -/
theorem shiftLeft_slot (r : U8) : r.setWidth 64 <<< 2 = (r.setWidth 32 * 4#32).setWidth 64 := by
  refine BitVec.eq_of_toNat_eq ?_
  have hr := r.isLt
  simp only [BitVec.toNat_setWidth, BitVec.toNat_shiftLeft, BitVec.toNat_mul, BitVec.toNat_ofNat,
    Nat.shiftLeft_eq]
  omega

/-- `ipi_send_wait` sends what `ipi_send_data` does, and spares `a1` to `a3` and `sp`. -/
theorem ipiSendWait_spec {r : U8} (ha0 : s.x.get .a0 = r.setWidth 64)
    (ha1 : s.x.get .a1 = s.signalWord plf) :
    ∃ x, s.ipiSendWait plf =
        { s with
          x := x
          effects := s.effects ++
            [s.ipiSendData plf (r.setWidth 32) (plf.packScipiMsg scrIpiCmdSignal)] } ∧
      x.get .a1 = s.x.get .a1 ∧ x.get .a2 = s.x.get .a2 ∧ x.get .a3 = s.x.get .a3 ∧
      x.get .sp = s.x.get .sp := by
  rw [SbiHart.ipiSendWait, SbiHart.ipiSendData]
  rw [SbiHart.signalWord] at ha1
  cases htransport : plf.transport with
  | csr =>
    simp only [htransport, toNat_signExtend_mod] at ha1 ⊢
    refine ⟨s.x.li .a0 0#64, ?_, ?_, ?_, ?_, ?_⟩
    · simp [SbiHart.effect, SbiHart.exec, RegFile.li, ha0, ha1]
    all_goals simp [RegFile.li]
  | iccm =>
    simp only [htransport] at ha1 ⊢
    refine ⟨_, congrArg (SbiHart.effect _) (congrArg₂ SbiEffect.post ?_ ?_), ?_, ?_, ?_, ?_⟩
    · simp only [SbiHart.exec, SbiHart.loadIpiN, RegFile.li, RegFile.slli, RegFile.add, RegFile.sll]
      simp [ha0, shiftLeft_slot]
    all_goals simp [SbiHart.exec, SbiHart.loadIpiN, RegFile.li, RegFile.slli, RegFile.add,
      RegFile.sll, ha1]

/-! ## Storage addresses -/

theorem SbiPlf.hlsize_eq (plf : SbiPlf) : plf.hlsize = BitVec.ofNat 64 (2 ^ plf.hlshift) := by
  rw [hlsize, hlshift]
  split_ifs <;> rfl

theorem SbiPlf.hartTls_eq (plf : SbiPlf) (i : ℕ) :
    plf.hartTls i = plf.tls0Base - BitVec.ofNat 64 (i * 2 ^ plf.hlshift) := by
  rw [hartTls, hlsize_eq, ← BitVec.ofNat_mul]

theorem hartTls_succ (plf : SbiPlf) (k : ℕ) :
    plf.hartTls (k + 1) + plf.hlsize = plf.hartTls k := by
  rw [SbiPlf.hartTls_eq, SbiPlf.hartTls_eq, SbiPlf.hlsize_eq, Words.sub_ofNat_succ_mul]

theorem hartTls_inj {i j : ℕ} (hi : i < 64) (hj : j < 64) :
    plf.hartTls i = plf.hartTls j ↔ i = j := by
  have hfits : ∀ k < 64, k * 2 ^ plf.hlshift < 2 ^ 64 := by
    intro k hk
    rw [SbiPlf.hlshift]
    split_ifs <;> omega
  rw [SbiPlf.hartTls_eq, SbiPlf.hartTls_eq]
  exact Words.sub_ofNat_mul_inj (Nat.two_pow_pos _) (hfits i hi) (hfits j hj)

/-! ## The loop -/

/-- At the head of the loop, with `k` harts to go. -/
structure SbiHart.AtRound (plf : SbiPlf) (s₀ : SbiHart) (own : ℕ) (mask : U64) (k : ℕ)
    (s : SbiHart) : Prop where
  frame : s = { s₀ with x := s.x, effects := s.effects }
  a1 : s.x.get .a1 = s₀.signalWord plf
  a2 : s.x.get .a2 = plf.hartTls k
  a3 : s.x.get .a3 = mask <<< (63 - k)
  sp : s.x.get .sp = plf.hartTls own

namespace SbiHart

/-- The registers of a round, where it tests the mask. -/
def maskTestRegs (plf : SbiPlf) (x : RegFile 64) : RegFile 64 :=
  ((x.slli .a3 .a3 1).li .a0 plf.hlsize).add .a2 .a2 .a0

theorem maskTestRegs_a2 (x : RegFile 64) :
    (maskTestRegs plf x).get .a2 = x.get .a2 + plf.hlsize := by
  simp [maskTestRegs, RegFile.add, RegFile.li, RegFile.slli]

theorem maskTestRegs_a3 (x : RegFile 64) : (maskTestRegs plf x).get .a3 = x.get .a3 <<< 1 := by
  simp [maskTestRegs, RegFile.add, RegFile.li, RegFile.slli]

theorem maskTestRegs_of_ne (x : RegFile 64) {r : IntReg} (h0 : r ≠ .a0) (h2 : r ≠ .a2)
    (h3 : r ≠ .a3) : (maskTestRegs plf x).get r = x.get r := by
  simp [maskTestRegs, RegFile.add, RegFile.li, RegFile.slli, h0, h2, h3]

/-- A round, from its test of the mask. -/
theorem lipiMaskRound_of_regs {x : RegFile 64} (hx : x = maskTestRegs plf s.x) :
    s.lipiMaskRound plf =
      if ¬ (x.get .a3).msb then { s with x := x }
      else if x.get .a2 = x.get .sp then
        { s with x := x, effects := s.effects ++ [.setMip (1#64 <<< intSmSoftware)] }
      else (loadIpiN { s with x := x } .a0 .a2).ipiSendWait plf := by
  rw [hx]
  rfl

/-- A round sends the signal to one hart of the mask, if its bit, which is the sign by now, is set.
The next round is about the hart before it. -/
theorem AtRound.round (h : AtRound plf s₀ self mask (k + 1) s) (hk : k < 63) (hself : self < 64) :
    AtRound plf s₀ self mask k (s.lipiMaskRound plf) ∧
      (s.lipiMaskRound plf).effects =
        s.effects ++ if mask.getLsbD k then [s₀.signal plf self k] else [] := by
  obtain ⟨hframe, ha1, ha2, ha3, hsp⟩ := h
  have hshift := Words.shiftLeft_sub_succ mask (Nat.succ_lt_succ hk)
  have hlt : k < 64 := by omega
  have hmsb := Words.msb_shiftLeft_sub mask hlt
  obtain ⟨x, hx⟩ : ∃ x, x = maskTestRegs plf s.x := ⟨_, rfl⟩
  have hx1 : x.get .a1 = s₀.signalWord plf := by
    rw [hx, maskTestRegs_of_ne _ (by decide) (by decide) (by decide), ha1]
  have hx2 : x.get .a2 = plf.hartTls k := by
    rw [hx, maskTestRegs_a2, ha2, hartTls_succ]
  have hx3 : x.get .a3 = mask <<< (63 - k) := by
    rw [hx, maskTestRegs_a3, ha3, hshift]
  have hxsp : x.get .sp = plf.hartTls self := by
    rw [hx, maskTestRegs_of_ne _ (by decide) (by decide) (by decide), hsp]
  rw [lipiMaskRound_of_regs hx, hx3, hmsb, hx2, hxsp]
  rcases hbit : mask.getLsbD k with _ | _
  · rw [if_pos Bool.false_ne_true]
    refine ⟨⟨?_, hx1, hx2, hx3, hxsp⟩, by simp⟩
    rw [hframe]
  · rw [if_neg (not_not.mpr rfl), if_pos rfl, signal]
    by_cases hown : k = self
    · rw [if_pos (hown ▸ rfl), if_pos hown]
      refine ⟨⟨?_, hx1, hx2, hx3, hxsp⟩, rfl⟩
      rw [hframe]
    · have hne : plf.hartTls k ≠ plf.hartTls self := by
        rwa [Ne, hartTls_inj (by omega) hself]
      rw [if_neg hne, if_neg hown]
      obtain ⟨y, hsend, hy1, hy2, hy3, hysp⟩ :=
        ipiSendWait_spec (s := loadIpiN { s with x := x } .a0 .a2)
          (r := s.ipiN (plf.hartTls k)) (by simp [loadIpiN, hx2]) (by
            rw [hframe]
            exact (RegFile.get_set_of_ne (by decide)).trans hx1)
      have hloaded : (loadIpiN { s with x := x } .a0 .a2).x =
          x.set .a0 ((s.ipiN (x.get .a2)).setWidth 64) := rfl
      rw [hloaded] at hy1 hy2 hy3 hysp
      rw [hsend]
      refine ⟨⟨?_, ?_, ?_, ?_, ?_⟩, ?_⟩
      · rw [hframe]
        rfl
      · exact hy1.trans (by simpa using hx1)
      · exact hy2.trans (by simpa using hx2)
      · exact hy3.trans (by simpa using hx3)
      · exact hysp.trans (by simpa using hxsp)
      · rw [hframe]
        rfl

/-- The last round finds no hart. -/
theorem AtRound.last (h : AtRound plf s₀ self mask 0 s) :
    ∃ x, s.lipiMaskRound plf = { s₀ with x := x, effects := s.effects } ∧ x.get .a3 = 0#64 ∧
      x.get .sp = plf.hartTls self := by
  obtain ⟨hframe, _, _, ha3, hsp⟩ := h
  have hx3 : (maskTestRegs plf s.x).get .a3 = 0#64 := by
    rw [maskTestRegs_a3, ha3, ← BitVec.shiftLeft_add]
    exact BitVec.shiftLeft_eq_zero (by decide)
  refine ⟨maskTestRegs plf s.x, ?_, hx3, ?_⟩
  · rw [lipiMaskRound_of_regs rfl, hx3, if_pos (by decide), hframe]
  · rw [maskTestRegs_of_ne _ (by decide) (by decide) (by decide), hsp]

/-- The signals of one hart more. -/
theorem signals_succ : s.signals plf self mask (k + 1) =
    s.signals plf self mask k ++ if mask.getLsbD k then [s.signal plf self k] else [] := by
  rw [signals, signals, List.range_succ, List.filter_append, List.map_append]
  rcases hbit : mask.getLsbD k with _ | _ <;> simp [hbit]

/-- A mask that is used up has no harts left. -/
theorem filter_range_eq_nil (hk : k < 64) (hzero : mask <<< (63 - k) = 0#64) :
    ((List.range k).filter fun i => mask.getLsbD i) = [] := by
  rw [List.filter_eq_nil_iff]
  intro i hi
  have hle : i ≤ k := (List.mem_range.mp hi).le
  rw [Words.getLsbD_of_shiftLeft_sub_eq_zero hk hzero hle]
  exact Bool.false_ne_true

/-- **The loop** sends the signals of the mask, the last hart first. By induction on the harts that
are left. -/
theorem lipiMaskLoop_spec (hself : self < 64) :
    ∀ {fuel k : ℕ} {s : SbiHart}, k < 64 → k < fuel → AtRound plf s₀ self mask k s →
      ∃ x, s.lipiMaskLoop plf fuel =
          { s₀ with x := x, effects := s.effects ++ (s₀.signals plf self mask k).reverse } ∧
        x.get .sp = plf.hartTls self := by
  intro fuel
  induction fuel with
  | zero =>
    intro k s _ hfuel
    omega
  | succ fuel ih =>
    intro k s hk hfuel h
    rw [lipiMaskLoop]
    cases k with
    | zero =>
      obtain ⟨x, hround, hx3, hxsp⟩ := h.last
      rw [hround, if_pos hx3]
      exact ⟨x, by simp [signals], hxsp⟩
    | succ k =>
      obtain ⟨hnext, heffects⟩ := h.round (by omega) hself
      have hsum : s.effects ++ (s₀.signals plf self mask (k + 1)).reverse =
          (s.lipiMaskRound plf).effects ++ (s₀.signals plf self mask k).reverse := by
        rw [heffects, signals_succ, List.reverse_append, List.append_assoc]
        rcases mask.getLsbD k with _ | _ <;> rfl
      rw [hsum]
      by_cases hzero : (s.lipiMaskRound plf).x.get .a3 = 0#64
      · rw [if_pos hzero]
        rw [hnext.a3] at hzero
        refine ⟨_, ?_, hnext.sp⟩
        rw [signals, filter_range_eq_nil (by omega) hzero, List.map_nil, List.reverse_nil,
          List.append_nil]
        exact hnext.frame
      · rw [if_neg hzero]
        exact ih (by omega) (by omega) hnext

/-! ## Before and after the loop -/

/-- The amount that brings the bit of the last hart next to the top. -/
theorem shift_amount (n : U32) :
    (-(n.signExtend 64 + (1#64 - 64#64))).toNat % 64 = 63 - n.toNat % 64 := by
  have hamount := Words.toNat_neg_add_one_sub_mod (w := 64) (by decide) (n.signExtend 64)
  rw [toNat_signExtend_mod] at hamount
  exact hamount

/-- The end of the storage. -/
theorem tls_end {n : U32} (hn : n.toNat < 64) :
    plf.tls0Base - (n.signExtend 64) <<< plf.hlshift = plf.hartTls n.toNat := by
  rw [SbiPlf.hartTls, SbiPlf.hlsize, Words.signExtend_of_lt (by omega),
    BitVec.shiftLeft_eq_mul_twoPow, BitVec.twoPow_eq]

@[simp] theorem mtrapScallRet_effects : s.mtrapScallRet.effects = s.effects := rfl

@[simp] theorem mtrapScallRet_mepc : s.mtrapScallRet.mepc = s.mepc + 4#64 := by
  simp [mtrapScallRet, swapSp, loadReg, exec, RegFile.li, RegFile.addi]

@[simp] theorem mtrapScallRet_a0 : s.mtrapScallRet.x.get .a0 = 0#64 := by
  simp [mtrapScallRet, swapSp, loadReg, exec, RegFile.li, RegFile.addi]

@[simp] theorem sbi02CallRetErr_effects : s.sbi02CallRetErr.effects = s.effects := rfl

@[simp] theorem sbi02CallRetErr_mepc : s.sbi02CallRetErr.mepc = s.mepc + 4#64 := by
  simp [sbi02CallRetErr, swapSp, loadReg, exec, RegFile.li, RegFile.addi]

@[simp] theorem sbi02CallRetErr_a0 : s.sbi02CallRetErr.x.get .a0 = -2#64 := by
  simp [sbi02CallRetErr, swapSp, loadReg, exec, RegFile.li, RegFile.addi]

/-- `.Lipi_send_masked`, up to the loop. -/
def lipiMaskStart (plf : SbiPlf) (s : SbiHart) : SbiHart :=
  let s := s.exec (·.li .a1 (BitVec.ofNat 64 scrIpiCmdSignal <<< plf.transport.sendCshift))
  let s :=
    match plf.transport with
    | .csr =>
      let s := s.exec (·.li .a2 (s.slotBitsShift.signExtend 64))
      s.exec (·.sll .a1 .a1 .a2)
    | .iccm => s
  let s := s.exec (·.li .a2 (s.numHarts.signExtend 64))
  let s := s.exec (·.addi .a0 .a2 (1#64 - 64#64))
  let s := s.exec (·.neg .a0 .a0)
  let s := s.exec (·.sll .a3 .a3 .a0)
  let s := s.exec (·.slli .a0 .a2 plf.hlshift)
  let s := s.exec (·.li .a2 plf.tls0Base)
  s.exec (·.sub .a2 .a2 .a0)

theorem lipiSendMasked_eq : s.lipiSendMasked plf =
    ((((s.lipiMaskStart plf).lipiMaskLoop plf 64).loadReg .a2).loadReg .a3).mtrapScallRet := rfl

theorem lipiMaskStart_spec (plf : SbiPlf) (s : SbiHart) : ∃ x,
    s.lipiMaskStart plf = { s with x := x } ∧
    x.get .a1 = s.signalWord plf ∧
    x.get .a2 = plf.tls0Base - (s.numHarts.signExtend 64) <<< plf.hlshift ∧
    x.get .a3 = s.x.get .a3 <<< ((-(s.numHarts.signExtend 64 + (1#64 - 64#64))).toNat % 64) ∧
    x.get .sp = s.x.get .sp := by
  rw [lipiMaskStart, signalWord, SbiPlf.packScipiMsg]
  cases plf.transport with
  | csr =>
    refine ⟨_, rfl, ?_, ?_, ?_, ?_⟩
    all_goals simp [exec, RegFile.li, RegFile.sll, RegFile.addi, RegFile.neg, RegFile.slli,
      RegFile.sub]
  | iccm =>
    refine ⟨_, rfl, ?_, ?_, ?_, ?_⟩
    all_goals simp [exec, RegFile.li, RegFile.sll, RegFile.addi, RegFile.neg, RegFile.slli,
      RegFile.sub]

/-- **`.Lipi_send_masked`** sends the signals of the mask in `a3` and returns. -/
theorem lipiSendMasked_spec (hn : s.numHarts.toNat < 64) (hself : self < 64)
    (hsp : s.x.get .sp = plf.hartTls self) :
    (s.lipiSendMasked plf).effects =
        s.effects ++ (s.signals plf self (s.x.get .a3) s.numHarts.toNat).reverse ∧
      (s.lipiSendMasked plf).x.get .a0 = 0#64 ∧
      (s.lipiSendMasked plf).mepc = s.mepc + 4#64 := by
  obtain ⟨x, hstart, hx1, hx2, hx3, hxsp⟩ := lipiMaskStart_spec plf s
  rw [tls_end hn] at hx2
  rw [shift_amount, Nat.mod_eq_of_lt hn] at hx3
  have hround : AtRound plf s self (s.x.get .a3) s.numHarts.toNat { s with x := x } :=
    ⟨rfl, hx1, hx2, hx3, hxsp.trans hsp⟩
  obtain ⟨z, hloop, _⟩ := lipiMaskLoop_spec hself hn hn hround
  rw [lipiSendMasked_eq, hstart, hloop]
  exact ⟨rfl, by simp, by simp [loadReg]⟩

end SbiHart

end ScBl
