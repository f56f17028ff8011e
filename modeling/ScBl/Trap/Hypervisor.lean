import ScBl.Trap.Entry

/-!
# Traps redirected past a guest (`.Lfill_h_to_s` and `.Lto_vs`)

With the hypervisor extension, a trap that was delegated goes to the guest, in VS-mode, and
another one to the hypervisor, in HS-mode. The code for HS-mode sets `SPVP` where it should
be left and leaves it where it should be set (`lfillHToS_entersHs_iff`); that for VS-mode
only ever sets `SPP` and `SPIE`, and with 32 bits it looks at the wrong bit of `hedeleg` for
some causes (`redirect_entersVs_iff`).
-/

namespace ScBl

open Rv (IntReg)
open RvPriv Words

variable {x : Xlen} {frame : TrapFrame x} {h t : TrapHart x}

namespace TrapHart

/-! ## The code for HS-mode -/

/-- `SPV` and `GVA` of `hstatus` come from `MPV` and `GVA` of the trap, which RV32 has in `mstatush`
at the same two positions and RV64 in `mstatus`, 32 bits further up. -/
theorem fillH_hstatus : (fillH h).csr .hstatus =
    setBit (setBit (h.csr .hstatus) spvShift h.mpv) hgvaShift h.gva := by
  cases x with
  | rv32 =>
    have hexec : (fillH h).csr .hstatus =
        h.csr .hstatus &&& ~~~(1#_ <<< 7 ||| 1#_ <<< 6) |||
          h.csr .mstatush &&& (1#_ <<< 7 ||| 1#_ <<< 6) := by
      simp [fillH, spvShift, hgvaShift]
    refine BitVec.eq_of_getLsbD_eq fun i hi => ?_
    rw [hexec]
    simp (disch := decide) only [spvShift, hgvaShift, getLsbD_setBit, BitVec.getLsbD_or,
      BitVec.getLsbD_and, BitVec.getLsbD_not, getLsbD_one_shiftLeft, hi]
    simp only [Hart.mpv, Hart.gva, mpvShift, gvaShift, mpvCsr, Xlen.hart8]
    grind
  | rv64 =>
    have hexec : (fillH h).csr .hstatus =
        h.csr .hstatus &&& ~~~(1#_ <<< 7 ||| 1#_ <<< 6) |||
          h.csr .mstatus >>> 32 &&& (1#_ <<< 7 ||| 1#_ <<< 6) := by
      simp [fillH, spvShift, hgvaShift]
    refine BitVec.eq_of_getLsbD_eq fun i hi => ?_
    rw [hexec]
    simp (disch := decide) only [spvShift, hgvaShift, getLsbD_setBit, BitVec.getLsbD_or,
      BitVec.getLsbD_and, BitVec.getLsbD_not, BitVec.getLsbD_ushiftRight, getLsbD_one_shiftLeft, hi]
    simp only [Hart.mpv, Hart.gva, mpvShift, gvaShift, mpvCsr, Xlen.hart8]
    grind

/-- The code has `MPV` cleared in its register. -/
theorem fillH_mpv : (fillH h).csr (mpvCsr (8 * x.hart8)) =
    setBit (h.csr (mpvCsr (8 * x.hart8))) (mpvShift (8 * x.hart8)) false := by
  cases x with
  | rv32 =>
    have hexec : (fillH h).csr .mstatush = h.csr .mstatush &&& ~~~(1#_ <<< 7) := by simp [fillH]
    exact hexec.trans and_not_one_shiftLeft
  | rv64 =>
    have hexec : (fillH h).csr .mstatus = h.csr .mstatus &&& ~~~(1#_ <<< 39) := by simp [fillH]
    exact hexec.trans and_not_one_shiftLeft

/-- The guest address goes to `htval` as it is. -/
theorem fillH_htval : (fillH h).csr .htval = h.csr .mtval2 := by
  cases x <;> simp [fillH]

theorem fillH_htinst : (fillH h).csr .htinst = h.csr .mtinst := by
  cases x <;> simp [fillH]

/-- The frame of `.Lfill_h_to_s` up to its branch: four registers are written on both widths. -/
theorem fillH_csr_of_notMem {c : Csr}
    (hc : c ∉ [.hstatus, .htval, .htinst, mpvCsr (8 * x.hart8)]) :
    (fillH h).csr c = h.csr c := by
  simp only [List.mem_cons, List.not_mem_nil, or_false, not_or] at hc
  obtain ⟨hstatus, htval, htinst, hmpv⟩ := hc
  cases x with
  | rv32 =>
    have hne : c ≠ .mstatush := hmpv
    simp [fillH, hstatus, htval, htinst, hne]
  | rv64 =>
    have hne : c ≠ .mstatus := hmpv
    simp [fillH, hstatus, htval, htinst, hne]

/-- The branch is on `SPV`. -/
theorem fillH_a0 : (fillH h).reg .a0 = 0#_ ↔ h.mpv = false := by
  have hexec : (fillH h).reg .a0 = (fillH h).csr .hstatus &&& 1#_ <<< spvShift := by
    cases x <;> simp [fillH]
  rw [hexec, and_oneBit_eq_zero (lt_width (by decide)), fillH_hstatus,
    getLsbD_setBit (lt_width (by decide)), if_neg (by decide),
    getLsbD_setBit (lt_width (by decide)), if_pos rfl]

/-- Past the branch, `SPVP` is the low bit of `MPP`, which tells S from U. -/
theorem fillSpvp_hstatus : (fillSpvp h).csr .hstatus =
    setBit (h.csr .hstatus) spvpShift ((h.csr .mstatus).getLsbD mppShift) := by
  have hexec : (fillSpvp h).csr .hstatus = h.csr .hstatus &&& ~~~(1#_ <<< spvpShift) |||
      h.csr .mstatus >>> (mppShift - spvpShift) &&& 1#_ <<< spvpShift := by
    simp [fillSpvp]
  rw [hexec, ushiftRight_and_one_shiftLeft (lt_width (by decide))]
  rfl

theorem fillSpvp_csr_of_ne {c : Csr} (hc : c ≠ .hstatus) : (fillSpvp h).csr c = h.csr c := by
  simp [fillSpvp, hc]

/-- The branch decides about `hstatus` alone. -/
theorem lfillHToS_csr_of_ne {c : Csr} (hc : c ≠ .hstatus) :
    (lfillHToS h).csr c = (fillH h).csr c := by
  rw [lfillHToS]
  split
  · rfl
  · exact fillSpvp_csr_of_ne hc

/-- `bit` 0 of `MPP` does not move with `MPV`. -/
theorem fillH_mpp : ((fillH h).csr .mstatus).getLsbD mppShift =
    (h.csr .mstatus).getLsbD mppShift := by
  cases x with
  | rv32 => rw [fillH_csr_of_notMem (by decide)]
  | rv64 =>
    have hstatus : (fillH h).csr .mstatus = setBit (h.csr .mstatus) 39 false := fillH_mpv
    rw [hstatus, getLsbD_setBit (by decide), if_neg (by decide)]

/-- The code of `.Lfill_h_to_s` as it stands: a trap from the guest leaves `SPVP`, and one from
elsewhere writes it. The privileged architecture wants it the other way round. -/
theorem lfillHToS_hstatus : (lfillHToS h).csr .hstatus =
    if h.mpv then (fillH h).csr .hstatus
    else setBit ((fillH h).csr .hstatus) spvpShift ((h.csr .mstatus).getLsbD mppShift) := by
  rw [lfillHToS]
  cases hmpv : h.mpv with
  | false =>
    rw [if_neg (not_not.mpr (fillH_a0.mpr hmpv)), fillSpvp_hstatus, fillH_mpp]
    rfl
  | true =>
    have hne : (fillH h).reg .a0 ≠ 0#_ := fun hzero => by simp [fillH_a0.mp hzero] at hmpv
    rw [if_pos hne]
    rfl

end TrapHart

/-! ## The trap entry to HS-mode -/

/-- At `.Lto_s` with `t`, the hypervisor's registers are as the hardware would have them. -/
structure EntersHs (h t : TrapHart x) : Prop where
  hstatus : t.csr .hstatus =
    enterHstatus (h.csr .hstatus) h.mpv h.gva ((h.csr .mstatus).getLsbD mppShift)
  mpv : t.csr (mpvCsr (8 * x.hart8)) =
    setBit (h.csr (mpvCsr (8 * x.hart8))) (mpvShift (8 * x.hart8)) false
  htval : t.csr .htval = h.csr .mtval2
  htinst : t.csr .htinst = h.csr .mtinst
  csr : ∀ c ∉ [.hstatus, .htval, .htinst, mpvCsr (8 * x.hart8)], t.csr c = h.csr c

/-- **`.Lfill_h_to_s` is right just where `SPVP` is already the bit of `MPP`.** The branch is the
wrong way round, so that `SPVP` is written where it should stay and stays where it should be
written; neither shows if both are the same. -/
theorem lfillHToS_entersHs_iff (h : TrapHart x) :
    EntersHs h (TrapHart.lfillHToS h) ↔
      (h.csr .hstatus).getLsbD spvpShift = (h.csr .mstatus).getLsbD mppShift := by
  have hspvp : ((TrapHart.fillH h).csr .hstatus).getLsbD spvpShift =
      (h.csr .hstatus).getLsbD spvpShift := by
    rw [TrapHart.fillH_hstatus, getLsbD_setBit (lt_width (by decide)), if_neg (by decide),
      getLsbD_setBit (lt_width (by decide)), if_neg (by decide)]
  -- the branch leaves `SPVP` to one of two values, and the hardware chooses the other
  have hstatus : (TrapHart.lfillHToS h).csr .hstatus =
      enterHstatus (h.csr .hstatus) h.mpv h.gva ((h.csr .mstatus).getLsbD mppShift) ↔
      setBit ((TrapHart.fillH h).csr .hstatus) spvpShift ((h.csr .mstatus).getLsbD mppShift) =
        (TrapHart.fillH h).csr .hstatus := by
    rw [TrapHart.lfillHToS_hstatus, enterHstatus]
    cases hmpv : h.mpv with
    | false =>
      rw [TrapHart.fillH_hstatus, hmpv]
      rfl
    | true =>
      rw [TrapHart.fillH_hstatus, hmpv]
      exact eq_comm
  rw [setBit_eq_self_iff (lt_width (by decide)), hspvp] at hstatus
  rw [← hstatus]
  refine ⟨EntersHs.hstatus, fun heq => ?_⟩
  have hmpvNe : mpvCsr (8 * x.hart8) ≠ .hstatus := by cases x <;> decide
  exact {
    hstatus := heq
    mpv := by rw [TrapHart.lfillHToS_csr_of_ne hmpvNe, TrapHart.fillH_mpv]
    htval := by rw [TrapHart.lfillHToS_csr_of_ne (by decide), TrapHart.fillH_htval]
    htinst := by rw [TrapHart.lfillHToS_csr_of_ne (by decide), TrapHart.fillH_htinst]
    csr := fun c hc => by
      have hne : c ≠ .hstatus := by simp at hc; exact hc.1
      rw [TrapHart.lfillHToS_csr_of_ne hne, TrapHart.fillH_csr_of_notMem hc] }

/-- A trap from VU-mode that the hypervisor has delegated. Its `SPVP` and the guest's `SPP`
are those of a trap before. -/
def TrapHart.guest : TrapHart .rv64 where
  reg := fun _ => 0#_
  csr
    | .misa => 0x80#_
    | .mstatus => 0x8000000000#_
    | .mcause => 8#_
    | .hedeleg => 0x100#_
    | .hstatus => 0x100#_
    | .vsstatus => 0x100#_
    | _ => 0#_

/-- The code does not always do what the hardware would. -/
theorem lfillHToS_not_entersHs :
    ¬ ∀ (x : Xlen) (h : TrapHart x), EntersHs h (TrapHart.lfillHToS h) := by
  intro hall
  have hstatus := (hall .rv64 .guest).hstatus
  revert hstatus
  decide

namespace TrapHart

/-! ## The code for VS-mode -/

/-- `SPP` and `SPIE` are or-ed into `vsstatus`, so that what was set there before stays set; only
`SIE` is cleared. -/
theorem fillVs_vsstatus : (fillVs h).csr .vsstatus =
    setBit (h.csr .vsstatus ||| bitAt _ sppShift ((h.csr .mstatus).getLsbD mppShift) |||
      bitAt _ spieShift ((h.csr .vsstatus).getLsbD sieShift)) sieShift false := by
  have hexec : (fillVs h).csr .vsstatus =
      (h.csr .vsstatus ||| h.csr .mstatus >>> 3 &&& 1#_ <<< 8 |||
        (h.csr .vsstatus &&& 1#_ <<< 1) <<< 4) &&& ~~~(1#_ <<< 1) := by
    simp [fillVs, mppShift, sppShift, spieShift, sieShift]
  rw [hexec, ushiftRight_and_one_shiftLeft (lt_width (by decide)),
    and_one_shiftLeft (lt_width (by decide)), bitAt_shiftLeft, and_not_one_shiftLeft]
  rfl

/-- The bits that are only ever set. They are right where the hardware would set them as well, or
where they were clear before. -/
theorem fillVs_vsstatus_iff : (fillVs h).csr .vsstatus =
      enterStatus (h.csr .vsstatus) ((h.csr .mstatus).getLsbD mppShift) ↔
    ((h.csr .vsstatus).getLsbD sppShift = true → (h.csr .mstatus).getLsbD mppShift = true) ∧
      ((h.csr .vsstatus).getLsbD spieShift = true → (h.csr .vsstatus).getLsbD sieShift = true) := by
  have hbits : ∀ i, ((fillVs h).csr .vsstatus).getLsbD i =
      if i = 1 then false
      else ((h.csr .vsstatus).getLsbD i || (decide (i = 8) && (h.csr .mstatus).getLsbD 11)) ||
        (decide (i = 5) && (h.csr .vsstatus).getLsbD 1) := by
    intro i
    rw [fillVs_vsstatus]
    simp (disch := exact lt_width (by decide)) only [getLsbD_setBit, BitVec.getLsbD_or,
      getLsbD_bitAt, sieShift, sppShift, spieShift, mppShift]
  have henter : ∀ i, (enterStatus (h.csr .vsstatus)
        ((h.csr .mstatus).getLsbD mppShift)).getLsbD i =
      if i = 8 then (h.csr .mstatus).getLsbD 11 else if i = 1 then false
      else if i = 5 then (h.csr .vsstatus).getLsbD 1 else (h.csr .vsstatus).getLsbD i := by
    intro i
    simp (disch := exact lt_width (by decide)) only [enterStatus, getLsbD_setBit, sieShift,
      sppShift, spieShift, mppShift]
  constructor
  · intro heq
    have h8 := (hbits 8).symm.trans ((congrArg (·.getLsbD 8) heq).trans (henter 8))
    have h5 := (hbits 5).symm.trans ((congrArg (·.getLsbD 5) heq).trans (henter 5))
    simp at h8 h5
    exact ⟨h8, h5⟩
  · rintro ⟨hspp, hspie⟩
    refine BitVec.eq_of_getLsbD_eq fun i _ => ?_
    rw [hbits, henter]
    simp only [sppShift, spieShift, sieShift, mppShift] at hspp hspie
    grind

/-- `MPP` is S, for the return into VS-mode. -/
theorem fillVs_mstatus : (fillVs h).csr .mstatus = mppS (h.csr .mstatus) := by
  have hexec : (fillVs h).csr .mstatus = h.csr .mstatus &&& ~~~(3#_ <<< 11) ||| 1#_ <<< 11 := by
    simp [fillVs, mppShift]
  refine BitVec.eq_of_getLsbD_eq fun i hi => ?_
  rw [hexec, three_shiftLeft]
  simp (disch := exact lt_width (by decide)) only [mppS, mppShift, getLsbD_setBit,
    BitVec.getLsbD_or, BitVec.getLsbD_and, BitVec.getLsbD_not, getLsbD_one_shiftLeft, hi]
  grind

/-- The frame of `.Lto_vs`: the guest's trap registers, `mepc` and `mstatus`. -/
theorem fillVs_csr_of_notMem {c : Csr}
    (hc : c ∉ [.mstatus, .mepc, .vsstatus, .vsepc, .vscause, .vstval]) :
    (fillVs h).csr c = h.csr c := by
  simp only [List.mem_cons, List.not_mem_nil, or_false, not_or] at hc
  obtain ⟨hstatus, hepc, hvsstatus, hvsepc, hvscause, hvstval⟩ := hc
  simp [fillVs, hstatus, hepc, hvsstatus, hvsepc, hvscause, hvstval]

/-- The return goes to the guest's handler. -/
theorem fillVs_mepc : (fillVs h).csr .mepc = h.csr .vstvec := by
  simp [fillVs]

theorem fillVs_vsepc : (fillVs h).csr .vsepc = h.csr .mepc := by
  simp [fillVs]

theorem fillVs_vscause : (fillVs h).csr .vscause = h.csr .mcause := by
  simp [fillVs]

theorem fillVs_vstval : (fillVs h).csr .vstval = h.csr .mtval := by
  simp [fillVs]

/-- `MPV` is still set at the `mret`, so that it returns into the guest. -/
theorem mpv_fillVs : (fillVs h).mpv = h.mpv := by
  cases x with
  | rv32 =>
    have hkeep : (fillVs h).csr .mstatush = h.csr .mstatush := fillVs_csr_of_notMem (by decide)
    exact congrArg (·.getLsbD 7) hkeep
  | rv64 =>
    have hkeep : ((fillVs h).csr .mstatus).getLsbD 39 = (h.csr .mstatus).getLsbD 39 := by
      rw [fillVs_mstatus]
      simp (disch := decide) only [mppS, getLsbD_setBit]
      rfl
    exact hkeep

/-! ## Which way a trap goes -/

/-- The first and the third test of `redirect`. -/
def testH (h : TrapHart x) : TrapHart x := (h.csrr .a0 .misa).andi .a0 .a0 (1#_ <<< 7)

def testCause (h : TrapHart x) : TrapHart x := (h.csrr .a0 .mcause).srli .a0 .a0 6

/-- The tests on a trap that is passed on, one after the other: without the extension at once to
`.Lto_s`, to the hypervisor unless the trap is from a guest, has a cause below 64 and is delegated,
and else to the guest. -/
theorem redirect_eq : redirect frame h =
    if (testH h).reg .a0 = 0#_ then ltoS frame (testH h)
    else if (testMpv (testH h)).reg .a0 = 0#_ then ltoS frame (lfillHToS (testMpv (testH h)))
    else if (testCause (testMpv (testH h))).reg .a0 ≠ 0#_ then
      ltoS frame (lfillHToS (testCause (testMpv (testH h))))
    else if (testHedeleg (testCause (testMpv (testH h)))).reg .a0 = 0#_ then
      ltoS frame (lfillHToS (testHedeleg (testCause (testMpv (testH h)))))
    else leave frame (fillVs (testHedeleg (testCause (testMpv (testH h))))) := rfl

/-- The first branch is on the H bit of `misa`. -/
theorem testH_a0 : (testH h).reg .a0 = 0#_ ↔ h.hasH = false := by
  have hexec : (testH h).reg .a0 = h.csr .misa &&& 1#_ <<< 7 := by simp [testH]
  rw [hexec, and_oneBit_eq_zero (lt_width (by decide)), Hart.hasH]

/-- The second is on `MPV`. -/
theorem testMpv_a0 : (testMpv h).reg .a0 = 0#_ ↔ h.mpv = false := by
  cases x with
  | rv32 =>
    have hexec : (testMpv h).reg .a0 = h.csr .mstatush &&& 1#_ <<< 7 := by simp [testMpv]
    rw [hexec, and_oneBit_eq_zero (by decide)]
    rfl
  | rv64 =>
    have hexec : (testMpv h).reg .a0 = h.csr .mstatus >>> 39 &&& 1#_ <<< 0 := by simp [testMpv]
    rw [hexec, and_oneBit_eq_zero (by decide), BitVec.getLsbD_ushiftRight]
    rfl

/-- The third is on the cause, of which the high bits are for interrupts. -/
theorem testCause_a0 : (testCause h).reg .a0 = 0#_ ↔ (h.csr .mcause).toNat < 64 := by
  have hexec : (testCause h).reg .a0 = h.csr .mcause >>> 6 := by simp [testCause]
  rw [hexec, ← BitVec.toNat_inj, BitVec.toNat_ushiftRight, Nat.shiftRight_eq_div_pow,
    BitVec.toNat_zero]
  omega

/-- The fourth is on a bit of `hedeleg`. The shift takes the cause modulo the width, so that on RV32
a cause from 32 on looks at the bit of a smaller one. -/
theorem testHedeleg_a0 : (testHedeleg h).reg .a0 = 0#_ ↔
    (h.csr .hedeleg).getLsbD ((h.csr .mcause).toNat % (8 * x.hart8)) = false := by
  have hexec : (testHedeleg h).reg .a0 =
      h.csr .hedeleg &&& 1#_ <<< ((h.csr .mcause).toNat % (8 * x.hart8)) := by
    simp [testHedeleg, BitVec.and_comm]
  rw [hexec, and_oneBit_eq_zero (Nat.mod_lt _ (lt_width (by decide)))]

/-- The tests change no register but `a0` and `a1`. -/
structure Scratched (h g : TrapHart x) : Prop where
  csr : g.csr = h.csr
  reg : ∀ r ∉ [.a0, .a1], g.reg r = h.reg r

/-- Tests can be put one after the other. -/
theorem Scratched.trans {g k : TrapHart x} (h₁ : Scratched h g) (h₂ : Scratched g k) :
    Scratched h k :=
  ⟨h₂.csr.trans h₁.csr, fun r hr => (h₂.reg r hr).trans (h₁.reg r hr)⟩

theorem scratched_testH : Scratched h (testH h) := by
  refine ⟨by simp [testH], fun r hr => ?_⟩
  simp at hr
  simp [testH, hr.1]

theorem scratched_testMpv : Scratched h (testMpv h) := by
  refine ⟨by cases x <;> simp [testMpv], fun r hr => ?_⟩
  simp at hr
  cases x <;> simp [testMpv, hr.1]

theorem scratched_testCause : Scratched h (testCause h) := by
  refine ⟨by simp [testCause], fun r hr => ?_⟩
  simp at hr
  simp [testCause, hr.1]

theorem scratched_testHedeleg : Scratched h (testHedeleg h) := by
  refine ⟨by simp [testHedeleg], fun r hr => ?_⟩
  simp at hr
  simp [testHedeleg, hr.1, hr.2]

/-- The code takes the trap to the guest. -/
def toGuest (h : TrapHart x) : Prop :=
  h.mpv = true ∧ (h.csr .mcause).toNat < 64 ∧
    (h.csr .hedeleg).getLsbD ((h.csr .mcause).toNat % (8 * x.hart8)) = true

/-- **Which way the code goes**, with the hypervisor extension: to the guest or to the hypervisor,
with nothing but scratch registers changed by the tests. -/
theorem redirect_cases (frame : TrapFrame x) (hH : h.hasH = true) : ∃ g, Scratched h g ∧
    ((toGuest h ∧ redirect frame h = leave frame (fillVs g)) ∨
      (¬ toGuest h ∧ redirect frame h = ltoS frame (lfillHToS g))) := by
  have h₁ : Scratched h (testMpv (testH h)) := scratched_testH.trans scratched_testMpv
  have h₂ := h₁.trans scratched_testCause
  have h₃ := h₂.trans scratched_testHedeleg
  have hmisa : (testH h).reg .a0 ≠ 0#_ := mt testH_a0.mp (by simp [hH])
  rw [redirect_eq, if_neg hmisa]
  have hmpv : (testMpv (testH h)).reg .a0 = 0#_ ↔ h.mpv = false := by
    rw [testMpv_a0, Hart.mpv, scratched_testH.csr, Hart.mpv]
  have hcause : (testCause (testMpv (testH h))).reg .a0 = 0#_ ↔ (h.csr .mcause).toNat < 64 := by
    rw [testCause_a0, h₁.csr]
  have hdeleg : (testHedeleg (testCause (testMpv (testH h)))).reg .a0 = 0#_ ↔
      (h.csr .hedeleg).getLsbD ((h.csr .mcause).toNat % (8 * x.hart8)) = false := by
    rw [testHedeleg_a0, h₂.csr]
  by_cases hv : h.mpv = false
  · rw [if_pos (hmpv.mpr hv)]
    exact ⟨_, h₁, .inr ⟨fun hguest => by simp [hv, toGuest] at hguest, rfl⟩⟩
  rw [if_neg (mt hmpv.mp hv)]
  by_cases hlow : (h.csr .mcause).toNat < 64
  · rw [if_neg (not_not.mpr (hcause.mpr hlow))]
    by_cases hbit : (h.csr .hedeleg).getLsbD ((h.csr .mcause).toNat % (8 * x.hart8)) = false
    · rw [if_pos (hdeleg.mpr hbit)]
      exact ⟨_, h₃, .inr ⟨fun hguest => by simp [hbit, toGuest] at hguest, rfl⟩⟩
    · rw [if_neg (mt hdeleg.mp hbit)]
      exact ⟨_, h₃, .inl ⟨⟨by simpa using hv, hlow, by simpa using hbit⟩, rfl⟩⟩
  · rw [if_pos (mt hcause.mp hlow)]
    exact ⟨_, h₂, .inr ⟨fun hguest => hlow hguest.2.1, rfl⟩⟩

/-- The trap that goes to the hypervisor has left the guest. -/
theorem mpv_lfillHToS : (lfillHToS h).mpv = false := by
  have hne : mpvCsr (8 * x.hart8) ≠ .hstatus := by cases x <;> decide
  have hlt : mpvShift (8 * x.hart8) < 8 * x.hart8 := by cases x <;> decide
  rw [Hart.mpv, lfillHToS_csr_of_ne hne, fillH_mpv, getLsbD_setBit hlt, if_pos rfl]

/-- The HS path does not end in a virtual mode. -/
theorem ltoS_lfillHToS_virt {t : Resumed (8 * x.hart8)}
    (ht : ltoS frame (lfillHToS h) = .mret t) : t.virt = false := by
  rw [ltoS_eq] at ht
  split at ht
  · cases ht
  · exact leave_virt (mpv_fillS_startS fun _ => mpv_lfillHToS) ht

end TrapHart

/-! ## The trap entry to VS-mode -/

/-- The trap is delegated to the guest. -/
def Delegated (h : TrapHart x) : Prop :=
  h.mpv = true ∧ (h.csr .mcause).toNat < 64 ∧
    (h.csr .hedeleg).getLsbD (h.csr .mcause).toNat = true

/-- The hart goes on in VS-mode as if the trap had been taken there. `sstatus` is a part of
`mstatus` without the fields that `mret` changes. -/
structure EntersVs (h : TrapHart x) (t : Resumed (8 * x.hart8)) : Prop where
  vsstatus : t.hart.csr .vsstatus =
    enterStatus (h.csr .vsstatus) ((h.csr .mstatus).getLsbD mppShift)
  vsepc : t.hart.csr .vsepc = h.csr .mepc
  vscause : t.hart.csr .vscause = h.csr .mcause
  vstval : t.hart.csr .vstval = h.csr .mtval
  mstatus : ∀ i ∉ [mieShift, mpieShift, mppShift, mppShift + 1, mprvShift, mpvShift 64],
    (t.hart.csr .mstatus).getLsbD i = (h.csr .mstatus).getLsbD i
  csr : ∀ c ∉ [.mstatus, .mstatush, .mepc, .vsstatus, .vsepc, .vscause, .vstval],
    t.hart.csr c = h.csr c
  prv : t.prv = prvS
  virt : t.virt = true
  pc : t.pc = setBit (h.csr .vstvec) 0 false

/-- The code takes the HS path, with some values in registers that it restores. -/
def TakesHsPath (frame : TrapFrame x) (h : TrapHart x) : Prop :=
  ∃ reg, TrapHart.redirect frame h = TrapHart.ltoS frame (TrapHart.lfillHToS { h with reg := reg })

/-- The way to the guest ends in an `mret` with V set, and enters VS-mode as the hardware would
exactly if `vsstatus` is what the hardware would have made of it. -/
theorem leave_fillVs (frame : TrapFrame x) {g : TrapHart x} (hg : TrapHart.Scratched h g)
    (hH : h.hasH = true) (hmpv : h.mpv = true) :
    ∃ t, TrapHart.leave frame (TrapHart.fillVs g) = .mret t ∧ t.virt = true ∧
      (EntersVs h t ↔ (TrapHart.fillVs g).csr .vsstatus =
        enterStatus (h.csr .vsstatus) ((h.csr .mstatus).getLsbD mppShift)) := by
  obtain ⟨l, hl⟩ : ∃ l, l = TrapHart.loadReg frame (TrapHart.loadReg frame
      (TrapHart.loadReg frame (TrapHart.fillVs g) .a0) .a1) .sp := ⟨_, rfl⟩
  have hcsr : l.csr = (TrapHart.fillVs g).csr := by rw [hl]; rfl
  have hstatus : l.csr .mstatus = mppS (h.csr .mstatus) := by
    rw [hcsr, TrapHart.fillVs_mstatus, hg.csr]
  have hmpp := mpp_mppS hstatus
  have hleave : TrapHart.leave frame (TrapHart.fillVs g) = .mret l.mret := by rw [hl]; rfl
  have hvirt : l.mret.virt = true := by
    have hlH : l.hasH = true := by
      rw [Hart.hasH, hcsr, TrapHart.fillVs_csr_of_notMem (by decide), hg.csr]
      exact hH
    have hlmpv : l.mpv = true := by
      rw [Hart.mpv, hcsr, ← Hart.mpv, TrapHart.mpv_fillVs, Hart.mpv, hg.csr]
      exact hmpv
    rw [Hart.mret, hlH, hlmpv, hmpp]
    rfl
  have hkeep : ∀ c, c ≠ .mstatus → c ≠ .mstatush →
      l.mret.hart.csr c = (TrapHart.fillVs g).csr c := by
    intro c hc hc'
    have hne : c ≠ mpvCsr (8 * x.hart8) := by
      cases x
      · exact hc'
      · exact hc
    rw [Hart.mret_csr_of_ne hc hne, hcsr]
  refine ⟨l.mret, hleave, hvirt, ?_⟩
  have hvsstatus := hkeep .vsstatus (by decide) (by decide)
  refine ⟨fun henters => hvsstatus.symm.trans henters.vsstatus, fun heq => ?_⟩
  exact {
    vsstatus := hvsstatus.trans heq
    vsepc := by rw [hkeep _ (by decide) (by decide), TrapHart.fillVs_vsepc, hg.csr]
    vscause := by rw [hkeep _ (by decide) (by decide), TrapHart.fillVs_vscause, hg.csr]
    vstval := by rw [hkeep _ (by decide) (by decide), TrapHart.fillVs_vstval, hg.csr]
    mstatus := fun i hi => by
      rw [Hart.getLsbD_mret_mstatus (width_eq x) hi, hstatus, mppS]
      simp only [List.mem_cons, not_or] at hi
      rw [getLsbD_setBit (lt_width (by decide)), if_neg hi.2.2.2.1,
        getLsbD_setBit (lt_width (by decide)), if_neg hi.2.2.1]
    csr := fun c hc => by
      have hne : c ≠ .mstatus ∧ c ≠ .mstatush := by
        simp only [List.mem_cons, not_or] at hc
        exact ⟨hc.1, hc.2.1⟩
      have hc' : c ∉ [.mstatus, .mepc, .vsstatus, .vsepc, .vscause, .vstval] := by
        simp only [List.mem_cons, not_or] at hc ⊢
        exact ⟨hc.1, hc.2.2⟩
      rw [hkeep c hne.1 hne.2, TrapHart.fillVs_csr_of_notMem hc', hg.csr]
    prv := hmpp
    virt := hvirt
    pc := by
      have hpc : l.mret.pc = setBit (l.csr .mepc) 0 false := rfl
      rw [hpc, hcsr, TrapHart.fillVs_mepc, hg.csr] }

/-- Where the code sees a delegation that is not there. -/
def WrongBit (h : TrapHart x) : Prop :=
  x = .rv32 ∧ h.mpv = true ∧ 32 ≤ (h.csr .mcause).toNat ∧ (h.csr .mcause).toNat < 64 ∧
    (h.csr .hedeleg).getLsbD ((h.csr .mcause).toNat - 32) = true

/-- The two ways into the guest exclude each other. -/
theorem not_delegated_of_wrongBit (hwrong : WrongBit h) : ¬ Delegated h := by
  obtain ⟨rfl, -, hge, -⟩ := hwrong
  rintro ⟨-, -, hbit⟩
  have hout : (h.csr .hedeleg).getLsbD (h.csr .mcause).toNat = false :=
    BitVec.getLsbD_of_ge _ _ hge
  rw [hout] at hbit
  cases hbit

/-- What goes to the guest: the traps that are delegated to it, and on RV32 those whose cause from
32 on finds the bit of a smaller cause. -/
theorem toGuest_iff (h : TrapHart x) : TrapHart.toGuest h ↔ Delegated h ∨ WrongBit h := by
  have hsame : (h.csr .mcause).toNat < 8 * x.hart8 → (TrapHart.toGuest h ↔ Delegated h) := by
    intro hlt
    rw [TrapHart.toGuest, Nat.mod_eq_of_lt hlt, Delegated]
  rcases Nat.lt_or_ge (h.csr .mcause).toNat (8 * x.hart8) with hlt | hge
  · rw [hsame hlt, or_iff_left]
    rintro ⟨rfl, -, hge, -⟩
    exact absurd hlt (Nat.not_lt.mpr hge)
  · have hdeleg : ¬ Delegated h := by
      rintro ⟨-, -, hbit⟩
      rw [BitVec.getLsbD_of_ge _ _ hge] at hbit
      cases hbit
    rw [or_iff_right hdeleg]
    cases x with
    | rv64 => exact iff_of_false (fun hto => Nat.not_lt.mpr hge hto.2.1) (fun hw => nomatch hw.1)
    | rv32 =>
      have hmod : (h.csr .mcause).toNat < 64 →
          (h.csr .mcause).toNat % (8 * Xlen.hart8 .rv32) = (h.csr .mcause).toNat - 32 := by
        intro hlt
        have hge' : 32 ≤ (h.csr .mcause).toNat := hge
        have hsub : (h.csr .mcause).toNat % 32 = (h.csr .mcause).toNat - 32 := by omega
        exact hsub
      constructor
      · rintro ⟨hmpv, hlt, hbit⟩
        exact ⟨rfl, hmpv, hge, hlt, hmod hlt ▸ hbit⟩
      · rintro ⟨-, hmpv, -, hlt, hbit⟩
        exact ⟨hmpv, hlt, (hmod hlt).symm ▸ hbit⟩

/-- **`.Lto_vs` is right just where no bit of `vsstatus` has to be cleared**, since it sets `SPP`
and `SPIE` and never clears them. The test of `hedeleg` is right but for causes from 32 on, in 32
bits. -/
theorem redirect_entersVs_iff (frame : TrapFrame x) (h : TrapHart x) (hH : h.hasH = true) :
    ((Delegated h → ∃ t, TrapHart.redirect frame h = .mret t ∧ EntersVs h t) ∧
        (¬ Delegated h → TakesHsPath frame h)) ↔
      (Delegated h →
        ((h.csr .vsstatus).getLsbD sppShift = true → (h.csr .mstatus).getLsbD mppShift = true) ∧
        ((h.csr .vsstatus).getLsbD spieShift = true →
          (h.csr .vsstatus).getLsbD sieShift = true)) ∧ ¬ WrongBit h := by
  obtain ⟨g, hg, hpath⟩ := TrapHart.redirect_cases frame hH
  have hvsstatus := TrapHart.fillVs_vsstatus_iff (h := g)
  rw [hg.csr] at hvsstatus
  have hguest := toGuest_iff h
  rcases hpath with ⟨hto, hpath⟩ | ⟨hto, hpath⟩
  · obtain ⟨t, hleave, hvirt, henters⟩ := leave_fillVs frame hg hH hto.1
    rw [hvsstatus] at henters
    have hhs : ¬ TakesHsPath frame h := by
      rintro ⟨reg, heq⟩
      rw [hpath, hleave] at heq
      rw [TrapHart.ltoS_lfillHToS_virt heq.symm] at hvirt
      cases hvirt
    rw [hpath, hleave]
    rcases hguest.mp hto with hdeleg | hwrong
    · have hwrong : ¬ WrongBit h := fun hwrong => not_delegated_of_wrongBit hwrong hdeleg
      constructor
      · rintro ⟨hok, -⟩
        obtain ⟨t', heq, ht'⟩ := hok hdeleg
        cases heq
        exact ⟨fun _ => henters.mp ht', hwrong⟩
      · rintro ⟨hbits, -⟩
        exact ⟨fun _ => ⟨t, rfl, henters.mpr (hbits hdeleg)⟩, fun hnot => absurd hdeleg hnot⟩
    · exact iff_of_false (fun hok => hhs (hok.2 (not_delegated_of_wrongBit hwrong)))
        (fun hok => hok.2 hwrong)
  · have hdeleg : ¬ Delegated h := fun hdeleg => hto (hguest.mpr (.inl hdeleg))
    have hwrong : ¬ WrongBit h := fun hwrong => hto (hguest.mpr (.inr hwrong))
    have hsame : g = { h with reg := g.reg } := by rw [← hg.csr]
    refine iff_of_true ⟨fun h' => absurd h' hdeleg, fun _ => ⟨g.reg, ?_⟩⟩
      ⟨fun h' => absurd h' hdeleg, hwrong⟩
    rw [hpath, ← hsame]

/-- The same trap, when the guest has not had a trap before. -/
def TrapHart.freshGuest : TrapHart .rv64 where
  reg := TrapHart.guest.reg
  csr := Function.update TrapHart.guest.csr .vsstatus 0#_

theorem redirect_entersVs_freshGuest : ∃ t,
    TrapHart.redirect (fun _ => 0#_) TrapHart.freshGuest = .mret t ∧
      EntersVs TrapHart.freshGuest t :=
  ((redirect_entersVs_iff (fun _ => 0#_) TrapHart.freshGuest (by decide)).mpr
    ⟨fun _ => ⟨by decide, by decide⟩, fun hwrong => by cases hwrong.1⟩).1
    ⟨by decide, by decide, by decide⟩

/-- `vsstatus.SPP` stays set, though the guest was in VU-mode. -/
theorem redirect_not_entersVs :
    ¬ ∀ (x : Xlen) (frame : TrapFrame x) (h : TrapHart x), h.hasH = true →
      (Delegated h → ∃ t, TrapHart.redirect frame h = .mret t ∧ EntersVs h t) ∧
        (¬ Delegated h → TakesHsPath frame h) := by
  intro hall
  obtain ⟨t, ht, henters⟩ := (hall .rv64 (fun _ => 0#_) .guest (by decide)).1
    ⟨by decide, by decide, by decide⟩
  have hvsstatus := henters.vsstatus
  cases ht
  revert hvsstatus
  decide

/-! ## From the trap handler -/

namespace TrapHart

/-- `load_regs` gets the listed registers from the frame and leaves the others. -/
theorem loadRegs_reg (rs : List IntReg) {r : IntReg} :
    (loadRegs frame h rs).reg r = if r ∈ rs then frame r else h.reg r := by
  induction rs generalizing h with
  | nil => rfl
  | cons r' rs ih =>
    have hload := ih (h := loadReg frame h r')
    rw [loadRegs, List.foldl_cons, ← loadRegs, hload]
    by_cases hmem : r ∈ rs
    · simp [hmem]
    · by_cases hr : r = r'
      · simp [hr, loadReg]
      · simp [hmem, hr, loadReg]

/-- `load_regs` leaves the CSRs. -/
theorem loadRegs_csr (rs : List IntReg) : (loadRegs frame h rs).csr = h.csr := by
  induction rs generalizing h with
  | nil => rfl
  | cons r rs ih => exact ih (h := loadReg frame h r)

/-- The registers that are loaded before the redirection. -/
def restore (frame : TrapFrame x) (h : TrapHart x) : TrapHart x :=
  loadRegs frame (loadRegs frame (loadRegs frame (loadReg frame h .ra)
    [.gp, .tp, .t0, .t1, .t2, .s0, .s1]) [.a2, .a3, .a4, .a5])
    [.a6, .a7, .s2, .s3, .s4, .s5, .s6, .s7, .s8, .s9, .s10, .s11, .t3, .t4, .t5, .t6]

/-- After `mmode_trap_handler` the registers are loaded, and its result in `a0` says whether the
trap is done or has to be passed on. -/
theorem afterTrapHandler_eq : afterTrapHandler frame h =
    if (restore frame h).reg .a0 = 0#_ then leave frame (restore frame h)
    else redirect frame (restore frame h) := rfl

theorem restore_csr : (restore frame h).csr = h.csr := by
  rw [restore, loadRegs_csr, loadRegs_csr, loadRegs_csr, loadReg_csr]

/-- All but the scratch registers are from the frame already at the test of the result. -/
theorem restore_reg {r : IntReg} (hr : r ∉ [.zero, .a0, .a1, .sp]) :
    (restore frame h).reg r = frame r := by
  rw [restore, loadRegs_reg, loadRegs_reg, loadRegs_reg]
  cases r <;> simp [loadReg] at hr ⊢

/-- The result of `mmode_trap_handler` is in `a0` at the test. -/
theorem restore_a0 : (restore frame h).reg .a0 = h.reg .a0 := by
  rw [restore, loadRegs_reg, loadRegs_reg, loadRegs_reg]
  simp [loadReg]

/-- The code for HS-mode works in `a0` alone. -/
theorem lfillHToS_reg_of_ne {r : IntReg} (hr : r ≠ .a0) : (lfillHToS h).reg r = h.reg r := by
  have hfill : (fillH h).reg r = h.reg r := by cases x <;> simp [fillH, hr]
  rw [lfillHToS]
  split
  · exact hfill
  · simpa [fillSpvp, hr] using hfill

end TrapHart

/-- **A trap that is redirected, and not to a guest, goes on in S-mode** with the registers
of what was interrupted, after the hypervisor's registers have been filled. -/
theorem afterTrapHandler_enters (ha0 : h.reg .a0 ≠ 0#_) (hstvec : h.csr .stvec ≠ 0#_)
    (hguest : h.hasH = true → ¬ TrapHart.toGuest h) :
    ∃ g t, TrapHart.afterTrapHandler frame h = .mret t ∧ EntersS frame g t ∧
      (h.hasH = false → g.csr = h.csr) ∧
      (h.hasH = true → ∃ k : TrapHart x, k.csr = h.csr ∧ g = TrapHart.lfillHToS k) := by
  have hcsr : (TrapHart.restore frame h).csr = h.csr := TrapHart.restore_csr
  rw [TrapHart.afterTrapHandler_eq, TrapHart.restore_a0, if_neg ha0]
  cases hH : h.hasH with
  | false =>
    have hmisa : (TrapHart.testH (TrapHart.restore frame h)).reg .a0 = 0#_ := by
      rw [TrapHart.testH_a0, Hart.hasH, hcsr]
      exact hH
    have hscratch := TrapHart.scratched_testH (h := TrapHart.restore frame h)
    have hno : (TrapHart.testH (TrapHart.restore frame h)).hasH = true →
        (TrapHart.testH (TrapHart.restore frame h)).mpv = false := by
      rw [Hart.hasH, hscratch.csr, hcsr, ← Hart.hasH, hH]
      exact fun hfalse => (by cases hfalse)
    have hreg : ∀ r ∉ [.zero, .a0, .a1, .sp],
        (TrapHart.testH (TrapHart.restore frame h)).reg r = frame r := by
      intro r hr
      have hr' : r ∉ [.a0, .a1] := by simp at hr ⊢; exact ⟨hr.2.1, hr.2.2.1⟩
      rw [hscratch.reg r hr', TrapHart.restore_reg hr]
    obtain ⟨t, ht, henters⟩ := TrapHart.leave_enters hreg hno
    refine ⟨_, t, ?_, henters, fun _ => hscratch.csr.trans hcsr, fun hfalse => (by cases hfalse)⟩
    rw [TrapHart.redirect_eq, if_pos hmisa, TrapHart.ltoS_eq, if_neg, ht]
    rwa [hscratch.csr, hcsr]
  | true =>
    have hrH : (TrapHart.restore frame h).hasH = true := by rwa [Hart.hasH, hcsr]
    obtain ⟨k, hk, hpath⟩ := TrapHart.redirect_cases frame hrH
    have hto : ¬ TrapHart.toGuest (TrapHart.restore frame h) := by
      rw [TrapHart.toGuest, Hart.mpv, hcsr]
      exact hguest hH
    obtain ⟨-, hpath⟩ := hpath.resolve_left fun hno => hto hno.1
    have hreg : ∀ r ∉ [.zero, .a0, .a1, .sp], (TrapHart.lfillHToS k).reg r = frame r := by
      intro r hr
      have hr' : r ∉ [.a0, .a1] := by simp at hr ⊢; exact ⟨hr.2.1, hr.2.2.1⟩
      have hne : r ≠ .a0 := by simp at hr; exact hr.2.1
      rw [TrapHart.lfillHToS_reg_of_ne hne, hk.reg r hr', TrapHart.restore_reg hr]
    obtain ⟨t, ht, henters⟩ := TrapHart.leave_enters hreg fun _ => TrapHart.mpv_lfillHToS
    refine ⟨_, t, ?_, henters, fun hfalse => (by cases hfalse), fun _ =>
      ⟨k, hk.csr.trans hcsr, rfl⟩⟩
    have hvec : (TrapHart.lfillHToS k).csr .stvec = h.csr .stvec := by
      rw [TrapHart.lfillHToS_csr_of_ne (by decide), TrapHart.fillH_csr_of_notMem
        (by cases x <;> decide), hk.csr, hcsr]
    rw [hpath, TrapHart.ltoS_eq, if_neg (by rwa [hvec]), ht]

end ScBl
