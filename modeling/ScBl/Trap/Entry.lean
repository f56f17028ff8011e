import ScBl.Trap.Redirect

/-!
# Traps redirected to S-mode (`.Lto_s`)

What the code does with the registers, as far as it does not look at `V`, and that it is
the trap entry of the hardware followed by `mret` (`ltoS_enters`).
-/

namespace ScBl

open Rv (IntReg)
open RvPriv Words

variable {x : Xlen} {frame : TrapFrame x} {h : TrapHart x}

/-- The bits of the status registers lie in the lower 32 on both widths. -/
theorem lt_width {k : ℕ} (hk : k < 32) : k < 8 * x.hart8 := by
  cases x <;> simp only [Xlen.hart8] <;> omega

/-- `MPP` is S. -/
def mppS {w : ℕ} (status : BitVec w) : BitVec w :=
  setBit (setBit status mppShift true) (mppShift + 1) false

namespace TrapHart

/-! ## The code -/

/-- The bits of `sstatus` are as the hardware sets them on a trap into S-mode: `SPP` from `MPP`,
`SPIE` from `SIE`, and `SIE` cleared. `MPP` is S besides, for the return. -/
theorem fillS_mstatus : (fillS h).csr .mstatus =
    mppS (enterStatus (h.csr .mstatus) ((h.csr .mstatus).getLsbD mppShift)) := by
  have hexec : (fillS h).csr .mstatus =
      (h.csr .mstatus &&& ~~~(3#_ <<< 11 ||| 1#_ <<< 8 ||| 1#_ <<< 5) |||
        h.csr .mstatus >>> 3 &&& 1#_ <<< 8 |||
        (h.csr .mstatus &&& ~~~(3#_ <<< 11 ||| 1#_ <<< 8 ||| 1#_ <<< 5) &&& 1#_ <<< 1 |||
          1#_ <<< 7) <<< 4) &&& ~~~(1#_ <<< 1) := by
    simp [fillS, mppShift, sppShift, spieShift, sieShift]
  refine BitVec.eq_of_getLsbD_eq fun i hi => ?_
  rw [hexec]
  simp (disch := exact lt_width (by decide)) only [mppS, enterStatus, sieShift, spieShift, sppShift,
    mppShift, getLsbD_setBit, and_one_shiftLeft, three_shiftLeft,
    BitVec.shiftLeft_or_distrib, bitAt_shiftLeft, ← BitVec.shiftLeft_add, BitVec.getLsbD_or,
    BitVec.getLsbD_and, BitVec.getLsbD_not, getLsbD_one_shiftLeft, getLsbD_bitAt, hi,
    Nat.reduceAdd]
  grind

/-- The frame of `.Lto_s`, from the test of `stvec` on: four registers. -/
theorem fillS_csr_of_notMem {c : Csr} (hc : c ∉ [.mstatus, .mepc, .scause, .stval]) :
    (fillS h).csr c = h.csr c := by
  simp only [List.mem_cons, List.not_mem_nil, or_false, not_or] at hc
  obtain ⟨hstatus, hepc, hcause, htval⟩ := hc
  simp [fillS, hstatus, hepc, hcause, htval]

/-- The return goes to the vector, which the test has left in `a0`. -/
theorem fillS_mepc : (fillS h).csr .mepc = h.reg .a0 := by
  simp [fillS]

theorem fillS_scause : (fillS h).csr .scause = h.csr .mcause := by
  simp [fillS]

theorem fillS_stval : (fillS h).csr .stval = h.csr .mtval := by
  simp [fillS]

theorem fillS_reg_of_ne {r : IntReg} (hr : r ≠ .a0) : (fillS h).reg r = h.reg r := by
  simp [fillS, hr]

theorem mpv_fillS : (fillS h).mpv = h.mpv := by
  cases x with
  | rv32 =>
    have hkeep : (fillS h).csr .mstatush = h.csr .mstatush := fillS_csr_of_notMem (by decide)
    exact congrArg (·.getLsbD 7) hkeep
  | rv64 =>
    have hkeep : ((fillS h).csr .mstatus).getLsbD 39 = (h.csr .mstatus).getLsbD 39 := by
      rw [fillS_mstatus]
      simp (disch := decide) only [mppS, enterStatus, getLsbD_setBit]
      rfl
    exact hkeep

@[simp] theorem loadReg_csr {r : IntReg} : (loadReg frame h r).csr = h.csr := rfl

/-- The registers at the end. -/
theorem leave_reg (hreg : ∀ r ∉ [.zero, .a0, .a1, .sp], h.reg r = frame r) {r : IntReg}
    (hr : r ≠ .zero) :
    (loadReg frame (loadReg frame (loadReg frame h .a0) .a1) .sp).reg r = frame r := by
  by_cases hsp : r = .sp
  · simp [loadReg, hsp]
  by_cases ha1 : r = .a1
  · simp [loadReg, ha1]
  by_cases ha0 : r = .a0
  · simp [loadReg, ha0]
  have hrest := hreg r (by simp [hr, ha0, ha1, hsp])
  simp [loadReg, hsp, ha1, ha0, hrest]

end TrapHart

/-! ## The trap entry of the hardware -/

/-- The hart goes on in S-mode as if the trap had been taken there, and `mret` has been
executed besides. -/
structure EntersS (frame : TrapFrame x) (h : TrapHart x) (t : Resumed (8 * x.hart8)) : Prop where
  sepc : t.hart.csr .sepc = h.csr .mepc
  scause : t.hart.csr .scause = h.csr .mcause
  stval : t.hart.csr .stval = h.csr .mtval
  mstatus : t.hart.csr .mstatus = setBit (returnStatus
    (enterStatus (h.csr .mstatus) ((h.csr .mstatus).getLsbD mppShift))) mprvShift false
  csr : ∀ c ∉ [.mstatus, .mepc, .sepc, .scause, .stval], t.hart.csr c = h.csr c
  prv : t.prv = prvS
  virt : t.virt = false
  pc : t.pc = setBit (h.csr .stvec) 0 false
  reg : ∀ r ≠ .zero, t.hart.reg r = frame r

/-- The return is into S-mode. -/
theorem mpp_mppS {h : TrapHart x} {status : x.Word} (hstatus : h.csr .mstatus = mppS status) :
    h.mpp = prvS := by
  refine BitVec.eq_of_getLsbD_eq fun i hi => ?_
  obtain rfl | rfl : i = 0 ∨ i = 1 := by omega
  all_goals
    simp (disch := exact lt_width (by decide)) only [Hart.mpp, hstatus, mppS, mppShift,
      BitVec.getLsbD_extractLsb', getLsbD_setBit]
    rfl

/-- Nothing is left of it after the `mret`. -/
theorem returnStatus_mppS {status : x.Word} : returnStatus (mppS status) = returnStatus status := by
  refine BitVec.eq_of_getLsbD_eq fun i _ => ?_
  simp (disch := exact lt_width (by decide)) only [returnStatus, mppS, mieShift, mpieShift,
    mppShift, getLsbD_setBit]
  grind

theorem width_eq (x : Xlen) : 8 * x.hart8 = 32 ∨ 8 * x.hart8 = 64 := by
  cases x
  · exact .inl rfl
  · exact .inr rfl

namespace TrapHart

/-- The hart where `.Lto_s` tests `stvec`. -/
def startS (h : TrapHart x) : TrapHart x := ((h.csrr .a0 .mepc).csrw .sepc .a0).csrr .a0 .stvec

/-- Without a vector of S-mode there is no one to pass the trap to: the code ends at `.Lbad_stvec`.
-/
theorem ltoS_eq : ltoS frame h =
    if h.csr .stvec = 0#_ then badStvec (startS h) else leave frame (fillS (startS h)) := by
  simp [ltoS, startS]

/-- Up to the test only `sepc` is written. -/
theorem startS_csr_of_ne {c : Csr} (hc : c ≠ .sepc) : (startS h).csr c = h.csr c := by
  simp [startS, hc]

theorem startS_reg_of_ne {r : IntReg} (hr : r ≠ .a0) : (startS h).reg r = h.reg r := by
  simp [startS, hr]

/-- What `.Lto_s` leaves of the registers it does not fill. -/
theorem fillS_startS_csr {c : Csr} (hc : c ∉ [.mstatus, .mepc, .sepc, .scause, .stval]) :
    (fillS (startS h)).csr c = h.csr c := by
  simp only [List.mem_cons, List.not_mem_nil, or_false, not_or] at hc
  obtain ⟨hstatus, hepc, hsepc, hcause, htval⟩ := hc
  rw [fillS_csr_of_notMem (by simp [hstatus, hepc, hcause, htval]), startS_csr_of_ne hsepc]

theorem mpv_startS : (startS h).mpv = h.mpv := by
  have hne : mpvCsr (8 * x.hart8) ≠ .sepc := by cases x <;> decide
  rw [Hart.mpv, startS_csr_of_ne hne, Hart.mpv]

/-- `.Lto_s` does not make a mode virtual. -/
theorem mpv_fillS_startS (hmpv : h.hasH = true → h.mpv = false) :
    (fillS (startS h)).hasH = true → (fillS (startS h)).mpv = false := by
  rw [Hart.hasH, fillS_startS_csr (by decide), ← Hart.hasH, mpv_fillS, mpv_startS]
  exact hmpv

/-- A return with `MPV` clear does not go into a guest. -/
theorem leave_virt (hmpv : h.hasH = true → h.mpv = false) {t : Resumed (8 * x.hart8)}
    (ht : leave frame h = .mret t) : t.virt = false := by
  cases ht
  exact congrArg Resumed.virt (Hart.mret_of_not_mpv (width_eq x) hmpv)

/-- From there, the `mret` enters S-mode as the hardware would have, given that the hart is not in a
guest. -/
theorem leave_enters (hreg : ∀ r ∉ [.zero, .a0, .a1, .sp], h.reg r = frame r)
    (hmpv : h.hasH = true → h.mpv = false) :
    ∃ t, leave frame (fillS (startS h)) = .mret t ∧ EntersS frame h t := by
  obtain ⟨l, hl⟩ : ∃ l, l = loadReg frame (loadReg frame (loadReg frame (fillS (startS h)) .a0) .a1)
      .sp := ⟨_, rfl⟩
  have hcsr : l.csr = (fillS (startS h)).csr := by rw [hl]; rfl
  have hstatus : l.csr .mstatus =
      mppS (enterStatus (h.csr .mstatus) ((h.csr .mstatus).getLsbD mppShift)) := by
    rw [hcsr, fillS_mstatus, startS_csr_of_ne (by decide)]
  have hmpp := mpp_mppS hstatus
  have hlmpv : l.hasH = true → l.mpv = false := by
    rw [Hart.hasH, Hart.mpv, hcsr]
    exact mpv_fillS_startS hmpv
  have hmret : leave frame (fillS (startS h)) = .mret l.mret := by rw [hl]; rfl
  refine ⟨l.mret, hmret, ?_⟩
  rw [Hart.mret_of_not_mpv (width_eq x) hlmpv]
  exact {
    sepc := by
      rw [Hart.setCsr_csr_of_ne (by decide), hcsr, fillS_csr_of_notMem (by decide)]
      simp [startS]
    scause := by
      rw [Hart.setCsr_csr_of_ne (by decide), hcsr, fillS_scause, startS_csr_of_ne (by decide)]
    stval := by
      rw [Hart.setCsr_csr_of_ne (by decide), hcsr, fillS_stval, startS_csr_of_ne (by decide)]
    mstatus := by
      rw [Hart.setCsr_csr_self, Hart.mretStatus, hmpp, if_neg (by decide), hstatus,
        returnStatus_mppS]
    csr := fun c hc => by
      have hne : c ≠ .mstatus := by simp at hc; exact hc.1
      rw [Hart.setCsr_csr_of_ne hne, hcsr, fillS_startS_csr hc]
    prv := hmpp
    virt := rfl
    pc := by
      rw [hcsr, fillS_mepc]
      simp [startS]
    reg := fun r hr => by
      rw [Hart.setCsr_reg, hl]
      refine leave_reg (fun r' hr' => ?_) hr
      have hne : r' ≠ .a0 := by simp at hr'; exact hr'.2.1
      rw [fillS_reg_of_ne hne, startS_reg_of_ne hne, hreg r' hr'] }

end TrapHart

/-- **`.Lto_s` is the trap entry of the hardware**, with the `mret` after it, and halts where S-mode
has no handler, with nothing changed but `sepc` and `mie`. -/
theorem ltoS_enters (frame : TrapFrame x) (h : TrapHart x)
    (hreg : ∀ r ∉ [.zero, .a0, .a1, .sp], h.reg r = frame r)
    (hmpv : h.hasH = true → h.mpv = false) :
    (h.csr .stvec ≠ 0#_ → ∃ t, TrapHart.ltoS frame h = .mret t ∧ EntersS frame h t) ∧
      (h.csr .stvec = 0#_ → ∃ csr, TrapHart.ltoS frame h = .halt csr ∧
        ∀ c ∉ [.sepc, .mie], csr c = h.csr c) := by
  rw [TrapHart.ltoS_eq]
  refine ⟨fun hstvec => ?_, fun hstvec => ?_⟩
  · rw [if_neg hstvec]
    exact TrapHart.leave_enters hreg hmpv
  · rw [if_pos hstvec]
    refine ⟨_, rfl, fun c hc => ?_⟩
    simp only [List.mem_cons, List.not_mem_nil, or_false, not_or] at hc
    simp [TrapHart.startS, hc.1, hc.2]

/-- An S-mode whose handler is at `0x80200000`. -/
def TrapHart.sample : TrapHart .rv64 where
  reg := fun _ => 0#_
  csr := fun c => if c = .stvec then 0x80200000#_ else 0#_

theorem ltoS_enters_sample : ∃ t, TrapHart.ltoS (fun _ => 0#_) TrapHart.sample = .mret t ∧
    EntersS (fun _ => 0#_) TrapHart.sample t :=
  (ltoS_enters (fun _ => 0#_) TrapHart.sample (fun _ _ => rfl) (fun hH => absurd hH (by decide))).1
    (by decide)

/-- `MPRV` is set, and the handler of the S-mode is a vectored one. -/
def TrapHart.mprvSample : TrapHart .rv64 where
  reg := fun _ => 0#_
  csr := fun c =>
    if c = .stvec then 0x80200001#_ else if c = .mstatus then 1#_ <<< mprvShift else 0#_

/-- `mret` to a mode below M clears `MPRV`, a bit that is none of those the trap entry
names, and the hart goes on at an even address. -/
theorem ltoS_clears_mprv :
    (¬ ∀ (x : Xlen) (frame : TrapFrame x) (h : TrapHart x),
      (∀ r ∉ [.zero, .a0, .a1, .sp], h.reg r = frame r) → (h.hasH = true → h.mpv = false) →
      h.csr .stvec ≠ 0#_ → ∃ t, TrapHart.ltoS frame h = .mret t ∧
        ∀ i ∉ [sppShift, spieShift, sieShift, mieShift, mpieShift, mppShift, mppShift + 1],
          (t.hart.csr .mstatus).getLsbD i = (h.csr .mstatus).getLsbD i) ∧
      ¬ ∀ (x : Xlen) (frame : TrapFrame x) (h : TrapHart x),
        (∀ r ∉ [.zero, .a0, .a1, .sp], h.reg r = frame r) → (h.hasH = true → h.mpv = false) →
        h.csr .stvec ≠ 0#_ → ∃ t, TrapHart.ltoS frame h = .mret t ∧ t.pc = h.csr .stvec := by
  have hH : TrapHart.mprvSample.hasH = true → TrapHart.mprvSample.mpv = false :=
    fun hH => absurd hH (by decide)
  have hstvec : TrapHart.mprvSample.csr .stvec ≠ 0#_ := by decide
  obtain ⟨t, ht, henters⟩ :=
    @TrapHart.leave_enters .rv64 (fun _ => 0#_) .mprvSample (fun _ _ => rfl) hH
  refine ⟨fun hall => ?_, fun hall => ?_⟩
  all_goals
    obtain ⟨t', ht', hclaim⟩ := hall .rv64 (fun _ => 0#_) .mprvSample (fun _ _ => rfl) hH hstvec
    rw [TrapHart.ltoS_eq, if_neg hstvec, ht] at ht'
    obtain rfl : t = t' := by injection ht'
  · have hbit := hclaim mprvShift (by decide)
    rw [henters.mstatus] at hbit
    revert hbit
    decide
  · rw [henters.pc] at hclaim
    revert hclaim
    decide

end ScBl
