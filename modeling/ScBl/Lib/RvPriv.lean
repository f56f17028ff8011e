import ScBl.Lib.Rv
import ScBl.Lib.Words

/-!
# RISC-V control and status registers

Integer and control registers of any width, the instructions that move values between
them, and `mret`. The fields of `mstatus` are where the privileged architecture has them;
with 32 bits, the upper half is `mstatush`. An address in `mepc` counts without its
lowest bit, which the register does not have.
-/

namespace RvPriv

open Rv (IntReg)
open Words

/-- Control and status registers. -/
inductive Csr
  | misa | mstatus | mstatush | mie | mepc | mcause | mtval | mtval2 | mtinst
  | stvec | sepc | scause | stval
  | hstatus | hedeleg | htval | htinst
  | vsstatus | vstvec | vsepc | vscause | vstval
  deriving DecidableEq, Repr

/-- The registers of a hart. -/
structure Hart (w : ℕ) where
  reg : IntReg → BitVec w
  csr : Csr → BitVec w

/-! ## Fields -/

def sieShift : ℕ := 1
def mieShift : ℕ := 3
def spieShift : ℕ := 5
def mpieShift : ℕ := 7
def sppShift : ℕ := 8
def mppShift : ℕ := 11
def mprvShift : ℕ := 17

/-- The fields of `hstatus`. -/
def hgvaShift : ℕ := 6
def spvShift : ℕ := 7
def spvpShift : ℕ := 8

/-- Where `MPV` and `GVA` are. -/
def mpvCsr (w : ℕ) : Csr := if w = 32 then .mstatush else .mstatus
def mpvShift (w : ℕ) : ℕ := if w = 32 then 7 else 39
def gvaShift (w : ℕ) : ℕ := if w = 32 then 6 else 38

/-- Privilege modes. -/
abbrev Prv : Type := BitVec 2

def prvS : Prv := 1
def prvM : Prv := 3

namespace Hart

variable {w : ℕ} (h : Hart w)

/-- Write a register. -/
def setReg (rd : IntReg) (v : BitVec w) : Hart w := { h with reg := Function.update h.reg rd v }

def setCsr (c : Csr) (v : BitVec w) : Hart w := { h with csr := Function.update h.csr c v }

section

variable {h} {r rd : IntReg} {c c' : Csr} {v : BitVec w}

@[simp] theorem setReg_reg_self : (h.setReg rd v).reg rd = v := Function.update_self ..

@[simp] theorem setReg_reg_of_ne (hr : r ≠ rd) : (h.setReg rd v).reg r = h.reg r :=
  Function.update_of_ne hr ..

@[simp] theorem setReg_csr : (h.setReg rd v).csr = h.csr := rfl

@[simp] theorem setCsr_csr_self : (h.setCsr c v).csr c = v := Function.update_self ..

@[simp] theorem setCsr_csr_of_ne (hc : c' ≠ c) : (h.setCsr c v).csr c' = h.csr c' :=
  Function.update_of_ne hc ..

@[simp] theorem setCsr_reg : (h.setCsr c v).reg = h.reg := rfl

theorem setCsr_self : h.setCsr c (h.csr c) = h := by
  rw [setCsr, Function.update_eq_self]

end

/-! ## Instructions -/

@[simp] def li (rd : IntReg) (imm : BitVec w) : Hart w := h.setReg rd imm

@[simp] def csrr (rd : IntReg) (c : Csr) : Hart w := h.setReg rd (h.csr c)

@[simp] def csrw (c : Csr) (rs : IntReg) : Hart w := h.setCsr c (h.reg rs)

@[simp] def csrs (c : Csr) (rs : IntReg) : Hart w := h.setCsr c (h.csr c ||| h.reg rs)

@[simp] def csrc (c : Csr) (rs : IntReg) : Hart w := h.setCsr c (h.csr c &&& ~~~h.reg rs)

@[simp] def csrci (c : Csr) (imm : BitVec w) : Hart w := h.setCsr c (h.csr c &&& ~~~imm)

/-- `rd` gets what the register was before. -/
@[simp] def csrrs (rd : IntReg) (c : Csr) (rs : IntReg) : Hart w :=
  (h.csrs c rs).setReg rd (h.csr c)

@[simp] def csrrc (rd : IntReg) (c : Csr) (rs : IntReg) : Hart w :=
  (h.csrc c rs).setReg rd (h.csr c)

@[simp] def and (rd rs₁ rs₂ : IntReg) : Hart w := h.setReg rd (h.reg rs₁ &&& h.reg rs₂)

@[simp] def andi (rd rs : IntReg) (imm : BitVec w) : Hart w := h.setReg rd (h.reg rs &&& imm)

@[simp] def ori (rd rs : IntReg) (imm : BitVec w) : Hart w := h.setReg rd (h.reg rs ||| imm)

@[simp] def slli (rd rs : IntReg) (n : ℕ) : Hart w := h.setReg rd (h.reg rs <<< n)

@[simp] def srli (rd rs : IntReg) (n : ℕ) : Hart w := h.setReg rd (h.reg rs >>> n)

/-- Shifts take the amount modulo the width. -/
@[simp] def sll (rd rs₁ rs₂ : IntReg) : Hart w :=
  h.setReg rd (h.reg rs₁ <<< ((h.reg rs₂).toNat % w))

/-! ## Return from a trap -/

/-- The hypervisor extension is there. -/
def hasH : Bool := (h.csr .misa).getLsbD 7

/-- `MPP` -/
def mpp : Prv := (h.csr .mstatus).extractLsb' mppShift 2

/-- `MPV`, for a hart with the hypervisor extension. -/
def mpv : Bool := (h.csr (mpvCsr w)).getLsbD (mpvShift w)

/-- `GVA` -/
def gva : Bool := (h.csr (mpvCsr w)).getLsbD (gvaShift w)

end Hart

/-- A hart that has returned from a trap. -/
structure Resumed (w : ℕ) where
  hart : Hart w
  prv : Prv
  /-- The virtualization mode `V`. -/
  virt : Bool
  pc : BitVec w

/-- `MIE`, `MPIE` and `MPP` after a return from a trap. -/
def returnStatus {w : ℕ} (status : BitVec w) : BitVec w :=
  let status := setBit status mieShift (status.getLsbD mpieShift)
  let status := setBit status mpieShift true
  setBit (setBit status mppShift false) (mppShift + 1) false

namespace Hart

variable {w : ℕ} (h : Hart w)

/-- What `mret` makes of `mstatus`, `MPV` apart. -/
def mretStatus : BitVec w :=
  if h.mpp = prvM then returnStatus (h.csr .mstatus)
  else setBit (returnStatus (h.csr .mstatus)) mprvShift false

/-- `mret` -/
def mret : Resumed w where
  hart :=
    let t := h.setCsr .mstatus h.mretStatus
    if h.hasH then t.setCsr (mpvCsr w) (setBit (t.csr (mpvCsr w)) (mpvShift w) false) else t
  prv := h.mpp
  virt := h.hasH && h.mpv && decide (h.mpp ≠ prvM)
  pc := setBit (h.csr .mepc) 0 false

variable {h}

/-- Other bits than those that a return sets. -/
theorem getLsbD_returnStatus {status : BitVec w} (hw : 32 ≤ w) {i : ℕ}
    (hi : i ∉ [mieShift, mpieShift, mppShift, mppShift + 1]) :
    (returnStatus status).getLsbD i = status.getLsbD i := by
  simp only [List.mem_cons, List.not_mem_nil, or_false, not_or] at hi
  obtain ⟨hmie, hmpie, hmpp, hmpp'⟩ := hi
  rw [returnStatus, getLsbD_setBit (by simp [mppShift]; omega), if_neg hmpp',
    getLsbD_setBit (by simp [mppShift]; omega), if_neg hmpp,
    getLsbD_setBit (by simp [mpieShift]; omega), if_neg hmpie,
    getLsbD_setBit (by simp [mieShift]; omega), if_neg hmie]

theorem getLsbD_mretStatus (hw : 32 ≤ w) {i : ℕ}
    (hi : i ∉ [mieShift, mpieShift, mppShift, mppShift + 1, mprvShift]) :
    h.mretStatus.getLsbD i = (h.csr .mstatus).getLsbD i := by
  simp only [List.mem_cons, List.not_mem_nil, or_false, not_or] at hi
  obtain ⟨hmie, hmpie, hmpp, hmpp', hmprv⟩ := hi
  have hreturn : (returnStatus (h.csr .mstatus)).getLsbD i = (h.csr .mstatus).getLsbD i :=
    getLsbD_returnStatus hw (by simp [hmie, hmpie, hmpp, hmpp'])
  rw [mretStatus]
  split
  · exact hreturn
  · rw [getLsbD_setBit (by simp [mprvShift]; omega), if_neg hmprv, hreturn]

/-- A return changes `mstatus` and the register of `MPV`, and of these the fields it sets. -/
theorem mret_csr_of_ne {c : Csr} (hc : c ≠ .mstatus) (hmpv : c ≠ mpvCsr w) :
    h.mret.hart.csr c = h.csr c := by
  rw [mret]
  split <;> simp [hc, hmpv]

theorem getLsbD_mret_mstatus (hw : w = 32 ∨ w = 64) {i : ℕ}
    (hi : i ∉ [mieShift, mpieShift, mppShift, mppShift + 1, mprvShift, mpvShift 64]) :
    (h.mret.hart.csr .mstatus).getLsbD i = (h.csr .mstatus).getLsbD i := by
  simp only [List.mem_cons, List.not_mem_nil, or_false, not_or] at hi
  obtain ⟨hmie, hmpie, hmpp, hmpp', hmprv, hmpv⟩ := hi
  have hstatus : h.mretStatus.getLsbD i = (h.csr .mstatus).getLsbD i :=
    getLsbD_mretStatus (by omega) (by simp [hmie, hmpie, hmpp, hmpp', hmprv])
  rw [mret]
  split
  · rcases hw with rfl | rfl
    · simpa [mpvCsr] using hstatus
    · have hkeep : (setBit h.mretStatus (mpvShift 64) false).getLsbD i =
          h.mretStatus.getLsbD i := by
        rw [getLsbD_setBit (by decide), if_neg hmpv]
      simpa [mpvCsr] using hkeep.trans hstatus
  · simpa using hstatus

/-- A return to a mode that is not virtual leaves `MPV` as it is. -/
theorem mret_of_not_mpv (hw : w = 32 ∨ w = 64) (hmpv : h.hasH = true → h.mpv = false) :
    h.mret =
      ⟨h.setCsr .mstatus h.mretStatus, h.mpp, false, setBit (h.csr .mepc) 0 false⟩ := by
  cases hH : h.hasH with
  | false => simp [mret, hH]
  | true =>
    have hmpv := hmpv hH
    have hbit : ((h.setCsr .mstatus h.mretStatus).csr (mpvCsr w)).getLsbD (mpvShift w) = false := by
      rw [← hmpv, mpv]
      rcases hw with rfl | rfl
      · rfl
      · exact getLsbD_mretStatus (by decide) (by decide)
    rw [mret, if_pos hH, hmpv, setBit_self hbit, setCsr_self, Bool.and_false, Bool.false_and]

end Hart

/-! ## Traps that the hardware delegates -/

section Enter

variable {w : ℕ}

/-- `sstatus`, or `vsstatus`, after a trap into S-mode, or VS-mode, from a mode whose bit is
`spp`. -/
def enterStatus (status : BitVec w) (spp : Bool) : BitVec w :=
  let status := setBit status spieShift (status.getLsbD sieShift)
  setBit (setBit status sieShift false) sppShift spp

/-- `hstatus` after a trap into HS-mode, from a virtual mode if `virt`. -/
def enterHstatus (hstatus : BitVec w) (virt gva spp : Bool) : BitVec w :=
  let hstatus := setBit (setBit hstatus spvShift virt) hgvaShift gva
  if virt then setBit hstatus spvpShift spp else hstatus

end Enter

end RvPriv
