import ScBl.Lib.RvPriv
import ScBl.Xlen

/-!
# Traps that are redirected (`mentry.S`, `handle_trap_in_machine_mode`)

A trap that M-mode does not serve goes on in a lower mode: in VS-mode where the hypervisor
has delegated it, else in HS-mode or S-mode. The code writes what the hardware would have
written, had it taken the trap there, and returns with `mret`. Each label is a definition,
for both widths.
-/

namespace ScBl

open Rv (IntReg)
open RvPriv

variable {x : Xlen}

/-- The hart in the trap handler. -/
abbrev TrapHart (x : Xlen) : Type := RvPriv.Hart (8 * x.hart8)

/-- `hart_local_storage.xreg`, the registers of what was interrupted. -/
abbrev TrapFrame (x : Xlen) : Type := IntReg → x.Word

/-- How the trap handler ends. -/
inductive TrapExit (x : Xlen)
  | mret (t : RvPriv.Resumed (8 * x.hart8))
  /-- `hart_halt` -/
  | halt (csr : Csr → x.Word)

namespace TrapHart

variable (h : TrapHart x)

/-- `load_reg_idx`, with base `sp` -/
def loadReg (frame : TrapFrame x) (h : TrapHart x) (r : IntReg) : TrapHart x :=
  h.setReg r (frame r)

/-- `load_regs`, with base `sp` -/
def loadRegs (frame : TrapFrame x) (h : TrapHart x) (rs : List IntReg) : TrapHart x :=
  rs.foldl (loadReg frame) h

/-- `1:` -/
def leave (frame : TrapFrame x) (h : TrapHart x) : TrapExit x :=
  let h := loadReg frame h .a0
  let h := loadReg frame h .a1
  let h := loadReg frame h .sp
  .mret h.mret

/-- `bad_stvec`, which calls `hart_halt`. -/
def badStvec : TrapExit x :=
  let h := h.li .t0 (1#_ <<< 7)
  let h := h.csrc .mie .t0
  .halt h.csr

/-- `.Lto_s`, after its test of `stvec`. -/
def fillS : TrapHart x :=
  let h := h.csrw .mepc .a0
  let h := h.csrr .a0 .mcause
  let h := h.csrw .scause .a0
  let h := h.csrr .a0 .mtval
  let h := h.csrw .stval .a0
  let h := h.li .a0 (3#_ <<< mppShift ||| 1#_ <<< sppShift ||| 1#_ <<< spieShift)
  let h := h.csrrc .a0 .mstatus .a0
  let h := h.srli .a0 .a0 (mppShift - sppShift)
  let h := h.andi .a0 .a0 (1#_ <<< sppShift)
  -- set SPP
  let h := h.csrrs .a0 .mstatus .a0
  let h := h.andi .a0 .a0 (1#_ <<< sieShift)
  let h := h.ori .a0 .a0 (1#_ <<< (mppShift - (spieShift - sieShift)))
  let h := h.slli .a0 .a0 (spieShift - sieShift)
  -- set SPIE
  let h := h.csrs .mstatus .a0
  h.csrci .mstatus (1#_ <<< sieShift)

/-- `.Lto_s` -/
def ltoS (frame : TrapFrame x) (h : TrapHart x) : TrapExit x :=
  let h := h.csrr .a0 .mepc
  let h := h.csrw .sepc .a0
  let h := h.csrr .a0 .stvec
  if h.reg .a0 = 0#_ then badStvec h
  else leave frame (fillS h)

/-- `.Lfill_h_to_s`, up to its branch. -/
def fillH : TrapHart x :=
  let h := h.csrr .a0 .mtval2
  let h := h.csrw .htval .a0
  let h := h.csrr .a0 .mtinst
  let h := h.csrw .htinst .a0
  -- clear SPV (7) and GVA (6)
  let h := h.li .a0 (1#_ <<< spvShift ||| 1#_ <<< hgvaShift)
  let h := h.csrc .hstatus .a0
  let h :=
    match x with
    | .rv32 =>
      let h := h.li .a0 (1#_ <<< 7)
      h.csrrc .a0 .mstatush .a0
    | .rv64 =>
      let h := h.li .a0 (1#_ <<< 39)
      let h := h.csrrc .a0 .mstatus .a0
      h.srli .a0 .a0 (38 - hgvaShift)
  -- set SPV (7) and GVA (6) if MPV:GVA in mstatus
  let h := h.andi .a0 .a0 (1#_ <<< spvShift ||| 1#_ <<< hgvaShift)
  let h := h.csrs .hstatus .a0
  let h := h.csrr .a0 .hstatus
  h.andi .a0 .a0 (1#_ <<< spvShift)

/-- What the branch skips. -/
def fillSpvp : TrapHart x :=
  -- clear SPVP (8)
  let h := h.li .a0 (1#_ <<< spvpShift)
  let h := h.csrc .hstatus .a0
  let h := h.csrr .a0 .mstatus
  let h := h.srli .a0 .a0 (mppShift - spvpShift)
  let h := h.andi .a0 .a0 (1#_ <<< spvpShift)
  h.csrs .hstatus .a0

/-- `.Lfill_h_to_s`, up to `.Lto_s` -/
def lfillHToS : TrapHart x :=
  let h := fillH h
  if h.reg .a0 ≠ 0#_ then h else fillSpvp h

/-- `.Lto_vs`, up to its jump to `1:` -/
def fillVs : TrapHart x :=
  let h := h.csrr .a0 .mepc
  let h := h.csrw .vsepc .a0
  let h := h.csrr .a0 .vstvec
  let h := h.csrw .mepc .a0
  let h := h.csrr .a0 .mcause
  let h := h.csrw .vscause .a0
  let h := h.csrr .a0 .mtval
  let h := h.csrw .vstval .a0
  -- clear MPP (12:11)
  let h := h.li .a0 (3#_ <<< mppShift)
  let h := h.csrrc .a0 .mstatus .a0
  -- convert MPP (12:11) to SPP (8)
  let h := h.srli .a0 .a0 (mppShift - sppShift)
  let h := h.andi .a0 .a0 (1#_ <<< sppShift)
  let h := h.csrrs .a0 .vsstatus .a0
  -- set SPIE (5) if SIE (1)
  let h := h.andi .a0 .a0 (1#_ <<< sieShift)
  let h := h.slli .a0 .a0 (spieShift - sieShift)
  let h := h.csrs .vsstatus .a0
  -- clear SIE (1)
  let h := h.csrci .vsstatus (1#_ <<< sieShift)
  let h := h.li .a0 (1#_ <<< mppShift)
  h.csrs .mstatus .a0

/-- What is in `a0` where the previous mode is tested for `V`. -/
def testMpv : TrapHart x :=
  match x with
  | .rv32 =>
    let h := h.csrr .a0 .mstatush
    h.andi .a0 .a0 (1#_ <<< 7)
  | .rv64 =>
    let h := h.csrr .a0 .mstatus
    let h := h.srli .a0 .a0 39
    h.andi .a0 .a0 1#_

/-- What is in `a0` where `hedeleg` is tested. -/
def testHedeleg : TrapHart x :=
  let h := h.li .a0 1#_
  let h := h.csrr .a1 .mcause
  let h := h.sll .a1 .a0 .a1
  let h := h.csrr .a0 .hedeleg
  h.and .a0 .a1 .a0

/-- The trap is redirected. -/
def redirect (frame : TrapFrame x) (h : TrapHart x) : TrapExit x :=
  let h := h.csrr .a0 .misa
  let h := h.andi .a0 .a0 (1#_ <<< 7)
  if h.reg .a0 = 0#_ then ltoS frame h
  else
    let h := testMpv h
    if h.reg .a0 = 0#_ then ltoS frame (lfillHToS h)
    else
      let h := h.csrr .a0 .mcause
      let h := h.srli .a0 .a0 6
      if h.reg .a0 ≠ 0#_ then ltoS frame (lfillHToS h)
      else
        let h := testHedeleg h
        if h.reg .a0 = 0#_ then ltoS frame (lfillHToS h)
        else leave frame (fillVs h)

/-- What follows the call of `mmode_trap_handler`, which leaves its result in `a0`. -/
def afterTrapHandler (frame : TrapFrame x) (h : TrapHart x) : TrapExit x :=
  let h := loadReg frame h .ra
  let h := loadRegs frame h [.gp, .tp, .t0, .t1, .t2, .s0, .s1]
  let h := loadRegs frame h [.a2, .a3, .a4, .a5]
  let h := loadRegs frame h [.a6, .a7, .s2, .s3, .s4, .s5, .s6, .s7, .s8, .s9, .s10, .s11, .t3, .t4,
    .t5, .t6]
  if h.reg .a0 = 0#_ then leave frame h else redirect frame h

end TrapHart

end ScBl
