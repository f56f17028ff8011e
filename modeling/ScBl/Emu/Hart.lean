import ScBl.Bitops
import ScBl.Lib.Bytes

/-!
# The hart under emulation (`emu_ldst.c`, access routines)

What the load/store emulator reads and writes: the trap frame, the fp registers,
the memory as the interrupted program sees it, and the trap CSRs. The emulator
touches the program's memory through three small routines, each of which points
`mtvec` at itself so that a trap inside it is caught: `emu_get_instr`,
`emu_load8`, `emu_store8`. Which of those accesses trap, and with which cause,
is the business of the memory system (`Mmu`).

Each routine has one lemma for an access that completes and one for an access
that traps; a trap leaves `Hart.trapped` behind, everything else is put back.
-/

namespace ScBl

open Bytes

/-! ## State -/

/-- The hart in M-mode, `XLEN = FLEN = 64`. `regs` is the trap frame: one slot
for each integer register, slot 0 included. -/
@[ext] structure Hart where
  regs : BitVec 5 → U64
  fregs : BitVec 5 → U64
  /-- Memory at the addresses of the interrupted program. -/
  mem : U64 → U8
  mepc : U64
  mcause : U64
  mtval : U64
  mtvec : U64
  mstatus : U64

/-- How the memory system answers the accesses of one emulator call: `none`
lets the access through, `some cause` traps. The other fields are what the hart
puts into its CSRs on such a trap. -/
structure Mmu where
  lhu : U64 → Option U64
  lbu : U64 → Option U64
  sb : U64 → Option U64
  /-- Address of the access instruction, inside the emulator. -/
  accessPc : U64
  /-- The local label `2:` that `mtvec` (or `mepc`) is pointed at. -/
  tempLabel : U64
  /-- `mstatus` after a trap taken in M-mode. -/
  trapStatus : U64 → U64

/-- `EXC_MEM_FETCH` -/
def excMemFetch : U64 := 1#64
/-- `EXC_MIS_LOAD` -/
def excMisLoad : U64 := 4#64
/-- `EXC_MEM_LOAD` -/
def excMemLoad : U64 := 5#64
/-- `EXC_MIS_STORE` -/
def excMisStore : U64 := 6#64
/-- `EXC_PF_FETCH` -/
def excPfFetch : U64 := 12#64
/-- `EXC_PF_LOAD` -/
def excPfLoad : U64 := 13#64
/-- `EXC_TLB_MISS` -/
def excTlbMiss : U64 := 14#64

/-! ## Access routines -/

/-- The hart after an access to `addr` trapped with `cause` and the temporary
trap handler ran. -/
def Hart.trapped (m : Mmu) (cause addr : U64) (h : Hart) : Hart :=
  { h with mepc := m.accessPc, mcause := cause, mtval := addr }

/-- What the three routines share: save `mtvec` and `mstatus`, point `mtvec` at
the temporary handler, set `bits` in `mstatus`, access, put both back. -/
def guarded {α : Type} (m : Mmu) (bits : U64) (access : Hart → α × Hart) (h : Hart) : α × Hart :=
  let (val, h') := access { h with mtvec := m.tempLabel, mstatus := h.mstatus ||| bits }
  (val, { h' with mtvec := h.mtvec, mstatus := h.mstatus })

/-- A trapping access: the hart enters the temporary handler, which sets the
result to `val`. -/
def trapAccess {α : Type} (m : Mmu) (cause addr : U64) (val : α) (h : Hart) : α × Hart :=
  (val, { h.trapped m cause addr with mstatus := m.trapStatus h.mstatus })

/-- `mstatus.MPRV` -/
def mprv : U64 := 1#64 <<< 17
/-- `mstatus.MXR` -/
def mxr : U64 := 1#64 <<< 19

/-- The halfword that `lhu` loads. -/
def halfAt (mem : U64 → U8) (addr : U64) : U64 := (leWord (bytesAt mem addr) 2).setWidth 64

/-- `emu_get_instr`: the first halfword, and the second one if the low two bits
of the first are set; 0 on a trap. -/
def emuGetInstr (m : Mmu) (addr : U64) (h : Hart) : U64 × Hart :=
  guarded m (mxr ||| mprv) (fun h =>
    match m.lhu addr with
    | some cause => trapAccess m cause addr 0#64 h
    | none =>
      let instr := halfAt h.mem addr
      if instr &&& 3#64 = 3#64 then
        match m.lhu (addr + 2#64) with
        | some cause => trapAccess m cause (addr + 2#64) 0#64 h
        | none => (instr ||| (halfAt h.mem (addr + 2#64) <<< 16), h)
      else (instr, h)) h

/-- `emu_load8`: the byte, or -1 with `mcause` updated. -/
def emuLoad8 (m : Mmu) (addr : U64) (h : Hart) : U64 × Hart :=
  guarded m mprv (fun h =>
    match m.lbu addr with
    | some cause => trapAccess m cause addr (-1#64) h
    | none => ((h.mem addr).setWidth 64, h)) h

/-- `emu_store8`: the byte stored, or -1 with `mcause` updated. -/
def emuStore8 (m : Mmu) (addr : U64) (v : U8) (h : Hart) : U64 × Hart :=
  guarded m mprv (fun h =>
    match m.sb addr with
    | some cause => trapAccess m cause addr (-1#64) h
    | none => (v.setWidth 64, { h with mem := Function.update h.mem addr v })) h

/-- `emu_process_tlb_miss`: `mepc` is pointed at the return label, the page
walker refills the TLB and returns there, and `mstatus`, `mscratch` and `sp`
are put back. What the refill changes is the answers of the next call. -/
def emuProcessTlbMiss (m : Mmu) (h : Hart) : Hart := { h with mepc := m.tempLabel }

/-! ## Instruction fetch -/

/-- The instruction at an address, as the ISA reads it: 16 bits, or 32 if the
low two bits are set. -/
def instrAt (mem : U64 → U8) (pc : U64) : U64 :=
  if halfAt mem pc &&& 3#64 = 3#64 then halfAt mem pc ||| (halfAt mem (pc + 2#64) <<< 16)
  else halfAt mem pc

/-- The length bits are those of the first halfword. -/
theorem instrAt_and_three {mem : U64 → U8} {pc : U64} :
    instrAt mem pc &&& 3#64 = 3#64 ↔ halfAt mem pc &&& 3#64 = 3#64 := by
  have hhigh : ∀ x : U64, (x <<< 16) &&& 3#64 = 0#64 := by
    intro x
    have heq : (3#64) = BitVec.ofNat 64 (2 ^ 2 - 1) := rfl
    rw [heq, Words.and_lowMask_eq_zero]
    intro i hi
    have hlt : i < 16 := by omega
    simp [hlt]
  by_cases hword : halfAt mem pc &&& 3#64 = 3#64
  · rw [instrAt, if_pos hword, BitVec.and_or_distrib_right, hhigh, BitVec.or_zero]
  · rw [instrAt, if_neg hword]

/-- The trap that fetching the instruction at `pc` takes: the address and the
cause. -/
def Mmu.fetchFault (m : Mmu) (mem : U64 → U8) (pc : U64) : Option (U64 × U64) :=
  match m.lhu pc with
  | some cause => some (pc, cause)
  | none =>
    if halfAt mem pc &&& 3#64 = 3#64 then (m.lhu (pc + 2#64)).map fun cause => (pc + 2#64, cause)
    else none

variable {m : Mmu} {h : Hart} {addr cause : U64}

theorem emuGetInstr_of_ok (hok : m.fetchFault h.mem addr = none) :
    emuGetInstr m addr h = (instrAt h.mem addr, h) := by
  rw [Mmu.fetchFault] at hok
  rcases hlo : m.lhu addr with _ | cause
  · rw [hlo] at hok
    by_cases hlen : halfAt h.mem addr &&& 3#64 = 3#64
    · rcases hhi : m.lhu (addr + 2#64) with _ | cause
      · simp [emuGetInstr, guarded, instrAt, hlo, hlen, hhi]
      · simp [hlen, hhi] at hok
    · simp [emuGetInstr, guarded, instrAt, hlo, hlen]
  · rw [hlo] at hok
    cases hok

theorem emuGetInstr_of_trap {pc : U64} (htrap : m.fetchFault h.mem pc = some (addr, cause)) :
    emuGetInstr m pc h = (0#64, h.trapped m cause addr) := by
  rw [Mmu.fetchFault] at htrap
  rcases hlo : m.lhu pc with _ | c
  · rw [hlo] at htrap
    by_cases hlen : halfAt h.mem pc &&& 3#64 = 3#64
    · simp only [if_pos hlen, Option.map_eq_some_iff, Prod.mk.injEq] at htrap
      obtain ⟨c, hhi, rfl, rfl⟩ := htrap
      simp [emuGetInstr, guarded, trapAccess, Hart.trapped, hlo, hlen, hhi]
    · simp [hlen] at htrap
  · rw [hlo] at htrap
    cases htrap
    simp [emuGetInstr, guarded, trapAccess, Hart.trapped, hlo]

/-! ## Byte accesses -/

theorem emuLoad8_of_ok (hok : m.lbu addr = none) :
    emuLoad8 m addr h = ((h.mem addr).setWidth 64, h) := by
  simp [emuLoad8, guarded, hok]

theorem emuLoad8_of_trap (htrap : m.lbu addr = some cause) :
    emuLoad8 m addr h = (-1#64, h.trapped m cause addr) := by
  simp [emuLoad8, guarded, trapAccess, Hart.trapped, htrap]

theorem emuStore8_of_ok {v : U8} (hok : m.sb addr = none) :
    emuStore8 m addr v h = (v.setWidth 64, { h with mem := Function.update h.mem addr v }) := by
  simp [emuStore8, guarded, hok]

theorem emuStore8_of_trap {v : U8} (htrap : m.sb addr = some cause) :
    emuStore8 m addr v h = (-1#64, h.trapped m cause addr) := by
  simp [emuStore8, guarded, trapAccess, Hart.trapped, htrap]

/-- A byte read back is never mistaken for the error value. -/
theorem byte_not_neg (v : U8) : (v.setWidth 64).slt 0#64 = false := by
  rw [BitVec.slt_zero_eq_msb, BitVec.msb_eq_getLsbD_last, BitVec.getLsbD_setWidth]
  simp

end ScBl
