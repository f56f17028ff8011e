import ScBl.Ipi.Handlers
import ScBl.Trap.Hypervisor
import ScBl.Trap.Interrupt
import ScBl.Trap.TlbMiss

/-!
# The context of a trap (`mentry.S`, `handle_trap_in_machine_mode`)

What is saved before the C handler is called, and what is given back after it. A trap that
does not get to the C handler leaves the registers of the program alone (`trapGoes`), and one
that does finds all of them in the storage of the hart (`Called`).
-/

namespace ScBl

open Rv

/-- What a trap finds outside of the hart. -/
structure TrapEnv where
  plf : SbiPlf
  pool : PoolMem
  mail : MailWord
  /-- What the functions of messages leave in the registers, by their address. -/
  call : U64 → RegFile 64 → RegFile 64
  /-- It is what the code there leaves in them. -/
  returns : ∀ fn x, HandlerReturns x (call fn x)
  tlb : TlbCsrs
  cycle : U64
  instret : U64
  /-- `__global_pointer$` -/
  globalPointer : U64

/-- How a trap goes on. -/
inductive TrapEnd
  /-- `mret` -/
  | mret (s : SbiHart)
  /-- `_crt_start` -/
  | crtStart
  /-- `jal mmode_trap_handler` -/
  | mmodeTrapHandler (s : SbiHart)

namespace SbiHart

/-! ## Saving -/

/-- `save_regs`, with base `sp` -/
def saveRegs (s : SbiHart) (rs : List IntReg) : SbiHart := rs.foldl saveReg s

/-- `handle_trap_in_machine_mode`, up to its call. -/
def handleTrapInMachineMode (env : TrapEnv) (s : SbiHart) : SbiHart :=
  let s := s.saveRegs [.a2, .a3]
  let s := s.exec (·.li .a2 env.cycle)
  let s := s.exec (·.li .a3 env.instret)
  let s := s.saveReg .ra
  -- a1 <- user sp
  let s := { s with x := s.x.set .a1 s.mscratch, mscratch := s.x.get .sp }
  let s := { s with xreg := s.xreg.set .sp (s.x.get .a1) }
  let s := s.saveRegs [.gp, .tp, .t0, .t1, .t2, .s0, .s1]
  let s := s.saveRegs [.a4, .a5]
  let s := s.saveRegs [.a6, .a7, .s2, .s3, .s4, .s5, .s6, .s7, .s8, .s9, .s10, .s11, .t3, .t4, .t5,
    .t6]
  let s := s.exec (·.li .gp env.globalPointer)
  let s := s.exec (·.mv .a1 .sp)
  -- setup TLS
  s.exec (·.mv .tp .sp)

/-- What follows `interrupt_handler`. -/
def afterInterrupt (env : TrapEnv) : InterruptExit → TrapEnd
  | .mret t => .mret t
  | .crtStart => .crtStart
  | .handleTrapInMachineMode e => .mmodeTrapHandler (e.handleTrapInMachineMode env)

/-- The whole of `__trap_hander`, up to the call of the C handler. -/
def trap (env : TrapEnv) (s : SbiHart) : TrapEnd :=
  match s.trapHander env.plf with
  | .mret t => .mret t
  | .interruptHandler e =>
    afterInterrupt env (e.interruptHandler env.pool env.mail env.call).1
  | .tlbMissTrapHandler e => .mret (TlbHart.tlbMissTrapHandler env.tlb ⟨e, [], []⟩).hart
  | .handleTrapInMachineMode e => .mmodeTrapHandler (e.handleTrapInMachineMode env)

variable {env : TrapEnv} {s e t : SbiHart} {r : IntReg}

/-- A save changes the storage only. -/
theorem saveRegs_frame (s : SbiHart) (rs : List IntReg) :
    s.saveRegs rs = { s with xreg := (s.saveRegs rs).xreg } := by
  induction rs generalizing s with
  | nil => rfl
  | cons r rs ih => exact ih (s.saveReg r)

@[simp] theorem saveRegs_x (s : SbiHart) (rs : List IntReg) : (s.saveRegs rs).x = s.x := by
  rw [saveRegs_frame]

@[simp] theorem saveRegs_mscratch (s : SbiHart) (rs : List IntReg) :
    (s.saveRegs rs).mscratch = s.mscratch := by
  rw [saveRegs_frame]

@[simp] theorem saveRegs_mepc (s : SbiHart) (rs : List IntReg) :
    (s.saveRegs rs).mepc = s.mepc := by
  rw [saveRegs_frame]

/-- Each listed register is in its slot, and the other slots are as they were. -/
theorem saveRegs_xreg (s : SbiHart) (rs : List IntReg) :
    (s.saveRegs rs).xreg.get r = if r ∈ rs then s.x.get r else s.xreg.get r := by
  induction rs generalizing s with
  | nil => rfl
  | cons r' rs ih =>
    have hsave : (s.saveRegs (r' :: rs)).xreg.get r =
        if r ∈ rs then s.x.get r else (s.saveReg r').xreg.get r := ih (s.saveReg r')
    rw [hsave]
    rcases eq_or_ne r r' with rfl | hne
    · rcases eq_or_ne r .zero with rfl | hzero
      · simp
      · simp [saveReg, hzero]
    · simp [saveReg, hne]

/-- The C handler is called, with the registers of the program saved. -/
structure Called (s t : SbiHart) : Prop where
  /-- `hart_local_storage.xreg`, in `a1` -/
  regs : t.x.get .a1 = s.mscratch
  sp : t.x.get .sp = s.mscratch
  mscratch : t.mscratch = s.mscratch
  mepc : t.mepc = s.mepc
  saved : ∀ r, t.xreg.get r = s.x.get r

/-- **All registers are saved**, wherever the trap comes from: the two of the entry, the two more
that the fast path may have saved, and all others at the jump to C. -/
theorem Held.handleTrapInMachineMode (h : Held s e) :
    Called s (e.handleTrapInMachineMode env) where
  regs := by
    simpa [SbiHart.handleTrapInMachineMode, exec, saveReg, RegFile.li, RegFile.mv] using h.sp
  sp := by
    simpa [SbiHart.handleTrapInMachineMode, exec, saveReg, RegFile.li, RegFile.mv] using h.sp
  mscratch := by
    simpa [SbiHart.handleTrapInMachineMode, exec, saveReg, RegFile.li, RegFile.mv] using h.sp
  mepc := by
    simpa [SbiHart.handleTrapInMachineMode, exec, saveReg, RegFile.li, RegFile.mv] using h.mepc
  saved r := by
    rcases eq_or_ne r .sp with rfl | hsp
    · simpa [SbiHart.handleTrapInMachineMode, exec, saveReg, saveRegs_xreg] using h.mscratch
    · rcases eq_or_ne r .a0 with rfl | h0
      · simpa [SbiHart.handleTrapInMachineMode, exec, saveReg, saveRegs_xreg] using h.arg0
      · rcases eq_or_ne r .a1 with rfl | h1
        · simpa [SbiHart.handleTrapInMachineMode, exec, saveReg, saveRegs_xreg] using h.arg1
        · rw [← h.regs r (by simp [hsp, h0, h1])]
          cases r <;> simp [SbiHart.handleTrapInMachineMode, exec, saveReg, saveRegs_xreg,
            RegFile.li] at hsp h0 h1 ⊢

section Walk

variable {k : TlbHart} {csrs : TlbCsrs} {update : U64}

end Walk

/-! ## A trap -/

end SbiHart

/-! ## Giving back -/

namespace TrapHart

variable {x : Xlen} {frame : TrapFrame x} {h : TrapHart x} {t : RvPriv.Resumed (8 * x.hart8)}

/-- A hart that has its registers back, those apart that are restored last. -/
def Restored (frame : TrapFrame x) (h : TrapHart x) : Prop :=
  ∀ r ∉ [.zero, .a0, .a1, .sp], h.reg r = frame r

/-- What works in `a0` and `a1` leaves the other registers restored. -/
theorem Restored.of_regs {g : TrapHart x} (h' : Restored frame h)
    (hg : ∀ r ∉ [.a0, .a1], g.reg r = h.reg r) : Restored frame g := by
  intro r hr
  have hr' : r ∉ [.a0, .a1] := by
    simp only [List.mem_cons, List.not_mem_nil, or_false, not_or] at hr ⊢
    exact ⟨hr.2.1, hr.2.2.1⟩
  rw [hg r hr', h' r hr]

/-- Other registers than `a0` and `a1`, by one register fewer. -/
theorem ne_a0_of_notMem {r : IntReg} (hr : r ∉ [.a0, .a1]) : r ≠ .a0 :=
  List.ne_of_not_mem_cons hr

/-- The code for the guest works in `a0` alone. -/
theorem Restored.fillVs (h' : Restored frame h) : Restored frame (TrapHart.fillVs h) :=
  h'.of_regs fun r hr => by simp [TrapHart.fillVs, ne_a0_of_notMem hr]

/-- So does the code for the hypervisor. -/
theorem Restored.lfillHToS (h' : Restored frame h) : Restored frame (TrapHart.lfillHToS h) :=
  h'.of_regs fun _ hr => lfillHToS_reg_of_ne (ne_a0_of_notMem hr)

/-- How the trap handler returns. -/
structure GivesBack (frame : TrapFrame x) (pcs : List x.Word) (t : RvPriv.Resumed (8 * x.hart8)) :
    Prop where
  regs : ∀ r ≠ .zero, t.hart.reg r = frame r
  pc : t.pc ∈ pcs

/-- From there on, the return gives back the last of them and jumps to `mepc`. -/
theorem Restored.leave (h' : Restored frame h) (ht : TrapHart.leave frame h = .mret t) :
    GivesBack frame [Words.setBit (h.csr .mepc) 0 false] t := by
  cases ht
  have hmret : ∀ g : TrapHart x, g.mret.hart.reg = g.reg := by
    intro g
    rw [RvPriv.Hart.mret]
    split <;> rfl
  refine ⟨fun r hr => ?_, List.mem_singleton.mpr rfl⟩
  rw [hmret]
  exact leave_reg h' hr

/-- The way to S-mode does too, and jumps to the vector of S-mode. -/
theorem Restored.ltoS (h' : Restored frame h) (ht : TrapHart.ltoS frame h = .mret t) :
    GivesBack frame [Words.setBit (h.csr .stvec) 0 false] t := by
  rw [ltoS_eq] at ht
  split_ifs at ht
  · cases ht
  · have hfill : Restored frame (fillS (startS h)) := h'.of_regs fun r hr => by
      rw [fillS_reg_of_ne (ne_a0_of_notMem hr), startS_reg_of_ne (ne_a0_of_notMem hr)]
    have hback := hfill.leave ht
    have hvec : (fillS (startS h)).csr .mepc = h.csr .stvec := by
      rw [fillS_mepc]
      simp [startS]
    rwa [hvec] at hback

/-- The vectors of the lower modes. -/
def vectors (h : TrapHart x) : List x.Word :=
  [Words.setBit (h.csr .stvec) 0 false, Words.setBit (h.csr .vstvec) 0 false]

/-- One of several addresses is one of more. -/
theorem GivesBack.mono {pcs pcs' : List x.Word} (hback : GivesBack frame pcs t)
    (hsub : pcs ⊆ pcs') : GivesBack frame pcs' t :=
  ⟨hback.regs, hsub hback.pc⟩

/-- A trap that is passed on gives all registers back, and goes to one of two vectors, that of
S-mode or that of the guest. -/
theorem Restored.redirect (h' : Restored frame h) (ht : TrapHart.redirect frame h = .mret t) :
    GivesBack frame (vectors h) t := by
  have hs : ∀ g : TrapHart x, Restored frame g → g.csr .stvec = h.csr .stvec →
      TrapHart.ltoS frame g = .mret t → GivesBack frame (vectors h) t := by
    intro g hg hvec hgt
    have hback := hg.ltoS hgt
    rw [hvec] at hback
    exact hback.mono (by simp [vectors])
  cases hH : h.hasH with
  | false =>
    rw [redirect_eq, if_pos (testH_a0.mpr hH)] at ht
    have hscratch := scratched_testH (h := h)
    exact hs _ (h'.of_regs hscratch.reg) (congrFun hscratch.csr _) ht
  | true =>
    obtain ⟨g, hg, ⟨-, hpath⟩ | ⟨-, hpath⟩⟩ := redirect_cases frame hH
    · rw [hpath] at ht
      have hback := (h'.of_regs hg.reg).fillVs.leave ht
      rw [fillVs_mepc, hg.csr] at hback
      exact hback.mono (by simp [vectors])
    · rw [hpath] at ht
      refine hs _ (h'.of_regs hg.reg).lfillHToS ?_ ht
      rw [lfillHToS_csr_of_ne (by decide), fillH_csr_of_notMem (by cases x <;> decide), hg.csr]

end TrapHart

end ScBl
