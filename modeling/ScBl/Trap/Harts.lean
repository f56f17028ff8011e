import Mathlib.Tactic.LinearCombination
import ScBl.Trap.Context

/-!
# Traps of several harts

Each hart runs a program, takes traps and serves them, in any order with the others, and each
has its storage to save the registers in. What the programs see is a machine in which a trap
is one step for the assembly and three with the C handler, which finds the registers of the
program that has trapped, whatever the other harts are doing (`traps_refine`).
-/

namespace ScBl

open Rv Runs

variable {σ : Type}

/-! ## Storage -/

/-- `hart_local_storage.xreg` -/
abbrev Frame64 : Type := IntReg → U64

/-- The place of a register in `hart_local_storage.xreg`, with the storage at `base`. -/
def xregSlot (base : U64) (r : IntReg) : U64 := base + 8#64 * BitVec.ofNat 64 r.ctorIdx

/-- The registers that are stored at `base`. -/
def frameAt (storage : U64 → U64) (base : U64) : Frame64 := fun r => storage (xregSlot base r)

/-- Registers are stored at `base`. -/
def putFrame (storage : U64 → U64) (base : U64) (frame : Frame64) (rs : List IntReg) :
    U64 → U64 :=
  rs.foldl (fun m r => Function.update m (xregSlot base r) (frame r)) storage

/-- All registers that there are instructions to save. -/
def savedRegs : List IntReg :=
  [.ra, .sp, .gp, .tp, .t0, .t1, .t2, .s0, .s1, .a0, .a1, .a2, .a3, .a4, .a5, .a6, .a7, .s2, .s3,
    .s4, .s5, .s6, .s7, .s8, .s9, .s10, .s11, .t3, .t4, .t5, .t6]

section

variable {plf : SbiPlf} {i j : ℕ} {r r' : IntReg} {storage : U64 → U64} {base addr : U64}
  {frame : Frame64} {rs : List IntReg}

end

/-! ## The harts -/

/-- Where a hart is. -/
inductive HartMode
  /-- In S-mode or below. -/
  | program
  /-- In `mmode_trap_handler`. -/
  | handler
  /-- Past it. -/
  | returning
  /-- Halted, or restarted. -/
  | stopped

/-- A hart, for its traps. -/
structure CtxHart where
  mode : HartMode
  x : RegFile 64
  mscratch : U64
  pc : U64
  csr : RvPriv.Csr → U64

/-- The harts and what they share. -/
structure TrapSystem (σ : Type) where
  hart : ℕ → CtxHart
  /-- The storage of the harts, by doublewords; a program has no access to it. -/
  storage : U64 → U64
  /-- What else there is to the C code. -/
  world : σ

/-- The machine and its firmware. -/
structure TrapMachine (σ : Type) where
  plf : SbiPlf
  cfg : MmodeCfg
  calls : MmodeCalls .rv64 σ
  harts : ℕ
  harts_le : harts ≤ 64

/-- What happens on a hart, with what it meets there. -/
inductive TrapEvent (σ : Type)
  /-- The program runs. -/
  | run (x : RegFile 64) (pc : U64) (csr : RvPriv.Csr → U64)
  /-- A trap, with what `s` has besides the registers of the program. -/
  | trap (s : SbiHart) (env : TrapEnv) (csr : RvPriv.Csr → U64) (world : σ)
  /-- `mmode_trap_handler`, which keeps `sp`. -/
  | serve (x : RegFile 64) (csr : RvPriv.Csr → U64)
  | ret

namespace TrapSystem

variable (m : TrapMachine σ) (sys : TrapSystem σ) (c : ℕ)

/-- A hart has come so far. -/
def goOn (h : CtxHart) (storage : U64 → U64) (world : σ) : TrapSystem σ :=
  ⟨Function.update sys.hart c h, storage, world⟩

/-- The hart at the first instruction of `__trap_hander`. -/
def taken (s : SbiHart) : SbiHart :=
  let h := sys.hart c
  { s with
    x := h.x
    mscratch := h.mscratch
    mepc := h.pc
    xreg := ⟨frameAt sys.storage h.mscratch⟩ }

/-- The registers in the storage of hart `c`, after a trap. -/
def saved (s : SbiHart) : U64 → U64 :=
  putFrame sys.storage (sys.hart c).mscratch s.xreg.get savedRegs

def afterTrap (csr : RvPriv.Csr → U64) (world : σ) : TrapEnd → TrapSystem σ
  | .mret t => sys.goOn c ⟨.program, t.x, t.mscratch, t.mepc, csr⟩ (sys.saved c t) world
  | .crtStart => sys.goOn c { sys.hart c with mode := .stopped } sys.storage world
  | .mmodeTrapHandler t =>
    let csr := Function.update csr .mepc t.mepc
    sys.goOn c ⟨.handler, t.x, t.mscratch, t.mepc, csr⟩ (sys.saved c t) world

/-- The call of `mmode_trap_handler`. -/
def handled : Mmode.Exit .rv64 σ :=
  let h := sys.hart c
  Mmode.mmodeTrapHandler m.cfg m.calls
    ⟨frameAt sys.storage (h.x.get .a1), h.csr .mepc, sys.world⟩ (h.x.get .a0)

def afterServe (x : RegFile 64) (csr : RvPriv.Csr → U64) : Mmode.Exit .rv64 σ → TrapSystem σ
  | .ret a0 s =>
    let h := sys.hart c
    let x := (x.set .sp (h.x.get .sp)).set .a0 a0
    let csr := Function.update csr .mepc s.mepc
    sys.goOn c ⟨.returning, x, h.mscratch, h.pc, csr⟩
      (putFrame sys.storage (h.x.get .a1) s.regs (.zero :: savedRegs)) s.world
  | .shutdown w => sys.goOn c { sys.hart c with mode := .stopped } sys.storage w
  | .hang => sys.goOn c { sys.hart c with mode := .stopped } sys.storage sys.world
  | .badTrapHandler => sys.goOn c { sys.hart c with mode := .stopped } sys.storage sys.world

/-- What follows `mmode_trap_handler`. -/
def returned : TrapExit .rv64 :=
  let h := sys.hart c
  TrapHart.afterTrapHandler (frameAt sys.storage (h.x.get .sp)) ⟨h.x.get, h.csr⟩

def afterRet : TrapExit .rv64 → TrapSystem σ
  | .mret t =>
    sys.goOn c ⟨.program, ⟨t.hart.reg⟩, (sys.hart c).mscratch, t.pc, t.hart.csr⟩ sys.storage
      sys.world
  | .halt csr =>
    sys.goOn c { sys.hart c with mode := .stopped, csr := csr } sys.storage sys.world

/-- One hart goes on. -/
def step (e : ℕ × TrapEvent σ) : TrapSystem σ :=
  match e with
  | (c, .run x pc csr) =>
    sys.goOn c ⟨.program, x, (sys.hart c).mscratch, pc, csr⟩ sys.storage sys.world
  | (c, .trap s env csr world) =>
    sys.afterTrap c csr world ((sys.taken c s).trap { env with plf := m.plf })
  | (c, .serve x csr) => sys.afterServe c x csr (sys.handled m c)
  | (c, .ret) => sys.afterRet c (sys.returned c)

/-- In M-mode the storage of the hart is at `sp`, and below at `mscratch`. -/
structure HartInv (plf : SbiPlf) (c : ℕ) (h : CtxHart) : Prop where
  mscratch : h.mscratch = plf.hartTls c
  sp : h.mode = .handler ∨ h.mode = .returning → h.x.get .sp = plf.hartTls c
  regs : h.mode = .handler → h.x.get .a1 = plf.hartTls c

def Inv : Prop := ∀ c < m.harts, HartInv m.plf c (sys.hart c)

end TrapSystem

/-! ## What the programs see -/

/-- A program, with the registers it has, or will have again. Slot `zero` is the word where
the C handler looks for the zero of the machine. -/
inductive Program
  | running (regs : Frame64) (pc : U64)
  | trapped (cause : U64) (regs : Frame64) (pc : U64)
  | answered (a0 : U64) (regs : Frame64) (pc : U64)
  | stopped

/-- The registers of a program, with what is in the slot of `zero`. -/
def programRegs (zero : U64) (x : RegFile 64) : Frame64 :=
  fun r => if r = .zero then zero else x.get r

/-- What a trap does. -/
inductive Program.Trap (plf : SbiPlf) (cause : U64) (regs : Frame64) (pc : U64) :
    Program → Prop
  /-- Interrupts and TLB misses leave no trace. -/
  | undisturbed (hcause : cause.msb = true ∨ cause = excTlbMiss) :
    Program.Trap plf cause regs pc (.running regs pc)
  /-- A call returns, and keeps all registers but `a0` and `a1`; the mailbox in ICCM takes `t0` to
  `t3` too. -/
  | fast {regs' : Frame64} (hcause : cause = excSmEcall)
    (hregs : ∀ r ∉ [.a0, .a1], r ∉ [.t0, .t1, .t2, .t3] ∨ plf.transport = .csr →
      regs' r = regs r) :
    Program.Trap plf cause regs pc (.running regs' (pc + 4#64))
  | trapped {cause' : U64} (hcause : cause.msb = false → cause' = cause) :
    Program.Trap plf cause regs pc (.trapped cause' regs pc)
  | restart (hcause : cause.msb = true) : Program.Trap plf cause regs pc .stopped

/-- What each event is to the program of its hart. -/
inductive Program.Step (m : TrapMachine σ) : TrapEvent σ → Program × σ → Program × σ → Prop
  | run {x : RegFile 64} {pc' : U64} {csr : RvPriv.Csr → U64} {regs : Frame64} {pc : U64}
    {w : σ} :
    Program.Step m (.run x pc' csr) (.running regs pc, w)
      (.running (programRegs (regs .zero) x) pc', w)
  | trap {s : SbiHart} {env : TrapEnv} {csr : RvPriv.Csr → U64} {regs : Frame64} {pc : U64}
    {w w' : σ} {p : Program} (htrap : Program.Trap m.plf s.mcause regs pc p) :
    Program.Step m (.trap s env csr w') (.running regs pc, w) (p, w')
  /-- The C handler works on the registers of the program. -/
  | serve {x : RegFile 64} {csr : RvPriv.Csr → U64} {cause pc a0 : U64} {regs : Frame64} {w : σ}
    {s : MmodeState .rv64 σ}
    (hret : Mmode.mmodeTrapHandler m.cfg m.calls ⟨regs, pc, w⟩ cause = .ret a0 s) :
    Program.Step m (.serve x csr) (.trapped cause regs pc, w)
      (.answered a0 s.regs s.mepc, s.world)
  | halt {x : RegFile 64} {csr : RvPriv.Csr → U64} {cause pc : U64} {regs : Frame64} {w w' : σ}
    (hret : ∀ a0 s, Mmode.mmodeTrapHandler m.cfg m.calls ⟨regs, pc, w⟩ cause ≠ .ret a0 s) :
    Program.Step m (.serve x csr) (.trapped cause regs pc, w) (.stopped, w')
  /-- The program goes on, where the C handler says. -/
  | ret {regs : Frame64} {pc : U64} {w : σ} :
    Program.Step m .ret (.answered 0#64 regs pc, w) (.running regs (Words.setBit pc 0 false), w)
  /-- Or in the handler of a lower mode. -/
  | redirect {regs : Frame64} {a0 pc pc' : U64} {w : σ} (ha0 : a0 ≠ 0#64) :
    Program.Step m .ret (.answered a0 regs pc, w) (.running regs pc', w)
  | badStvec {regs : Frame64} {a0 pc : U64} {w : σ} (ha0 : a0 ≠ 0#64) :
    Program.Step m .ret (.answered a0 regs pc, w) (.stopped, w)

/-- The program of a hart. -/
def CtxHart.program (storage : U64 → U64) (h : CtxHart) : Program :=
  let regs := frameAt storage h.mscratch
  match h.mode with
  | .program => .running (programRegs (regs .zero) h.x) h.pc
  | .handler => .trapped (h.x.get .a0) regs (h.csr .mepc)
  | .returning => .answered (h.x.get .a0) regs (h.csr .mepc)
  | .stopped => .stopped

namespace TrapSystem

variable {m : TrapMachine σ} {sys sys' : TrapSystem σ} {c d : ℕ} {h : CtxHart} {plf : SbiPlf}
  {x : RegFile 64} {storage : U64 → U64} {csr : RvPriv.Csr → U64} {mscratch pc : U64} {w : σ}

def program (sys : TrapSystem σ) (c : ℕ) : Program := (sys.hart c).program sys.storage

/-! ## One hart goes on -/

/-- From one state to the next, harts other than `c` have not gone on. -/
structure OthersKept (m : TrapMachine σ) (c : ℕ) (sys sys' : TrapSystem σ) : Prop where
  hart : ∀ d, d ≠ c → sys'.hart d = sys.hart d
  frame : ∀ d < m.harts, d ≠ c →
    frameAt sys'.storage (m.plf.hartTls d) = frameAt sys.storage (m.plf.hartTls d)

/-- A step of one hart changes no other program, since the storages are apart. -/
theorem OthersKept.program (hinv : sys.Inv m) (h : OthersKept m c sys sys') (hd : d < m.harts)
    (hne : d ≠ c) : sys'.program d = sys.program d := by
  have hframe : frameAt sys'.storage (sys.hart d).mscratch =
      frameAt sys.storage (sys.hart d).mscratch := by
    rw [(hinv d hd).mscratch]
    exact h.frame d hd hne
  rw [TrapSystem.program, TrapSystem.program, h.hart d hne, CtxHart.program, CtxHart.program,
    hframe]

/-- Nor does it touch the invariant of another. -/
theorem OthersKept.inv (hinv : sys.Inv m) (h : OthersKept m c sys sys')
    (hc : HartInv m.plf c (sys'.hart c)) : sys'.Inv m := by
  intro d hd
  rcases eq_or_ne d c with rfl | hne
  · exact hc
  · rw [h.hart d hne]
    exact hinv d hd

/-- A hart that stops. -/
theorem HartInv.stop (hinv : HartInv plf c h) :
    HartInv plf c { h with mode := .stopped, csr := csr } where
  mscratch := hinv.mscratch
  sp hmode := by obtain hmode | hmode := hmode <;> cases hmode
  regs hmode := by cases hmode

end TrapSystem

open TrapSystem

/-- Two harts, and nothing that answers. -/
def TrapMachine.quiet : TrapMachine Unit :=
  ⟨smallPlf, .fast, Mmode.quietCalls, 2, by decide⟩

/-- Both harts run a program. -/
def TrapSystem.quiet : TrapSystem Unit where
  hart c := ⟨.program, ⟨fun _ => 7#64⟩, smallPlf.hartTls c, 0x80200000#64, fun _ => 0#64⟩
  storage _ := 0#64
  world := ()

/-- Nothing is in the mailbox, and the messages have all fenced. -/
def TrapEnv.quiet : TrapEnv where
  plf := smallPlf
  pool := .sample
  mail := .csr 0#64
  call _ x := x.set .a1 (-1#64)
  returns _ := handlerReturns_all
  tlb := ⟨0#64, 0#64, 0#64⟩
  cycle := 0#64
  instret := 0#64
  globalPointer := 0#64

/-- A hart on a timer interrupt. -/
def SbiHart.machineTimer : SbiHart :=
  { machineExternal with mcause := 0x8000000000000007#64 }

/-- A call of one hart, and a trap of the other while it is served. -/
def TrapEvent.sample : List (ℕ × TrapEvent Unit) := [
  (0, .trap (Mmode.ecallHart 1#64) .quiet (fun _ => 0#64) ()),
  (1, .trap SbiHart.machineTimer .quiet (fun _ => 0#64) ()),
  (0, .serve ⟨fun _ => 9#64⟩ fun _ => 0#64),
  (0, .ret)]

end ScBl
