import ScBl.Xlen
import ScBl.Lib.Bytes
import ScBl.Lib.Doorway
import ScBl.Lib.Runs
import Mathlib.Data.Fin.Embedding

/-!
# The spinlock without atomic instructions (`spinlock.c`)

Szymanski's algorithm on a word that holds one byte for each hart. A step of the
system is one access of a hart to the word, a read of it or a write of its own
byte.

The entry protocol is to publish 1, "standing outside waiting room", but writes
the encoding of 0. So a hart that has found the door open is not seen by the
others, nobody is ever sent to the waiting room, and two harts get in
(`spin_lock_two_inside`). What saves a run is that no hart goes through the
doorway too late (`spin_lock_exclusive`).
-/

namespace ScBl

open Bytes Runs

/-! ## Words and masks -/

/-- `ASP_ST0` to `ASP_ST4` -/
def aspSt (k : ℕ) : BitVec 8 := 1#8 <<< k

/-- `MK_ASP_MASK(v)` -/
def mkAspMask : (x : Xlen) → BitVec 8 → x.Word
  | .rv32, v =>
    let v : BitVec 32 := v.setWidth 32
    v <<< 0 ||| v <<< 8 ||| v <<< 16 ||| v <<< 24
  | .rv64, v =>
    let v : BitVec 64 := v.setWidth 64
    v <<< 0 ||| v <<< 8 ||| v <<< 16 ||| v <<< 24 ||| v <<< 32 ||| v <<< 40 ||| v <<< 48 |||
      v <<< 56

/-- `v << bits` on an `int`: the instruction takes the low five bits of the
amount. -/
def shiftInt (v : BitVec 32) (bits : ℕ) : BitVec 32 := v <<< (bits % 32)

section Masks

variable (x : Xlen) (pos : ℕ)

/-- `self_mask = 0xff << self_bits` -/
def selfMask : x.Word := (shiftInt 0xff#32 (pos <<< 3)).signExtend _

/-- `hi_mask = ~((1 << self_bits) - 1)` -/
def hiMask : x.Word := (~~~(shiftInt 1#32 (pos <<< 3) - 1#32)).signExtend _

/-- `low_mask = ((1 << self_bits) - 1)` -/
def lowMask : x.Word := (shiftInt 1#32 (pos <<< 3) - 1#32).signExtend _

/-- What the last wait of `arch_spin_lock` lets pass. -/
def lockMask : x.Word := mkAspMask x (aspSt 0 ||| aspSt 1) ||| hiMask x pos ||| selfMask x pos

/-- What the wait of `arch_spin_unlock` lets pass. -/
def unlockMask : x.Word := mkAspMask x (aspSt 0 ||| aspSt 1 ||| aspSt 4) ||| lowMask x pos

end Masks

/-! ## Harts -/

/-- Where a hart is: what it does next. -/
inductive SpinPc
  /-- It calls `arch_spin_lock`, and reads its own flag. -/
  | unlocked
  /-- Before the write of `ASP_ST0`, "standing outside waiting room" -/
  | outside
  /-- "Wait for open door" -/
  | waitOpen
  /-- Before the write of `ASP_ST3`, "standing in doorway" -/
  | doorway
  /-- Looks for another process that is waiting to enter. -/
  | look
  /-- Before the write of `ASP_ST2` -/
  | retreat
  /-- "Wait for a process to enter and close the door" -/
  | waitClose
  /-- Before the write of `ASP_ST4`, "the door is closed" -/
  | close
  /-- "Wait for everyone of lower ID to finish exit protocol" -/
  | waitLower
  /-- `arch_spin_lock` has returned; the hart calls `arch_spin_unlock` next. -/
  | critical
  /-- "Ensure everyone in the waiting room has realized that the door is supposed
  to be closed" -/
  | waitHigher
  /-- Before the write of `ASP_ST0` that leaves -/
  | leave
  deriving DecidableEq, Repr

/-- The bytes of the lock and the harts. -/
structure Spin (n : ℕ) where
  flags : ℕ → BitVec 8
  pc : Fin n → SpinPc

namespace Spin

variable {n : ℕ}

/-- `SPINLOCK_INIT(0)`, nobody has called yet. -/
def init : Spin n where
  flags := fun _ => 0#8
  pc := fun _ => .unlocked

/-- `asp_read_flags` -/
def aspReadFlags (x : Xlen) (s : Spin n) : x.Word := leWord s.flags x.hart8

/-- `asp_write_flag` -/
def aspWriteFlag (s : Spin n) (pos : ℕ) (val : BitVec 8) : Spin n :=
  { s with flags := Function.update s.flags pos val }

def goto (s : Spin n) (h : Fin n) (pc : SpinPc) : Spin n :=
  { s with pc := Function.update s.pc h pc }

/-- The test that ends `asp_wait_all_in`. -/
def AspAllIn {x : Xlen} (flags mask : x.Word) : Prop := flags &&& ~~~mask = 0#_

/-- The test that ends `asp_wait_any_eq`. -/
def AspAnyEq {x : Xlen} (flags mask : x.Word) : Prop := flags &&& mask ≠ 0#_

instance {x : Xlen} (flags mask : x.Word) : Decidable (AspAllIn flags mask) :=
  inferInstanceAs (Decidable (_ = _))

instance {x : Xlen} (flags mask : x.Word) : Decidable (AspAnyEq flags mask) :=
  inferInstanceAs (Decidable (_ ≠ _))

variable {x : Xlen} (ipiN : Fin n ↪ Fin x.hart8)

/-- One access of hart `h` to the lock, in `arch_spin_lock` and `arch_spin_unlock`. -/
def step (s : Spin n) (h : Fin n) : Spin n :=
  let pos : ℕ := ipiN h
  match s.pc h with
  | .unlocked =>
    -- ignore recursive call
    if s.flags pos = aspSt 4 then s.goto h .critical else s.goto h .outside
  | .outside => (s.aspWriteFlag pos (aspSt 0)).goto h .waitOpen
  | .waitOpen =>
    if AspAllIn (s.aspReadFlags x) (mkAspMask x (aspSt 0 ||| aspSt 1 ||| aspSt 2)) then
      s.goto h .doorway
    else s
  | .doorway => (s.aspWriteFlag pos (aspSt 3)).goto h .look
  | .look =>
    if s.aspReadFlags x &&& mkAspMask x (aspSt 1) ≠ 0#_ then s.goto h .retreat
    else s.goto h .close
  | .retreat => (s.aspWriteFlag pos (aspSt 2)).goto h .waitClose
  | .waitClose =>
    -- the mask is `ASP_ST4` itself, which is the flag of position 0 alone
    if AspAnyEq (s.aspReadFlags x) ((aspSt 4).setWidth _) then s.goto h .close else s
  | .close => (s.aspWriteFlag pos (aspSt 4)).goto h .waitLower
  | .waitLower => if AspAllIn (s.aspReadFlags x) (lockMask x pos) then s.goto h .critical else s
  | .critical => s.goto h .waitHigher
  | .waitHigher => if AspAllIn (s.aspReadFlags x) (unlockMask x pos) then s.goto h .leave else s
  | .leave => (s.aspWriteFlag pos (aspSt 0)).goto h .unlocked

/-! ## Mutual exclusion -/

/-- No two harts are past the return of `arch_spin_lock` and before their unlock. -/
def Exclusive (s : Spin n) : Prop :=
  ∀ h k, s.pc h = .critical → s.pc k = .critical → h = k

instance (s : Spin n) : Decidable s.Exclusive :=
  inferInstanceAs (Decidable (∀ _ _, _ → _ → _))

end Spin

/-- The hart has gone through the doorway, and has not left yet. -/
def SpinPc.inside : SpinPc → Bool
  | unlocked => false
  | outside => false
  | waitOpen => false
  | doorway => false
  | _ => true

namespace Spin

variable {n : ℕ} {x : Xlen} (ipiN : Fin n ↪ Fin x.hart8)

/-- The last wait of hart `p` looks at the flag of hart `q`: `q` has the lower
position, and above position 3 the masks start over. -/
def Tests (p q : Fin n) : Prop := (ipiN q : ℕ) < (ipiN p : ℕ) % 4

instance (p q : Fin n) : Decidable (Tests ipiN p q) := inferInstanceAs (Decidable (_ < _))

/-- **In time.** When hart `h` is about to write `ASP_ST3`, nobody that waits for
it is in the critical section, and of those where neither waits for the other
nobody is inside. -/
def InTime (s : Spin n) (h : Fin n) : Prop :=
  s.pc h = .doorway → ∀ q, q ≠ h →
    (Tests ipiN q h → s.pc q ≠ .critical) ∧
      (¬ Tests ipiN q h → ¬ Tests ipiN h q → (s.pc q).inside = false)

instance (s : Spin n) (h : Fin n) : Decidable (InTime ipiN s h) :=
  inferInstanceAs (Decidable (_ → ∀ _, _ → _ ∧ _))

/-- Two harts at positions 0 and 1. -/
def two : Fin 2 ↪ Fin Xlen.rv64.hart8 := Fin.castLEEmb (by decide)

/-- Both harts find the door open. Hart 1 goes all the way before hart 0 steps into
the doorway, and hart 0 follows it. -/
theorem spin_lock_two_inside :
    ¬ (run (step two) init [0, 0, 0, 1, 1, 1, 1, 1, 1, 1, 0, 0, 0, 0]).Exclusive := by
  decide

/-! ## What keeps a run safe -/

/-- A flag of 0, `ASP_ST0` or `ASP_ST1`: the last wait lets it pass. -/
def Small (flag : BitVec 8) : Prop := flag &&& ~~~(aspSt 0 ||| aspSt 1) = 0#8

instance (flag : BitVec 8) : Decidable (Small flag) := inferInstanceAs (Decidable (_ = _))

theorem small_of_bits {flag : BitVec 8} (h : ∀ b : Fin 8, 2 ≤ b → flag.getLsbD b = false) :
    Small flag := by
  have hmask : ∀ b : Fin 8, (~~~(aspSt 0 ||| aspSt 1)).getLsbD b = true → 2 ≤ b := by decide
  refine BitVec.eq_of_getLsbD_eq fun b hb => ?_
  rw [BitVec.getLsbD_and, BitVec.getLsbD_zero, Bool.and_eq_false_iff]
  by_cases hbit : (~~~(aspSt 0 ||| aspSt 1)).getLsbD b = true
  · exact .inl (h ⟨b, hb⟩ (hmask ⟨b, hb⟩ hbit))
  · exact .inr (Bool.eq_false_of_not_eq_true hbit)

/-- What the mask leaves out at the byte of a lower position. -/
theorem lockMask_bit : ∀ (x : Xlen) (p q : Fin x.hart8) (b : Fin 8), (q : ℕ) < (p : ℕ) % 4 →
    2 ≤ b → (lockMask x p).getLsbD (8 * q + b) = false := by
  intro x
  cases x
  · decide +kernel
  · decide +kernel

/-- A flag that a wait has let pass has no bit that the mask leaves out. -/
theorem bit_of_aspAllIn {s : Spin n} {mask : x.Word} (h : AspAllIn (s.aspReadFlags x) mask)
    (q : Fin x.hart8) (b : Fin 8) (hmask : mask.getLsbD (8 * q + b) = false) :
    (s.flags q).getLsbD b = false := by
  have hlt : 8 * (q : ℕ) + b < 8 * x.hart8 := by omega
  have hbit := congrArg (BitVec.getLsbD · (8 * (q : ℕ) + b)) h
  have heq : (8 * (q : ℕ) + b) / 8 = q := by omega
  have heq' : (8 * (q : ℕ) + b) % 8 = b := by omega
  simp only [BitVec.getLsbD_and, BitVec.getLsbD_not, hmask, aspReadFlags, getLsbD_leWord, hlt,
    heq, heq'] at hbit
  simpa using hbit

/-- The flags follow the harts. -/
def FlagsOk (s : Spin n) : Prop := ∀ h, Small (s.flags (ipiN h)) ↔ (s.pc h).inside = false

variable {ipiN} {s : Spin n} {h : Fin n}

theorem FlagsOk.goto {pc : SpinPc} (hok : FlagsOk ipiN s) (hpc : pc.inside = (s.pc h).inside) :
    FlagsOk ipiN (s.goto h pc) := by
  intro k
  by_cases hk : k = h
  · subst hk
    simpa [Spin.goto, hpc] using hok k
  · simpa [Spin.goto, hk] using hok k

theorem FlagsOk.write {v : BitVec 8} {pc : SpinPc} (hok : FlagsOk ipiN s)
    (hv : Small v ↔ pc.inside = false) :
    FlagsOk ipiN ((s.aspWriteFlag (ipiN h) v).goto h pc) := by
  intro k
  by_cases hk : k = h
  · subst hk
    simpa [Spin.goto, aspWriteFlag] using hv
  · have hne : (ipiN k : ℕ) ≠ ipiN h := fun he => hk (ipiN.injective (Fin.ext he))
    simpa [Spin.goto, aspWriteFlag, hk, hne] using hok k

/-- **What a step can do.** Only the write of `ASP_ST3` brings a hart inside, and
the critical section is entered when the harts of lower position are outside. -/
theorem step_cases (hok : FlagsOk ipiN s) :
    step ipiN s h = s ∨
    (∃ pc, step ipiN s h = s.goto h pc ∧ pc.inside = (s.pc h).inside ∧
      (pc = .critical → ∀ q, Tests ipiN h q → (s.pc q).inside = false)) ∨
    (∃ v pc, step ipiN s h = (s.aspWriteFlag (ipiN h) v).goto h pc ∧
      (Small v ↔ pc.inside = false) ∧ pc ≠ .critical ∧
      (pc.inside = true → (s.pc h).inside = true ∨ s.pc h = .doorway)) := by
  have hself := hok h
  rw [step]
  rcases hpc : s.pc h <;> simp only [hpc] at hself ⊢
  case unlocked =>
    have hflag : s.flags (ipiN h) ≠ aspSt 4 := by
      intro he
      rw [he] at hself
      exact absurd (hself.mpr rfl) (by decide)
    rw [if_neg hflag]
    exact .inr (.inl ⟨.outside, rfl, rfl, nofun⟩)
  case outside => exact .inr (.inr ⟨_, _, rfl, by decide, nofun, nofun⟩)
  case waitOpen =>
    split_ifs
    · exact .inr (.inl ⟨_, rfl, rfl, nofun⟩)
    · exact .inl rfl
  case doorway => exact .inr (.inr ⟨_, _, rfl, by decide, nofun, fun _ => .inr trivial⟩)
  case look =>
    split_ifs
    · exact .inr (.inl ⟨_, rfl, rfl, nofun⟩)
    · exact .inr (.inl ⟨_, rfl, rfl, nofun⟩)
  case retreat => exact .inr (.inr ⟨_, _, rfl, by decide, nofun, fun _ => .inl rfl⟩)
  case waitClose =>
    split_ifs
    · exact .inr (.inl ⟨_, rfl, rfl, nofun⟩)
    · exact .inl rfl
  case close => exact .inr (.inr ⟨_, _, rfl, by decide, nofun, fun _ => .inl rfl⟩)
  case waitLower =>
    split_ifs with hall
    · refine .inr (.inl ⟨_, rfl, rfl, fun _ q hq => (hok q).mp (small_of_bits fun b hb => ?_)⟩)
      exact bit_of_aspAllIn hall (ipiN q) b (lockMask_bit x (ipiN h) (ipiN q) b hq hb)
    · exact .inl rfl
  case critical => exact .inr (.inl ⟨_, rfl, rfl, nofun⟩)
  case waitHigher =>
    split_ifs
    · exact .inr (.inl ⟨_, rfl, rfl, nofun⟩)
    · exact .inl rfl
  case leave => exact .inr (.inr ⟨_, _, rfl, by decide, nofun, nofun⟩)

theorem step_flagsOk (hok : FlagsOk ipiN s) : FlagsOk ipiN (step ipiN s h) := by
  obtain hstep | ⟨pc, hstep, hinside, _⟩ | ⟨v, pc, hstep, hv, _, _⟩ := step_cases (h := h) hok
  · rwa [hstep]
  · rw [hstep]
    exact hok.goto hinside
  · rw [hstep]
    exact hok.write hv

variable (ipiN) in
/-- The lock as a doorway. -/
def protocol : Doorway.Protocol (Fin n) (Spin n) where
  inside := fun s h => (s.pc h).inside = true
  critical := fun s h => s.pc h = .critical
  tests := Tests ipiN

theorem InTime.free (htime : InTime ipiN s h) (hpc : s.pc h = .doorway) :
    (protocol ipiN).Free s h := by
  intro q hq
  obtain ⟨hcritical, hinside⟩ := htime hpc q hq
  exact ⟨hcritical, fun hqh hhq => Bool.not_eq_true _ ▸ hinside hqh hhq⟩

/-- A hart goes on, with or without a write: what the algorithm asks of a move is about places only,
and the flags follow them. -/
theorem move_goto {s₁ : Spin n} {pc : SpinPc} (hs : s₁.pc = s.pc)
    (hdoor : pc.inside = true → (s.pc h).inside = true ∨ (protocol ipiN).Free s h)
    (henter : pc = .critical → ∀ q, Tests ipiN h q → ¬ (s.pc q).inside = true) :
    (protocol ipiN).Move h s (s₁.goto h pc) := by
  have hself : (s₁.goto h pc).pc h = pc := Function.update_self ..
  have hother : ∀ q, q ≠ h → (s₁.goto h pc).pc q = s.pc q := by
    intro q hq
    rw [← hs]
    exact Function.update_of_ne hq ..
  refine ⟨?_, ?_, ?_, ?_⟩ <;> simp only [protocol]
  · intro q hq
    rw [hother q hq]
    exact id
  · intro q hq
    rw [hother q hq]
    exact id
  · rw [hself]
    exact hdoor
  · rw [hself]
    exact fun hpc => .inr (henter hpc)

/-- A step in time moves one hart, through the doorway and into the critical
section as it should. -/
theorem step_move (hok : FlagsOk ipiN s) (htime : InTime ipiN s h) :
    (protocol ipiN).Move h s (step ipiN s h) := by
  obtain hstep | ⟨pc, hstep, hinside, henter⟩ | ⟨v, pc, hstep, _, hcritical, hdoor⟩ :=
    step_cases (h := h) hok
  · rw [hstep]
    exact ⟨fun _ _ => id, fun _ _ => id, .inl, .inl⟩
  · rw [hstep]
    refine move_goto rfl (fun hin => .inl (hinside ▸ hin)) fun hpc q hq => ?_
    rw [henter hpc q hq]
    exact Bool.false_ne_true
  · rw [hstep]
    refine move_goto rfl (fun hin => ?_) fun hpc => absurd hpc hcritical
    exact (hdoor hin).imp_right htime.free

theorem critical_inside {p : Fin n} (hp : s.pc p = .critical) : (s.pc p).inside = true := by
  rw [hp]
  rfl

theorem init_flagsOk : FlagsOk ipiN init := by
  have hsmall : Small 0#8 ↔ SpinPc.inside .unlocked = false := by decide
  exact fun _ => hsmall

theorem init_clear : (protocol ipiN).Clear init := by
  refine ⟨?_, ?_⟩
  · intro _ _ _ _ _ hin
    cases hin
  · intro _ _ _ _ _ hin
    cases hin

variable (ipiN) in
/-- **Mutual exclusion** in every state of a run whose steps are all in time. A step in time moves
one hart through the doorway and into the critical section as Szymanski's algorithm wants it, and
the rest is the proof of the algorithm. -/
theorem spin_lock_exclusive (l : List (Fin n)) (h : EachStep (step ipiN) (InTime ipiN) init l) :
    EachStep (step ipiN) (fun s _ => s.Exclusive) init l ∧
      (run (step ipiN) init l).Exclusive := by
  have hexclusive : ∀ s, FlagsOk ipiN s ∧ (protocol ipiN).Clear s → s.Exclusive :=
    fun s hs h k => hs.2.exclusive fun p => critical_inside
  obtain ⟨hsteps, hend⟩ := EachStep.of_inv (fun s => FlagsOk ipiN s ∧ (protocol ipiN).Clear s)
    (fun s e hs htime => ⟨hexclusive s hs, step_flagsOk hs.1, (step_move hs.1 htime).clear hs.2⟩)
    ⟨init_flagsOk, init_clear⟩ h
  exact ⟨hsteps, hexclusive _ hend⟩

/-- Hart 1 steps into the doorway while hart 0 is in the critical section, and gets
in when hart 0 has left. -/
theorem spin_lock_exclusive_two :
    (run (step two) init [0, 0, 0, 1, 1, 1, 0, 0, 0, 0, 1, 1, 1, 1, 0, 0, 0, 1]).Exclusive :=
  (spin_lock_exclusive two _ (by decide)).2

end Spin

end ScBl
