import ScBl.Lib.Runs
import ScBl.Sbi.Agree
import ScBl.Xlen

/-!
# Timer interrupts (`sbi_call_set_timer`, `mcall_set_timer`, `interrupt_handler`)

A set-timer call programs the compare register of the hart, takes back the timer interrupt
of S-mode and enables that of M-mode; the handler of the latter disables it and raises that
of S-mode. Time goes on between any two instructions. `timer_wakesUp` says that a wake-up
is neither lost nor early.
-/

namespace ScBl

open Runs

variable {x : Xlen}

/-! ## The code -/

/-- A store to the compare register, or to a half of it. -/
inductive CmpStore
  /-- `SCR_RTC_CMP_OFF`, 64 bits -/
  | cmp64 (v : U64)
  /-- `SCR_RTC_CMP_OFF`, 32 bits -/
  | cmp (v : U32)
  /-- `SCR_RTC_CMPH_OFF` -/
  | cmph (v : U32)
  deriving DecidableEq, Repr

/-- An instruction that concerns the timer. -/
inductive TimerOp
  | store (w : CmpStore)
  /-- `csrc mip, (1 << INT_SM_TIMER)` -/
  | clearStip
  /-- `csrs mip, (1 << INT_SM_TIMER)` -/
  | setStip
  /-- `csrc mie, (1 << INT_MM_TIMER)` -/
  | clearMtie
  /-- `csrs mie, (1 << INT_MM_TIMER)` -/
  | setMtie
  deriving DecidableEq, Repr

/-- `scr_rtc_setcmp` -/
def scrRtcSetcmp (x : Xlen) (when_ : U64) : List CmpStore :=
  match x with
  | .rv32 => [.cmph (~~~0#32), .cmp (when_.setWidth 32), .cmph ((when_ >>> 32).setWidth 32)]
  | .rv64 => [.cmp64 when_]

/-- The stores of `sbi_call_set_timer` and of `sbi02_call_set_timer`. -/
def sbiCallSetTimer : (x : Xlen) → x.Word → x.Word → List CmpStore
  | .rv32, a0, a1 => [.cmph (~~~0#32), .cmp a0, .cmph a1]
  | .rv64, a0, _ => [.cmp64 a0]

/-- What both do after the stores: `.Lsbi_call_timer_ret`, and `mcall_set_timer`. -/
def timerRet : List TimerOp := [.clearStip, .setMtie]

/-- The M-timer part of `interrupt_handler`. -/
def timerInterruptHandler : List TimerOp := [.clearMtie, .setStip]

/-- A set-timer call, in assembly with the words of the caller, or in C. -/
inductive TimerCall (x : Xlen)
  | fast (a0 a1 : x.Word)
  | mcall (when_ : U64)

/-- The deadline that the caller asks for. -/
def TimerCall.deadline : TimerCall x → U64
  | .fast a0 a1 =>
    match x with
    | .rv32 => (a1.setWidth 32 ++ a0.setWidth 32 : BitVec (32 + 32))
    | .rv64 => a0
  | .mcall when_ => when_

def TimerCall.stores : TimerCall x → List CmpStore
  | .fast a0 a1 => sbiCallSetTimer x a0 a1
  | .mcall when_ => scrRtcSetcmp x when_

/-! ## The hart and its timer -/

/-- A hart with its compare register. -/
structure TimerHart where
  /-- The ticks so far, of which `mtime` has the low bits. -/
  time : ℕ
  mtimecmp : U64
  /-- `mie.MTIE` -/
  mtie : Bool
  /-- `mip.STIP` -/
  stip : Bool
  /-- What a handler still has to execute; none is left in a lower privilege mode. -/
  todo : List TimerOp
  /-- The deadline of the last set-timer call, and when the call was made. -/
  last : Option (U64 × ℕ)

namespace CmpStore

def apply : CmpStore → U64 → U64
  | .cmp64 v, _ => v
  | .cmp v, c => ((c >>> 32).setWidth 32 ++ v : BitVec (32 + 32))
  | .cmph v, c => (v ++ c.setWidth 32 : BitVec (32 + 32))

end CmpStore

/-- What happens. -/
inductive TimerEvent (x : Xlen)
  /-- `mtime` goes on. -/
  | advance (ticks : ℕ)
  | call (c : TimerCall x)
  /-- The machine-timer interrupt is taken. -/
  | interrupt
  /-- The handler executes its next instruction. -/
  | exec

namespace TimerHart

variable (s : TimerHart)

def mtime : U64 := BitVec.ofNat 64 s.time

/-- `mip.MTIP` -/
def mtip : Bool := decide (s.mtimecmp ≤ s.mtime)

def execOp (s : TimerHart) : TimerOp → TimerHart
  | .store w => { s with mtimecmp := w.apply s.mtimecmp }
  | .clearStip => { s with stip := false }
  | .setStip => { s with stip := true }
  | .clearMtie => { s with mtie := false }
  | .setMtie => { s with mtie := true }

/-- A step. Calls and interrupts come from a lower privilege mode, the latter while the
interrupt is pending and enabled. -/
def step (s : TimerHart) : TimerEvent x → TimerHart
  | .advance ticks => { s with time := s.time + ticks }
  | .call c =>
    if s.todo = [] then
      { s with todo := c.stores.map .store ++ timerRet, last := some (c.deadline, s.time) }
    else s
  | .interrupt =>
    if s.todo = [] ∧ s.mtie ∧ s.mtip then { s with todo := timerInterruptHandler } else s
  | .exec =>
    match s.todo with
    | [] => s
    | op :: todo => execOp { s with todo := todo } op

/-- A hart that has made no call. -/
def boot (time : ℕ) (mtimecmp : U64) (mtie stip : Bool) : TimerHart :=
  ⟨time, mtimecmp, mtie, stip, [], none⟩

end TimerHart

/-! ## The compare register -/

theorem setWidth_append_right (u v : U32) : (u ++ v : BitVec (32 + 32)).setWidth 32 = v := by
  refine BitVec.eq_of_getLsbD_eq fun i hi => ?_
  rw [BitVec.getLsbD_setWidth, BitVec.getLsbD_append]
  simp [hi]

theorem append_halves (v : U64) :
    ((v >>> 32).setWidth 32 ++ v.setWidth 32 : BitVec (32 + 32)) = v := by
  refine BitVec.eq_of_getLsbD_eq fun i hi => ?_
  rw [BitVec.getLsbD_append, BitVec.getLsbD_setWidth, BitVec.getLsbD_setWidth,
    BitVec.getLsbD_ushiftRight]
  by_cases hlow : i < 32
  · simp [hlow]
  · have hlt : i - 32 < 32 := by omega
    have heq : 32 + (i - 32) = i := by omega
    simp [hlow, hlt, heq]

/-- The store to the high half keeps the low half, which the one before has written. -/
theorem apply_cmph_cmp (cmp : U64) (high low : U32) :
    (CmpStore.cmph high).apply ((CmpStore.cmp low).apply cmp)
      = (high ++ low : BitVec (32 + 32)) := by
  rw [CmpStore.apply, CmpStore.apply, setWidth_append_right]

/-- **The stores of a call leave its deadline**, whatever the register held. -/
theorem foldl_stores (c : TimerCall x) (cmp : U64) :
    c.stores.foldl (fun cmp w => w.apply cmp) cmp = c.deadline := by
  cases c with
  | fast a0 a1 =>
    cases x with
    | rv32 =>
      refine (apply_cmph_cmp _ a1 a0).trans ?_
      exact congrArg₂ (· ++ ·) (BitVec.setWidth_eq a1).symm (BitVec.setWidth_eq a0).symm
    | rv64 => rfl
  | mcall when_ =>
    cases x with
    | rv32 => exact (apply_cmph_cmp _ _ _).trans (append_halves when_)
    | rv64 => rfl

/-! ## What holds of every run -/

namespace TimerHart

variable {s : TimerHart} {d : U64} {t₀ : ℕ}

/-- `mtime` has reached the deadline since the call was made. -/
def Reached (s : TimerHart) (d : U64) (t₀ : ℕ) : Prop :=
  ∃ t, t₀ ≤ t ∧ t ≤ s.time ∧ d ≤ BitVec.ofNat 64 t

/-- Where a hart is between a call with deadline `d` and the wake-up. -/
inductive Phase (s : TimerHart) (d : U64) (t₀ : ℕ) : Prop
  /-- The call still has stores to do, which leave `d`. -/
  | writing (stores : List CmpStore) (todo : s.todo = stores.map .store ++ timerRet)
      (cmp : stores.foldl (fun cmp w => w.apply cmp) s.mtimecmp = d)
  | enabling (todo : s.todo = [.setMtie]) (cmp : s.mtimecmp = d) (stip : s.stip = false)
  | waiting (todo : s.todo = []) (cmp : s.mtimecmp = d) (mtie : s.mtie = true)
      (stip : s.stip = false)
  | entered (todo : s.todo = timerInterruptHandler) (cmp : s.mtimecmp = d)
      (reached : s.Reached d t₀)
  | handing (todo : s.todo = [.setStip]) (cmp : s.mtimecmp = d) (mtie : s.mtie = false)
      (reached : s.Reached d t₀)
  | fired (todo : s.todo = []) (cmp : s.mtimecmp = d) (mtie : s.mtie = false)
      (stip : s.stip = true) (reached : s.Reached d t₀)

/-- The invariant: the phase that the last call has led to. -/
def Inv (s : TimerHart) : Prop :=
  ∀ d t₀, s.last = some (d, t₀) → t₀ ≤ s.time ∧ s.Phase d t₀

theorem Reached.mono {s' : TimerHart} (h : s.Reached d t₀) (htime : s.time ≤ s'.time) :
    s'.Reached d t₀ := by
  obtain ⟨t, hfrom, hto, hd⟩ := h
  exact ⟨t, hfrom, hto.trans htime, hd⟩

/-- Time changes the phase of no hart. -/
theorem Phase.advance (h : s.Phase d t₀) (ticks : ℕ) :
    Phase { s with time := s.time + ticks } d t₀ := by
  have htime : s.time ≤ s.time + ticks := Nat.le_add_right s.time ticks
  cases h with
  | writing stores todo cmp => exact .writing stores todo cmp
  | enabling todo cmp stip => exact .enabling todo cmp stip
  | waiting todo cmp mtie stip => exact .waiting todo cmp mtie stip
  | entered todo cmp reached => exact .entered todo cmp (reached.mono htime)
  | handing todo cmp mtie reached => exact .handing todo cmp mtie (reached.mono htime)
  | fired todo cmp mtie stip reached => exact .fired todo cmp mtie stip (reached.mono htime)

/-- An interrupt is taken from the waiting phase alone, and not before the deadline. -/
theorem Phase.interrupt (h : s.Phase d t₀) (ht₀ : t₀ ≤ s.time) (htodo : s.todo = [])
    (hmtie : s.mtie = true) (hmtip : s.mtip = true) :
    Phase { s with todo := timerInterruptHandler } d t₀ := by
  cases h with
  | writing stores todo cmp => simp [todo, timerRet] at htodo
  | enabling todo cmp stip => simp [todo] at htodo
  | waiting todo cmp mtie stip =>
    refine .entered rfl cmp ⟨s.time, ht₀, le_rfl, ?_⟩
    simpa [mtip, cmp, mtime] using hmtip
  | entered todo cmp reached => simp [todo, timerInterruptHandler] at htodo
  | handing todo cmp mtie reached => simp [todo] at htodo
  | fired todo cmp mtie stip reached => simp [mtie] at hmtie

/-- The next instruction of a handler leads to the next phase. Each phase says what is still to be
done, so that an interrupt in between finds it. -/
theorem Phase.exec {op : TimerOp} {todo : List TimerOp} (h : s.Phase d t₀)
    (htodo : s.todo = op :: todo) : Phase (execOp { s with todo := todo } op) d t₀ := by
  cases h with
  | writing stores hstores cmp =>
    rw [htodo] at hstores
    cases stores with
    | nil =>
      obtain ⟨rfl, rfl⟩ := List.cons.inj hstores
      exact .enabling rfl cmp rfl
    | cons w stores =>
      obtain ⟨rfl, rfl⟩ := List.cons.inj hstores
      exact .writing stores rfl cmp
  | enabling hop cmp stip =>
    obtain ⟨rfl, rfl⟩ := List.cons.inj (htodo.symm.trans hop)
    exact .waiting rfl cmp rfl stip
  | waiting hnil cmp mtie stip => simp [hnil] at htodo
  | entered hop cmp reached =>
    obtain ⟨rfl, rfl⟩ := List.cons.inj (htodo.symm.trans hop)
    exact .handing rfl cmp rfl reached
  | handing hop cmp mtie reached =>
    obtain ⟨rfl, rfl⟩ := List.cons.inj (htodo.symm.trans hop)
    exact .fired rfl cmp mtie rfl reached
  | fired hnil cmp mtie stip reached => simp [hnil] at htodo

theorem execOp_time (op : TimerOp) : (execOp s op).time = s.time := by
  cases op <;> rfl

theorem execOp_last (op : TimerOp) : (execOp s op).last = s.last := by
  cases op <;> rfl

/-- **Each step keeps the invariant**: a call, an instruction of a handler, the time going on, and
the interrupt. -/
theorem Inv.step (h : s.Inv) (e : TimerEvent x) : (s.step e).Inv := by
  cases e with
  | advance ticks =>
    intro d t₀ hlast
    obtain ⟨htime, hphase⟩ := h d t₀ hlast
    exact ⟨htime.trans (Nat.le_add_right s.time ticks), hphase.advance ticks⟩
  | call c =>
    by_cases htodo : s.todo = []
    · -- the call is the last one from now on
      rw [TimerHart.step, if_pos htodo]
      intro d t₀ hlast
      obtain ⟨rfl, rfl⟩ := Prod.mk.inj (Option.some.inj hlast)
      exact ⟨le_rfl, .writing c.stores rfl (foldl_stores c s.mtimecmp)⟩
    · rwa [TimerHart.step, if_neg htodo]
  | interrupt =>
    by_cases hint : s.todo = [] ∧ s.mtie ∧ s.mtip
    · rw [TimerHart.step, if_pos hint]
      intro d t₀ hlast
      obtain ⟨htime, hphase⟩ := h d t₀ hlast
      exact ⟨htime, hphase.interrupt htime hint.1 hint.2.1 hint.2.2⟩
    · rwa [TimerHart.step, if_neg hint]
  | exec =>
    rw [TimerHart.step]
    cases htodo : s.todo with
    | nil => exact h
    | cons op todo =>
      intro d t₀ hlast
      rw [execOp_last] at hlast
      obtain ⟨htime, hphase⟩ := h d t₀ hlast
      rw [execOp_time]
      exact ⟨htime, hphase.exec htodo⟩

theorem boot_inv (time : ℕ) (mtimecmp : U64) (mtie stip : Bool) :
    (boot time mtimecmp mtie stip).Inv := by
  intro d t₀ hlast
  cases hlast

/-- Outside the handlers and after a call with deadline `d`, made at `t₀`: the wake-up is
neither lost nor early. -/
structure WakesUp (s : TimerHart) (d : U64) (t₀ : ℕ) : Prop where
  /-- one of the interrupts is armed, and one only -/
  armed : s.mtie = !s.stip
  cmp : s.mtimecmp = d
  notEarly : s.stip = true → s.Reached d t₀
  notLost : d ≤ s.mtime → s.stip = true ∨ (s.mtip = true ∧ s.mtie = true)

theorem Phase.wakesUp (h : s.Phase d t₀) (htodo : s.todo = []) : s.WakesUp d t₀ := by
  cases h with
  | writing stores todo cmp => simp [todo, timerRet] at htodo
  | enabling todo cmp stip => simp [todo] at htodo
  | waiting todo cmp mtie stip =>
    refine ⟨by rw [mtie, stip]; rfl, cmp, ?_, ?_⟩
    · intro hstip
      simp [stip] at hstip
    · intro hreached
      exact .inr ⟨by simpa [mtip, cmp] using hreached, mtie⟩
  | entered todo cmp reached => simp [todo, timerInterruptHandler] at htodo
  | handing todo cmp mtie reached => simp [todo] at htodo
  | fired todo cmp mtie stip reached =>
    exact ⟨by rw [mtie, stip]; rfl, cmp, fun _ => reached, fun _ => .inl stip⟩

/-- While `mtime` has not overflowed, it has still reached what it has reached. -/
theorem Reached.le_mtime (h : s.Reached d t₀) (htime : s.time < 2 ^ 64) : d ≤ s.mtime := by
  obtain ⟨t, -, hto, hd⟩ := h
  rw [BitVec.le_def, BitVec.toNat_ofNat, Nat.mod_eq_of_lt (hto.trans_lt htime)] at hd
  rw [mtime, BitVec.le_def, BitVec.toNat_ofNat, Nat.mod_eq_of_lt htime]
  exact hd.trans hto

end TimerHart

open TimerHart

/-- **Timer wake-ups are neither lost nor early**: in every state of every run that is outside the
handlers and after a call, the last call wakes its caller up when its time comes, and, before the
counter overflows, an interrupt that is pending has had its time reached. -/
theorem timer_wakesUp (time : ℕ) (mtimecmp : U64) (mtie stip : Bool)
    (events : List (TimerEvent x)) :
    let s := run TimerHart.step (boot time mtimecmp mtie stip) events
    s.todo = [] → ∀ d t₀, s.last = some (d, t₀) →
      s.WakesUp d t₀ ∧ (s.time < 2 ^ 64 → s.stip = true → d ≤ s.mtime) := by
  intro s htodo d t₀ hlast
  have hinv : s.Inv := run_inv Inv (fun _ e h => h.step e) (boot_inv time mtimecmp mtie stip)
  obtain ⟨-, hphase⟩ := hinv d t₀ hlast
  have hwakes := hphase.wakesUp htodo
  exact ⟨hwakes, fun htime hstip => (hwakes.notEarly hstip).le_mtime htime⟩

/-- A call for tick 5, which comes while a store of the call is still to be done, and the
interrupt. -/
def sampleTimerRun : List (TimerEvent .rv32) :=
  [.call (.fast 5#32 0#32), .exec, .exec, .advance 7, .exec, .exec, .exec, .interrupt, .exec,
    .exec]

theorem timer_wakesUp_sample :
    let s := run TimerHart.step (boot 0 0#64 false false) sampleTimerRun
    s.WakesUp 5#64 0 ∧ s.stip = true ∧ 5#64 ≤ s.mtime := by
  have hrun := timer_wakesUp 0 0#64 false false sampleTimerRun (by decide) 5#64 0 (by decide)
  exact ⟨hrun.1, by decide, hrun.2 (by decide) (by decide)⟩

/-! ## The instructions of the fast path -/

/-- The instruction for the timer behind an effect. -/
def SbiEffect.timerOp : SbiEffect → Option TimerOp
  | .setCmp _ v => some (.store (.cmp64 v))
  | .clearMip mask => if mask = 1#64 <<< intSmTimer then some .clearStip else none
  | .setMie mask => if mask = 1#64 <<< intMmTimer then some .setMtie else none
  | _ => none

/-- The set-timer calls have the effects that a call above goes through one by one. -/
theorem timerEffects_timerOp (plf : SbiPlf) (when_ a1 : U64) :
    (SbiHart.timerEffects plf when_).filterMap SbiEffect.timerOp
      = (TimerCall.stores (x := .rv64) (.fast when_ a1)).map .store ++ timerRet := by
  rfl

end ScBl
