import ScBl.Colorize

/-!
# The keyboard (`kbd.c`)

`ps2kbd_getchar` reads scan codes off the port up to the first one that is not the release of a
key. Both shift keys have the same bit of `shift_state`: the release of one clears it while the
other is held (`shift_state_iff`).
-/

namespace ScBl

open Runs

/-! ## The port -/

def ps2DataMask : U32 := 0xff#32
def ps2DataValid : U32 := 1#32 <<< 15

/-- The data register has a byte. -/
def ps2Valid (dataReg : U32) : Prop := dataReg &&& ps2DataValid ≠ 0#32

instance (dataReg : U32) : Decidable (ps2Valid dataReg) := inferInstanceAs (Decidable (_ ≠ _))

/-- The values that the data register is going to have, as it is read. There is no byte after
them. -/
abbrev Ps2Port : Type := List U32

/-- `plf_ps2_read` of the data register -/
def plfPs2Read : Ps2Port → U32 × Ps2Port
  | [] => (0#32, [])
  | dataReg :: port => (dataReg, port)

/-- `ps2_read_byte`, `none` being -1. -/
def ps2ReadByte (port : Ps2Port) : Option U32 × Ps2Port :=
  let read := plfPs2Read port
  if ps2Valid read.1 then (some (read.1 &&& ps2DataMask), read.2) else (none, read.2)

/-- The rounds that are left in `ps2_read_byte_timeout`. -/
def ps2ReadByteLoop : ℕ → Ps2Port → Option U32 × Ps2Port
  | 0, port => (none, port)
  | n + 1, port =>
    let read := plfPs2Read port
    if ps2Valid read.1 then (some (read.1 &&& ps2DataMask), read.2) else ps2ReadByteLoop n read.2

/-- `ps2_read_byte_timeout` -/
def ps2ReadByteTimeout (port : Ps2Port) : Option U32 × Ps2Port := ps2ReadByteLoop 10 port

/-! ## The keys -/

def kbdStateShiftOff : U32 := 0#32
def kbdStateShiftL : U32 := 1#32
def kbdStateShiftR : U32 := 1#32

def kbdShiftL : U32 := 0x12#32
def kbdShiftR : U32 := 0x59#32

/-- The port and `shift_state`. -/
structure Kbd where
  port : Ps2Port
  shiftState : U32

namespace Kbd

/-- The `switch` on a scan code that is not that of a shift key. -/
def key (shiftState status : U32) : Option U32 :=
  let shifted (c c' : Char) : Option U32 :=
    some (if shiftState ≠ 0#32 then chr c else chr c')
  match status.toNat with
  | 0x45 => some (chr '0')
  | 0x16 => shifted '!' '1'
  | 0x1e => some (chr '2')
  | 0x26 => some (chr '3')
  | 0x25 => shifted '$' '4'
  | 0x2e => some (chr '5')
  | 0x36 => some (chr '6')
  | 0x3d => some (chr '7')
  | 0x3e => some (chr '8')
  | 0x46 => some (chr '9')
  | 0x1c => some (chr 'a')
  | 0x32 => some (chr 'b')
  | 0x21 => some (chr 'c')
  | 0x23 => some (chr 'd')
  | 0x24 => some (chr 'e')
  | 0x2b => shifted 'F' 'f'
  | 0x1b => some (chr 's')
  | 0x15 => some (chr 'q')
  | 0x1d => some (chr 'w')
  | 0x3a => some (chr 'm')
  | 0x34 => some (chr 'g')
  | 0x29 => some (chr ' ')
  | 0x5a => some (chr '\r')
  | 0x66 => some 8#32
  | _ => none

/-- What the release of a key does to `shift_state`. -/
def release (shiftState : U32) (status : Option U32) : U32 :=
  if status = some kbdShiftL then shiftState &&& ~~~ kbdStateShiftL
  else if status = some kbdShiftR then shiftState &&& ~~~ kbdStateShiftR
  else shiftState

theorem ps2ReadByte_nil : ps2ReadByte [] = (none, []) := by decide

/-- One read of the data register: a byte if the valid bit is set, and nothing if it is not. -/
theorem ps2ReadByte_cons (dataReg : U32) (port : Ps2Port) : ps2ReadByte (dataReg :: port) =
    if ps2Valid dataReg then (some (dataReg &&& ps2DataMask), port) else (none, port) := rfl

/-- A round of the loop that waits for a byte. -/
theorem ps2ReadByteLoop_cons (n : ℕ) (dataReg : U32) (port : Ps2Port) :
    ps2ReadByteLoop (n + 1) (dataReg :: port) =
      if ps2Valid dataReg then (some (dataReg &&& ps2DataMask), port)
      else ps2ReadByteLoop n port := rfl

/-- With no reads left, the time is up. -/
theorem ps2ReadByteLoop_nil (n : ℕ) : ps2ReadByteLoop n [] = (none, []) := by
  induction n with
  | zero => rfl
  | succ n ih => exact ih

/-- The loop takes reads from the port, and puts none back. -/
theorem length_ps2ReadByteLoop_le (n : ℕ) (port : Ps2Port) :
    (ps2ReadByteLoop n port).2.length ≤ port.length := by
  induction port generalizing n with
  | nil => rw [ps2ReadByteLoop_nil]
  | cons dataReg port ih =>
    cases n with
    | zero => exact Nat.le_refl _
    | succ n =>
      rw [ps2ReadByteLoop_cons]
      split_ifs
      · exact Nat.le_succ _
      · exact (ih n).trans (Nat.le_succ _)

/-- A byte that is read is off the port. -/
theorem length_lt_of_ps2ReadByte {port port' : Ps2Port} {status : U32}
    (h : ps2ReadByte port = (some status, port')) : port'.length < port.length := by
  cases port with
  | nil => cases h
  | cons dataReg port =>
    rw [ps2ReadByte_cons] at h
    split_ifs at h
    · obtain ⟨-, rfl⟩ := Prod.mk.inj h
      exact Nat.lt_succ_self _
    · cases h

/-- The `while` loop of `ps2kbd_getchar`: -1, or the first scan code that is no release. -/
def readKey (s : Kbd) : Option U32 × Kbd :=
  match _hread : ps2ReadByte s.port with
  | (none, port) => (none, { s with port := port })
  | (some status, port) =>
    if status = 0xf0#32 then
      readKey {
        port := (ps2ReadByteTimeout port).2
        shiftState := release s.shiftState (ps2ReadByteTimeout port).1 }
    else (some status, { s with port := port })
termination_by s.port.length
decreasing_by
  exact (length_ps2ReadByteLoop_le 10 port).trans_lt (length_lt_of_ps2ReadByte _hread)

/-- `ps2kbd_getchar` -/
def ps2kbdGetchar (s : Kbd) : Option U32 × Kbd :=
  match s.readKey with
  | (none, s) => (none, s)
  | (some status, s) =>
    if status = kbdShiftR then
      (none, { s with shiftState := s.shiftState ||| kbdStateShiftR })
    else if status = kbdShiftL then
      (none, { s with shiftState := s.shiftState ||| kbdStateShiftL })
    else (key s.shiftState status, s)

/-! ## Scan codes -/

/-- What comes over the port: nothing, or all of a scan code. The second byte of a release is there
before `ps2_read_byte_timeout` gives up. -/
inductive Input
  | idle (dataReg : U32) (h : ¬ ps2Valid dataReg)
  | make (dataReg : U32) (h : ps2Valid dataReg) (hcode : dataReg &&& ps2DataMask ≠ 0xf0#32)
  | release (dataReg : U32) (h : ps2Valid dataReg) (hcode : dataReg &&& ps2DataMask = 0xf0#32)
      (wait : List U32) (hwait : ∀ v ∈ wait, ¬ ps2Valid v) (hlength : wait.length < 10)
      (dataReg' : U32) (h' : ps2Valid dataReg')

/-- What is read of it. -/
def Input.reads : Input → List U32
  | .idle dataReg _ => [dataReg]
  | .make dataReg _ _ => [dataReg]
  | .release dataReg _ _ wait _ _ dataReg' _ => dataReg :: (wait ++ [dataReg'])

/-- The reset state, with these inputs to come. -/
def start (l : List Input) : Kbd where
  port := l.flatMap Input.reads
  shiftState := kbdStateShiftOff

/-- The keyboard after `n` calls of `ps2kbd_getchar`. -/
def calls (n : ℕ) (s : Kbd) : Kbd := (fun s : Kbd => s.ps2kbdGetchar.2)^[n] s

/-- What an input does to `shift_state`. -/
def shiftStep (shiftState : U32) : Input → U32
  | .idle _ _ => shiftState
  | .make dataReg _ _ =>
    if dataReg &&& ps2DataMask = kbdShiftR then shiftState ||| kbdStateShiftR
    else if dataReg &&& ps2DataMask = kbdShiftL then shiftState ||| kbdStateShiftL
    else shiftState
  | .release _ _ _ _ _ _ dataReg' _ => Kbd.release shiftState (some (dataReg' &&& ps2DataMask))

variable {port : Ps2Port} {shiftState : U32}

/-- A byte that comes before the time is up is found, and the reads before it were in vain. -/
theorem ps2ReadByteLoop_wait {n : ℕ} {wait : List U32} {dataReg : U32} (h : ps2Valid dataReg)
    (hwait : ∀ v ∈ wait, ¬ ps2Valid v) (hlength : wait.length < n) :
    ps2ReadByteLoop n (wait ++ dataReg :: port) = (some (dataReg &&& ps2DataMask), port) := by
  induction wait generalizing n with
  | nil =>
    obtain ⟨n, rfl⟩ := Nat.exists_eq_succ_of_ne_zero (Nat.ne_of_gt hlength)
    exact if_pos h
  | cons v wait ih =>
    obtain ⟨hv, hwait⟩ := List.forall_mem_cons.mp hwait
    rw [List.length_cons] at hlength
    obtain ⟨n, rfl⟩ := Nat.exists_eq_succ_of_ne_zero (Nat.ne_of_gt (Nat.zero_lt_of_lt hlength))
    rw [List.cons_append, ps2ReadByteLoop_cons, if_neg hv]
    exact ih hwait (Nat.lt_of_succ_lt_succ hlength)

/-! ## A call -/

variable {s : Kbd} {status : U32}

/-- Without a byte there is no key. -/
theorem readKey_none (h : ps2ReadByte s.port = (none, port)) :
    s.readKey = (none, { s with port := port }) := by
  rw [readKey]
  split
  · next port' heq =>
    obtain ⟨-, rfl⟩ := Prod.mk.inj (h.symm.trans heq)
    rfl
  · next status port' heq => cases h.symm.trans heq

/-- The code `0xf0` announces a release, whose byte is waited for before the next key is looked for.
-/
theorem readKey_some (h : ps2ReadByte s.port = (some status, port)) : s.readKey =
    if status = 0xf0#32 then
      readKey ⟨(ps2ReadByteTimeout port).2, Kbd.release s.shiftState (ps2ReadByteTimeout port).1⟩
    else (some status, { s with port := port }) := by
  rw [readKey]
  split
  · next port' heq => cases h.symm.trans heq
  · next status' port' heq =>
    obtain ⟨hstatus, rfl⟩ := Prod.mk.inj (h.symm.trans heq)
    obtain rfl := Option.some.inj hstatus
    rfl

/-- A silent port has no key. -/
theorem getchar_nil : (⟨[], shiftState⟩ : Kbd).ps2kbdGetchar = (none, ⟨[], shiftState⟩) := by
  have hread : readKey ⟨[], shiftState⟩ = (none, ⟨[], shiftState⟩) :=
    readKey_none ps2ReadByte_nil
  rw [ps2kbdGetchar, hread]

/-- A call ends where nothing comes. -/
theorem getchar_idle {dataReg : U32} (h : ¬ ps2Valid dataReg) :
    (⟨dataReg :: port, shiftState⟩ : Kbd).ps2kbdGetchar = (none, ⟨port, shiftState⟩) := by
  have hread : readKey ⟨dataReg :: port, shiftState⟩ = (none, ⟨port, shiftState⟩) :=
    readKey_none (by rw [ps2ReadByte_cons, if_neg h])
  rw [ps2kbdGetchar, hread]

/-- It ends with a make code. -/
theorem getchar_make {dataReg : U32} (h : ps2Valid dataReg)
    (hcode : dataReg &&& ps2DataMask ≠ 0xf0#32) :
    (⟨dataReg :: port, shiftState⟩ : Kbd).ps2kbdGetchar.2 =
      ⟨port, shiftStep shiftState (.make dataReg h hcode)⟩ := by
  have hbyte : ps2ReadByte (dataReg :: port) = (some (dataReg &&& ps2DataMask), port) := by
    rw [ps2ReadByte_cons, if_pos h]
  have hread : readKey ⟨dataReg :: port, shiftState⟩ =
      (some (dataReg &&& ps2DataMask), ⟨port, shiftState⟩) :=
    (readKey_some hbyte).trans (if_neg hcode)
  rw [ps2kbdGetchar, hread, shiftStep]
  dsimp only
  split_ifs <;> rfl

/-- It goes on after a release. -/
theorem getchar_release {dataReg dataReg' : U32} {wait : List U32} (h : ps2Valid dataReg)
    (hcode : dataReg &&& ps2DataMask = 0xf0#32) (hwait : ∀ v ∈ wait, ¬ ps2Valid v)
    (hlength : wait.length < 10) (h' : ps2Valid dataReg') :
    (⟨dataReg :: (wait ++ dataReg' :: port), shiftState⟩ : Kbd).ps2kbdGetchar =
      (⟨port, Kbd.release shiftState (some (dataReg' &&& ps2DataMask))⟩ : Kbd).ps2kbdGetchar := by
  have hbyte : ps2ReadByte (dataReg :: (wait ++ dataReg' :: port)) =
      (some 0xf0#32, wait ++ dataReg' :: port) := by
    rw [ps2ReadByte_cons, if_pos h, hcode]
  have htimeout : ps2ReadByteTimeout (wait ++ dataReg' :: port) =
      (some (dataReg' &&& ps2DataMask), port) := ps2ReadByteLoop_wait h' hwait hlength
  have hread : readKey ⟨dataReg :: (wait ++ dataReg' :: port), shiftState⟩ =
      readKey ⟨port, Kbd.release shiftState (some (dataReg' &&& ps2DataMask))⟩ := by
    rw [readKey_some hbyte, if_pos rfl, htimeout]
  rw [ps2kbdGetchar, hread, ps2kbdGetchar]

theorem calls_succ (n : ℕ) (s : Kbd) : calls (n + 1) s = calls n s.ps2kbdGetchar.2 :=
  Function.iterate_succ_apply _ n s

/-- Each input is at least one read, so that the runs below come to an end. -/
theorem Input.length_reads_pos (e : Input) : 0 < e.reads.length := by
  cases e <;> exact Nat.succ_pos _

/-- **The calls** read all that comes, whatever of it each of them reads: one call may take a
release and the key after it. The order of the inputs is all that counts. -/
theorem calls_eq (l : List Input) {n : ℕ} (hn : (l.flatMap Input.reads).length ≤ n) :
    calls n ⟨l.flatMap Input.reads, shiftState⟩ = ⟨[], l.foldl shiftStep shiftState⟩ := by
  induction l generalizing n shiftState with
  | nil => exact Function.iterate_fixed (congrArg Prod.snd getchar_nil) n
  | cons e l ih =>
    have hpos := e.length_reads_pos
    rw [List.flatMap_cons, List.length_append] at hn
    obtain ⟨m, rfl⟩ : ∃ m, n = m + 1 := ⟨n - 1, by omega⟩
    have hm : (l.flatMap Input.reads).length ≤ m := by omega
    rw [List.flatMap_cons, List.foldl_cons, calls_succ]
    cases e with
    | idle dataReg h => rw [Input.reads, List.singleton_append, getchar_idle h, ih hm, shiftStep]
    | make dataReg h hcode => rw [Input.reads, List.singleton_append, getchar_make h hcode, ih hm]
    | release dataReg h hcode wait hwait hlength dataReg' h' =>
      -- the call that reads the release reads on
      rw [Input.reads, List.cons_append, List.append_assoc, List.singleton_append,
        getchar_release h hcode hwait hlength h', ← calls_succ, ih (Nat.le_succ_of_le hm),
        shiftStep]

/-- The `shift_state` that the inputs leave. -/
def shiftAfter (l : List Input) : U32 :=
  (calls (l.flatMap Input.reads).length (start l)).shiftState

/-- What the state of the shift keys is after some inputs, as a fold. -/
theorem shiftAfter_eq (l : List Input) : shiftAfter l = l.foldl shiftStep kbdStateShiftOff := by
  rw [shiftAfter, start, calls_eq l (Nat.le_refl _)]

/-! ## The keys that are held -/

/-- The shift keys that are held. -/
structure Held where
  left : Bool
  right : Bool
  deriving DecidableEq, Repr

/-- Of each key, what was seen last. -/
def Held.step (held : Held) : Input → Held
  | .idle _ _ => held
  | .make dataReg _ _ =>
    { left := held.left || decide (dataReg &&& ps2DataMask = kbdShiftL)
      right := held.right || decide (dataReg &&& ps2DataMask = kbdShiftR) }
  | .release _ _ _ _ _ _ dataReg' _ =>
    { left := held.left && decide (dataReg' &&& ps2DataMask ≠ kbdShiftL)
      right := held.right && decide (dataReg' &&& ps2DataMask ≠ kbdShiftR) }

/-- No key is held. -/
def Held.none : Held := ⟨false, false⟩

/-- A shift key is held. -/
def Held.shift (held : Held) : Prop := held.left = true ∨ held.right = true

/-- No shift key is released while the other one is held. -/
def ReleasedLast (held : Held) : Input → Prop
  | .idle _ _ | .make _ _ _ => True
  | .release _ _ _ _ _ _ dataReg' _ =>
    (dataReg' &&& ps2DataMask = kbdShiftL → held.right = false) ∧
      (dataReg' &&& ps2DataMask = kbdShiftR → held.left = false)

/-- `shift_state` beside the keys. -/
def Tracks (s : U32 × Held) : Prop := s.1 ≠ 0#32 ↔ s.2.shift

def step (s : U32 × Held) (e : Input) : U32 × Held := (shiftStep s.1 e, s.2.step e)

/-- The two shift keys share the lowest bit. -/
def OneBit (x : U32) : Prop := x = 0#32 ∨ x = 1#32

/-- Both shift keys have the same bit, so that one press sets what the other sets. -/
theorem OneBit.press {x : U32} (hx : OneBit x) : x ||| 1#32 = 1#32 := by
  rcases hx with rfl | rfl <;> rfl

/-- And one release clears it. -/
theorem OneBit.clear {x : U32} (hx : OneBit x) : x &&& ~~~ 1#32 = 0#32 := by
  rcases hx with rfl | rfl <;> rfl

/-- A press sets the bit for a shift key, and leaves it for another. -/
theorem shiftStep_make {x dataReg : U32} (hx : OneBit x) (h : ps2Valid dataReg)
    (hcode : dataReg &&& ps2DataMask ≠ 0xf0#32) : shiftStep x (.make dataReg h hcode) =
      if dataReg &&& ps2DataMask = kbdShiftR ∨ dataReg &&& ps2DataMask = kbdShiftL then 1#32
      else x := by
  have hR : x ||| kbdStateShiftR = 1#32 := hx.press
  have hL : x ||| kbdStateShiftL = 1#32 := hx.press
  rw [shiftStep, hR, hL, ← ite_or]

/-- A release clears the bit for either shift key, also while the other one is still held. -/
theorem release_some {x code : U32} (hx : OneBit x) : Kbd.release x (some code) =
    if code = kbdShiftL ∨ code = kbdShiftR then 0#32 else x := by
  have hR : x &&& ~~~ kbdStateShiftR = 0#32 := hx.clear
  have hL : x &&& ~~~ kbdStateShiftL = 0#32 := hx.clear
  rw [Kbd.release, hR, hL, ← ite_or]
  simp only [Option.some.injEq]

/-- The state has no other bit, after any input. -/
theorem oneBit_step (s : U32 × Held) (e : Input) (hs : OneBit s.1) : OneBit (step s e).1 := by
  cases e with
  | idle dataReg h => exact hs
  | make dataReg h hcode =>
    rw [step, shiftStep_make hs]
    split_ifs
    · exact .inr rfl
    · exact hs
  | release dataReg h hcode wait hwait hlength dataReg' h' =>
    rw [step, shiftStep, release_some hs]
    split_ifs
    · exact .inl rfl
    · exact hs

/-- A press sets the bit. -/
theorem tracks_make {s : U32 × Held} {dataReg : U32} (hs : OneBit s.1) (ht : Tracks s)
    (h : ps2Valid dataReg) (hcode : dataReg &&& ps2DataMask ≠ 0xf0#32) :
    Tracks (step s (.make dataReg h hcode)) := by
  rw [Tracks, step, shiftStep_make hs]
  split_ifs with hshift
  · have hone : 1#32 ≠ 0#32 := by decide
    refine iff_of_true hone ?_
    rcases hshift with hR | hL
    · exact .inr (by simp [Held.step, hR])
    · exact .inl (by simp [Held.step, hL])
  · obtain ⟨hR, hL⟩ := not_or.mp hshift
    have hsame : s.1 ≠ 0#32 ↔ s.2.left = true ∨ s.2.right = true := ht
    simpa [Held.step, Held.shift, hR, hL] using hsame

/-- A release clears it, whatever the other key does. -/
theorem tracks_release {s : U32 × Held} {dataReg dataReg' : U32} {wait : List U32}
    (hs : OneBit s.1) (ht : Tracks s) (h : ps2Valid dataReg)
    (hcode : dataReg &&& ps2DataMask = 0xf0#32) (hwait : ∀ v ∈ wait, ¬ ps2Valid v)
    (hlength : wait.length < 10) (h' : ps2Valid dataReg') :
    Tracks (step s (.release dataReg h hcode wait hwait hlength dataReg' h')) ↔
      (dataReg' &&& ps2DataMask = kbdShiftL → s.2.right = false) ∧
        (dataReg' &&& ps2DataMask = kbdShiftR → s.2.left = false) := by
  have hne : kbdShiftL ≠ kbdShiftR := by decide
  rw [Tracks, step, shiftStep, release_some hs]
  by_cases hL : dataReg' &&& ps2DataMask = kbdShiftL
  · simp [Held.step, Held.shift, hL, hne]
  · by_cases hR : dataReg' &&& ps2DataMask = kbdShiftR
    · simp [Held.step, Held.shift, hR, hne.symm]
    · have hsame : s.1 ≠ 0#32 ↔ s.2.left = true ∨ s.2.right = true := ht
      simp [Held.step, Held.shift, hL, hR, hsame]

/-- **A step** keeps track of the keys where no shift key is released while the other is held. -/
theorem tracks_step (s : U32 × Held) (e : Input) (hs : OneBit s.1) (ht : Tracks s) :
    Tracks (step s e) ↔ ReleasedLast s.2 e := by
  cases e with
  | idle dataReg h => exact iff_of_true ht trivial
  | make dataReg h hcode => exact iff_of_true (tracks_make hs ht h hcode) trivial
  | release dataReg h hcode wait hwait hlength dataReg' h' =>
    exact tracks_release hs ht h hcode hwait hlength h'

/-- The state and the keys that are held can be followed apart. -/
theorem run_step (s : U32 × Held) (l : List Input) :
    run step s l = (l.foldl shiftStep s.1, run Held.step s.2 l) := by
  induction l generalizing s with
  | nil => rfl
  | cons e l ih => exact ih (step s e)

/-- **The shift state** tells, at all times, whether a shift key is held, if and only if neither is
released while the other one is held. -/
theorem shift_state_iff (l : List Input) :
    (∀ before after, l = before ++ after →
      (shiftAfter before ≠ 0#32 ↔ (run Held.step .none before).shift)) ↔
      EachStep Held.step ReleasedLast .none l := by
  have hrun (before : List Input) : Tracks (run step (kbdStateShiftOff, .none) before) ↔
      (shiftAfter before ≠ 0#32 ↔ (run Held.step .none before).shift) := by
    rw [Tracks, run_step, shiftAfter_eq]
  have hstart : OneBit (kbdStateShiftOff, Held.none).1 := .inl rfl
  have htracks : Tracks (kbdStateShiftOff, .none) :=
    iff_of_false (fun hne => hne rfl) (by rintro (h | h) <;> cases h)
  have hall :=
    throughout_iff (fun s : U32 × Held => OneBit s.1) oneBit_step tracks_step (l := l) hstart
  rw [and_iff_right htracks] at hall
  have hkeys : EachStep step (fun s e => ReleasedLast s.2 e) (kbdStateShiftOff, .none) l ↔
      EachStep Held.step ReleasedLast .none l :=
    eachStep_iff_of_sim (R := fun s t => s.2 = t) (fun s t e hR => by rw [hR])
      (fun s t e hR => congrArg (Held.step · e) hR) rfl
  rw [← hkeys, ← hall]
  simp only [Throughout, hrun]

/-- The right key is pressed while the left one is held, and the left one is released. -/
theorem not_shift_state : ¬ ∀ l : List Input,
    (shiftAfter l ≠ 0#32 ↔ (run Held.step .none l).shift) := by
  intro h
  have hboth := h [.make 0x8012#32 (by decide) (by decide), .make 0x8059#32 (by decide) (by decide),
    .release 0x80f0#32 (by decide) (by decide) [] (by simp) (by decide) 0x8012#32 (by decide)]
  rw [shiftAfter_eq] at hboth
  exact hboth.mpr (.inr rfl) rfl

end Kbd

end ScBl
