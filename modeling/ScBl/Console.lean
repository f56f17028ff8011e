import ScBl.Colorize

/-!
# The console calls (`mtrap.c`)

`mcall_console_putchar` holds `printk_lock`, and gives its character to the colorizer until
`skip_con_colorize` is set, and to the UART from then on. `mcall_console_getchar` takes no lock: it
sets `skip_con_colorize` at any time. The characters that come out are the arguments in their
order, unless one is put directly while the colorizer holds others back (`console_in_order_iff`).
-/

namespace ScBl

open Runs Colorizer

/-! ## The code -/

/-- Where `mcall_console_putchar` is, from `arch_spin_lock` on. -/
inductive PutcharAt
  /-- `if (!skip_con_colorize)` -/
  | test
  /-- `con_colorize_putchar(ch)` -/
  | colorize
  /-- `uart_putc(ch)` -/
  | raw
  /-- `arch_spin_unlock` -/
  | unlock
  deriving DecidableEq, Repr

/-- The console of all harts. -/
structure Console where
  /-- `skip_con_colorize` -/
  skipConColorize : Bool
  /-- The colorizer, and all that the UART was given. -/
  colorizer : Colorizer
  /-- The call that holds `printk_lock`: its `ch`, and where it is. -/
  call : Option (U32 × PutcharAt)
  /-- The arguments of the calls that got the lock, in their order. -/
  args : List U32

/-- What a hart does next. -/
inductive ConsoleEvent
  /-- `mcall_console_putchar(ch)` tries to get the lock. -/
  | lock (ch : U32)
  /-- The call that has the lock goes on. -/
  | advance
  /-- `mcall_console_getchar()`, in which `uart_getc_nowait` returns `received`. -/
  | getchar (received : U32)
  deriving DecidableEq, Repr

namespace Console

variable (s : Console) (ch : U32)

/-- The initial values. -/
def start : Console where
  skipConColorize := false
  colorizer := .start
  call := none
  args := []

/-- The calls of `mcall_console_putchar` that have not got the lock wait. -/
def lock : Console :=
  match s.call with
  | none => { s with call := some (ch, .test), args := s.args ++ [ch] }
  | some _ => s

def advance : Console :=
  match s.call with
  | none => s
  | some (ch, .test) =>
    { s with call := some (ch, if s.skipConColorize then .raw else .colorize) }
  | some (ch, .colorize) =>
    { s with colorizer := s.colorizer.putchar ch, call := some (ch, .unlock) }
  | some (ch, .raw) => { s with colorizer := s.colorizer.putc ch, call := some (ch, .unlock) }
  | some (_, .unlock) => { s with call := none }

/-- `mcall_console_getchar`, with its result. -/
def mcallConsoleGetchar (received : U32) : Console × U32 :=
  ({ s with skipConColorize := true }, received)

def step : ConsoleEvent → Console
  | .lock ch => s.lock ch
  | .advance => s.advance
  | .getchar received => (s.mcallConsoleGetchar received).1

/-- The steps of `mcall_console_putchar`, where no other hart gets between. -/
def putcharEvents : List ConsoleEvent := [.lock ch, .advance, .advance, .advance]

variable {s ch} {e : ConsoleEvent}

/-! ## What the console owes -/

/-- The characters that have reached the UART. -/
def shown (s : Console) : List U32 := visible s.colorizer.out

/-- The characters that are held back. -/
def held (s : Console) : List U32 := s.colorizer.held

/-- The character of a call that has not passed it on. -/
def pending (s : Console) : List U32 :=
  match s.call with
  | none | some (_, .unlock) => []
  | some (ch, .test) | some (ch, .colorize) | some (ch, .raw) => [ch]

/-- Nothing is lost and nothing is reordered. -/
def Complete (s : Console) : Prop := s.shown ++ s.held ++ s.pending = s.args

/-- What reaches the UART from `s` to `t` is nothing, or the character of the call behind what was
held back. -/
def HeldFirst (s t : Console) : Prop :=
  t.shown = s.shown ∨ ∃ ch, s.pending = [ch] ∧ t.shown = s.shown ++ s.held ++ [ch]

/-- Where the call puts its character directly, none is held back. -/
def NoneHeld (s : Console) (e : ConsoleEvent) : Prop :=
  e = .advance → (∃ ch, s.call = some (ch, .raw)) → s.colorizer.lcs ≠ .linuxHeader

/-- Between the calls, the arguments have come out in their order, but for some at the end. These
come out before all that is put later. -/
def InOrder (s : Console) (l : List ConsoleEvent) : Prop :=
  Throughout step (fun s => s.call = none → s.shown ++ s.held = s.args) s l ∧
    EachStep step (fun s e => HeldFirst s (s.step e)) s l

theorem held_eq_nil_iff (hinv : s.colorizer.Inv) :
    s.held = [] ↔ s.colorizer.lcs ≠ .linuxHeader := by
  refine ⟨fun hnil hlcs => ?_, held_of_ne⟩
  obtain ⟨-, -, -, hlen⟩ := held_spec hinv
  have hzero : s.colorizer.held.length = 0 := congrArg List.length hnil
  rw [hlen hlcs] at hzero
  exact absurd hzero (Nat.pos_iff_ne_zero.mp (hinv hlcs).1)

/-- The colorizer keeps its invariant when a character goes past it. -/
theorem inv_step (hinv : s.colorizer.Inv) (e : ConsoleEvent) : (s.step e).colorizer.Inv := by
  obtain ⟨skip, colorizer, call, args⟩ := s
  cases e with
  | lock ch => cases call <;> exact hinv
  | getchar received => exact hinv
  | advance =>
    match call with
    | none | some (_, .test) | some (_, .raw) | some (_, .unlock) => exact hinv
    | some (ch, .colorize) => exact (history_putchar colorizer ch hinv).1

/-- What the colorizer passes on goes behind what it held back. So the characters on the console are
in the order in which they came. -/
theorem heldFirst_putchar {c : Colorizer} (hinv : c.Inv) (ch : U32) :
    visible (c.putchar ch).out = visible c.out ∨
      visible (c.putchar ch).out = visible c.out ++ c.held ++ [ch] := by
  by_cases hs : c.lcs = .linuxHeader
  · obtain ⟨hpos, hle⟩ := hinv hs
    have hheld : c.held = (List.range c.lcsPos.toNat).map linuxHdrPattern := if_pos hs
    have hputchar : c.putchar ch = c.linuxHeader ch := by rw [putchar, hs]
    rw [hputchar, linuxHeader, hheld]
    split_ifs with hend hnext
    · have hsix : c.lcsPos.toNat = 6 := (linuxHdrPattern_eq_zero hle).mp hend
      exact .inr (by simp [hsix])
    · exact .inl rfl
    · exact .inr (by simp)
  · rw [held_of_ne hs, List.append_nil]
    by_cases hline : c.lcs = .lineStart
    · have hputchar : c.putchar ch = c.lineStart ch := by rw [putchar, hline]
      rw [hputchar, lineStart]
      split_ifs with hfirst hspace
      · exact .inl rfl
      · exact .inr (by simp)
      · exact .inr (by simp)
    · exact .inr (passes_putchar hs hline).visible

/-- **A step** brings out what was held back before the character of the call, if and only if
it does not put it directly while some is held. -/
theorem heldFirst_iff (hinv : s.colorizer.Inv) : HeldFirst s (s.step e) ↔ NoneHeld s e := by
  have hheld := held_eq_nil_iff hinv
  obtain ⟨skip, colorizer, call, args⟩ := s
  cases e with
  | getchar received => exact iff_of_true (.inl rfl) (fun h => ConsoleEvent.noConfusion h)
  | lock ch =>
    refine iff_of_true (.inl ?_) (fun h => ConsoleEvent.noConfusion h)
    cases call <;> rfl
  | advance =>
    match call with
    | none | some (_, .test) | some (_, .unlock) =>
      exact iff_of_true (.inl rfl) (by rintro - ⟨ch, hcall⟩; cases hcall)
    | some (ch, .colorize) =>
      refine iff_of_true ?_ (by rintro - ⟨ch, hcall⟩; cases hcall)
      exact (heldFirst_putchar hinv ch).imp id fun hshown => ⟨ch, rfl, hshown⟩
    | some (ch, .raw) =>
      have hputc : visible (colorizer.putc ch).out = visible colorizer.out ++ [ch] := visible_putc
      have hcond : NoneHeld ⟨skip, colorizer, some (ch, .raw), args⟩ .advance ↔
          colorizer.held = [] :=
        Iff.trans ⟨fun h => h rfl ⟨ch, rfl⟩, fun h _ _ => h⟩ hheld.symm
      rw [hcond]
      constructor
      · rintro (hshown | ⟨ch', hpending, hshown⟩)
        · exact absurd (congrArg List.length (hputc.symm.trans hshown)) (by simp [shown])
        · have hlen := congrArg List.length (hputc.symm.trans hshown)
          simp only [List.length_append, List.length_singleton, shown, held] at hlen
          exact List.length_eq_zero_iff.mp (by omega)
      · intro hnil
        refine .inr ⟨ch, rfl, hputc.trans ?_⟩
        simp [shown, held, hnil]

/-- A step of that kind keeps all characters, in their order: while none is held back, it makes no
difference which way a character goes. -/
theorem complete_step (hinv : s.colorizer.Inv) (hs : s.Complete) (hC : NoneHeld s e) :
    (s.step e).Complete := by
  have hheld := held_eq_nil_iff hinv
  obtain ⟨skip, colorizer, call, args⟩ := s
  rw [Complete] at hs
  cases e with
  | getchar received => exact hs
  | lock ch =>
    match call with
    | some _ => exact hs
    | none =>
      rw [pending, List.append_nil] at hs
      exact congrArg (· ++ [ch]) hs
  | advance =>
    match call with
    | none | some (_, .unlock) => exact hs
    | some (_, .test) => cases skip <;> exact hs
    | some (ch, .colorize) =>
      have hhistory := (history_putchar colorizer ch hinv).2
      exact (List.append_nil _).trans (hhistory.trans hs)
    | some (ch, .raw) =>
      have hnil : colorizer.held = [] := hheld.mpr (hC rfl ⟨ch, rfl⟩)
      have hputc : visible (colorizer.putc ch).out = visible colorizer.out ++ [ch] := visible_putc
      have hheld' : (colorizer.putc ch).held = [] := hnil
      refine Eq.trans ?_ hs
      simp [shown, held, pending, hputc, hheld', hnil, step, advance]

theorem inv_start : start.colorizer.Inv := inv_of_ne LogColorState.noConfusion

theorem Complete.eq_args (h : s.Complete) (hcall : s.call = none) : s.shown ++ s.held = s.args := by
  rw [Complete, pending, hcall, List.append_nil] at h
  exact h

/-- **The console**, over every interleaving of the calls of all harts: it loses and reorders
nothing if and only if no character is put directly while the colorizer holds back others. -/
theorem console_in_order_iff (l : List ConsoleEvent) :
    InOrder start l ↔ EachStep step NoneHeld start l := by
  have hsteps : EachStep step (fun s e => HeldFirst s (s.step e)) start l ↔
      EachStep step NoneHeld start l :=
    eachStep_iff_of_inv (fun s => s.colorizer.Inv) (fun s e hs => heldFirst_iff hs)
      (fun s e hs _ => inv_step hs e) inv_start
  rw [InOrder, hsteps, and_iff_right_iff_imp]
  intro hC before after heq hcall
  obtain ⟨hbefore, -⟩ := eachStep_append.mp (heq ▸ hC)
  have hkeep := EachStep.of_inv (P := fun _ _ => True) (fun s => s.colorizer.Inv ∧ s.Complete)
    (fun s e hs hC => ⟨trivial, inv_step hs.1 e, complete_step hs.1 hs.2 hC⟩)
    ⟨inv_start, rfl⟩ hbefore
  exact hkeep.2.2.eq_args hcall

/-- The `L` of a line is held back, and the `i` put after a `getchar` comes without it. -/
theorem console_not_in_order : ¬ ∀ l : List ConsoleEvent, (run step start l).call = none →
    (run step start l).shown <+: (run step start l).args := by
  intro h
  have hprefix := h (([chr '[', chr ']', chr ' ', chr 'L'].flatMap putcharEvents) ++
    .getchar 0#32 :: putcharEvents (chr 'i')) rfl
  exact absurd hprefix (by decide)

end Console

end ScBl
