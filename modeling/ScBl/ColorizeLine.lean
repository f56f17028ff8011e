import ScBl.Colorize

/-!
# The lines of the kernel log (`con_utils.c`)

Some states of the colorizer take a newline for the end of a line and go back to `LCS_INIT`, others
take it for a character like any other (`lcs_newline`). From `LCS_INIT` on, the colours are those of
a colorizer that has seen nothing (`out_run_of_init`).
-/

namespace ScBl

open Runs

/-- The states that take a newline for the end of a line. -/
def LogColorState.endsLine : LogColorState → Bool
  | .init | .linuxHdrRest | .textMain | .textRest | .parseErr => true
  | .time | .info2 | .space1 | .lineStart | .linuxHeader => false

namespace Colorizer

variable {s t : Colorizer} {ch : U32} {text brace : String} {o : List ConOut} {n : ℕ}

/-! ## Where a newline leads -/

theorem lcs_colours_newline (digit : String) :
    (s.colours (chr '\n') brace digit text).lcs = .init := by
  rw [colours, if_pos rfl]
  rfl

/-- **A newline** leads to `LCS_INIT` from the states that take it for the end of a line. In the
others it is a character like any other, and the colours of the line go on. -/
theorem lcs_newline (s : Colorizer) :
    (s.putchar (chr '\n')).lcs = .init ↔ s.lcs.endsLine = true := by
  have hbrace : chr '\n' ≠ chr ']' := by decide
  have hcolon : chr '\n' ≠ chr ':' := by decide
  have hopen : chr '\n' ≠ chr '[' := by decide
  rw [putchar]
  cases hlcs : s.lcs with
  | init => simp [init, hopen, hlcs, LogColorState.endsLine]
  | time | info2 =>
    simp only [time, info2, braces, if_neg hbrace, lcs_putc, LogColorState.endsLine]
    split_ifs <;> simp [hlcs]
  | space1 =>
    rw [space1]
    split_ifs <;> simp [LogColorState.endsLine]
  | lineStart =>
    rw [lineStart]
    split_ifs <;> simp [LogColorState.endsLine]
  | linuxHeader =>
    rw [linuxHeader]
    split_ifs <;> simp [hlcs, LogColorState.endsLine]
  | linuxHdrRest | parseErr => simp [restOfLine, LogColorState.endsLine]
  | textMain => simp [textMain, hbrace, hcolon, lcs_colours_newline, LogColorState.endsLine]
  | textRest => simp [textRest, hbrace, lcs_colours_newline, LogColorState.endsLine]

/-! ## What was given to the console before -/

/-- The same colorizer, after more was given to the console. -/
def after (o : List ConOut) (s : Colorizer) : Colorizer := { s with out := o ++ s.out }

theorem after_puts : (s.after o).puts text = (s.puts text).after o := by simp [after, puts]

theorem after_putc : (s.after o).putc ch = (s.putc ch).after o := by simp [after, putc]

theorem after_setSubmode (x : U32) :
    { s.after o with lcsSubmode := x } = ({ s with lcsSubmode := x } : Colorizer).after o := rfl

theorem after_colours (digit : String) :
    (s.after o).colours ch brace digit text = (s.colours ch brace digit text).after o := by
  simp only [colours, apply_ite (after o), ← after_setSubmode, ← after_puts]
  rfl

theorem after_braces : (s.after o).braces ch brace = (s.braces ch brace).after o := by
  have hpos : (s.after o).lcsPos = s.lcsPos := rfl
  dsimp only [braces]
  rw [hpos]
  split_ifs <;> simp [after, puts, putc]

theorem after_textMain : (s.after o).textMain ch = (s.textMain ch).after o := by
  simp only [textMain, after_colours, after_putc]
  split_ifs <;> simp [after, puts, putc]

theorem after_textRest : (s.after o).textRest ch = (s.textRest ch).after o := by
  simp only [textRest, after_colours, after_putc]
  split_ifs <;> simp [after, puts]

theorem after_linuxHeader : (s.after o).linuxHeader ch = (s.linuxHeader ch).after o := by
  have hpos : (s.after o).lcsPos = s.lcsPos := rfl
  rw [linuxHeader, linuxHeader, hpos]
  split_ifs <;> simp [after, puts, putc, putsPattern]

/-- No branch looks at what was given to the console, so that the state after a text does not depend
on it. -/
theorem after_putchar (s : Colorizer) (ch : U32) :
    (s.after o).putchar ch = (s.putchar ch).after o := by
  have hlcs : (s.after o).lcs = s.lcs := rfl
  rw [putchar, putchar, hlcs]
  cases s.lcs with
  | init =>
    simp only [init, after]
    split_ifs <;> simp [puts, putc]
  | time | info2 => exact after_braces
  | space1 =>
    simp only [space1, after]
    split_ifs <;> simp [puts, putc]
  | lineStart =>
    simp only [lineStart, after]
    split_ifs <;> simp [puts, putc]
  | linuxHeader => exact after_linuxHeader
  | linuxHdrRest | parseErr =>
    simp only [restOfLine, after]
    split_ifs <;> simp [puts, putc]
  | textMain => exact after_textMain
  | textRest => exact after_textRest

/-! ## What is left over from the lines before -/

/-- `s` does what `t` does, after `o`. In `LCS_INIT` and `LCS_PARSE_ERR` it may have another
position and another sub-mode. -/
structure Follows (o : List ConOut) (s t : Colorizer) : Prop where
  out : s.out = o ++ t.out
  lcs : s.lcs = t.lcs
  eq_after : t.lcs ≠ .init → t.lcs ≠ .parseErr → s = t.after o

/-- What has been put out before makes no difference. -/
theorem follows_after : Follows o (t.after o) t := ⟨rfl, rfl, fun _ _ => rfl⟩

/-- `LCS_INIT` sets the position and the sub-mode before they are used. -/
theorem Follows.init (h : Follows o s t) (ht : t.lcs = .init) :
    Follows o (s.init ch) (t.init ch) := by
  have hout := h.out
  have hlcs := h.lcs
  simp only [Colorizer.init]
  split_ifs with hbrace hend
  · have heq : { ((s.puts ttyColorTimeBrace).putc (chr '[')).puts ttyColorTimeText with
          lcs := .time, lcsSubmode := lcsNone, lcsPos := 0#32 } =
        ({ ((t.puts ttyColorTimeBrace).putc (chr '[')).puts ttyColorTimeText with
          lcs := .time, lcsSubmode := lcsNone, lcsPos := 0#32 } : Colorizer).after o := by
      simp [after, puts, putc, hout]
    exact heq ▸ follows_after
  · exact ⟨by simp [puts, putc, hout], rfl, fun _ hne => absurd rfl hne⟩
  · exact ⟨by simp [putc, hout], hlcs, fun hne _ => absurd ht hne⟩

theorem Follows.restOfLine (h : Follows o s t) (ht : t.lcs = .parseErr) :
    Follows o (s.restOfLine ch) (t.restOfLine ch) := by
  have hout := h.out
  have hlcs := h.lcs
  simp only [Colorizer.restOfLine]
  split_ifs with hend
  · exact ⟨by simp [puts, putc, hout], rfl, fun hne _ => absurd rfl hne⟩
  · exact ⟨by simp [putc, hout], hlcs, fun _ hne => absurd ht hne⟩

/-- **A step** of both. By cases of the state: the code is in the one that the line says, and finds
what that state reads. -/
theorem Follows.putchar (h : Follows o s t) (ch : U32) :
    Follows o (s.putchar ch) (t.putchar ch) := by
  by_cases hinit : t.lcs = .init
  · have hs : s.putchar ch = s.init ch := by rw [Colorizer.putchar, h.lcs, hinit]
    have ht : t.putchar ch = t.init ch := by rw [Colorizer.putchar, hinit]
    rw [hs, ht]
    exact h.init hinit
  · by_cases herr : t.lcs = .parseErr
    · have hs : s.putchar ch = s.restOfLine ch := by rw [Colorizer.putchar, h.lcs, herr]
      have ht : t.putchar ch = t.restOfLine ch := by rw [Colorizer.putchar, herr]
      rw [hs, ht]
      exact h.restOfLine herr
    · rw [h.eq_after hinit herr, after_putchar]
      exact follows_after

/-- **From `LCS_INIT`**, the colours are those of a colorizer that has seen nothing. -/
theorem out_run_of_init (hs : s.lcs = .init) (l : List U32) :
    (run putchar s l).out = s.out ++ (run putchar start l).out := by
  have hstart : Follows s.out s start :=
    ⟨(List.append_nil _).symm, hs, fun hne _ => absurd rfl hne⟩
  exact (run_sim (R := Follows s.out) (fun _ _ ch h => h.putchar ch) (l := l) hstart).out

/-! ## Lines -/

/-- In `LCS_INIT`, with nothing held back, and what follows is given the colours that it has by
itself. -/
structure AtLineStart (s : Colorizer) : Prop where
  lcs : s.lcs = .init
  held : s.held = []
  out : ∀ l, (run Colorizer.putchar s l).out = s.out ++ (run Colorizer.putchar start l).out

/-- A line starts where the state is `LCS_INIT`. -/
theorem atLineStart_iff : s.AtLineStart ↔ s.lcs = .init := by
  refine ⟨AtLineStart.lcs, fun hs => ⟨hs, held_of_ne ?_, out_run_of_init hs⟩⟩
  rw [hs]
  exact LogColorState.noConfusion

/-- **Resynchronisation.** In a text, every newline leads to the start of a line if and only if
the colorizer meets it in a state that takes it for the end of one. -/
theorem resync_iff (l : List U32) :
    EachStep putchar (fun s ch => ch = chr '\n' → (s.putchar ch).AtLineStart) start l ↔
      EachStep putchar (fun s ch => ch = chr '\n' → s.lcs.endsLine = true) start l := by
  refine eachStep_congr fun s ch => forall_congr' fun hch => ?_
  subst hch
  rw [atLineStart_iff, lcs_newline]

/-- A line of the log with no text: what follows it is taken for its text. -/
theorem not_resync : ¬ ∀ l : List U32, (run putchar start (l ++ [chr '\n'])).lcs = .init := by
  intro h
  have htext : (run putchar start ([chr '[', chr ']', chr ' '] ++ [chr '\n'])).lcs = .textMain := by
    decide
  rw [h] at htext
  cases htext

end Colorizer

end ScBl
