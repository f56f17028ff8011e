import ScBl.Bitops
import ScBl.Lib.Runs

/-!
# The colorizer of the kernel log (`con_utils.c`)

`con_colorize_putchar` puts escape strings between the characters of the log, by a state machine
over its lines. While a line may begin with `Linux ` it holds back what it has seen of that. All
characters come out again, in their order.
-/

namespace ScBl

/-! ## Texts -/

def ttyColorNc : String := "\x1b[0m"
def ttyColorGreen : String := "\x1b[0;32m"
def ttyColorYellow : String := "\x1b[0;33m"
def ttyColorYellowY : String := "\x1b[1;33m"
def ttyColorCyan : String := "\x1b[0;36m"
def ttyColorCyanY : String := "\x1b[1;36m"
def ttyColorWhiteY : String := "\x1b[1;37m"

def ttyColorTimeBrace : String := ttyColorCyan
def ttyColorTimeText : String := ttyColorCyan
def ttyColorInfo2Brace : String := ttyColorNc
def ttyColorInfo2Text : String := ttyColorNc
def ttyColorLinuxText : String := ttyColorYellowY
def ttyColorTextMainBrace : String := ttyColorCyanY
def ttyColorTextRestBrace : String := ttyColorCyan
def ttyColorTextMainDigit : String := ttyColorYellowY
def ttyColorTextRestDigit : String := ttyColorYellow
def ttyColorMainText : String := ttyColorWhiteY
def ttyColorMainText2 : String := ttyColorCyanY
def ttyColorMainRest : String := ttyColorGreen

/-- A character constant, which is an `int`. -/
def chr (c : Char) : U32 := BitVec.ofNat 32 c.toNat

/-- The characters of `Linux `. -/
def linuxHdr : List U32 := [chr 'L', chr 'i', chr 'n', chr 'u', chr 'x', chr ' ']

/-- `linux_hdr_pattern`, with the zero at its end. -/
def linuxHdrPattern (i : ℕ) : U32 := linuxHdr.getD i 0#32

/-! ## The state -/

/-- `enum Log_color_state` -/
inductive LogColorState
  | init
  | time
  | info2
  | space1
  | lineStart
  | linuxHeader
  | linuxHdrRest
  | textMain
  | textRest
  | parseErr
  deriving DecidableEq, Repr

def lcsNone : U32 := 0#32
def lcsBraces : U32 := 1#32
def lcsDigit : U32 := 2#32
def lcsXdigit : U32 := 4#32

/-- What the console is given: an escape string, or a character. -/
inductive ConOut
  | escape (text : String)
  | char (ch : U32)
  deriving DecidableEq, Repr

/-- The static variables of `con_colorize_putchar`, and what was given to the console so far. -/
structure Colorizer where
  lcsPos : U32
  lcs : LogColorState
  lcsSubmode : U32
  out : List ConOut

namespace Colorizer

variable (s : Colorizer) (ch : U32)

/-- The initial values. -/
def start : Colorizer where
  lcsPos := 0#32
  lcs := .init
  lcsSubmode := lcsNone
  out := []

/-- `uart_puts` of an escape string. -/
def puts (text : String) : Colorizer := { s with out := s.out ++ [.escape text] }

/-- `uart_putc` -/
def putc : Colorizer := { s with out := s.out ++ [.char ch] }

/-- A bit of `lcs_submode`. -/
def submode (bit : U32) : Prop := s.lcsSubmode &&& bit ≠ 0#32

instance (bit : U32) : Decidable (s.submode bit) :=
  inferInstanceAs (Decidable (_ ≠ _))

/-- `ch >= '0' && ch <= '9'` -/
def isDigit (ch : U32) : Prop := (chr '0').sle ch ∧ ch.sle (chr '9')

instance (ch : U32) : Decidable (isDigit ch) :=
  inferInstanceAs (Decidable (_ ∧ _))

/-- The letters of hexadecimal digits. -/
def isXletter (ch : U32) : Prop :=
  (chr 'a').sle (ch ||| (chr 'a' ^^^ chr 'A')) ∧ (ch ||| (chr 'a' ^^^ chr 'A')).sle (chr 'f')

instance (ch : U32) : Decidable (isXletter ch) :=
  inferInstanceAs (Decidable (_ ∧ _))

/-! ## The branches of the switch -/

def init : Colorizer :=
  if ch = chr '[' then
    { ((s.puts ttyColorTimeBrace).putc (chr '[')).puts ttyColorTimeText with
      lcs := .time
      lcsSubmode := lcsNone
      lcsPos := 0#32 }
  else
    let s :=
      if ch ≠ chr '\n' ∧ ch ≠ chr '\r' then { s with lcs := .parseErr }.puts ttyColorNc else s
    s.putc ch

/-- Between braces, which have a colour: `LCS_TIME` and `LCS_INFO2`. -/
def braces (brace : String) : Colorizer :=
  if ch = chr ']' then
    { ((s.puts brace).putc (chr ']')).puts ttyColorMainText with lcs := .space1 }
  else
    let s := { s with lcsPos := s.lcsPos + 1#32 }
    let s := if 30#32 < s.lcsPos then { s with lcs := .parseErr }.puts ttyColorNc else s
    s.putc ch

def time : Colorizer := s.braces ch ttyColorTimeBrace

def info2 : Colorizer := s.braces ch ttyColorInfo2Brace

def space1 : Colorizer :=
  if ch = chr ' ' then { s.putc ch with lcs := .lineStart }
  else if ch = chr '[' then
    { ((s.puts ttyColorInfo2Brace).putc (chr '[')).puts ttyColorInfo2Text with
      lcs := .info2
      lcsSubmode := lcsNone
      lcsPos := 0#32 }
  else ({ s with lcs := .parseErr }.puts ttyColorNc).putc ch

def lineStart : Colorizer :=
  if ch = linuxHdrPattern 0 then { s with lcs := .linuxHeader, lcsPos := 1#32 }
  else
    let s := if ch = chr ' ' ∨ ch = chr '\t' then s.puts ttyColorMainText2 else s
    { s with lcs := .textMain }.putc ch

/-- The first `n` characters of the pattern. -/
def putsPattern (n : ℕ) : Colorizer :=
  { s with out := s.out ++ (List.range n).map fun i => .char (linuxHdrPattern i) }

def linuxHeader : Colorizer :=
  if linuxHdrPattern s.lcsPos.toNat = 0#32 then
    { (s.puts ttyColorLinuxText).putsPattern 6 with lcs := .linuxHdrRest }.putc ch
  else if ch = linuxHdrPattern s.lcsPos.toNat then { s with lcsPos := s.lcsPos + 1#32 }
  else ({ s with lcs := .textMain }.putsPattern s.lcsPos.toNat).putc ch

/-- Up to the end of the line: `LCS_LINUX_HDR_REST` and `LCS_PARSE_ERR`. -/
def restOfLine : Colorizer :=
  let s := if ch = chr '\n' then { s with lcs := .init }.puts ttyColorNc else s
  s.putc ch

/-- The colours of braces and digits in a text, `LCS_TEXT_MAIN` and `LCS_TEXT_REST`. -/
def colours (brace digit text : String) : Colorizer :=
  let s' := { s with lcsSubmode := s.lcsSubmode &&& ~~~ lcsDigit }
  let s'' := { s with lcsSubmode := s.lcsSubmode &&& ~~~ lcsXdigit }
  if ch = chr '\n' then { s with lcs := .init }.puts ttyColorNc
  else if ch = chr '[' then { s.puts brace with lcsSubmode := lcsBraces }
  else if isDigit ch ∧ ¬ s.submode lcsDigit ∧ ¬ s.submode lcsXdigit then
    { s with lcsSubmode := s.lcsSubmode ||| lcsDigit }.puts digit
  else if s.submode lcsDigit ∧ (ch = chr 'x' ∨ ch = chr 'X') then
    { s' with lcsSubmode := s'.lcsSubmode ||| lcsXdigit }.puts digit
  else if s.submode lcsDigit ∧ ¬ isDigit ch then
    s'.puts (if s'.submode lcsBraces then brace else text)
  else if s.submode lcsXdigit ∧ ¬ isDigit ch ∧ ¬ isXletter ch then
    s''.puts (if s''.submode lcsBraces then brace else text)
  else s

def textMain : Colorizer :=
  let s := s.colours ch ttyColorTextMainBrace ttyColorTextMainDigit ttyColorMainText
  let s := s.putc ch
  let s := if ch = chr ']' then { s with lcsSubmode := lcsNone }.puts ttyColorMainText else s
  if ch = chr ':' then
    { s with lcs := .textRest, lcsSubmode := lcsNone }.puts ttyColorMainRest
  else s

def textRest : Colorizer :=
  let s := s.colours ch ttyColorTextRestBrace ttyColorTextRestDigit ttyColorMainRest
  let s := s.putc ch
  if ch = chr ']' then s.puts ttyColorMainRest else s

/-- `con_colorize_putchar` -/
def putchar : Colorizer :=
  match s.lcs with
  | .init => s.init ch
  | .time => s.time ch
  | .info2 => s.info2 ch
  | .space1 => s.space1 ch
  | .lineStart => s.lineStart ch
  | .linuxHeader => s.linuxHeader ch
  | .linuxHdrRest | .parseErr => s.restOfLine ch
  | .textMain => s.textMain ch
  | .textRest => s.textRest ch

/-! ## What is seen -/

/-- The characters among what the console is given. -/
def visible (out : List ConOut) : List U32 :=
  out.filterMap fun
    | .escape _ => none
    | .char ch => some ch

/-- What is held back. -/
def held : List U32 :=
  if s.lcs = .linuxHeader then (List.range s.lcsPos.toNat).map linuxHdrPattern else []

variable {s ch} {t : Colorizer} {text brace : String} {n : ℕ}

@[simp] theorem visible_puts : visible (s.puts text).out = visible s.out := by
  simp [puts, visible]

@[simp] theorem visible_putc : visible (s.putc ch).out = visible s.out ++ [ch] := by
  simp [putc, visible]

@[simp] theorem visible_putsPattern : visible (s.putsPattern n).out =
    visible s.out ++ (List.range n).map linuxHdrPattern := by
  simp [putsPattern, visible, List.filterMap_map]

@[simp] theorem lcs_puts : (s.puts text).lcs = s.lcs := rfl

@[simp] theorem lcs_putc : (s.putc ch).lcs = s.lcs := rfl

@[simp] theorem lcs_putsPattern : (s.putsPattern n).lcs = s.lcs := rfl

/-- Outside of `LCS_LINUX_HEADER` nothing is held back. -/
theorem held_of_ne (h : s.lcs ≠ .linuxHeader) : s.held = [] := if_neg h

/-- From `s` to `t` a character is passed on, and none is held back. -/
structure Passes (s t : Colorizer) (ch : U32) : Prop where
  visible : visible t.out = Colorizer.visible s.out ++ [ch]
  lcs : t.lcs ≠ .linuxHeader

theorem passes_init (hs : s.lcs ≠ .linuxHeader) : Passes s (s.init ch) ch := by
  rw [init]
  split_ifs with hbrace hend
  · exact ⟨by simp [hbrace], LogColorState.noConfusion⟩
  · exact ⟨by simp, LogColorState.noConfusion⟩
  · exact ⟨by simp, hs⟩

theorem passes_braces (hs : s.lcs ≠ .linuxHeader) : Passes s (s.braces ch brace) ch := by
  dsimp only [braces]
  split_ifs with hbrace
  · exact ⟨by simp [hbrace], LogColorState.noConfusion⟩
  · exact ⟨by simp, LogColorState.noConfusion⟩
  · exact ⟨by simp, hs⟩

theorem passes_space1 : Passes s (s.space1 ch) ch := by
  rw [space1]
  split_ifs with hspace hbrace
  · exact ⟨by simp, LogColorState.noConfusion⟩
  · exact ⟨by simp [hbrace], LogColorState.noConfusion⟩
  · exact ⟨by simp, LogColorState.noConfusion⟩

theorem passes_restOfLine (hs : s.lcs ≠ .linuxHeader) : Passes s (s.restOfLine ch) ch := by
  rw [restOfLine]
  split_ifs with hend
  · exact ⟨by simp, LogColorState.noConfusion⟩
  · exact ⟨by simp, hs⟩

/-- Colours are not seen. -/
theorem colours_spec (ch : U32) (brace digit text : String) (hs : s.lcs ≠ .linuxHeader) :
    visible (s.colours ch brace digit text).out = visible s.out ∧
      (s.colours ch brace digit text).lcs ≠ .linuxHeader := by
  rw [colours]
  split_ifs
  · exact ⟨by simp, LogColorState.noConfusion⟩
  all_goals exact ⟨by simp, hs⟩

/-- The text of a line is passed on, with the colours that a brace begins or ends. -/
theorem passes_textMain (hs : s.lcs ≠ .linuxHeader) : Passes s (s.textMain ch) ch := by
  obtain ⟨hvisible, hlcs⟩ := colours_spec ch ttyColorTextMainBrace ttyColorTextMainDigit
    ttyColorMainText hs
  dsimp only [textMain]
  split_ifs with hcolon hbrace hbrace
  · exact ⟨by simp [hvisible], LogColorState.noConfusion⟩
  · exact ⟨by simp [hvisible], LogColorState.noConfusion⟩
  · exact ⟨by simp [hvisible], hlcs⟩
  · exact ⟨by simp [hvisible], hlcs⟩

theorem passes_textRest (hs : s.lcs ≠ .linuxHeader) : Passes s (s.textRest ch) ch := by
  obtain ⟨hvisible, hlcs⟩ := colours_spec ch ttyColorTextRestBrace ttyColorTextRestDigit
    ttyColorMainRest hs
  dsimp only [textRest]
  split_ifs <;> exact ⟨by simp [hvisible], hlcs⟩

/-! ## The header -/

/-- What was passed on and what is held back. -/
def history (s : Colorizer) : List U32 := visible s.out ++ s.held

/-- In the header, the position is one of the pattern, and not its first. -/
def Inv (s : Colorizer) : Prop :=
  s.lcs = .linuxHeader → 0 < s.lcsPos.toNat ∧ s.lcsPos.toNat ≤ 6

theorem inv_of_ne (h : s.lcs ≠ .linuxHeader) : s.Inv := fun hlcs => absurd hlcs h

/-- What is passed on by a step that holds nothing back is one more character of the history. -/
theorem Passes.history (h : Passes s t ch) (hs : s.lcs ≠ .linuxHeader) :
    t.history = s.history ++ [ch] := by
  rw [Colorizer.history, Colorizer.history, held_of_ne h.lcs, held_of_ne hs, h.visible,
    List.append_nil, List.append_nil]

theorem linuxHdrPattern_eq_zero (hn : n ≤ 6) : linuxHdrPattern n = 0#32 ↔ n = 6 := by
  revert n
  decide

/-- The first character is held back. -/
theorem history_lineStart (hs : s.lcs ≠ .linuxHeader) :
    (s.lineStart ch).Inv ∧ (s.lineStart ch).history = s.history ++ [ch] := by
  rw [lineStart]
  split_ifs with hfirst hspace
  · have hone : (1#32).toNat ≤ 6 := by decide
    refine ⟨fun _ => ⟨Nat.one_pos, hone⟩, ?_⟩
    rw [history, history, held_of_ne hs, hfirst, List.append_nil]
    rfl
  · have hpasses : Passes s ({ s.puts ttyColorMainText2 with lcs := .textMain }.putc ch) ch :=
      ⟨by simp, LogColorState.noConfusion⟩
    exact ⟨inv_of_ne hpasses.lcs, hpasses.history hs⟩
  · have hpasses : Passes s ({ s with lcs := .textMain }.putc ch) ch :=
      ⟨by simp, LogColorState.noConfusion⟩
    exact ⟨inv_of_ne hpasses.lcs, hpasses.history hs⟩

/-- One more character is held back, or all of them are passed on: those held back are the beginning
of the pattern, so that they can be put out from the pattern. -/
theorem history_linuxHeader (hs : s.lcs = .linuxHeader) (hinv : s.Inv) :
    (s.linuxHeader ch).Inv ∧ (s.linuxHeader ch).history = s.history ++ [ch] := by
  obtain ⟨hpos, hle⟩ := hinv hs
  have hheld : s.held = (List.range s.lcsPos.toNat).map linuxHdrPattern := if_pos hs
  rw [linuxHeader]
  split_ifs with hend hnext
  · -- the whole of the pattern
    have hsix : s.lcsPos.toNat = 6 := (linuxHdrPattern_eq_zero hle).mp hend
    refine ⟨inv_of_ne LogColorState.noConfusion, ?_⟩
    rw [history, history, hheld, hsix, held_of_ne LogColorState.noConfusion, List.append_nil]
    simp
  · have hlt : s.lcsPos.toNat < 6 := by
      have hne := mt (linuxHdrPattern_eq_zero hle).mpr hend
      omega
    have hsucc : (s.lcsPos + 1#32).toNat = s.lcsPos.toNat + 1 := by
      rw [BitVec.toNat_add_of_lt]
      · rfl
      · have hone : (1#32).toNat = 1 := rfl
        omega
    refine ⟨fun _ => ⟨by simp only [hsucc]; omega, by simp only [hsucc]; omega⟩, ?_⟩
    have hheld' : held { s with lcsPos := s.lcsPos + 1#32 } = s.held ++ [ch] := by
      rw [hheld, held, if_pos hs]
      simp only [hsucc]
      rw [List.range_succ, List.map_append, hnext]
      rfl
    rw [history, history, hheld', List.append_assoc]
  · refine ⟨inv_of_ne LogColorState.noConfusion, ?_⟩
    rw [history, history, hheld, held_of_ne LogColorState.noConfusion, List.append_nil]
    simp

/-- Elsewhere no character is held back: by cases of the state, each of which puts out what it is
given, whatever colours it adds. -/
theorem passes_putchar (hs : s.lcs ≠ .linuxHeader) (hline : s.lcs ≠ .lineStart) :
    Passes s (s.putchar ch) ch := by
  rw [putchar]
  cases hlcs : s.lcs with
  | init => exact passes_init hs
  | time => exact passes_braces hs
  | info2 => exact passes_braces hs
  | space1 => exact passes_space1
  | lineStart => exact absurd hlcs hline
  | linuxHeader => exact absurd hlcs hs
  | linuxHdrRest => exact passes_restOfLine hs
  | textMain => exact passes_textMain hs
  | textRest => exact passes_textRest hs
  | parseErr => exact passes_restOfLine hs

/-- **A step** passes the character on, or holds it back behind what is held back. -/
theorem history_putchar (s : Colorizer) (ch : U32) (hinv : s.Inv) :
    (s.putchar ch).Inv ∧ (s.putchar ch).history = s.history ++ [ch] := by
  by_cases hs : s.lcs = .linuxHeader
  · have hputchar : s.putchar ch = s.linuxHeader ch := by rw [putchar, hs]
    rw [hputchar]
    exact history_linuxHeader hs hinv
  · by_cases hline : s.lcs = .lineStart
    · have hputchar : s.putchar ch = s.lineStart ch := by rw [putchar, hline]
      rw [hputchar]
      exact history_lineStart hs
    · have hpasses : Passes s (s.putchar ch) ch := passes_putchar hs hline
      exact ⟨inv_of_ne hpasses.lcs, hpasses.history hs⟩

/-- The characters that have been held back are the first ones of the text that `linux_hdr_pattern`
has. -/
theorem map_linuxHdrPattern (hn : n ≤ 6) :
    (List.range n).map linuxHdrPattern = linuxHdr.take n := by
  revert n
  decide

/-- What is held back is a beginning of the pattern, as long as the position says. -/
theorem held_spec (hinv : s.Inv) : s.held <+: linuxHdr ∧ s.held.length ≤ 6 ∧
    (s.held ≠ [] → s.lcs = .linuxHeader) ∧
    (s.lcs = .linuxHeader → s.held.length = s.lcsPos.toNat) := by
  by_cases hs : s.lcs = .linuxHeader
  · obtain ⟨-, hle⟩ := hinv hs
    have hheld : s.held = linuxHdr.take s.lcsPos.toNat :=
      (if_pos hs).trans (map_linuxHdrPattern hle)
    have hlen : s.held.length = s.lcsPos.toNat := by
      rw [hheld, List.length_take]
      exact min_eq_left hle
    exact ⟨hheld ▸ List.take_prefix _ _, hlen ▸ hle, fun _ => hs, fun _ => hlen⟩
  · rw [held_of_ne hs]
    exact ⟨List.nil_prefix, Nat.zero_le _, fun hne => absurd rfl hne, fun heq => absurd heq hs⟩

/-- **Transparency.** What the colorizer passes on, and after it a beginning of `Linux ` that it
holds back in `LCS_LINUX_HEADER` alone, is what it was given. -/
theorem colorize_transparent (l : List U32) : ∃ held,
    visible (Runs.run putchar start l).out ++ held = l ∧ held <+: linuxHdr ∧ held.length ≤ 6 ∧
      (held ≠ [] → (Runs.run putchar start l).lcs = .linuxHeader) ∧
      ((Runs.run putchar start l).lcs = .linuxHeader →
        held.length = (Runs.run putchar start l).lcsPos.toNat) := by
  have hstart : start.Inv := inv_of_ne LogColorState.noConfusion
  have hhistory := Runs.run_history Inv history (fun s ch h => (history_putchar s ch h).1)
    (fun s ch h => (history_putchar s ch h).2) (l := l) hstart
  have hinv := Runs.run_inv Inv (fun s ch h => (history_putchar s ch h).1) (l := l) hstart
  exact ⟨held (Runs.run putchar start l), hhistory, held_spec hinv⟩

end Colorizer

end ScBl
