import ScBl.Lib.Prog
import ScBl.Lib.RamTest
import ScBl.Xlen
import Mathlib.Tactic.Ring

/-!
# The memory test (`fsbl.c`, `cmd_mem_test`)

Each word of a range is filled with its address and read back, then with the complement of its
address. The test passes exactly where no two words of the range share a cell and no bit of their
cells is stuck (`cmdMemTest_iff`).
-/

namespace ScBl

open Progs RamTest

variable {x : Xlen} {γ : Type} [DecidableEq γ]

/-- What is printed, without the times. -/
inductive MemTestOut (x : Xlen)
  /-- "Direct address test" or "Inverted address test" -/
  | title (inverted : Bool)
  /-- "*FAIL* addr: read val != expected" -/
  | fail (addr val expected : x.Word)
  /-- "OK" and the speed -/
  | ok
  /-- "Elapsed time" -/
  | elapsed
  deriving DecidableEq

/-- The memory and the output. -/
structure MemTester (x : Xlen) (γ : Type) where
  cells : γ → x.Word
  out : List (MemTestOut x)

namespace MemTester

/-! ## The code -/

/-- `sizeof(uintptr_t)`, by which `++addr` goes on. -/
def ptrSize : x.Word := BitVec.ofNat _ x.hart8

def print (o : MemTestOut x) : Prog (MemTester x γ) Unit :=
  act fun s => ((), { s with out := s.out ++ [o] })

/-- A round of the loop that writes. -/
def fillLoop (ram : Ram x.Word γ (8 * x.hart8)) (pattern : x.Word → x.Word) (last addr : x.Word) :
    Prog (MemTester x γ) (x.Word ⊕ Unit) :=
  act fun s =>
    if addr < last then
      (.inl (addr + ptrSize), { s with cells := ram.write s.cells addr (pattern addr) })
    else (.inr (), s)

/-- A round of the loop that reads back, which leaves with `false` at a word that differs. -/
def checkLoop (ram : Ram x.Word γ (8 * x.hart8)) (pattern : x.Word → x.Word) (last addr : x.Word) :
    Prog (MemTester x γ) (x.Word ⊕ Bool) :=
  act fun s =>
    if addr < last then
      let val := ram.read s.cells addr
      let expected := pattern addr
      if val ≠ expected then (.inr false, { s with out := s.out ++ [.fail addr val expected] })
      else (.inl (addr + ptrSize), s)
    else (.inr true, s)

/-- What is written to an address. -/
def testPattern (inverted : Bool) (addr : x.Word) : x.Word := if inverted then ~~~addr else addr

/-- One of the two tests: whether it has passed. -/
def addressTest (ram : Ram x.Word γ (8 * x.hart8)) (inverted : Bool) (arg size : x.Word) :
    Prog (MemTester x γ) Bool := do
  print (.title inverted)
  loop (fillLoop ram (testPattern inverted) (arg + size)) arg
  let passed ← loop (checkLoop ram (testPattern inverted) (arg + size)) arg
  if passed then
    print .ok
    pure true
  else pure false

/-- `cmd_mem_test`, where `size` has been read from the console. -/
def cmdMemTest (ram : Ram x.Word γ (8 * x.hart8)) (arg size : x.Word) :
    Prog (MemTester x γ) Unit := do
  if ← addressTest ram false arg size then
    if ← addressTest ram true arg size then
      print .elapsed

/-! ## Loops -/

/-- The range is of words, and the address after it does not wrap. -/
structure TestRange (arg size : x.Word) : Prop where
  aligned : x.hart8 ∣ arg.toNat
  fits : arg.toNat + size.toNat + x.hart8 ≤ 2 ^ (8 * x.hart8)

/-- `n` words, from the one with number `j` on. -/
def wordsAt (arg : x.Word) (j n : ℕ) : List x.Word :=
  (List.range' j n).map fun k => arg + BitVec.ofNat _ (x.hart8 * k)

/-- The number of words of a range, the last maybe in part. -/
def numWords (size : x.Word) : ℕ := (size.toNat + x.hart8 - 1) / x.hart8

/-- The addresses of a range. -/
def tested (arg size : x.Word) : List x.Word := wordsAt arg 0 (numWords size)

variable {ram : Ram x.Word γ (8 * x.hart8)} {arg size : x.Word} {s : MemTester x γ}
  {pattern : x.Word → x.Word} {j n : ℕ}

omit [DecidableEq γ] in
theorem wordsAt_succ :
    wordsAt arg j (n + 1) = (arg + BitVec.ofNat _ (x.hart8 * j)) :: wordsAt arg (j + 1) n := rfl

theorem next_word : arg + BitVec.ofNat _ (x.hart8 * j) + ptrSize =
    arg + BitVec.ofNat _ (x.hart8 * (j + 1)) := by
  rw [Nat.mul_succ, BitVec.ofNat_add, ptrSize, add_assoc]

theorem lt_numWords_iff : j < numWords size ↔ x.hart8 * j < size.toNat := by
  have hpos : 0 < x.hart8 := by cases x <;> decide
  rw [numWords, Nat.lt_iff_add_one_le, Nat.le_div_iff_mul_le hpos, Nat.succ_mul, Nat.mul_comm]
  omega

/-- The loops go on for each word of the range. Without a wrap the comparison of addresses is one of
offsets. -/
theorem TestRange.lt_iff (h : TestRange arg size) (hj : j ≤ numWords size) :
    arg + BitVec.ofNat _ (x.hart8 * j) < arg + size ↔ j < numWords size := by
  have hpos : 0 < x.hart8 := by cases x <;> decide
  have hfits := h.fits
  have hle : x.hart8 * j ≤ size.toNat + x.hart8 - 1 := by
    rw [Nat.mul_comm]
    exact (Nat.le_div_iff_mul_le hpos).mp hj
  rw [lt_numWords_iff, BitVec.lt_def, BitVec.toNat_add, BitVec.toNat_add, BitVec.toNat_ofNat,
    Nat.mod_eq_of_lt (by omega : x.hart8 * j < _), Nat.mod_eq_of_lt (by omega),
    Nat.mod_eq_of_lt (by omega)]
  omega

variable (ram pattern s) in
theorem fillLoop_ends (h : TestRange arg size) (hn : j + n = numWords size) :
    RoundsEnd (fillLoop ram pattern (arg + size)) (arg + BitVec.ofNat _ (x.hart8 * j)) s ()
      { s with cells := ram.fill pattern (wordsAt arg j n) s.cells } := by
  have hlt := h.lt_iff (j := j) (by omega)
  induction n generalizing j s with
  | zero =>
    have hnot : ¬ arg + BitVec.ofNat _ (x.hart8 * j) < arg + size := by
      rw [hlt]
      omega
    exact .exit ⟨0, fun _ _ => by simp [fillLoop, act, hnot, wordsAt, Ram.fill]⟩
  | succ n ih =>
    have hmore : arg + BitVec.ofNat _ (x.hart8 * j) < arg + size := by
      rw [hlt]
      omega
    rw [wordsAt_succ, Ram.fill]
    obtain ⟨addr, haddr⟩ : ∃ addr, addr = arg + BitVec.ofNat _ (x.hart8 * j) := ⟨_, rfl⟩
    have hround : Ends (fillLoop ram pattern (arg + size) addr) s
        (.inl (arg + BitVec.ofNat _ (x.hart8 * (j + 1))))
        { s with cells := ram.write s.cells addr (pattern addr) } :=
      ⟨0, fun _ _ => by simp only [fillLoop, act, haddr, if_pos hmore, next_word]⟩
    rw [← haddr]
    exact .next hround (ih _ (by omega) (h.lt_iff (by omega)))

/-- What is printed of an address that differs. -/
def failAt (ram : Ram x.Word γ (8 * x.hart8)) (pattern : x.Word → x.Word) (cells : γ → x.Word)
    (addr : x.Word) : MemTestOut x :=
  .fail addr (ram.read cells addr) (pattern addr)

omit [DecidableEq γ] in
theorem checkLoop_ends (h : TestRange arg size) (hn : j + n = numWords size) :
    RoundsEnd (checkLoop ram pattern (arg + size)) (arg + BitVec.ofNat _ (x.hart8 * j)) s
      (ram.mismatch pattern (wordsAt arg j n) s.cells).isNone
      { s with out := s.out ++
        ((ram.mismatch pattern (wordsAt arg j n) s.cells).map
          (failAt ram pattern s.cells)).toList } := by
  have hlt := h.lt_iff (j := j) (by omega)
  induction n generalizing j with
  | zero =>
    have hnot : ¬ arg + BitVec.ofNat _ (x.hart8 * j) < arg + size := by
      rw [hlt]
      omega
    exact .exit ⟨0, fun _ _ => by simp [checkLoop, act, hnot, wordsAt, Ram.mismatch]⟩
  | succ n ih =>
    have hmore : arg + BitVec.ofNat _ (x.hart8 * j) < arg + size := by
      rw [hlt]
      omega
    rw [wordsAt_succ, Ram.mismatch]
    rcases eq_or_ne (ram.read s.cells (arg + BitVec.ofNat _ (x.hart8 * j)))
      (pattern (arg + BitVec.ofNat _ (x.hart8 * j))) with heq | hne
    · rw [List.find?_cons_of_neg (by simpa using heq)]
      have hround : Ends (checkLoop ram pattern (arg + size)
          (arg + BitVec.ofNat _ (x.hart8 * j))) s
          (.inl (arg + BitVec.ofNat _ (x.hart8 * (j + 1)))) s :=
        ⟨0, fun _ _ => by
          simp only [checkLoop, act, if_pos hmore, if_neg (not_not.mpr heq), next_word]⟩
      exact .next hround (ih (by omega) (h.lt_iff (by omega)))
    · rw [List.find?_cons_of_pos (by simpa using hne)]
      refine .exit ⟨0, fun _ _ => ?_⟩
      simp only [checkLoop, act, if_pos hmore, if_pos hne]
      rfl

/-! ## The tests -/

/-- The cells after the first loop of a test. -/
def filled (ram : Ram x.Word γ (8 * x.hart8)) (inverted : Bool) (arg size : x.Word)
    (cells : γ → x.Word) : γ → x.Word :=
  ram.fill (testPattern inverted) (tested arg size) cells

/-- The word that a test finds. -/
def found (ram : Ram x.Word γ (8 * x.hart8)) (inverted : Bool) (arg size : x.Word)
    (cells : γ → x.Word) : Option x.Word :=
  ram.mismatch (testPattern inverted) (tested arg size) (filled ram inverted arg size cells)

/-- The result of a test. -/
def verdict (ram : Ram x.Word γ (8 * x.hart8)) (inverted : Bool) (arg size : x.Word)
    (cells : γ → x.Word) : MemTestOut x :=
  match found ram inverted arg size cells with
  | none => .ok
  | some a => failAt ram (testPattern inverted) (filled ram inverted arg size cells) a

variable (ram) in
theorem addressTest_ends (h : TestRange arg size) (inverted : Bool) (s : MemTester x γ) :
    Ends (addressTest ram inverted arg size) s (found ram inverted arg size s.cells).isNone
      { cells := filled ram inverted arg size s.cells
        out := s.out ++ [.title inverted, verdict ram inverted arg size s.cells] } := by
  have hzero : arg + BitVec.ofNat _ (x.hart8 * 0) = arg := BitVec.add_zero arg
  have hfill := fillLoop_ends ram { s with out := s.out ++ [.title inverted] }
    (testPattern inverted) h (Nat.zero_add (numWords size))
  have hcheck : RoundsEnd (checkLoop ram (testPattern inverted) (arg + size))
      (arg + BitVec.ofNat _ (x.hart8 * 0))
      ⟨filled ram inverted arg size s.cells, s.out ++ [.title inverted]⟩
      (found ram inverted arg size s.cells).isNone
      ⟨filled ram inverted arg size s.cells, s.out ++ [.title inverted] ++
        ((found ram inverted arg size s.cells).map (failAt ram (testPattern inverted)
          (filled ram inverted arg size s.cells))).toList⟩ :=
    checkLoop_ends h (Nat.zero_add (numWords size))
  rw [hzero] at hfill hcheck
  refine .bind (.act _ s) (.bind hfill.ends ?_)
  rw [verdict]
  cases hfound : found ram inverted arg size s.cells with
  | none =>
    rw [hfound] at hcheck
    refine .bind hcheck.ends (.bind (.act _ _) ?_)
    simp only [Option.map_none, Option.toList_none, List.append_nil, List.append_assoc]
    exact .pure true _
  | some a =>
    rw [hfound] at hcheck
    refine .bind hcheck.ends ?_
    simp only [Option.map_some, Option.toList_some, List.append_assoc]
    exact .pure false _

/-- What is printed of a memory that has no fault. -/
def passedOut : List (MemTestOut x) := [.title false, .ok, .title true, .ok, .elapsed]

variable (ram arg size) in
theorem found_eq_none_iff (cells cells' : γ → x.Word) :
    found ram false arg size cells = none ∧ found ram true arg size cells' = none ↔
      ram.FaultFree (tested arg size) :=
  Ram.mismatch_compl_iff fun _ _ h => h

/-- A test that finds a word prints it, with what has been read there and what should have been. -/
theorem verdict_of_found {inverted : Bool} {cells : γ → x.Word} {a : x.Word}
    (h : found ram inverted arg size cells = some a) :
    verdict ram inverted arg size cells =
        failAt ram (testPattern inverted) (filled ram inverted arg size cells) a ∧
      a ∈ tested arg size ∧
      ram.read (filled ram inverted arg size cells) a ≠ testPattern inverted a := by
  refine ⟨by rw [verdict, h], List.mem_of_find?_eq_some h, ?_⟩
  simpa using List.find?_some h

/-- **The memory test** ends. It prints that both tests have passed exactly if the words of the
range have cells of their own without stuck bits, and then leaves the complements of the addresses
in them; else it ends with a word of the range that does not read as it should. -/
theorem cmdMemTest_iff (h : TestRange arg size) (s : MemTester x γ) : ∃ t log,
    Ends (cmdMemTest ram arg size) s () t ∧ t.out = s.out ++ log ∧
      (log = passedOut ↔ ram.FaultFree (tested arg size)) ∧
      (ram.FaultFree (tested arg size) → ∀ a ∈ tested arg size, ram.read t.cells a = ~~~a) ∧
      (¬ ram.FaultFree (tested arg size) → ∃ before a val expected,
        log = before ++ [.fail a val expected] ∧ a ∈ tested arg size ∧
          val = ram.read t.cells a ∧ val ≠ expected) := by
  have hfirst := addressTest_ends ram h false s
  have hiff := found_eq_none_iff ram arg size s.cells
    (filled ram false arg size s.cells)
  cases hdirect : found ram false arg size s.cells with
  | some a =>
    obtain ⟨hverdict, hmem, hne⟩ := verdict_of_found hdirect
    have hfault : ¬ ram.FaultFree (tested arg size) := fun hfree => by
      rw [(hiff.mpr hfree).1] at hdirect
      cases hdirect
    rw [hdirect, hverdict] at hfirst
    refine ⟨_, [.title false, _], .bind hfirst (.pure () _), rfl, ?_,
      fun hfree => absurd hfree hfault, fun _ => ⟨[.title false], a, _, _, rfl, hmem, rfl, hne⟩⟩
    simp [passedOut, hfault]
  | none =>
    have hsecond := addressTest_ends ram h true
      ⟨filled ram false arg size s.cells, s.out ++ [.title false, .ok]⟩
    have hverdict : verdict ram false arg size s.cells = .ok := by rw [verdict, hdirect]
    rw [hdirect, hverdict] at hfirst
    cases hinverted : found ram true arg size (filled ram false arg size s.cells) with
    | some a =>
      obtain ⟨hverdict', hmem, hne⟩ := verdict_of_found hinverted
      have hfault : ¬ ram.FaultFree (tested arg size) := fun hfree => by
        rw [(hiff.mpr hfree).2] at hinverted
        cases hinverted
      rw [hinverted, hverdict'] at hsecond
      refine ⟨_, [.title false, .ok, .title true, _], .bind hfirst (.bind hsecond (.pure () _)),
        by simp [failAt], ?_, fun hfree => absurd hfree hfault,
        fun _ => ⟨[.title false, .ok, .title true], a, _, _, rfl, hmem, rfl, hne⟩⟩
      simp [passedOut, hfault]
    | none =>
      have hfree := hiff.mp ⟨hdirect, hinverted⟩
      have hverdict' : verdict ram true arg size (filled ram false arg size s.cells) = .ok := by
        rw [verdict, hinverted]
      rw [hinverted, hverdict'] at hsecond
      refine ⟨_, passedOut, .bind hfirst (.bind hsecond (.act _ _)), by simp [passedOut], ?_, ?_,
        fun hfault => absurd hfree hfault⟩
      · simp [hfree]
      · exact fun _ a ha => hfree.read_fill ha

/-- A decoder that does not look at bit 12. -/
def folded (a : BitVec 64) : BitVec 64 := a &&& ~~~0x1000#64

/-- A memory with this decoder. -/
def foldedRam : Ram (Xlen.Word .rv64) (BitVec 64) (8 * Xlen.hart8 .rv64) where
  decode := folded
  keep _ := BitVec.allOnes 64
  stuck _ := 0#64

/-- The test finds that the words at the ends of a range share a cell. -/
theorem cmdMemTest_folded : ∃ t log,
    Ends (cmdMemTest foldedRam 0x80000000#64 0x1008#64) ⟨fun _ => 0#64, []⟩ () t ∧
      t.out = [] ++ log ∧
      (log = passedOut ↔ foldedRam.FaultFree (tested (x := .rv64) 0x80000000#64 0x1008#64)) ∧
      (foldedRam.FaultFree (tested (x := .rv64) 0x80000000#64 0x1008#64) →
        ∀ a ∈ tested (x := .rv64) 0x80000000#64 0x1008#64, foldedRam.read t.cells a = ~~~a) ∧
      (¬ foldedRam.FaultFree (tested (x := .rv64) 0x80000000#64 0x1008#64) →
        ∃ before a val expected, log = before ++ [.fail a val expected] ∧
          a ∈ tested (x := .rv64) 0x80000000#64 0x1008#64 ∧
          val = foldedRam.read t.cells a ∧ val ≠ expected) :=
  cmdMemTest_iff (x := .rv64) ⟨by decide, by decide⟩ _

end MemTester

end ScBl
