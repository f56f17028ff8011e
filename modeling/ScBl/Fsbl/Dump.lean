import ScBl.Bitops
import ScBl.Lib.Bytes
import ScBl.Lib.Prog
import ScBl.Xlen
import Mathlib.Tactic.Ring

/-!
# Memory dumps (`fsbl.c`, `dump_mem` and `dump_mem32`)

Lines of 16 bytes, with their address, in hexadecimal and as text. A dump read back, address by
address, is the memory of the range; a dump by words is the same if it ends, which it does for a
length of whole words only (`dumps_readBack`).
-/

namespace ScBl

open Bytes Progs

variable {x : Xlen}

/-- What a dump prints. -/
inductive DumpOut (x : Xlen)
  /-- `uart_puthex` -/
  | hex (a : x.Word)
  /-- `uart_puthex8` -/
  | hex8 (b : U8)
  /-- `uart_putc` -/
  | putc (c : U8)
  deriving DecidableEq

namespace DumpOut

/-! ## The code -/

/-- The code of a character. -/
def chr (c : Char) : U8 := BitVec.ofNat 8 c.toNat

/-- "ch >= ' ' && ch < '\x7f'", or a dot. -/
def text (ch : U8) : DumpOut x :=
  if chr ' ' ≤ ch ∧ ch < 0x7F#8 then .putc ch else .putc (chr '.')

variable (mem : x.Word → U8) (addr : x.Word)

/-- A byte, after one blank, or two where a word starts. -/
def cell (j : ℕ) : List (DumpOut x) :=
  [.putc (chr ' ')] ++ (if j &&& 3 = 0 then [.putc (chr ' ')] else []) ++
    [.hex8 (mem (addr + BitVec.ofNat _ j))]

/-- A word, by its bytes. -/
def cell32 (j : ℕ) : List (DumpOut x) :=
  let v : U32 := leWord (bytesAt mem (addr + BitVec.ofNat _ j)) 4
  [.putc (chr ' '), .hex8 (((v >>> 0) &&& 0xFF#32).setWidth 8),
    .hex8 (((v >>> 8) &&& 0xFF#32).setWidth 8), .hex8 (((v >>> 16) &&& 0xFF#32).setWidth 8),
    .hex8 (((v >>> 24) &&& 0xFF#32).setWidth 8)]

/-- The loops that print bytes: `j < 16 && len > j`, in steps of `step`. -/
def cells (step len : ℕ) (cell : ℕ → List (DumpOut x)) : List (DumpOut x) :=
  (((List.range (16 / step)).map (step * ·)).takeWhile fun j => len > j).flatMap cell

/-- The loop of `dump_mem` that prints text, `n` rounds of it at most, and what is left of `len`. -/
def texts : ℕ → ℕ → ℕ → List (DumpOut x) × ℕ
  | 0, _, len => ([], len)
  | n + 1, j, len =>
    if len ≠ 0 then
      let r := texts n (j + 1) (len - 1)
      (text (mem (addr + BitVec.ofNat _ j)) :: r.1, r.2)
    else ([], len)

/-- The text of a word. -/
def text32 (j : ℕ) : List (DumpOut x) :=
  let v : U32 := leWord (bytesAt mem (addr + BitVec.ofNat _ j)) 4
  [text (((v >>> 0) &&& 0xFF#32).setWidth 8), text (((v >>> 8) &&& 0xFF#32).setWidth 8),
    text (((v >>> 16) &&& 0xFF#32).setWidth 8), text (((v >>> 24) &&& 0xFF#32).setWidth 8)]

/-- The loop of `dump_mem32` that prints text. -/
def texts32 : ℕ → ℕ → ℕ → List (DumpOut x) × ℕ
  | 0, _, len => ([], len)
  | n + 1, j, len =>
    if len ≥ 4 then
      let r := texts32 n (j + 4) (len - 4)
      (text32 mem addr j ++ r.1, r.2)
    else ([], len)

/-- A line. -/
def line (hexes : List (DumpOut x)) (texts : List (DumpOut x)) : List (DumpOut x) :=
  [.hex addr, .putc (chr ':')] ++ hexes ++ [.putc (chr ' '), .putc (chr '|')] ++ texts ++
    [.putc (chr '|'), .putc (chr '\n')]

/-- A program that prints. -/
abbrev Printer (x : Xlen) (α : Type) : Type := Prog (List (DumpOut x)) α

/-- A round of `dump_mem`, with the address and the length that is left. -/
def dumpRound (r : x.Word × ℕ) : Printer x (x.Word × ℕ ⊕ Unit) :=
  act fun out =>
    if r.2 ≠ 0 then
      let t := texts mem r.1 16 0 r.2
      (.inl (r.1 + 16#_, t.2), out ++ line r.1 (cells 1 r.2 (cell mem r.1)) t.1)
    else (.inr (), out)

/-- `dump_mem` -/
def dumpMem (len : ℕ) : Printer x Unit := loop (dumpRound mem) (addr, len)

/-- A round of `dump_mem32`. -/
def dumpRound32 (r : x.Word × ℕ) : Printer x (x.Word × ℕ ⊕ Unit) :=
  act fun out =>
    if r.2 ≠ 0 then
      let t := texts32 mem r.1 4 0 r.2
      (.inl (r.1 + 16#_, t.2), out ++ line r.1 (cells 4 r.2 (cell32 mem r.1)) t.1)
    else (.inr (), out)

/-- `dump_mem32` -/
def dumpMem32 (len : ℕ) : Printer x Unit := loop (dumpRound32 mem) (addr, len)

/-! ## Reading a dump -/

/-- The addresses and bytes of a dump, where the next byte is at `cur`. -/
def readBack : x.Word → List (DumpOut x) → List (x.Word × U8)
  | _, [] => []
  | _, .hex a :: l => readBack a l
  | cur, .hex8 b :: l => (cur, b) :: readBack (cur + 1#_) l
  | cur, .putc _ :: l => readBack cur l

/-- The addresses and bytes of a range. -/
def rangeOf (len : ℕ) : List (x.Word × U8) :=
  (List.range len).map fun i => (addr + BitVec.ofNat _ i, mem (addr + BitVec.ofNat _ i))

variable {mem addr} {cur : x.Word} {l rest : List (DumpOut x)} {len n j m : ℕ}

/-- A list that is text only. -/
def IsText (l : List (DumpOut x)) : Prop := ∀ t ∈ l, ∃ c, t = .putc c

theorem IsText.readBack (cur : x.Word) (h : IsText l) :
    readBack cur (l ++ rest) = readBack cur rest := by
  induction l with
  | nil => rfl
  | cons t l ih =>
    obtain ⟨c, rfl⟩ := h t List.mem_cons_self
    exact ih fun t ht => h t (List.mem_cons_of_mem _ ht)

theorem isText_text (ch : U8) : ∃ c, (text ch : DumpOut x) = .putc c := by
  rw [text]
  split_ifs
  · exact ⟨_, rfl⟩
  · exact ⟨_, rfl⟩

/-- The bytes of a range, in hexadecimal. -/
def Shows (mem : x.Word → U8) (addr : x.Word) (l : List (DumpOut x)) (n : ℕ) : Prop :=
  ∀ rest, readBack addr (l ++ rest) = rangeOf mem addr n ++ readBack (addr + BitVec.ofNat _ n) rest

theorem rangeOf_add : rangeOf mem addr (n + m) =
    rangeOf mem addr n ++ rangeOf mem (addr + BitVec.ofNat _ n) m := by
  rw [rangeOf, List.range_add, List.map_append, List.map_map]
  refine congrArg₂ _ rfl (List.map_congr_left fun i _ => ?_)
  rw [Function.comp_apply, BitVec.ofNat_add, add_assoc]

/-- A range after another. -/
theorem Shows.append {l' : List (DumpOut x)} (h : Shows mem addr l n)
    (h' : Shows mem (addr + BitVec.ofNat _ n) l' m) : Shows mem addr (l ++ l') (n + m) := by
  intro rest
  rw [List.append_assoc, h, h', rangeOf_add, List.append_assoc, add_assoc, BitVec.ofNat_add]

theorem Shows.nil : Shows mem addr [] 0 := by
  intro rest
  rw [BitVec.add_zero]
  rfl

/-- What each of the cells shows, all of them show. -/
theorem Shows.flatMap (step : ℕ) (cell : ℕ → List (DumpOut x)) (n : ℕ)
    (h : ∀ j, Shows mem (addr + BitVec.ofNat _ (step * j)) (cell (step * j)) step) :
    Shows mem addr (((List.range n).map (step * ·)).flatMap cell) (step * n) := by
  induction n with
  | zero => exact .nil
  | succ n ih =>
    rw [List.range_succ, List.map_append, List.flatMap_append, Nat.mul_succ]
    refine ih.append ?_
    simpa using h n

theorem shows_cell (j : ℕ) : Shows mem (addr + BitVec.ofNat _ j) (cell mem addr j) 1 := by
  intro rest
  rw [cell]
  split_ifs <;> simp [readBack, rangeOf]

/-- A byte of a word that was loaded. -/
theorem byte_leWord (f : ℕ → U8) {k : ℕ} (hk : k < 4) :
    (((leWord f 4 : U32) >>> (8 * k)) &&& 0xFF#32).setWidth 8 = f k := by
  have hbyte := byteOf_setWidth_leWord f (n := 4) (k := k) (w := 32) hk (by decide)
  have hones : (0xFF#32).setWidth 8 = BitVec.allOnes 8 := by decide
  rw [BitVec.setWidth_eq] at hbyte
  rw [BitVec.setWidth_and, hones, BitVec.and_allOnes, ← hbyte, byteOf]
  refine BitVec.eq_of_getLsbD_eq fun i hi => ?_
  simp [hi]

/-- Bytes in a row. -/
theorem shows_bytes (n : ℕ) :
    Shows mem addr ((List.range n).map fun k => .hex8 (bytesAt mem addr k)) n := by
  have hone : ∀ k, Shows mem (addr + BitVec.ofNat _ (1 * k)) [.hex8 (bytesAt mem addr (1 * k))] 1 :=
    fun k rest => by simp [readBack, rangeOf, bytesAt]
  have hall := Shows.flatMap 1 (fun k => [.hex8 (bytesAt mem addr k)]) n hone
  rw [List.map_eq_flatMap]
  simpa using hall

theorem shows_cell32 (j : ℕ) : Shows mem (addr + BitVec.ofNat _ j) (cell32 mem addr j) 4 := by
  have hbyte := fun k hk => byte_leWord (bytesAt mem (addr + BitVec.ofNat _ j)) (k := k) hk
  have heq : cell32 mem addr j = [.putc (chr ' ')] ++ (List.range 4).map fun k =>
      .hex8 (bytesAt mem (addr + BitVec.ofNat _ j) k) := by
    have h0 := hbyte 0 (by decide)
    have h1 := hbyte 1 (by decide)
    have h2 := hbyte 2 (by decide)
    have h3 := hbyte 3 (by decide)
    simp only [Nat.reduceMul] at h0 h1 h2 h3
    simp only [cell32, h0, h1, h2, h3]
    rfl
  intro rest
  rw [heq, List.append_assoc]
  exact shows_bytes 4 rest

/-- The elements of a range below a bound. -/
theorem takeWhile_range' {p : ℕ → Bool} (hp : ∀ j, p j = true ↔ j < m) (s n : ℕ) :
    (List.range' s n).takeWhile p = List.range' s (min n (m - s)) := by
  induction n generalizing s with
  | zero => simp
  | succ n ih =>
    rw [List.range'_succ]
    rcases Nat.lt_or_ge s m with hlt | hge
    · have hmin : min (n + 1) (m - s) = min n (m - (s + 1)) + 1 := by omega
      rw [List.takeWhile_cons_of_pos ((hp s).mpr hlt), ih, hmin, List.range'_succ]
    · have hmin : min (n + 1) (m - s) = 0 := by omega
      have hnot : ¬ p s = true := by
        rw [hp]
        omega
      rw [List.takeWhile_cons_of_neg hnot, hmin, List.range'_zero]

/-- The cells of a line, as many as there are bytes left. -/
theorem cells_eq (step : ℕ) (cell : ℕ → List (DumpOut x)) (len m : ℕ)
    (hm : ∀ j, step * j < len ↔ j < m) :
    cells step len cell = ((List.range (min (16 / step) m)).map (step * ·)).flatMap cell := by
  rw [cells, List.takeWhile_map, List.range_eq_range', takeWhile_range' (m := m),
    List.range_eq_range', Nat.sub_zero]
  intro j
  simpa using hm j

variable (mem addr) in
theorem texts_spec (n j len : ℕ) :
    IsText (texts mem addr n j len).1 ∧ (texts mem addr n j len).2 = len - n := by
  induction n generalizing j len with
  | zero => exact ⟨fun t ht => absurd ht List.not_mem_nil, rfl⟩
  | succ n ih =>
    obtain ⟨htext, hleft⟩ := ih (j + 1) (len - 1)
    rw [texts]
    split_ifs with hlen
    · refine ⟨fun t ht => ?_, by rw [hleft]; omega⟩
      obtain rfl | ht := List.mem_cons.mp ht
      · exact isText_text _
      · exact htext t ht
    · exact ⟨fun t ht => absurd ht List.not_mem_nil, by dsimp only; omega⟩

variable (mem addr) in
theorem texts32_spec (n j len : ℕ) :
    IsText (texts32 mem addr n j len).1 ∧
      (texts32 mem addr n j len).2 = len - 4 * min n (len / 4) := by
  induction n generalizing j len with
  | zero => exact ⟨fun t ht => absurd ht List.not_mem_nil, by simp [texts32]⟩
  | succ n ih =>
    obtain ⟨htext, hleft⟩ := ih (j + 4) (len - 4)
    rw [texts32]
    split_ifs with hlen
    · refine ⟨fun t ht => ?_, by rw [hleft]; omega⟩
      obtain ht | ht := List.mem_append.mp ht
      · simp only [text32, List.mem_cons, List.not_mem_nil, or_false] at ht
        obtain rfl | rfl | rfl | rfl := ht <;> exact isText_text _
      · exact htext t ht
    · exact ⟨fun t ht => absurd ht List.not_mem_nil, by dsimp only; omega⟩

/-- A line, read back: its address, its columns, and a text that is skipped. What comes after it is
read from the next address on. -/
theorem readBack_line {hexes texts : List (DumpOut x)} (hhexes : Shows mem addr hexes n)
    (htexts : IsText texts) : readBack cur (line addr hexes texts ++ rest) =
      rangeOf mem addr n ++ readBack (addr + BitVec.ofNat _ n) rest := by
  have htail : IsText ([.putc (chr ' '), .putc (chr '|')] ++ texts ++
      [.putc (chr '|'), .putc (chr '\n')]) := by
    intro t ht
    simp only [List.mem_append, List.mem_cons, List.not_mem_nil, or_false] at ht
    obtain ((rfl | rfl) | ht) | rfl | rfl := ht
    · exact ⟨_, rfl⟩
    · exact ⟨_, rfl⟩
    · exact htexts t ht
    · exact ⟨_, rfl⟩
    · exact ⟨_, rfl⟩
  have hline : line addr hexes texts ++ rest = [.hex addr, .putc (chr ':')] ++ (hexes ++
      ([.putc (chr ' '), .putc (chr '|')] ++ texts ++
        [.putc (chr '|'), .putc (chr '\n')] ++ rest)) := by
    simp [line]
  rw [hline, ← htail.readBack (addr + BitVec.ofNat _ n), ← hhexes]
  rfl

/-! ## The loops -/

/-- A dump that ends, and that reads back as the range. -/
def Dumps (mem : x.Word → U8) (body : x.Word × ℕ → Printer x (x.Word × ℕ ⊕ Unit))
    (addr : x.Word) (len : ℕ) : Prop :=
  ∀ out, ∃ l, RoundsEnd body (addr, len) out () (out ++ l) ∧
    ∀ cur, readBack cur l = rangeOf mem addr len

/-- A line, and the lines after it. -/
theorem Dumps.next {body : x.Word × ℕ → Printer x (x.Word × ℕ ⊕ Unit)}
    {hexes texts : List (DumpOut x)} (hhexes : Shows mem addr hexes (min 16 len))
    (htexts : IsText texts) (hround : ∀ out, Ends (body (addr, len)) out
      (.inl (addr + 16#_, len - 16)) (out ++ line addr hexes texts))
    (h : Dumps mem body (addr + 16#_) (len - 16)) : Dumps mem body addr len := by
  intro out
  obtain ⟨l, hends, hback⟩ := h (out ++ line addr hexes texts)
  refine ⟨line addr hexes texts ++ l, ?_, fun cur => ?_⟩
  · rw [← List.append_assoc]
    exact .next (hround out) hends
  · rw [readBack_line hhexes htexts, hback]
    rcases Nat.le_total 16 len with hle | hle
    · rw [Nat.min_eq_left hle, ← rangeOf_add, Nat.add_sub_cancel' hle]
    · rw [Nat.min_eq_right hle, Nat.sub_eq_zero_of_le hle]
      exact List.append_nil _

theorem Dumps.done {body : x.Word × ℕ → Printer x (x.Word × ℕ ⊕ Unit)}
    (hround : ∀ out, Ends (body (addr, 0)) out (.inr ()) out) : Dumps mem body addr 0 := by
  intro out
  refine ⟨[], ?_, fun _ => rfl⟩
  rw [List.append_nil]
  exact .exit (hround out)

theorem dumps_dumpMem (mem : x.Word → U8) (addr : x.Word) (len : ℕ) :
    Dumps mem (dumpRound mem) addr len := by
  induction len using Nat.strong_induction_on generalizing addr with
  | _ len ih =>
    rcases Nat.eq_zero_or_pos len with rfl | hpos
    · exact .done fun out => ⟨0, fun _ _ => rfl⟩
    · obtain ⟨htext, hleft⟩ := texts_spec mem addr 16 0 len
      have hcells := cells_eq 1 (cell mem addr) len len
        (fun j => by rw [Nat.one_mul])
      have hshows := Shows.flatMap 1 (cell mem addr) (min 16 len)
        (fun j => shows_cell (1 * j))
      rw [← hcells, Nat.one_mul] at hshows
      refine .next hshows htext (fun out => ⟨0, fun _ _ => ?_⟩) (ih (len - 16) (by omega) _)
      simp only [dumpRound, act, if_pos hpos.ne', hleft]

theorem dumps_dumpMem32 (mem : x.Word → U8) (addr : x.Word) {len : ℕ} (hlen : 4 ∣ len) :
    Dumps mem (dumpRound32 mem) addr len := by
  induction len using Nat.strong_induction_on generalizing addr with
  | _ len ih =>
    rcases Nat.eq_zero_or_pos len with rfl | hpos
    · exact .done fun out => ⟨0, fun _ _ => rfl⟩
    · obtain ⟨htext, hleft⟩ := texts32_spec mem addr 4 0 len
      have hcells := cells_eq 4 (cell32 mem addr) len (len / 4)
        (fun j => by omega)
      have hshows := Shows.flatMap 4 (cell32 mem addr) (min 4 (len / 4))
        (fun j => shows_cell32 (4 * j))
      have hmin : 4 * min 4 (len / 4) = min 16 len := by omega
      rw [← hcells, hmin] at hshows
      rw [hmin] at hleft
      refine .next hshows htext (fun out => ⟨0, fun _ _ => ?_⟩)
        (ih (len - 16) (by omega) _ (by omega))
      have hrest : len - min 16 len = len - 16 := by omega
      simp only [dumpRound32, act, if_pos hpos.ne', hleft, hrest]

/-- A length that is not of whole words never gets to zero: it is not zero either after four bytes
have been taken from it. -/
theorem dumpRound32_runs (hlen : ¬ 4 ∣ len) (n k : ℕ) (out : List (DumpOut x)) :
    rounds (dumpRound32 mem) n k (addr, len) out = none := by
  induction k generalizing addr len out with
  | zero => rfl
  | succ k ih =>
    obtain ⟨-, hleft⟩ := texts32_spec mem addr 4 0 len
    have hpos : len ≠ 0 := by
      rintro rfl
      exact hlen (Nat.dvd_zero 4)
    simp only [rounds, dumpRound32, act, if_pos hpos]
    refine ih ?_ _
    rw [hleft]
    omega

/-- **The dumps** of a range. A dump by bytes ends, and reads back as the memory of the range; a
dump by words does so where the length is of whole words, and else it does not end. -/
theorem dumps_readBack (mem : x.Word → U8) (addr : x.Word) (len : ℕ) (out : List (DumpOut x)) :
    (∃ l, Ends (dumpMem mem addr len) out () (out ++ l) ∧
      ∀ cur, readBack cur l = rangeOf mem addr len) ∧
    (4 ∣ len → ∃ l, Ends (dumpMem32 mem addr len) out () (out ++ l) ∧
      ∀ cur, readBack cur l = rangeOf mem addr len) ∧
    (¬ 4 ∣ len → ∀ n, dumpMem32 mem addr len n out = none) := by
  refine ⟨?_, fun hlen => ?_, fun hlen n => dumpRound32_runs hlen n n out⟩
  · obtain ⟨l, hends, hback⟩ := dumps_dumpMem mem addr len out
    exact ⟨l, hends.ends, hback⟩
  · obtain ⟨l, hends, hback⟩ := dumps_dumpMem32 mem addr hlen out
    exact ⟨l, hends.ends, hback⟩

end DumpOut

end ScBl
