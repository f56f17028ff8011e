import ScBl.Lib.Bytes
import ScBl.Lib.Prog
import ScBl.Lib.Rv
import ScBl.Xlen
import Mathlib.Tactic.Ring

/-!
# The assembly `memset`

`memset` and `memset_range` of `mentry.S`. Up to 16 bytes are stored one by one; more are stored
as words of a pattern, with a head of bytes up to an aligned address and a tail of bytes. The
pattern is put together from all of the argument, not from its low byte, and the address in `a0`
is not what it was when the routine returns.
-/

namespace ScBl

open Bytes Progs Rv

variable {x : Xlen}

/-- A hart in `memset`. -/
structure FillHart (x : Xlen) where
  regs : RegFile (8 * x.hart8)
  mem : x.Word → BitVec 8
  /-- The stores, an address and a number of bytes each, the latest last. -/
  stores : List (x.Word × ℕ)

namespace FillHart

variable (s : FillHart x)

/-! ## Instructions -/

/-- Instructions on registers. -/
def onRegs (f : RegFile (8 * x.hart8) → RegFile (8 * x.hart8)) : FillHart x :=
  { s with regs := f s.regs }

/-- A store of the low `n` bytes of a register. -/
def store (n : ℕ) (rs₂ rs₁ : IntReg) : FillHart x :=
  { s with
    mem := writeBytes s.mem (s.regs.get rs₁) (s.regs.get rs₂) n
    stores := s.stores ++ [(s.regs.get rs₁, n)] }

def sb (rs₂ rs₁ : IntReg) : FillHart x := s.store 1 rs₂ rs₁

def sw (rs₂ rs₁ : IntReg) : FillHart x := s.store 4 rs₂ rs₁

/-! ## Labels -/

/-- Label 2: bytes up to an aligned address. -/
def memsetHead (_ : Unit) : Prog (FillHart x) (Unit ⊕ Unit) :=
  act fun s =>
    let s := s.onRegs fun r => r.andi .a3 .a0 3#_
    if s.regs.get .a3 = 0#_ then (.inr (), s)
    else (.inl (), (s.sb .a1 .a0).onRegs fun r => r.addi .a0 .a0 1#_)

/-- Label 4: words up to the end. -/
def memsetWords (_ : Unit) : Prog (FillHart x) (Unit ⊕ Unit) :=
  act fun s =>
    if s.regs.get .a0 = s.regs.get .a2 then (.inr (), s)
    else (.inl (), (s.sw .a1 .a0).onRegs fun r => r.addi .a0 .a0 4#_)

/-- Label 1 and `.Lmemset_tail_bytes`: bytes up to the end. -/
def memsetTailBytes (_ : Unit) : Prog (FillHart x) (Unit ⊕ Unit) :=
  act fun s =>
    if s.regs.get .a0 ≠ s.regs.get .a2 then
      (.inl (), (s.sb .a1 .a0).onRegs fun r => r.addi .a0 .a0 1#_)
    else (.inr (), s)

/-- "expand pattern byte -> word" -/
def memsetExpand : FillHart x :=
  s.onRegs fun r => (((r.slli .a3 .a1 16).or .a1 .a3 .a1).slli .a3 .a1 8).or .a1 .a1 .a3

/-- Label 3: the end goes down to an aligned address, and the size of the tail to `a3`. -/
def memsetSplit : FillHart x :=
  s.onRegs fun r => (r.andi .a3 .a2 3#_).andi .a2 .a2 (~~~3#_)

/-- Label 5: the end as it was. -/
def memsetJoin : FillHart x := s.onRegs fun r => r.or .a2 .a2 .a3

/-- The long path. -/
def memsetLong : Prog (FillHart x) Unit := do
  act fun s => ((), s.memsetExpand)
  loop memsetHead ()
  act fun s => ((), s.memsetSplit)
  loop memsetWords ()
  act fun s => ((), s.memsetJoin)

/-- The size of the range, less 16. -/
def memsetLength : FillHart x :=
  s.onRegs fun r => (r.sub .a3 .a2 .a0).addi .a3 .a3 (-16#_)

/-- `memset_range(a0:dst, a1:pattern, a2:end)` -/
def memsetRange : Prog (FillHart x) Unit := do
  let s ← act fun s => (s.memsetLength, s.memsetLength)
  -- `blez a3`
  if ¬ BitVec.slt 0#_ (s.regs.get .a3) then loop memsetTailBytes ()
  else do
    memsetLong
    loop memsetTailBytes ()

/-- "convert a2:size -> a2:end" -/
def memsetEnd : FillHart x := s.onRegs fun r => r.add .a2 .a2 .a0

/-- `memset(a0:dst, a1:pattern, a2:size)` -/
def memset : Prog (FillHart x) Unit := do
  act fun s => ((), s.memsetEnd)
  memsetRange

/-! ## The contract -/

/-- Word stores are aligned. -/
def AlignedStores (stores : List (x.Word × ℕ)) : Prop := ∀ st ∈ stores, st.2 = 4 → 4 ∣ st.1.toNat

/-- From `s` to `t`, the bytes of the range hold the low byte of the pattern. -/
def FilledRange (s t : FillHart x) : Prop :=
  ∀ i < (s.regs.get .a2).toNat,
    t.mem (s.regs.get .a0 + BitVec.ofNat _ i) = byteOf (s.regs.get .a1) 0

/-- Bytes outside the range are as they were. -/
def KeptOutside (s t : FillHart x) : Prop :=
  ∀ p, (∀ i < (s.regs.get .a2).toNat, p ≠ s.regs.get .a0 + BitVec.ofNat _ i) → t.mem p = s.mem p

/-- What C promises of `memset`, and that words are stored at aligned addresses. -/
structure MemsetContract (s t : FillHart x) : Prop where
  filled : FilledRange s t
  outside : KeptOutside s t
  aligned : ∃ log, t.stores = s.stores ++ log ∧ AlignedStores log
  returned : t.regs.get .a0 = s.regs.get .a0

/-- The bytes of a word above the lowest have no bits that the lowest does not have. -/
def PatternOk (c : x.Word) : Prop := ∀ i < 4, byteOf c i ||| byteOf c 0 = byteOf c 0

instance (c : x.Word) : Decidable (PatternOk c) :=
  inferInstanceAs (Decidable (∀ i < 4, byteOf c i ||| byteOf c 0 = byteOf c 0))

variable {s s₀ t : FillHart x} {l : List (BitVec 8)} {n k size : ℕ}

/-! ## Addresses -/

theorem four_dvd_two_pow (x : Xlen) : 4 ∣ 2 ^ (8 * x.hart8) := by
  cases x <;> decide

/-- `andi rd, rs, 3` -/
theorem toNat_and_three (v : x.Word) : (v &&& 3#_).toNat = v.toNat % 4 := by
  have hthree : (3#_ : x.Word).toNat = 2 ^ 2 - 1 := by cases x <;> rfl
  rw [BitVec.toNat_and, hthree, Nat.and_two_pow_sub_one_eq_mod]

/-- The test of the two low bits of an address, as a statement about numbers. -/
theorem and_three_eq_zero {v : x.Word} : v &&& 3#_ = 0#_ ↔ 4 ∣ v.toNat := by
  rw [← BitVec.toNat_inj, toNat_and_three, BitVec.toNat_ofNat, Nat.zero_mod,
    Nat.dvd_iff_mod_eq_zero]

/-- An address and its offset are apart by the offset, also modulo 4. -/
theorem toNat_add_ofNat_mod_four (v : x.Word) (n : ℕ) :
    (v + BitVec.ofNat _ n).toNat % 4 = (v.toNat + n) % 4 := by
  rw [BitVec.toNat_add, BitVec.toNat_ofNat, Nat.mod_mod_of_dvd _ (four_dvd_two_pow x),
    Nat.add_mod, Nat.mod_mod_of_dvd _ (four_dvd_two_pow x), ← Nat.add_mod]

/-- The two parts of an address. -/
theorem and_three_or (v : x.Word) : v &&& ~~~3#_ ||| v &&& 3#_ = v := by
  refine BitVec.eq_of_getLsbD_eq fun j hj => ?_
  rw [BitVec.getLsbD_or, BitVec.getLsbD_and, BitVec.getLsbD_and, BitVec.getLsbD_not,
    decide_eq_true hj]
  cases (3#_ : x.Word).getLsbD j <;> simp

/-- `andi rd, rs, ~3` -/
theorem and_not_three (v : x.Word) : v &&& ~~~3#_ = v - BitVec.ofNat _ (v.toNat % 4) := by
  have hlow : v &&& 3#_ = BitVec.ofNat _ (v.toNat % 4) := by
    rw [← toNat_and_three, BitVec.ofNat_toNat, BitVec.setWidth_eq]
  have hapart : (v &&& ~~~3#_) &&& (v &&& 3#_) = 0#_ := by
    rw [BitVec.and_comm v 3#_, BitVec.and_assoc, ← BitVec.and_assoc (~~~3#_), BitVec.not_and_self]
    simp
  rw [← hlow, eq_sub_iff_add_eq, BitVec.add_eq_or_of_and_eq_zero _ _ hapart, and_three_or]

/-- The whole words between an aligned address and an end. -/
theorem and_not_three_add {v : x.Word} (halign : 4 ∣ v.toNat) (n : ℕ) :
    (v + BitVec.ofNat _ n) &&& ~~~3#_ = v + BitVec.ofNat _ (4 * (n / 4)) := by
  have hmod : (v + BitVec.ofNat _ n).toNat % 4 = n % 4 := by
    rw [toNat_add_ofNat_mod_four]
    omega
  have hsplit : BitVec.ofNat (8 * x.hart8) n =
      BitVec.ofNat _ (4 * (n / 4)) + BitVec.ofNat _ (n % 4) := by
    rw [← BitVec.ofNat_add, Nat.div_add_mod]
  rw [and_not_three, hmod, hsplit]
  ring

/-! ## Filling -/

/-- From `s₀` to `s` the bytes `l` have been stored. -/
structure Filling (s₀ : FillHart x) (l : List (BitVec 8)) (s : FillHart x) : Prop where
  mem : s.mem = writeList s₀.mem (s₀.regs.get .a0) l
  a0 : s.regs.get .a0 = s₀.regs.get .a0 + BitVec.ofNat _ l.length
  stores : ∃ log, s.stores = s₀.stores ++ log ∧ AlignedStores log

/-- Before the first store nothing has been filled. -/
theorem Filling.start (s : FillHart x) : Filling s [] s where
  mem := rfl
  a0 := (BitVec.add_zero _).symm
  stores := ⟨[], (List.append_nil _).symm, fun _ hst => absurd hst List.not_mem_nil⟩

/-- Instructions that leave `a0` alone. -/
theorem Filling.onRegs (h : Filling s₀ l s) {f : RegFile (8 * x.hart8) → RegFile (8 * x.hart8)}
    (hf : (f s.regs).get .a0 = s.regs.get .a0) : Filling s₀ l (s.onRegs f) :=
  ⟨h.mem, hf.trans h.a0, h.stores⟩

/-- A store of `n` bytes, and on to the next address. -/
def advance (n : ℕ) (s : FillHart x) : FillHart x :=
  (s.store n .a1 .a0).onRegs fun r => r.addi .a0 .a0 (BitVec.ofNat _ n)

theorem advance_a0 : (s.advance n).regs.get .a0 = s.regs.get .a0 + BitVec.ofNat _ n := by
  simp [advance, FillHart.onRegs, store, RegFile.addi]

/-- A store instruction and the addition after it write `a0` alone. -/
theorem writes_advance (n : ℕ) (s : FillHart x) :
    RegFile.Writes [.a0] s.regs (s.advance n).regs :=
  (RegFile.Writes.refl _ _).set (List.mem_singleton_self _)

/-- One store more, of `n` bytes: the bytes filled so far are followed by the low bytes of `a1`. A
word store needs an aligned address for the record of stores, and the whole must not go around the
address space. -/
theorem Filling.advance (h : Filling s₀ l s) (halign : n = 4 → 4 ∣ (s.regs.get .a0).toNat)
    (hlen : l.length + n ≤ 2 ^ (8 * x.hart8)) :
    Filling s₀ (l ++ bytesOf (s.regs.get .a1) n) (s.advance n) where
  mem := by
    rw [FillHart.advance, FillHart.onRegs, store, writeBytes_eq_writeList, h.mem, h.a0,
      writeList_append (by simpa using hlen)]
  a0 := by
    rw [advance_a0, h.a0, List.length_append, length_bytesOf, BitVec.ofNat_add, add_assoc]
  stores := by
    obtain ⟨log, hlog, haligned⟩ := h.stores
    refine ⟨log ++ [(s.regs.get .a0, n)], ?_, fun st hst => ?_⟩
    · rw [FillHart.advance, FillHart.onRegs, store, hlog, List.append_assoc]
    · rcases List.mem_append.mp hst with hst | hst
      · exact haligned st hst
      · rw [List.mem_singleton.mp hst]
        exact halign

/-! ## Loops -/

/-- Label 2 stores `k` bytes in front of an aligned address, by induction on `k`. The address is
aligned after them, which is where the loop tests for it. -/
theorem Filling.head (h : Filling s₀ l s) (hk : k < 4) (hend : 4 ∣ (s.regs.get .a0).toNat + k)
    (hlen : l.length + k ≤ 2 ^ (8 * x.hart8)) : ∃ t,
    RoundsEnd memsetHead () s () t ∧
      Filling s₀ (l ++ List.replicate k (byteOf (s.regs.get .a1) 0)) t ∧
      RegFile.Writes [.a0, .a3] s.regs t.regs := by
  induction k generalizing l s with
  | zero =>
    have hzero : s.regs.get .a0 &&& 3#_ = 0#_ := and_three_eq_zero.mpr hend
    refine ⟨s.onRegs fun r => r.andi .a3 .a0 3#_, .exit ⟨0, fun _ _ => ?_⟩, ?_, ?_⟩
    · simp [memsetHead, act, FillHart.onRegs, RegFile.andi, hzero]
    · rw [List.replicate_zero, List.append_nil]
      exact h.onRegs (by simp [RegFile.andi])
    · exact (RegFile.Writes.refl _ _).set (by simp)
  | succ k ih =>
    have hne : s.regs.get .a0 &&& 3#_ ≠ 0#_ := fun hzero => by
      have halign := and_three_eq_zero.mp hzero
      omega
    let s' := s.onRegs fun r => r.andi .a3 .a0 3#_
    have ha0 : s'.regs.get .a0 = s.regs.get .a0 := by simp [s', FillHart.onRegs, RegFile.andi]
    have hround : Ends (memsetHead ()) s (.inl ()) (s'.advance 1) := by
      refine ⟨0, fun _ _ => ?_⟩
      simp [memsetHead, act, s', FillHart.onRegs, RegFile.andi, hne, FillHart.advance, sb]
    have hwrites : RegFile.Writes [.a0, .a3] s.regs (s'.advance 1).regs :=
      .trans (.set (.refl _ _) (by simp)) ((writes_advance 1 s').mono (by simp))
    have hstart : Filling s₀ l s' := h.onRegs ha0
    have hstored := hstart.advance (n := 1) (fun hfour => by cases hfour) (by omega)
    have hnext : 4 ∣ ((s'.advance 1).regs.get .a0).toNat + k := by
      have hmod := toNat_add_ofNat_mod_four (s.regs.get .a0) 1
      rw [advance_a0, ha0]
      omega
    obtain ⟨t, hends, hfilling, hwrites'⟩ := ih hstored (by omega) hnext (by simp; omega)
    refine ⟨t, .next hround hends, ?_, hwrites.trans hwrites'⟩
    rw [hwrites .a1 (by simp)] at hfilling
    rw [List.append_assoc] at hfilling
    exact hfilling

/-- A loop that stores `n` bytes in a round, to the end in `a2`. The bytes to go are a multiple of
`n`, so that it comes to the end and not past it. -/
theorem Filling.toEnd (body : Unit → Prog (FillHart x) (Unit ⊕ Unit)) (hn : 0 < n)
    (hexit : ∀ s : FillHart x, s.regs.get .a0 = s.regs.get .a2 → Ends (body ()) s (.inr ()) s)
    (hround : ∀ s : FillHart x, s.regs.get .a0 ≠ s.regs.get .a2 →
      Ends (body ()) s (.inl ()) (s.advance n))
    (h : Filling s₀ l s) (hend : s.regs.get .a2 = s.regs.get .a0 + BitVec.ofNat _ (n * k))
    (halign : n = 4 → 4 ∣ (s.regs.get .a0).toNat)
    (hlen : l.length + n * k < 2 ^ (8 * x.hart8)) : ∃ t,
    RoundsEnd body () s () t ∧
      Filling s₀ (l ++ (List.replicate k (bytesOf (s.regs.get .a1) n)).flatten) t ∧
      RegFile.Writes [.a0] s.regs t.regs := by
  induction k generalizing l s with
  | zero =>
    rw [Nat.mul_zero, BitVec.add_zero] at hend
    refine ⟨s, .exit (hexit s hend.symm), ?_, .refl _ _⟩
    rwa [List.replicate_zero, List.flatten_nil, List.append_nil]
  | succ k ih =>
    have hsucc : n * (k + 1) = n + n * k := by ring
    have hne : s.regs.get .a0 ≠ s.regs.get .a2 := by
      intro heq
      have hzero : BitVec.ofNat (8 * x.hart8) (n * (k + 1)) = 0#_ := by
        rw [heq] at hend
        exact left_eq_add.mp hend
      have htoNat := congrArg BitVec.toNat hzero
      rw [BitVec.toNat_ofNat, Nat.mod_eq_of_lt (by omega), BitVec.toNat_ofNat, Nat.zero_mod]
        at htoNat
      omega
    have hwrites := writes_advance n s
    have hstored := h.advance halign (by omega)
    obtain ⟨t, hends, hfilling, hwrites'⟩ := ih hstored
      (by rw [hwrites .a2 (by simp), advance_a0, hend, hsucc, BitVec.ofNat_add, add_assoc])
      (fun hfour => by
        have hmod := toNat_add_ofNat_mod_four (s.regs.get .a0) n
        have hdvd := halign hfour
        rw [advance_a0]
        omega)
      (by simp; omega)
    refine ⟨t, .next (hround s hne) hends, ?_, hwrites.trans hwrites'⟩
    rw [hwrites .a1 (by simp), List.append_assoc] at hfilling
    rwa [List.replicate_succ, List.flatten_cons]

/-- The loop over single bytes, by induction on the bytes that are left until `a2`. It works in `a0`
alone, so that `a1` is the same in all rounds. -/
theorem Filling.tailBytes (h : Filling s₀ l s)
    (hend : s.regs.get .a2 = s.regs.get .a0 + BitVec.ofNat _ k)
    (hlen : l.length + k < 2 ^ (8 * x.hart8)) : ∃ t,
    Ends (loop memsetTailBytes ()) s () t ∧
      Filling s₀ (l ++ List.replicate k (byteOf (s.regs.get .a1) 0)) t ∧
      RegFile.Writes [.a0] s.regs t.regs := by
  obtain ⟨t, hends, hfilling, hwrites⟩ := h.toEnd memsetTailBytes Nat.one_pos
    (fun s heq => ⟨0, fun _ _ => by simp [memsetTailBytes, act, heq]⟩)
    (fun s hne => ⟨0, fun _ _ => by simp [memsetTailBytes, act, hne, FillHart.advance, sb]⟩)
    (k := k) (by rwa [Nat.one_mul]) (fun hfour => by cases hfour) (by rwa [Nat.one_mul])
  have hone : bytesOf (s.regs.get .a1) 1 = [byteOf (s.regs.get .a1) 0] := rfl
  rw [hone, List.flatten_replicate_singleton] at hfilling
  exact ⟨t, hends.ends, hfilling, hwrites⟩

/-- The loop over words, by induction on the words that are left until `a2`. -/
theorem Filling.words (h : Filling s₀ l s)
    (hend : s.regs.get .a2 = s.regs.get .a0 + BitVec.ofNat _ (4 * k))
    (halign : 4 ∣ (s.regs.get .a0).toNat) (hlen : l.length + 4 * k < 2 ^ (8 * x.hart8)) : ∃ t,
    Ends (loop memsetWords ()) s () t ∧
      Filling s₀ (l ++ (List.replicate k (bytesOf (s.regs.get .a1) 4)).flatten) t ∧
      RegFile.Writes [.a0] s.regs t.regs := by
  obtain ⟨t, hends, hfilling, hwrites⟩ := h.toEnd memsetWords (Nat.succ_pos 3)
    (fun s heq => ⟨0, fun _ _ => by simp [memsetWords, act, heq]⟩)
    (fun s hne => ⟨0, fun _ _ => by simp [memsetWords, act, hne, FillHart.advance, sw]⟩)
    hend (fun _ => halign) hlen
  exact ⟨t, hends.ends, hfilling, hwrites⟩

/-! ## The pattern -/

/-- The word that the long path stores. -/
def patternWord (c : x.Word) : x.Word :=
  (c <<< 16 ||| c) ||| (c <<< 16 ||| c) <<< 8

/-- The expansion of the pattern shifts and ors, by one byte and then by two. -/
theorem memsetExpand_a1 : s.memsetExpand.regs.get .a1 = patternWord (s.regs.get .a1) := by
  simp [memsetExpand, FillHart.onRegs, RegFile.slli, RegFile.or, patternWord]

/-- Byte by byte, the pattern word mixes the low bytes of the argument: with nothing masked, each of
its bytes is the `or` of all bytes of the argument up to there. -/
theorem byteOf_patternWord (c : x.Word) {i : ℕ} (hi : i < 4) : byteOf (patternWord c) i =
    ((if i < 2 then 0#8 else byteOf c (i - 2)) ||| byteOf c i) |||
      if i < 1 then 0#8 else (if i < 3 then 0#8 else byteOf c (i - 3)) ||| byteOf c (i - 1) := by
  have hle := x.le_bits
  have hhalf (i : ℕ) (hi : i < 4) : byteOf (c <<< 16 ||| c) i =
      (if i < 2 then 0#8 else byteOf c (i - 2)) ||| byteOf c i := by
    rw [byteOf_or, byteOf_shiftLeft (k := 2) c (by omega)]
  rw [patternWord, byteOf_or, byteOf_shiftLeft (k := 1) _ (by omega), hhalf i hi,
    hhalf (i - 1) (by omega)]
  have hiff : i - 1 < 2 ↔ i < 3 := by omega
  simp only [hiff, Nat.sub_sub, Nat.reduceAdd]

/-- The lowest byte is the pattern itself, so that a single byte is always right. -/
theorem byteOf_patternWord_zero (c : x.Word) : byteOf (patternWord c) 0 = byteOf c 0 := by
  rw [byteOf_patternWord c (by decide)]
  simp

/-- A byte of the pattern has the bits of the argument and of the byte below it. -/
theorem byteOf_patternWord_succ (c : x.Word) {i : ℕ} (hi : i + 1 < 4) :
    byteOf (patternWord c) (i + 1) = byteOf c (i + 1) ||| byteOf (patternWord c) i := by
  rw [byteOf_patternWord c hi, byteOf_patternWord c (by omega)]
  obtain rfl | rfl | rfl : i = 0 ∨ i = 1 ∨ i = 2 := by omega
  · simp
  · simp only [Nat.reduceAdd, Nat.reduceSub, Nat.reduceLT, ite_true, ite_false, BitVec.zero_or]
    ac_rfl
  · simp only [Nat.reduceAdd, Nat.reduceSub, Nat.reduceLT, ite_true, ite_false, BitVec.zero_or]
    ac_rfl

/-- The pattern repeats a byte when the bytes above add nothing to it, each of which is or-ed into
some byte of the word. -/
theorem forall_mem_patternWord {c : x.Word} :
    (∀ b ∈ bytesOf (patternWord c) 4, b = byteOf c 0) ↔ PatternOk c := by
  have hmem : (∀ b ∈ bytesOf (patternWord c) 4, b = byteOf c 0) ↔
      ∀ i < 4, byteOf (patternWord c) i = byteOf c 0 := by
    simp [bytesOf]
  rw [hmem]
  constructor
  · intro h i hi
    cases i with
    | zero => exact BitVec.or_self
    | succ i =>
      have hnext := h (i + 1) hi
      rwa [byteOf_patternWord_succ c hi, h i (by omega)] at hnext
  · intro h i hi
    induction i with
    | zero => exact byteOf_patternWord_zero c
    | succ i ih => rw [byteOf_patternWord_succ c hi, ih (by omega), h (i + 1) hi]

/-! ## The routine -/

theorem memsetExpand_keeps : RegFile.Writes [.a1, .a3] s.regs s.memsetExpand.regs := by
  intro r hr
  simp only [List.mem_cons, List.not_mem_nil, or_false, not_or] at hr
  simp [memsetExpand, FillHart.onRegs, RegFile.slli, RegFile.or, hr]

theorem memsetSplit_keeps : RegFile.Writes [.a2, .a3] s.regs s.memsetSplit.regs := by
  intro r hr
  simp only [List.mem_cons, List.not_mem_nil, or_false, not_or] at hr
  simp [memsetSplit, FillHart.onRegs, RegFile.andi, hr]

/-- The words are what is left without the two low bits of the length. -/
theorem memsetSplit_a2 : s.memsetSplit.regs.get .a2 = s.regs.get .a2 &&& ~~~3#_ := by
  simp [memsetSplit, FillHart.onRegs, RegFile.andi]

/-- Those two bits are the bytes after the words. -/
theorem memsetSplit_a3 : s.memsetSplit.regs.get .a3 = s.regs.get .a2 &&& 3#_ := by
  simp [memsetSplit, FillHart.onRegs, RegFile.andi]

/-- From any address, the head stores up to an aligned one. -/
theorem Filling.expandHead (h : Filling s₀ [] s) : ∃ t head,
    head < 4 ∧ Ends (loop memsetHead ()) s.memsetExpand () t ∧
      Filling s₀ (List.replicate head (byteOf (s.regs.get .a1) 0)) t ∧
      t.regs.get .a0 = s.regs.get .a0 + BitVec.ofNat _ head ∧ 4 ∣ (t.regs.get .a0).toNat ∧
      t.regs.get .a1 = patternWord (s.regs.get .a1) ∧
      RegFile.Writes [.a0, .a1, .a3] s.regs t.regs := by
  have hexpand := memsetExpand_keeps (s := s)
  have ha0 : s.memsetExpand.regs.get .a0 = s.regs.get .a0 := hexpand .a0 (by simp)
  have hfilling : Filling s₀ [] s.memsetExpand := ⟨h.mem, ha0.trans h.a0, h.stores⟩
  have hpow := Nat.le_of_dvd (Nat.two_pow_pos _) (four_dvd_two_pow x)
  obtain ⟨head, hlt, hdvd⟩ : ∃ head < 4, 4 ∣ (s.regs.get .a0).toNat + head :=
    ⟨(4 - (s.regs.get .a0).toNat % 4) % 4, by omega, by omega⟩
  obtain ⟨t, hends, hfilling', hwrites⟩ := hfilling.head hlt (by rwa [ha0])
    (by rw [List.length_nil]; omega)
  rw [memsetExpand_a1, byteOf_patternWord_zero, List.nil_append] at hfilling'
  have ha0' : t.regs.get .a0 = s.regs.get .a0 + BitVec.ofNat _ head := by
    rw [hfilling'.a0, h.a0, List.length_replicate, List.length_nil, BitVec.add_zero]
  refine ⟨t, head, hlt, hends.ends, hfilling', ha0', ?_, ?_,
    (hexpand.mono (by simp)).trans (hwrites.mono (by simp))⟩
  · have hmod := toNat_add_ofNat_mod_four (s.regs.get .a0) head
    rw [ha0']
    omega
  · rw [hwrites .a1 (by simp), memsetExpand_a1]

/-- From an aligned address, the words leave less than one of them. The code splits the size by a
mask, and goes to the end of the whole words. -/
theorem Filling.splitWords (h : Filling s₀ l s) (halign : 4 ∣ (s.regs.get .a0).toNat)
    (hend : s.regs.get .a2 = s.regs.get .a0 + BitVec.ofNat _ n)
    (hlen : l.length + n < 2 ^ (8 * x.hart8)) : ∃ t,
    Ends (loop memsetWords ()) s.memsetSplit () t ∧
      Filling s₀ (l ++ (List.replicate (n / 4) (bytesOf (s.regs.get .a1) 4)).flatten)
        t.memsetJoin ∧
      t.memsetJoin.regs.get .a2 = t.memsetJoin.regs.get .a0 + BitVec.ofNat _ (n % 4) ∧
      RegFile.Writes [.a0, .a2, .a3] s.regs t.memsetJoin.regs := by
  have hsplit := memsetSplit_keeps (s := s)
  have ha0 : s.memsetSplit.regs.get .a0 = s.regs.get .a0 := hsplit .a0 (by simp)
  have hfilling : Filling s₀ l s.memsetSplit := ⟨h.mem, ha0.trans h.a0, h.stores⟩
  have hend' : s.memsetSplit.regs.get .a2 =
      s.memsetSplit.regs.get .a0 + BitVec.ofNat _ (4 * (n / 4)) := by
    rw [memsetSplit_a2, ha0, hend, and_not_three_add halign]
  obtain ⟨t, hends, hfilling', hwrites⟩ := hfilling.words hend' (by rwa [ha0]) (by omega)
  have hjoin : RegFile.Writes [.a2] t.regs t.memsetJoin.regs := .set (.refl _ _) (by simp)
  rw [hsplit .a1 (by simp)] at hfilling'
  have hjoined : Filling s₀ _ t.memsetJoin := hfilling'.onRegs (hjoin .a0 (by simp))
  refine ⟨t, hends, hjoined, ?_,
    ((hsplit.mono (by simp)).trans (hwrites.mono (by simp))).trans (hjoin.mono (by simp))⟩
  have ha2 : t.memsetJoin.regs.get .a2 = s.regs.get .a2 := by
    have hor : t.memsetJoin.regs.get .a2 = t.regs.get .a2 ||| t.regs.get .a3 := by
      simp [memsetJoin, FillHart.onRegs, RegFile.or]
    rw [hor, hwrites .a2 (by simp), hwrites .a3 (by simp), memsetSplit_a2, memsetSplit_a3,
      and_three_or]
  have ha0' : t.memsetJoin.regs.get .a0 = s.regs.get .a0 + BitVec.ofNat _ (4 * (n / 4)) := by
    rw [hjoined.a0, h.a0, List.length_append, BitVec.ofNat_add, add_assoc, List.length_flatten,
      List.map_replicate, List.sum_replicate_nat, length_bytesOf, Nat.mul_comm _ 4]
  rw [ha2, ha0', hend, add_assoc, ← BitVec.ofNat_add, Nat.div_add_mod]

/-- The long path leaves less than a word to be stored: up to three bytes to an aligned address, and
words from there. -/
theorem Filling.long (h : Filling s₀ [] s)
    (hend : s.regs.get .a2 = s.regs.get .a0 + BitVec.ofNat _ size) (hlong : 16 < size)
    (hsize : size < 2 ^ (8 * x.hart8)) : ∃ t head words tail,
    Ends memsetLong s () t ∧ head + 4 * words + tail = size ∧ 0 < words ∧
      Filling s₀ (List.replicate head (byteOf (s.regs.get .a1) 0) ++
        (List.replicate words (bytesOf (patternWord (s.regs.get .a1)) 4)).flatten) t ∧
      t.regs.get .a2 = t.regs.get .a0 + BitVec.ofNat _ tail ∧
      byteOf (t.regs.get .a1) 0 = byteOf (s.regs.get .a1) 0 ∧
      RegFile.Writes [.a0, .a1, .a2, .a3] s.regs t.regs := by
  obtain ⟨s₁, head, hhead, hends, hfilling, ha0, halign, ha1, hwrites⟩ := h.expandHead
  have hend₁ : s₁.regs.get .a2 = s₁.regs.get .a0 + BitVec.ofNat _ (size - head) := by
    rw [hwrites .a2 (by simp), hend, ha0, add_assoc, ← BitVec.ofNat_add,
      Nat.add_sub_cancel' (by omega)]
  obtain ⟨t, hends', hfilling', hend', hwrites'⟩ := hfilling.splitWords halign hend₁
    (by rw [List.length_replicate]; omega)
  rw [ha1] at hfilling'
  refine ⟨t.memsetJoin, head, (size - head) / 4, (size - head) % 4,
    .bind (Ends.act _ s) (.bind hends (.bind (Ends.act _ s₁) (.bind hends' (Ends.act _ t)))),
    by omega, by omega, hfilling', hend', ?_,
    (hwrites.mono (by simp)).trans (hwrites'.mono (by simp))⟩
  rw [hwrites' .a1 (by simp), ha1, byteOf_patternWord_zero]

/-- The short way: 16 bytes or fewer are stored one by one. -/
theorem memsetRange_short (hslt : ¬ BitVec.slt 0#_ (s.memsetLength.regs.get .a3))
    (h : Ends (loop memsetTailBytes ()) s.memsetLength () t) : Ends memsetRange s () t := by
  refine .bind (Ends.act _ s) ?_
  rwa [if_pos hslt]

/-- The long way: up to an aligned address, the words, and what is left after them. -/
theorem memsetRange_long {u : FillHart x} (hslt : BitVec.slt 0#_ (s.memsetLength.regs.get .a3))
    (h : Ends memsetLong s.memsetLength () u) (h' : Ends (loop memsetTailBytes ()) u () t) :
    Ends memsetRange s () t := by
  refine .bind (Ends.act _ s) ?_
  rw [if_neg (not_not.mpr hslt)]
  exact .bind h h'

/-- What the bytes of the long path are. -/
theorem forall_mem_long {c : x.Word} {head words tail : ℕ} {b : BitVec 8} (hwords : 0 < words)
    (hb : b = byteOf c 0) :
    (∀ b' ∈ List.replicate head (byteOf c 0) ++
        (List.replicate words (bytesOf (patternWord c) 4)).flatten ++ List.replicate tail b,
      b' = byteOf c 0) ↔ PatternOk c := by
  rw [← forall_mem_patternWord, hb]
  simp only [List.mem_append, List.mem_flatten, List.mem_replicate]
  constructor
  · intro h b hb
    exact h b (.inl (.inr ⟨_, ⟨hwords.ne', rfl⟩, hb⟩))
  · rintro h b ((⟨-, rfl⟩ | ⟨l, ⟨-, rfl⟩, hb⟩) | ⟨-, rfl⟩)
    · rfl
    · exact h b hb
    · rfl

/-- The end of the range, and the branch on its size. -/
theorem memsetEnd_spec (s : FillHart x)
    (hsize : (s.regs.get .a2).toNat < 2 ^ (8 * x.hart8 - 1)) :
    RegFile.Writes [.a2, .a3] s.regs s.memsetEnd.memsetLength.regs ∧
      s.memsetEnd.memsetLength.regs.get .a2 =
        s.memsetEnd.memsetLength.regs.get .a0 + BitVec.ofNat _ (s.regs.get .a2).toNat ∧
      BitVec.slt 0#_ (s.memsetEnd.memsetLength.regs.get .a3) =
        decide (16 < (s.regs.get .a2).toNat) := by
  have hwrites : RegFile.Writes [.a2, .a3] s.regs s.memsetEnd.memsetLength.regs :=
    (((RegFile.Writes.refl _ _).set (by simp)).set (by simp)).set (by simp)
  refine ⟨hwrites, ?_, ?_⟩
  · have hsum : s.memsetEnd.memsetLength.regs.get .a2 = s.regs.get .a2 + s.regs.get .a0 := by
      simp [memsetEnd, memsetLength, FillHart.onRegs, RegFile.add, RegFile.sub, RegFile.addi]
    rw [hsum, hwrites .a0 (by simp), BitVec.ofNat_toNat, BitVec.setWidth_eq, add_comm]
  · have hdiff : s.memsetEnd.memsetLength.regs.get .a3 =
        s.regs.get .a2 + s.regs.get .a0 - s.regs.get .a0 - 16#_ := by
      simp [memsetEnd, memsetLength, FillHart.onRegs, RegFile.add, RegFile.sub, RegFile.addi,
        sub_eq_add_neg]
    have hslt := slt_ofNat_sub x.bits_pos hsize (Xlen.lt_half (n := 16) (by decide))
    rwa [BitVec.ofNat_toNat, BitVec.setWidth_eq, ← add_sub_cancel_right (s.regs.get .a2)
      (s.regs.get .a0), ← hdiff, add_sub_cancel_right] at hslt

/-- **The run** of `memset`: the bytes that it stores, and when they are all the low byte of the
pattern. -/
theorem memset_ends (s : FillHart x)
    (hsize : (s.regs.get .a2).toNat < 2 ^ (8 * x.hart8 - 1)) : ∃ t l,
    Ends memset s () t ∧ Filling s l t ∧ l.length = (s.regs.get .a2).toNat ∧
      ((∀ b ∈ l, b = byteOf (s.regs.get .a1) 0) ↔
        (s.regs.get .a2).toNat ≤ 16 ∨ PatternOk (s.regs.get .a1)) ∧
      RegFile.Writes [.a0, .a1, .a2, .a3] s.regs t.regs := by
  have hpow : 2 ^ (8 * x.hart8) = 2 * 2 ^ (8 * x.hart8 - 1) := by
    rw [← pow_succ', Nat.sub_add_cancel x.bits_pos]
  obtain ⟨hwrites, hend, hslt⟩ := memsetEnd_spec s hsize
  have ha1 : s.memsetEnd.memsetLength.regs.get .a1 = s.regs.get .a1 := hwrites .a1 (by simp)
  have hfilling : Filling s [] s.memsetEnd.memsetLength :=
    ⟨rfl, (hwrites .a0 (by simp)).trans (Filling.start s).a0, (Filling.start s).stores⟩
  rcases Nat.lt_or_ge 16 (s.regs.get .a2).toNat with hlong | hshort
  · obtain ⟨u, head, words, tail, hends, hsum, hwords, hfilling', hend', hbyte, hwrites'⟩ :=
      hfilling.long hend hlong (by omega)
    obtain ⟨t, hends', hfilling'', hwrites''⟩ := hfilling'.tailBytes hend' (by simp; omega)
    refine ⟨t, _, .bind (Ends.act _ s) (memsetRange_long (by simp [hslt, hlong]) hends hends'),
      hfilling'', by simp; omega, ?_,
      ((hwrites.mono (by simp)).trans hwrites').trans (hwrites''.mono (by simp))⟩
    rw [ha1, forall_mem_long hwords (hbyte.trans (by rw [ha1]))]
    exact ⟨.inr, fun h => h.resolve_left (by omega)⟩
  · have hnot : ¬ 16 < (s.regs.get .a2).toNat := by omega
    obtain ⟨t, hends, hfilling', hwrites'⟩ := hfilling.tailBytes hend (by simp; omega)
    refine ⟨t, _, .bind (Ends.act _ s) (memsetRange_short (by simp [hslt, hnot]) hends),
      hfilling', by simp, ?_, (hwrites.mono (by simp)).trans (hwrites'.mono (by simp))⟩
    simp [ha1, hshort]

/-! ## What the contract takes -/

/-- When as many bytes have been stored as were asked for, the range is filled if each of them is
the pattern. -/
theorem Filling.filledRange_iff (h : Filling s l t) (hlen : l.length = (s.regs.get .a2).toNat) :
    FilledRange s t ↔ ∀ b ∈ l, b = byteOf (s.regs.get .a1) 0 := by
  have hlt := (s.regs.get .a2).isLt
  rw [FilledRange, h.mem, ← hlen, writeList_eq_iff (by omega)]

/-- The stores are consecutive from the start on, so that nothing else has been written. -/
theorem Filling.keptOutside (h : Filling s l t) (hlen : l.length = (s.regs.get .a2).toNat) :
    KeptOutside s t := by
  intro p hp
  rw [h.mem]
  refine writeList_of_le ?_
  by_contra hlt
  refine hp (p - s.regs.get .a0).toNat (by omega) ?_
  rw [BitVec.ofNat_toNat, BitVec.setWidth_eq, add_sub_cancel]

/-- `a0` has advanced past the range. It is the start, as the contract has it, only where it has not
moved. -/
theorem Filling.returned_iff (h : Filling s l t) (hlen : l.length = (s.regs.get .a2).toNat) :
    t.regs.get .a0 = s.regs.get .a0 ↔ (s.regs.get .a2).toNat = 0 := by
  rw [h.a0, hlen, BitVec.ofNat_toNat, BitVec.setWidth_eq, add_eq_left, ← BitVec.toNat_inj]
  rfl

/-- **The contract.** `memset` ends, stores the range and nothing else, and its words at aligned
addresses; the range holds the byte unless it takes the long path with a pattern that does not
repeat it, and the address returned is the end of the range, so that the contract is met for an
empty range only. -/
theorem memset_contract_iff (s : FillHart x)
    (hsize : (s.regs.get .a2).toNat < 2 ^ (8 * x.hart8 - 1)) :
    ((∃ t, Ends memset s () t ∧ MemsetContract s t) ↔ (s.regs.get .a2).toNat = 0) ∧
    ∃ t, Ends memset s () t ∧ KeptOutside s t ∧
      (∃ log, t.stores = s.stores ++ log ∧ AlignedStores log) ∧
      RegFile.Writes [.a0, .a1, .a2, .a3] s.regs t.regs ∧
      t.regs.get .a0 = s.regs.get .a0 + s.regs.get .a2 ∧
      (FilledRange s t ↔ (s.regs.get .a2).toNat ≤ 16 ∨ PatternOk (s.regs.get .a1)) := by
  obtain ⟨t, l, hends, hfilling, hlen, hbytes, hwrites⟩ := memset_ends s hsize
  have houtside := hfilling.keptOutside hlen
  have hfilled := (hfilling.filledRange_iff hlen).trans hbytes
  have hreturned := hfilling.returned_iff hlen
  refine ⟨⟨?_, fun hzero => ?_⟩, t, hends, houtside, hfilling.stores, hwrites, ?_, hfilled⟩
  · rintro ⟨t', hends', hcontract⟩
    obtain ⟨-, rfl⟩ := hends.unique hends'
    exact hreturned.mp hcontract.returned
  · exact ⟨t, hends, hfilled.mpr (.inl (by omega)), houtside, hfilling.stores,
      hreturned.mpr hzero⟩
  · rw [hfilling.a0, hlen, BitVec.ofNat_toNat, BitVec.setWidth_eq]

/-- `memset(dst, c, size)`, to be called. -/
def calling (dst c size : x.Word) : FillHart x where
  regs := (((RegFile.mk fun _ => 0#_).set .a0 dst).set .a1 c).set .a2 size
  mem _ := 0xFF#8
  stores := []

/-- A call for an empty range. -/
def callingEmpty : FillHart .rv32 := calling 0x80000000#32 0#32 0#32

/-- A call for 16 bytes, with a pattern whose low byte is 0. -/
def callingShort : FillHart .rv64 := calling 0x80000000#64 0x100#64 16#64

/-- The empty range meets the contract. The range of 16 bytes is filled, with its end returned. -/
theorem memset_contract_empty_short :
    (∃ t, Ends memset callingEmpty () t ∧ MemsetContract callingEmpty t) ∧
      ∃ t, Ends memset callingShort () t ∧ FilledRange callingShort t ∧
        KeptOutside callingShort t ∧ t.regs.get .a0 = 0x80000010#64 := by
  refine ⟨(memset_contract_iff callingEmpty (by decide)).1.mpr (by decide), ?_⟩
  obtain ⟨t, hends, houtside, -, -, hreturned, hfilled⟩ :=
    (memset_contract_iff callingShort (by decide)).2
  exact ⟨t, hends, hfilled.mpr (.inl (by decide)), houtside, hreturned⟩

/-- A range of 17 bytes, and a pattern whose low byte is 0. -/
def callingLong : FillHart .rv64 := calling 0x80000000#64 0x100#64 17#64

/-- The range does not wrap, but it does not hold the low byte, and its start is not returned: a
pattern of `0x100` for 17 bytes. -/
theorem memset_contract_fails :
    (callingLong.regs.get .a0).toNat + (callingLong.regs.get .a2).toNat < 2 ^ 64 ∧
      (callingLong.regs.get .a2).toNat < 2 ^ 63 ∧
      ∃ t, Ends memset callingLong () t ∧ ¬ FilledRange callingLong t ∧
        t.regs.get .a0 ≠ callingLong.regs.get .a0 ∧
        ¬ ∃ t, Ends memset callingLong () t ∧ MemsetContract callingLong t := by
  obtain ⟨t, l, hends, hfilling, hlen, hbytes, -⟩ := memset_ends callingLong (by decide)
  have hfilled : ¬ FilledRange callingLong t := by
    rw [hfilling.filledRange_iff hlen, hbytes]
    decide
  refine ⟨by decide, by decide, t, hends, hfilled, ?_, ?_⟩
  · rw [ne_eq, hfilling.returned_iff hlen]
    decide
  · rintro ⟨t', hends', hcontract⟩
    obtain ⟨-, rfl⟩ := hends.unique hends'
    exact hfilled hcontract.filled

end FillHart

end ScBl
