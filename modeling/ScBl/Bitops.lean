import ScBl.Lib.Loops
import ScBl.Lib.Words
import ScBl.Xlen

/-!
# Bit scanning (`include/bitops.h`)

`sbi_ffs`, `sbi_fls`, `find_next_bit` and the two loop macros built on them,
for `BITS_PER_LONG == 64`. The scans halve the word step by step, so each is
proved by one invariant carried from 64 bits down to 1 (`FfsInv`, `FlsInv`).

The loop macros are compared with `Loops.runUntil` over the list of set bits:
`forEachSetBit_eq` for `for_each_set_bit`, `forEachSetBitFrom_eq` for
`for_each_set_bit_from`. The first needs the top bit clear: at bit 63 the
macro shifts by 64, which the hardware takes modulo 64, and the loop starts
over.
-/

namespace ScBl

open Loops Words

/-- `x << n` of an `unsigned long`, as the hardware shifts: `n` modulo 64. -/
def shl (x n : U64) : U64 := x <<< (n.toNat % 64)

/-- The shift by less than the word. -/
theorem shl_of_lt {n : U64} (hn : n.toNat < 64) (x : U64) : shl x n = x <<< n.toNat := by
  rw [shl, Nat.mod_eq_of_lt hn]

/-- `GENMASK(h, l)` -/
def genmask (h l : ℕ) : U64 :=
  (BitVec.allOnes 64 - (1#64 <<< l) + 1#64) &&& (BitVec.allOnes 64 >>> (64 - 1 - h))

/-! ## `sbi_ffs` -/

/-- One halving step of `sbi_ffs`: if the low `k` bits are clear, count them
and shift them out. -/
def ffsStep (k : ℕ) (a : ℕ × U64) : ℕ × U64 :=
  if a.2 &&& BitVec.ofNat 64 (2 ^ k - 1) = 0#64 then (a.1 + k, a.2 >>> k) else a

/-- `sbi_ffs`: the least significant set bit. -/
def sbiFfs (word : U64) : ℕ :=
  (ffsStep 1 (ffsStep 2 (ffsStep 4 (ffsStep 8 (ffsStep 16 (ffsStep 32 (0, word))))))).1

/-- What holds of `(num, word)` inside `sbi_ffs` when the least set bit is
known to be among the low `k` bits of the shifted word. -/
def FfsInv (w₀ : U64) (k : ℕ) (a : ℕ × U64) : Prop :=
  a.2 = w₀ >>> a.1 ∧ (∀ i < a.1, w₀.getLsbD i = false) ∧ ∃ i < k, a.2.getLsbD i = true

theorem FfsInv.step {w₀ : U64} {k : ℕ} {a : ℕ × U64} (h : FfsInv w₀ (k + k) a) :
    FfsInv w₀ k (ffsStep k a) := by
  obtain ⟨num, word⟩ := a
  obtain ⟨hword, hbelow, i, hik, hi⟩ := h
  simp only at hword hbelow hi
  by_cases hz : word &&& BitVec.ofNat 64 (2 ^ k - 1) = 0#64
  · have hlow := and_lowMask_eq_zero.mp hz
    rw [ffsStep, if_pos hz]
    refine ⟨?_, ?_, i - k, ?_, ?_⟩
    · rw [hword, BitVec.shiftRight_add]
    · intro j hj
      by_cases hjn : j < num
      · exact hbelow j hjn
      · have hjk := hlow (j - num) (by simp only at hj; omega)
        rw [hword, BitVec.getLsbD_ushiftRight] at hjk
        rwa [Nat.add_sub_cancel' (by omega)] at hjk
    · have hki : k ≤ i := by
        by_contra hlt
        rw [hlow i (by omega)] at hi
        cases hi
      omega
    · have hki : k ≤ i := by
        by_contra hlt
        rw [hlow i (by omega)] at hi
        cases hi
      rw [BitVec.getLsbD_ushiftRight, Nat.add_sub_cancel' hki]
      exact hi
  · rw [ffsStep, if_neg hz]
    rw [and_lowMask_eq_zero] at hz
    push Not at hz
    obtain ⟨j, hjk, hj⟩ := hz
    exact ⟨hword, hbelow, j, hjk, by simpa using hj⟩

/-- `sbi_ffs` of a non-zero word is its least set bit. -/
theorem sbiFfs_spec {word : U64} (h : word ≠ 0#64) :
    word.getLsbD (sbiFfs word) = true ∧ ∀ i < sbiFfs word, word.getLsbD i = false := by
  obtain ⟨b, hb⟩ := ne_zero_iff.mp h
  have h64 : FfsInv word (32 + 32) (0, word) :=
    ⟨by simp, fun i hi => absurd hi (Nat.not_lt_zero i), b, lt_of_getLsbD hb, hb⟩
  have h2 : FfsInv word 2 _ :=
    FfsInv.step (FfsInv.step (FfsInv.step (FfsInv.step (FfsInv.step h64))))
  obtain ⟨hword, hbelow, i, hi1, hi⟩ := FfsInv.step (k := 1) h2
  obtain rfl : i = 0 := by omega
  refine ⟨?_, hbelow⟩
  rw [hword, BitVec.getLsbD_ushiftRight] at hi
  exact hi

theorem sbiFfs_lt {word : U64} (h : word ≠ 0#64) : sbiFfs word < 64 :=
  lt_of_getLsbD (sbiFfs_spec h).1

/-! ## `sbi_fls` -/

/-- One halving step of `sbi_fls`: if the high `k` bits are clear, drop them
from the count and shift them out. -/
def flsStep (k : ℕ) (a : ℕ × U64) : ℕ × U64 :=
  if a.2 &&& (BitVec.allOnes 64 <<< (64 - k)) = 0#64 then (a.1 - k, a.2 <<< k) else a

/-- `sbi_fls`: the most significant set bit. -/
def sbiFls (word : U64) : ℕ :=
  (flsStep 1 (flsStep 2 (flsStep 4 (flsStep 8 (flsStep 16 (flsStep 32 (63, word))))))).1

/-- What holds of `(num, word)` inside `sbi_fls` when the greatest set bit is
known to be among the high `k` bits of the shifted word. -/
def FlsInv (w₀ : U64) (k : ℕ) (a : ℕ × U64) : Prop :=
  a.1 ≤ 63 ∧ a.2 = w₀ <<< (63 - a.1) ∧ (∀ i, a.1 < i → w₀.getLsbD i = false) ∧
    ∃ i, 64 ≤ i + k ∧ i < 64 ∧ a.2.getLsbD i = true

theorem FlsInv.step {w₀ : U64} {k : ℕ} {a : ℕ × U64} (h : FlsInv w₀ (k + k) a) :
    FlsInv w₀ k (flsStep k a) := by
  obtain ⟨num, word⟩ := a
  obtain ⟨hnum, hword, habove, i, hik, hi64, hi⟩ := h
  simp only at hnum hword habove hi
  by_cases hz : word &&& (BitVec.allOnes 64 <<< (64 - k)) = 0#64
  · have hhigh := and_highMask_eq_zero.mp hz
    have hik' : i < 64 - k := by
      by_contra hge
      rw [hhigh i (by omega)] at hi
      cases hi
    -- bit `i` of the shifted word is bit `i - (63 - num)` of the original one
    have hshift : 63 - num ≤ i := by
      by_contra hlt
      have hlow : i < 63 - num := by omega
      rw [hword, BitVec.getLsbD_shiftLeft] at hi
      simp [hlow] at hi
    rw [flsStep, if_pos hz]
    refine ⟨by simp only; omega, ?_, ?_, i + k, by omega, by omega, ?_⟩
    · simp only
      have hsum : 63 - num + k = 63 - (num - k) := by omega
      rw [hword, ← BitVec.shiftLeft_add, hsum]
    · intro j hj
      simp only at hj
      by_cases hjn : num < j
      · exact habove j hjn
      · have hjk := hhigh (j + (63 - num)) (by omega)
        have hlt : j + (63 - num) < 64 := by omega
        rw [hword, BitVec.getLsbD_shiftLeft] at hjk
        simpa [hlt] using hjk
    · have hlt : i + k < 64 := by omega
      rw [BitVec.getLsbD_shiftLeft]
      simpa [hlt] using hi
  · rw [flsStep, if_neg hz]
    rw [and_highMask_eq_zero] at hz
    push Not at hz
    obtain ⟨j, hjk, hj⟩ := hz
    have hj' : word.getLsbD j = true := by simpa using hj
    exact ⟨hnum, hword, habove, j, by omega, lt_of_getLsbD hj', hj'⟩

/-- `sbi_fls` of a non-zero word is its greatest set bit: each of its six steps halves the bits that
are in question, and keeps the half with that bit. -/
theorem sbiFls_spec {word : U64} (h : word ≠ 0#64) :
    word.getLsbD (sbiFls word) = true ∧ ∀ i, sbiFls word < i → word.getLsbD i = false := by
  obtain ⟨b, hb⟩ := ne_zero_iff.mp h
  have h64 : FlsInv word (32 + 32) (63, word) :=
    ⟨le_refl 63, by simp, fun i hi => BitVec.getLsbD_of_ge word i (by simp only at hi; omega),
      b, by omega, lt_of_getLsbD hb, hb⟩
  have h2 : FlsInv word 2 _ :=
    FlsInv.step (FlsInv.step (FlsInv.step (FlsInv.step (FlsInv.step h64))))
  obtain ⟨hnum, hword, habove, i, hik, hi64, hi⟩ := FlsInv.step (k := 1) h2
  obtain rfl : i = 63 := by omega
  refine ⟨?_, habove⟩
  rw [hword, BitVec.getLsbD_shiftLeft] at hi
  have hsub : 63 - (63 - sbiFls word) = sbiFls word := by
    have : sbiFls word ≤ 63 := hnum
    omega
  simp only [Bool.and_eq_true] at hi
  rw [← hsub]
  exact hi.2

/-- The code's checks compare `sbi_fls(0)`, which is 0, too. -/
@[simp] theorem sbiFls_zero : sbiFls 0#64 = 0 := by decide

/-- A set bit is at most `sbi_fls`. -/
theorem le_sbiFls {word : U64} {i : ℕ} (h : word.getLsbD i = true) : i ≤ sbiFls word := by
  by_contra hlt
  have hne : word ≠ 0#64 := ne_zero_iff.mpr ⟨i, h⟩
  rw [(sbiFls_spec hne).2 i (by omega)] at h
  cases h

/-! ## `for_each_set_bit` -/

universe v w

variable {σ : Type v} {ρ : Type w}

/-- The rounds of `for_each_set_bit(bit, word, tmp)`, entered at the loop test
with the given `bit` and `tmp`. `none`: the loop is still running when the fuel
is used up. -/
def forEachSetBitLoop (word : U64) (body : ℕ → σ → Option ρ × σ) :
    ℕ → ℕ → U64 → σ → Option (Option ρ × σ)
  | 0, _, _, _ => none
  | fuel + 1, bit, tmp, s =>
    if tmp = 0#64 then some (none, s)
    else
      match body bit s with
      | (some r, s') => some (some r, s')
      | (none, s') =>
        let tmp := word >>> ((bit + 1) % 64)
        forEachSetBitLoop word body fuel (bit + (sbiFfs tmp + 1)) tmp s'

/-- `for_each_set_bit(bit, word, tmp) body`: 64 rounds and the last test are
enough for any loop that ends. -/
def forEachSetBit (word : U64) (body : ℕ → σ → Option ρ × σ) (s : σ) :
    Option (Option ρ × σ) :=
  forEachSetBitLoop word body 65 (sbiFfs word) word s

/-- At the loop test of `for_each_set_bit` after all set bits below `lo` have
been visited: `bit` is the next one, or there is none and `tmp` is zero. -/
def AtSetBit (word : U64) (lo bit : ℕ) (tmp : U64) : Prop :=
  (tmp = 0#64 ∧ ∀ i, lo ≤ i → word.getLsbD i = false) ∨
    (tmp ≠ 0#64 ∧ lo ≤ bit ∧ word.getLsbD bit = true ∧
      ∀ i, lo ≤ i → i < bit → word.getLsbD i = false)

theorem atSetBit_start (word : U64) : AtSetBit word 0 (sbiFfs word) word := by
  by_cases h : word = 0#64
  · exact .inl ⟨h, fun i _ => eq_zero_iff.mp h i⟩
  · obtain ⟨hb, hbelow⟩ := sbiFfs_spec h
    exact .inr ⟨h, Nat.zero_le _, hb, fun i _ => hbelow i⟩

/-- The increment of the macro finds the next set bit, as long as the shift
amount stays below 64. -/
theorem atSetBit_next {word : U64} {bit : ℕ} (hbit : bit + 1 < 64) :
    AtSetBit word (bit + 1) (bit + (sbiFfs (word >>> ((bit + 1) % 64)) + 1))
      (word >>> ((bit + 1) % 64)) := by
  rw [Nat.mod_eq_of_lt hbit]
  by_cases h : word >>> (bit + 1) = 0#64
  · refine .inl ⟨h, fun i hi => ?_⟩
    have hi' := eq_zero_iff.mp h (i - (bit + 1))
    rwa [BitVec.getLsbD_ushiftRight, Nat.add_sub_cancel' hi] at hi'
  · obtain ⟨hb, hbelow⟩ := sbiFfs_spec h
    refine .inr ⟨h, by omega, ?_, fun i hi hlt => ?_⟩
    · have hcomm : bit + (sbiFfs (word >>> (bit + 1)) + 1) =
          bit + 1 + sbiFfs (word >>> (bit + 1)) := by omega
      rw [BitVec.getLsbD_ushiftRight] at hb
      rwa [hcomm]
    · have hi' := hbelow (i - (bit + 1)) (by omega)
      rwa [BitVec.getLsbD_ushiftRight, Nat.add_sub_cancel' hi] at hi'

theorem forEachSetBitLoop_eq {word : U64} (htop : word.getLsbD 63 = false)
    (body : ℕ → σ → Option ρ × σ) :
    ∀ (fuel lo bit : ℕ) (tmp : U64) (s : σ), lo ≤ 64 → 64 < fuel + lo →
      AtSetBit word lo bit tmp →
      forEachSetBitLoop word body fuel bit tmp s =
        some (runUntil body (indicesIn word.getLsbD lo 64) s) := by
  intro fuel
  induction fuel with
  | zero =>
    intro lo bit tmp s hlo hfuel _
    omega
  | succ n ih =>
    intro lo bit tmp s hlo hfuel hat
    rw [forEachSetBitLoop]
    rcases hat with ⟨hz, hnone⟩ | ⟨hnz, hle, hb, hbelow⟩
    · rw [if_pos hz, indicesIn_eq_nil fun i hi _ => hnone i hi]
      rfl
    · have hlt : bit < 64 := lt_of_getLsbD hb
      have hbit : bit + 1 < 64 := by
        by_contra hge
        obtain rfl : bit = 63 := by omega
        rw [htop] at hb
        cases hb
      rw [if_neg hnz, indicesIn_eq_cons hle hlt hb hbelow]
      rcases he : body bit s with ⟨_ | r, s'⟩
      · rw [runUntil_cons_next (by rw [he]), he]
        exact ih (bit + 1) _ _ s' (by omega) (by omega) (atSetBit_next hbit)
      · rw [runUntil_cons_exit (r := r) (by rw [he]), he]

/-- **`for_each_set_bit`** over a word with a clear top bit ends, and is the
loop over its set bits in ascending order. -/
theorem forEachSetBit_eq {word : U64} (htop : word.getLsbD 63 = false)
    (body : ℕ → σ → Option ρ × σ) (s : σ) :
    forEachSetBit word body s = some (runUntil body (indicesIn word.getLsbD 0 64) s) :=
  forEachSetBitLoop_eq htop body 65 0 _ _ s (by omega) (by omega) (atSetBit_start word)

/-! ## `find_next_bit` -/

/-- A bitmap: the word at each index. -/
abbrev Bitmap : Type := ℕ → U64

/-- Bit `i` of a bitmap. -/
def Bitmap.bit (addr : Bitmap) (i : ℕ) : Bool := (addr (i / 64)).getLsbD (i % 64)

/-- The one-word bitmap `&word` the callers pass. -/
def wordBitmap (word : U64) : Bitmap := fun p => if p = 0 then word else 0#64

theorem wordBitmap_bit (word : U64) {i : ℕ} (hi : i < 64) :
    (wordBitmap word).bit i = word.getLsbD i := by
  rw [Bitmap.bit, wordBitmap, if_pos (by omega), Nat.mod_eq_of_lt hi]

/-- `found_first` of `find_next_bit`: the first set bit of `tmp` below `size`. -/
def foundFirst (tmp : U64) (result size : ℕ) : ℕ :=
  let tmp := tmp &&& (BitVec.allOnes 64 >>> (64 - size))
  if tmp = 0#64 then result + size else result + sbiFfs tmp

/-- The word loop of `find_next_bit`, `n` being the number of whole words left
in `size`, and the last partial word after it. -/
def scanWords (addr : Bitmap) : ℕ → ℕ → ℕ → ℕ → ℕ
  | 0, p, result, size => if size = 0 then result else foundFirst (addr p) result size
  | n + 1, p, result, size =>
    if addr p = 0#64 then scanWords addr n (p + 1) (result + 64) (size - 64)
    else result + sbiFfs (addr p)

/-- `find_next_bit` -/
def findNextBit (addr : Bitmap) (size offset : ℕ) : ℕ :=
  let p := offset / 64
  let result := offset - offset % 64
  if size ≤ offset then size
  else
    let size := size - result
    let offset := offset % 64
    if offset = 0 then scanWords addr (size / 64) p result size
    else
      let tmp := addr p &&& (BitVec.allOnes 64 <<< offset)
      if size < 64 then foundFirst tmp result size
      else if tmp = 0#64 then scanWords addr ((size - 64) / 64) (p + 1) (result + 64) (size - 64)
      else result + sbiFfs tmp

/-- `b` is the first index of `[lo, hi)` at which `p` holds, or `hi` if there is
none. -/
def IsNext (p : ℕ → Bool) (lo hi b : ℕ) : Prop :=
  lo ≤ b ∧ b ≤ hi ∧ (b < hi → p b = true) ∧ ∀ i, lo ≤ i → i < b → p i = false

theorem Bitmap.bit_add (addr : Bitmap) {p i : ℕ} (hi : i < 64) :
    addr.bit (64 * p + i) = (addr p).getLsbD i := by
  have hdiv : (64 * p + i) / 64 = p := by omega
  have hmod : (64 * p + i) % 64 = i := by omega
  rw [Bitmap.bit, hdiv, hmod]

/-- A bit of the word at `64 * p`. -/
theorem Bitmap.bit_of_le (addr : Bitmap) (p : ℕ) {i : ℕ} (hlo : 64 * p ≤ i)
    (hhi : i < 64 * p + 64) : addr.bit i = (addr p).getLsbD (i - 64 * p) := by
  obtain ⟨j, rfl⟩ := Nat.exists_eq_add_of_le hlo
  rw [addr.bit_add (by omega), Nat.add_sub_cancel_left]

/-- A bit that `tmp`, the word at `64 * p` from `off` on, has clear. -/
theorem Bitmap.bit_eq_false {addr : Bitmap} {p off n i : ℕ} {tmp : U64} (hn : n ≤ 64)
    (htmp : ∀ i < n, tmp.getLsbD i = (decide (off ≤ i) && (addr p).getLsbD i))
    (hlo : 64 * p + off ≤ i) (hhi : i < 64 * p + n) (hi : tmp.getLsbD (i - 64 * p) = false) :
    addr.bit i = false := by
  have hoffi : off ≤ i - 64 * p := by omega
  rw [htmp _ (by omega)] at hi
  rw [addr.bit_of_le p (by omega) (by omega)]
  simpa [hoffi] using hi

/-- The end of `find_next_bit`: `tmp` is the word at `64 * p` with the bits
below `off` cleared. -/
theorem foundFirst_isNext {addr : Bitmap} {p size : ℕ} {tmp : U64} (off : ℕ)
    (hoff : off < size) (hsize : size < 64)
    (htmp : ∀ i < 64, tmp.getLsbD i = (decide (off ≤ i) && (addr p).getLsbD i)) :
    IsNext addr.bit (64 * p + off) (64 * p + size) (foundFirst tmp (64 * p) size) := by
  have hmask : ∀ i < 64, (tmp &&& (BitVec.allOnes 64 >>> (64 - size))).getLsbD i =
      (decide (off ≤ i) && (addr p).getLsbD i && decide (i < size)) := by
    intro i hi
    rw [BitVec.getLsbD_and, htmp i hi, BitVec.getLsbD_ushiftRight, BitVec.getLsbD_allOnes]
    congr 1
    simp only [decide_eq_decide]
    omega
  have hword : ∀ i < size, (tmp &&& (BitVec.allOnes 64 >>> (64 - size))).getLsbD i =
      (decide (off ≤ i) && (addr p).getLsbD i) := by
    intro i hi
    rw [hmask i (hi.trans hsize), decide_eq_true hi, Bool.and_true]
  rw [foundFirst]
  by_cases hz : tmp &&& (BitVec.allOnes 64 >>> (64 - size)) = 0#64
  · rw [if_pos hz]
    refine ⟨by omega, le_refl _, fun h => absurd h (lt_irrefl _), fun i hlo hhi => ?_⟩
    exact Bitmap.bit_eq_false hsize.le hword hlo hhi (eq_zero_iff.mp hz _)
  · rw [if_neg hz]
    obtain ⟨hb, hbelow⟩ := sbiFfs_spec hz
    have hlt := sbiFfs_lt hz
    set b := sbiFfs (tmp &&& (BitVec.allOnes 64 >>> (64 - size)))
    rw [hmask b hlt] at hb
    simp only [Bool.and_eq_true, decide_eq_true_eq] at hb
    refine ⟨by omega, by omega, fun _ => ?_, fun i hlo hhi => ?_⟩
    · rw [addr.bit_add hlt]
      exact hb.1.2
    · have hi := hbelow (i - 64 * p) (by omega)
      exact Bitmap.bit_eq_false hsize.le hword hlo (by omega) hi

/-- A whole word of the scan with a bit set from `off` on: all words before it were zero there, so
that its least bit is the next one. -/
theorem foundMiddle_isNext {addr : Bitmap} {p : ℕ} {tmp : U64} (off size : ℕ) (hsize : 64 ≤ size)
    (htmp : ∀ i < 64, tmp.getLsbD i = (decide (off ≤ i) && (addr p).getLsbD i))
    (hnz : tmp ≠ 0#64) :
    IsNext addr.bit (64 * p + off) (64 * p + size) (64 * p + sbiFfs tmp) := by
  obtain ⟨hb, hbelow⟩ := sbiFfs_spec hnz
  have hlt := sbiFfs_lt hnz
  rw [htmp _ hlt] at hb
  simp only [Bool.and_eq_true, decide_eq_true_eq] at hb
  refine ⟨by omega, by omega, fun _ => ?_, fun i hlo hhi => ?_⟩
  · rw [addr.bit_add hlt]
    exact hb.2
  · have hi := hbelow (i - 64 * p) (by omega)
    exact Bitmap.bit_eq_false le_rfl htmp hlo (by omega) hi

/-- Skipping a range without set bits. -/
theorem IsNext.skip {p : ℕ → Bool} {lo mid hi b : ℕ} (hle : lo ≤ mid)
    (hskip : ∀ i, lo ≤ i → i < mid → p i = false) (h : IsNext p mid hi b) :
    IsNext p lo hi b := by
  obtain ⟨hmid, hhi, hb, hbelow⟩ := h
  refine ⟨by omega, hhi, hb, fun i hlo hi => ?_⟩
  by_cases him : i < mid
  · exact hskip i hlo him
  · exact hbelow i (by omega) hi

/-- A word of the scan with no bit set from `off` on. -/
theorem zero_word_skip {addr : Bitmap} {p off : ℕ} {tmp : U64}
    (htmp : ∀ i < 64, tmp.getLsbD i = (decide (off ≤ i) && (addr p).getLsbD i))
    (hz : tmp = 0#64) :
    ∀ i, 64 * p + off ≤ i → i < 64 * (p + 1) → addr.bit i = false := by
  intro i hlo hhi
  exact Bitmap.bit_eq_false le_rfl htmp hlo (by omega) (eq_zero_iff.mp hz _)

theorem scanWords_isNext (addr : Bitmap) :
    ∀ (n p size : ℕ), n = size / 64 →
      IsNext addr.bit (64 * p) (64 * p + size) (scanWords addr n p (64 * p) size) := by
  intro n
  induction n with
  | zero =>
    intro p size hn
    rw [scanWords]
    by_cases hz : size = 0
    · rw [if_pos hz]
      exact ⟨le_refl _, by omega, fun h => by omega, fun i _ _ => by omega⟩
    · rw [if_neg hz]
      exact foundFirst_isNext 0 (by omega) (by omega) fun i _ => by simp
  | succ n ih =>
    intro p size hn
    have htmp : ∀ i < 64, (addr p).getLsbD i = (decide (0 ≤ i) && (addr p).getLsbD i) :=
      fun i _ => by simp
    rw [scanWords]
    by_cases hz : addr p = 0#64
    · have hnext : 64 * p + 64 = 64 * (p + 1) := by omega
      have hend : 64 * p + size = 64 * (p + 1) + (size - 64) := by omega
      rw [if_pos hz, hnext, hend]
      exact (ih (p + 1) (size - 64) (by omega)).skip (by omega) (zero_word_skip htmp hz)
    · rw [if_neg hz]
      exact foundMiddle_isNext 0 _ (by omega) htmp hz

/-- **`find_next_bit`** is the first set bit of `[offset, size)`, or `size`. The word of `offset` is
looked at with the bits below it masked out, whole words follow, and of the last one only the bits
below `size` count. -/
theorem findNextBit_isNext (addr : Bitmap) {size offset : ℕ} (h : offset < size) :
    IsNext addr.bit offset size (findNextBit addr size offset) := by
  have hres : offset - offset % 64 = 64 * (offset / 64) := by omega
  have hlo : offset = 64 * (offset / 64) + offset % 64 := by omega
  have hhi : size = 64 * (offset / 64) + (size - 64 * (offset / 64)) := by omega
  have htmp : ∀ i < 64, (addr (offset / 64) &&& (BitVec.allOnes 64 <<< (offset % 64))).getLsbD i =
      (decide (offset % 64 ≤ i) && (addr (offset / 64)).getLsbD i) := by
    intro i hi
    rw [BitVec.getLsbD_and, BitVec.getLsbD_shiftLeft, BitVec.getLsbD_allOnes, Bool.and_comm]
    congr 1
    by_cases hle : offset % 64 ≤ i
    · have hlt : i - offset % 64 < 64 := by omega
      simp [hi, hle, Nat.not_lt.mpr hle, hlt]
    · simp [hle, Nat.not_le.mp hle]
  simp only [findNextBit, hres]
  rw [if_neg (by omega)]
  split_ifs with hz hsz hzero
  · have hoffset : 64 * (offset / 64) = offset := by omega
    have hnext := scanWords_isNext addr ((size - 64 * (offset / 64)) / 64) (offset / 64)
      (size - 64 * (offset / 64)) rfl
    rw [← hhi, hoffset] at hnext
    rwa [hoffset]
  · have hnext := foundFirst_isNext (p := offset / 64) (offset % 64) (by omega) hsz htmp
    rwa [← hlo, ← hhi] at hnext
  · have hnext := scanWords_isNext addr ((size - 64 * (offset / 64) - 64) / 64)
      (offset / 64 + 1) (size - 64 * (offset / 64) - 64) rfl
    have hend : 64 * (offset / 64 + 1) + (size - 64 * (offset / 64) - 64) = size := by omega
    rw [hend] at hnext
    refine IsNext.skip (by omega) ?_ hnext
    exact fun i hi => zero_word_skip htmp hzero i (by omega)
  · have hnext := foundMiddle_isNext (offset % 64) (size - 64 * (offset / 64)) (by omega) htmp hzero
    rwa [← hlo, ← hhi] at hnext

/-- Past the end, `find_next_bit` answers `size`. -/
theorem findNextBit_of_le (addr : Bitmap) {size offset : ℕ} (h : size ≤ offset) :
    findNextBit addr size offset = size := by
  simp [findNextBit, h]

/-! ## `for_each_set_bit_from` -/

/-- The rounds of `for_each_set_bit_from(bit, addr, size)`, entered at the loop
test. `bit` grows every round, so `size + 1` rounds always suffice. -/
def forEachSetBitFromLoop (addr : Bitmap) (size : ℕ) (body : ℕ → σ → Option ρ × σ) :
    ℕ → ℕ → σ → Option ρ × σ
  | 0, _, s => (none, s)
  | fuel + 1, bit, s =>
    if bit < size then
      match body bit s with
      | (some r, s') => (some r, s')
      | (none, s') => forEachSetBitFromLoop addr size body fuel (findNextBit addr size (bit + 1)) s'
    else (none, s)

/-- `for_each_set_bit_from(start, addr, size) body` -/
def forEachSetBitFrom (addr : Bitmap) (size start : ℕ) (body : ℕ → σ → Option ρ × σ) (s : σ) :
    Option ρ × σ :=
  forEachSetBitFromLoop addr size body (size + 1) (findNextBit addr size start) s

theorem forEachSetBitFromLoop_eq (addr : Bitmap) (size : ℕ) (body : ℕ → σ → Option ρ × σ) :
    ∀ (fuel lo bit : ℕ) (s : σ), size < fuel + bit → IsNext addr.bit lo size bit →
      forEachSetBitFromLoop addr size body fuel bit s =
        runUntil body (indicesIn addr.bit lo size) s := by
  intro fuel
  induction fuel with
  | zero =>
    intro lo bit s hfuel hnext
    have := hnext.2.1
    omega
  | succ n ih =>
    intro lo bit s hfuel ⟨hle, hhi, hb, hbelow⟩
    rw [forEachSetBitFromLoop]
    by_cases hlt : bit < size
    · rw [if_pos hlt, indicesIn_eq_cons hle hlt (hb hlt) hbelow]
      have hnext : IsNext addr.bit (bit + 1) size (findNextBit addr size (bit + 1)) := by
        by_cases hend : bit + 1 < size
        · exact findNextBit_isNext addr hend
        · rw [findNextBit_of_le addr (by omega)]
          exact ⟨by omega, le_refl _, fun h => absurd h (lt_irrefl _), fun i _ _ => by omega⟩
      rcases he : body bit s with ⟨_ | r, s'⟩
      · rw [runUntil_cons_next (by rw [he]), he]
        have := hnext.1
        exact ih (bit + 1) _ s' (by omega) hnext
      · rw [runUntil_cons_exit (r := r) (by rw [he]), he]
    · rw [if_neg hlt, indicesIn_eq_nil fun i hlo hi => hbelow i hlo (by omega)]
      rfl

/-- **`for_each_set_bit_from`** is the loop over the set bits of
`[start, size)` in ascending order. -/
theorem forEachSetBitFrom_eq (addr : Bitmap) (size start : ℕ) (body : ℕ → σ → Option ρ × σ)
    (s : σ) :
    forEachSetBitFrom addr size start body s =
      runUntil body (indicesIn addr.bit start size) s := by
  rw [forEachSetBitFrom]
  by_cases hlt : start < size
  · exact forEachSetBitFromLoop_eq addr size body _ start _ s (by omega)
      (findNextBit_isNext addr hlt)
  · rw [findNextBit_of_le addr (by omega), indicesIn_eq_nil fun i hlo hi => by omega,
      forEachSetBitFromLoop, if_neg (lt_irrefl size)]
    rfl

end ScBl
