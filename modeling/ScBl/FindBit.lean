import ScBl.SetBits

/-!
# The next set bit of a bitmap (`include/bitops.h`)

`find_next_bit` on machine words, with the words that it reads. Shifts by the width of a word are
left undefined. It makes none, stays in the words of the bitmap, and agrees with the scan on natural
numbers (`findNextBitDefined_eq`).
-/

namespace ScBl

open Loops Words

universe v w

variable {σ : Type v} {ρ : Type w}

/-! ## The code -/

/-- `x << n`, which has no value where `n` reaches the width of the word. -/
def shlDefined (x : U64) (n : ℕ) : Option U64 := if n < 64 then some (x <<< n) else none

/-- What `find_next_bit` returns, and the words of the bitmap that it has read. -/
structure BitScan where
  result : U64
  reads : List ℕ

/-- `found_middle` -/
def foundMiddleDefined (tmp result : U64) (reads : List ℕ) : BitScan :=
  ⟨result + BitVec.ofNat 64 (sbiFfs tmp), reads⟩

/-- `found_first`. `none`: a shift is undefined. -/
def foundFirstDefined (tmp result size : U64) (reads : List ℕ) : Option BitScan :=
  (shrDefined (BitVec.allOnes 64) (64#64 - size).toNat).map fun mask =>
    let tmp := tmp &&& mask
    if tmp = 0#64 then ⟨result + size, reads⟩ else foundMiddleDefined tmp result reads

/-- The word loop, and what comes after it. `none`: a shift is undefined, or the loop is still
running when the fuel is used up. -/
def scanWordsDefined (addr : Bitmap) : ℕ → ℕ → U64 → U64 → List ℕ → Option BitScan
  | 0, _, _, _, _ => none
  | fuel + 1, p, result, size, reads =>
    if size &&& ~~~ 63#64 ≠ 0#64 then
      if addr p ≠ 0#64 then some (foundMiddleDefined (addr p) result (reads ++ [p]))
      else scanWordsDefined addr fuel (p + 1) (result + 64#64) (size - 64#64) (reads ++ [p])
    else if size = 0#64 then some ⟨result, reads⟩
    else foundFirstDefined (addr p) result size (reads ++ [p])

/-- `find_next_bit`. The fuel is as many rounds as there are words below `size`, and one. -/
def findNextBitDefined (addr : Bitmap) (size offset : U64) : Option BitScan :=
  let fuel := size.toNat / 64 + 1
  let p := offset.toNat / 64
  let result := offset &&& ~~~ 63#64
  if size ≤ offset then some ⟨size, []⟩
  else
    let size := size - result
    let offset := offset % 64#64
    if offset ≠ 0#64 then
      (shlDefined (BitVec.allOnes 64) offset.toNat).bind fun mask =>
        let tmp := addr p &&& mask
        if size < 64#64 then foundFirstDefined tmp result size [p]
        else if tmp ≠ 0#64 then some (foundMiddleDefined tmp result [p])
        else scanWordsDefined addr fuel (p + 1) (result + 64#64) (size - 64#64) [p]
    else scanWordsDefined addr fuel p result size []

/-- The rounds of `for_each_set_bit_from(bit, addr, size)`. `none`: a shift is undefined, or the
loop is still running when the fuel is used up. -/
def forEachSetBitFromDefinedLoop (addr : Bitmap) (size : U64) (body : ℕ → σ → Option ρ × σ) :
    ℕ → U64 → σ → Option (Option ρ × σ)
  | 0, _, _ => none
  | fuel + 1, bit, s =>
    if bit < size then
      match body bit.toNat s with
      | (some r, s') => some (some r, s')
      | (none, s') =>
        (findNextBitDefined addr size (bit + 1#64)).bind fun next =>
          forEachSetBitFromDefinedLoop addr size body fuel next.result s'
    else some (none, s)

/-- `for_each_set_bit_from(start, addr, size) body` -/
def forEachSetBitFromDefined (addr : Bitmap) (size start : U64) (body : ℕ → σ → Option ρ × σ)
    (s : σ) : Option (Option ρ × σ) :=
  (findNextBitDefined addr size start).bind fun next =>
    forEachSetBitFromDefinedLoop addr size body (size.toNat + 1) next.result s

/-! ## The scan -/

/-- The scan ends with this result, and has read words below `size` alone. -/
def ScansTo (scan : Option BitScan) (result size : ℕ) : Prop :=
  ∃ reads, scan = some ⟨BitVec.ofNat 64 result, reads⟩ ∧ ∀ p ∈ reads, 64 * p < size

/-- The bits above the position in a word. -/
theorem and_not_63 (x : U64) : (x &&& ~~~ 63#64).toNat = 64 * (x.toNat / 64) := by
  have hshift : x &&& ~~~ 63#64 = (x >>> 6) <<< 6 := by
    refine BitVec.eq_of_getLsbD_eq fun i hi => ?_
    have hmask : (63#64).getLsbD i = (decide (i < 64) && decide (i < 6)) := getLsbD_lowMask 6 i
    rw [BitVec.getLsbD_and, BitVec.getLsbD_not, hmask, BitVec.getLsbD_shiftLeft,
      BitVec.getLsbD_ushiftRight]
    by_cases hlow : i < 6
    · simp [hlow, hi]
    · have hadd : 6 + (i - 6) = i := by omega
      simp [hlow, hi, hadd]
  have hlt := x.isLt
  rw [hshift, BitVec.toNat_shiftLeft, BitVec.toNat_ushiftRight, Nat.shiftLeft_eq,
    Nat.shiftRight_eq_div_pow]
  omega

theorem and_not_63_eq_zero {x : U64} : x &&& ~~~ 63#64 = 0#64 ↔ x.toNat < 64 := by
  rw [← BitVec.toNat_inj, and_not_63, BitVec.toNat_zero]
  omega

theorem ofNat_toNat_self (x : U64) : BitVec.ofNat 64 x.toNat = x := by
  rw [BitVec.ofNat_toNat, BitVec.setWidth_eq]

theorem ofNat_toNat_add (x : U64) (n : ℕ) :
    BitVec.ofNat 64 (x.toNat + n) = x + BitVec.ofNat 64 n := by
  rw [BitVec.ofNat_add, ofNat_toNat_self]

variable {addr : Bitmap} {tmp result size : U64} {reads : List ℕ} {p total : ℕ}

/-- A step to the next word, of which there are enough. -/
theorem toNat_nextWord (result : U64) (hsize : 64 ≤ size.toNat)
    (hsum : result.toNat + size.toNat < 2 ^ 64) :
    (result + 64#64).toNat = result.toNat + 64 ∧ (size - 64#64).toNat = size.toNat - 64 := by
  have hword : (64#64).toNat = 64 := by decide
  constructor
  · rw [BitVec.toNat_add_of_lt (by omega), hword]
  · rw [BitVec.toNat_sub_of_le (BitVec.le_def.mpr (by rwa [hword])), hword]

/-- A word in which a bit is found. -/
theorem scansTo_foundMiddle (hreads : ∀ q ∈ reads, 64 * q < total) :
    ScansTo (some (foundMiddleDefined tmp result reads)) (result.toNat + sbiFfs tmp) total := by
  refine ⟨reads, ?_, hreads⟩
  rw [foundMiddleDefined, ofNat_toNat_add]

/-- The last word, which is not whole. -/
theorem scansTo_foundFirst (hpos : 0 < size.toNat) (hsize : size.toNat < 64)
    (hreads : ∀ q ∈ reads, 64 * q < total) :
    ScansTo (foundFirstDefined tmp result size reads)
      (foundFirst tmp result.toNat size.toNat) total := by
  have hamount : (64#64 - size).toNat = 64 - size.toNat :=
    BitVec.toNat_sub_of_le (BitVec.le_def.mpr hsize.le)
  have hmask : shrDefined (BitVec.allOnes 64) (64#64 - size).toNat =
      some (BitVec.allOnes 64 >>> (64 - size.toNat)) := by
    rw [hamount, shrDefined, if_pos (by omega)]
  rw [foundFirstDefined, hmask, Option.map_some, foundFirst]
  dsimp only
  split_ifs with hzero
  · refine ⟨reads, ?_, hreads⟩
    rw [ofNat_toNat_add, ofNat_toNat_self]
  · exact scansTo_foundMiddle hreads

theorem forall_mem_append_singleton (hreads : ∀ q ∈ reads, 64 * q < total) (hp : 64 * p < total) :
    ∀ q ∈ reads ++ [p], 64 * q < total := by
  intro q hq
  rcases List.mem_append.mp hq with hmem | hmem
  · exact hreads q hmem
  · rwa [List.mem_singleton.mp hmem]

/-- **The word loop**, by induction on the words that are left: those that are zero are passed, and
the first other one holds the bit. -/
theorem scansTo_scanWords (addr : Bitmap) (htotal : total < 2 ^ 64) (n : ℕ) :
    ∀ (fuel p : ℕ) (result size : U64) (reads : List ℕ), n < fuel → size.toNat / 64 = n →
      result.toNat = 64 * p → 64 * p + size.toNat = total → (∀ q ∈ reads, 64 * q < total) →
      ScansTo (scanWordsDefined addr fuel p result size reads)
        (scanWords addr n p result.toNat size.toNat) total := by
  induction n with
  | zero =>
    intro fuel p result size reads hfuel hn hresult hsum hreads
    obtain ⟨fuel, rfl⟩ := Nat.exists_eq_succ_of_ne_zero (Nat.ne_of_gt hfuel)
    have hsize : size.toNat < 64 := by omega
    rw [scanWordsDefined, if_neg (not_not.mpr (and_not_63_eq_zero.mpr hsize)), scanWords]
    by_cases hzero : size = 0#64
    · have hnat : size.toNat = 0 := by rw [hzero, BitVec.toNat_zero]
      rw [if_pos hzero, if_pos hnat]
      exact ⟨reads, by rw [ofNat_toNat_self], hreads⟩
    · have hpos : 0 < size.toNat := by
        rw [Nat.pos_iff_ne_zero]
        exact fun hnat => hzero (BitVec.eq_of_toNat_eq hnat)
      rw [if_neg hzero, if_neg hpos.ne']
      exact scansTo_foundFirst hpos hsize (forall_mem_append_singleton hreads (by omega))
  | succ n ih =>
    intro fuel p result size reads hfuel hn hresult hsum hreads
    obtain ⟨fuel, rfl⟩ := Nat.exists_eq_succ_of_ne_zero (Nat.ne_of_gt (Nat.zero_lt_of_lt hfuel))
    have hsize : ¬ size.toNat < 64 := by omega
    have hreads' := forall_mem_append_singleton (p := p) hreads (by omega)
    rw [scanWordsDefined, if_pos (mt and_not_63_eq_zero.mp hsize), scanWords]
    by_cases hzero : addr p = 0#64
    · obtain ⟨hadd, hsub⟩ :=
        toNat_nextWord result (Nat.le_of_not_lt hsize) (by omega)
      rw [if_neg (not_not.mpr hzero), if_pos hzero, ← hadd, ← hsub]
      exact ih fuel (p + 1) _ _ _ (Nat.lt_of_succ_lt_succ hfuel) (by omega) (by omega) (by omega)
        hreads'
    · rw [if_pos hzero, if_neg hzero]
      exact scansTo_foundMiddle hreads'

/-- **`find_next_bit`** on machine words is that on natural numbers: the first word without the bits
below the offset, the whole words, and the rest of the last one. -/
theorem scansTo_findNextBit (addr : Bitmap) (size offset : U64) :
    ScansTo (findNextBitDefined addr size offset) (findNextBit addr size.toNat offset.toNat)
      size.toNat := by
  by_cases hle : size ≤ offset
  · have hnat : size.toNat ≤ offset.toNat := hle
    rw [findNextBitDefined, if_pos hle, findNextBit_of_le addr hnat]
    exact ⟨[], by rw [ofNat_toNat_self], by simp⟩
  have hlt : offset.toNat < size.toNat := Nat.lt_of_not_le hle
  have hsize := size.isLt
  have hresult := and_not_63 offset
  have hbase : offset.toNat - offset.toNat % 64 = (offset &&& ~~~ 63#64).toNat := by omega
  have hsub : (size - (offset &&& ~~~ 63#64)).toNat =
      size.toNat - (offset &&& ~~~ 63#64).toNat :=
    BitVec.toNat_sub_of_le (BitVec.le_def.mpr (by omega))
  have hmod : (offset % 64#64).toNat = offset.toNat % 64 := BitVec.toNat_umod
  have hzero : offset % 64#64 = 0#64 ↔ offset.toNat % 64 = 0 := by
    rw [← BitVec.toNat_inj, hmod, BitVec.toNat_zero]
  simp only [findNextBitDefined, findNextBit, if_neg hle, if_neg (Nat.not_le.mpr hlt), hbase,
    ← hsub]
  by_cases hoffset : offset % 64#64 = 0#64
  · rw [if_neg (not_not.mpr hoffset), if_pos (hzero.mp hoffset)]
    exact scansTo_scanWords addr hsize _ _ _ _ _ [] (by omega) rfl (by omega) (by omega) (by simp)
  have hmask : shlDefined (BitVec.allOnes 64) (offset % 64#64).toNat =
      some (BitVec.allOnes 64 <<< (offset.toNat % 64)) := by
    rw [hmod, shlDefined, if_pos (Nat.mod_lt _ (by decide))]
  have hreads : ∀ q ∈ [offset.toNat / 64], 64 * q < size.toNat := by
    intro q hq
    rw [List.mem_singleton.mp hq]
    omega
  rw [if_pos hoffset, if_neg (mt hzero.mpr hoffset), hmask, Option.bind_some]
  have hsmall : size - (offset &&& ~~~ 63#64) < 64#64 ↔
      (size - (offset &&& ~~~ 63#64)).toNat < 64 := BitVec.lt_def
  by_cases hone : (size - (offset &&& ~~~ 63#64)).toNat < 64
  · rw [if_pos (hsmall.mpr hone), if_pos hone]
    exact scansTo_foundFirst (by omega) hone hreads
  rw [if_neg (mt hsmall.mp hone), if_neg hone]
  by_cases htmp : addr (offset.toNat / 64) &&& BitVec.allOnes 64 <<< (offset.toNat % 64) = 0#64
  · obtain ⟨hadd, hsub'⟩ :=
      toNat_nextWord (offset &&& ~~~ 63#64) (Nat.le_of_not_lt hone) (by omega)
    rw [if_neg (not_not.mpr htmp), if_pos htmp, ← hadd, ← hsub']
    exact scansTo_scanWords addr hsize _ _ _ _ _ _ (by omega) rfl (by omega) (by omega) hreads
  · rw [if_pos htmp, if_neg htmp]
    exact scansTo_foundMiddle hreads

/-- The set bits of `[offset, size)`. -/
def bitsFrom (addr : Bitmap) (size offset : U64) : Set ℕ :=
  {i | offset.toNat ≤ i ∧ i < size.toNat ∧ addr.bit i = true}

theorem findNextBit_le (addr : Bitmap) (size offset : U64) :
    findNextBit addr size.toNat offset.toNat ≤ size.toNat := by
  rcases Nat.lt_or_ge offset.toNat size.toNat with hlt | hge
  · exact (findNextBit_isNext addr hlt).2.1
  · exact (findNextBit_of_le addr hge).le

theorem toNat_ofNat_findNextBit (addr : Bitmap) (size offset : U64) :
    (BitVec.ofNat 64 (findNextBit addr size.toNat offset.toNat)).toNat =
      findNextBit addr size.toNat offset.toNat := by
  rw [BitVec.toNat_ofNat, Nat.mod_eq_of_lt ((findNextBit_le addr size offset).trans_lt size.isLt)]

/-- The result is the least of them, or `size`. -/
theorem findNextBit_isLeast (addr : Bitmap) (size offset : U64) :
    IsLeast (bitsFrom addr size offset) (findNextBit addr size.toNat offset.toNat) ∨
      bitsFrom addr size offset = ∅ ∧
        findNextBit addr size.toNat offset.toNat = size.toNat := by
  rcases Nat.lt_or_ge offset.toNat size.toNat with hlt | hge
  · obtain ⟨hlo, hhi, hb, hbelow⟩ := findNextBit_isNext addr hlt
    rcases Nat.lt_or_ge (findNextBit addr size.toNat offset.toNat) size.toNat with hin | hout
    · refine .inl ⟨⟨hlo, hin, hb hin⟩, fun i hi => ?_⟩
      by_contra hless
      exact Bool.noConfusion ((hbelow i hi.1 (Nat.lt_of_not_le hless)).symm.trans hi.2.2)
    · refine .inr ⟨Set.eq_empty_of_forall_notMem fun i hi => ?_, Nat.le_antisymm hhi hout⟩
      exact Bool.noConfusion ((hbelow i hi.1 (hi.2.1.trans_le hout)).symm.trans hi.2.2)
  · refine .inr ⟨Set.eq_empty_of_forall_notMem fun i hi => ?_, findNextBit_of_le addr hge⟩
    exact absurd (hge.trans hi.1) (Nat.not_le.mpr hi.2.1)

/-! ## The loop over the set bits -/

/-- **The rounds** end, and are those of the loop on natural numbers. By induction on the bits that
are left; each round begins after the bit it has found. -/
theorem forEachSetBitFromDefinedLoop_eq (addr : Bitmap) (size : U64)
    (body : ℕ → σ → Option ρ × σ) (fuel : ℕ) :
    ∀ (bit : U64) (s : σ), bit.toNat ≤ size.toNat → size.toNat < fuel + bit.toNat →
      forEachSetBitFromDefinedLoop addr size body fuel bit s =
        some (forEachSetBitFromLoop addr size.toNat body fuel bit.toNat s) := by
  have hsize := size.isLt
  induction fuel with
  | zero =>
    intro bit s hle hfuel
    omega
  | succ fuel ih =>
    intro bit s hle hfuel
    rw [forEachSetBitFromDefinedLoop, forEachSetBitFromLoop]
    by_cases hlt : bit.toNat < size.toNat
    · rw [if_pos (BitVec.lt_def.mpr hlt), if_pos hlt]
      rcases body bit.toNat s with ⟨_ | r, s'⟩
      · have hadd : (bit + 1#64).toNat = bit.toNat + 1 :=
          BitVec.toNat_add_of_lt (by simp only [BitVec.toNat_ofNat]; omega)
        obtain ⟨reads, hscan, -⟩ := scansTo_findNextBit addr size (bit + 1#64)
        have hbound := findNextBit_le addr size (bit + 1#64)
        have hnat := toNat_ofNat_findNextBit addr size (bit + 1#64)
        have hnext : bit.toNat + 1 ≤ findNextBit addr size.toNat (bit.toNat + 1) ∨
            findNextBit addr size.toNat (bit.toNat + 1) = size.toNat := by
          rcases Nat.lt_or_ge (bit.toNat + 1) size.toNat with hin | hout
          · exact .inl (findNextBit_isNext addr hin).1
          · exact .inr (findNextBit_of_le addr hout)
        rw [hadd] at hbound hscan hnat
        have hround := ih _ s' (hnat.le.trans hbound) (by omega)
        rw [hnat] at hround
        dsimp only
        rw [hscan]
        exact hround
      · rfl
    · rw [if_neg (mt BitVec.lt_def.mp hlt), if_neg hlt]

theorem forEachSetBitFromDefined_eq (addr : Bitmap) (size start : U64)
    (body : ℕ → σ → Option ρ × σ) (s : σ) :
    forEachSetBitFromDefined addr size start body s =
      some (runUntil body (indicesIn addr.bit start.toNat size.toNat) s) := by
  have hnat := toNat_ofNat_findNextBit addr size start
  have hbound := findNextBit_le addr size start
  obtain ⟨reads, hscan, -⟩ := scansTo_findNextBit addr size start
  have hloop := forEachSetBitFromDefinedLoop_eq addr size body (size.toNat + 1) _ s
    (hnat.le.trans hbound) (by omega)
  rw [hnat] at hloop
  rw [forEachSetBitFromDefined, hscan, ← forEachSetBitFrom_eq]
  exact hloop

/-- **Bitmaps.** `find_next_bit` gives the least set bit of `[offset, size)`, or `size`, and reads
words alone that have bits below `size`. `for_each_set_bit_from` ends, and has run its body for
the set bits of `[start, size)` in ascending order. -/
theorem find_next_bit_exact (addr : Bitmap) (size : U64) (body : ℕ → σ → Option ρ × σ) (s : σ) :
    (∀ offset, ∃ scan, findNextBitDefined addr size offset = some scan ∧
      (IsLeast (bitsFrom addr size offset) scan.result.toNat ∨
        bitsFrom addr size offset = ∅ ∧ scan.result = size) ∧
      ∀ p ∈ scan.reads, ∃ i < size.toNat, i / 64 = p) ∧
    ∀ start, ∃ bits : List ℕ, bits.Pairwise (· < ·) ∧
      (∀ i, i ∈ bits ↔ i ∈ bitsFrom addr size start) ∧
      forEachSetBitFromDefined addr size start body s = some (runUntil body bits s) := by
  constructor
  · intro offset
    have hnat := toNat_ofNat_findNextBit addr size offset
    obtain ⟨reads, hscan, hreads⟩ := scansTo_findNextBit addr size offset
    refine ⟨_, hscan, ?_, fun p hp => ⟨64 * p, hreads p hp, Nat.mul_div_cancel_left p (by decide)⟩⟩
    rcases findNextBit_isLeast addr size offset with hleast | ⟨hempty, hend⟩
    · exact .inl (hnat.symm ▸ hleast)
    · exact .inr ⟨hempty, BitVec.eq_of_toNat_eq (hnat.trans hend)⟩
  · intro start
    refine ⟨_, pairwise_indicesIn, fun i => ?_, forEachSetBitFromDefined_eq addr size start body s⟩
    exact mem_indicesIn

end ScBl
