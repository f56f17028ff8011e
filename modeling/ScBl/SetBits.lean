import ScBl.Bitops
import Mathlib.Order.Bounds.Basic

/-!
# Set bits in a word (`include/bitops.h`)

A shift by the width of a word or more has no value in the source language. Here
`for_each_set_bit` is read with such shifts left undefined, and it is shown that it makes none where
the top bit is clear: its body is run for the set bits in ascending order (`set_bits_exact`).
-/

namespace ScBl

open Loops Words

universe v w

variable {σ : Type v} {ρ : Type w}

/-- `x >> n`, which has no value where `n` reaches the width of the word. -/
def shrDefined (x : U64) (n : ℕ) : Option U64 := if n < 64 then some (x >>> n) else none

/-- The rounds of `for_each_set_bit(bit, word, tmp)`. `none`: a shift is undefined, or the loop is
still running when the fuel is used up. -/
def forEachSetBitDefinedLoop (word : U64) (body : ℕ → σ → Option ρ × σ) :
    ℕ → ℕ → U64 → σ → Option (Option ρ × σ)
  | 0, _, _, _ => none
  | fuel + 1, bit, tmp, s =>
    if tmp = 0#64 then some (none, s)
    else
      match body bit s with
      | (some r, s') => some (some r, s')
      | (none, s') =>
        (shrDefined word (bit + 1)).bind fun tmp =>
          forEachSetBitDefinedLoop word body fuel (bit + (sbiFfs tmp + 1)) tmp s'

/-- `for_each_set_bit(bit, word, tmp) body` -/
def forEachSetBitDefined (word : U64) (body : ℕ → σ → Option ρ × σ) (s : σ) :
    Option (Option ρ × σ) :=
  forEachSetBitDefinedLoop word body 65 (sbiFfs word) word s

/-- Where the top bit is clear, no shift is undefined. -/
theorem forEachSetBitDefinedLoop_eq {word : U64} (htop : word.getLsbD 63 = false)
    (body : ℕ → σ → Option ρ × σ) (fuel : ℕ) :
    ∀ (lo bit : ℕ) (tmp : U64) (s : σ), AtSetBit word lo bit tmp →
      forEachSetBitDefinedLoop word body fuel bit tmp s =
        forEachSetBitLoop word body fuel bit tmp s := by
  induction fuel with
  | zero =>
    intro lo bit tmp s _
    rfl
  | succ n ih =>
    intro lo bit tmp s hat
    rw [forEachSetBitDefinedLoop, forEachSetBitLoop]
    rcases hat with ⟨hz, -⟩ | ⟨hnz, -, hb, -⟩
    · rw [if_pos hz, if_pos hz]
    · have hbit : bit + 1 < 64 := by
        have hlt : bit < 64 := lt_of_getLsbD hb
        have hne : bit ≠ 63 := by
          rintro rfl
          rw [htop] at hb
          cases hb
        omega
      rw [if_neg hnz, if_neg hnz]
      rcases body bit s with ⟨_ | r, s'⟩
      · have hshr : shrDefined word (bit + 1) = some (word >>> ((bit + 1) % 64)) := by
          rw [shrDefined, if_pos hbit, Nat.mod_eq_of_lt hbit]
        dsimp only
        rw [hshr]
        exact ih (bit + 1) _ _ s' (atSetBit_next hbit)
      · rfl

theorem forEachSetBitDefined_eq {word : U64} (htop : word.getLsbD 63 = false)
    (body : ℕ → σ → Option ρ × σ) (s : σ) :
    forEachSetBitDefined word body s = some (runUntil body (indicesIn word.getLsbD 0 64) s) :=
  (forEachSetBitDefinedLoop_eq htop body 65 0 _ _ s (atSetBit_start word)).trans
    (forEachSetBit_eq htop body s)

theorem sbiFfs_isLeast {word : U64} (h : word ≠ 0#64) :
    IsLeast {i | word.getLsbD i = true} (sbiFfs word) := by
  obtain ⟨hb, hbelow⟩ := sbiFfs_spec h
  refine ⟨hb, fun i hi => ?_⟩
  by_contra hlt
  exact Bool.noConfusion ((hbelow i (Nat.lt_of_not_le hlt)).symm.trans hi)

theorem sbiFls_isGreatest {word : U64} (h : word ≠ 0#64) :
    IsGreatest {i | word.getLsbD i = true} (sbiFls word) :=
  ⟨(sbiFls_spec h).1, fun _ => le_sbiFls⟩

/-- **Set bits.** Over a word whose top bit is clear the loop ends, with all its shifts defined, and
has run its body for the set bits in ascending order. The scans give the least and the greatest
set bit. -/
theorem set_bits_exact (body : ℕ → σ → Option ρ × σ) (s : σ) (word : U64) :
    (word.getLsbD 63 = false → ∃ bits : List ℕ, bits.Pairwise (· < ·) ∧
      (∀ i, i ∈ bits ↔ word.getLsbD i = true) ∧
      forEachSetBitDefined word body s = some (runUntil body bits s)) ∧
    (word ≠ 0#64 → IsLeast {i | word.getLsbD i = true} (sbiFfs word) ∧
      IsGreatest {i | word.getLsbD i = true} (sbiFls word)) := by
  refine ⟨fun htop => ⟨_, pairwise_indicesIn, fun i => ?_, forEachSetBitDefined_eq htop body s⟩,
    fun h => ⟨sbiFfs_isLeast h, sbiFls_isGreatest h⟩⟩
  rw [mem_indicesIn]
  exact ⟨fun hmem => hmem.2.2, fun hi => ⟨Nat.zero_le i, lt_of_getLsbD hi, hi⟩⟩

/-- The loop over the two highest bits that it may meet, and a word that has its highest bit. -/
theorem set_bits_exact_high : (∃ bits : List ℕ, bits.Pairwise (· < ·) ∧
      (∀ i, i ∈ bits ↔ (0x6000000000000000#64).getLsbD i = true) ∧
      forEachSetBitDefined 0x6000000000000000#64
        (fun bit (l : List ℕ) => ((none : Option Unit), l ++ [bit])) [] =
          some (runUntil (fun bit l => (none, l ++ [bit])) bits [])) ∧
    IsGreatest {i | (0x8000000000000001#64).getLsbD i = true} (sbiFls 0x8000000000000001#64) :=
  ⟨(set_bits_exact _ [] 0x6000000000000000#64).1 (by decide),
    ((set_bits_exact (fun bit l => ((none : Option Unit), l ++ [bit])) []
      0x8000000000000001#64).2 (by decide)).2⟩

end ScBl
