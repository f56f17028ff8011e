import Mathlib.Algebra.Ring.Nat
import Mathlib.Order.CompletePartialOrder
import Mathlib.Order.Interval.Set.Disjoint
import Mathlib.Order.Interval.Set.LinearOrder

/-!
# Naturally aligned blocks

A block of addresses whose size is a power of two and divides its base. Two such
blocks are disjoint or one of them lies in the other (`disjoint_or_subset`), so
that families of them form trees. The blocks are sets of natural numbers: where
addresses are machine words, the top of the address space is no special case.
-/

namespace Napot

/-- The addresses of a region. -/
def block (base size : ℕ) : Set ℕ := Set.Ico base (base + size)

/-- The size is a power of two, and the base a multiple of it. -/
structure IsNapot (base size : ℕ) : Prop where
  size_pow : size.isPowerOfTwo
  aligned : size ∣ base

variable {a b m n : ℕ}

theorem isPowerOfTwo_dvd (hm : m.isPowerOfTwo) (hn : n.isPowerOfTwo) (hmn : m ≤ n) : m ∣ n := by
  obtain ⟨i, rfl⟩ := hm
  obtain ⟨j, rfl⟩ := hn
  exact Nat.pow_dvd_pow 2 ((Nat.pow_le_pow_iff_right (by decide)).mp hmn)

/-- Multiples of `m` are at least `m` apart. -/
theorem add_le_of_dvd_of_lt (ha : m ∣ a) (hb : m ∣ b) (hlt : a < b) : a + m ≤ b := by
  have hle : m ≤ b - a := Nat.le_of_dvd (Nat.sub_pos_of_lt hlt) (Nat.dvd_sub hb ha)
  omega

theorem block_subset_iff (hm : 0 < m) : block a m ⊆ block b n ↔ b ≤ a ∧ a + m ≤ b + n :=
  Set.Ico_subset_Ico_iff (Nat.lt_add_of_pos_right hm)

theorem disjoint_block (h : a + m ≤ b ∨ b + n ≤ a) : Disjoint (block a m) (block b n) := by
  rw [block, block, Set.Ico_disjoint_Ico]
  omega

/-- A smaller block is disjoint from a larger one or lies in it. -/
theorem disjoint_or_subset (ha : IsNapot a m) (hb : IsNapot b n) (hmn : m ≤ n) :
    Disjoint (block a m) (block b n) ∨ block a m ⊆ block b n := by
  have hdvd : m ∣ n := isPowerOfTwo_dvd ha.size_pow hb.size_pow hmn
  have hbase : m ∣ b := Nat.dvd_trans hdvd hb.aligned
  rcases Nat.lt_or_ge a b with hlow | hlow
  · exact .inl (disjoint_block (.inl (add_le_of_dvd_of_lt ha.aligned hbase hlow)))
  · rcases Nat.lt_or_ge a (b + n) with hhigh | hhigh
    · have hend := add_le_of_dvd_of_lt ha.aligned (Nat.dvd_add hbase hdvd) hhigh
      exact .inr ((block_subset_iff (Nat.pos_of_isPowerOfTwo ha.size_pow)).mpr ⟨hlow, hend⟩)
    · exact .inl (disjoint_block (.inr hhigh))

/-- **Blocks are nested or disjoint.** -/
theorem disjoint_or_ssubset_of_not_subset (ha : IsNapot a m) (hb : IsNapot b n)
    (hnot : ¬ block a m ⊆ block b n) :
    Disjoint (block a m) (block b n) ∨ block b n ⊂ block a m := by
  rcases Nat.le_total m n with hmn | hnm
  · exact .inl ((disjoint_or_subset ha hb hmn).resolve_right hnot)
  · rcases disjoint_or_subset hb ha hnm with hdisj | hsub
    · exact .inl hdisj.symm
    · exact .inr ⟨hsub, hnot⟩

/-- A block that starts in a space of `2 ^ w` addresses, and is not larger, lies in it. -/
theorem add_le_two_pow {w : ℕ} (ha : IsNapot a m) (hbase : a < 2 ^ w) (hsize : m ≤ 2 ^ w) :
    a + m ≤ 2 ^ w :=
  add_le_of_dvd_of_lt ha.aligned (isPowerOfTwo_dvd ha.size_pow ⟨w, rfl⟩ hsize) hbase

end Napot
