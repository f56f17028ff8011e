import Mathlib.Algebra.Order.BigOperators.Group.Finset
import Mathlib.Data.Nat.ModEq
import Mathlib.Tactic.Ring

/-!
# A running counter that is accessed by halves

A counter of two digits in base `B` counts events modulo `B * B`. It is read and
written one digit, a half, at a time, and events occur in between.

Reading the high half, the low half and the high half again, and the low half once
more on a change, gives a value that the counter had (`readHalves_eq`). Writing the
low half and then the high half loses the carry if the low half overflows in between
(`initExact_iff`).
-/

namespace SplitCounter

variable {B : ℕ}

/-! ## Reading -/

/-- What the reads give when the counter stands at `v₁` to `v₄` at them. -/
def readHalves (B v₁ v₂ v₃ v₄ : ℕ) : ℕ :=
  v₃ / B * B + if v₃ / B ≠ v₁ / B then v₄ % B else v₂ % B

/-- **The value read** is the one at the last read of the low half. The counter may
advance by less than `B`. -/
theorem readHalves_eq (hB : 0 < B) {v₁ v₂ v₃ v₄ : ℕ} (h₁₂ : v₁ ≤ v₂) (h₂₃ : v₂ ≤ v₃)
    (h₃₄ : v₃ / B ≠ v₁ / B → v₃ ≤ v₄ ∧ v₄ < v₁ + B) :
    readHalves B v₁ v₂ v₃ v₄ = if v₃ / B ≠ v₁ / B then v₄ else v₂ := by
  rw [readHalves]
  split_ifs with hchange
  · -- the high half has changed by one, and cannot change again
    obtain ⟨hle, hlt⟩ := h₃₄ hchange
    have hup : v₁ / B < v₃ / B :=
      Nat.lt_of_le_of_ne (Nat.div_le_div_right (Nat.le_trans h₁₂ h₂₃)) (Ne.symm hchange)
    have hstay : v₃ / B ≤ v₄ / B := Nat.div_le_div_right hle
    have hnext : v₄ / B ≤ v₁ / B + 1 := by
      rw [← Nat.add_div_right v₁ hB]
      exact Nat.div_le_div_right (Nat.le_of_lt hlt)
    have heq : v₃ / B = v₄ / B := by omega
    rw [heq, Nat.div_add_mod']
  · have hlow : v₁ / B ≤ v₂ / B := Nat.div_le_div_right h₁₂
    have hhigh : v₂ / B ≤ v₃ / B := Nat.div_le_div_right h₂₃
    have heq : v₃ / B = v₂ / B := by omega
    rw [heq, Nat.div_add_mod']

/-! ## Writing -/

/-- A write to one half. -/
inductive HalfWrite
  | low (x : ℕ)
  | high (x : ℕ)
  deriving DecidableEq, Repr

/-- What it makes of the counter. -/
def HalfWrite.apply (B : ℕ) : HalfWrite → ℕ → ℕ
  | .low x, v => v / B * B + x
  | .high x, v => x * B + v % B

/-- The counter after `n` events. -/
def count (B n v : ℕ) : ℕ := (v + n) % (B * B)

/-- The counter after writes, with `gap i` events before write `i` and the last gap
after all of them. -/
def afterWrites (B : ℕ) : List HalfWrite → (ℕ → ℕ) → ℕ → ℕ
  | [], gap, v => count B (gap 0) v
  | w :: ws, gap, v => afterWrites B ws (fun i => gap (i + 1)) (w.apply B (count B (gap 0) v))

/-- The counter is at `init` plus a number of events, not fewer than occurred after the
last write and not more than after the first one. -/
def InitExact (B init : ℕ) (ws : List HalfWrite) (gap : ℕ → ℕ) (old : ℕ) : Prop :=
  ∃ k, gap ws.length ≤ k ∧ k ≤ ∑ i ∈ Finset.range ws.length, gap (i + 1) ∧
    afterWrites B ws gap old = count B k init

/-- After a write to the low half and one to the high half, nothing is left of what was
there before. -/
theorem afterWrites_low_high (pre : List HalfWrite) (low high : ℕ) (gap : ℕ → ℕ) (old : ℕ) :
    afterWrites B (pre ++ [.low low, .high high]) gap old =
      count B (gap (pre.length + 2)) (high * B + (low + gap (pre.length + 1)) % B) := by
  induction pre generalizing gap old with
  | nil =>
    simp only [List.nil_append, afterWrites, HalfWrite.apply, List.length_nil, Nat.zero_add]
    have hlow : count B (gap 1) (count B (gap 0) old / B * B + low) % B = (low + gap 1) % B := by
      rw [count, Nat.mod_mul_right_mod, Nat.add_assoc, Nat.mul_add_mod_self_right]
    rw [hlow]
  | cons w pre ih =>
    rw [List.cons_append, afterWrites, ih, List.length_cons]

/-- The events of the gaps between the first writes. -/
theorem sum_gaps_le {gap : ℕ → ℕ} (hgap : ∀ i, gap i < B) (n : ℕ) :
    ∑ i ∈ Finset.range n, gap (i + 1) ≤ n * (B - 1) := by
  have hle : ∀ i ∈ Finset.range n, gap (i + 1) ≤ B - 1 := fun i _ => by
    have hlt := hgap (i + 1)
    omega
  calc ∑ i ∈ Finset.range n, gap (i + 1) ≤ (Finset.range n).card • (B - 1) :=
        Finset.sum_le_card_nsmul _ _ _ hle
    _ = n * (B - 1) := by rw [Finset.card_range, Nat.nsmul_eq_mul]

/-- **Initialising by halves**, whatever was written before, is exact if and only if
the low half does not overflow between the last two writes. -/
theorem initExact_iff (pre : List HalfWrite) (high : ℕ) {low : ℕ} {gap : ℕ → ℕ} (hlow : low < B)
    (hgap : ∀ i, gap i < B) (hpre : pre.length < B) (old : ℕ) :
    InitExact B (high * B + low) (pre ++ [.low low, .high high]) gap old ↔
      low + gap (pre.length + 1) < B := by
  have hlen : (pre ++ [HalfWrite.low low, .high high]).length = pre.length + 2 := by simp
  rw [InitExact, hlen, afterWrites_low_high, Finset.sum_range_succ, Finset.sum_range_succ]
  have hsum := sum_gaps_le hgap pre.length
  have hmid := hgap (pre.length + 1)
  generalize ∑ i ∈ Finset.range pre.length, gap (i + 1) = before at hsum
  generalize gap (pre.length + 1) = mid at hmid
  generalize gap (pre.length + 2) = last
  constructor
  · rintro ⟨k, hlast, hk, heq⟩
    by_contra hover
    obtain ⟨j, rfl⟩ := Nat.exists_eq_add_of_le hlast
    -- the lost carry would have to be made up by `j` events
    have hmod : (low + mid) % B = low + mid - B := by
      rw [Nat.mod_eq_sub_mod (Nat.not_lt.mp hover), Nat.mod_eq_of_lt (by omega)]
    have hcongr : (high * B + low + last) + mid ≡ (high * B + low + last) + (j + B)
        [MOD B * B] := by
      have hleft : high * B + (low + mid) % B + last + B = (high * B + low + last) + mid := by
        omega
      have hright : high * B + low + (last + j) + B = (high * B + low + last) + (j + B) := by
        omega
      rw [← hleft, ← hright]
      exact Nat.ModEq.add_right B heq
    have hj := Nat.ModEq.add_left_cancel' _ hcongr
    have hsquare : pre.length * (B - 1) + B < B * B := by
      have hle : pre.length * (B - 1) ≤ (B - 1) * (B - 1) :=
        Nat.mul_le_mul_right _ (by omega)
      obtain ⟨b, rfl⟩ : ∃ b, B = b + 1 := ⟨B - 1, by omega⟩
      rw [Nat.add_sub_cancel] at hle ⊢
      have hexpand : (b + 1) * (b + 1) = b * b + b + (b + 1) := by ring
      omega
    have hB : B ≤ B * B := Nat.le_mul_self B
    rw [Nat.ModEq, Nat.mod_eq_of_lt (Nat.lt_of_lt_of_le hmid hB)] at hj
    by_cases hwrap : j + B < B * B
    · rw [Nat.mod_eq_of_lt hwrap] at hj
      omega
    · rw [Nat.mod_eq_sub_mod (Nat.not_lt.mp hwrap), Nat.mod_eq_of_lt (by omega)] at hj
      omega
  · intro hfits
    refine ⟨mid + last, Nat.le_add_left .., by omega, ?_⟩
    rw [Nat.mod_eq_of_lt hfits, count, count]
    congr 1
    omega

end SplitCounter
