import Mathlib.Algebra.Polynomial.Monic
import Mathlib.Algebra.Polynomial.Degree.Operations
import Mathlib.Algebra.Polynomial.Div
import Mathlib.Algebra.CharP.Two
import Mathlib.Algebra.Field.ZMod
import Mathlib.Data.List.GetD
import Mathlib.RingTheory.Coprime.Lemmas
import Mathlib.Tactic.LinearCombination

/-!
# Cyclic redundancy checks

A word stands for a polynomial over the field of two elements (`toPoly`). The
shift register of a CRC multiplies by `X` modulo its generator (`shift`), so
feeding it a message leaves the remainder of the message times `X ^ w`
(`dvd_toPoly_crc`), and the words that it accepts as a check are those that make
the message with its check divisible by the generator (`crc_eq_iff`).
-/

namespace Crc

open Polynomial

variable {w k : ℕ}

/-! ## Words as polynomials -/

/-- The polynomial whose coefficients are the bits of the word. -/
noncomputable def toPoly (v : BitVec w) : (ZMod 2)[X] :=
  ∑ i ∈ Finset.range w, if v.getLsbD i then X ^ i else 0

/-- The bits of a word are the coefficients of its polynomial. -/
theorem coeff_toPoly (v : BitVec w) (i : ℕ) :
    (toPoly v).coeff i = if v.getLsbD i then 1 else 0 := by
  rw [toPoly, finsetSum_coeff]
  by_cases hi : i < w
  · rw [Finset.sum_eq_single i]
    · split_ifs <;> simp
    · intro j _ hj
      split_ifs
      · rw [coeff_X_pow, if_neg (Ne.symm hj)]
      · exact coeff_zero i
    · intro hnot
      exact absurd (Finset.mem_range.mpr hi) hnot
  · rw [BitVec.getLsbD_of_ge v i (Nat.le_of_not_lt hi), if_neg Bool.false_ne_true]
    refine Finset.sum_eq_zero fun j hj => ?_
    have hne : i ≠ j := fun he => hi (he ▸ Finset.mem_range.mp hj)
    split_ifs
    · rw [coeff_X_pow, if_neg hne]
    · exact coeff_zero i

/-- The degree is less than the width. -/
theorem degree_toPoly_lt (v : BitVec w) : (toPoly v).degree < w := by
  refine (degree_lt_iff_coeff_zero _ _).mpr fun i hi => ?_
  rw [coeff_toPoly, BitVec.getLsbD_of_ge v i hi, if_neg Bool.false_ne_true]

/-- No two words have the same polynomial. -/
theorem toPoly_injective : Function.Injective (toPoly (w := w)) := by
  intro u v h
  refine BitVec.eq_of_getLsbD_eq fun i _ => ?_
  have hcoeff := congrArg (coeff · i) h
  simp only [coeff_toPoly] at hcoeff
  rcases hu : u.getLsbD i with _ | _ <;> rcases hv : v.getLsbD i with _ | _ <;>
    simp [hu, hv] at hcoeff ⊢

/-- Over `ZMod 2` the exclusive or is the sum. -/
theorem toPoly_xor (u v : BitVec w) : toPoly (u ^^^ v) = toPoly u + toPoly v := by
  ext i
  rw [coeff_add, coeff_toPoly, coeff_toPoly, coeff_toPoly, BitVec.getLsbD_xor]
  rcases u.getLsbD i with _ | _ <;> rcases v.getLsbD i with _ | _ <;> decide

@[simp] theorem toPoly_zero : toPoly 0#w = 0 := by
  ext i
  simp [coeff_toPoly]

/-- A shift that drops no bit. -/
theorem toPoly_setWidth_shiftLeft (v : BitVec k) (hk : k ≤ w) :
    toPoly (v.setWidth w <<< (w - k)) = X ^ (w - k) * toPoly v := by
  ext i
  rw [coeff_X_pow_mul', coeff_toPoly, coeff_toPoly, BitVec.getLsbD_shiftLeft,
    BitVec.getLsbD_setWidth]
  by_cases hlow : i < w - k
  · have hnot : ¬ w - k ≤ i := by omega
    simp [hlow, hnot]
  · by_cases hi : i < w
    · have hle : w - k ≤ i := by omega
      have hlt : i - (w - k) < w := by omega
      simp [hlow, hi, hle, hlt]
    · have hbig : v.getLsbD (i - (w - k)) = false := BitVec.getLsbD_of_ge v _ (by omega)
      simp [hi, hbig]

/-- To append words is to shift the polynomial of the first. -/
theorem toPoly_append (u : BitVec w) (v : BitVec k) :
    toPoly (u ++ v) = X ^ k * toPoly u + toPoly v := by
  ext i
  rw [coeff_add, coeff_X_pow_mul', coeff_toPoly, coeff_toPoly, coeff_toPoly, BitVec.getLsbD_append]
  by_cases hi : i < k
  · simp [hi, Nat.not_le.mpr hi]
  · simp [hi, Nat.le_of_not_lt hi]

/-! ## The shift register -/

/-- The generator of a CRC, with its leading term. -/
noncomputable def generator (g : BitVec w) : (ZMod 2)[X] := X ^ w + toPoly g

/-- One step of the register. -/
def shift (g v : BitVec w) : BitVec w := if v.msb then (v <<< 1) ^^^ g else v <<< 1

/-- Feed a symbol of `k` bits. -/
def feed (g : BitVec w) (v : BitVec w) (b : BitVec k) : BitVec w :=
  (shift g)^[k] (v ^^^ (b.setWidth w <<< (w - k)))

/-- The polynomial of a message, first symbol first. -/
noncomputable def message (l : List (BitVec k)) : (ZMod 2)[X] :=
  l.foldl (fun p b => X ^ k * p + toPoly b) 0

variable (g v : BitVec w)

/-- The generator has the bit above its width. -/
theorem generator_monic : (generator g).Monic := by
  have hdegree : (toPoly g).degree < (w : WithBot ℕ) := degree_toPoly_lt g
  exact monic_X_pow_add hdegree

/-- That bit makes its degree. -/
theorem degree_generator : (generator g).degree = w := by
  rw [generator, degree_add_eq_left_of_degree_lt, degree_X_pow]
  rw [degree_X_pow]
  exact degree_toPoly_lt g

/-- A shift of the word is a multiplication by `X`, but for the bit that is lost. The register
subtracts the generator for that bit, which has it as its leading term. -/
theorem X_mul_toPoly (hw : 0 < w) :
    X * toPoly v = toPoly (v <<< 1) + if v.msb then X ^ w else 0 := by
  ext i
  have hmsb : v.msb = v.getLsbD (w - 1) := BitVec.msb_eq_getLsbD_last v
  cases i with
  | zero =>
    have hlow : (v <<< 1).getLsbD 0 = false := by simp
    rw [coeff_X_mul_zero, coeff_add, coeff_toPoly, hlow, if_neg Bool.false_ne_true, zero_add]
    split_ifs
    · rw [coeff_X_pow, if_neg hw.ne]
    · exact (coeff_zero 0).symm
  | succ i =>
    rw [coeff_X_mul, coeff_add, coeff_toPoly, coeff_toPoly, BitVec.getLsbD_shiftLeft]
    by_cases hi : i + 1 < w
    · have htop : (if v.msb then X ^ w else 0 : (ZMod 2)[X]).coeff (i + 1) = 0 := by
        split_ifs
        · rw [coeff_X_pow, if_neg (by omega)]
        · exact coeff_zero _
      simp [hi, htop]
    · by_cases hlast : i + 1 = w
      · have hi' : w - 1 = i := by omega
        rw [hmsb, hi']
        rcases v.getLsbD i with _ | _ <;> simp [hlast]
      · have htop : (if v.msb then X ^ w else 0 : (ZMod 2)[X]).coeff (i + 1) = 0 := by
          split_ifs
          · rw [coeff_X_pow, if_neg hlast]
          · exact coeff_zero _
        have hbig : v.getLsbD i = false := BitVec.getLsbD_of_ge v _ (by omega)
        simp [hi, htop, hbig]

/-- **One step** multiplies by `X` modulo the generator. -/
theorem dvd_shift (hw : 0 < w) : generator g ∣ toPoly (shift g v) - X * toPoly v := by
  rw [X_mul_toPoly v hw, shift]
  by_cases hmsb : v.msb
  · refine ⟨-1, ?_⟩
    rw [if_pos hmsb, if_pos hmsb, toPoly_xor, generator]
    linear_combination CharTwo.add_self_eq_zero (toPoly g)
  · simp [hmsb]

/-- After `n` steps the register holds `X ^ n` times what it held, up to multiples of the generator.
-/
theorem dvd_shift_iterate (hw : 0 < w) (n : ℕ) :
    generator g ∣ toPoly ((shift g)^[n] v) - X ^ n * toPoly v := by
  induction n with
  | zero => simp
  | succ n ih =>
    rw [Function.iterate_succ_apply']
    have hstep := dvd_shift g ((shift g)^[n] v) hw
    have hsum := dvd_add hstep (Dvd.dvd.mul_left ih X)
    rwa [mul_sub, ← mul_assoc, ← pow_succ', sub_add_sub_cancel] at hsum

/-- A symbol more. -/
theorem message_append (l : List (BitVec k)) (b : BitVec k) :
    message (l ++ [b]) = X ^ k * message l + toPoly b := by
  rw [message, List.foldl_append]
  rfl

/-- **A CRC** is congruent to the message times `X ^ w`. By induction on the message, from its end:
each symbol is added at the top of the register and shifted out. -/
theorem dvd_toPoly_crc (hw : 0 < w) (hk : k ≤ w) (l : List (BitVec k)) :
    generator g ∣ toPoly (l.foldl (feed g) 0#w) - X ^ w * message l := by
  induction l using List.reverseRecOn with
  | nil => simp [message]
  | append_singleton l b ih =>
    rw [List.foldl_append, message_append]
    simp only [List.foldl_cons, List.foldl_nil]
    rw [feed]
    have hstep := dvd_shift_iterate g (l.foldl (feed g) 0#w ^^^ (b.setWidth w <<< (w - k))) hw k
    rw [toPoly_xor, toPoly_setWidth_shiftLeft b hk] at hstep
    have hpow : X ^ k * X ^ (w - k) = (X ^ w : (ZMod 2)[X]) := by
      rw [← pow_add, Nat.add_sub_cancel' hk]
    have hsum := dvd_add hstep (Dvd.dvd.mul_left ih (X ^ k))
    have heq : toPoly ((shift g)^[k] (l.foldl (feed g) 0#w ^^^ (b.setWidth w <<< (w - k))))
          - X ^ w * (X ^ k * message l + toPoly b)
        = toPoly ((shift g)^[k] (l.foldl (feed g) 0#w ^^^ (b.setWidth w <<< (w - k))))
          - X ^ k * (toPoly (l.foldl (feed g) 0#w) + X ^ (w - k) * toPoly b)
          + X ^ k * (toPoly (l.foldl (feed g) 0#w) - X ^ w * message l) := by
      linear_combination toPoly b * hpow
    rw [heq]
    exact hsum

/-- The check word of a message is the one that completes it to a multiple of the
generator. -/
theorem crc_eq_iff (hw : 0 < w) (hk : k ≤ w) (l : List (BitVec k)) (c : BitVec w) :
    l.foldl (feed g) 0#w = c ↔ generator g ∣ X ^ w * message l + toPoly c := by
  have hcrc := dvd_toPoly_crc g hw hk l
  constructor
  · rintro rfl
    have hneg : X ^ w * message l = -(X ^ w * message l) := (CharTwo.neg_eq _).symm
    rw [add_comm, hneg, ← sub_eq_add_neg]
    exact hcrc
  · intro hc
    by_contra hne
    have hdvd : generator g ∣ toPoly (l.foldl (feed g) 0#w) - toPoly c := by
      have hsum := dvd_add hcrc hc
      rwa [← add_assoc, sub_add_cancel, ← CharTwo.sub_eq_add] at hsum
    have hdegree : (toPoly (l.foldl (feed g) 0#w) - toPoly c).degree < (generator g).degree := by
      rw [degree_generator]
      exact (degree_sub_le _ _).trans_lt (max_lt (degree_toPoly_lt _) (degree_toPoly_lt _))
    refine (generator_monic g).not_dvd_of_degree_lt (fun h0 => hne ?_) hdegree hdvd
    exact toPoly_injective (sub_eq_zero.mp h0)

/-- **The register** holds the remainder of the message times `X ^ w`. -/
theorem toPoly_crc (hw : 0 < w) (hk : k ≤ w) (l : List (BitVec k)) :
    toPoly (l.foldl (feed g) 0#w) = (X ^ w * message l) %ₘ generator g := by
  obtain ⟨q, hq⟩ := dvd_toPoly_crc g hw hk l
  have hdivision : toPoly (l.foldl (feed g) 0#w) + generator g * -q = X ^ w * message l := by
    linear_combination hq
  refine (div_modByMonic_unique (-q) _ (generator_monic g) ⟨hdivision, ?_⟩).2.symm
  rw [degree_generator]
  exact degree_toPoly_lt _

/-! ## Messages bit by bit -/

/-- A message from where another has led to. -/
theorem foldl_message (l : List (BitVec k)) (p : (ZMod 2)[X]) :
    l.foldl (fun p b => X ^ k * p + toPoly b) p = X ^ (k * l.length) * p + message l := by
  induction l generalizing p with
  | nil => simp [message]
  | cons b l ih =>
    rw [message, List.foldl_cons, List.foldl_cons, ih, ih, List.length_cons, Nat.mul_succ, pow_add]
    ring

/-- The first symbol is the most significant. -/
theorem message_cons (b : BitVec k) (l : List (BitVec k)) :
    message (b :: l) = X ^ (k * l.length) * toPoly b + message l := by
  rw [message, List.foldl_cons, foldl_message, mul_zero, zero_add]

/-- Zeros have the zero polynomial. -/
theorem message_eq_zero {l : List (BitVec k)} (h : ∀ b ∈ l, b = 0#k) : message l = 0 := by
  induction l with
  | nil => rfl
  | cons b l ih =>
    rw [message_cons, h b List.mem_cons_self, toPoly_zero, mul_zero, zero_add,
      ih fun b hb => h b (List.mem_cons_of_mem _ hb)]

/-- Two messages in a row. -/
theorem message_append_list (l l' : List (BitVec k)) :
    message (l ++ l') = X ^ (k * l'.length) * message l + message l' := by
  rw [message, List.foldl_append, foldl_message]
  rfl

/-- A message that has three symbols in a row and zeros around them. Two symbols would do for a
burst of sixteen bits, but for one that is not aligned to symbols. -/
theorem message_window {l : List (BitVec k)} {q : ℕ}
    (h : ∀ n, n < q ∨ q + 2 < n → l.getD n 0#k = 0#k) :
    X ^ (k * 2) * message l = X ^ (k * (l.length - (q + 1))) *
      message [l.getD q 0#k, l.getD (q + 1) 0#k, l.getD (q + 2) 0#k] := by
  induction l generalizing q with
  | nil => simp [message]
  | cons b l ih =>
    cases q with
    | zero =>
      match l, h with
      | [], _ | [_], _ =>
        simp only [message, List.foldl_cons, List.foldl_nil, List.getD_cons_zero,
          List.getD_cons_succ, List.getD_nil, List.length_cons, List.length_nil, toPoly_zero]
        ring
      | c :: d :: l, h =>
        have hzero : message l = 0 := by
          refine message_eq_zero fun b hb => ?_
          obtain ⟨n, hn, rfl⟩ := List.getElem_of_mem hb
          have hget := h (n + 3) (.inr (by omega))
          rwa [List.getD_eq_getElem _ _ (by simp; omega)] at hget
        have hsplit : b :: c :: d :: l = [b, c, d] ++ l := rfl
        have hlen : (b :: c :: d :: l).length - (0 + 1) = l.length + 2 := rfl
        rw [hlen, hsplit, message_append_list, hzero, add_zero, ← mul_assoc, ← pow_add]
        congr 2
        ring
    | succ q =>
      have hb : b = 0#k := h 0 (.inl q.succ_pos)
      have hrest : ∀ n, n < q ∨ q + 2 < n → l.getD n 0#k = 0#k := fun n hn =>
        h (n + 1) (by omega)
      rw [message_cons, hb, toPoly_zero, mul_zero, zero_add, ih hrest]
      simp

/-- The bits of a message, the most significant of the first symbol first. -/
def bitOf (l : List (BitVec k)) (i : ℕ) : Bool := (l.getD (i / k) 0#k).getLsbD (k - 1 - i % k)

theorem bitOf_cons_of_lt (b : BitVec k) (l : List (BitVec k)) {i : ℕ} (hi : i < k) :
    bitOf (b :: l) i = b.getLsbD (k - 1 - i) := by
  rw [bitOf, Nat.div_eq_of_lt hi, Nat.mod_eq_of_lt hi, List.getD_cons_zero]

/-- Past the first symbol the bits are those of the rest. -/
theorem bitOf_cons_add (b : BitVec k) (l : List (BitVec k)) (hk : 0 < k) (i : ℕ) :
    bitOf (b :: l) (k + i) = bitOf l i := by
  rw [bitOf, bitOf, Nat.add_div_left i hk, Nat.add_mod_left, List.getD_cons_succ]

/-- A message has no coefficients beyond its bits. -/
theorem coeff_message_of_le (l : List (BitVec k)) {j : ℕ} (hj : k * l.length ≤ j) :
    (message l).coeff j = 0 := by
  induction l generalizing j with
  | nil => simp [message]
  | cons b l ih =>
    rw [List.length_cons, Nat.mul_succ] at hj
    have hbig : b.getLsbD (j - k * l.length) = false := BitVec.getLsbD_of_ge b _ (by omega)
    rw [message_cons, coeff_add, ih (by omega), coeff_X_pow_mul', if_pos (by omega), coeff_toPoly,
      hbig, if_neg Bool.false_ne_true, add_zero]

/-- A bit that is set lies inside. -/
theorem lt_of_bitOf {l : List (BitVec k)} {i : ℕ} (hbit : bitOf l i) : i < k * l.length := by
  by_contra hge
  have hk : 0 < k := by
    rcases Nat.eq_zero_or_pos k with rfl | hk
    · rw [bitOf, BitVec.getLsbD_of_ge _ _ (Nat.zero_le _)] at hbit
      cases hbit
    · exact hk
  have hle : l.length ≤ i / k := (Nat.le_div_iff_mul_le hk).mpr (by rw [Nat.mul_comm]; omega)
  rw [bitOf, List.getD_eq_default _ _ hle, BitVec.getLsbD_zero] at hbit
  cases hbit

/-- The first bit is the leading coefficient. -/
theorem coeff_message (hk : 0 < k) (l : List (BitVec k)) {i : ℕ} (hi : i < k * l.length) :
    (message l).coeff (k * l.length - 1 - i) = if bitOf l i then 1 else 0 := by
  induction l generalizing i with
  | nil => cases hi
  | cons b l ih =>
    rw [List.length_cons, Nat.mul_succ] at hi ⊢
    rw [message_cons, coeff_add, coeff_X_pow_mul']
    rcases Nat.lt_or_ge i k with hlt | hge
    · have heq : k * l.length + k - 1 - i = k * l.length + (k - 1 - i) := by omega
      rw [coeff_message_of_le l (by omega), if_pos (by omega), coeff_toPoly, add_zero, heq,
        Nat.add_sub_cancel_left, bitOf_cons_of_lt b l hlt]
    · obtain ⟨i, rfl⟩ := Nat.exists_eq_add_of_le hge
      have heq : k * l.length + k - 1 - (k + i) = k * l.length - 1 - i := by omega
      rw [if_neg (by omega), zero_add, heq, ih (by omega), bitOf_cons_add b l hk]

/-! ## Errors -/

/-- A message with some bits inverted. -/
def corrupt (l e : List (BitVec k)) : List (BitVec k) := List.zipWith (· ^^^ ·) l e

/-- What has been received is the sum of what was sent and of what went wrong. So a checksum fails
to see an error exactly if it fails to see it on its own. -/
theorem message_corrupt {l e : List (BitVec k)} (h : l.length = e.length) :
    message (corrupt l e) = message l + message e := by
  induction l generalizing e with
  | nil =>
    rw [List.length_eq_zero_iff.mp h.symm]
    simp [corrupt, message]
  | cons b l ih =>
    cases e with
    | nil => cases h
    | cons b' e =>
      have hlen : l.length = e.length := Nat.succ.inj h
      have hcons : corrupt (b :: l) (b' :: e) = (b ^^^ b') :: corrupt l e := rfl
      have hlength : (corrupt l e).length = e.length := by
        rw [corrupt, List.length_zipWith, hlen, Nat.min_self]
      rw [hcons, message_cons, message_cons, message_cons, ih hlen, toPoly_xor, hlength, hlen]
      ring

section

variable {g} (hw : 0 < w) (hg : g.getLsbD 0)

include hw hg

/-- A generator with a constant term has no factor `X`. -/
theorem isCoprime_generator_X : IsCoprime (generator g) X := by
  have hconst : (generator g).coeff 0 = 1 := by
    rw [generator, coeff_add, coeff_X_pow, if_neg hw.ne, coeff_toPoly, if_pos hg, zero_add]
  refine ⟨1, -(generator g).divX, ?_⟩
  have hdivX := divX_mul_X_add (generator g)
  rw [hconst, C_1] at hdivX
  linear_combination -hdivX

/-- Hence where an error sits does not matter to divisibility. -/
theorem generator_dvd_X_pow_mul {n : ℕ} {p : (ZMod 2)[X]} :
    generator g ∣ X ^ n * p ↔ generator g ∣ p := by
  have hcoprime : IsCoprime (generator g) (X ^ n) := .pow_right (isCoprime_generator_X hw hg)
  exact ⟨hcoprime.dvd_of_dvd_mul_left, fun h => h.mul_left _⟩

/-- **Bursts.** A polynomial whose terms lie within `w` consecutive powers is no multiple of the
generator. -/
theorem not_generator_dvd {p : (ZMod 2)[X]} (hp : p ≠ 0) {m : ℕ}
    (hburst : ∀ j, p.coeff j ≠ 0 → m ≤ j ∧ j < m + w) : ¬ generator g ∣ p := by
  have hlow : X ^ m ∣ p := by
    refine X_pow_dvd_iff.mpr fun j hj => ?_
    by_contra hne
    have hle := (hburst j hne).1
    omega
  obtain ⟨q, rfl⟩ := hlow
  rw [generator_dvd_X_pow_mul hw hg]
  refine (generator_monic g).not_dvd_of_degree_lt (right_ne_zero_of_mul hp) ?_
  rw [degree_generator]
  refine (degree_lt_iff_coeff_zero _ _).mpr fun j hj => ?_
  by_contra hne
  have hcoeff : (X ^ m * q).coeff (j + m) ≠ 0 := by rwa [coeff_X_pow_mul]
  have hlt := (hburst _ hcoeff).2
  omega

/-- An error within `w` consecutive bits of a message is no multiple of the generator: moved to the
end, it is a polynomial of smaller degree, and not zero. -/
theorem not_generator_dvd_message (hk : 0 < k) {e : List (BitVec k)} {i m : ℕ}
    (hbit : bitOf e i) (hburst : ∀ j, bitOf e j → m ≤ j ∧ j < m + w) :
    ¬ generator g ∣ message e := by
  have hne : message e ≠ 0 := by
    intro hzero
    have hcoeff := coeff_message hk e (lt_of_bitOf hbit)
    rw [hzero, coeff_zero, if_pos hbit] at hcoeff
    exact zero_ne_one hcoeff
  refine not_generator_dvd hw hg hne (m := k * e.length - w - m) fun j hj => ?_
  have hlt : j < k * e.length := by
    by_contra hge
    exact hj (coeff_message_of_le e (by omega))
  have hcoeff := coeff_message hk e (i := k * e.length - 1 - j) (by omega)
  have heq : k * e.length - 1 - (k * e.length - 1 - j) = j := by omega
  rw [heq] at hcoeff
  have hset : bitOf e (k * e.length - 1 - j) := by
    by_contra hnot
    rw [if_neg hnot] at hcoeff
    exact hj hcoeff
  have hwithin := hburst _ hset
  omega

end

end Crc
