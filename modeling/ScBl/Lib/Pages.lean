import Mathlib.Data.BitVec
import Mathlib.Data.List.Range
import Mathlib.Tactic.Ring

/-!
# Pages of an address space

An address space of `2 ^ w` bytes in pages of `2 ^ p`. A range of bytes, which may go past the
last address and on from the first, meets the pages from that of its first byte on, as many as
hold the offset of that byte and the bytes of the range (`pageOf_mem_pagesFrom`).
-/

namespace Pages

variable {w : ℕ}

/-- The first address of the page of an address. -/
def pageOf (p : ℕ) (va : BitVec w) : BitVec w := BitVec.ofNat w (va.toNat / 2 ^ p * 2 ^ p)

/-- `n` pages in a row, by their first addresses. -/
def pagesFrom (p : ℕ) (base : BitVec w) (n : ℕ) : List (BitVec w) :=
  (List.range n).map fun k => base + BitVec.ofNat w (k * 2 ^ p)

/-- The blocks of size `d` that a range meets. -/
theorem exists_div_eq_iff {a n d m : ℕ} (hd : 0 < d) (hn : 0 < n) :
    (∃ b, a ≤ b ∧ b < a + n ∧ b / d = m) ↔ a / d ≤ m ∧ m ≤ (a + n - 1) / d := by
  constructor
  · rintro ⟨b, hlo, hhi, rfl⟩
    exact ⟨Nat.div_le_div_right hlo, Nat.div_le_div_right (by omega)⟩
  · rintro ⟨hlo, hhi⟩
    have hlast : m * d ≤ a + n - 1 := (Nat.le_div_iff_mul_le hd).mp hhi
    rcases Nat.lt_or_ge a (m * d) with hlt | hge
    · exact ⟨m * d, hlt.le, by omega, Nat.mul_div_cancel m hd⟩
    · have heq : a / d = m := Nat.le_antisymm hlo ((Nat.le_div_iff_mul_le hd).mpr hge)
      exact ⟨a, Nat.le_refl a, by omega, heq⟩

variable {p n : ℕ} {va base : BitVec w}

@[simp] theorem length_pagesFrom : (pagesFrom p base n).length = n := by simp [pagesFrom]

theorem pagesFrom_one : pagesFrom p base 1 = [base] := by simp [pagesFrom]

theorem pagesFrom_succ :
    pagesFrom p base (n + 1) = base :: pagesFrom p (base + BitVec.ofNat w (2 ^ p)) n := by
  rw [pagesFrom, pagesFrom, List.range_succ_eq_map, List.map_cons, List.map_map, Nat.zero_mul]
  refine congrArg₂ _ (BitVec.add_zero base) (List.map_congr_left fun k _ => ?_)
  rw [Function.comp_apply, Nat.succ_mul, BitVec.ofNat_add]
  ring

theorem pageOf_eq_sub (p : ℕ) (va : BitVec w) :
    pageOf p va = va - BitVec.ofNat w (va.toNat % 2 ^ p) := by
  have hsplit : BitVec.ofNat w (va.toNat / 2 ^ p * 2 ^ p) + BitVec.ofNat w (va.toNat % 2 ^ p) =
      va := by
    rw [← BitVec.ofNat_add, Nat.div_add_mod', BitVec.ofNat_toNat, BitVec.setWidth_eq]
  exact eq_sub_of_add_eq hsplit

/-- The offset in a page, as a mask gives it. -/
theorem and_offsetMask (hp : p ≤ w) (va : BitVec w) :
    va &&& BitVec.ofNat w (2 ^ p - 1) = BitVec.ofNat w (va.toNat % 2 ^ p) := by
  have hpow : 2 ^ p ≤ 2 ^ w := Nat.pow_le_pow_right (by decide) hp
  have hpos : 0 < 2 ^ p := Nat.two_pow_pos p
  have hmod : va.toNat % 2 ^ p < 2 ^ p := Nat.mod_lt _ hpos
  refine BitVec.eq_of_toNat_eq ?_
  rw [BitVec.toNat_and, BitVec.toNat_ofNat, BitVec.toNat_ofNat, Nat.mod_eq_of_lt (by omega),
    Nat.mod_eq_of_lt (by omega), Nat.and_two_pow_sub_one_eq_mod]

/-- The page of a byte of a range. -/
theorem pageOf_add (hp : p ≤ w) (va : BitVec w) (j : ℕ) :
    pageOf p (va + BitVec.ofNat w j) =
      pageOf p va + BitVec.ofNat w ((va.toNat % 2 ^ p + j) / 2 ^ p * 2 ^ p) := by
  have hoffset : (va + BitVec.ofNat w j).toNat % 2 ^ p = (va.toNat % 2 ^ p + j) % 2 ^ p := by
    rw [BitVec.toNat_add, BitVec.toNat_ofNat, Nat.mod_mod_of_dvd _ (Nat.pow_dvd_pow 2 hp),
      Nat.mod_add_mod, Nat.add_mod, Nat.mod_mod_of_dvd _ (Nat.pow_dvd_pow 2 hp), ← Nat.add_mod]
  have hsplit : BitVec.ofNat w ((va.toNat % 2 ^ p + j) / 2 ^ p * 2 ^ p) +
      BitVec.ofNat w ((va.toNat % 2 ^ p + j) % 2 ^ p) =
      BitVec.ofNat w (va.toNat % 2 ^ p) + BitVec.ofNat w j := by
    rw [← BitVec.ofNat_add, ← BitVec.ofNat_add, Nat.div_add_mod']
  rw [pageOf_eq_sub, pageOf_eq_sub, hoffset, sub_eq_iff_eq_add, add_assoc, hsplit]
  ring

/-- **A range** is inside the pages from that of its first byte on. -/
theorem pageOf_mem_pagesFrom (hp : p ≤ w) {j : ℕ} (hj : va.toNat % 2 ^ p + j < n * 2 ^ p) :
    pageOf p (va + BitVec.ofNat w j) ∈ pagesFrom p (pageOf p va) n := by
  rw [pageOf_add hp]
  exact List.mem_map.mpr ⟨_, List.mem_range.mpr (Nat.div_lt_of_lt_mul (by rwa [Nat.mul_comm])), rfl⟩

/-- The pages of the addresses at the same offset. -/
theorem map_pageOf_pagesFrom (hp : p ≤ w) :
    (pagesFrom p va n).map (pageOf p) = pagesFrom p (pageOf p va) n := by
  rw [pagesFrom, pagesFrom, List.map_map]
  refine List.map_congr_left fun k _ => ?_
  have hpos : 0 < 2 ^ p := Nat.two_pow_pos p
  rw [Function.comp_apply, pageOf_add hp, Nat.add_mul_div_right _ _ hpos,
    Nat.div_eq_of_lt (Nat.mod_lt _ hpos), Nat.zero_add]

/-- **Pages in a row** that do not come round hold no byte after them. -/
theorem pageOf_mem_pagesFrom_iff (hp : p ≤ w) (hn : n * 2 ^ p ≤ 2 ^ w) {j : ℕ}
    (hj : va.toNat % 2 ^ p + j < 2 ^ w) :
    pageOf p (va + BitVec.ofNat w j) ∈ pagesFrom p (pageOf p va) n ↔
      va.toNat % 2 ^ p + j < n * 2 ^ p := by
  refine ⟨fun hmem => ?_, pageOf_mem_pagesFrom hp⟩
  have hpos : 0 < 2 ^ p := Nat.two_pow_pos p
  obtain ⟨i, hi, heq⟩ := List.mem_map.mp hmem
  have hi := List.mem_range.mp hi
  have hlt : i * 2 ^ p < n * 2 ^ p := Nat.mul_lt_mul_of_pos_right hi hpos
  have hle := Nat.div_mul_le_self (va.toNat % 2 ^ p + j) (2 ^ p)
  rw [pageOf_add hp, add_right_inj, ← BitVec.toNat_inj, BitVec.toNat_ofNat, BitVec.toNat_ofNat,
    Nat.mod_eq_of_lt (by omega), Nat.mod_eq_of_lt (by omega)] at heq
  have hpage : i = (va.toNat % 2 ^ p + j) / 2 ^ p := Nat.eq_of_mul_eq_mul_right hpos heq
  exact (Nat.div_lt_iff_lt_mul hpos).mp (hpage ▸ hi)

end Pages
