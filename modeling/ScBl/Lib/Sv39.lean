import ScBl.Lib.Words
import Mathlib.Data.Nat.Init
import Mathlib.Tactic.IntervalCases

/-!
# Sv39 page tables

The walk of the privileged architecture over a page table in memory: from the root down, an
entry at level 2 or 1 is either a pointer to a table of the next level or where the walk ends,
whatever that entry says; at level 0 the walk ends.
-/

namespace Sv39

/-- Memory, by doublewords. -/
abbrev Mem : Type := BitVec 64 → BitVec 64

/-- `VPN[level]` -/
def vpn (va : BitVec 64) (level : ℕ) : BitVec 9 := va.extractLsb' (12 + 9 * level) 9

/-- The bit `V`. -/
def valid (pte : BitVec 64) : Bool := pte.getLsbD 0

/-- `V = 1` and `R = W = X = 0`. -/
def isPointer (pte : BitVec 64) : Bool :=
  pte.getLsbD 0 && !pte.getLsbD 1 && !pte.getLsbD 2 && !pte.getLsbD 3

/-- The table that an entry points to, its field `PPN` as an address. -/
def tableOf (pte : BitVec 64) : BitVec 64 := (pte.extractLsb' 10 44 ++ 0#12).setWidth 64

/-- Where the entry for an address is in a table. -/
def pteAddr (table va : BitVec 64) (level : ℕ) : BitVec 64 :=
  table + 8#64 * (vpn va level).setWidth 64

/-- How a walk ends. -/
structure Result where
  pte : BitVec 64
  level : ℕ
  /-- The addresses of the entries on the way, the last one last. -/
  path : List (BitVec 64)
  deriving DecidableEq, Repr

/-- The walk from a table of some level. -/
def walk (mem : Mem) (va : BitVec 64) : ℕ → BitVec 64 → Result
  | 0, table => ⟨mem (pteAddr table va 0), 0, [pteAddr table va 0]⟩
  | level + 1, table =>
    let addr := pteAddr table va (level + 1)
    if isPointer (mem addr) then
      let r := walk mem va level (tableOf (mem addr))
      { r with path := addr :: r.path }
    else ⟨mem addr, level + 1, [addr]⟩

variable {mem : Mem} {va table : BitVec 64} {level : ℕ}

theorem walk_pointer (h : isPointer (mem (pteAddr table va (level + 1)))) :
    walk mem va (level + 1) table =
      ⟨(walk mem va level (tableOf (mem (pteAddr table va (level + 1))))).pte,
        (walk mem va level (tableOf (mem (pteAddr table va (level + 1))))).level,
        pteAddr table va (level + 1) ::
          (walk mem va level (tableOf (mem (pteAddr table va (level + 1))))).path⟩ :=
  if_pos h

theorem walk_leaf (h : ¬ isPointer (mem (pteAddr table va (level + 1)))) :
    walk mem va (level + 1) table =
      ⟨mem (pteAddr table va (level + 1)), level + 1, [pteAddr table va (level + 1)]⟩ :=
  if_neg h

/-! ## Entries as a handler computes with them -/

/-- The low four bits tell a pointer. -/
theorem and_nibble_eq_one (pte : BitVec 64) : pte &&& 0xf#64 = 1#64 ↔ isPointer pte := by
  have hmask : ∀ i, (0xf#64).getLsbD i = (decide (i < 64) && decide (i < 4)) := fun i =>
    Words.getLsbD_lowMask 4 i
  constructor
  · intro h
    have hbit : ∀ i, (pte &&& 0xf#64).getLsbD i = (1#64).getLsbD i := fun i => by rw [h]
    have h0 := hbit 0
    have h1 := hbit 1
    have h2 := hbit 2
    have h3 := hbit 3
    simp only [BitVec.getLsbD_and, hmask] at h0 h1 h2 h3
    simp_all [isPointer]
  · intro h
    simp only [isPointer, Bool.and_eq_true, Bool.not_eq_true'] at h
    obtain ⟨⟨⟨h0, h1⟩, h2⟩, h3⟩ := h
    refine BitVec.eq_of_getLsbD_eq fun i hi => ?_
    rw [BitVec.getLsbD_and, hmask, BitVec.getLsbD_one]
    by_cases hlow : i < 4
    · interval_cases i <;> simp only [h0, h1, h2, h3] <;> rfl
    · have hne : i ≠ 0 := by omega
      simp [hlow, hne]

/-- An entry masked by its own bit `V`, spread over the word. -/
theorem and_spread_or_one (pte : BitVec 64) :
    (pte &&& (pte <<< 63).sshiftRight 63) ||| 1#64 = if valid pte then pte else 1#64 := by
  have hmsb : (pte <<< 63).msb = pte.getLsbD 0 := by
    rw [BitVec.msb_eq_getLsbD_last, BitVec.getLsbD_shiftLeft]
    simp
  have hspread : ∀ i < 64, ((pte <<< 63).sshiftRight 63).getLsbD i = pte.getLsbD 0 := by
    intro i hi
    rw [BitVec.getLsbD_sshiftRight, BitVec.getLsbD_shiftLeft, hmsb]
    rcases Nat.eq_zero_or_pos i with rfl | hpos
    · simp
    · have hout : ¬ 63 + i < 64 := by omega
      simp [hi, hout]
  refine BitVec.eq_of_getLsbD_eq fun i hi => ?_
  rw [BitVec.getLsbD_or, BitVec.getLsbD_and, hspread i hi, BitVec.getLsbD_one, valid]
  rcases hv : pte.getLsbD 0 with _ | _
  · simp
  · rcases Nat.eq_zero_or_pos i with rfl | hpos
    · simp [hv]
    · simp [hpos.ne']

/-- Without bits above `PPN`, the table of an entry is a shift down and up. -/
theorem shift_eq_tableOf {pte : BitVec 64} (h : pte >>> 54 = 0#64) :
    pte >>> 10 <<< 12 = tableOf pte := by
  refine BitVec.eq_of_getLsbD_eq fun i hi => ?_
  have hhigh : ∀ j, pte.getLsbD (54 + j) = false := by
    intro j
    rw [← BitVec.getLsbD_ushiftRight, h, BitVec.getLsbD_zero]
  rw [tableOf, BitVec.getLsbD_shiftLeft, BitVec.getLsbD_ushiftRight, BitVec.getLsbD_setWidth,
    BitVec.getLsbD_append]
  by_cases hlow : i < 12
  · simp [hlow]
  · by_cases hppn : i - 12 < 44
    · simp [hlow, hppn, hi]
    · have hbit := hhigh (10 + (i - 12) - 54)
      rw [Nat.add_sub_cancel' (by omega)] at hbit
      simp [hlow, hppn, hbit]

end Sv39
