import Mathlib.Data.BitVec
import Mathlib.Logic.Function.Basic

/-!
# Tests of a memory

A memory whose decoder may send two addresses to one cell, and whose cells may have bits that are
stuck. A test fills a list of addresses with a pattern and reads them back. With a pattern that
tells addresses apart, and then with its complement, it passes exactly where the memory has no
such fault at these addresses (`mismatch_compl_iff`).
-/

namespace RamTest

variable {α γ : Type*} {w : ℕ}

/-- A memory of cells of `w` bits. -/
structure Ram (α γ : Type*) (w : ℕ) where
  decode : α → γ
  /-- The bits of a cell that are not stuck at zero. -/
  keep : γ → BitVec w
  /-- The bits of a cell that are stuck at one. -/
  stuck : γ → BitVec w

namespace Ram

variable (ram : Ram α γ w) [DecidableEq γ]

/-- What a cell gives back. -/
def seen (c : γ) (v : BitVec w) : BitVec w := v &&& ram.keep c ||| ram.stuck c

def read (cells : γ → BitVec w) (a : α) : BitVec w := ram.seen (ram.decode a) (cells (ram.decode a))

def write (cells : γ → BitVec w) (a : α) (v : BitVec w) : γ → BitVec w :=
  Function.update cells (ram.decode a) v

/-- A pattern is written to the addresses, one after the other. -/
def fill (pattern : α → BitVec w) : List α → (γ → BitVec w) → γ → BitVec w
  | [], cells => cells
  | a :: l, cells => fill pattern l (ram.write cells a (pattern a))

/-- The first address that does not read as the pattern. -/
def mismatch (pattern : α → BitVec w) (l : List α) (cells : γ → BitVec w) : Option α :=
  l.find? fun a => ram.read cells a ≠ pattern a

/-- A cell without stuck bits. -/
def Sound (c : γ) : Prop := ∀ v, ram.seen c v = v

/-- The addresses have cells of their own, without stuck bits. -/
structure FaultFree (l : List α) : Prop where
  sound : ∀ a ∈ l, ram.Sound (ram.decode a)
  apart : ∀ a ∈ l, ∀ b ∈ l, ram.decode a = ram.decode b → a = b

variable {ram} {pattern : α → BitVec w} {l : List α} {cells cells' : γ → BitVec w} {a : α} {c : γ}

omit [DecidableEq γ] in
theorem mismatch_eq_none :
    ram.mismatch pattern l cells = none ↔ ∀ a ∈ l, ram.read cells a = pattern a := by
  simp [mismatch]

/-- A cell of none of the addresses. -/
theorem fill_of_forall_ne (h : ∀ a ∈ l, ram.decode a ≠ c) :
    ram.fill pattern l cells c = cells c := by
  induction l generalizing cells with
  | nil => rfl
  | cons a l ih =>
    have hne : c ≠ ram.decode a := (h a List.mem_cons_self).symm
    rw [fill, ih fun b hb => h b (List.mem_cons_of_mem _ hb), write, Function.update_of_ne hne]

/-- A cell holds the pattern of the last address that it has, since the addresses are filled in
their order and a later one overwrites. -/
theorem fill_decode (pattern : α → BitVec w) (cells : γ → BitVec w)
    (h : ∃ a ∈ l, ram.decode a = c) :
    ∃ b ∈ l, ram.decode b = c ∧ ram.fill pattern l cells c = pattern b := by
  induction l generalizing cells with
  | nil =>
    obtain ⟨a, ha, -⟩ := h
    cases ha
  | cons a l ih =>
    rw [fill]
    rcases Classical.em (∃ b ∈ l, ram.decode b = c) with hl | hl
    · obtain ⟨b, hb, hc, heq⟩ := ih (ram.write cells a (pattern a)) hl
      exact ⟨b, List.mem_cons_of_mem _ hb, hc, heq⟩
    · have hnot : ∀ b ∈ l, ram.decode b ≠ c := fun b hb hc => hl ⟨b, hb, hc⟩
      obtain ⟨b, hb, hc⟩ := h
      obtain rfl | hb := List.mem_cons.mp hb
      · refine ⟨b, List.mem_cons_self, hc, ?_⟩
        rw [fill_of_forall_ne hnot, write, ← hc, Function.update_self]
      · exact absurd hc (hnot b hb)

/-- Addresses with cells of their own read as they were filled. -/
theorem FaultFree.read_fill (h : ram.FaultFree l) (ha : a ∈ l) :
    ram.read (ram.fill pattern l cells) a = pattern a := by
  obtain ⟨b, hb, hdecode, heq⟩ := fill_decode pattern cells ⟨a, ha, rfl⟩
  rw [read, h.sound a ha, heq, h.apart b hb a ha hdecode]

omit [DecidableEq γ] in
/-- Two patterns that are complements show that no bit is stuck. -/
theorem sound_of_compl {v : BitVec w} (h : ram.seen c v = v) (hcompl : ram.seen c (~~~v) = ~~~v) :
    ram.Sound c := by
  intro u
  refine BitVec.eq_of_getLsbD_eq fun i hi => ?_
  have hbit := congrArg (·.getLsbD i) h
  have hbit' := congrArg (·.getLsbD i) hcompl
  simp only [seen, BitVec.getLsbD_or, BitVec.getLsbD_and, BitVec.getLsbD_not, hi, decide_true,
    Bool.true_and] at hbit hbit' ⊢
  cases hk : (ram.keep c).getLsbD i <;> cases hs : (ram.stuck c).getLsbD i <;>
    cases hv : v.getLsbD i <;> simp [hk, hs, hv] at hbit hbit' ⊢

/-- Addresses that read as a pattern have cells of their own, if it tells them apart. -/
theorem apart_of_mismatch (hpattern : Function.Injective pattern)
    (h : ram.mismatch pattern l (ram.fill pattern l cells) = none) {b : α} (ha : a ∈ l)
    (hb : b ∈ l) (hdecode : ram.decode a = ram.decode b) : a = b := by
  rw [mismatch_eq_none] at h
  have heq := h a ha
  rw [read, hdecode] at heq
  exact hpattern (heq.symm.trans (h b hb))

/-- **The test** with a pattern and its complement passes exactly where there is no fault: a bit
that is stuck differs from one of the two, and a cell with two addresses from the pattern of the
first. -/
theorem mismatch_compl_iff (hpattern : Function.Injective pattern) :
    ram.mismatch pattern l (ram.fill pattern l cells) = none ∧
      ram.mismatch (fun a => ~~~pattern a) l (ram.fill (fun a => ~~~pattern a) l cells') = none ↔
        ram.FaultFree l := by
  constructor
  · rintro ⟨h, h'⟩
    have hapart := fun a ha b hb => apart_of_mismatch (a := a) (b := b) hpattern h ha hb
    refine ⟨fun a ha => ?_, hapart⟩
    obtain ⟨b, hb, hdecode, heq⟩ :=
      fill_decode pattern cells ⟨a, ha, rfl⟩
    obtain ⟨b', hb', hdecode', heq'⟩ :=
      fill_decode (fun a => ~~~pattern a) cells' ⟨a, ha, rfl⟩
    have hread := mismatch_eq_none.mp h a ha
    have hread' := mismatch_eq_none.mp h' a ha
    rw [read, heq, hapart b hb a ha hdecode] at hread
    rw [read, heq', hapart b' hb' a ha hdecode'] at hread'
    exact sound_of_compl hread hread'
  · intro h
    exact ⟨mismatch_eq_none.mpr fun a ha => h.read_fill ha,
      mismatch_eq_none.mpr fun a ha => h.read_fill ha⟩

end Ram

end RamTest
