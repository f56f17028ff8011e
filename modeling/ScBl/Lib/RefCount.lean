import Mathlib.Algebra.BigOperators.Group.Finset.Basic
import Mathlib.Algebra.Order.BigOperators.Group.Finset
import Mathlib.Algebra.Order.Ring.Int

/-!
# Reference-counted objects of several parties

An object is taken by the party that finds its counter at zero and increments
it. The owner prepares it, shares it by handing out references, each counted
before it is handed out, and gives it up. Whoever increments the counter and
finds that it was not zero backs out, so that the counter may be too high for a
while. It is never too low, and nobody takes the object while a reference to it
is out (`Tally.Step.good`).

`total` adds up what the parties hold.
-/

namespace RefCount

open Finset

universe u v

/-! ## Totals -/

section Total

variable {ι : Type u} {α : Type v} [Fintype ι]

/-- What all parties hold together. -/
def total (f : α → ℤ) (s : ι → α) : ℤ := ∑ i, f (s i)

variable {f g : α → ℤ} (s : ι → α)

theorem total_nonneg (hf : ∀ a, 0 ≤ f a) : 0 ≤ total f s := sum_nonneg fun _ _ => hf _

theorem total_le_total (hfg : ∀ a, f a ≤ g a) : total f s ≤ total g s :=
  sum_le_sum fun _ _ => hfg _

theorem total_lt_total (hfg : ∀ a, f a ≤ g a) {i : ι} (hi : f (s i) < g (s i)) :
    total f s < total g s :=
  sum_lt_sum (fun _ _ => hfg _) ⟨i, mem_univ i, hi⟩

theorem le_total (hf : ∀ a, 0 ≤ f a) (i : ι) : f (s i) ≤ total f s :=
  single_le_sum (fun _ _ => hf _) (mem_univ i)

theorem total_eq_zero_of_forall (h : ∀ i, f (s i) = 0) : total f s = 0 :=
  sum_eq_zero fun i _ => h i

/-- Two parties hold no more than all of them. -/
theorem add_le_total (hf : ∀ a, 0 ≤ f a) {i j : ι} (hij : i ≠ j) :
    f (s i) + f (s j) ≤ total f s := by
  classical
  calc f (s i) + f (s j) = ∑ k ∈ {i, j}, f (s k) := (sum_pair (f := fun k => f (s k)) hij).symm
    _ ≤ total f s := sum_le_univ_sum_of_nonneg fun _ => hf _

/-- At most one party has `p`. -/
theorem unique_of_total_le_one {p : α → Prop} [DecidablePred p]
    (hone : total (fun a => if p a then 1 else 0) s ≤ 1) {i j : ι} (hi : p (s i)) (hj : p (s j)) :
    i = j := by
  by_contra hij
  have hle := add_le_total s (f := fun a => if p a then 1 else 0)
    (fun a => by split_ifs <;> decide) hij
  rw [if_pos hi, if_pos hj] at hle
  omega

theorem total_eq_ite {p : α → Prop} [DecidablePred p] [Decidable (∃ i, p (s i))]
    (hone : total (fun a => if p a then 1 else 0) s ≤ 1) :
    total (fun a => if p a then 1 else 0) s = if ∃ i, p (s i) then 1 else 0 := by
  have hnonneg : ∀ a, (0 : ℤ) ≤ if p a then 1 else 0 := fun a => by split_ifs <;> decide
  split_ifs with hex
  · obtain ⟨i, hi⟩ := hex
    have hle := le_total s hnonneg i
    rw [if_pos hi] at hle
    exact le_antisymm hone hle
  · exact total_eq_zero_of_forall s fun i => if_neg fun hi => hex ⟨i, hi⟩

/-- One party changes. -/
theorem total_update [DecidableEq ι] (f : α → ℤ) (s : ι → α) (i : ι) (a : α) :
    total f (Function.update s i a) = total f s + (f a - f (s i)) := by
  have hsame : ∀ j ∈ univ.erase i, f (Function.update s i a j) = f (s j) := by
    intro j hj
    rw [Function.update_of_ne (ne_of_mem_erase hj)]
  have hnew := add_sum_erase univ (fun j => f (Function.update s i a j)) (mem_univ i)
  have hold := add_sum_erase univ (fun j => f (s j)) (mem_univ i)
  rw [sum_congr rfl hsame, Function.update_self] at hnew
  rw [total, total, ← hnew, ← hold]
  omega

end Total

/-! ## Tallies -/

/-- The counter of an object, and who really holds it. -/
structure Tally where
  counter : ℤ
  /-- Parties that own the object. -/
  owners : ℤ
  /-- Owners that still prepare it. -/
  fresh : ℤ
  /-- Parties that have to back out. -/
  losers : ℤ
  /-- References that are counted. -/
  refs : ℤ

namespace Tally

/-- The second tally comes from the first by adding these amounts. -/
def Change (t t' : Tally) (counter owners fresh losers refs : ℤ) : Prop :=
  t'.counter = t.counter + counter ∧ t'.owners = t.owners + owners ∧
    t'.fresh = t.fresh + fresh ∧ t'.losers = t.losers + losers ∧ t'.refs = t.refs + refs

theorem Change.trans {t t' t'' : Tally} {c o f l r c' o' f' l' r' : ℤ} (h : Change t t' c o f l r)
    (h' : Change t' t'' c' o' f' l' r') :
    Change t t'' (c + c') (o + o') (f + f') (l + l') (r + r') := by
  obtain ⟨h1, h2, h3, h4, h5⟩ := h
  obtain ⟨h1', h2', h3', h4', h5'⟩ := h'
  exact ⟨by omega, by omega, by omega, by omega, by omega⟩

/-- What may happen to an object. -/
inductive Step (t t' : Tally) : Prop
  | same (h : Change t t' 0 0 0 0 0)
  /-- The counter is incremented from zero. -/
  | win (hzero : t.counter = 0) (h : Change t t' 1 1 1 0 0)
  /-- The counter is incremented from another value. -/
  | lose (h : Change t t' 1 0 0 1 0)
  | backOut (h : Change t t' (-1) 0 0 (-1) 0)
  /-- The owner is done with its preparations. -/
  | settle (h : Change t t' 0 0 (-1) 0 0)
  /-- A settled owner counts a reference. -/
  | share (hsettled : t.fresh < t.owners) (h : Change t t' 1 0 0 0 1)
  | release (h : Change t t' (-1) 0 0 0 (-1))
  | free (h : Change t t' (-1) (-1) 0 0 0)

/-- Nothing is held a negative number of times. -/
structure NonNeg (t : Tally) : Prop where
  fresh : 0 ≤ t.fresh
  fresh_le : t.fresh ≤ t.owners
  losers : 0 ≤ t.losers
  refs : 0 ≤ t.refs

/-- The counter is exact, there is one owner at most, and no reference is out
while it prepares the object. -/
structure Good (t : Tally) : Prop where
  counter : t.counter = t.owners + t.losers + t.refs
  owners_le : t.owners ≤ 1
  quiet : 0 < t.fresh → t.refs = 0

variable {t t' : Tally}

/-- Taking the object from a zero counter finds it unused. -/
theorem Good.unused (h : t.Good) (hn : t.NonNeg) (hzero : t.counter = 0) :
    t.owners = 0 ∧ t.losers = 0 ∧ t.refs = 0 := by
  obtain ⟨hcounter, _, _⟩ := h
  obtain ⟨hfresh, hle, hlosers, hrefs⟩ := hn
  omega

/-- What takes nothing new, and counts what it changes, keeps a tally good. -/
theorem Good.keep {c o f l r : ℤ} (hgood : t.Good) (hn' : t'.NonNeg) (h : Change t t' c o f l r)
    (hcount : c = o + l + r) (ho : o ≤ 0) (hf : f ≤ 0) (hr : r ≤ 0) : t'.Good := by
  obtain ⟨hcounter, howners, hquiet⟩ := hgood
  obtain ⟨h1, h2, h3, h4, h5⟩ := h
  refine ⟨by omega, by omega, fun hpos => ?_⟩
  have hrefs := hquiet (by omega)
  exact le_antisymm (by omega) hn'.refs

/-- **Steps keep tallies good.** The counter stays the sum of what is counted, and who takes a slot
at zero is its only owner. -/
theorem Step.good (hstep : Step t t') (hgood : t.Good) (hn : t.NonNeg) (hn' : t'.NonNeg) :
    t'.Good := by
  cases hstep with
  | same h => exact hgood.keep hn' h rfl le_rfl le_rfl le_rfl
  | win hzero h =>
    -- nobody holds anything, so the new owner is alone
    obtain ⟨ho, hl, hr⟩ := hgood.unused hn hzero
    obtain ⟨h1, h2, h3, h4, h5⟩ := h
    exact ⟨by omega, by omega, fun _ => by omega⟩
  | lose h => exact hgood.keep hn' h rfl le_rfl le_rfl le_rfl
  | backOut h => exact hgood.keep hn' h rfl le_rfl le_rfl le_rfl
  | settle h => exact hgood.keep hn' h rfl le_rfl (by decide) le_rfl
  | share hsettled h =>
    -- a settled owner is the only one, so nobody prepares the object
    obtain ⟨hcounter, howners, _⟩ := hgood
    obtain ⟨h1, h2, h3, h4, h5⟩ := h
    exact ⟨by omega, by omega, fun hpos => by omega⟩
  | release h => exact hgood.keep hn' h rfl le_rfl le_rfl (by decide)
  | free h => exact hgood.keep hn' h rfl (by decide) le_rfl le_rfl

end Tally

end RefCount
