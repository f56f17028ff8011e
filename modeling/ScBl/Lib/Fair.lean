import ScBl.Lib.Runs
import Mathlib.Order.WellFounded

/-!
# Fair schedules

The infinite runs of a system, under a schedule that comes back to every input. Two rules lead
to a goal: a variant that no step raises and that one input, which depends on the state, lowers
(`eventually_of_variant`); and an input that leads to what all steps keep
(`eventually_forever`).
-/

namespace Runs

universe u w

variable {σ : Type u} {ι : Type w} {step : σ → ι → σ}

/-- The states of an infinite run. -/
def states (step : σ → ι → σ) (s : σ) (sched : ℕ → ι) : ℕ → σ
  | 0 => s
  | n + 1 => step (states step s sched n) (sched n)

/-- Every input comes again and again. -/
def Fair (sched : ℕ → ι) : Prop := ∀ e n, ∃ m, n ≤ m ∧ sched m = e

variable {s : σ} {sched : ℕ → ι}

theorem states_inv (Inv : σ → Prop) (hinv : ∀ s e, Inv s → Inv (step s e)) (hs : Inv s)
    (sched : ℕ → ι) (n : ℕ) : Inv (states step s sched n) := by
  induction n with
  | zero => exact hs
  | succ n ih => exact hinv _ _ ih

/-- What all steps keep stays. -/
theorem states_stable (Inv Q : σ → Prop) (hinv : ∀ s e, Inv s → Inv (step s e))
    (hkeep : ∀ s e, Inv s → Q s → Q (step s e)) (hs : Inv s) {n m : ℕ} (hnm : n ≤ m)
    (hn : Q (states step s sched n)) : Q (states step s sched m) := by
  induction m, hnm using Nat.le_induction with
  | base => exact hn
  | succ m _ ih => exact hkeep _ _ (states_inv Inv hinv hs sched m) ih

/-- **Variants.** Every step makes the variant smaller or leaves it, with the same process still
helpful, and a step of that process makes it smaller. By the fairness of the schedule this process
has its turn, so that the goal is reached. -/
theorem eventually_of_variant {α : Type*} [PartialOrder α] [WellFoundedLT α] (Inv Goal : σ → Prop)
    (helpful : σ → ι) (variant : σ → α) (hinv : ∀ s e, Inv s → Inv (step s e))
    (hother : ∀ s e, Inv s → ¬ Goal s → variant (step s e) < variant s ∨
      variant (step s e) = variant s ∧ helpful (step s e) = helpful s)
    (hhelpful : ∀ s, Inv s → ¬ Goal s → variant (step s (helpful s)) < variant s)
    (hfair : Fair sched) (hs : Inv s) : ∃ n, Goal (states step s sched n) := by
  by_contra hnever
  push Not at hnever
  have hlower : ∀ n, ∃ m, variant (states step s sched m) < variant (states step s sched n) := by
    intro n
    obtain ⟨m, hnm, hm⟩ := hfair (helpful (states step s sched n)) n
    -- up to `m`, the variant is lowered or the helpful input is the same
    have hwait : ∀ m, n ≤ m → (∃ k, variant (states step s sched k) <
        variant (states step s sched n)) ∨
        variant (states step s sched m) = variant (states step s sched n) ∧
          helpful (states step s sched m) = helpful (states step s sched n) := by
      intro m hnm
      induction m, hnm using Nat.le_induction with
      | base => exact .inr ⟨rfl, rfl⟩
      | succ m _ ih =>
        obtain hlow | ⟨hvariant, hsame⟩ := ih
        · exact .inl hlow
        · have hinv' := states_inv Inv hinv hs sched m
          obtain hlt | ⟨heq, hkeep⟩ := hother _ (sched m) hinv' (hnever m)
          · exact .inl ⟨m + 1, hlt.trans_eq hvariant⟩
          · exact .inr ⟨heq.trans hvariant, hkeep.trans hsame⟩
    obtain hlow | ⟨hvariant, hsame⟩ := hwait m hnm
    · exact hlow
    · refine ⟨m + 1, ?_⟩
      rw [states, hm, ← hsame, ← hvariant]
      exact hhelpful _ (states_inv Inv hinv hs sched m) (hnever m)
  obtain ⟨a, ⟨n, rfl⟩, hmin⟩ := WellFounded.has_min (wellFounded_lt (α := α))
    (Set.range fun n => variant (states step s sched n)) ⟨_, 0, rfl⟩
  obtain ⟨m, hlt⟩ := hlower n
  exact hmin _ ⟨m, rfl⟩ hlt

/-- **What comes and stays.** -/
theorem eventually_forever (Inv Q : σ → Prop) (e : ι) (hinv : ∀ s e, Inv s → Inv (step s e))
    (hkeep : ∀ s e, Inv s → Q s → Q (step s e)) (hcome : ∀ s, Inv s → Q (step s e))
    (hfair : Fair sched) (hs : Inv s) : ∃ n, ∀ m, n ≤ m → Q (states step s sched m) := by
  obtain ⟨n, -, hn⟩ := hfair e 0
  refine ⟨n + 1, fun m hm => states_stable Inv Q hinv hkeep hs hm ?_⟩
  rw [states, hn]
  exact hcome _ (states_inv Inv hinv hs sched n)

/-- What comes and stays, each of finitely many, comes and stays together. -/
theorem eventually_forall {ω : Type*} (x : ℕ → ω) (Q : ℕ → ω → Prop) (k : ℕ)
    (h : ∀ i < k, ∃ n, ∀ m, n ≤ m → Q i (x m)) : ∃ n, ∀ m, n ≤ m → ∀ i < k, Q i (x m) := by
  induction k with
  | zero => exact ⟨0, fun m _ i hi => absurd hi (Nat.not_lt_zero i)⟩
  | succ k ih =>
    obtain ⟨n, hn⟩ := ih fun i hi => h i (Nat.lt_succ_of_lt hi)
    obtain ⟨n', hn'⟩ := h k (Nat.lt_succ_self k)
    refine ⟨max n n', fun m hm i hi => ?_⟩
    obtain rfl | hlt := Nat.eq_or_lt_of_le (Nat.le_of_lt_succ hi)
    · exact hn' m ((Nat.le_max_right n n').trans hm)
    · exact hn m ((Nat.le_max_left n n').trans hm) i hlt

/-- From some state of a run on, its schedule is fair. -/
theorem Fair.drop (hfair : Fair sched) (k : ℕ) : Fair fun n => sched (k + n) := by
  intro e n
  obtain ⟨m, hm, he⟩ := hfair e (k + n)
  obtain ⟨d, rfl⟩ := Nat.exists_eq_add_of_le ((Nat.le_add_right k n).trans hm)
  exact ⟨d, Nat.le_of_add_le_add_left hm, he⟩

theorem states_add (k n : ℕ) : states step s sched (k + n) =
    states step (states step s sched k) (fun n => sched (k + n)) n := by
  induction n with
  | zero => rfl
  | succ n ih => rw [← Nat.add_assoc, states, ih, states]

end Runs
