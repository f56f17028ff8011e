import Mathlib.Data.List.Basic

/-!
# Runs of a system fed with a list of inputs

A system is a step function `σ → ι → σ`; a run is the list of inputs it is fed
with, one after the other. `EachStep step P s l` says that `P` holds at every
step of the run `l` from `s`: of the input and of the state it meets.

Four rules cover the arguments about runs: an invariant (`run_inv`, `EachStep.of_inv`),
where a condition on the steps may be needed to keep it, a simulation of one
system by another (`eachStep_iff_of_sim`), cutting a run in two
(`eachStep_append`), and judging the states of a run by its steps
(`good_run_iff`, `throughout_iff`).
-/

namespace Runs

universe u v w

variable {σ : Type u} {τ : Type v} {ι : Type w}

/-- The state after a run. -/
def run (step : σ → ι → σ) : σ → List ι → σ
  | s, [] => s
  | s, e :: l => run step (step s e) l

/-- `P` holds at every step of the run. -/
def EachStep (step : σ → ι → σ) (P : σ → ι → Prop) : σ → List ι → Prop
  | _, [] => True
  | s, e :: l => P s e ∧ EachStep step P (step s e) l

instance EachStep.decidable (step : σ → ι → σ) (P : σ → ι → Prop) [∀ s e, Decidable (P s e)]
    (s : σ) (l : List ι) : Decidable (EachStep step P s l) :=
  match l with
  | [] => inferInstanceAs (Decidable True)
  | e :: l =>
    have : Decidable (EachStep step P (step s e) l) := EachStep.decidable step P (step s e) l
    inferInstanceAs (Decidable (_ ∧ _))

variable {step : σ → ι → σ} {step' : τ → ι → τ} {P C : σ → ι → Prop} {Q : τ → ι → Prop}

theorem run_append (s : σ) (l₁ l₂ : List ι) :
    run step s (l₁ ++ l₂) = run step (run step s l₁) l₂ := by
  induction l₁ generalizing s with
  | nil => rfl
  | cons e l ih => exact ih (step s e)

theorem eachStep_append {s : σ} {l₁ l₂ : List ι} :
    EachStep step P s (l₁ ++ l₂) ↔
      EachStep step P s l₁ ∧ EachStep step P (run step s l₁) l₂ := by
  induction l₁ generalizing s with
  | nil => simp [EachStep, run]
  | cons e l ih =>
    rw [List.cons_append, EachStep, ih, EachStep, run, and_assoc]

/-- Every step of a run comes after some part of it. -/
theorem eachStep_iff_split {s : σ} {l : List ι} :
    EachStep step P s l ↔
      ∀ before e after, l = before ++ e :: after → P (run step s before) e := by
  constructor
  · rintro h before e after rfl
    exact (eachStep_append.mp h).2.1
  · intro h
    induction l generalizing s with
    | nil => trivial
    | cons e l ih =>
      refine ⟨h [] e l rfl, ih fun before e' after hl => ?_⟩
      exact h (e :: before) e' after (by rw [hl, List.cons_append])

/-- **Invariants.** If steps that meet `C` keep the invariant and have `P`, then
every step of a run whose steps all meet `C` has `P`, and the invariant holds at
the end. -/
theorem EachStep.of_inv (Inv : σ → Prop)
    (hstep : ∀ s e, Inv s → C s e → P s e ∧ Inv (step s e)) :
    ∀ {s : σ} {l : List ι}, Inv s → EachStep step C s l →
      EachStep step P s l ∧ Inv (run step s l) := by
  intro s l
  induction l generalizing s with
  | nil =>
    intro hs _
    exact ⟨trivial, hs⟩
  | cons e l ih =>
    intro hs hC
    obtain ⟨hP, hinv⟩ := hstep s e hs hC.1
    obtain ⟨htail, hend⟩ := ih hinv hC.2
    exact ⟨⟨hP, htail⟩, hend⟩

/-- Two properties of steps that are the same under an invariant which they keep. -/
theorem eachStep_iff_of_inv (Inv : σ → Prop) (hiff : ∀ s e, Inv s → (P s e ↔ C s e))
    (hinv : ∀ s e, Inv s → C s e → Inv (step s e)) :
    ∀ {s : σ} {l : List ι}, Inv s → (EachStep step P s l ↔ EachStep step C s l) := by
  intro s l
  induction l generalizing s with
  | nil =>
    intro _
    exact Iff.rfl
  | cons e l ih =>
    intro hs
    refine (and_congr_left' (hiff s e hs)).trans (and_congr_right fun hC => ?_)
    exact ih (hinv s e hs hC)

/-- An invariant that needs no condition. -/
theorem run_inv (Inv : σ → Prop) (hstep : ∀ s e, Inv s → Inv (step s e)) {s : σ} {l : List ι}
    (hs : Inv s) : Inv (run step s l) := by
  induction l generalizing s with
  | nil => exact hs
  | cons e l ih => exact ih (hstep s e hs)

/-- **Histories.** What each step appends its input to has the whole run appended. -/
theorem run_history (Inv : σ → Prop) (history : σ → List ι)
    (hinv : ∀ s e, Inv s → Inv (step s e))
    (hstep : ∀ s e, Inv s → history (step s e) = history s ++ [e]) {s : σ} {l : List ι}
    (hs : Inv s) : history (run step s l) = history s ++ l := by
  induction l generalizing s with
  | nil => exact (List.append_nil _).symm
  | cons e l ih =>
    rw [run, ih (hinv s e hs), hstep s e hs, List.append_assoc]
    rfl

/-- A property of the inputs alone. -/
theorem eachStep_const_iff {D : ι → Prop} :
    ∀ {s : σ} {l : List ι}, EachStep step (fun _ e => D e) s l ↔ ∀ e ∈ l, D e := by
  intro s l
  induction l generalizing s with
  | nil => simp [EachStep]
  | cons e l ih => rw [EachStep, ih, List.forall_mem_cons]

theorem EachStep.of_mem {D : ι → Prop} {s : σ} {l : List ι} (hD : ∀ e ∈ l, D e) :
    EachStep step (fun _ e => D e) s l :=
  eachStep_const_iff.mpr hD

theorem eachStep_congr (hPC : ∀ s e, P s e ↔ C s e) {s : σ} {l : List ι} :
    EachStep step P s l ↔ EachStep step C s l := by
  induction l generalizing s with
  | nil => exact Iff.rfl
  | cons e l ih => exact and_congr (hPC s e) ih

/-- **Simulation.** Two systems fed with the same inputs, related step by step,
have corresponding properties at corresponding steps. -/
theorem eachStep_iff_of_sim {R : σ → τ → Prop}
    (hiff : ∀ s t e, R s t → (P s e ↔ Q t e))
    (hstep : ∀ s t e, R s t → R (step s e) (step' t e)) :
    ∀ {s : σ} {t : τ} {l : List ι}, R s t → (EachStep step P s l ↔ EachStep step' Q t l) := by
  intro s t l
  induction l generalizing s t with
  | nil =>
    intro _
    exact Iff.rfl
  | cons e l ih =>
    intro hR
    exact and_congr (hiff s t e hR) (ih (hstep s t e hR))

/-- The states that two such systems end in. -/
theorem run_sim {R : σ → τ → Prop} (hstep : ∀ s t e, R s t → R (step s e) (step' t e)) :
    ∀ {s : σ} {t : τ} {l : List ι}, R s t → R (run step s l) (run step' t l) := by
  intro s t l
  induction l generalizing s t with
  | nil => exact id
  | cons e l ih => exact fun hR => ih (hstep s t e hR)

/-- **Judging a run by its end.** If a step leads to a good state exactly when
it starts from one and meets `C`, then a run ends well exactly when it starts
well and every step meets `C`. -/
theorem good_run_iff (Inv : σ → Prop) {Good : σ → Prop} (hinv : ∀ s e, Inv s → Inv (step s e))
    (hgood : ∀ s e, Inv s → (Good (step s e) ↔ Good s ∧ C s e)) :
    ∀ {s : σ} {l : List ι}, Inv s → (Good (run step s l) ↔ Good s ∧ EachStep step C s l) := by
  intro s l
  induction l generalizing s with
  | nil =>
    intro _
    simp [run, EachStep]
  | cons e l ih =>
    intro hs
    rw [run, ih (hinv s e hs), hgood s e hs, EachStep, and_assoc]

/-- `Good` holds in every state of the run, the first and the last included. -/
def Throughout (step : σ → ι → σ) (Good : σ → Prop) (s : σ) (l : List ι) : Prop :=
  ∀ before after, l = before ++ after → Good (run step s before)

theorem throughout_nil {Good : σ → Prop} {s : σ} : Throughout step Good s [] ↔ Good s := by
  constructor
  · exact fun h => h [] [] rfl
  · intro h before after heq
    obtain ⟨rfl, _⟩ := List.append_eq_nil_iff.mp heq.symm
    exact h

theorem throughout_cons {Good : σ → Prop} {s : σ} {e : ι} {l : List ι} :
    Throughout step Good s (e :: l) ↔ Good s ∧ Throughout step Good (step s e) l := by
  constructor
  · intro h
    refine ⟨h [] _ rfl, fun before after heq => h (e :: before) after ?_⟩
    rw [heq, List.cons_append]
  · rintro ⟨hs, hl⟩ before after heq
    cases before with
    | nil => exact hs
    | cons e' before =>
      obtain ⟨rfl, rfl⟩ := List.cons_eq_cons.mp heq
      exact hl before after rfl

/-- **Judging every state of a run.** If a step with a possible input from a good state
leads to a good one exactly when it meets `C`, then all states of a run are good exactly
when the first one is and every step meets `C`. -/
theorem throughout_iff_of_mem (Inv : σ → Prop) {D : ι → Prop} {Good : σ → Prop}
    (hinv : ∀ s e, D e → Inv s → Inv (step s e))
    (hgood : ∀ s e, D e → Inv s → Good s → (Good (step s e) ↔ C s e)) :
    ∀ {s : σ} {l : List ι}, (∀ e ∈ l, D e) → Inv s →
      (Throughout step Good s l ↔ Good s ∧ EachStep step C s l) := by
  intro s l
  induction l generalizing s with
  | nil =>
    intro _ _
    rw [throughout_nil, EachStep, and_true]
  | cons e l ih =>
    intro hD hs
    obtain ⟨he, hl⟩ := List.forall_mem_cons.mp hD
    rw [throughout_cons, ih hl (hinv s e he hs), EachStep]
    refine and_congr_right fun hgs => ?_
    rw [hgood s e he hs hgs]

/-- The same with all inputs possible. -/
theorem throughout_iff (Inv : σ → Prop) {Good : σ → Prop} (hinv : ∀ s e, Inv s → Inv (step s e))
    (hgood : ∀ s e, Inv s → Good s → (Good (step s e) ↔ C s e)) {s : σ} {l : List ι}
    (hs : Inv s) : Throughout step Good s l ↔ Good s ∧ EachStep step C s l :=
  throughout_iff_of_mem Inv (D := fun _ => True) (fun s e _ => hinv s e)
    (fun s e _ => hgood s e) (fun _ _ => trivial) hs

end Runs
