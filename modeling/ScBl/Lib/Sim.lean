import ScBl.Lib.Prog
import Mathlib.Data.Option.Basic

/-!
# Two programs that go together

`Sim P c d Q` says that from states that `P` relates the programs `c` and `d` either both
end, with values and states that `Q` relates, or both run out of fuel: a loop of one takes as
many rounds as the loop of the other. The rules follow the programs; `Sim.left` is a step of
the first alone.
-/

namespace Progs

universe u v w

variable {σ : Type v} {τ : Type w} {α β γ δ ι κ : Type u}

/-- From states that are related by `P` the programs end together, with `Q`, or not at all. -/
def Sim (P : σ → τ → Prop) (c : Prog σ α) (d : Prog τ β) (Q : α → β → σ → τ → Prop) : Prop :=
  ∀ n s t, P s t → Option.Rel (fun r r' => Q r.1 r'.1 r.2 r'.2) (c n s) (d n t)

variable {P P' : σ → τ → Prop} {c : Prog σ α} {d : Prog τ β} {Q Q' : α → β → σ → τ → Prop}

theorem Sim.mono (h : Sim P c d Q) (hP : ∀ s t, P' s t → P s t)
    (hQ : ∀ a b s t, Q a b s t → Q' a b s t) : Sim P' c d Q' := by
  intro n s t hst
  have hcd := h n s t (hP s t hst)
  generalize c n s = r at hcd ⊢
  generalize d n t = r' at hcd ⊢
  cases hcd with
  | some hr => exact .some (hQ _ _ _ _ hr)
  | none => exact .none

theorem Sim.pure {a : α} {b : β} (h : ∀ s t, P s t → Q a b s t) :
    Sim P (pure a : Prog σ α) (pure b : Prog τ β) Q :=
  fun _ s t hst => .some (h s t hst)

theorem Sim.act {f : σ → α × σ} {g : τ → β × τ}
    (h : ∀ s t, P s t → Q (f s).1 (g t).1 (f s).2 (g t).2) : Sim P (act f) (act g) Q :=
  fun _ s t hst => .some (h s t hst)

theorem Sim.bind {f : α → Prog σ γ} {g : β → Prog τ δ} {R : γ → δ → σ → τ → Prop}
    (h : Sim P c d Q) (h' : ∀ a b, Sim (Q a b) (f a) (g b) R) :
    Sim P (c >>= f) (d >>= g) R := by
  intro n s t hst
  have hcd := h n s t hst
  change Option.Rel _ ((c n s).bind _) ((d n t).bind _)
  generalize c n s = r at hcd
  generalize d n t = r' at hcd
  cases hcd with
  | some hr => exact h' _ _ n _ _ hr
  | none => exact .none

/-- The first program takes a step that the second does not have. -/
theorem Sim.left {f : σ → α × σ} {g : α → Prog σ γ} {d : Prog τ δ} {R : α → σ → τ → Prop}
    {Q : γ → δ → σ → τ → Prop} (h : ∀ s t, P s t → R (f s).1 (f s).2 t)
    (h' : ∀ a, Sim (R a) (g a) d Q) : Sim P (Progs.act f >>= g) d Q :=
  fun n s t hst => h' _ n _ t (h s t hst)

/-- **Loops** that go round together: from related states and indices, a round of each leads to such
again, or ends both. If one does not end, neither does the other. -/
theorem Sim.loop {body : ι → Prog σ (ι ⊕ α)} {body' : κ → Prog τ (κ ⊕ β)}
    (I : ι → κ → σ → τ → Prop)
    (hbody : ∀ i j, Sim (I i j) (body i) (body' j) fun r r' s t =>
      Sum.LiftRel (I · · s t) (Q · · s t) r r') {i : ι} {j : κ} :
    Sim (I i j) (loop body i) (loop body' j) Q := by
  have hrounds : ∀ n k i j s t, I i j s t → Option.Rel (fun r r' => Q r.1 r'.1 r.2 r'.2)
      (rounds body n k i s) (rounds body' n k j t) := by
    intro n k
    induction k with
    | zero => exact fun _ _ _ _ _ => .none
    | succ k ih =>
      intro i j s t hI
      have hround := hbody i j n s t hI
      rw [rounds, rounds]
      generalize body i n s = r at hround
      generalize body' j n t = r' at hround
      cases hround with
      | none => exact .none
      | @some r r' hr =>
        obtain ⟨r, s'⟩ := r
        obtain ⟨r', t'⟩ := r'
        cases hr with
        | inl hI' => exact ih _ _ _ _ hI'
        | inr hQ => exact .some hQ
  exact fun n s t hI => hrounds n n i j s t hI

/-- What ends together ends in related states. -/
theorem Sim.map_eq {ρ : Type*} {f : σ → ρ} {g : τ → ρ} (h : Sim P c d Q)
    (hfg : ∀ a b s t, Q a b s t → f s = g t) (n : ℕ) {s : σ} {t : τ} (hst : P s t) :
    (c n s).map (fun r => f r.2) = (d n t).map fun r => g r.2 := by
  have hcd := h n s t hst
  generalize c n s = r at hcd ⊢
  generalize d n t = r' at hcd ⊢
  cases hcd with
  | some hr => exact congrArg some (hfg _ _ _ _ hr)
  | none => rfl

/-- Where the first program ends, it ends as the second does. -/
theorem Sim.of_left (h : Sim P c d Q) {n : ℕ} {s s' : σ} {t : τ} {a : α} (hst : P s t)
    (hc : c n s = some (a, s')) : ∃ b t', d n t = some (b, t') ∧ Q a b s' t' := by
  have hcd := h n s t hst
  rw [hc] at hcd
  generalize d n t = r' at hcd ⊢
  cases hcd with
  | some hr => exact ⟨_, _, rfl, hr⟩

end Progs
