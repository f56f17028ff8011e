import Mathlib.Order.WellFounded
import Mathlib.Data.Prod.Lex

/-!
# Programs with loops that may not end

A program takes fuel, of which each loop has as many rounds, and threads a state; without
enough fuel it has no result. `Ends c s a t` says that it has one from some fuel on, always
the same, and `Respects R c` that wherever it has one, `R` relates the states before and after.
The state comes with an environment `ω`, whose choices a program meets but does not
know: `Total c s Q` says that whatever they are, the program ends, and with `Q`.
-/

namespace Progs

universe u v w

/-- A program on states `σ` with values in `α`. -/
def Prog (σ : Type v) (α : Type u) : Type (max u v) := ℕ → σ → Option (α × σ)

variable {σ : Type v} {ω : Type w} {α β ι : Type u}

protected def Prog.pure (a : α) : Prog σ α := fun _ s => some (a, s)

protected def Prog.bind (c : Prog σ α) (f : α → Prog σ β) : Prog σ β :=
  fun n s => (c n s).bind fun r => f r.1 n r.2

instance : Monad (Prog σ) where
  pure := Prog.pure
  bind := Prog.bind

/-- A step that always has a result. -/
def act (f : σ → α × σ) : Prog σ α := fun _ s => some (f s)

/-- `k` rounds of a loop at most, each of which goes on with `inl` or leaves with `inr`. -/
def rounds (body : ι → Prog σ (ι ⊕ α)) (n : ℕ) : ℕ → ι → σ → Option (α × σ)
  | 0, _, _ => none
  | k + 1, i, s =>
    match body i n s with
    | none => none
    | some (.inl i', s') => rounds body n k i' s'
    | some (.inr a, s') => some (a, s')

/-- A loop that starts with `i`. -/
def loop (body : ι → Prog σ (ι ⊕ α)) (i : ι) : Prog σ α := fun n s => rounds body n n i s

/-! ## Ending -/

/-- With enough fuel the program ends with `a` in `t`. -/
def Ends (c : Prog σ α) (s : σ) (a : α) (t : σ) : Prop := ∃ N, ∀ n, N ≤ n → c n s = some (a, t)

variable {c : Prog σ α} {f : α → Prog σ β} {body : ι → Prog σ (ι ⊕ α)} {s t t' : σ} {a a' : α}
  {b : β} {i i' : ι}

/-- A program ends in one way at most. -/
theorem Ends.unique (h : Ends c s a t) (h' : Ends c s a' t') : a = a' ∧ t = t' := by
  obtain ⟨N, hN⟩ := h
  obtain ⟨N', hN'⟩ := h'
  have heq := (hN (max N N') (le_max_left _ _)).symm.trans (hN' (max N N') (le_max_right _ _))
  exact Prod.mk.inj (Option.some.inj heq)

theorem Ends.pure (a : α) (s : σ) : Ends (pure a) s a s := ⟨0, fun _ _ => rfl⟩

theorem Ends.act (f : σ → α × σ) (s : σ) : Ends (act f) s (f s).1 (f s).2 := ⟨0, fun _ _ => rfl⟩

theorem Ends.bind (h : Ends c s a t) (h' : Ends (f a) t b t') : Ends (c >>= f) s b t' := by
  obtain ⟨N, hN⟩ := h
  obtain ⟨N', hN'⟩ := h'
  refine ⟨max N N', fun n hn => ?_⟩
  have hc : c n s = some (a, t) := hN n ((le_max_left N N').trans hn)
  change (c n s).bind _ = _
  rw [hc]
  exact hN' n ((le_max_right N N').trans hn)

/-- The loop ends, with enough rounds that have enough fuel. -/
def RoundsEnd (body : ι → Prog σ (ι ⊕ α)) (i : ι) (s : σ) (a : α) (t : σ) : Prop :=
  ∃ N, ∀ n k, N ≤ n → N ≤ k → rounds body n k i s = some (a, t)

theorem RoundsEnd.ends (h : RoundsEnd body i s a t) : Ends (loop body i) s a t := by
  obtain ⟨N, hN⟩ := h
  exact ⟨N, fun n hn => hN n n hn hn⟩

/-- The last round. -/
theorem RoundsEnd.exit (h : Ends (body i) s (.inr a) t) : RoundsEnd body i s a t := by
  obtain ⟨N, hN⟩ := h
  refine ⟨N + 1, fun n k hn hk => ?_⟩
  obtain ⟨k, rfl⟩ : ∃ k', k = k' + 1 := ⟨k - 1, by omega⟩
  rw [rounds, hN n (by omega)]

/-- A round before others. -/
theorem RoundsEnd.next (h : Ends (body i) s (.inl i') t) (h' : RoundsEnd body i' t a t') :
    RoundsEnd body i s a t' := by
  obtain ⟨N, hN⟩ := h
  obtain ⟨N', hN'⟩ := h'
  refine ⟨max N N' + 1, fun n k hn hk => ?_⟩
  obtain ⟨k, rfl⟩ : ∃ k', k = k' + 1 := ⟨k - 1, by omega⟩
  rw [rounds, hN n (by omega)]
  exact hN' n k (by omega) (by omega)

/-- The loop ends in `m` rounds at most, with enough fuel for each. -/
def EndsWithin (body : ι → Prog σ (ι ⊕ α)) (m : ℕ) (i : ι) (s : σ) (a : α) (t : σ) : Prop :=
  ∃ N, ∀ n, N ≤ n → rounds body n m i s = some (a, t)

section

variable {m : ℕ}

theorem EndsWithin.exit (h : Ends (body i) s (.inr a) t) : EndsWithin body (m + 1) i s a t := by
  obtain ⟨N, hN⟩ := h
  exact ⟨N, fun n hn => by rw [rounds, hN n hn]⟩

theorem EndsWithin.next (h : Ends (body i) s (.inl i') t) (h' : EndsWithin body m i' t a t') :
    EndsWithin body (m + 1) i s a t' := by
  obtain ⟨N, hN⟩ := h
  obtain ⟨N', hN'⟩ := h'
  refine ⟨max N N', fun n hn => ?_⟩
  rw [rounds, hN n (by omega)]
  exact hN' n (by omega)

/-- A loop that has ended makes no use of more rounds. -/
theorem rounds_of_le {n k : ℕ} (h : rounds body n m i s = some (a, t)) (hk : m ≤ k) :
    rounds body n k i s = some (a, t) := by
  induction m generalizing k i s with
  | zero => cases h
  | succ m ih =>
    obtain ⟨k, rfl⟩ : ∃ k', k = k' + 1 := ⟨k - 1, by omega⟩
    rw [rounds] at h ⊢
    rcases hbody : body i n s with _ | ⟨i' | a', s'⟩
    · rw [hbody] at h
      cases h
    · rw [hbody] at h
      exact ih h (by omega)
    · rw [hbody] at h
      exact h

theorem EndsWithin.ends (h : EndsWithin body m i s a t) : Ends (loop body i) s a t := by
  obtain ⟨N, hN⟩ := h
  exact ⟨max N m, fun n hn => rounds_of_le (hN n (by omega)) (by omega)⟩

end

/-! ## What a program keeps -/

/-- Where the program has a result at all, it has gone from a state to one that `R` relates to it:
what holds of each way to end holds whether or not the program does. -/
def Respects (R : σ → σ → Prop) (c : Prog σ α) : Prop := ∀ n s r, c n s = some r → R s r.2

section

variable {R : σ → σ → Prop}

theorem Respects.pure {a : α} (hrefl : ∀ s, R s s) : Respects R (pure a : Prog σ α) := by
  rintro n s _ ⟨⟩
  exact hrefl s

theorem Respects.act {f : σ → α × σ} (h : ∀ s, R s (f s).2) : Respects R (act f) := by
  rintro n s _ ⟨⟩
  exact h s

theorem Respects.ite {p : Prop} [Decidable p] {c c' : Prog σ α} (h : Respects R c)
    (h' : Respects R c') : Respects R (if p then c else c') := by
  split_ifs
  · exact h
  · exact h'

variable (htrans : ∀ {s t u}, R s t → R t u → R s u)

include htrans

theorem Respects.bind (h : Respects R c) (h' : ∀ a, Respects R (f a)) : Respects R (c >>= f) := by
  intro n s r hr
  change (c n s).bind _ = some r at hr
  obtain ⟨r', hc, hf⟩ := Option.bind_eq_some_iff.mp hr
  exact htrans (h n s r' hc) (h' r'.1 n r'.2 r hf)

/-- **Loops** keep what each round keeps. -/
theorem Respects.loop (h : ∀ i, Respects R (body i)) : Respects R (loop body i) := by
  have hrounds : ∀ n k i s r, rounds body n k i s = some r → R s r.2 := by
    intro n k
    induction k with
    | zero => exact fun _ _ _ hr => by cases hr
    | succ k ih =>
      intro i s r hr
      rw [rounds] at hr
      rcases hbody : body i n s with _ | ⟨i' | a, s'⟩
      · rw [hbody] at hr
        cases hr
      · rw [hbody] at hr
        exact htrans (h i n s _ hbody) (ih i' s' r hr)
      · rw [hbody] at hr
        cases hr
        exact h i n s _ hbody
  exact fun n s r hr => hrounds n n i s r hr

end

/-! ## Total correctness -/

/-- From `s`, whatever the environment chooses, the program ends with `Q`. -/
def Total (c : Prog (σ × ω) α) (s : σ) (Q : α → σ → Prop) : Prop :=
  ∀ w, ∃ a t w', Ends c (s, w) a (t, w') ∧ Q a t

section

variable {c : Prog (σ × ω) α} {f : α → Prog (σ × ω) β} {body : ι → Prog (σ × ω) (ι ⊕ α)}
  {s : σ} {P Q : α → σ → Prop} {R : β → σ → Prop} {i : ι}

theorem Total.pure {a : α} (h : Q a s) : Total (pure a : Prog (σ × ω) α) s Q :=
  fun w => ⟨a, s, w, Ends.pure a (s, w), h⟩

theorem Total.mono (h : Total c s P) (hPQ : ∀ a t, P a t → Q a t) : Total c s Q := by
  intro w
  obtain ⟨a, t, w', hends, hP⟩ := h w
  exact ⟨a, t, w', hends, hPQ a t hP⟩

theorem Total.bind (h : Total c s P) (h' : ∀ a t, P a t → Total (f a) t R) :
    Total (c >>= f) s R := by
  intro w
  obtain ⟨a, t, w', hends, hP⟩ := h w
  obtain ⟨b, t', w'', hends', hR⟩ := h' a t hP w'
  exact ⟨b, t', w'', hends.bind hends', hR⟩

/-- **Loops.** Each round keeps the invariant and brings a measure down, which may look at
the environment, or leaves with `Q`. -/
theorem Total.loop_env {γ : Type*} [Preorder γ] [WellFoundedLT γ] (I : ι → σ → Prop)
    (μ : ι → σ → ω → γ)
    (hbody : ∀ i s w, I i s → ∃ r t w', Ends (body i) (s, w) r (t, w') ∧
      match r with
      | .inl i' => I i' t ∧ μ i' t w' < μ i s w
      | .inr a => Q a t)
    (hI : I i s) : Total (loop body i) s Q := by
  have hrounds : ∀ (m : γ) i s w, μ i s w = m → I i s →
      ∃ a t w', RoundsEnd body i (s, w) a (t, w') ∧ Q a t := by
    intro m
    induction m using WellFoundedLT.induction with
    | ind m ih =>
      intro i s w hm hI
      obtain ⟨r, t, w', hends, hr⟩ := hbody i s w hI
      cases r with
      | inl i' =>
        obtain ⟨a, t', w'', hrest, hQ⟩ := ih _ (hm ▸ hr.2) i' t w' rfl hr.1
        exact ⟨a, t', w'', .next hends hrest, hQ⟩
      | inr a => exact ⟨a, t, w', .exit hends, hr⟩
  intro w
  obtain ⟨a, t, w', hends, hQ⟩ := hrounds _ i s w rfl hI
  exact ⟨a, t, w', hends.ends, hQ⟩

/-- The same where the measure does not. -/
theorem Total.loop {γ : Type*} [Preorder γ] [WellFoundedLT γ] (I : ι → σ → Prop) (μ : ι → σ → γ)
    (hbody : ∀ i s, I i s → Total (body i) s fun r t =>
      match r with
      | .inl i' => I i' t ∧ μ i' t < μ i s
      | .inr a => Q a t)
    (hI : I i s) : Total (loop body i) s Q :=
  .loop_env I (fun i s _ => μ i s) (fun i s w hI => hbody i s hI w) hI

end

end Progs
