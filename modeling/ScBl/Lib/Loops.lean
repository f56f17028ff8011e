import Mathlib.Data.List.Basic
import Mathlib.Data.List.Sort
import Mathlib.Data.Nat.Init

/-!
# Control flow of C

Loops that may return early and the index lists they walk, two small pieces that every
table-walking routine shares, and at the end the `switch`:

* `runUntil` — a `for` loop over a list whose body may leave the enclosing
  function. The body threads a state; an early return keeps the state the loop
  had reached, it does not roll anything back.
* `indicesIn p lo hi` — the indices of `[lo, hi)` at which `p` holds, in
  ascending order. "Jump to the next index that satisfies `p`" loops are
  compared against this list (`indicesIn_eq_nil`, `indicesIn_eq_cons`).
-/

namespace Loops

universe u v w

variable {α : Type u} {σ : Type v} {ρ : Type w}

/-! ## Early-return loops -/

/-- Run `body` over the list, left to right, until it returns `some r`. The
first component is the early return (`none` when the loop ran to its end), the
second the state at that point. -/
def runUntil (body : α → σ → Option ρ × σ) : List α → σ → Option ρ × σ
  | [], s => (none, s)
  | a :: l, s =>
    match body a s with
    | (some r, s') => (some r, s')
    | (none, s') => runUntil body l s'

variable {body : α → σ → Option ρ × σ}

@[simp] theorem runUntil_nil (s : σ) : runUntil body [] s = (none, s) := rfl

/-- The loop leaves at its head element. -/
theorem runUntil_cons_exit {a : α} {l : List α} {s : σ} {r : ρ}
    (h : (body a s).1 = some r) : runUntil body (a :: l) s = (some r, (body a s).2) := by
  rcases hb : body a s with ⟨_ | r', s'⟩
  · rw [hb] at h
    cases h
  · rw [hb] at h
    obtain rfl : r' = r := Option.some.inj h
    simp [runUntil, hb]

/-- The loop goes on past its head element. -/
theorem runUntil_cons_next {a : α} {l : List α} {s : σ}
    (h : (body a s).1 = none) : runUntil body (a :: l) s = runUntil body l (body a s).2 := by
  rcases hb : body a s with ⟨_ | r', s'⟩
  · simp [runUntil, hb]
  · rw [hb] at h
    cases h

/-- **Loop invariant.** What every round of the loop preserves, the loop
preserves, whether it returns early or not. -/
theorem runUntil_inv (Inv : σ → Prop) {l : List α}
    (hbody : ∀ a ∈ l, ∀ s, Inv s → Inv (body a s).2) :
    ∀ {s : σ}, Inv s → Inv (runUntil body l s).2 := by
  induction l with
  | nil =>
    intro s hs
    exact hs
  | cons a l ih =>
    intro s hs
    have ha : Inv (body a s).2 := hbody a (List.mem_cons_self ..) s hs
    have htail := fun b hb => hbody b (List.mem_cons_of_mem _ hb)
    rcases he : (body a s).1 with _ | r
    · rw [runUntil_cons_next he]
      exact ih htail ha
    · rw [runUntil_cons_exit he]
      exact ha

/-- An early return is returned by some round. -/
theorem runUntil_eq_some {l : List α} {r : ρ} :
    ∀ {s : σ}, (runUntil body l s).1 = some r → ∃ a ∈ l, ∃ s', (body a s').1 = some r := by
  induction l with
  | nil =>
    intro s h
    cases h
  | cons a l ih =>
    intro s h
    rcases he : (body a s).1 with _ | r'
    · rw [runUntil_cons_next he] at h
      obtain ⟨b, hb, s', hs'⟩ := ih h
      exact ⟨b, List.mem_cons_of_mem _ hb, s', hs'⟩
    · rw [runUntil_cons_exit he] at h
      exact ⟨a, List.mem_cons_self .., s, he.trans h⟩

/-- A loop whose body never returns on the listed elements runs to its end. -/
theorem runUntil_eq_none {l : List α} (hbody : ∀ a ∈ l, ∀ s, (body a s).1 = none) (s : σ) :
    (runUntil body l s).1 = none := by
  rcases he : (runUntil body l s).1 with _ | r
  · rfl
  · obtain ⟨a, ha, s', hs'⟩ := runUntil_eq_some he
    rw [hbody a ha s'] at hs'
    cases hs'

/-- A loop over two lists in a row. -/
theorem runUntil_append {l₁ l₂ : List α} :
    ∀ {s : σ}, (runUntil body l₁ s).1 = none →
      runUntil body (l₁ ++ l₂) s = runUntil body l₂ (runUntil body l₁ s).2 := by
  induction l₁ with
  | nil =>
    intro s _
    rfl
  | cons a l ih =>
    intro s h
    rcases he : (body a s).1 with _ | r
    · rw [runUntil_cons_next he] at h ⊢
      rw [List.cons_append, runUntil_cons_next he]
      exact ih h
    · rw [runUntil_cons_exit he] at h
      cases h

theorem runUntil_append_exit {l₁ l₂ : List α} {r : ρ} :
    ∀ {s : σ}, (runUntil body l₁ s).1 = some r →
      runUntil body (l₁ ++ l₂) s = runUntil body l₁ s := by
  induction l₁ with
  | nil =>
    intro s h
    cases h
  | cons a l ih =>
    intro s h
    rcases he : (body a s).1 with _ | r'
    · rw [runUntil_cons_next he] at h ⊢
      rw [List.cons_append, runUntil_cons_next he]
      exact ih h
    · rw [List.cons_append, runUntil_cons_exit he, runUntil_cons_exit he]

/-- **Rounds that keep to their own element.** If the round of `a` changes the
view of `a` only, a loop over distinct elements changes the view of each of them
once, and no other. -/
theorem runUntil_view {γ : Type*} [DecidableEq α] {K : α → Prop} (Inv : σ → Prop) (view : α → σ → γ)
    (f : α → γ → γ) {l : List α} (hl : l.Nodup)
    (hbody : ∀ a ∈ l, ∀ s, Inv s → (body a s).1 = none ∧ Inv (body a s).2 ∧
      ∀ b, K b → view b (body a s).2 = if b = a then f b (view b s) else view b s) :
    ∀ {s : σ}, Inv s → (runUntil body l s).1 = none ∧ Inv (runUntil body l s).2 ∧
      ∀ b, K b → view b (runUntil body l s).2 = if b ∈ l then f b (view b s) else view b s := by
  induction l with
  | nil =>
    intro s hs
    exact ⟨rfl, hs, fun b _ => by simp⟩
  | cons a l ih =>
    intro s hs
    obtain ⟨hnot, hl⟩ := List.nodup_cons.mp hl
    obtain ⟨hnone, hinv, hview⟩ := hbody a (List.mem_cons_self ..) s hs
    obtain ⟨hend, hinv', hrest⟩ := ih hl (fun b hb => hbody b (List.mem_cons_of_mem _ hb)) hinv
    rw [runUntil_cons_next hnone]
    refine ⟨hend, hinv', fun b hb => ?_⟩
    rw [hrest b hb, hview b hb]
    by_cases hba : b = a
    · subst hba
      rw [if_neg hnot, if_pos rfl, if_pos (List.mem_cons_self ..)]
    · simp [hba]

/-- The same where the loop is run under a condition. -/
theorem runUntil_view_if {γ : Type*} [DecidableEq α] {K : α → Prop} (Inv : σ → Prop)
    (view : α → σ → γ) (f : α → γ → γ) {p : Prop} [Decidable p] {l : List α} (hl : l.Nodup)
    (hbody : ∀ a ∈ l, ∀ s, Inv s → (body a s).1 = none ∧ Inv (body a s).2 ∧
      ∀ b, K b → view b (body a s).2 = if b = a then f b (view b s) else view b s)
    {s : σ} (hs : Inv s) {b : α} (hb : K b) :
    view b (if p then (runUntil body l s).2 else s) =
      if p ∧ b ∈ l then f b (view b s) else view b s := by
  by_cases hp : p
  · obtain ⟨-, -, hview⟩ := runUntil_view Inv view f hl hbody hs
    rw [if_pos hp, hview b hb]
    exact if_congr (and_iff_right hp).symm rfl rfl
  · rw [if_neg hp, if_neg fun h => hp h.1]

/-- A loop each of whose rounds leaves its mark, in a trace, leaves one for each
element. -/
theorem runUntil_trace (Inv : σ → Prop) (trace : σ → List α) {l : List α}
    (hbody : ∀ a ∈ l, ∀ s, Inv s → (body a s).1 = none ∧ Inv (body a s).2 ∧
      trace (body a s).2 = trace s ++ [a]) :
    ∀ {s : σ}, Inv s → trace (runUntil body l s).2 = trace s ++ l := by
  induction l with
  | nil =>
    intro s _
    exact (List.append_nil _).symm
  | cons a l ih =>
    intro s hs
    obtain ⟨hnone, hinv, htrace⟩ := hbody a (List.mem_cons_self ..) s hs
    rw [runUntil_cons_next hnone, ih (fun b hb => hbody b (List.mem_cons_of_mem _ hb)) hinv, htrace,
      List.append_assoc, List.singleton_append]

/-- A loop that never returns early. -/
theorem runUntil_eq_foldl (f : α → σ → σ) (l : List α) (s : σ) :
    runUntil (fun a s => ((none : Option ρ), f a s)) l s =
      (none, l.foldl (fun s a => f a s) s) := by
  induction l generalizing s with
  | nil => rfl
  | cons a l ih =>
    rw [runUntil_cons_next rfl]
    exact ih (f a s)

/-- One more round of a counting loop. -/
theorem runUntil_range_succ {body : ℕ → σ → Option ρ × σ} {n : ℕ} {s s' : σ}
    (hpre : runUntil body (List.range n) s = (none, s')) (hnext : (body n s').1 = none) :
    runUntil body (List.range (n + 1)) s = (none, (body n s').2) := by
  rw [List.range_succ, runUntil_append (by rw [hpre]), hpre, runUntil_cons_next hnext,
    runUntil_nil]

/-- A counting loop that reaches round `i` and leaves there. -/
theorem runUntil_range_exit {body : ℕ → σ → Option ρ × σ} {i n : ℕ} {s s' : σ} {r : ρ}
    (hi : i < n) (hpre : runUntil body (List.range i) s = (none, s'))
    (hexit : (body i s').1 = some r) :
    runUntil body (List.range n) s = (some r, (body i s').2) := by
  obtain ⟨k, rfl⟩ := Nat.exists_eq_add_of_lt hi
  have hsplit : List.range (i + k + 1) = List.range i ++ i :: List.range' (i + 1) k := by
    rw [List.range_eq_range', List.range_eq_range', Nat.add_assoc, ← List.range'_append_1,
      List.range'_succ, Nat.zero_add]
  rw [hsplit, runUntil_append (by rw [hpre]), hpre, runUntil_cons_exit hexit]

/-! ## Ascending index lists -/

/-- The indices of `[lo, hi)` at which `p` holds, ascending. -/
def indicesIn (p : ℕ → Bool) (lo hi : ℕ) : List ℕ := (List.range' lo (hi - lo)).filter p

variable {p : ℕ → Bool} {lo hi : ℕ}

theorem filter_range (p : ℕ → Bool) (n : ℕ) : (List.range n).filter p = indicesIn p 0 n := by
  rw [indicesIn, Nat.sub_zero, List.range_eq_range']

@[simp] theorem mem_indicesIn {i : ℕ} : i ∈ indicesIn p lo hi ↔ lo ≤ i ∧ i < hi ∧ p i = true := by
  have hrange : lo ≤ i ∧ i < lo + (hi - lo) ↔ lo ≤ i ∧ i < hi := by omega
  rw [indicesIn, List.mem_filter, List.mem_range'_1, hrange, and_assoc]

/-- No index of the range satisfies `p`. -/
theorem indicesIn_eq_nil (h : ∀ i, lo ≤ i → i < hi → p i = false) : indicesIn p lo hi = [] := by
  rw [List.eq_nil_iff_forall_not_mem]
  intro i hmem
  obtain ⟨hlo, hhi, hp⟩ := mem_indicesIn.mp hmem
  rw [h i hlo hhi] at hp
  cases hp

/-- `b` is the first index of the range that satisfies `p`. -/
theorem indicesIn_eq_cons {b : ℕ} (hlo : lo ≤ b) (hhi : b < hi) (hb : p b = true)
    (hbelow : ∀ i, lo ≤ i → i < b → p i = false) :
    indicesIn p lo hi = b :: indicesIn p (b + 1) hi := by
  have hsplit : List.range' lo (hi - lo) =
      List.range' lo (b - lo) ++ b :: List.range' (b + 1) (hi - (b + 1)) := by
    have hlen : hi - lo = (b - lo) + ((hi - (b + 1)) + 1) := by omega
    rw [hlen, ← List.range'_append_1, List.range'_succ]
    simp [Nat.add_sub_cancel' hlo]
  have hskip : (List.range' lo (b - lo)).filter p = [] := by
    rw [List.filter_eq_nil_iff]
    intro i hmem
    rw [List.mem_range'_1] at hmem
    simp [hbelow i hmem.1 (by omega)]
  rw [indicesIn, hsplit, List.filter_append, hskip, List.nil_append, List.filter_cons_of_pos hb]
  rfl

/-- A range cut in two. -/
theorem indicesIn_split {mid : ℕ} (hlo : lo ≤ mid) (hhi : mid ≤ hi) :
    indicesIn p lo hi = indicesIn p lo mid ++ indicesIn p mid hi := by
  have hrange :
      List.range' lo (hi - lo) = List.range' lo (mid - lo) ++ List.range' mid (hi - mid) := by
    have heq : hi - lo = (mid - lo) + (hi - mid) := by omega
    rw [heq, ← List.range'_append_1,
      Nat.add_sub_cancel' hlo]
  rw [indicesIn, hrange, List.filter_append]
  rfl

/-- Indices that `p` holds at only below `n` lie below `n`. -/
theorem indicesIn_eq_of_false {n : ℕ} (hlo : lo ≤ n) (hn : n ≤ hi)
    (h : ∀ i, n ≤ i → p i = false) : indicesIn p lo hi = indicesIn p lo n := by
  have hrest : indicesIn p n hi = [] := indicesIn_eq_nil fun i hni _ => h i hni
  rw [indicesIn_split hlo hn, hrest, List.append_nil]

theorem length_indicesIn_le {n : ℕ} (h : ∀ i, n ≤ i → p i = false) :
    (indicesIn p 0 hi).length ≤ n := by
  by_cases hn : n ≤ hi
  · rw [indicesIn_eq_of_false (Nat.zero_le n) hn h]
    exact Nat.le_trans (List.length_filter_le _ _) (by simp)
  · exact Nat.le_trans (List.length_filter_le _ _) (by simp; omega)

/-- The indices of an initial segment. -/
theorem length_indicesIn_eq {n : ℕ} (hn : n ≤ hi) (h : ∀ i, p i = decide (i < n)) :
    (indicesIn p 0 hi).length = n := by
  have hrest : ∀ i, n ≤ i → p i = false := fun i hni => by
    rw [h]
    exact decide_eq_false (by omega)
  rw [indicesIn_eq_of_false (Nat.zero_le n) hn hrest, indicesIn, List.filter_eq_self.mpr,
    List.length_range', Nat.sub_zero]
  intro i hi
  rw [List.mem_range'_1] at hi
  rw [h]
  exact decide_eq_true (by omega)

theorem pairwise_indicesIn : (indicesIn p lo hi).Pairwise (· < ·) :=
  List.Pairwise.filter p List.pairwise_lt_range'

/-- Indices without a gap. -/
theorem indicesIn_eq_range' {a n : ℕ}
    (h : ∀ i, (lo ≤ i ∧ i < hi ∧ p i = true) ↔ a ≤ i ∧ i < a + n) :
    indicesIn p lo hi = List.range' a n := by
  refine pairwise_indicesIn.eq_of_mem_iff List.pairwise_lt_range' fun i => ?_
  rw [mem_indicesIn, List.mem_range'_1, h]

/-- Some of the first elements is not above a given one. -/
theorem exists_mem_take_le {l : List ℕ} (hl : l.Pairwise (· < ·)) {i n : ℕ} (hi : i ∈ l)
    (hn : 0 < n) : ∃ a ∈ l.take n, a ≤ i := by
  obtain ⟨k, rfl⟩ : ∃ k, n = k + 1 := ⟨n - 1, by omega⟩
  cases l with
  | nil => cases hi
  | cons a l =>
    refine ⟨a, by rw [List.take_succ_cons]; exact List.mem_cons_self, ?_⟩
    rcases List.mem_cons.mp hi with rfl | hmem
    · exact le_refl _
    · exact Nat.le_of_lt ((List.pairwise_cons.mp hl).1 i hmem)

end Loops

/-!
# `switch` statements

The cases of a `switch`, each of which is built in or not, and what it does. Labels that
differ make the order of the cases immaterial (`switch_eq_of_mem`).
-/

namespace Switches

universe u v

/-- A case. -/
structure Case (κ : Type u) (α : Type v) where
  /-- The condition of the preprocessor around it. -/
  built : Bool
  label : κ
  act : α

variable {κ : Type u} {α : Type v} [DecidableEq κ]

/-- The first case with the label `k`. -/
def switch (k : κ) : List (Case κ α) → α → α
  | [], d => d
  | c :: cs, d => if c.built = true ∧ c.label = k then c.act else switch k cs d

variable {k : κ} {c : Case κ α} {cs : List (Case κ α)} {d : α}

/-- **What is done** is done by a case with the label, or by default where there is none. -/
theorem switch_cases (k : κ) (cs : List (Case κ α)) (d : α) :
    (∃ c ∈ cs, c.built = true ∧ c.label = k ∧ switch k cs d = c.act) ∨
      ((∀ c ∈ cs, c.built = true → c.label ≠ k) ∧ switch k cs d = d) := by
  induction cs with
  | nil => exact .inr ⟨fun c hc => absurd hc List.not_mem_nil, rfl⟩
  | cons c cs ih =>
    rw [switch]
    split_ifs with h
    · exact .inl ⟨c, List.mem_cons_self, h.1, h.2, rfl⟩
    · obtain ⟨c', hc', hbuilt, hlabel, hact⟩ | ⟨hnone, hdefault⟩ := ih
      · exact .inl ⟨c', List.mem_cons_of_mem _ hc', hbuilt, hlabel, hact⟩
      · refine .inr ⟨fun c' hc' hbuilt hlabel => ?_, hdefault⟩
        obtain rfl | hc' := List.mem_cons.mp hc'
        · exact h ⟨hbuilt, hlabel⟩
        · exact hnone c' hc' hbuilt hlabel

/-- A case is reached by its label. -/
theorem switch_eq_of_mem (hnodup : (cs.map Case.label).Nodup) (hc : c ∈ cs)
    (hbuilt : c.built = true) : switch c.label cs d = c.act := by
  obtain ⟨c', hc', -, hlabel, hact⟩ | ⟨hnone, -⟩ := switch_cases c.label cs d
  · rw [hact, List.inj_on_of_nodup_map hnodup hc' hc hlabel]
  · exact absurd rfl (hnone c hc hbuilt)

end Switches
