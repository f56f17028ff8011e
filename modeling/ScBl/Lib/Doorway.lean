import Mathlib.Tactic.ByContra

/-!
# Mutual exclusion behind a doorway

Parties go inside through a doorway and enter a critical section from there.
Before it enters, a party waits for some of the others, which depends on the two
(`tests p q`), until they are outside. This alone does not exclude anybody: a
party may go inside while another one, which has found it outside, is in the
critical section. `Move` says what the doorway has to see to, and `Clear` is the
invariant that results.
-/

namespace Doorway

universe u v

variable {ι : Type u} {σ : Type v}

/-- How parties stand to each other: who is inside, who is in the critical
section, and who waits for whom before entering it. -/
structure Protocol (ι : Type u) (σ : Type v) where
  inside : σ → ι → Prop
  critical : σ → ι → Prop
  tests : ι → ι → Prop

variable (P : Protocol ι σ)

/-- Party `h` may go inside: nobody that waits for it is in the critical section,
and nobody is inside where neither waits for the other. -/
def Protocol.Free (s : σ) (h : ι) : Prop :=
  ∀ q, q ≠ h → (P.tests q h → ¬ P.critical s q) ∧
    (¬ P.tests q h → ¬ P.tests h q → ¬ P.inside s q)

/-- What a step of party `h` may do. -/
structure Protocol.Move (h : ι) (s s' : σ) : Prop where
  frame_inside : ∀ q, q ≠ h → P.inside s' q → P.inside s q
  frame_critical : ∀ q, q ≠ h → P.critical s' q → P.critical s q
  /-- It goes inside when it is free to. -/
  door : P.inside s' h → P.inside s h ∨ P.Free s h
  /-- It enters when everybody it waits for is outside. -/
  enter : P.critical s' h → P.critical s h ∨ ∀ q, P.tests h q → ¬ P.inside s q

/-- While a party is in the critical section, those it waits for are outside, and
of two that do not wait for each other one is outside. -/
structure Protocol.Clear (s : σ) : Prop where
  tested : ∀ p q, p ≠ q → P.tests q p → P.critical s q → ¬ P.inside s p
  untested : ∀ p q, p ≠ q → ¬ P.tests q p → ¬ P.tests p q → P.inside s p → ¬ P.inside s q

variable {P} {s s' : σ} {h : ι}

theorem Protocol.Move.clear (hmove : P.Move h s s') (hclear : P.Clear s) : P.Clear s' := by
  refine ⟨?_, ?_⟩
  · intro p q hpq htests hcritical hinside
    by_cases hp : p = h
    · -- the other one does not move, so it was in the critical section before
      subst hp
      have hq := hmove.frame_critical q (Ne.symm hpq) hcritical
      rcases hmove.door hinside with hin | hfree
      · exact hclear.tested p q hpq htests hq hin
      · exact (hfree q (Ne.symm hpq)).1 htests hq
    · have hin := hmove.frame_inside p hp hinside
      by_cases hq : q = h
      · subst hq
        rcases hmove.enter hcritical with hcrit | hout
        · exact hclear.tested p q hpq htests hcrit hin
        · exact hout p htests hin
      · exact hclear.tested p q hpq htests (hmove.frame_critical q hq hcritical) hin
  · intro p q hpq hqp hpq' hp hq
    by_cases hph : p = h
    · subst hph
      have hin := hmove.frame_inside q (Ne.symm hpq) hq
      rcases hmove.door hp with hin' | hfree
      · exact hclear.untested p q hpq hqp hpq' hin' hin
      · exact (hfree q (Ne.symm hpq)).2 hqp hpq' hin
    · have hin := hmove.frame_inside p hph hp
      by_cases hqh : q = h
      · subst hqh
        rcases hmove.door hq with hin' | hfree
        · exact hclear.untested p q hpq hqp hpq' hin hin'
        · exact (hfree p hpq).2 hpq' hqp hin
      · exact hclear.untested p q hpq hqp hpq' hin (hmove.frame_inside q hqh hq)

/-- **Mutual exclusion**, where who is in the critical section is inside. -/
theorem Protocol.Clear.exclusive (hclear : P.Clear s)
    (hinside : ∀ p, P.critical s p → P.inside s p) {p q : ι} (hp : P.critical s p)
    (hq : P.critical s q) : p = q := by
  by_contra hpq
  by_cases hqp : P.tests q p
  · exact hclear.tested p q hpq hqp hq (hinside p hp)
  · by_cases hpq' : P.tests p q
    · exact hclear.tested q p (Ne.symm hpq) hpq' hp (hinside q hq)
    · exact hclear.untested p q hpq hqp hpq' (hinside p hp) (hinside q hq)

end Doorway
