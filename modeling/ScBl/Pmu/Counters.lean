import ScBl.Pmu.Effects

/-!
# The core PMU, one counter at a time

What a call does to a counter is what it does to its bit of `mcountinhibit`, its
table entry and its two CSRs (`PmuCtr`). `sbi_pmu_ctr_start` and
`sbi_pmu_ctr_stop` walk a mask with read-modify-writes of `mcountinhibit`; here
each is an update of every counter of the mask and of no other
(`runUntil_ctrStart`, `runUntil_ctrStop`).

That needs a register which reads back what was in it: `mcountinhibit` is
settled from `hart_init` on (`Pmu.Settled`, `settled_run`).
-/

namespace ScBl

open Loops Runs Words

/-! ## The views -/

/-- What belongs to one counter. -/
structure PmuCtr where
  /-- Its bit of `mcountinhibit`. -/
  inhibited : Bool
  /-- Its entry of `active_events`. -/
  event : U64
  /-- The counter CSR. -/
  value : U64
  /-- The event CSR. -/
  selector : U64
  deriving DecidableEq, Repr

/-- Counter `c`. -/
def Pmu.ctr (s : Pmu) (c : ℕ) : PmuCtr where
  inhibited := s.mcountinhibit.getLsbD c
  event := s.activeEvents c
  value := s.csr (csrMcycle + c)
  selector := s.csr (csrMhpmevent3 + c - 3)

/-- The counters that calls took for good, in their order. -/
def Pmu.visited (s : Pmu) : List ℕ :=
  s.log.filterMap fun a =>
    match a with
    | .acts c => some c
    | _ => none

/-- `mcountinhibit` keeps the bits of `w` and reads zero in the others. -/
def PmuHw.WritesMask (hw : PmuHw) (w : U64) : Prop := ∀ v, hw.inhibit v = v &&& w

/-- On this hart all bits of `mcountinhibit` can be written. -/
theorem PmuHw.sample_writesMask : PmuHw.sample.WritesMask (~~~0#64) :=
  fun _ => BitVec.and_allOnes.symm

/-- The bits of `mcountinhibit` that the code can set. -/
def inhibitable (w : U64) : U64 := pmuDfltEnMinh w

/-- The count is that of a table, and `mcountinhibit` what the code wrote. -/
structure Pmu.Settled (w : U64) (s : Pmu) : Prop where
  avail_le : s.avail ≤ 32
  inhibit_eq : s.mcountinhibit &&& inhibitable w = s.mcountinhibit

variable {hw : PmuHw} {w : U64} {s : Pmu} {flags init : U64} {mip : ℕ → U64} {b c : ℕ}

/-- The mask that the code applies spares `MCYCLE` and `MINSTRET`. -/
theorem getLsbD_inhibitable (w : U64) (i : ℕ) :
    (inhibitable w).getLsbD i = (w.getLsbD i && decide (i ≠ 0 ∧ i ≠ 2)) := by
  by_cases hi : i < 64
  · have hfive : ∀ i < 64, (~~~5#64 : U64).getLsbD i = decide (i ≠ 0 ∧ i ≠ 2) := by decide
    rw [inhibitable, pmuDfltEnMinh, BitVec.getLsbD_and, hfive i hi]
  · rw [BitVec.getLsbD_of_ge _ _ (by omega), BitVec.getLsbD_of_ge w _ (by omega), Bool.false_and]

/-- Settled registers have set bits only where the code can set them. -/
theorem Pmu.Settled.getLsbD_le (hs : s.Settled w) {i : ℕ}
    (hi : s.mcountinhibit.getLsbD i = true) : (inhibitable w).getLsbD i = true := by
  have hbit := congrArg (fun m : U64 => m.getLsbD i) hs.inhibit_eq
  simp only [BitVec.getLsbD_and, hi, Bool.true_and] at hbit
  exact hbit

/-- The cycle counter and the instruction counter are never inhibited, since `PMU_DFLT_EN_MINH`
clears their bits in each value that is written. -/
theorem Pmu.Settled.fixed (hs : s.Settled w) :
    s.mcountinhibit.getLsbD 0 = false ∧ s.mcountinhibit.getLsbD 2 = false := by
  have hclear : ∀ i, (i = 0 ∨ i = 2) → s.mcountinhibit.getLsbD i = false := by
    intro i hi
    rw [Bool.eq_false_iff]
    intro hbit
    have hle := hs.getLsbD_le hbit
    rw [getLsbD_inhibitable, Bool.and_eq_true, decide_eq_true_eq] at hle
    omega
  exact ⟨hclear 0 (.inl rfl), hclear 2 (.inr rfl)⟩

/-- What is left of a value written to `mcountinhibit`. -/
theorem PmuHw.WritesMask.inhibit_dflt (hw' : hw.WritesMask w) (x : U64) :
    hw.inhibit (pmuDfltEnMinh x) = x &&& inhibitable w := by
  rw [hw', inhibitable, pmuDfltEnMinh, pmuDfltEnMinh]
  ac_rfl

/-- Whatever is written settles. -/
theorem PmuHw.WritesMask.settled (hw' : hw.WritesMask w) (havail : s.avail ≤ 32) (x : U64) :
    ({ s with mcountinhibit := hw.inhibit (pmuDfltEnMinh x) } : Pmu).Settled w where
  avail_le := havail
  inhibit_eq := by
    simp only [hw'.inhibit_dflt]
    rw [BitVec.and_assoc, BitVec.and_self]

/-- And what only changes other fields leaves it settled. -/
theorem Pmu.Settled.of_eq {s' : Pmu} (hs : s.Settled w) (hav : s'.avail = s.avail)
    (hinh : s'.mcountinhibit = s.mcountinhibit) : s'.Settled w where
  avail_le := hav.trans_le hs.avail_le
  inhibit_eq := by rw [hinh, hs.inhibit_eq]

/-! ## What the helpers do to a counter -/

/-- Counter `c` has an event CSR. -/
def Programmable (c : ℕ) : Prop := 3 ≤ c ∧ c ≤ pmuHwCtrMax

instance (c : ℕ) : Decidable (Programmable c) := instDecidableAnd

@[simp] theorem Pmu.ctr_access (a : PmuAccess) : (s.access a).ctr c = s.ctr c := rfl

@[simp] theorem Pmu.ctr_readActive (i : ℕ) : (s.readActive i).ctr c = s.ctr c := rfl

theorem Pmu.ctr_mcountinhibit (m : U64) :
    ({ s with mcountinhibit := m } : Pmu).ctr c = { s.ctr c with inhibited := m.getLsbD c } := rfl

/-- A store into the table changes the event of one counter. -/
theorem Pmu.ctr_writeActive (i : ℕ) (event : U64) :
    (s.writeActive i event).ctr c =
      if c = i then { s.ctr c with event := event } else s.ctr c := by
  by_cases hci : c = i
  · subst hci
    simp [Pmu.ctr, Pmu.writeActive, Pmu.access]
  · simp [Pmu.ctr, Pmu.writeActive, Pmu.access, hci]

/-- `mcountinhibit` has no case in `csr_write_num`. -/
@[simp] theorem csrWriteNum_mcountinhibit (n : ℕ) (val : U64) :
    (csrWriteNum n val s).mcountinhibit = s.mcountinhibit := by
  rw [csrWriteNum]
  split_ifs <;> rfl

/-- Of the CSRs only one with a case is written, and the others keep their value. -/
theorem csrWriteNum_csr (n : ℕ) (val : U64) :
    (csrWriteNum n val s).csr = if HasCsrCase n then Function.update s.csr n val else s.csr := by
  rw [csrWriteNum]
  split_ifs <;> rfl

@[simp] theorem pmuSetHwEvent_mcountinhibit (event : U64) :
    (pmuSetHwEvent c event s).mcountinhibit = s.mcountinhibit := by
  rw [pmuSetHwEvent]
  split_ifs <;> simp

@[simp] theorem pmuWriteHwCtr_mcountinhibit :
    (pmuWriteHwCtr c init s).mcountinhibit = s.mcountinhibit := by
  rw [pmuWriteHwCtr]
  split_ifs <;> simp

/-- For a counter that is there, its event CSR is written if it has one. -/
theorem pmuSetHwEvent_csr (havail : s.avail ≤ 32) (hb : b ≤ s.avail) (event : U64) :
    (pmuSetHwEvent b event s).csr =
      if Programmable b then Function.update s.csr (csrMhpmevent3 + b - 3) event else s.csr := by
  have hcase : HasCsrCase (csrMhpmevent3 + b - 3) ↔ 3 ≤ b ∧ b ≤ 31 := by
    rw [HasCsrCase, csrMhpmevent3]
    omega
  rw [pmuSetHwEvent]
  by_cases h3 : b < 3
  · have hnot : ¬ Programmable b := fun h => absurd h.1 (by omega)
    rw [if_pos (.inl h3), if_neg hnot]
  · rw [if_neg (by omega), csrWriteNum_csr]
    exact if_congr hcase rfl rfl

/-- For a counter that is there, its counter CSR is written up to `PMU_HW_CTR_MAX`. -/
theorem pmuWriteHwCtr_csr (init : U64) (hb : ¬ s.badBit b) :
    (pmuWriteHwCtr b init s).csr =
      if b ≤ pmuHwCtrMax then Function.update s.csr (csrMcycle + b) init else s.csr := by
  rw [Pmu.badBit] at hb
  have hcase : HasCsrCase (csrMcycle + b) ↔ b ≤ 31 := by
    rw [HasCsrCase, csrMcycle]
    omega
  rw [pmuWriteHwCtr, if_neg (by omega), csrWriteNum_csr]
  exact if_congr hcase rfl rfl

/-- The event CSRs are no counter CSRs. So in terms of counters a selector changes, and no value
does. -/
theorem pmuSetHwEvent_ctr (havail : s.avail ≤ 32) (hb : b ≤ s.avail) (hc : c < 64) (event : U64) :
    (pmuSetHwEvent b event s).ctr c =
      if c = b ∧ Programmable c then { s.ctr c with selector := event } else s.ctr c := by
  have hcsr := pmuSetHwEvent_csr havail hb event
  simp only [Pmu.ctr, pmuSetHwEvent_mcountinhibit, pmuSetHwEvent_activeEvents, hcsr]
  by_cases hprog : Programmable b
  · have hval : csrMcycle + c ≠ csrMhpmevent3 + b - 3 := by
      rw [csrMcycle, csrMhpmevent3]
      omega
    rw [if_pos hprog, Function.update_of_ne hval]
    by_cases hcb : c = b
    · subst hcb
      rw [if_pos ⟨rfl, hprog⟩, Function.update_self]
    · have hsel : csrMhpmevent3 + c - 3 ≠ csrMhpmevent3 + b - 3 := by
        rw [csrMhpmevent3]
        omega
      rw [if_neg (fun h => hcb h.1), Function.update_of_ne hsel]
  · have hnot : ¬ (c = b ∧ Programmable c) := fun h => hprog (h.1 ▸ h.2)
    rw [if_neg hprog, if_neg hnot]

/-- In terms of counters: one counter gets its value, and no other changes. -/
theorem pmuWriteHwCtr_ctr (hb : ¬ s.badBit b) (hc : c < 64) :
    (pmuWriteHwCtr b init s).ctr c =
      if c = b ∧ c ≤ pmuHwCtrMax then { s.ctr c with value := init } else s.ctr c := by
  have hcsr := pmuWriteHwCtr_csr init hb
  simp only [Pmu.ctr, pmuWriteHwCtr_mcountinhibit, pmuWriteHwCtr_activeEvents, hcsr]
  rw [Pmu.badBit] at hb
  by_cases hmax : b ≤ pmuHwCtrMax
  · have hsel : csrMhpmevent3 + c - 3 ≠ csrMcycle + b := by
      rw [csrMcycle, csrMhpmevent3]
      omega
    rw [if_pos hmax, Function.update_of_ne hsel]
    by_cases hcb : c = b
    · subst hcb
      rw [if_pos ⟨rfl, hmax⟩, Function.update_self]
    · have hval : csrMcycle + c ≠ csrMcycle + b := by omega
      rw [if_neg (fun h => hcb h.1), Function.update_of_ne hval]
  · have hnot : ¬ (c = b ∧ c ≤ pmuHwCtrMax) := fun h => hmax (h.1 ▸ h.2)
    rw [if_neg hmax, if_neg hnot]

/-- `sbi_pmu_ctr_cfg_match` stores the selector and programs it with the overflow
bit. -/
theorem cfgMatchCounter_ctr (havail : s.avail ≤ 32) (hb : b ≤ s.avail) (hc : c < 64)
    (flags selector : U64) :
    (cfgMatchCounter flags selector b s).2.2.ctr c =
      if c = b then
        { s.ctr c with
          event := sbiPmuApplyHwFlags flags selector
          selector :=
            if Programmable c then sbiPmuApplyHwFlags flags selector ||| mhpmeventOf
            else (s.ctr c).selector }
      else s.ctr c := by
  simp only [cfgMatchCounter]
  rw [pmuSetHwEvent_ctr (s := (s.access (.acts b)).writeActive b _) havail hb hc,
    Pmu.ctr_writeActive, Pmu.ctr_access]
  by_cases hcb : c = b
  · subst hcb
    by_cases hprog : Programmable c <;> simp [hprog]
  · rw [if_neg (fun h => hcb h.1), if_neg hcb, if_neg hcb]

/-! ## One round -/

/-- What `sbi_pmu_ctr_start` makes of counter `c`. -/
def startCtr (flags init : U64) (mip : ℕ → U64) (c : ℕ) (r : PmuCtr) : PmuCtr where
  inhibited := false
  event := r.event
  value :=
    if hasFlag flags sbiPmuStartFlagSetInitValue ∧ c ≤ pmuHwCtrMax then init else r.value
  selector :=
    if r.inhibited ∧ mip c &&& (1#64 <<< 13) = 0#64 ∧ Programmable c then r.event else r.selector

/-- The counter is written in any case. A counter that runs already is given the initial value
without a stop. -/
theorem startCtr_of_started {r : PmuCtr} (hr : r.inhibited = false) :
    startCtr flags init mip c r =
      if hasFlag flags sbiPmuStartFlagSetInitValue ∧ c ≤ pmuHwCtrMax then { r with value := init }
      else r := by
  obtain ⟨inhibited, event, value, selector⟩ := r
  obtain rfl : inhibited = false := hr
  by_cases hinit : hasFlag flags sbiPmuStartFlagSetInitValue ∧ c ≤ pmuHwCtrMax
  · simp [startCtr, hinit]
  · simp only [startCtr, if_neg hinit]
    simp

/-- What `sbi_pmu_ctr_stop` makes of counter `c`. -/
def stopCtr (w flags : U64) (c : ℕ) (r : PmuCtr) : PmuCtr where
  inhibited := r.inhibited || (inhibitable w).getLsbD c
  event := if hasFlag flags sbiPmuStopFlagReset then sbiPmuEventNotSupp else r.event
  value := r.value
  selector := if hasFlag flags sbiPmuStopFlagReset ∧ Programmable c then 0#64 else r.selector

/-- Clearing one bit of a settled register clears it and no other: the bits that `PMU_DFLT_EN_MINH`
clears are clear there already. -/
theorem getLsbD_clear (hwr : hw.WritesMask w) (hs : s.Settled w) (hb : b < 64) (c : ℕ) :
    (hw.inhibit (pmuDfltEnMinh (s.mcountinhibit &&& ~~~(1#64 <<< b)))).getLsbD c =
      (s.mcountinhibit.getLsbD c && !decide (c = b)) := by
  rw [hwr.inhibit_dflt, BitVec.getLsbD_and, getLsbD_and_not_oneBit hb]
  rcases hbit : s.mcountinhibit.getLsbD c with _ | _
  · simp
  · rw [hs.getLsbD_le hbit, Bool.and_true]
    simp

/-- Setting one bit sets it, if it can be set, and no other. -/
theorem getLsbD_set (hwr : hw.WritesMask w) (hs : s.Settled w) (hb : b < 64) (c : ℕ) :
    (hw.inhibit (pmuDfltEnMinh (s.mcountinhibit ||| (1#64 <<< b)))).getLsbD c =
      (s.mcountinhibit.getLsbD c || (decide (c = b) && (inhibitable w).getLsbD c)) := by
  rw [hwr.inhibit_dflt, BitVec.getLsbD_and, BitVec.getLsbD_or, getLsbD_one_shiftLeft hb]
  rcases hbit : s.mcountinhibit.getLsbD c with _ | _
  · simp
  · rw [hs.getLsbD_le hbit]
    simp

/-- The initial value is written, if `SET_INIT_VALUE` asks for it. -/
def Pmu.withInit (flags init : U64) (b : ℕ) (s : Pmu) : Pmu :=
  if hasFlag flags sbiPmuStartFlagSetInitValue then pmuWriteHwCtr b init s else s

/-- What the write of the initial value does to each counter. It depends on the flag of the call,
and on there being a CSR for the counter. -/
theorem Pmu.withInit_spec (flags init : U64) (hb : ¬ s.badBit b) :
    (s.withInit flags init b).avail = s.avail ∧
      (s.withInit flags init b).mcountinhibit = s.mcountinhibit ∧
      ∀ c, c < 64 → (s.withInit flags init b).ctr c =
        if c = b ∧ hasFlag flags sbiPmuStartFlagSetInitValue ∧ c ≤ pmuHwCtrMax then
          { s.ctr c with value := init }
        else s.ctr c := by
  rw [withInit]
  by_cases hinit : hasFlag flags sbiPmuStartFlagSetInitValue
  · rw [if_pos hinit]
    refine ⟨pmuWriteHwCtr_avail .., pmuWriteHwCtr_mcountinhibit, fun c hc => ?_⟩
    rw [pmuWriteHwCtr_ctr hb hc]
    simp [hinit]
  · simp [hinit]

/-- The stored event is programmed, unless an overflow interrupt is pending. -/
def Pmu.withEvent (mip : ℕ → U64) (b : ℕ) (s : Pmu) : Pmu :=
  if mip b &&& (1#64 <<< 13) = 0#64 then pmuSetHwEvent b (s.activeEvents b) (s.readActive b) else s

/-- What programming the event does to each counter. A counter with a pending overflow keeps the
selector that it had. -/
theorem Pmu.withEvent_spec (mip : ℕ → U64) (havail : s.avail ≤ 32) (hb : b ≤ s.avail) :
    (s.withEvent mip b).avail = s.avail ∧ (s.withEvent mip b).mcountinhibit = s.mcountinhibit ∧
      ∀ c, c < 64 → (s.withEvent mip b).ctr c =
        if c = b ∧ mip c &&& (1#64 <<< 13) = 0#64 ∧ Programmable c then
          { s.ctr c with selector := (s.ctr c).event }
        else s.ctr c := by
  rw [withEvent]
  by_cases hmip : mip b &&& (1#64 <<< 13) = 0#64
  · rw [if_pos hmip]
    refine ⟨pmuSetHwEvent_avail .., pmuSetHwEvent_mcountinhibit _, fun c hc => ?_⟩
    rw [pmuSetHwEvent_ctr (s := s.readActive b) havail hb hc, Pmu.ctr_readActive]
    by_cases hcb : c = b
    · subst hcb
      simp only [hmip, true_and]
      rfl
    · rw [if_neg (fun h => hcb h.1), if_neg (fun h => hcb h.1)]
  · rw [if_neg hmip]
    refine ⟨rfl, rfl, fun c _ => ?_⟩
    have hnot : ¬ (c = b ∧ mip c &&& (1#64 <<< 13) = 0#64 ∧ Programmable c) := by
      rintro ⟨rfl, hpend, _⟩
      exact hmip hpend
    rw [if_neg hnot]

/-- A round of the start is its parts in a row, once the bound test has passed. -/
theorem ctrStartBody_eq (hb : ¬ s.badBit b) :
    ctrStartBody hw flags init mip b s =
      let s₁ := (s.access (.acts b)).withInit flags init b
      if s₁.mcountinhibit.getLsbD b = false then (none, s₁)
      else
        (none, { s₁.withEvent mip b with
          mcountinhibit :=
            hw.inhibit (pmuDfltEnMinh (s₁.mcountinhibit &&& ~~~(1#64 <<< b))) }) := by
  rw [ctrStartBody, if_neg hb]
  rfl

/-- **A round of `sbi_pmu_ctr_start`** changes its counter only, and that as the abstract counter
says. Only the initial value is written whether or not the counter is inhibited. -/
theorem ctrStartBody_round (hwr : hw.WritesMask w) (hs : s.Settled w) (hb : ¬ s.badBit b) :
    ((ctrStartBody hw flags init mip b s).2.avail = s.avail ∧
        (ctrStartBody hw flags init mip b s).2.Settled w) ∧
      ∀ c, c < 64 → (ctrStartBody hw flags init mip b s).2.ctr c =
        if c = b then startCtr flags init mip c (s.ctr c) else s.ctr c := by
  have hble : b ≤ s.avail := by
    rw [Pmu.badBit] at hb
    omega
  have hlt : b < 64 := by
    have := hs.avail_le
    omega
  obtain ⟨hav, hinh, hctr⟩ := Pmu.withInit_spec (s := s.access (.acts b)) flags init hb
  rw [ctrStartBody_eq hb]
  generalize (s.access (.acts b)).withInit flags init b = s₁ at hav hinh hctr ⊢
  have hset : s₁.Settled w := hs.of_eq hav hinh
  have hbit : s₁.mcountinhibit.getLsbD b = (s.ctr b).inhibited := by
    rw [hinh]
    rfl
  simp only
  rw [hbit]
  rcases hstarted : (s.ctr b).inhibited with _ | _
  · -- already started
    rw [if_pos rfl]
    refine ⟨⟨hav, hset⟩, fun c hc => ?_⟩
    rw [hctr c hc]
    by_cases hcb : c = b
    · subst hcb
      rw [if_pos rfl, startCtr_of_started hstarted]
      simp
    · rw [if_neg (fun h => hcb h.1), if_neg hcb, Pmu.ctr_access]
  · rw [if_neg (by decide)]
    obtain ⟨hav₂, _, hctr₂⟩ := Pmu.withEvent_spec mip hset.avail_le (hav.symm ▸ hble)
    refine ⟨⟨hav₂.trans hav, hwr.settled (hav₂.trans_le hset.avail_le) _⟩, fun c hc => ?_⟩
    rw [Pmu.ctr_mcountinhibit, getLsbD_clear hwr hset hlt, hctr₂ c hc, hctr c hc]
    by_cases hcb : c = b
    · subst hcb
      simp only [startCtr, hstarted]
      split_ifs <;> simp_all
    · have hsame : (s₁.mcountinhibit.getLsbD c && !decide (c = b)) = (s.ctr c).inhibited := by
        rw [hinh]
        simp [hcb, Pmu.ctr]
      rw [hsame, if_neg (fun h => hcb h.1), if_neg (fun h => hcb h.1), if_neg hcb]
      rfl

/-- The counter is inhibited, if it is not. -/
def Pmu.withInhibit (hw : PmuHw) (b : ℕ) (s : Pmu) : Pmu :=
  if s.mcountinhibit.getLsbD b = false then
    { s with mcountinhibit := hw.inhibit (pmuDfltEnMinh (s.mcountinhibit ||| (1#64 <<< b))) }
  else s

/-- What setting the bit of `mcountinhibit` does to each counter. The code reads the register back,
so that a bit the hart does not have stays 0. -/
theorem Pmu.withInhibit_spec (hwr : hw.WritesMask w) (hs : s.Settled w) (hb : b < 64) :
    (s.withInhibit hw b).avail = s.avail ∧ (s.withInhibit hw b).Settled w ∧
      ∀ c, (s.withInhibit hw b).ctr c =
        if c = b then
          { s.ctr c with inhibited := (s.ctr c).inhibited || (inhibitable w).getLsbD c }
        else s.ctr c := by
  rw [withInhibit]
  by_cases hinh : s.mcountinhibit.getLsbD b = false
  · rw [if_pos hinh]
    refine ⟨rfl, hwr.settled hs.avail_le _, fun c => ?_⟩
    rw [Pmu.ctr_mcountinhibit, getLsbD_set hwr hs hb]
    by_cases hcb : c = b
    · subst hcb
      simp [Pmu.ctr]
    · simp [hcb, Pmu.ctr]
  · rw [if_neg hinh]
    refine ⟨rfl, hs, fun c => ?_⟩
    by_cases hcb : c = b
    · subst hcb
      simp only [Bool.not_eq_false] at hinh
      simp [Pmu.ctr, hinh]
    · rw [if_neg hcb]

/-- A round of the stop is its parts in a row. -/
theorem ctrStopBody_eq (hb : ¬ s.badBit b) :
    ctrStopBody hw flags b s =
      let s₁ := (s.access (.acts b)).withInhibit hw b
      if hasFlag flags sbiPmuStopFlagReset then
        (none, pmuSetHwEvent b 0#64 (s₁.writeActive b sbiPmuEventNotSupp))
      else (none, s₁) := by
  rw [ctrStopBody, if_neg hb]
  rfl

/-- **A round of `sbi_pmu_ctr_stop`** changes its counter only, and that as the abstract counter
says. The register stays settled, which the next round needs. -/
theorem ctrStopBody_round (hwr : hw.WritesMask w) (hs : s.Settled w) (hb : ¬ s.badBit b) :
    ((ctrStopBody hw flags b s).2.avail = s.avail ∧ (ctrStopBody hw flags b s).2.Settled w) ∧
      ∀ c, c < 64 → (ctrStopBody hw flags b s).2.ctr c =
        if c = b then stopCtr w flags c (s.ctr c) else s.ctr c := by
  have hble : b ≤ s.avail := by
    rw [Pmu.badBit] at hb
    omega
  have hlt : b < 64 := by
    have := hs.avail_le
    omega
  obtain ⟨hav, hset, hctr⟩ := Pmu.withInhibit_spec (s := s.access (.acts b)) hwr
    (hs.of_eq rfl rfl) hlt
  rw [ctrStopBody_eq hb]
  generalize (s.access (.acts b)).withInhibit hw b = s₁ at hav hset hctr ⊢
  simp only
  by_cases hreset : hasFlag flags sbiPmuStopFlagReset
  · rw [if_pos hreset]
    refine ⟨⟨by simpa using hav, hset.of_eq (by simp) (by simp)⟩, fun c hc => ?_⟩
    rw [pmuSetHwEvent_ctr (s := s₁.writeActive b _) hset.avail_le (hav.symm ▸ hble) hc,
      Pmu.ctr_writeActive, hctr c]
    by_cases hcb : c = b
    · subst hcb
      simp only [stopCtr, Pmu.ctr_access]
      split_ifs <;> simp_all
    · rw [if_neg (fun h => hcb h.1), if_neg hcb, if_neg hcb, if_neg hcb, Pmu.ctr_access]
  · rw [if_neg hreset]
    refine ⟨⟨hav, hset⟩, fun c _ => ?_⟩
    rw [hctr c]
    by_cases hcb : c = b
    · simp [hcb, stopCtr, hreset]
    · rw [if_neg hcb, if_neg hcb, Pmu.ctr_access]

/-! ## What is visited -/

/-- A counter is visited where a round takes it for good. -/
theorem Pmu.visited_acts (c : ℕ) : (s.access (.acts c)).visited = s.visited ++ [c] := by
  simp [visited, access]

@[simp] theorem Pmu.visited_readActive (i : ℕ) : (s.readActive i).visited = s.visited := by
  simp [visited, readActive, access]

@[simp] theorem Pmu.visited_writeActive (i : ℕ) (event : U64) :
    (s.writeActive i event).visited = s.visited := by
  simp [visited, writeActive, access]

@[simp] theorem visited_csrWriteNum (n : ℕ) (val : U64) :
    (csrWriteNum n val s).visited = s.visited := by
  rw [csrWriteNum]
  split_ifs <;> simp [Pmu.visited, Pmu.access]

@[simp] theorem visited_pmuSetHwEvent (event : U64) :
    (pmuSetHwEvent c event s).visited = s.visited := by
  rw [pmuSetHwEvent]
  split_ifs <;> simp

@[simp] theorem visited_pmuWriteHwCtr : (pmuWriteHwCtr c init s).visited = s.visited := by
  rw [pmuWriteHwCtr]
  split_ifs <;> simp

/-- A round of the start visits its counter and no other. -/
theorem ctrStartBody_visited (hb : ¬ s.badBit b) :
    (ctrStartBody hw flags init mip b s).2.visited = s.visited ++ [b] := by
  have hinit : ((s.access (.acts b)).withInit flags init b).visited = s.visited ++ [b] := by
    rw [Pmu.withInit]
    split_ifs <;> simp [Pmu.visited_acts]
  have hevent : ∀ s : Pmu, (s.withEvent mip b).visited = s.visited := by
    intro s
    rw [Pmu.withEvent]
    split_ifs <;> simp
  rw [ctrStartBody_eq hb, ← hinit]
  simp only
  split_ifs
  · rfl
  · exact hevent _

/-- So does a round of the stop. -/
theorem ctrStopBody_visited (hb : ¬ s.badBit b) :
    (ctrStopBody hw flags b s).2.visited = s.visited ++ [b] := by
  have hinh : ((s.access (.acts b)).withInhibit hw b).visited = s.visited ++ [b] := by
    rw [← Pmu.visited_acts, Pmu.withInhibit]
    split_ifs <;> rfl
  rw [ctrStopBody_eq hb, ← hinh]
  simp only
  split_ifs <;> simp

/-! ## A whole call -/

/-- The mask is refused before the loop. -/
def Pmu.Refuses (s : Pmu) (ctrMask : U64) : Prop := ctrMask = 0#64 ∨ s.avail < sbiFls ctrMask

instance (s : Pmu) (ctrMask : U64) : Decidable (s.Refuses ctrMask) := instDecidableOr

/-- The loop goes through the whole mask: it is not refused, and `TIME` is not
in it. -/
def Pmu.Accepts (s : Pmu) (ctrMask : U64) : Prop :=
  ¬ s.Refuses ctrMask ∧ ctrMask.getLsbD 1 = false

instance (s : Pmu) (ctrMask : U64) : Decidable (s.Accepts ctrMask) := instDecidableAnd

/-- The counters that the loop takes: those of the mask, or those before `TIME`
if the mask has it. -/
def Pmu.taken (s : Pmu) (ctrMask : U64) : List ℕ :=
  if s.Refuses ctrMask then []
  else indicesIn ctrMask.getLsbD 0 (if ctrMask.getLsbD 1 then 1 else 64)

/-- A mask that is accepted is gone through as a whole. -/
theorem Pmu.taken_of_accepts {ctrMask : U64} (h : s.Accepts ctrMask) :
    s.taken ctrMask = indicesIn ctrMask.getLsbD 0 64 := by
  rw [taken, if_neg h.1, h.2, if_neg (by decide)]

/-- A mask that is not accepted is walked up to the cycle counter at most: counter 1, which makes
the call fail, is the next one. -/
theorem Pmu.taken_of_not_accepts {ctrMask : U64} (h : ¬ s.Accepts ctrMask) :
    s.taken ctrMask =
      if ¬ s.Refuses ctrMask ∧ ctrMask.getLsbD 0 = true then [0] else [] := by
  rw [taken]
  by_cases href : s.Refuses ctrMask
  · rw [if_pos href, if_neg (fun h => h.1 href)]
  · have hone : ctrMask.getLsbD 1 = true := by
      simpa using fun hone => h ⟨href, hone⟩
    rw [if_neg href, hone, if_pos rfl]
    by_cases hzero : ctrMask.getLsbD 0 = true
    · rw [if_pos ⟨href, hzero⟩, indicesIn_eq_cons (le_refl 0) (by decide) hzero (by omega)]
      rfl
    · rw [if_neg (fun h => hzero h.2)]
      refine indicesIn_eq_nil fun i _ hi => ?_
      obtain rfl : i = 0 := by omega
      simpa using hzero

/-- No counter is taken that the mask does not have, or the hart. A refused call takes none at all.
-/
theorem Pmu.mem_taken {ctrMask : U64} (hc : c ∈ s.taken ctrMask) :
    ¬ s.Refuses ctrMask ∧ ctrMask.getLsbD c = true ∧ ¬ s.badBit c := by
  rw [taken] at hc
  by_cases href : s.Refuses ctrMask
  · rw [if_pos href] at hc
    cases hc
  rw [if_neg href] at hc
  obtain ⟨_, hlt, hbit⟩ := mem_indicesIn.mp hc
  have hle := le_sbiFls hbit
  refine ⟨href, hbit, ?_⟩
  rintro (hgt | rfl)
  · exact href (.inr (by omega))
  · rw [if_pos hbit] at hlt
    omega

/-- The counters taken from an accepted mask are its set bits. -/
theorem Pmu.mem_taken_of_accepts {ctrMask : U64} (h : s.Accepts ctrMask) :
    c ∈ s.taken ctrMask ↔ ctrMask.getLsbD c = true := by
  rw [taken_of_accepts h, mem_indicesIn]
  exact ⟨fun hc => hc.2.2, fun hc => ⟨Nat.zero_le _, lt_of_getLsbD hc, hc⟩⟩

/-- Beyond the cycle counter, nothing is taken from a mask that is not accepted. -/
theorem Pmu.mem_taken_iff (s : Pmu) (ctrMask : U64) (hc : c ≠ 0) :
    c ∈ s.taken ctrMask ↔ s.Accepts ctrMask ∧ ctrMask.getLsbD c = true := by
  by_cases hacc : s.Accepts ctrMask
  · rw [mem_taken_of_accepts hacc, and_iff_right hacc]
  · rw [taken_of_not_accepts hacc]
    refine ⟨fun hmem => ?_, fun h => absurd h.1 hacc⟩
    split_ifs at hmem
    · exact absurd (List.mem_singleton.mp hmem) hc
    · cases hmem

/-- No counter is taken twice. -/
theorem Pmu.nodup_taken (ctrMask : U64) : (s.taken ctrMask).Nodup := by
  rw [taken]
  split_ifs
  · exact List.nodup_nil
  · exact pairwise_indicesIn.imp fun h => Nat.ne_of_lt h
  · exact pairwise_indicesIn.imp fun h => Nat.ne_of_lt h

/-- A round that leaves at `TIME`, and for any other counter goes on, marks it and
changes it by `f`, and no other. -/
structure CtrRound (w : U64) (body : ℕ → Pmu → Option ℤ × Pmu) (f : ℕ → PmuCtr → PmuCtr) :
    Prop where
  one : ∀ s, body 1 s = (some sbiErrorInvalidParam, s)
  next : ∀ {b} {s : Pmu}, ¬ s.badBit b → (body b s).1 = none
  visited : ∀ {b} {s : Pmu}, ¬ s.badBit b → (body b s).2.visited = s.visited ++ [b]
  ctr : ∀ {b} {s : Pmu}, s.Settled w → ¬ s.badBit b →
    ((body b s).2.avail = s.avail ∧ (body b s).2.Settled w) ∧
      ∀ c, c < 64 → (body b s).2.ctr c = if c = b then f c (s.ctr c) else s.ctr c

/-- The start, as a round. -/
theorem startRound (hwr : hw.WritesMask w) :
    CtrRound w (ctrStartBody hw flags init mip) (startCtr flags init mip) where
  one _ := ctrStartBody_one
  next := ctrStartBody_fst
  visited := ctrStartBody_visited
  ctr := ctrStartBody_round hwr

/-- The stop, as a round. -/
theorem stopRound (hwr : hw.WritesMask w) :
    CtrRound w (ctrStopBody hw flags) (stopCtr w flags) where
  one _ := ctrStopBody_one
  next := ctrStopBody_fst
  visited := ctrStopBody_visited
  ctr := ctrStopBody_round hwr

namespace CtrRound

variable {body : ℕ → Pmu → Option ℤ × Pmu} {f : ℕ → PmuCtr → PmuCtr}

/-- **The loop** over distinct counters updates each of them once. By induction on the counters:
what a round leaves settled is what the next one asks for. -/
theorem loop (h : CtrRound w body f) (hs : s.Settled w) {l : List ℕ} (hl : l.Nodup)
    (hgood : ∀ b ∈ l, ¬ s.badBit b) :
    (runUntil body l s).1 = none ∧
      ((runUntil body l s).2.avail = s.avail ∧ (runUntil body l s).2.Settled w) ∧
      (runUntil body l s).2.visited = s.visited ++ l ∧
      ∀ c, c < 64 → (runUntil body l s).2.ctr c = if c ∈ l then f c (s.ctr c) else s.ctr c := by
  have hround : ∀ b ∈ l, ∀ s' : Pmu, s'.avail = s.avail ∧ s'.Settled w → ¬ s'.badBit b := by
    rintro b hb s' ⟨hav, _⟩
    rw [Pmu.badBit, hav]
    exact hgood b hb
  obtain ⟨hnone, hinv, hctr⟩ := runUntil_view (K := (· < 64))
    (fun s' : Pmu => s'.avail = s.avail ∧ s'.Settled w) (fun c (s' : Pmu) => s'.ctr c) f hl
    (fun b hb s' hs' => by
      have hb' := hround b hb s' hs'
      obtain ⟨⟨hav, hset⟩, hone⟩ := h.ctr hs'.2 hb'
      exact ⟨h.next hb', ⟨hav.trans hs'.1, hset⟩, hone⟩) ⟨rfl, hs⟩
  refine ⟨hnone, hinv, ?_, hctr⟩
  refine runUntil_trace (fun s' : Pmu => s'.avail = s.avail ∧ s'.Settled w) Pmu.visited
    (fun b hb s' hs' => ?_) ⟨rfl, hs⟩
  have hb' := hround b hb s' hs'
  obtain ⟨⟨hav, hset⟩, _⟩ := h.ctr hs'.2 hb'
  exact ⟨h.next hb', ⟨hav.trans hs'.1, hset⟩, h.visited hb'⟩

/-- The result of a call, and its state as that of the loop over the counters it
takes. -/
theorem forCounters_eq (h : CtrRound w body f) (hs : s.Settled w) (cbase cmask : U64) :
    forCounters cbase cmask body s =
      some (if s.Accepts (shl cmask cbase) then sbiErrorSuccess else sbiErrorInvalidParam, 0#64,
        (runUntil body (s.taken (shl cmask cbase)) s).2) := by
  by_cases href : s.Refuses (shl cmask cbase)
  · rw [forCounters_of_refused href, if_neg (fun hacc => hacc.1 href), Pmu.taken, if_pos href]
    rfl
  obtain ⟨hnz, hfls⟩ := not_or.mp href
  rw [ScBl.forCounters_eq body hs.avail_le hnz (by omega)]
  rcases hbit : (shl cmask cbase).getLsbD 1 with _ | _
  · have hacc : s.Accepts (shl cmask cbase) := ⟨href, hbit⟩
    obtain ⟨hnone, _⟩ := h.loop hs (Pmu.nodup_taken _) fun b hb => (Pmu.mem_taken hb).2.2
    rw [Pmu.taken_of_accepts hacc] at hnone ⊢
    rw [hnone, if_pos hacc]
    rfl
  · have hacc : ¬ s.Accepts (shl cmask cbase) := by
      rintro ⟨_, hone⟩
      rw [hbit] at hone
      cases hone
    rw [if_neg hacc, Pmu.taken, if_neg href, hbit, if_pos rfl,
      runUntil_of_bit_one hbit (fun _ => h.next not_badBit_zero) h.one]
    rfl

/-- **A call** updates the counters it takes, each once. A call that is refused takes none, and one
that fails at counter 1 has taken counter 0 before. -/
theorem call (h : CtrRound w body f) (hs : s.Settled w) (cbase cmask : U64) :
    ∃ s', forCounters cbase cmask body s =
        some (if s.Accepts (shl cmask cbase) then sbiErrorSuccess else sbiErrorInvalidParam, 0#64,
          s') ∧
      s'.avail = s.avail ∧ s'.Settled w ∧ s'.visited = s.visited ++ s.taken (shl cmask cbase) ∧
      ∀ c, c < 64 →
        s'.ctr c = if c ∈ s.taken (shl cmask cbase) then f c (s.ctr c) else s.ctr c := by
  obtain ⟨_, ⟨hav, hset⟩, hvisited, hctr⟩ :=
    h.loop hs (Pmu.nodup_taken (shl cmask cbase)) fun b hb => (Pmu.mem_taken hb).2.2
  exact ⟨_, h.forCounters_eq hs cbase cmask, hav, hset, hvisited, hctr⟩

end CtrRound

/-- **`sbi_pmu_ctr_start`**, counter by counter: the answer, the counters that the loop goes
through, and what becomes of each. -/
theorem sbiPmuCtrStart_taken (hwr : hw.WritesMask w) (hs : s.Settled w)
    (cbase cmask flags data1 : U64) (mip : ℕ → U64) :
    ∃ s', mcallExtPmu hw s (.start cbase cmask flags data1 mip) =
        some (if s.Accepts (shl cmask cbase) then sbiErrorSuccess else sbiErrorInvalidParam, 0#64,
          s') ∧
      s'.avail = s.avail ∧ s'.Settled w ∧ s'.visited = s.visited ++ s.taken (shl cmask cbase) ∧
      ∀ c, c < 64 → s'.ctr c =
        if c ∈ s.taken (shl cmask cbase) then startCtr flags data1 mip c (s.ctr c) else s.ctr c :=
  (startRound hwr).call hs cbase cmask

/-- **`sbi_pmu_ctr_stop`**, counter by counter: the answer, the counters that the loop goes through,
and what becomes of each. -/
theorem sbiPmuCtrStop_taken (hwr : hw.WritesMask w) (hs : s.Settled w) (cbase cmask flags : U64) :
    ∃ s', mcallExtPmu hw s (.stop cbase cmask flags) =
        some (if s.Accepts (shl cmask cbase) then sbiErrorSuccess else sbiErrorInvalidParam, 0#64,
          s') ∧
      s'.avail = s.avail ∧ s'.Settled w ∧ s'.visited = s.visited ++ s.taken (shl cmask cbase) ∧
      ∀ c, c < 64 → s'.ctr c =
        if c ∈ s.taken (shl cmask cbase) then stopCtr w flags c (s.ctr c) else s.ctr c :=
  (stopRound hwr).call hs cbase cmask

/-- A call and the state after it, from what the call answers. -/
theorem PmuHw.call_eq_next (hw : PmuHw) (s : Pmu) (e : PmuCall) (ret : ℤ) (out : U64)
    (h : (mcallExtPmu hw s e).map (fun r => (r.1, r.2.1)) = some (ret, out)) :
    mcallExtPmu hw s e = some (ret, out, hw.next s e) := by
  obtain ⟨⟨ret', out', s'⟩, heq, hret⟩ := Option.map_eq_some_iff.mp h
  simp only [Prod.mk.injEq] at hret
  obtain ⟨rfl, rfl⟩ := hret
  rw [PmuHw.next_eq heq, heq]

/-! ## From `hart_init` on -/

/-- `hart_init`, as far as the PMU is concerned, with `pmu_hart_init`. -/
def hartInit (hw : PmuHw) (s : Pmu) : Pmu :=
  pmuHartInit { s with mcountinhibit := hw.inhibit (pmuDfltEnMinh (~~~0#64)) }

/-- What happens on a hart: a call, counters counting on, an overflow. -/
inductive PmuStep
  | call (e : PmuCall)
  /-- The counter CSRs now have these values. -/
  | count (values : ℕ → U64)
  /-- The overflow bit of the event CSR of a counter that has an event. -/
  | overflow (c : ℕ) (bit : Bool)

/-- The state after a step. -/
def PmuHw.step (hw : PmuHw) (s : Pmu) : PmuStep → Pmu
  | .call e => hw.next s e
  | .count values => { s with csr := fun n =>
      if csrMcycle ≤ n ∧ n ≤ csrMcycle + pmuHwCtrMax then values (n - csrMcycle) else s.csr n }
  | .overflow c bit =>
    let n := csrMhpmevent3 + c - 3
    if Programmable c ∧ s.csr n ≠ 0#64 then
      { s with
        csr := Function.update s.csr n
          (if bit then s.csr n ||| mhpmeventOf else s.csr n &&& ~~~mhpmeventOf) }
    else s

/-- `hart_init` settles the registers. -/
theorem settled_hartInit (hwr : hw.WritesMask w) (havail : s.avail ≤ 32) :
    (hartInit hw s).Settled w :=
  (hwr.settled havail _).of_eq rfl rfl

/-- **Every step** keeps `mcountinhibit` settled: only calls write the register, and they clear the
two bits in what they write. -/
theorem settled_step (hwr : hw.WritesMask w) (hs : s.Settled w) (e : PmuStep) :
    (hw.step s e).Settled w := by
  have hav := hs.avail_le
  cases e with
  | call e =>
    rw [PmuHw.step]
    cases e with
    | numCtr =>
      rw [PmuHw.next_eq (sbiPmuNumCtr_eq hw s)]
      exact ⟨hw.numCtr_le, hs.inhibit_eq⟩
    | getInfo cidx =>
      simp only [PmuHw.next, mcallExtPmu, sbiPmuCtrGetInfo]
      split_ifs
      · exact hs
      · exact hs.of_eq rfl rfl
    | cfgMatch cidxBase cidxMask flags eventIdx data1 =>
      obtain ⟨log, ⟨ret, _, heq, _⟩ | ⟨c, selector, _, _, heq⟩⟩ :=
        sbiPmuCtrCfgMatch_eq hw hav cidxBase cidxMask flags eventIdx data1
      · rw [PmuHw.next_eq heq]
        exact hs.of_eq rfl rfl
      · rw [PmuHw.next_eq heq]
        exact hs.of_eq (cfgMatchCounter_avail ..) (by simp)
    | start cbase cmask flags data1 mip =>
      obtain ⟨s', heq, _, hset, _⟩ := sbiPmuCtrStart_taken hwr hs cbase cmask flags data1 mip
      rw [PmuHw.next_eq heq]
      exact hset
    | stop cbase cmask flags =>
      obtain ⟨s', heq, _, hset, _⟩ := sbiPmuCtrStop_taken hwr hs cbase cmask flags
      rw [PmuHw.next_eq heq]
      exact hset
  | count values => exact hs.of_eq rfl rfl
  | overflow c bit =>
    simp only [PmuHw.step]
    by_cases hevent : Programmable c ∧ s.csr (csrMhpmevent3 + c - 3) ≠ 0#64
    · rw [if_pos hevent]
      exact hs.of_eq rfl rfl
    · rw [if_neg hevent]
      exact hs

/-- They stay settled over any steps: calls, counting and overflows. -/
theorem settled_run (hwr : hw.WritesMask w) (havail : s.avail ≤ 32) (steps : List PmuStep) :
    (run hw.step (hartInit hw s) steps).Settled w :=
  run_inv (fun s : Pmu => s.Settled w) (fun _ e hs => settled_step hwr hs e)
    (settled_hartInit hwr havail)

end ScBl
