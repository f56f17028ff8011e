import ScBl.Pmu.Counters

/-!
# Starting and stopping counters

What `sbi_pmu_ctr_start` and `sbi_pmu_ctr_stop` come to as a whole. A call that
succeeds is one operation with the mask (`start_stop_exact`). One that fails may
have begun: the bits are checked one by one in the loop that already acts on
them, so the cycle counter is served before `TIME` is refused, and a failed call
changes nothing except for that (`failed_call_clean_iff`).
-/

namespace ScBl

open Loops Runs Words

variable {hw : PmuHw} {w : U64} {s : Pmu} {flags init : U64} {mip : ℕ → U64} {c : ℕ}

/-! ## Calls that fail -/

/-- The registers and the table are the same. -/
def Pmu.SameRegs (s s' : Pmu) : Prop :=
  s'.mcountinhibit = s.mcountinhibit ∧ s'.csr = s.csr ∧ s'.activeEvents = s.activeEvents

theorem Pmu.SameRegs.refl (s : Pmu) : s.SameRegs s := ⟨rfl, rfl, rfl⟩

/-- A start or a stop that answers `SBI_ERROR_INVALID_PARAM` changes nothing. -/
def FailsClean (hw : PmuHw) (s : Pmu) (e : PmuCall) : Prop :=
  match e with
  | .start .. | .stop .. =>
    ∀ out s', mcallExtPmu hw s e = some (sbiErrorInvalidParam, out, s') → s.SameRegs s'
  | _ => True

/-- The mask passes the checks before the loop, and has the cycle counter and
`TIME`. -/
def Pmu.StopsAtTime (s : Pmu) (ctrMask : U64) : Prop :=
  ¬ s.Refuses ctrMask ∧ ctrMask.getLsbD 0 = true ∧ ctrMask.getLsbD 1 = true

instance (s : Pmu) (ctrMask : U64) : Decidable (s.StopsAtTime ctrMask) := instDecidableAnd

/-- The call comes to `TIME` after it changed the cycle counter or its entry. -/
def PmuCall.SpoilsCycle (s : Pmu) : PmuCall → Prop
  | .start cbase cmask flags data1 _ =>
    s.StopsAtTime (shl cmask cbase) ∧ hasFlag flags sbiPmuStartFlagSetInitValue ∧
      s.csr csrMcycle ≠ data1
  | .stop cbase cmask flags =>
    s.StopsAtTime (shl cmask cbase) ∧ hasFlag flags sbiPmuStopFlagReset ∧
      s.activeEvents 0 ≠ sbiPmuEventNotSupp
  | _ => False

/-- The cycle counter is never inhibited, so its round of start writes the counter
and no more. -/
theorem ctrStartBody_zero_same (hs : s.Settled w) :
    s.SameRegs (ctrStartBody hw flags init mip 0 s).2 ↔
      (hasFlag flags sbiPmuStartFlagSetInitValue → s.csr csrMcycle = init) := by
  have hstarted : ((s.access (.acts 0)).withInit flags init 0).mcountinhibit.getLsbD 0 = false := by
    rw [(Pmu.withInit_spec flags init not_badBit_zero).2.1]
    exact hs.fixed.1
  have hround : (ctrStartBody hw flags init mip 0 s).2 =
      (s.access (.acts 0)).withInit flags init 0 := by
    rw [ctrStartBody_eq not_badBit_zero]
    simp only
    rw [if_pos hstarted]
  rw [hround, Pmu.SameRegs, Pmu.withInit]
  by_cases hinit : hasFlag flags sbiPmuStartFlagSetInitValue
  · rw [if_pos hinit, pmuWriteHwCtr_mcountinhibit, pmuWriteHwCtr_activeEvents,
      pmuWriteHwCtr_csr _ not_badBit_zero, if_pos (Nat.zero_le _)]
    have hsame : Function.update s.csr csrMcycle init = s.csr ↔ s.csr csrMcycle = init := by
      rw [Function.update_eq_self_iff, eq_comm]
    simpa [hinit, Pmu.access] using hsame
  · simp [hinit, Pmu.access]

/-- And its round of stop frees its entry and no more: the cycle counter is never inhibited and has
no event register. -/
theorem ctrStopBody_zero_same (hwr : hw.WritesMask w) (hs : s.Settled w) :
    s.SameRegs (ctrStopBody hw flags 0 s).2 ↔
      (hasFlag flags sbiPmuStopFlagReset → s.activeEvents 0 = sbiPmuEventNotSupp) := by
  have hfixed : (inhibitable w).getLsbD 0 = false := by
    rw [getLsbD_inhibitable, decide_eq_false (by omega), Bool.and_false]
  have hinh : ((s.access (.acts 0)).withInhibit hw 0).mcountinhibit = s.mcountinhibit := by
    obtain ⟨_, _, hctr⟩ := Pmu.withInhibit_spec (s := s.access (.acts 0)) hwr (hs.of_eq rfl rfl)
      (by decide : 0 < 64)
    refine BitVec.eq_of_getLsbD_eq fun i _ => ?_
    have hbit := congrArg PmuCtr.inhibited (hctr i)
    have hsame : (((s.access (.acts 0)).withInhibit hw 0).ctr i).inhibited =
        ((s.access (.acts 0)).ctr i).inhibited := by
      rw [hbit]
      split_ifs with hi
      · subst hi
        simp only [hfixed, Bool.or_false]
      · rfl
    exact hsame
  have hcsr : ((s.access (.acts 0)).withInhibit hw 0).csr = s.csr ∧
      ((s.access (.acts 0)).withInhibit hw 0).activeEvents = s.activeEvents := by
    rw [Pmu.withInhibit]
    split_ifs <;> exact ⟨rfl, rfl⟩
  rw [ctrStopBody_eq not_badBit_zero]
  simp only [Pmu.SameRegs]
  by_cases hreset : hasFlag flags sbiPmuStopFlagReset
  · have hskip : ∀ (event : U64) (s : Pmu), pmuSetHwEvent 0 event s = s :=
      fun _ _ => if_pos (.inl (by decide))
    rw [if_pos hreset, hskip]
    simp only [hreset, true_implies, Pmu.writeActive_mcountinhibit, hinh, true_and,
      Pmu.writeActive_activeEvents, hcsr.2, Function.update_eq_self_iff]
    have hwrite : (((s.access (.acts 0)).withInhibit hw 0).writeActive 0 sbiPmuEventNotSupp).csr =
        s.csr := hcsr.1
    rw [eq_comm (a := sbiPmuEventNotSupp)]
    exact and_iff_right hwrite
  · rw [if_neg hreset]
    simp [hinh, hcsr, hreset]

/-- What the state is after a call that does not accept its mask: as before, unless it has gone
through the cycle counter on the way to `TIME`. -/
theorem sameRegs_call_iff {body : ℕ → Pmu → Option ℤ × Pmu} {f : ℕ → PmuCtr → PmuCtr}
    (h : CtrRound w body f) (hs : s.Settled w) {cbase cmask : U64} {P : Prop}
    (hzero : s.SameRegs (body 0 s).2 ↔ P) :
    (∀ out s', forCounters cbase cmask body s = some (sbiErrorInvalidParam, out, s') →
        s.SameRegs s') ↔
      (s.StopsAtTime (shl cmask cbase) → P) := by
  rw [h.forCounters_eq hs]
  by_cases hacc : s.Accepts (shl cmask cbase)
  · have hnot : ¬ s.StopsAtTime (shl cmask cbase) := by
      rintro ⟨_, _, hone⟩
      rw [hacc.2] at hone
      cases hone
    rw [if_pos hacc]
    refine ⟨fun _ hstops => absurd hstops hnot, fun _ out s' heq => ?_⟩
    cases heq
  · rw [if_neg hacc, Pmu.taken_of_not_accepts hacc]
    have hstops : s.StopsAtTime (shl cmask cbase) ↔
        ¬ s.Refuses (shl cmask cbase) ∧ (shl cmask cbase).getLsbD 0 = true := by
      refine ⟨fun h => ⟨h.1, h.2.1⟩, fun h => ⟨h.1, h.2, ?_⟩⟩
      simpa using fun hone => hacc ⟨h.1, hone⟩
    by_cases htaken : ¬ s.Refuses (shl cmask cbase) ∧ (shl cmask cbase).getLsbD 0 = true
    · rw [if_pos htaken, runUntil_cons_next (h.next not_badBit_zero), runUntil_nil, ← hzero]
      refine ⟨fun hall _ => hall _ _ rfl, fun hP out s' heq => ?_⟩
      cases heq
      exact hP (hstops.mpr htaken)
    · rw [if_neg htaken, runUntil_nil]
      refine ⟨fun _ hstop => absurd (hstops.mp hstop) htaken, fun _ out s' heq => ?_⟩
      cases heq
      exact .refl s

/-- **A failed start or stop** changes nothing, in any state reached from
`hart_init`, unless its mask has the cycle counter and `TIME`: then the cycle
counter is written, or its entry freed, before the call fails. -/
theorem failed_call_clean_iff (hwr : hw.WritesMask w) (s₀ : Pmu) (havail : s₀.avail ≤ 32)
    (steps : List PmuStep) (e : PmuCall) :
    FailsClean hw (run hw.step (hartInit hw s₀) steps) e ↔
      ¬ e.SpoilsCycle (run hw.step (hartInit hw s₀) steps) := by
  have hs := settled_run hwr havail steps
  generalize run hw.step (hartInit hw s₀) steps = s at hs ⊢
  cases e with
  | start cbase cmask flags data1 mip =>
    refine (sameRegs_call_iff (startRound hwr) hs (ctrStartBody_zero_same hs)).trans ?_
    simp only [PmuCall.SpoilsCycle]
    tauto
  | stop cbase cmask flags =>
    refine (sameRegs_call_iff (stopRound hwr) hs (ctrStopBody_zero_same hwr hs)).trans ?_
    simp only [PmuCall.SpoilsCycle]
    tauto
  | _ => exact ⟨fun _ h => h, fun _ => trivial⟩

/-- A mask beyond the count is refused at once. -/
theorem failed_call_clean_above :
    FailsClean PmuHw.sample
      (run PmuHw.sample.step (hartInit PmuHw.sample Pmu.reset) [.call .numCtr])
      (.start 0#64 0x100#64 sbiPmuStartFlagSetInitValue 5#64 fun _ => 0#64) := by
  refine (failed_call_clean_iff PmuHw.sample_writesMask Pmu.reset (by decide) _ _).mpr ?_
  rintro ⟨hstops, _⟩
  exact absurd hstops (by decide +kernel)

/-- Start with mask 3: the cycle counter is 5 after the call has failed. -/
theorem failed_start_not_clean :
    ¬ FailsClean PmuHw.sample
      (run PmuHw.sample.step (hartInit PmuHw.sample Pmu.reset) [.call .numCtr])
      (.start 0#64 3#64 sbiPmuStartFlagSetInitValue 5#64 fun _ => 0#64) := by
  intro hclean
  have hsame := hclean 0#64 _ rfl
  have hcycle := congrFun hsame.2.1 csrMcycle
  exact absurd hcycle (by decide +kernel)

/-! ## Calls that succeed -/

/-- Between two states each counter of the mask was taken once, and no other. -/
def VisitsOnce (ctrMask : U64) (s s' : Pmu) : Prop :=
  ∃ l, s'.visited = s.visited ++ l ∧ ∀ c, l.count c = if ctrMask.getLsbD c then 1 else 0

theorem visitsOnce_of_accepts {s' : Pmu} {ctrMask : U64} (h : s.Accepts ctrMask)
    (hvisited : s'.visited = s.visited ++ s.taken ctrMask) : VisitsOnce ctrMask s s' := by
  refine ⟨_, hvisited, fun c => ?_⟩
  rw [(Pmu.nodup_taken ctrMask).count, Pmu.taken_of_accepts h]
  refine if_congr ⟨fun hc => (mem_indicesIn.mp hc).2.2, fun hc => ?_⟩ rfl rfl
  exact mem_indicesIn.mpr ⟨Nat.zero_le _, lt_of_getLsbD hc, hc⟩

/-- A call that succeeds has accepted its mask, since the code of the error is another one. -/
theorem accepts_of_success {ctrMask : U64} {out : U64} {s' s'' : Pmu}
    (h : some (if s.Accepts ctrMask then sbiErrorSuccess else sbiErrorInvalidParam, 0#64, s') =
      some (sbiErrorSuccess, out, s'')) : s.Accepts ctrMask ∧ s'' = s' := by
  by_cases hacc : s.Accepts ctrMask
  · rw [if_pos hacc] at h
    cases h
    exact ⟨hacc, rfl⟩
  · rw [if_neg hacc] at h
    cases h

/-- **A start that succeeds**, counter by counter: all counters of the mask are visited once, and no
other has changed. -/
theorem start_success (hwr : hw.WritesMask w) (hs : s.Settled w) {cbase cmask flags data1 : U64}
    {mip : ℕ → U64} {out : U64} {s' : Pmu}
    (h : mcallExtPmu hw s (.start cbase cmask flags data1 mip) = some (sbiErrorSuccess, out, s')) :
    s.Accepts (shl cmask cbase) ∧ VisitsOnce (shl cmask cbase) s s' ∧
      ∀ c, c < 64 → s'.ctr c =
        if (shl cmask cbase).getLsbD c then startCtr flags data1 mip c (s.ctr c)
        else s.ctr c := by
  obtain ⟨s'', heq, _, _, hvisited, hctr⟩ :=
    sbiPmuCtrStart_taken hwr hs cbase cmask flags data1 mip
  obtain ⟨hacc, rfl⟩ := accepts_of_success (heq.symm.trans h)
  refine ⟨hacc, visitsOnce_of_accepts hacc hvisited, fun c hc => ?_⟩
  rw [hctr c hc]
  exact if_congr (Pmu.mem_taken_of_accepts hacc) rfl rfl

/-- **A stop that succeeds**, counter by counter: all counters of the mask are visited once, and no
other has changed. -/
theorem stop_success (hwr : hw.WritesMask w) (hs : s.Settled w) {cbase cmask flags : U64}
    {out : U64} {s' : Pmu}
    (h : mcallExtPmu hw s (.stop cbase cmask flags) = some (sbiErrorSuccess, out, s')) :
    s.Accepts (shl cmask cbase) ∧ VisitsOnce (shl cmask cbase) s s' ∧
      ∀ c, c < 64 → s'.ctr c =
        if (shl cmask cbase).getLsbD c then stopCtr w flags c (s.ctr c) else s.ctr c := by
  obtain ⟨s'', heq, _, _, hvisited, hctr⟩ := sbiPmuCtrStop_taken hwr hs cbase cmask flags
  obtain ⟨hacc, rfl⟩ := accepts_of_success (heq.symm.trans h)
  refine ⟨hacc, visitsOnce_of_accepts hacc hvisited, fun c hc => ?_⟩
  rw [hctr c hc]
  exact if_congr (Pmu.mem_taken_of_accepts hacc) rfl rfl

/-- Start clears the bits of the mask in `mcountinhibit`. -/
theorem start_mcountinhibit {s' : Pmu} {ctrMask : U64}
    (hctr : ∀ c, c < 64 → s'.ctr c =
      if ctrMask.getLsbD c then startCtr flags init mip c (s.ctr c) else s.ctr c) :
    s'.mcountinhibit = s.mcountinhibit &&& ~~~ctrMask := by
  refine BitVec.eq_of_getLsbD_eq fun i hi => ?_
  have hbit : s'.mcountinhibit.getLsbD i = (s'.ctr i).inhibited := rfl
  rw [hbit, hctr i hi, BitVec.getLsbD_and, BitVec.getLsbD_not, decide_eq_true hi, Bool.true_and]
  rcases hmask : ctrMask.getLsbD i with _ | _
  · rw [if_neg (by decide), Bool.not_false, Bool.and_true]
    rfl
  · rw [if_pos rfl, Bool.not_true, Bool.and_false]
    rfl

/-- Stop sets them, where the register can be written: the cycle counter and the instruction counter
go on counting. -/
theorem stop_mcountinhibit (hs : s.Settled w) {s' : Pmu} {ctrMask : U64}
    (hwritable : ∀ c, c ≠ 0 → c ≠ 2 → ctrMask.getLsbD c = true → w.getLsbD c = true)
    (hctr : ∀ c, c < 64 → s'.ctr c =
      if ctrMask.getLsbD c then stopCtr w flags c (s.ctr c) else s.ctr c) :
    s'.mcountinhibit = pmuDfltEnMinh (s.mcountinhibit ||| ctrMask) := by
  refine BitVec.eq_of_getLsbD_eq fun i hi => ?_
  have hbit : s'.mcountinhibit.getLsbD i = (s'.ctr i).inhibited := rfl
  have hfixed : s.mcountinhibit.getLsbD i = true → i ≠ 0 ∧ i ≠ 2 := by
    intro hset
    have hle := hs.getLsbD_le hset
    rw [getLsbD_inhibitable, Bool.and_eq_true, decide_eq_true_eq] at hle
    exact hle.2
  have hdflt := getLsbD_inhibitable (s.mcountinhibit ||| ctrMask) i
  rw [inhibitable] at hdflt
  rw [hbit, hctr i hi, hdflt, BitVec.getLsbD_or]
  have hold : (s.ctr i).inhibited = s.mcountinhibit.getLsbD i := rfl
  rcases hmask : ctrMask.getLsbD i with _ | _
  · rw [if_neg (by decide), Bool.or_false, hold]
    rcases hinh : s.mcountinhibit.getLsbD i with _ | _
    · rfl
    · simp [hfixed hinh]
  · rw [if_pos rfl, Bool.or_true, Bool.true_and, stopCtr, hold, getLsbD_inhibitable]
    by_cases hi02 : i ≠ 0 ∧ i ≠ 2
    · simp [hi02, hwritable i hi02.1 hi02.2 hmask]
    · rcases hinh : s.mcountinhibit.getLsbD i with _ | _
      · simp [hi02]
      · exact absurd (hfixed hinh) hi02

/-- **Start and stop affect exactly the named counters.** After any run from
`hart_init`, with a register that can be written in the bits of the counted
counters: a start that succeeds clears the bits of the mask and, with
`SET_INIT_VALUE`, writes their counters and no other; a stop that succeeds sets
them, those of the cycle and the instruction counter apart, which are never set;
and each counter of the mask is visited once. -/
theorem start_stop_exact (hwr : hw.WritesMask w)
    (hwritable : ∀ c, 3 ≤ c → c < hw.numCtr → w.getLsbD c = true) (s₀ : Pmu)
    (havail : s₀.avail ≤ 32) (steps : List PmuStep) :
    let s := run hw.step (hartInit hw s₀) steps
    (s.mcountinhibit.getLsbD 0 = false ∧ s.mcountinhibit.getLsbD 2 = false) ∧
    (∀ cbase cmask flags data1 mip out s', cbase.toNat < 64 →
      mcallExtPmu hw s (.start cbase cmask flags data1 mip) = some (sbiErrorSuccess, out, s') →
      (∀ c, (cmask <<< cbase.toNat).getLsbD c = true → c < hw.numCtr) →
      s'.mcountinhibit = s.mcountinhibit &&& ~~~(cmask <<< cbase.toNat) ∧
        (∀ c ≤ pmuHwCtrMax, s'.csr (csrMcycle + c) =
          if hasFlag flags sbiPmuStartFlagSetInitValue ∧
              (cmask <<< cbase.toNat).getLsbD c then data1
          else s.csr (csrMcycle + c)) ∧
        VisitsOnce (cmask <<< cbase.toNat) s s') ∧
    (∀ cbase cmask flags out s', cbase.toNat < 64 →
      mcallExtPmu hw s (.stop cbase cmask flags) = some (sbiErrorSuccess, out, s') →
      (∀ c, (cmask <<< cbase.toNat).getLsbD c = true → c < hw.numCtr) →
      s'.mcountinhibit = (s.mcountinhibit ||| cmask <<< cbase.toNat) &&& ~~~5#64 ∧
        VisitsOnce (cmask <<< cbase.toNat) s s') := by
  have hs := settled_run hwr havail steps
  intro s
  refine ⟨hs.fixed, ?_, ?_⟩
  · intro cbase cmask flags data1 mip out s' hbase heq _
    obtain ⟨_, hvisits, hctr⟩ := start_success hwr hs heq
    rw [shl_of_lt hbase] at hvisits hctr
    refine ⟨start_mcountinhibit hctr, fun c hc => ?_, hvisits⟩
    have hc' : c ≤ 31 := hc
    have hvalue := congrArg PmuCtr.value (hctr c (by omega))
    by_cases hmask : (cmask <<< cbase.toNat).getLsbD c = true
    · rw [if_pos hmask] at hvalue
      refine hvalue.trans ?_
      exact if_congr (and_congr_right fun _ => ⟨fun _ => hmask, fun _ => hc⟩) rfl rfl
    · rw [if_neg hmask] at hvalue
      rw [if_neg fun h => hmask h.2]
      exact hvalue
  · intro cbase cmask flags out s' hbase heq hbelow
    obtain ⟨hacc, hvisits, hctr⟩ := stop_success hwr hs heq
    rw [shl_of_lt hbase] at hacc hvisits hctr
    refine ⟨stop_mcountinhibit hs (fun c h0 h2 hbit => hwritable c ?_ (hbelow c hbit)) hctr,
      hvisits⟩
    have hone : c ≠ 1 := by
      rintro rfl
      rw [hacc.2] at hbit
      cases hbit
    omega

/-- Counter 3 is configured, and then started with 7 or stopped. -/
theorem start_stop_exact_counter_three :
    let s := run PmuHw.sample.step (hartInit PmuHw.sample Pmu.reset)
      [.call .numCtr, .call (.cfgMatch 3#64 1#64 0#64 1#64 0#64)]
    let s' := PmuHw.sample.next s
      (.start 3#64 1#64 sbiPmuStartFlagSetInitValue 7#64 fun _ => 0#64)
    (s'.mcountinhibit = s.mcountinhibit &&& ~~~8#64 ∧ s'.csr (csrMcycle + 3) = 7#64) ∧
      (PmuHw.sample.next s (.stop 3#64 1#64 0#64)).mcountinhibit =
        (s.mcountinhibit ||| 8#64) &&& ~~~5#64 := by
  have hlt : ∀ c, ((1#64 : U64) <<< 3).getLsbD c = true → c < PmuHw.sample.numCtr := by
    intro c hc
    rw [getLsbD_one_shiftLeft (by decide), decide_eq_true_eq] at hc
    rw [hc]
    decide
  have hall : ∀ c, 3 ≤ c → c < PmuHw.sample.numCtr → (~~~0#64 : U64).getLsbD c = true := by
    intro c _ hc
    have hle := PmuHw.sample.numCtr_le
    rw [BitVec.getLsbD_not, BitVec.getLsbD_zero, Bool.not_false, Bool.and_true, decide_eq_true_eq]
    omega
  intro s s'
  have hstarts := PmuHw.sample.call_eq_next s
    (.start 3#64 1#64 sbiPmuStartFlagSetInitValue 7#64 fun _ => 0#64) sbiErrorSuccess 0#64
    (by decide +kernel)
  have hstops := PmuHw.sample.call_eq_next s (.stop 3#64 1#64 0#64)
    sbiErrorSuccess 0#64 (by decide +kernel)
  obtain ⟨_, hstart, hstop⟩ := start_stop_exact PmuHw.sample_writesMask hall Pmu.reset (by decide)
    [.call .numCtr, .call (.cfgMatch 3#64 1#64 0#64 1#64 0#64)]
  obtain ⟨hinh, hvalue, _⟩ := hstart _ _ _ _ _ _ _ (by decide) hstarts hlt
  exact ⟨⟨hinh, hvalue 3 (by decide)⟩, (hstop _ _ _ _ _ (by decide) hstops hlt).1⟩

end ScBl
