import ScBl.Pmu.Effects

/-!
# A core counter has one user

`active_events` says which counters are taken: an entry other than
`SBI_PMU_EVENT_NOT_SUPP` is. So `sbi_pmu_ctr_cfg_match` hands a counter out once
until it is released (`pmu_exclusive`), as long as what it stores there is never
the sentinel itself. Selectors of the event table are not
(`applyHwFlags_ne_of_table`), but a raw event is whatever the caller passes
(`allOnes_event_not_exclusive`).
-/

namespace ScBl

open Loops Runs

/-! ## What is stored -/

/-- The mode filters set bits 58 to 62 only. -/
theorem getLsbD_applyHwFlags_low (flags event : U64) :
    (sbiPmuApplyHwFlags flags event).getLsbD 57 = event.getLsbD 57 := by
  have hor : ∀ (c : Prop) [Decidable c] (e m : U64), m.getLsbD 57 = false →
      (if c then e ||| m else e).getLsbD 57 = e.getLsbD 57 := by
    intro c _ e m hm
    split_ifs
    · rw [BitVec.getLsbD_or, hm, Bool.or_false]
    · rfl
  simp only [sbiPmuApplyHwFlags]
  rw [hor _ _ _ (by decide), hor _ _ _ (by decide), hor _ _ _ (by decide), hor _ _ _ (by decide),
    hor _ _ _ (by decide)]

/-- **Table events** never look like a free counter. -/
theorem applyHwFlags_ne_of_table {e : U32 × U64} (he : e ∈ hwSbiEvents) (flags : U64) :
    sbiPmuApplyHwFlags flags e.2 ≠ sbiPmuEventNotSupp := by
  intro hall
  have hbit := getLsbD_applyHwFlags_low flags e.2
  have htable : ∀ e ∈ hwSbiEvents, e.2.getLsbD 57 = false := by simp [hwSbiEvents]
  rw [hall, htable e he] at hbit
  exact absurd hbit (by decide)

/-- The call asks for a raw event that is the sentinel once the mode filters are
applied. -/
def PmuCall.AsksSentinel : PmuCall → Prop
  | .cfgMatch _ _ flags eventIdx data1 =>
    getCidxType eventIdx = sbiPmuEventTypeHwRaw ∧
      sbiPmuApplyHwFlags flags data1 = sbiPmuEventNotSupp
  | _ => False

/-- The call would be given a counter. -/
def PmuCall.IsServed (s : Pmu) : PmuCall → Prop
  | .cfgMatch cidxBase cidxMask flags _ _ => ∃ c, s.LeadsTo cidxBase cidxMask flags c
  | _ => False

/-- No counter is configured with the sentinel. -/
def KeepsSentinel (s : Pmu) (c : PmuCall) : Prop := ¬ (c.AsksSentinel ∧ c.IsServed s)

/-- A stored selector is the sentinel only if a raw event asked for it. -/
theorem asksSentinel_of_stored {cidxBase cidxMask flags eventIdx data1 selector : U64}
    (hsel : pmuFindEventSelector eventIdx data1 = .ok selector)
    (hall : sbiPmuApplyHwFlags flags selector = sbiPmuEventNotSupp) :
    (PmuCall.cfgMatch cidxBase cidxMask flags eventIdx data1).AsksSentinel := by
  simp only [pmuFindEventSelector] at hsel
  split_ifs at hsel with htable hraw
  · split at hsel
    · next e he =>
      cases hsel
      exact absurd hall (applyHwFlags_ne_of_table (List.mem_of_find?_eq_some he) flags)
    · cases hsel
  · cases hsel
    exact ⟨hraw, hall⟩

/-! ## Busy counters stay busy -/

variable {hw : PmuHw} {s : Pmu} {c : ℕ} {e : PmuCall}

/-- A successful `sbi_pmu_ctr_cfg_match` without `SKIP_MATCH` that returns `out`. -/
def Grants (hw : PmuHw) (s : Pmu) (out : U64) : PmuCall → Prop
  | .cfgMatch cidxBase cidxMask flags eventIdx data1 =>
    ¬ hasFlag flags sbiPmuCfgFlagSkipMatch ∧ ∃ s',
      mcallExtPmu hw s (.cfgMatch cidxBase cidxMask flags eventIdx data1) =
        some (sbiErrorSuccess, out, s')
  | _ => False

/-- A successful `sbi_pmu_ctr_stop` with `RESET` that covers counter `c`. -/
def Releases (hw : PmuHw) (s : Pmu) (c : ℕ) : PmuCall → Prop
  | .stop cbase cmask flags =>
    hasFlag flags sbiPmuStopFlagReset ∧ (shl cmask cbase).getLsbD c = true ∧ ∃ out s',
      mcallExtPmu hw s (.stop cbase cmask flags) = some (sbiErrorSuccess, out, s')
  | _ => False

/-- **One call.** A busy counter stays busy, unless the call releases it. By cases of the call: the
sentinel is stored by a stop with `RESET`, and by a configuration that asks for it. -/
theorem busy_next (hw : PmuHw) (havail : s.avail ≤ 32) (h3 : 3 ≤ c) (hbusy : ¬ s.Free c)
    (hkeeps : KeepsSentinel s e) : ¬ (hw.next s e).Free c ∨ Releases hw s c e := by
  cases e with
  | numCtr =>
    rw [PmuHw.next_eq (sbiPmuNumCtr_eq hw s)]
    exact .inl hbusy
  | getInfo cidx =>
    simp only [PmuHw.next, mcallExtPmu, sbiPmuCtrGetInfo]
    split_ifs <;> exact .inl hbusy
  | cfgMatch cidxBase cidxMask flags eventIdx data1 =>
    obtain ⟨ret, out, s', heq, _, hres⟩ :=
      sbiPmuCtrCfgMatch_cases hw havail cidxBase cidxMask flags eventIdx data1
    rw [PmuHw.next_eq heq, Pmu.Free]
    left
    rcases hres with ⟨_, hsame⟩ | ⟨c', selector, _, _, hleads, hsel, hstore⟩
    · rw [hsame]
      exact hbusy
    · rw [hstore]
      by_cases hcc : c = c'
      · rw [hcc, Function.update_self]
        exact fun hall => hkeeps ⟨asksSentinel_of_stored hsel hall, c', hleads⟩
      · rw [Function.update_of_ne hcc]
        exact hbusy
  | start cbase cmask flags data1 mip =>
    obtain ⟨ret, out, s', heq, _, hsame⟩ :=
      sbiPmuCtrStart_cases hw havail cbase cmask flags data1 mip
    rw [PmuHw.next_eq heq, Pmu.Free, hsame]
    exact .inl hbusy
  | stop cbase cmask flags =>
    obtain ⟨ret, out, s', heq, _, hres⟩ :=
      sbiPmuCtrStop_cases hw havail cbase cmask flags
    rw [PmuHw.next_eq heq, Pmu.Free]
    rcases hres c h3 with hsame | ⟨rfl, hreset, hbit⟩
    · rw [hsame]
      exact .inl hbusy
    · exact .inr ⟨hreset, hbit, out, s', heq⟩

/-- **A run.** A busy counter is still busy at its end, unless some call of it
releases the counter. -/
theorem busy_run (h3 : 3 ≤ c) : ∀ {s : Pmu} {calls : List PmuCall}, s.avail ≤ 32 → ¬ s.Free c →
    EachStep hw.next KeepsSentinel s calls →
    ¬ (run hw.next s calls).Free c ∨
      ∃ before e after, calls = before ++ e :: after ∧
        Releases hw (run hw.next s before) c e := by
  intro s calls
  induction calls generalizing s with
  | nil =>
    intro _ hbusy _
    exact .inl hbusy
  | cons e l ih =>
    intro havail hbusy hkeeps
    rcases busy_next hw havail h3 hbusy hkeeps.1 with hstill | hrel
    · rcases ih (next_avail_le havail) hstill hkeeps.2 with hend | ⟨before, e', after, rfl, hrel⟩
      · exact .inl hend
      · exact .inr ⟨e :: before, e', after, rfl, hrel⟩
    · exact .inr ⟨[], e, l, rfl, hrel⟩

/-! ## Exclusivity -/

/-- What a call that is granted a counter finds and leaves: the counter was free before, and is busy
after, if what is stored is not the sentinel. -/
theorem grants_cases {out : U64} (havail : s.avail ≤ 32) (hgrants : Grants hw s out e) :
    ∃ c, out.toNat = c ∧ 3 ≤ c ∧ s.Free c ∧
      (KeepsSentinel s e → ¬ (hw.next s e).Free c) := by
  cases e with
  | cfgMatch cidxBase cidxMask flags eventIdx data1 =>
    obtain ⟨hskip, s₁, hgrant⟩ := hgrants
    obtain ⟨ret, out', s', heq, _, hres⟩ :=
      sbiPmuCtrCfgMatch_cases hw havail cidxBase cidxMask flags eventIdx data1
    have hsame := hgrant.symm.trans heq
    simp only [Option.some.injEq, Prod.mk.injEq] at hsame
    obtain ⟨rfl, rfl, rfl⟩ := hsame
    rcases hres with ⟨hfail, _⟩ | ⟨c, selector, _, hout, hleads, hsel, hstore⟩
    · exact absurd rfl hfail
    · have hle := hleads.le
      have hfound := hleads
      rw [Pmu.LeadsTo, if_neg hskip] at hfound
      refine ⟨c, ?_, (getLsbD_findMask hfound.2.1).1, hfound.2.2, fun hkeeps hfree => ?_⟩
      · rw [hout, BitVec.toNat_ofNat, Nat.mod_eq_of_lt (by omega)]
      · rw [PmuHw.next_eq heq, Pmu.Free, hstore, Function.update_self] at hfree
        exact hkeeps ⟨asksSentinel_of_stored hsel hfree, c, hleads⟩
  | _ => cases hgrants

/-- Between any two calls of a history that are granted the same counter, some
call releases it. -/
def Exclusive (hw : PmuHw) (s : Pmu) (calls : List PmuCall) : Prop :=
  ∀ before mid after e₁ e₂ out, calls = before ++ e₁ :: (mid ++ e₂ :: after) →
    Grants hw (run hw.next s before) out e₁ →
    Grants hw (run hw.next s (before ++ e₁ :: mid)) out e₂ →
    ∃ mid₁ e mid₂, mid = mid₁ ++ e :: mid₂ ∧
      Releases hw (run hw.next s (before ++ e₁ :: mid₁)) out.toNat e

/-- **Exclusivity.** After `pmu_hart_init`, a counter is granted again only after
it was released, in every history in which no counter is configured with the
sentinel. -/
theorem pmu_exclusive (hw : PmuHw) (s : Pmu) (havail : s.avail ≤ 32) (calls : List PmuCall)
    (hkeeps : EachStep hw.next KeepsSentinel (pmuHartInit s) calls) :
    Exclusive hw (pmuHartInit s) calls := by
  rintro before mid after e₁ e₂ out rfl hgrant₁ hgrant₂
  have hav : (run hw.next (pmuHartInit s) before).avail ≤ 32 := run_avail_le havail
  rw [eachStep_append] at hkeeps
  obtain ⟨_, hkeeps₁, hkeeps₂⟩ := hkeeps
  rw [eachStep_append] at hkeeps₂
  obtain ⟨c, hc, h3, _, hbusy⟩ := grants_cases hav hgrant₁
  have hav₂ : (run hw.next (pmuHartInit s) (before ++ e₁ :: mid)).avail ≤ 32 :=
    run_avail_le havail
  obtain ⟨c₂, hc₂, _, hfree₂, _⟩ := grants_cases hav₂ hgrant₂
  obtain rfl : c₂ = c := hc₂.symm.trans hc
  rw [run_append] at hfree₂
  rcases busy_run h3 (next_avail_le hav) (hbusy hkeeps₁) hkeeps₂.1 with
    hend | ⟨mid₁, e, mid₂, rfl, hrel⟩
  · exact absurd hfree₂ hend
  · refine ⟨mid₁, e, mid₂, rfl, ?_⟩
    rw [run_append, hc]
    exact hrel

/-- Counter 3 is granted, released and granted again. -/
theorem pmu_exclusive_released :
    Exclusive PmuHw.sample (pmuHartInit Pmu.reset)
      [.numCtr, .cfgMatch 3#64 1#64 0#64 1#64 0#64, .stop 3#64 1#64 sbiPmuStopFlagReset,
        .cfgMatch 3#64 1#64 0#64 0x20000#64 5#64] := by
  refine pmu_exclusive PmuHw.sample Pmu.reset (by decide) _ ⟨?_, ?_, ?_, ?_, trivial⟩
  · exact fun h => h.1
  · exact fun h => absurd h.1.1 (by decide)
  · exact fun h => h.1
  · exact fun h => absurd h.1.2 (by decide)

/-- Counter 3 is granted twice in a row to the raw event with all bits set. -/
theorem allOnes_event_not_exclusive :
    ¬ Exclusive PmuHw.sample (pmuHartInit Pmu.reset)
      [.numCtr, .cfgMatch 3#64 1#64 0#64 0x20000#64 (~~~0#64),
        .cfgMatch 3#64 1#64 0#64 0x20000#64 (~~~0#64)] := by
  intro hex
  have hgrant : ∀ s : Pmu, (mcallExtPmu PmuHw.sample s
        (.cfgMatch 3#64 1#64 0#64 0x20000#64 (~~~0#64))).map (fun r => (r.1, r.2.1)) =
      some (sbiErrorSuccess, 3#64) →
      Grants PmuHw.sample s 3#64 (.cfgMatch 3#64 1#64 0#64 0x20000#64 (~~~0#64)) := by
    intro s hmap
    obtain ⟨⟨ret, out, s'⟩, heq, hret⟩ := Option.map_eq_some_iff.mp hmap
    simp only [Prod.mk.injEq] at hret
    obtain ⟨rfl, rfl⟩ := hret
    exact ⟨by decide, s', heq⟩
  obtain ⟨mid₁, e, mid₂, hmid, _⟩ := hex [.numCtr] [] [] _ _ 3#64 rfl
    (hgrant _ (by decide +kernel)) (hgrant _ (by decide +kernel))
  cases mid₁ <;> cases hmid

end ScBl
