import ScBl.Pmu.Effects

/-!
# Counter indices of the core PMU

`sbi_pmu_num_ctr` announces `count` counters, so the indices are those below
`count`, except for 1 (`TIME`). `pmu_index_law_iff` says of every history of
calls whether it keeps to them: all checks of `pmu.c` compare with `>`, so the
index `count` itself passes, and `SKIP_MATCH` does not look for index 1.

With all 32 counters the index is one past the table and one past the last case
of `csr_write_num` (`stop_at_count_unlawful`).
-/

namespace ScBl

open Loops Runs

/-- What a call may do when `count` counters were announced. -/
def PmuAccess.Lawful (count : ℕ) : PmuAccess → Prop
  | .acts cidx => cidx ≠ 1 ∧ cidx < count
  | .activeEvents index => index ≤ pmuHwCtrMax
  | .csrWriteNum csrNum => HasCsrCase csrNum

/-- The whole log is lawful. -/
abbrev Pmu.Lawful (count : ℕ) (s : Pmu) : Prop := s.LogAll (PmuAccess.Lawful count)

/-- The search of `sbi_pmu_ctr_cfg_match` arrives at index `count`, and takes it
or reads past the table there. -/
def Pmu.SearchPassesEnd (s : Pmu) (count : ℕ) (base mask : U64) : Prop :=
  sbiFls (findMask base mask) = count ∧
    (∀ i < count, (findMask base mask).getLsbD i = true → ¬ s.Free i) ∧
    (count = 32 ∨ s.Free count)

/-- The call keeps to the announced counters: the inputs that do not reach one
of the off-by-one comparisons. -/
def PmuCall.KeepsIndex (count : ℕ) (s : Pmu) : PmuCall → Prop
  | .numCtr => True
  | .getInfo cidx => cidx.toNat ≠ count
  | .cfgMatch cidxBase cidxMask flags eventIdx data1 =>
    (∃ selector, pmuFindEventSelector eventIdx data1 = .ok selector) →
      if hasFlag flags sbiPmuCfgFlagSkipMatch then
        cidxMask ≠ 0#64 → (skipMatchCntr cidxBase cidxMask).toNat ≠ 1 ∧
          (skipMatchCntr cidxBase cidxMask).toNat ≠ count
      else ¬ s.SearchPassesEnd count cidxBase cidxMask
  | .start cbase cmask _ _ _ | .stop cbase cmask _ =>
    sbiFls (shl cmask cbase) ≠ count ∨ (shl cmask cbase).getLsbD 1 = true

variable {hw : PmuHw} {s : Pmu} {count b c : ℕ}

/-! ## CSR numbers -/

theorem hasCsrCase_counter (h1 : b ≠ 1) (hb : b ≤ pmuHwCtrMax) : HasCsrCase (csrMcycle + b) := by
  rw [HasCsrCase, csrMcycle]
  rw [pmuHwCtrMax] at hb
  omega

theorem hasCsrCase_event (hb : b ≤ pmuHwCtrMax) (h3 : 3 ≤ b) :
    HasCsrCase (csrMhpmevent3 + b - 3) := by
  rw [HasCsrCase, csrMhpmevent3]
  rw [pmuHwCtrMax] at hb
  omega

/-- An event CSR of a counter in the table has a case. -/
theorem lawful_pmuSetHwEvent {event : U64} (hb : b ≤ pmuHwCtrMax) :
    (pmuSetHwEvent b event s).Lawful count ↔ s.Lawful count :=
  logAll_pmuSetHwEvent.trans (and_iff_left fun h3 _ => hasCsrCase_event hb h3)

/-- And so has its counter CSR, unless it is `TIME`. -/
theorem lawful_pmuWriteHwCtr {init : U64} (h1 : b ≠ 1) (hb : b ≤ pmuHwCtrMax) :
    (pmuWriteHwCtr b init s).Lawful count ↔ s.Lawful count :=
  logAll_pmuWriteHwCtr.trans (and_iff_left fun _ _ => hasCsrCase_counter h1 hb)

/-! ## The set bits of a mask -/

/-- The set bits of a word, the last one apart. -/
theorem indices_eq_append_fls {word : U64} (hnz : word ≠ 0#64) :
    indicesIn word.getLsbD 0 64 = indicesIn word.getLsbD 0 (sbiFls word) ++ [sbiFls word] := by
  obtain ⟨hbit, habove⟩ := sbiFls_spec hnz
  have hlt : sbiFls word < 64 := Words.lt_of_getLsbD hbit
  have hrest : indicesIn word.getLsbD (sbiFls word + 1) 64 = [] :=
    indicesIn_eq_nil fun i hi _ => habove i (by omega)
  have hlast : indicesIn word.getLsbD (sbiFls word) 64 = [sbiFls word] := by
    rw [indicesIn_eq_cons (le_refl _) hlt hbit (fun i h1 h2 => by omega), hrest]
  rw [indicesIn_split (Nat.zero_le _) hlt.le, hlast]

/-! ## Configuring a counter -/

theorem lawful_cfgMatchCounter {flags selector : U64} (hcount : count ≤ 32) :
    (cfgMatchCounter flags selector c s).2.2.Lawful count ↔
      s.Lawful count ∧ c ≠ 1 ∧ c < count := by
  by_cases hc : c ≤ pmuHwCtrMax
  · simp [cfgMatchCounter, lawful_pmuSetHwEvent hc, PmuAccess.Lawful, hc]
  · rw [pmuHwCtrMax] at hc
    have hnot : ¬ c < count := by omega
    simp [cfgMatchCounter, logAll_pmuSetHwEvent, PmuAccess.Lawful, hnot]

/-- The search as long as it reads below the end of the table. -/
theorem lawful_search {l : List ℕ} (hl : ∀ b ∈ l, b < 32) :
    (runUntil findHwCntrBody l s).2.Lawful count ↔ s.Lawful count := by
  refine logAll_runUntil_findHwCntr fun b hb => ?_
  have := hl b hb
  show b ≤ pmuHwCtrMax
  rw [pmuHwCtrMax]
  omega

/-- What the search of a mask that does not reach `count` comes to: no access beyond the counters,
and a counter of the hart or an error. -/
theorem search_below {l : List ℕ} (hl : ∀ b ∈ l, 3 ≤ b ∧ b < count) (hav : s.avail = count)
    (hcount : count ≤ 32) :
    ((runUntil findHwCntrBody l s).2.Lawful count ↔ s.Lawful count) ∧
      (((runUntil findHwCntrBody l s).1.getD sbiErrorFailure) < 0 ∨
        ∃ c : ℕ, (runUntil findHwCntrBody l s).1.getD sbiErrorFailure = c ∧ c ≠ 1 ∧ c < count) := by
  refine ⟨lawful_search fun b hb => lt_of_lt_of_le (hl b hb).2 hcount, ?_⟩
  have hgood : ∀ b ∈ l, ¬ s.badBit b := by
    intro b hb
    have := hl b hb
    rw [Pmu.badBit]
    omega
  rcases (runUntil_findHwCntr hgood).2 with ⟨hnone, _⟩ | ⟨c, hc, hsome, _⟩
  · rw [hnone]
    exact .inl (by decide)
  · have := hl c hc
    rw [hsome]
    exact .inr ⟨c, rfl, by omega, by omega⟩

/-- What a search comes to that goes on to `count` itself. The check of the mask lets this bit pass,
and the search looks at its entry where no counter before it is free. -/
theorem search_to_end {l : List ℕ} (hl : ∀ b ∈ l, 3 ≤ b ∧ b < count) (hav : s.avail = count)
    (h3 : 3 ≤ count) (hcount : count ≤ 32) :
    (¬ ((∀ b ∈ l, ¬ s.Free b) ∧ (count = 32 ∨ s.Free count)) →
      ((runUntil findHwCntrBody (l ++ [count]) s).2.Lawful count ↔ s.Lawful count) ∧
        (((runUntil findHwCntrBody (l ++ [count]) s).1.getD sbiErrorFailure) < 0 ∨
          ∃ c : ℕ, (runUntil findHwCntrBody (l ++ [count]) s).1.getD sbiErrorFailure = c ∧
            c ≠ 1 ∧ c < count)) ∧
    ((∀ b ∈ l, ¬ s.Free b) ∧ (count = 32 ∨ s.Free count) →
      (runUntil findHwCntrBody (l ++ [count]) s).1.getD sbiErrorFailure = (count : ℤ) ∨
        (((runUntil findHwCntrBody (l ++ [count]) s).1.getD sbiErrorFailure) < 0 ∧
          ¬ (runUntil findHwCntrBody (l ++ [count]) s).2.Lawful count)) := by
  have hgood : ∀ b ∈ l, ¬ s.badBit b := by
    intro b hb
    have := hl b hb
    rw [Pmu.badBit]
    omega
  obtain ⟨⟨log, hlog⟩, hres⟩ := runUntil_findHwCntr hgood
  obtain ⟨hlaw, hret⟩ := search_below hl hav hcount
  rcases hres with ⟨hnone, hbusy⟩ | ⟨c, hc, hsome, hfree⟩
  · -- no counter below `count` is free
    have hbadc : ¬ ({ s with log := log } : Pmu).badBit count := by
      simp only [Pmu.badBit]
      omega
    rw [runUntil_append hnone, hlog]
    rw [hlog] at hlaw
    by_cases hfree : s.Free count
    · have he := findHwCntrBody_of_free hbadc
        (show ({ s with log := log } : Pmu).Free count from hfree)
      rw [runUntil_cons_exit (r := (count : ℤ)) (by rw [he])]
      exact ⟨fun hno => absurd ⟨hbusy, .inr hfree⟩ hno, fun _ => .inl rfl⟩
    · have he := findHwCntrBody_of_busy hbadc
        (show ¬ ({ s with log := log } : Pmu).Free count from hfree)
      rw [runUntil_cons_next (by rw [he]), he, runUntil_nil]
      simp only [Pmu.logAll_readActive, PmuAccess.Lawful, pmuHwCtrMax]
      refine ⟨fun hno => ⟨?_, .inl (by decide)⟩, fun hpass => .inr ⟨by decide, ?_⟩⟩
      · have h32 : count ≠ 32 := fun h32 => hno ⟨hbusy, .inl h32⟩
        exact (and_iff_left (by omega)).trans hlaw
      · have h32 : count = 32 := hpass.2.resolve_right hfree
        omega
  · rw [runUntil_append_exit hsome]
    exact ⟨fun _ => ⟨hlaw, hret⟩, fun hpass => absurd hfree (hpass.1 c hc)⟩

/-- **The search.** It keeps the log lawful, and the counter it finds below
`count`, unless it passes the end. -/
theorem lawful_pmuFindHwCntr (base mask : U64) (hav : s.avail = count) (h3 : 3 ≤ count)
    (hcount : count ≤ 32) :
    ∃ ret s', pmuFindHwCntr base mask s = some (ret, s') ∧
      (¬ s.SearchPassesEnd count base mask →
        (s'.Lawful count ↔ s.Lawful count) ∧ (ret < 0 ∨ ∃ c : ℕ, ret = c ∧ c ≠ 1 ∧ c < count)) ∧
      (s.SearchPassesEnd count base mask → ret = (count : ℤ) ∨ (ret < 0 ∧ ¬ s'.Lawful count)) := by
  by_cases hrefused : findMask base mask = 0#64 ∨ s.avail < sbiFls (findMask base mask)
  · refine ⟨_, s, pmuFindHwCntr_of_refused hrefused, fun _ => ⟨Iff.rfl, .inl (by decide)⟩, ?_⟩
    rintro ⟨hfls, _⟩
    rcases hrefused with hz | hlt
    · rw [hz, sbiFls_zero] at hfls
      omega
    · omega
  obtain ⟨hnz, hfls⟩ := not_or.mp hrefused
  have hfls := Nat.le_of_not_lt hfls
  refine ⟨_, _, pmuFindHwCntr_eq (by omega) hnz hfls, ?_⟩
  have hbits : ∀ b ∈ indicesIn (findMask base mask).getLsbD 0 (sbiFls (findMask base mask)),
      3 ≤ b ∧ b < count := by
    intro b hb
    obtain ⟨_, hlt, hbit⟩ := mem_indicesIn.mp hb
    exact ⟨(getLsbD_findMask hbit).1, by omega⟩
  rw [indices_eq_append_fls hnz]
  by_cases hend : sbiFls (findMask base mask) = count
  · -- the last bit of the mask is `count`
    rw [hend] at hbits ⊢
    have hpasses : s.SearchPassesEnd count base mask ↔
        (∀ b ∈ indicesIn (findMask base mask).getLsbD 0 count, ¬ s.Free b) ∧
          (count = 32 ∨ s.Free count) := by
      simp [Pmu.SearchPassesEnd, hend, mem_indicesIn]
    rw [hpasses]
    exact search_to_end hbits hav h3 hcount
  · have hall : ∀ b ∈ indicesIn (findMask base mask).getLsbD 0 (sbiFls (findMask base mask)) ++
        [sbiFls (findMask base mask)], 3 ≤ b ∧ b < count := by
      intro b hb
      rcases List.mem_append.mp hb with hb | hb
      · exact hbits b hb
      · rw [List.mem_singleton.mp hb]
        exact ⟨(getLsbD_findMask (sbiFls_spec hnz).1).1, by omega⟩
    exact ⟨fun _ => search_below hall hav hcount, fun hpass => absurd hpass.1 hend⟩

theorem lawful_cfgMatch (hw : PmuHw) (hav : s.avail = count) (h3 : 3 ≤ count) (hcount : count ≤ 32)
    (cidxBase cidxMask flags eventIdx data1 : U64) :
    (hw.next s (.cfgMatch cidxBase cidxMask flags eventIdx data1)).Lawful count ↔
      s.Lawful count ∧
        (PmuCall.cfgMatch cidxBase cidxMask flags eventIdx data1).KeepsIndex count s := by
  simp only [PmuHw.next, mcallExtPmu, sbiPmuCtrCfgMatch, PmuCall.KeepsIndex]
  rcases hsel : pmuFindEventSelector eventIdx data1 with ret | selector
  · split_ifs <;> simp
  rw [if_neg (getCidxType_of_ok hsel)]
  simp only [Except.ok.injEq, exists_eq', forall_const]
  by_cases hskip : hasFlag flags sbiPmuCfgFlagSkipMatch
  · simp only [if_pos hskip]
    by_cases hmask : cidxMask = 0#64
    · simp [hmask]
    rw [if_neg hmask]
    by_cases hbound : s.avail < (skipMatchCntr cidxBase cidxMask).toNat
    · rw [if_pos hbound]
      exact (and_iff_left fun _ => by omega).symm
    · rw [if_neg hbound]
      refine (lawful_cfgMatchCounter hcount).trans (and_congr_right fun _ => ?_)
      constructor
      · rintro ⟨h1, hlt⟩ _
        exact ⟨h1, by omega⟩
      · intro h
        obtain ⟨h1, hne⟩ := h hmask
        exact ⟨h1, by omega⟩
  · simp only [if_neg hskip]
    obtain ⟨ret, s', hfind, hkeep, hpass⟩ :=
      lawful_pmuFindHwCntr cidxBase cidxMask hav h3 hcount
    rw [hfind, Option.map_some]
    simp only
    by_cases hend : s.SearchPassesEnd count cidxBase cidxMask
    · rw [iff_false_right fun h => h.2 hend]
      rcases hpass hend with rfl | ⟨hneg, hbad⟩
      · rw [if_neg (by omega), Int.toNat_natCast, lawful_cfgMatchCounter hcount]
        omega
      · rw [if_pos hneg]
        exact hbad
    · obtain ⟨hlaw, hret⟩ := hkeep hend
      rw [and_iff_left hend, ← hlaw]
      rcases hret with hneg | ⟨c, rfl, h1, hlt⟩
      · rw [if_pos hneg]
      · rw [if_neg (by omega), Int.toNat_natCast]
        exact (lawful_cfgMatchCounter hcount).trans (and_iff_left ⟨h1, hlt⟩)

/-! ## Starting and stopping counters -/

/-- What the rounds of `sbi_pmu_ctr_start` and `sbi_pmu_ctr_stop` have in common
when `count` counters were announced: counter 1 ends the loop, others up to
`count` do not, and count as taken. -/
structure IndexRound (count : ℕ) (body : ℕ → Pmu → Option ℤ × Pmu) : Prop where
  one : ∀ s, body 1 s = (some sbiErrorInvalidParam, s)
  goesOn : ∀ b s, ¬ s.badBit b → (body b s).1 = none
  avail : ∀ b s, (body b s).2.avail = s.avail
  lawful : ∀ b s, s.avail = count → ¬ s.badBit b →
    ((body b s).2.Lawful count ↔ s.Lawful count ∧ b < count)

variable {body : ℕ → Pmu → Option ℤ × Pmu}

/-- The rounds of a loop without counter 1. It obeys the law exactly if each of its counters is one
that the hart has. -/
theorem IndexRound.runUntil (hbody : IndexRound count body) {l : List ℕ} :
    ∀ {s : Pmu}, s.avail = count → (∀ b ∈ l, b ≠ 1 ∧ b ≤ count) →
      ((Loops.runUntil body l s).2.Lawful count ↔ s.Lawful count ∧ ∀ b ∈ l, b < count) := by
  induction l with
  | nil =>
    intro s _ _
    simp
  | cons b l ih =>
    intro s hav hl
    have hbit : ¬ s.badBit b := by
      have := hl b (List.mem_cons_self ..)
      rw [Pmu.badBit]
      omega
    rw [runUntil_cons_next (hbody.goesOn b s hbit),
      ih ((hbody.avail b s).trans hav) fun b' hb' => hl b' (List.mem_cons_of_mem _ hb'),
      hbody.lawful b s hav hbit, List.forall_mem_cons, and_assoc]

/-- **The loop over a counter mask** takes index `count` exactly when the mask
ends there and does not contain counter 1. -/
theorem IndexRound.forCounters (hbody : IndexRound count body) (hav : s.avail = count)
    (h3 : 3 ≤ count) (hcount : count ≤ 32) (cbase cmask : U64) :
    ∃ ret s', ScBl.forCounters cbase cmask body s = some (ret, 0#64, s') ∧
      s'.avail = count ∧
      (s'.Lawful count ↔ s.Lawful count ∧
        (sbiFls (shl cmask cbase) ≠ count ∨ (shl cmask cbase).getLsbD 1 = true)) := by
  by_cases hrefused : shl cmask cbase = 0#64 ∨ s.avail < sbiFls (shl cmask cbase)
  · refine ⟨_, s, forCounters_of_refused hrefused, hav, (and_iff_left (.inl ?_)).symm⟩
    rcases hrefused with hz | hlt
    · rw [hz, sbiFls_zero]
      omega
    · omega
  obtain ⟨hnz, hfls⟩ := not_or.mp hrefused
  have heq := forCounters_eq body (by omega) hnz (Nat.le_of_not_lt hfls)
  have havail :
      (Loops.runUntil body (indicesIn (shl cmask cbase).getLsbD 0 64) s).2.avail = count :=
    runUntil_inv (fun s : Pmu => s.avail = count)
      (fun b _ s hs => (hbody.avail b s).trans hs) hav
  refine ⟨_, _, heq, havail, ?_⟩
  by_cases hone : (shl cmask cbase).getLsbD 1 = true
  · -- counter 0 at most, then the loop ends
    have hbelow : ∀ b ∈ indicesIn (shl cmask cbase).getLsbD 0 1, b = 0 := fun b hb => by
      have := (mem_indicesIn.mp hb).2.1
      omega
    rw [runUntil_of_bit_one hone (fun s => hbody.goesOn 0 s not_badBit_zero) hbody.one,
      hbody.runUntil hav fun b hb => by rw [hbelow b hb]; omega]
    refine and_congr_right fun _ => ⟨fun _ => .inr hone, fun _ b hb => ?_⟩
    rw [hbelow b hb]
    omega
  · have hbits : ∀ b ∈ indicesIn (shl cmask cbase).getLsbD 0 64, b ≠ 1 ∧ b ≤ count := by
      intro b hb
      refine ⟨?_, hav ▸ le_of_mem_indices (Nat.le_of_not_lt hfls) hb⟩
      rintro rfl
      exact hone (mem_indicesIn.mp hb).2.2
    rw [hbody.runUntil hav hbits, or_iff_left hone]
    refine and_congr_right fun _ => ⟨fun hall hend => ?_, fun hne b hb => ?_⟩
    · have hlast := hall (sbiFls (shl cmask cbase)) (mem_indicesIn.mpr
        ⟨Nat.zero_le _, Words.lt_of_getLsbD (sbiFls_spec hnz).1, (sbiFls_spec hnz).1⟩)
      omega
    · have := le_of_mem_indices (Nat.le_of_not_lt hfls) hb
      have := le_sbiFls (mem_indicesIn.mp hb).2.2
      omega

theorem ctrStartBody_indexRound (hw : PmuHw) (flags init : U64) (mip : ℕ → U64)
    (hcount : count ≤ 32) : IndexRound count (ctrStartBody hw flags init mip) where
  one _ := ctrStartBody_one
  goesOn _ _ hbit := ctrStartBody_fst hbit
  avail _ _ := (ctrStartBody_table ..).1
  lawful b s hav hbit := by
    have h1 : b ≠ 1 := fun h1 => hbit (.inr h1)
    rw [ctrStartBody, if_neg hbit]
    simp only
    by_cases hlt : b < count
    · have hmax : b ≤ pmuHwCtrMax := by
        rw [pmuHwCtrMax]
        omega
      split_ifs <;> simp only [Pmu.logAll_mcountinhibit] <;>
        simp [lawful_pmuSetHwEvent hmax, lawful_pmuWriteHwCtr h1 hmax, PmuAccess.Lawful, hlt, h1,
          hmax]
    · split_ifs <;> simp only [Pmu.logAll_mcountinhibit] <;>
        simp [logAll_pmuSetHwEvent, logAll_pmuWriteHwCtr, PmuAccess.Lawful, hlt]

theorem ctrStopBody_indexRound (hw : PmuHw) (flags : U64) (hcount : count ≤ 32) :
    IndexRound count (ctrStopBody hw flags) where
  one _ := ctrStopBody_one
  goesOn _ _ hbit := ctrStopBody_fst hbit
  avail _ _ := (ctrStopBody_table ..).1
  lawful b s hav hbit := by
    have h1 : b ≠ 1 := fun h1 => hbit (.inr h1)
    rw [ctrStopBody, if_neg hbit]
    simp only
    by_cases hlt : b < count
    · have hmax : b ≤ pmuHwCtrMax := by
        rw [pmuHwCtrMax]
        omega
      split_ifs <;>
        simp only [Pmu.logAll_mcountinhibit, Pmu.logAll_writeActive, lawful_pmuSetHwEvent hmax] <;>
        simp [PmuAccess.Lawful, hlt, h1, hmax]
    · split_ifs <;>
        simp only [Pmu.logAll_mcountinhibit, Pmu.logAll_writeActive, logAll_pmuSetHwEvent] <;>
        simp [PmuAccess.Lawful, hlt]

/-! ## Histories -/

/-- **One call.** The log stays lawful exactly when the call keeps to the
announced counters. -/
theorem lawful_next (hnum : hw.numCtr = count) (hav : s.avail = count) (h3 : 3 ≤ count)
    (hcount : count ≤ 32) (e : PmuCall) :
    (hw.next s e).avail = count ∧
      ((hw.next s e).Lawful count ↔ s.Lawful count ∧ e.KeepsIndex count s) := by
  cases e with
  | numCtr =>
    rw [PmuHw.next_eq (sbiPmuNumCtr_eq hw s)]
    exact ⟨hnum, (and_iff_left trivial).symm⟩
  | getInfo cidx =>
    simp only [PmuHw.next, mcallExtPmu, sbiPmuCtrGetInfo, PmuCall.KeepsIndex]
    have h1 : cidx = 1#64 ↔ cidx.toNat = 1 := BitVec.toNat_inj.symm
    simp only [h1, hav]
    split_ifs with hrefused
    · exact ⟨hav, (and_iff_left (by omega)).symm⟩
    · refine ⟨hav, Pmu.logAll_access.trans (and_congr_right fun _ => ?_)⟩
      simp only [PmuAccess.Lawful]
      omega
  | cfgMatch cidxBase cidxMask flags eventIdx data1 =>
    obtain ⟨ret, out, s', heq, hsame, _⟩ :=
      sbiPmuCtrCfgMatch_cases hw (by omega : s.avail ≤ 32) cidxBase cidxMask flags eventIdx data1
    refine ⟨?_, lawful_cfgMatch hw hav h3 hcount cidxBase cidxMask flags eventIdx data1⟩
    rw [PmuHw.next_eq heq, hsame, hav]
  | start cbase cmask flags data1 mip =>
    obtain ⟨ret, s', heq, hsame, hlaw⟩ :=
      (ctrStartBody_indexRound hw flags data1 mip hcount).forCounters hav h3 hcount cbase cmask
    rw [PmuHw.next_eq (c := .start cbase cmask flags data1 mip) heq]
    exact ⟨hsame, hlaw⟩
  | stop cbase cmask flags =>
    obtain ⟨ret, s', heq, hsame, hlaw⟩ :=
      (ctrStopBody_indexRound hw flags hcount).forCounters hav h3 hcount cbase cmask
    rw [PmuHw.next_eq (c := .stop cbase cmask flags) heq]
    exact ⟨hsame, hlaw⟩

/-- **The index law.** For a hart with the programmable counters from 3 to `k`:
in a history that starts with `sbi_pmu_num_ctr`, every index that is acted on is
below the count returned and not 1, every table access is inside the table and
every `csr_write_num` has a case, exactly when every call keeps to the announced
counters. -/
theorem pmu_index_law_iff (hw : PmuHw) (k : ℕ) (hk : 2 ≤ k ∧ k ≤ 31) (hcontig : hw.Contiguous k)
    (s : Pmu) (hlog : s.log = []) (calls : List PmuCall) :
    mcallExtPmu hw s .numCtr =
        some (sbiErrorSuccess, BitVec.ofNat 64 (k + 1), hw.next s .numCtr) ∧
      EachStep hw.next (fun s e => (mcallExtPmu hw s e).isSome) s (.numCtr :: calls) ∧
      ((run hw.next s (.numCtr :: calls)).Lawful (k + 1) ↔
        EachStep hw.next (fun s e => e.KeepsIndex (k + 1) s) s (.numCtr :: calls)) := by
  have hnum := hcontig.numCtr_eq hk.1 hk.2
  have hnext : hw.next s .numCtr = { s with avail := k + 1 } := by
    rw [PmuHw.next_eq (sbiPmuNumCtr_eq hw s), hnum]
  have hstart : Pmu.Lawful (k + 1) { s with avail := k + 1 } := by
    intro a ha
    rw [hlog] at ha
    cases ha
  have hinv : ∀ s : Pmu, s.avail = k + 1 → ∀ e : PmuCall, (hw.next s e).avail = k + 1 ∧
      ((hw.next s e).Lawful (k + 1) ↔ s.Lawful (k + 1) ∧ e.KeepsIndex (k + 1) s) :=
    fun s hs => lawful_next hnum hs (by omega) (by omega)
  refine ⟨?_, ⟨?_, ?_⟩, ?_⟩
  · rw [hnext, sbiPmuNumCtr_eq, hnum]
  · simp only [sbiPmuNumCtr_eq, Option.isSome_some]
  · refine (EachStep.of_inv (fun s : Pmu => s.avail = k + 1) (C := fun _ _ => True)
      (fun s e hs _ => ⟨mcallExtPmu_isSome hw (by omega) e, (hinv s hs e).1⟩) ?_
      (EachStep.of_mem fun _ _ => trivial)).1
    rw [hnext]
  · rw [run, EachStep, hnext]
    refine (good_run_iff (fun s : Pmu => s.avail = k + 1) (fun s e hs => (hinv s hs e).1)
      (fun s e hs => (hinv s hs e).2) rfl).trans ?_
    exact and_congr_left fun _ => ⟨fun _ => trivial, fun _ => hstart⟩

theorem PmuHw.sample_contiguous : PmuHw.sample.Contiguous 3 :=
  PmuHw.contiguous_of_decide (by decide) (by decide)

/-- Configuring and stopping counter 3 of a hart that has it as its last one. -/
theorem pmu_index_law_iff_sample :
    (run PmuHw.sample.next (pmuHartInit Pmu.reset)
      [.numCtr, .cfgMatch 3#64 1#64 0#64 1#64 0#64, .stop 3#64 1#64 sbiPmuStopFlagReset]).Lawful
        4 := by
  refine (pmu_index_law_iff PmuHw.sample 3 (by decide) PmuHw.sample_contiguous
    (pmuHartInit Pmu.reset) rfl _).2.2.mpr
    ⟨trivial, fun _ => ?_, .inl (by decide), trivial⟩
  rw [if_neg (by decide)]
  exact fun hpass => absurd hpass.1 (by decide)

/-- A hart with all counters. -/
def PmuHw.full : PmuHw where
  mcounteren := 0xffffffff#32
  inhibit := id

theorem PmuHw.full_contiguous : PmuHw.full.Contiguous 31 :=
  PmuHw.contiguous_of_decide (by decide) (by decide)

/-- Stopping counter 32 with `RESET` writes one entry past the table, and calls
`csr_write_num` with a number that has no case. -/
theorem stop_at_count_unlawful :
    PmuHw.full.Contiguous 31 ∧
      (mcallExtPmu PmuHw.full (pmuHartInit Pmu.reset) .numCtr).map (fun r => (r.1, r.2.1)) =
        some (sbiErrorSuccess, 32#64) ∧
      PmuAccess.activeEvents 32 ∈ (run PmuHw.full.next (pmuHartInit Pmu.reset)
        [.numCtr, .stop 32#64 1#64 sbiPmuStopFlagReset]).log ∧
      ¬ (run PmuHw.full.next (pmuHartInit Pmu.reset)
        [.numCtr, .stop 32#64 1#64 sbiPmuStopFlagReset]).Lawful 32 := by
  have hlog : (run PmuHw.full.next (pmuHartInit Pmu.reset)
      [.numCtr, .stop 32#64 1#64 sbiPmuStopFlagReset]).log =
        [.acts 32, .activeEvents 32, .csrWriteNum 0x340] := by decide +kernel
  refine ⟨PmuHw.full_contiguous, by decide +kernel, ?_, fun hlaw => ?_⟩
  · rw [hlog]
    decide
  · have hread : 32 ≤ pmuHwCtrMax := hlaw (.activeEvents 32) (by rw [hlog]; decide)
    exact absurd hread (by decide)

end ScBl
