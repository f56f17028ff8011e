import ScBl.CachePmu.L2Control

/-!
# Started and stopped L2 counters

A counter counts while its control register selects an event and a bank. Only
configurations and stops with `RESET` write that register: a start and a stop
without `RESET` leave a counter counting or not, as it was. So the counters do what
the calls last asked of them exactly in the runs whose steps find the register as
they want it (`counters_as_asked_iff`).
-/

namespace ScBl

open Loops Runs CachePmu Words

/-! ## The counters under the calls -/

/-- What the control register of counter `c` has: the value written last. -/
def L2Hw.control (hw : L2Hw) (s : L2Pmu) (c : ℕ) : U64 :=
  (writesTo (hw.controlAddr c) s.log).getLastD 0#64

/-- A control register that selects an event, of those that the cache has, and at
least one bank. -/
def Counts (selects : U64 → Prop) (v : U64) : Prop :=
  selects (l2EventType v) ∧ scrL2BanksNum v ≠ 0#64

instance (selects : U64 → Prop) [DecidablePred selects] (v : U64) : Decidable (Counts selects v) :=
  inferInstanceAs (Decidable (_ ∧ _))

/-- The L2 PMU with its counters. -/
structure L2Counters where
  pmu : L2Pmu
  /-- The events that each counter has counted. -/
  counted : ℕ → ℕ
  /-- What the calls have last asked of each counter: to be started or to be stopped. -/
  asked : ℕ → Option Bool

/-- What happens to them. -/
inductive L2Event
  | call (e : L2Call)
  /-- Events occur, `n c` that counter `c` may count. -/
  | events (n : ℕ → ℕ)

/-- What a call asks of a counter, if anything: a successful start or stop of a
counter that is configured, and a successful configuration. -/
def L2Hw.asks (hw : L2Hw) (s : L2Pmu) (c : ℕ) (e : L2Call) : Option Bool :=
  if (mcallExtL2Pmu hw s e).1 = sbiErrorSuccess then
    match e with
    | .cfgMatch _ _ flags _ _ =>
      if (mcallExtL2Pmu hw s e).2.1.toNat = c then
        some (decide (hasFlag flags sbiPmuCfgFlagAutoStart))
      else none
    | .start cbase cmask _ _ =>
      if Requested cbase cmask c ∧ ¬ L2Free s c then some true else none
    | .stop cbase cmask _ =>
      if Requested cbase cmask c ∧ ¬ L2Free s c then some false else none
    | .hwCtrRead _ => none
  else none

section Step

variable (hw : L2Hw) (selects : U64 → Prop) [DecidablePred selects]

def L2Counters.step (s : L2Counters) : L2Event → L2Counters
  | .call e => { s with
      pmu := hw.next s.pmu e
      asked := fun c => (hw.asks s.pmu c e).or (s.asked c) }
  | .events n => { s with
      counted := fun c =>
        s.counted c + if Counts selects (hw.control s.pmu c) then n c else 0 }

variable (held : Bool → Prop)

/-- Whatever events occur, a counter that was asked to stop does not advance, and one
that was asked to start counts them, as far as these are `held`. -/
def L2Counters.AsAsked (s : L2Counters) : Prop :=
  ∀ c < 4, ∀ b, held b → s.asked c = some b →
    ∀ n, (s.step hw selects (.events n)).counted c = s.counted c + if b then n c else 0

/-- The call finds, or leaves, the control registers as it wants them. -/
def L2Call.FindsAsked (s : L2Pmu) : L2Call → Prop
  | .cfgMatch cidxBase cidxMask flags eventIdx data1 =>
    ¬ hw.RefusesCfgMatch cidxBase cidxMask eventIdx data1 →
      if hasFlag flags sbiPmuCfgFlagSkipMatch then
        ¬ L2Free s cidxBase.toNat → ∀ c < 4, cidxBase.setWidth 32 = BitVec.ofNat 32 c →
          held (hasFlag flags sbiPmuCfgFlagAutoStart) →
            (Counts selects (hw.control s c) ↔ hasFlag flags sbiPmuCfgFlagAutoStart)
      else
        eventIdx.toNat < hw.scrL2CacheEvents → ¬ L2AllBusy s →
          held (hasFlag flags sbiPmuCfgFlagAutoStart) →
            (selects (l2EventType (data1 ||| eventIdx)) ↔ hasFlag flags sbiPmuCfgFlagAutoStart)
  | .start cbase cmask _ _ =>
    held true → sbiFls (shl cmask cbase) < 4 → ∀ c < 4, Requested cbase cmask c → ¬ L2Free s c →
      Counts selects (hw.control s c)
  | .stop cbase cmask flags =>
    held false → sbiFls (shl cmask cbase) < 4 → ∀ c < 4, Requested cbase cmask c → ¬ L2Free s c →
      hasFlag flags sbiPmuStopFlagReset ∨ ¬ Counts selects (hw.control s c)
  | .hwCtrRead _ => True

def L2Event.FindsAsked (s : L2Counters) : L2Event → Prop
  | .call e => e.FindsAsked hw selects held s.pmu
  | .events _ => True

end Step

/-! ## What a call leaves in the control registers -/

variable {hw : L2Hw} {s : L2Pmu} {c i : ℕ} {cbase cmask flags data1 : U64}

theorem control_congr {s' : L2Pmu}
    (h : writesTo (hw.controlAddr c) s'.log = writesTo (hw.controlAddr c) s.log) :
    hw.control s' c = hw.control s c := by
  rw [L2Hw.control, h, L2Hw.control]

theorem control_of_write {s' : L2Pmu} {v : U64}
    (h : writesTo (hw.controlAddr c) s'.log = writesTo (hw.controlAddr c) s.log ++ [v]) :
    hw.control s' c = v := by
  rw [L2Hw.control, h, List.getLastD_concat]

@[simp] theorem control_validate : hw.control (pmuCtrValidate hw i s).2 c = hw.control s c := by
  rw [pmuCtrValidate]
  simp only
  split_ifs
  · rfl
  · exact control_congr writesTo_readActive
  · exact control_congr writesTo_readActive
  · exact control_congr writesTo_readActive

/-- A start leaves all of them alone. -/
theorem control_start :
    hw.control (sbiL2PmuCtrStart hw cbase cmask flags data1 s).2.2 c = hw.control s c := by
  simp only [sbiL2PmuCtrStart_eq]
  split_ifs
  · refine runUntil_inv (fun t : ℤ × L2Pmu => hw.control t.2 c = hw.control s c)
      (fun b _ t ht => ?_) rfl
    simp only [l2StartBody]
    split_ifs
    · exact control_validate.trans ht
    · exact (control_congr writesTo_ctrStartHw).trans (control_validate.trans ht)
  · rfl

theorem control_hwCtrRead {cidx : U64} :
    hw.control (sbiL2PmuHwCtrRead hw cidx s).2.2 c = hw.control s c := by
  refine control_congr ?_
  simp only [sbiL2PmuHwCtrRead, scrL2PmuRead]
  split_ifs <;> simp

/-- The control register of counter `i` after the round of counter `c`: cleared where the round
resets it, and otherwise as it was. A stop without `RESET` leaves the register, and so the counter
running. -/
theorem l2StopBody_control (flags : U64) (hvalid : L2Valid hw s) (hc : c < 4) (hi : i < 4) :
    hw.control (l2StopBody hw flags c s).2 i =
      if i = c ∧ hasFlag flags sbiPmuStopFlagReset ∧ ¬ L2Free s c then 0#64
      else hw.control s i := by
  have hneg := validate_neg_iff hvalid hc
  simp only [l2StopBody]
  by_cases hfree : L2Free s c
  · rw [if_pos (hneg.mpr hfree), if_neg fun h => h.2.2 hfree, control_validate]
  rw [if_neg fun h => hfree (hneg.mp h)]
  by_cases hreset : hasFlag flags sbiPmuStopFlagReset
  · rw [if_pos hreset]
    have hlt : ¬ scrL2PmuCtrNum ≤ c := Nat.not_le.mpr hc
    simp only [scrL2PmuResetEvent, if_neg hlt]
    by_cases hic : i = c
    · subst hic
      rw [if_pos ⟨rfl, hreset, hfree⟩, control_of_write writesTo_ctrWriteEvent_self]
      decide
    · rw [if_neg fun h => hic h.1,
        control_congr (writesTo_ctrWriteEvent_of_ne hi hc fun h => hic h.symm),
        control_congr writesTo_writeActive, control_validate]
  · rw [if_neg hreset, if_neg fun h => hreset h.2.1, control_validate]

/-- **A stop** clears the registers of the counters that it resets, and leaves all the others. The
call as a whole is refused, with nothing done, if its mask has a bit beyond the four counters. -/
theorem control_stop (hvalid : L2Valid hw s) (hi : i < 4) :
    hw.control (sbiL2PmuCtrStop hw cbase cmask flags s).2.2 i =
      if sbiFls (shl cmask cbase) < 4 ∧ hasFlag flags sbiPmuStopFlagReset ∧
          Requested cbase cmask i ∧ ¬ L2Free s i then 0#64
      else hw.control s i := by
  -- a round sees its own register and its own entry
  have hview := runUntil_view_if (K := fun b => b < 4) (p := sbiFls (shl cmask cbase) < 4)
    (L2Valid hw)
    (fun b (t : L2Pmu) => (hw.control t b, t.activeEvents b))
    (fun _ r => if hasFlag flags sbiPmuStopFlagReset then
      (if r.2 ≠ sbiPmuEventIdxInvalid then 0#64 else r.1, sbiPmuEventIdxInvalid) else r)
    (nodup_namedL2 cbase (shl cmask cbase)) (fun a ha t ht => by
      obtain ⟨hnone, hkeep, hentry⟩ := l2StopBody_round flags ht ha
      refine ⟨hnone, hkeep, fun b hb => ?_⟩
      have hcontrol := l2StopBody_control flags ht (mem_namedL2.mp ha).2.1 hb
      rw [Prod.ext_iff]
      refine ⟨hcontrol.trans ?_, (hentry b trivial).trans ?_⟩
      · by_cases hba : b = a
        · subst hba
          by_cases hreset : hasFlag flags sbiPmuStopFlagReset
          · simp [hreset, L2Free]
          · simp [hreset]
        · simp [hba]
      · split_ifs <;> rfl) hvalid hi
  have hnamed : i ∈ namedL2 cbase (shl cmask cbase) ↔ Requested cbase cmask i :=
    mem_namedL2_iff.trans (and_iff_right hi)
  rw [sbiL2PmuCtrStop_eq]
  refine (congrArg Prod.fst hview).trans ?_
  by_cases hgoes : sbiFls (shl cmask cbase) < 4 ∧ Requested cbase cmask i
  · rw [if_pos ⟨hgoes.1, hnamed.mpr hgoes.2⟩]
    by_cases hreset : hasFlag flags sbiPmuStopFlagReset
    · rw [if_pos hreset]
      simp only [hgoes, hreset, L2Free, true_and]
    · rw [if_neg hreset, if_neg fun h => hreset h.2.1]
  · rw [if_neg fun h => hgoes ⟨h.1, hnamed.mp h.2⟩, if_neg fun h => hgoes ⟨h.1, h.2.2.1⟩]

/-- **A configuration** programs the counter that it takes. -/
theorem control_skipMatch {cidx : U32} :
    hw.control (l2SkipMatch hw flags cidx s).2.2 c = hw.control s c :=
  control_congr writesTo_skipMatch

theorem control_programL2 (hc : c < 4) (hi : i < 4) {eventIdx : U64} :
    hw.control (programL2 hw s eventIdx data1 i) c =
      if i = c then (data1 ||| l2EventType eventIdx) &&& 0xFFFFFFFF#64 else hw.control s c := by
  have hwrites := L2CfgMatch.writesTo_programL2 hw s hc hi eventIdx data1
  split_ifs at hwrites ⊢ with hic
  · exact control_of_write hwrites
  · rw [List.append_nil] at hwrites
    exact control_congr hwrites

/-! ## What a call asks for -/

/-- A round of start goes on, and leaves the table alone. -/
theorem l2StartBody_keeps (hw : L2Hw) (flags init : U64) (a : ℕ) (t : ℤ × L2Pmu) :
    (l2StartBody hw flags init a t).1 = none ∧
      (l2StartBody hw flags init a t).2.2.activeEvents = t.2.activeEvents := by
  simp only [l2StartBody]
  split_ifs <;> simp

/-- A start of a configured counter succeeds. The loop begins with an error in hand, and one counter
in use among those it goes through is enough to replace it. -/
theorem runUntil_l2Start_success {init : U64} (hvalid : L2Valid hw s) {l : List ℕ} :
    ∀ {t : ℤ × L2Pmu}, t.2.activeEvents = s.activeEvents →
      (t.1 = 0 ∨ ∃ c ∈ l, c < 4 ∧ ¬ L2Free s c) →
      (runUntil (l2StartBody hw flags init) l t).2.1 = 0 := by
  induction l with
  | nil =>
    intro t _ h
    rcases h with h | ⟨c, hc, _⟩
    · exact h
    · cases hc
  | cons a l ih =>
    intro t ht h
    have hvalid' : L2Valid hw t.2 := fun i hi => by
      rw [L2Free, ht]
      exact hvalid i hi
    obtain ⟨hnone, hact⟩ := l2StartBody_keeps hw flags init a t
    rw [runUntil_cons_next hnone]
    refine ih (hact.trans ht) ?_
    simp only [l2StartBody]
    split_ifs with hneg
    · rcases h with hret | ⟨c, hc, hlt, hbusy⟩
      · exact .inl hret
      · refine .inr ⟨c, (List.mem_cons.mp hc).resolve_left ?_, hlt, hbusy⟩
        rintro rfl
        have hfree := (validate_neg_iff hvalid' hlt).mp hneg
        rw [L2Free, ht] at hfree
        exact hbusy hfree
    · exact .inl rfl

/-- A mask beyond the counters is refused. -/
theorem start_refused_l2 (hfls : ¬ sbiFls (shl cmask cbase) < 4) :
    (sbiL2PmuCtrStart hw cbase cmask flags data1 s).1 ≠ sbiErrorSuccess := by
  have hinvalid : sbiErrorInvalidParam ≠ sbiErrorSuccess := by decide
  simp only [sbiL2PmuCtrStart_eq, if_neg hfls]
  exact hinvalid

theorem start_success_l2 (hvalid : L2Valid hw s) (hfls : sbiFls (shl cmask cbase) < 4) (hc : c < 4)
    (hreq : Requested cbase cmask c) (hbusy : ¬ L2Free s c) :
    (sbiL2PmuCtrStart hw cbase cmask flags data1 s).1 = sbiErrorSuccess := by
  simp only [sbiL2PmuCtrStart_eq, if_pos hfls]
  exact runUntil_l2Start_success (t := (sbiErrorInvalidParam, s)) hvalid rfl
    (.inr ⟨c, mem_namedL2_iff.mpr ⟨hc, hreq⟩, hc, hbusy⟩)

theorem stop_fst_l2 : (sbiL2PmuCtrStop hw cbase cmask flags s).1 =
    if sbiFls (shl cmask cbase) < 4 then sbiErrorSuccess else sbiErrorInvalidParam := by
  rw [sbiL2PmuCtrStop_eq]

/-- The index that `SKIP_MATCH` returns, when it is one of a counter. -/
theorem toNat_signExtend_eq_iff {cidx : U32} (hc : c < 4) :
    (cidx.signExtend 64).toNat = c ↔ cidx = BitVec.ofNat 32 c := by
  constructor
  · intro h
    rw [BitVec.toNat_signExtend, BitVec.toNat_setWidth] at h
    apply BitVec.eq_of_toNat_eq
    rw [BitVec.toNat_ofNat]
    split_ifs at h
    · omega
    · omega
  · rintro rfl
    rw [signExtend_ofNat hc, BitVec.toNat_ofNat]
    omega

theorem scrL2BanksNum_programmed (a : L2CfgMatch) :
    scrL2BanksNum a.programmed = scrL2BanksNum a.data1 := by
  have hmask : genmask 19 16 = fieldMask 64 16 4 := by decide
  apply BitVec.eq_of_getLsbD_eq
  intro i _
  rw [scrL2BanksNum, scrL2BanksNum, hmask, BitVec.getLsbD_ushiftRight, BitVec.getLsbD_ushiftRight,
    BitVec.getLsbD_and, BitVec.getLsbD_and, getLsbD_fieldMask (by decide),
    L2CfgMatch.getLsbD_programmed]
  by_cases hi : 16 + i < 20
  · have h32 : 16 + i < 32 := by omega
    have h4 : ¬ 16 + i < 4 := by omega
    simp [hi, h32, h4]
  · simp [hi]

theorem l2EventType_programmed (a : L2CfgMatch) :
    l2EventType a.programmed = l2EventType (a.data1 ||| a.eventIdx) := by
  apply BitVec.eq_of_getLsbD_eq
  intro i _
  rw [L2CfgMatch.getLsbD_l2EventType, L2CfgMatch.getLsbD_l2EventType, L2CfgMatch.getLsbD_programmed,
    BitVec.getLsbD_or]
  by_cases hi : i < 4
  · have h32 : i < 32 := by omega
    simp [hi, h32]
  · simp [hi]

/-- A programmed counter counts if its selector is an event. -/
theorem counts_programmed (selects : U64 → Prop) {a : L2CfgMatch}
    (hbanks : scrL2BanksNum a.data1 ≠ 0#64) :
    Counts selects a.programmed ↔ selects (l2EventType (a.data1 ||| a.eventIdx)) := by
  rw [Counts, l2EventType_programmed, scrL2BanksNum_programmed, and_iff_left hbanks]

theorem not_counts_zero {selects : U64 → Prop} : ¬ Counts selects 0#64 := by
  intro h
  exact h.2 (by decide)

/-! ## The law -/

section Law

variable {selects : U64 → Prop} [DecidablePred selects] {held : Bool → Prop} {t : L2Counters}
  {e : L2Call}

/-- What the counters do is in their control registers: one that has an event that is selected
counts, and one whose register is clear does not. -/
theorem asAsked_iff :
    t.AsAsked hw selects held ↔
      ∀ c < 4, ∀ b, held b → t.asked c = some b →
        (Counts selects (hw.control t.pmu c) ↔ b = true) := by
  refine forall₂_congr fun c _ => forall₂_congr fun b _ => imp_congr_right fun _ => ?_
  simp only [L2Counters.step, Nat.add_right_inj]
  constructor
  · intro h
    have hone := h fun _ => 1
    by_cases hcounts : Counts selects (hw.control t.pmu c)
    · rw [if_pos hcounts] at hone
      refine iff_of_true hcounts ?_
      by_contra hb
      rw [if_neg hb] at hone
      cases hone
    · rw [if_neg hcounts] at hone
      refine iff_of_false hcounts fun hb => ?_
      rw [if_pos hb] at hone
      cases hone
  · intro h n
    rw [if_congr h rfl rfl]

/-- After a call, if it leaves the other control registers alone. -/
theorem asAsked_call_iff (hgood : t.AsAsked hw selects held)
    (hsame : ∀ c < 4, hw.asks t.pmu c e = none →
      hw.control (hw.next t.pmu e) c = hw.control t.pmu c) :
    (t.step hw selects (.call e)).AsAsked hw selects held ↔
      ∀ c < 4, ∀ b, held b → hw.asks t.pmu c e = some b →
        (Counts selects (hw.control (hw.next t.pmu e) c) ↔ b = true) := by
  rw [asAsked_iff] at hgood ⊢
  refine forall₂_congr fun c hc => ?_
  simp only [L2Counters.step]
  rcases hasks : hw.asks t.pmu c e with _ | b
  · refine iff_of_true (fun b hheld hb => ?_) (fun b _ hb => by cases hb)
    rw [hsame c hc hasks]
    exact hgood c hc b hheld hb
  · exact Iff.rfl

theorem asks_start (cbase cmask flags data1 : U64) (hvalid : L2Valid hw s) (hc : c < 4) :
    hw.asks s c (.start cbase cmask flags data1) =
      if sbiFls (shl cmask cbase) < 4 ∧ Requested cbase cmask c ∧ ¬ L2Free s c then some true
      else none := by
  simp only [L2Hw.asks]
  by_cases hfls : sbiFls (shl cmask cbase) < 4
  · by_cases hcovers : Requested cbase cmask c ∧ ¬ L2Free s c
    · have hret : (mcallExtL2Pmu hw s (.start cbase cmask flags data1)).1 = sbiErrorSuccess :=
        start_success_l2 hvalid hfls hc hcovers.1 hcovers.2
      rw [if_pos hret, if_pos hcovers, if_pos ⟨hfls, hcovers⟩]
    · rw [if_neg hcovers, ite_self, if_neg fun h => hcovers h.2]
  · have hret : (mcallExtL2Pmu hw s (.start cbase cmask flags data1)).1 ≠ sbiErrorSuccess :=
      start_refused_l2 hfls
    rw [if_neg hret, if_neg fun h => hfls h.1]

theorem asks_stop (hw : L2Hw) (s : L2Pmu) (c : ℕ) (cbase cmask flags : U64) :
    hw.asks s c (.stop cbase cmask flags) =
      if sbiFls (shl cmask cbase) < 4 ∧ Requested cbase cmask c ∧ ¬ L2Free s c then some false
      else none := by
  have hfst : (mcallExtL2Pmu hw s (.stop cbase cmask flags)).1 = _ := stop_fst_l2
  have hinvalid : sbiErrorInvalidParam ≠ sbiErrorSuccess := by decide
  simp only [L2Hw.asks, hfst]
  by_cases hfls : sbiFls (shl cmask cbase) < 4
  · simp only [hfls, true_and, if_true]
  · rw [if_neg hfls, if_neg hinvalid, if_neg fun h => hfls h.1]

theorem asAsked_start_iff (hvalid : L2Valid hw t.pmu) (hgood : t.AsAsked hw selects held) :
    (t.step hw selects (.call (.start cbase cmask flags data1))).AsAsked hw selects held ↔
      (L2Call.start cbase cmask flags data1).FindsAsked hw selects held t.pmu := by
  have hcontrol : ∀ c, hw.control (hw.next t.pmu (.start cbase cmask flags data1)) c =
      hw.control t.pmu c := fun c => control_start
  rw [asAsked_call_iff hgood fun c _ _ => hcontrol c, L2Call.FindsAsked]
  constructor
  · intro h hheld hfls c hc hreq hbusy
    have hasks := asks_start cbase cmask flags data1 hvalid hc
    rw [if_pos ⟨hfls, hreq, hbusy⟩] at hasks
    rw [← hcontrol c]
    exact (h c hc true hheld hasks).mpr rfl
  · intro h c hc b hheld hb
    rw [asks_start cbase cmask flags data1 hvalid hc] at hb
    split_ifs at hb with hcovers
    obtain rfl := Option.some.inj hb
    rw [hcontrol]
    exact iff_of_true (h hheld hcovers.1 c hc hcovers.2.1 hcovers.2.2) rfl

theorem asAsked_stop_iff (hvalid : L2Valid hw t.pmu) (hgood : t.AsAsked hw selects held) :
    (t.step hw selects (.call (.stop cbase cmask flags))).AsAsked hw selects held ↔
      (L2Call.stop cbase cmask flags).FindsAsked hw selects held t.pmu := by
  have hcontrol : ∀ c < 4, hw.control (hw.next t.pmu (.stop cbase cmask flags)) c = _ :=
    fun c hc => control_stop hvalid hc
  have hsame : ∀ c < 4, hw.asks t.pmu c (.stop cbase cmask flags) = none →
      hw.control (hw.next t.pmu (.stop cbase cmask flags)) c = hw.control t.pmu c := by
    intro c hc hasks
    rw [asks_stop] at hasks
    split_ifs at hasks with hcovers
    rw [hcontrol c hc, if_neg fun h => hcovers ⟨h.1, h.2.2⟩]
  rw [asAsked_call_iff hgood hsame, L2Call.FindsAsked]
  constructor
  · intro h hheld hfls c hc hreq hbusy
    have hasks := asks_stop hw t.pmu c cbase cmask flags
    rw [if_pos ⟨hfls, hreq, hbusy⟩] at hasks
    by_cases hreset : hasFlag flags sbiPmuStopFlagReset
    · exact .inl hreset
    · have hkept := hcontrol c hc
      rw [if_neg fun h => hreset h.2.1] at hkept
      rw [← hkept]
      refine .inr fun hcounts => ?_
      cases (h c hc false hheld hasks).mp hcounts
  · intro h c hc b hheld hb
    rw [asks_stop] at hb
    split_ifs at hb with hcovers
    obtain rfl := Option.some.inj hb
    refine iff_of_false ?_ (by decide)
    rw [hcontrol c hc]
    split_ifs with hreset
    · exact not_counts_zero
    · refine (h hheld hcovers.1 c hc hcovers.2.1 hcovers.2.2).resolve_left fun hflag => ?_
      exact hreset ⟨hcovers.1, hflag, hcovers.2⟩

/-- A configuration that fails asks for nothing. -/
theorem asAsked_fails (hgood : t.AsAsked hw selects held)
    (hret : (mcallExtL2Pmu hw t.pmu e).1 ≠ sbiErrorSuccess)
    (hsame : ∀ c, writesTo (hw.controlAddr c) (hw.next t.pmu e).log =
      writesTo (hw.controlAddr c) t.pmu.log) :
    (t.step hw selects (.call e)).AsAsked hw selects held := by
  have hasks : ∀ c, hw.asks t.pmu c e = none := fun c => if_neg hret
  rw [asAsked_call_iff hgood fun c _ _ => control_congr (hsame c)]
  intro c _ b _ hb
  rw [hasks] at hb
  cases hb

/-- A configuration that succeeds asks for the state of the counter that it returns, which
`AUTO_START` tells. All other counters are as they were, and as they had been asked to be. -/
theorem asAsked_success_iff {cidxBase cidxMask eventIdx : U64} (hgood : t.AsAsked hw selects held)
    (he : e = .cfgMatch cidxBase cidxMask flags eventIdx data1)
    (hret : (mcallExtL2Pmu hw t.pmu e).1 = sbiErrorSuccess)
    (hsame : ∀ c < 4, (mcallExtL2Pmu hw t.pmu e).2.1.toNat ≠ c →
      hw.control (hw.next t.pmu e) c = hw.control t.pmu c) :
    (t.step hw selects (.call e)).AsAsked hw selects held ↔
      ∀ c < 4, (mcallExtL2Pmu hw t.pmu e).2.1.toNat = c →
        held (hasFlag flags sbiPmuCfgFlagAutoStart) →
          (Counts selects (hw.control (hw.next t.pmu e) c) ↔
            hasFlag flags sbiPmuCfgFlagAutoStart) := by
  have hasks : ∀ c, hw.asks t.pmu c e = if (mcallExtL2Pmu hw t.pmu e).2.1.toNat = c then
      some (decide (hasFlag flags sbiPmuCfgFlagAutoStart)) else none := by
    intro c
    subst he
    exact if_pos hret
  rw [asAsked_call_iff hgood fun c hc hnone => ?_]
  · refine forall₂_congr fun c _ => ?_
    rw [hasks]
    by_cases hout : (mcallExtL2Pmu hw t.pmu e).2.1.toNat = c
    · rw [if_pos hout, imp_iff_right hout]
      constructor
      · intro h hheld
        exact (h _ hheld rfl).trans decide_eq_true_iff
      · intro h b hheld hb
        obtain rfl := Option.some.inj hb
        exact (h hheld).trans decide_eq_true_iff.symm
    · rw [if_neg hout]
      exact iff_of_true (fun b _ hb => by cases hb) fun h => absurd h hout
  · refine hsame c hc fun hout => ?_
    rw [hasks, if_pos hout] at hnone
    cases hnone

theorem asAsked_cfgMatch_iff {cidxBase cidxMask eventIdx : U64}
    (hgood : t.AsAsked hw selects held) :
    (t.step hw selects (.call (.cfgMatch cidxBase cidxMask flags eventIdx data1))).AsAsked
        hw selects held ↔
      (L2Call.cfgMatch cidxBase cidxMask flags eventIdx data1).FindsAsked hw selects held
        t.pmu := by
  have hspec := sbiL2PmuCtrCfgMatch_spec hw t.pmu cidxBase cidxMask flags eventIdx data1
  have hfails := asAsked_fails (e := .cfgMatch cidxBase cidxMask flags eventIdx data1) hgood
  have hsuccess := asAsked_success_iff hgood
    (Eq.refl (L2Call.cfgMatch cidxBase cidxMask flags eventIdx data1))
  have hinvalid : sbiErrorInvalidParam ≠ sbiErrorSuccess := by decide
  have hunsupported : sbiErrorNotSupported ≠ sbiErrorSuccess := by decide
  rw [L2Hw.next, mcallExtL2Pmu] at hfails hsuccess
  rw [L2Call.FindsAsked]
  generalize sbiL2PmuCtrCfgMatch hw cidxBase cidxMask flags eventIdx data1 t.pmu = r
    at hspec hfails hsuccess
  cases hspec with
  | refused href =>
    exact iff_of_true (hfails hinvalid fun _ => rfl) fun hok => absurd href hok
  | skipFree _ hskip hfree =>
    rw [if_pos hskip]
    exact iff_of_true (hfails hinvalid fun _ => writesTo_readActive) fun _ hbusy =>
      absurd hfree hbusy
  | skip hok hskip hbusy =>
    have hcontrol : ∀ c, hw.control (l2SkipMatch hw flags (cidxBase.setWidth 32)
        (t.pmu.readActive cidxBase.toNat)).2.2 c = hw.control t.pmu c :=
      fun c => control_skipMatch.trans (control_congr writesTo_readActive)
    rw [if_pos hskip, hsuccess rfl fun c _ _ => hcontrol c, imp_iff_right hok,
      imp_iff_right hbusy]
    refine forall₂_congr fun c hc => ?_
    rw [l2SkipMatch, toNat_signExtend_eq_iff hc]
    exact imp_congr_right fun _ => by rw [← hcontrol c, l2SkipMatch]
  | noEvent _ hmatch hevent =>
    rw [if_neg hmatch]
    exact iff_of_true (hfails hunsupported fun _ => rfl) fun _ hlt =>
      absurd hlt (Nat.not_lt.mpr hevent)
  | full _ hmatch _ hfull =>
    rw [if_neg hmatch]
    exact iff_of_true (hfails hunsupported fun _ => writesTo_readTable) fun _ _ hbusy =>
      absurd hfull hbusy
  | found hok hmatch hevent i hi =>
    have hbusy : ¬ L2AllBusy t.pmu := fun h => h i hi.lt hi.free
    have hbanks : scrL2BanksNum data1 ≠ 0#64 := fun h => hok (.inr (.inr h))
    have hcontrol : ∀ c < 4, hw.control (l2SkipMatch hw flags (BitVec.ofNat 32 i)
        (programL2 hw t.pmu eventIdx data1 i)).2.2 c = _ :=
      fun c hc => control_skipMatch.trans (control_programL2 hc hi.lt)
    have hout : (l2SkipMatch hw flags (BitVec.ofNat 32 i)
        (programL2 hw t.pmu eventIdx data1 i)).2.1.toNat = i :=
      (toNat_signExtend_eq_iff hi.lt).mpr rfl
    have hself := hcontrol i hi.lt
    rw [if_pos rfl] at hself
    rw [hout] at hsuccess
    rw [if_neg hmatch, imp_iff_right hok, imp_iff_right hevent, imp_iff_right hbusy,
      hsuccess rfl fun c hc hne => (hcontrol c hc).trans (if_neg hne)]
    have hcounts := counts_programmed selects
      (a := ⟨cidxBase, cidxMask, flags, eventIdx, data1⟩) hbanks
    constructor
    · intro h hheld
      have hi' := h i hi.lt rfl hheld
      rw [hself] at hi'
      exact hcounts.symm.trans hi'
    · rintro h c _ rfl hheld
      rw [hself]
      exact hcounts.trans (h hheld)

/-- **One event** keeps the counters as asked exactly if it finds them so. This is the step of the
run below: a call asks its counters for something, and events make those count that are started. -/
theorem asAsked_step_iff (hvalid : L2Valid hw t.pmu) (hgood : t.AsAsked hw selects held)
    (event : L2Event) :
    (t.step hw selects event).AsAsked hw selects held ↔ event.FindsAsked hw selects held t := by
  cases event with
  | events n =>
    refine iff_of_true ?_ trivial
    rw [asAsked_iff] at hgood ⊢
    exact hgood
  | call e =>
    cases e with
    | cfgMatch => exact asAsked_cfgMatch_iff hgood
    | start => exact asAsked_start_iff hvalid hgood
    | stop => exact asAsked_stop_iff hvalid hgood
    | hwCtrRead cidx =>
      refine iff_of_true ?_ trivial
      have hasks : ∀ c, hw.asks t.pmu c (.hwCtrRead cidx) = none := fun c => ite_self _
      rw [asAsked_call_iff hgood fun c _ _ => control_hwCtrRead]
      intro c _ b _ hb
      rw [hasks] at hb
      cases hb

/-- **A run** keeps the counters as asked exactly if each of its steps finds them so. The initial
state has been asked for nothing, so that all depends on the steps. -/
theorem throughout_asAsked_iff (hw : L2Hw) (selects : U64 → Prop) [DecidablePred selects]
    (held : Bool → Prop) (s₀ : L2Pmu) (counted₀ : ℕ → ℕ) (events : List L2Event) :
    Throughout (L2Counters.step hw selects) (L2Counters.AsAsked hw selects held)
        ⟨scrFdtL2PmuInit s₀, counted₀, fun _ => none⟩ events ↔
      EachStep (L2Counters.step hw selects) (fun t e => e.FindsAsked hw selects held t)
        ⟨scrFdtL2PmuInit s₀, counted₀, fun _ => none⟩ events := by
  have hinit : (L2Counters.mk (scrFdtL2PmuInit s₀) counted₀ fun _ => none).AsAsked
      hw selects held := by
    intro c _ b _ hb
    cases hb
  refine (throughout_iff (fun t => L2Valid hw t.pmu) (fun t event hvalid => ?_)
    (fun t event hvalid hgood => asAsked_step_iff hvalid hgood event)
    (valid_init hw s₀)).trans (and_iff_right hinit)
  cases event with
  | call e => exact valid_next hvalid e
  | events => exact hvalid

/-- **Started and stopped counters.** After `scr_fdt_l2_pmu_init`, in every run of
calls and events, the counters that were last asked to stop never advance exactly if
every such call finds, or leaves, the control registers as it wants them; and the
counters always do what was last asked of them, those that were asked to start too,
exactly if every call does. -/
theorem counters_as_asked_iff (hw : L2Hw) (selects : U64 → Prop) [DecidablePred selects]
    (s₀ : L2Pmu) (counted₀ : ℕ → ℕ) (events : List L2Event) :
    (Throughout (L2Counters.step hw selects) (L2Counters.AsAsked hw selects (· = false))
        ⟨scrFdtL2PmuInit s₀, counted₀, fun _ => none⟩ events ↔
      EachStep (L2Counters.step hw selects) (fun t e => e.FindsAsked hw selects (· = false) t)
        ⟨scrFdtL2PmuInit s₀, counted₀, fun _ => none⟩ events) ∧
    (Throughout (L2Counters.step hw selects) (L2Counters.AsAsked hw selects fun _ => True)
        ⟨scrFdtL2PmuInit s₀, counted₀, fun _ => none⟩ events ↔
      EachStep (L2Counters.step hw selects) (fun t e => e.FindsAsked hw selects (fun _ => True) t)
        ⟨scrFdtL2PmuInit s₀, counted₀, fun _ => none⟩ events) :=
  ⟨throughout_asAsked_iff hw selects _ s₀ counted₀ events,
    throughout_asAsked_iff hw selects _ s₀ counted₀ events⟩

/-- A configured counter counts before it is started; a counter that was started with
its configuration counts after a stop without `RESET`. -/
theorem counters_not_as_asked :
    ¬ Throughout (L2Counters.step L2Hw.sample fun v => v.toNat < 36)
        (L2Counters.AsAsked L2Hw.sample (fun v => v.toNat < 36) (· = false))
        ⟨scrFdtL2PmuInit ⟨fun _ => 0#32, []⟩, fun _ => 0, fun _ => none⟩
        [.call (.cfgMatch 0#64 1#64 0#64 1#64 0x10000#64)] ∧
    ¬ Throughout (L2Counters.step L2Hw.sample fun v => v.toNat < 36)
        (L2Counters.AsAsked L2Hw.sample (fun v => v.toNat < 36) (· = false))
        ⟨scrFdtL2PmuInit ⟨fun _ => 0#32, []⟩, fun _ => 0, fun _ => none⟩
        [.call (.cfgMatch 0#64 1#64 sbiPmuCfgFlagAutoStart 1#64 0x10000#64),
          .call (.stop 3#64 1#64 0#64)] := by
  constructor
  · intro h
    have hend := h _ [] (List.append_nil _).symm 3 (by decide) false rfl (by decide +kernel)
      fun _ => 1
    revert hend
    decide +kernel
  · intro h
    have hend := h _ [] (List.append_nil _).symm 3 (by decide) false rfl (by decide +kernel)
      fun _ => 1
    revert hend
    decide +kernel

end Law

end ScBl
