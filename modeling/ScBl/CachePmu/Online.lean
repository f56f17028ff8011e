import ScBl.CachePmu.L2Bounds
import ScBl.CachePmu.L3Bounds

/-!
# Harts that come online (`minit.c`, `hart_init`)

The tables of the L3 PMU, and of an L2 PMU that is not dedicated to its core,
are shared by all harts. `hart_init` initialises them on every hart that boots
or is started again, and so takes away what others have allocated: an
allocation lasts until it is given back exactly in the runs where no hart comes
online while a counter is allocated (`allocations_last_iff`).
-/

namespace ScBl

open Loops Runs CachePmu

/-! ## The shared tables -/

/-- The L2 and the L3 PMU of a cluster, with `PLF_CACHE_L2_DEDICATED = 0`. -/
structure SharedPmu where
  l2 : L2Pmu
  l3 : L3Pmu

structure SharedPmuHw where
  l2 : L2Hw
  l3 : L3Hw

/-- A call of some hart, or the initialisation of a hart that comes online. -/
inductive SharedPmuEvent
  | l2 (call : L2Call)
  | l3 (call : L3Call)
  | hartInit
  deriving DecidableEq, Repr

/-- `hart_init`, as far as it goes for the cache PMUs. -/
def SharedPmu.hartInit (s : SharedPmu) : SharedPmu where
  l2 := scrFdtL2PmuInit s.l2
  l3 := scrFdtL3PmuInit s.l3

def SharedPmuHw.next (hw : SharedPmuHw) (s : SharedPmu) : SharedPmuEvent → SharedPmu
  | .l2 call => { s with l2 := hw.l2.next s.l2 call }
  | .l3 call => { s with l3 := hw.l3.next s.l3 call }
  | .hartInit => s.hartInit

/-! ## Allocations -/

/-- A shared counter. -/
inductive SharedCtr
  | l2 (c : Fin 4)
  | l3 (c : Fin 4)
  deriving DecidableEq, Repr

/-- What the table has about the counter, when it is allocated: the event, with
the L3 PMU its banks too. -/
def SharedPmu.recorded (s : SharedPmu) : SharedCtr → Option (U32 ⊕ L3PmuEvent)
  | .l2 c =>
    if s.l2.activeEvents c = sbiPmuEventIdxInvalid then none else some (.inl (s.l2.activeEvents c))
  | .l3 c =>
    if (s.l3.activeEvents c).IsActive then some (.inr (s.l3.activeEvents c)) else none

/-- A stop with `SBI_PMU_STOP_FLAG_RESET` of the counter, that is not refused for naming more than
the four counters. -/
def StopResets (cbase cmask flags : U64) (c : ℕ) : Prop :=
  hasFlag flags sbiPmuStopFlagReset ∧ sbiFls (shl cmask cbase) < 4 ∧ cbase.toNat ≤ c ∧
    (shl cmask cbase).getLsbD c = true

/-- The event gives the counter back. -/
def SharedPmuEvent.Frees : SharedPmuEvent → SharedCtr → Prop
  | .l2 (.stop cbase cmask flags), .l2 c => StopResets cbase cmask flags c
  | .l3 (.stop cbase cmask flags), .l3 c => StopResets cbase cmask flags c
  | _, _ => False

/-- Whatever is allocated at some point of the run stays so, as it was recorded,
as long as no stop frees it. -/
def AllocationsLast (hw : SharedPmuHw) (s : SharedPmu) (events : List SharedPmuEvent) : Prop :=
  ∀ before during after, events = before ++ during ++ after → ∀ k r,
    (run hw.next s before).recorded k = some r → (∀ e ∈ during, ¬ e.Frees k) →
      (run hw.next s (before ++ during)).recorded k = some r

/-- No hart comes online while a counter is allocated. -/
def QuietInit (s : SharedPmu) (e : SharedPmuEvent) : Prop :=
  e = .hartInit → ∀ k, s.recorded k = none

/-! ## What a call leaves in the L2 table -/

section L2

variable (hw : L2Hw) {s : L2Pmu} {c : ℕ}

@[simp] theorem pmuCtrValidate_activeEvents (s : L2Pmu) (i : ℕ) :
    (pmuCtrValidate hw i s).2.activeEvents = s.activeEvents := by
  rw [pmuCtrValidate]
  simp only
  split_ifs <;> rfl

@[simp] theorem startHw_activeEvents_l2 {cidx : U32} {ival : U64} {update : Prop}
    [Decidable update] :
    (scrL2PmuCtrStartHw hw cidx ival update s).activeEvents = s.activeEvents := by
  rw [scrL2PmuCtrStartHw]
  split_ifs <;> rfl

@[simp] theorem skipMatch_activeEvents_l2 {flags : U64} {cidx : U32} :
    (l2SkipMatch hw flags cidx s).2.2.activeEvents = s.activeEvents := by
  rw [l2SkipMatch, scrL2PmuCtrStartHw]
  simp only [if_false, ite_self]
  split_ifs <;> rfl

@[simp] theorem resetEvent_activeEvents {i : ℕ} :
    (scrL2PmuResetEvent hw i s).activeEvents = s.activeEvents := by
  rw [scrL2PmuResetEvent]
  split_ifs <;> rfl

/-- A configuration leaves the entry of a counter in use: it is looking for a free one, or with
`SKIP_MATCH` changes no entry. -/
theorem cfgMatch_entry_l2 {cidxBase cidxMask flags eventIdx data1 : U64}
    (hbusy : s.activeEvents c ≠ sbiPmuEventIdxInvalid) :
    (sbiL2PmuCtrCfgMatch hw cidxBase cidxMask flags eventIdx data1 s).2.2.activeEvents c =
      s.activeEvents c := by
  have h := sbiL2PmuCtrCfgMatch_spec hw s cidxBase cidxMask flags eventIdx data1
  generalize sbiL2PmuCtrCfgMatch hw cidxBase cidxMask flags eventIdx data1 s = r at h ⊢
  cases h with
  | refused | noEvent | skipFree | full => rfl
  | skip => rw [skipMatch_activeEvents_l2, readActive_activeEvents]
  | found _ _ _ i hi =>
    have hne : c ≠ i := by
      rintro rfl
      exact hbusy hi.free
    rw [skipMatch_activeEvents_l2, programL2, writeActive_activeEvents, Function.update_of_ne hne]
    rfl

/-- A start leaves the table of the L2 unit. -/
theorem start_activeEvents_l2 {cbase cmask flags data1 : U64} :
    (sbiL2PmuCtrStart hw cbase cmask flags data1 s).2.2.activeEvents = s.activeEvents := by
  simp only [sbiL2PmuCtrStart_eq]
  split_ifs
  · refine runUntil_inv (fun t : ℤ × L2Pmu => t.2.activeEvents = s.activeEvents)
      (fun b _ t ht => ?_) rfl
    simp only [l2StartBody]
    split_ifs <;> simp [ht]
  · rfl

/-- A stop leaves an entry unless it is to reset it. -/
theorem stop_entry_l2 {cbase cmask flags : U64} (hstop : ¬ StopResets cbase cmask flags c) :
    (sbiL2PmuCtrStop hw cbase cmask flags s).2.2.activeEvents c = s.activeEvents c := by
  simp only [sbiL2PmuCtrStop_eq]
  split_ifs with hfls
  · refine runUntil_inv (fun t : L2Pmu => t.activeEvents c = s.activeEvents c)
      (fun b hb t ht => ?_) rfl
    obtain ⟨hle, _, hbit⟩ := mem_counters.mp hb
    simp only [l2StopBody]
    split_ifs with hinvalid hreset
    · simpa using ht
    · have hne : c ≠ b := by
        rintro rfl
        exact hstop ⟨hreset, hfls, hle, hbit⟩
      simpa [Function.update_of_ne hne] using ht
    · simpa using ht
  · rfl

/-- A read leaves the table. -/
theorem hwCtrRead_activeEvents_l2 {cidx : U64} :
    (sbiL2PmuHwCtrRead hw cidx s).2.2.activeEvents = s.activeEvents := by
  simp only [sbiL2PmuHwCtrRead, scrL2PmuRead]
  split_ifs <;> rfl

end L2

/-! ## What a call leaves in the L3 table -/

section L3

variable (hw : L3Hw) {s : L3Pmu} {c : ℕ}

@[simp] theorem validate_activeEvents (cidx : U32) (s : L3Pmu) :
    (scrL3PmuEventValidate cidx s).2.activeEvents = s.activeEvents := by
  rw [scrL3PmuEventValidate]
  split_ifs <;> rfl

/-- The counters are registers, and no part of the table. -/
@[simp] theorem writeCntr_activeEvents {banksMask val : U64} {cidx : U32} :
    (scrL3PmuWriteCntr hw banksMask cidx val s).activeEvents = s.activeEvents := by
  refine forEachBank_inv (fun t : L3Pmu => t.activeEvents = s.activeEvents)
    (fun bank _ t ht => ?_) rfl
  exact ht

@[simp] theorem readCntr_activeEvents {banksMask : U64} {cidx : U32} :
    (scrL3PmuReadCntr hw banksMask cidx s).2.activeEvents = s.activeEvents := by
  refine forEachBank_inv (fun t : U64 × L3Pmu => t.2.activeEvents = s.activeEvents)
    (fun bank _ t ht => ?_) rfl
  exact ht

/-- With `SKIP_MATCH` the table keeps its entry. -/
@[simp] theorem skipMatch_activeEvents {flags eventType : U64} {banksMask : U32} {i : ℕ} :
    (l3SkipMatch hw flags banksMask eventType i s).2.2.activeEvents = s.activeEvents := by
  rw [l3SkipMatch]
  simp only
  split_ifs <;> simp [startHw_activeEvents]

/-- The L3 unit likewise: a configuration leaves the entry of a counter in use. -/
theorem cfgMatch_entry {cidxBase cidxMask flags eventIdx data1 : U64} (hbusy : s.Busy c) :
    (sbiL3PmuCtrCfgMatch hw cidxBase cidxMask flags eventIdx data1 s).2.2.activeEvents c =
      s.activeEvents c := by
  have h := sbiL3PmuCtrCfgMatch_spec hw s cidxBase cidxMask flags eventIdx data1
  generalize sbiL3PmuCtrCfgMatch hw cidxBase cidxMask flags eventIdx data1 s = r at h ⊢
  cases h with
  | noBanks | noEvent | skipBeyond | skipFree | beyond | full | noSupport => rfl
  | skip => rw [skipMatch_activeEvents, readActive_activeEvents]
  | found _ _ _ i hi =>
    have hne : c ≠ i := by
      rintro rfl
      exact hi.free hbusy
    rw [skipMatch_activeEvents, programL3, writeActive_activeEvents, Function.update_of_ne hne]
    rfl

/-- A start leaves the table of the L3 unit. -/
theorem start_activeEvents {cbase cmask flags data1 : U64} :
    (sbiL3PmuCtrStart hw cbase cmask flags data1 s).2.2.activeEvents = s.activeEvents := by
  simp only [sbiL3PmuCtrStart_eq]
  split_ifs
  · refine runUntil_inv (fun t : ℤ × L3Pmu => t.2.activeEvents = s.activeEvents)
      (fun b _ t ht => ?_) rfl
    simp only [l3StartBody]
    split_ifs <;> simp [startHw_activeEvents, ht]
  · rfl

/-- A stop leaves an entry unless it is to reset it. -/
theorem stop_entry {cbase cmask flags : U64} (hstop : ¬ StopResets cbase cmask flags c) :
    (sbiL3PmuCtrStop hw cbase cmask flags s).2.2.activeEvents c = s.activeEvents c := by
  simp only [sbiL3PmuCtrStop_eq]
  split_ifs with hfls
  · refine runUntil_inv (fun t : L3Pmu => t.activeEvents c = s.activeEvents c)
      (fun b hb t ht => ?_) rfl
    obtain ⟨hle, _, hbit⟩ := mem_counters.mp hb
    have hhw : ∀ t : L3Pmu, (scrL3PmuCtrStopHw hw (BitVec.ofNat 32 b) t).activeEvents =
        t.activeEvents := fun t => rfl
    simp only [l3StopBody]
    split_ifs with hinvalid hreset
    · simpa using ht
    · have hne : c ≠ b := by
        rintro rfl
        exact hstop ⟨hreset, hfls, hle, hbit⟩
      simpa [hhw, Function.update_of_ne hne] using ht
    · simpa [hhw] using ht
  · rfl

/-- A read leaves the table. -/
theorem hwCtrRead_activeEvents {cidx : U64} :
    (sbiL3PmuHwCtrRead hw cidx s).2.2.activeEvents = s.activeEvents := by
  simp only [sbiL3PmuHwCtrRead]
  split_ifs <;> simp

end L3

/-! ## Steps -/

variable (hw : SharedPmuHw) {s : SharedPmu} {e : SharedPmuEvent} {k : SharedCtr}
  {r : U32 ⊕ L3PmuEvent}

/-- What the L2 unit has recorded for a counter: its entry, where that is not the sentinel. -/
theorem recorded_l2 {c : Fin 4} :
    s.recorded (.l2 c) = some r ↔
      s.l2.activeEvents c ≠ sbiPmuEventIdxInvalid ∧ r = .inl (s.l2.activeEvents c) := by
  rw [SharedPmu.recorded]
  split_ifs with h <;> simp [h, eq_comm]

/-- What the L3 unit has recorded. -/
theorem recorded_l3 {c : Fin 4} :
    s.recorded (.l3 c) = some r ↔ s.l3.Busy c ∧ r = .inr (s.l3.activeEvents c) := by
  rw [SharedPmu.recorded, Busy]
  split_ifs with h <;> simp [h, eq_comm]

/-- **A call** keeps what it does not free: a counter that has an event keeps just that event, in
all three units, unless the call stops the counter and resets it. -/
theorem recorded_call (he : e ≠ .hartInit) (hfrees : ¬ e.Frees k) (hrec : s.recorded k = some r) :
    (hw.next s e).recorded k = some r := by
  have hsame : ∀ t : SharedPmu, (∀ c : Fin 4, k = .l2 c → s.l2.activeEvents c ≠
      sbiPmuEventIdxInvalid → t.l2.activeEvents c = s.l2.activeEvents c) →
      (∀ c : Fin 4, k = .l3 c → s.l3.Busy c → t.l3.activeEvents c = s.l3.activeEvents c) →
      t.recorded k = some r := by
    intro t hl2 hl3
    cases k with
    | l2 c =>
      obtain ⟨hbusy, hr⟩ := recorded_l2.mp hrec
      have heq := hl2 c rfl hbusy
      exact recorded_l2.mpr ⟨heq ▸ hbusy, heq ▸ hr⟩
    | l3 c =>
      obtain ⟨hbusy, hr⟩ := recorded_l3.mp hrec
      have heq := hl3 c rfl hbusy
      exact recorded_l3.mpr ⟨by rw [Busy, heq]; exact hbusy, heq ▸ hr⟩
  cases e with
  | l2 call =>
    refine hsame _ (fun c hk hbusy => ?_) fun _ _ _ => rfl
    subst hk
    cases call with
    | cfgMatch => exact cfgMatch_entry_l2 hw.l2 hbusy
    | start => exact congrFun (start_activeEvents_l2 hw.l2) c
    | stop => exact stop_entry_l2 hw.l2 hfrees
    | hwCtrRead => exact congrFun (hwCtrRead_activeEvents_l2 hw.l2) c
  | l3 call =>
    refine hsame _ (fun _ _ _ => rfl) fun c hk hbusy => ?_
    subst hk
    cases call with
    | cfgMatch => exact cfgMatch_entry hw.l3 hbusy
    | start => exact congrFun (start_activeEvents hw.l3) c
    | stop => exact stop_entry hw.l3 hfrees
    | hwCtrRead => exact congrFun (hwCtrRead_activeEvents hw.l3) c
  | hartInit => exact absurd rfl he

/-- `hart_init` frees all counters. -/
theorem recorded_hartInit (s : SharedPmu) (k : SharedCtr) : s.hartInit.recorded k = none := by
  cases k with
  | l2 c => simp [SharedPmu.recorded, SharedPmu.hartInit, scrFdtL2PmuInit, scrL2PmuCtrNum]
  | l3 c =>
    simp [SharedPmu.recorded, SharedPmu.hartInit, scrFdtL3PmuInit, scrL3PmuCounters,
      L3PmuEvent.IsActive]

/-! ## Runs -/

/-- Part of a run without a stop that frees the counter. -/
theorem recorded_run {events : List SharedPmuEvent} :
    ∀ {s : SharedPmu}, EachStep hw.next QuietInit s events → (∀ e ∈ events, ¬ e.Frees k) →
      s.recorded k = some r → (run hw.next s events).recorded k = some r := by
  induction events with
  | nil =>
    intro s _ _ hrec
    exact hrec
  | cons e events ih =>
    rintro s ⟨hquiet, hrest⟩ hfrees hrec
    obtain ⟨hfree, hfrees⟩ := List.forall_mem_cons.mp hfrees
    refine ih hrest hfrees (recorded_call hw (fun he => ?_) hfree hrec)
    rw [hquiet he k] at hrec
    cases hrec

/-- **Allocations last** exactly when no hart comes online while a counter is allocated. The tables
of the cache units are shared by the harts, and `hart_init` clears them for each. -/
theorem allocations_last_iff (hw : SharedPmuHw) (s : SharedPmu) (events : List SharedPmuEvent) :
    AllocationsLast hw s events ↔ EachStep hw.next QuietInit s events := by
  constructor
  · intro hlast
    refine eachStep_iff_split.mpr fun before e after hevents he k => ?_
    rcases hrec : (run hw.next s before).recorded k with _ | r
    · rfl
    · subst he
      have hsplit : events = before ++ [.hartInit] ++ after := by simpa using hevents
      have hkept := hlast before [.hartInit] after hsplit k r hrec (by simp [SharedPmuEvent.Frees])
      rw [run_append] at hkept
      cases (recorded_hartInit _ k).symm.trans hkept
  · rintro hquiet before during after rfl k r hrec hfrees
    rw [eachStep_append, eachStep_append] at hquiet
    rw [run_append]
    exact recorded_run hw hquiet.1.2 hfrees hrec

/-- The caches `L2Hw.sample` and `L3Hw.sample`. -/
def SharedPmuHw.sample : SharedPmuHw where
  l2 := L2Hw.sample
  l3 := L3Hw.sample

/-- Hart 1 is started after hart 0 has taken counter 0 of the L3 PMU for event 1. -/
theorem hartInit_frees_counter :
    ¬ AllocationsLast SharedPmuHw.sample
      (SharedPmu.hartInit ⟨⟨fun _ => 0#32, []⟩, ⟨fun _ => ⟨0#64, 0#32, 0#32⟩, []⟩⟩)
      [.l3 (.cfgMatch 0#64 1#64 0#64 1#64 0x100#64), .hartInit] := by
  intro hlast
  have hkept := hlast [.l3 (.cfgMatch 0#64 1#64 0#64 1#64 0x100#64)] [.hartInit] [] rfl (.l3 0)
    (.inr ⟨1#64, 1#32, 1#32⟩) (by decide +kernel) (by simp [SharedPmuEvent.Frees])
  revert hkept
  decide +kernel

end ScBl
