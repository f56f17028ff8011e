import ScBl.Pmu.StartStop

/-!
# What the event registers hold

`mhpmevent` of a counter is written from three places: `sbi_pmu_ctr_cfg_match`
programs the selector with the overflow bit, `sbi_pmu_ctr_start` the table entry,
`sbi_pmu_ctr_stop` zero. The table entry of a counter that is not configured is
the marker of a free counter, and start does not look: so the registers hold
configured events as long as no such counter is started (`event_registers_iff`).

Next to the hart runs a record of the selector that each counter was last
configured with.
-/

namespace ScBl

open Loops Runs Words

/-! ## The record of configured events -/

/-- A hart and the selector last configured for each counter. -/
structure PmuHistory where
  pmu : Pmu
  configured : ℕ → Option U64

/-- The record after a step: a `sbi_pmu_ctr_cfg_match` that succeeds configures
the counter it returns with the selector, mode filters included. -/
def PmuHw.configuredAfter (hw : PmuHw) (h : PmuHistory) : PmuStep → ℕ → Option U64
  | .call (.cfgMatch cidxBase cidxMask flags eventIdx data1) =>
    match mcallExtPmu hw h.pmu (.cfgMatch cidxBase cidxMask flags eventIdx data1),
        pmuFindEventSelector eventIdx data1 with
    | some (ret, out, _), .ok selector =>
      if ret = sbiErrorSuccess then
        Function.update h.configured out.toNat (some (sbiPmuApplyHwFlags flags selector))
      else h.configured
    | _, _ => h.configured
  | _ => h.configured

def PmuHw.record (hw : PmuHw) (h : PmuHistory) (e : PmuStep) : PmuHistory where
  pmu := hw.step h.pmu e
  configured := hw.configuredAfter h e

/-- After `hart_init`, when nothing was configured yet. -/
def PmuHistory.start (hw : PmuHw) (s : Pmu) : PmuHistory where
  pmu := hartInit hw s
  configured := fun _ => none

/-- `value` is 0 or the configured selector, with or without the overflow bit. -/
def IsConfigured (configured : Option U64) (value : U64) : Prop :=
  value = 0#64 ∨
    ∃ selector, configured = some selector ∧ value ||| mhpmeventOf = selector ||| mhpmeventOf

/-- The event registers hold configured events. -/
def PmuHistory.Lawful (h : PmuHistory) : Prop :=
  ∀ c, Programmable c → IsConfigured (h.configured c) (h.pmu.ctr c).selector

/-- The step starts counter `c`, which is inhibited, with no overflow interrupt
pending. -/
def StartsCtr (s : Pmu) (c : ℕ) : PmuStep → Prop
  | .call (.start cbase cmask _ _ mip) =>
    s.Accepts (shl cmask cbase) ∧ (shl cmask cbase).getLsbD c = true ∧
      s.mcountinhibit.getLsbD c = true ∧ mip c &&& (1#64 <<< 13) = 0#64
  | _ => False

/-- The step starts a counter whose entry is the marker of a free counter; and that
is not what it was configured with. -/
def StartsFree (h : PmuHistory) (e : PmuStep) : Prop :=
  ∃ c, Programmable c ∧ StartsCtr h.pmu c e ∧ h.pmu.Free c ∧
    ¬ IsConfigured (h.configured c) sbiPmuEventNotSupp

variable {hw : PmuHw} {w : U64} {h : PmuHistory} {c : ℕ}

/-- The entry of a counter that is not free is what it was configured with. -/
structure PmuHistory.Sound (w : U64) (h : PmuHistory) : Prop where
  settled : h.pmu.Settled w
  entry : ∀ c, Programmable c → h.pmu.Free c ∨ h.configured c = some (h.pmu.activeEvents c)

/-! ## One step -/

/-- A step leaves the event of counter `c` alone, except for the overflow bit. -/
def SameCtr (h h' : PmuHistory) (c : ℕ) : Prop :=
  h'.configured c = h.configured c ∧ h'.pmu.activeEvents c = h.pmu.activeEvents c ∧
    ((h'.pmu.ctr c).selector = (h.pmu.ctr c).selector ∨
      ((h.pmu.ctr c).selector ≠ 0#64 ∧
        (h'.pmu.ctr c).selector ||| mhpmeventOf = (h.pmu.ctr c).selector ||| mhpmeventOf))

/-- A step configures counter `c`. -/
def Configures (h' : PmuHistory) (c : ℕ) : Prop :=
  ∃ event, h'.configured c = some event ∧ h'.pmu.activeEvents c = event ∧
    (h'.pmu.ctr c).selector = event ||| mhpmeventOf

/-- A step frees counter `c`. -/
def FreesCtr (h' : PmuHistory) (c : ℕ) : Prop :=
  h'.pmu.Free c ∧ (h'.pmu.ctr c).selector = 0#64

/-- A step programs the entry of counter `c`. -/
def ProgramsEntry (h h' : PmuHistory) (c : ℕ) : Prop :=
  h'.configured c = h.configured c ∧ h'.pmu.activeEvents c = h.pmu.activeEvents c ∧
    (h'.pmu.ctr c).selector = h.pmu.activeEvents c

theorem programmable_lt (hc : Programmable c) : c < 64 := by
  have := hc.2
  rw [pmuHwCtrMax] at this
  omega

/-- `sbi_pmu_ctr_cfg_match` configures the counter it returns, or leaves the counter alone: a call
that fails has written no event. -/
theorem record_cfgMatch (hs : h.pmu.Settled w) (cidxBase cidxMask flags eventIdx data1 : U64)
    (hc : Programmable c) :
    SameCtr h (hw.record h (.call (.cfgMatch cidxBase cidxMask flags eventIdx data1))) c ∨
      Configures (hw.record h (.call (.cfgMatch cidxBase cidxMask flags eventIdx data1))) c := by
  simp only [PmuHw.record, PmuHw.step, PmuHw.configuredAfter]
  obtain ⟨log, ⟨ret, hret, heq, _⟩ | ⟨b, selector, hleads, hsel, heq⟩⟩ :=
    sbiPmuCtrCfgMatch_eq hw hs.avail_le cidxBase cidxMask flags eventIdx data1
  · rw [PmuHw.next_eq heq, heq]
    left
    rcases hsel : pmuFindEventSelector eventIdx data1 with _ | selector
    · exact ⟨rfl, rfl, .inl rfl⟩
    · simp only [if_neg hret]
      exact ⟨rfl, rfl, .inl rfl⟩
  · have hle := hleads.le
    have hav := hs.avail_le
    have hout : (BitVec.ofNat 64 b).toNat = b := by
      rw [BitVec.toNat_ofNat, Nat.mod_eq_of_lt (by omega)]
    have hctr := cfgMatchCounter_ctr (s := { h.pmu with log := log }) hav hle (programmable_lt hc)
      flags selector
    rw [PmuHw.next_eq heq, heq, hsel]
    simp only [cfgMatchCounter, if_pos, hout] at hctr ⊢
    by_cases hcb : c = b
    · subst hcb
      rw [if_pos rfl, if_pos hc] at hctr
      exact .inr ⟨_, Function.update_self .., congrArg PmuCtr.event hctr,
        congrArg PmuCtr.selector hctr⟩
    · rw [if_neg hcb] at hctr
      exact .inl ⟨Function.update_of_ne hcb .., congrArg PmuCtr.event hctr,
        .inl (congrArg PmuCtr.selector hctr)⟩

/-- `sbi_pmu_ctr_start` programs the entries of the counters it starts. It reads them from the
table, where a counter that is free has the sentinel. -/
theorem record_start (hwr : hw.WritesMask w) (hs : h.pmu.Settled w)
    (cbase cmask flags data1 : U64) (mip : ℕ → U64) (hc : Programmable c) :
    let e := PmuStep.call (.start cbase cmask flags data1 mip)
    (¬ StartsCtr h.pmu c e ∧ SameCtr h (hw.record h e) c) ∨
      (StartsCtr h.pmu c e ∧ ProgramsEntry h (hw.record h e) c) := by
  obtain ⟨s', heq, _, _, _, hctr⟩ :=
    sbiPmuCtrStart_taken hwr hs cbase cmask flags data1 mip
  have hctr := hctr c (programmable_lt hc)
  have hevent : s'.activeEvents c = h.pmu.activeEvents c := by
    have hevent := congrArg PmuCtr.event hctr
    split_ifs at hevent <;> exact hevent
  have hselector := congrArg PmuCtr.selector hctr
  have htaken := Pmu.mem_taken_iff h.pmu (shl cmask cbase) (c := c)
    (by have := hc.1; omega)
  simp only [PmuHw.record, PmuHw.step, PmuHw.configuredAfter, PmuHw.next_eq heq, StartsCtr]
  by_cases hmem : c ∈ h.pmu.taken (shl cmask cbase)
  · obtain ⟨hacc, hbit⟩ := htaken.mp hmem
    rw [if_pos hmem] at hselector
    simp only [startCtr] at hselector
    by_cases hstarts : (h.pmu.ctr c).inhibited = true ∧ mip c &&& (1#64 <<< 13) = 0#64
    · rw [if_pos ⟨hstarts.1, hstarts.2, hc⟩] at hselector
      exact .inr ⟨⟨hacc, hbit, hstarts⟩, rfl, hevent, hselector⟩
    · rw [if_neg fun hs => hstarts ⟨hs.1, hs.2.1⟩] at hselector
      exact .inl ⟨fun hs => hstarts hs.2.2, rfl, hevent, .inl hselector⟩
  · rw [if_neg hmem] at hselector
    exact .inl ⟨fun hs => hmem (htaken.mpr ⟨hs.1, hs.2.1⟩), rfl, hevent, .inl hselector⟩

/-- `sbi_pmu_ctr_stop` frees counters, or leaves their events alone. -/
theorem record_stop (hwr : hw.WritesMask w) (hs : h.pmu.Settled w) (cbase cmask flags : U64)
    (hc : Programmable c) :
    SameCtr h (hw.record h (.call (.stop cbase cmask flags))) c ∨
      FreesCtr (hw.record h (.call (.stop cbase cmask flags))) c := by
  obtain ⟨s', heq, _, _, _, hctr⟩ := sbiPmuCtrStop_taken hwr hs cbase cmask flags
  have hctr := hctr c (programmable_lt hc)
  have hevent := congrArg PmuCtr.event hctr
  have hselector := congrArg PmuCtr.selector hctr
  simp only [PmuHw.record, PmuHw.step, PmuHw.configuredAfter, PmuHw.next_eq heq]
  split_ifs at hevent hselector with hmem
  · by_cases hreset : hasFlag flags sbiPmuStopFlagReset
    · simp only [stopCtr, hreset, hc, and_self, if_true] at hevent hselector
      exact .inr ⟨hevent, hselector⟩
    · simp only [stopCtr, hreset, false_and, if_false] at hevent hselector
      exact .inl ⟨rfl, hevent, .inl hselector⟩
  · exact .inl ⟨rfl, hevent, .inl hselector⟩

/-- Setting or clearing the overflow bit. -/
theorem or_overflow (v : U64) (bit : Bool) :
    (if bit then v ||| mhpmeventOf else v &&& ~~~mhpmeventOf) ||| mhpmeventOf =
      v ||| mhpmeventOf := by
  cases bit with
  | true => rw [if_pos rfl, BitVec.or_assoc, BitVec.or_self]
  | false =>
    rw [if_neg (by decide)]
    refine BitVec.eq_of_getLsbD_eq fun i hi => ?_
    simp only [BitVec.getLsbD_or, BitVec.getLsbD_and, BitVec.getLsbD_not, hi, decide_true,
      Bool.true_and]
    cases v.getLsbD i <;> cases mhpmeventOf.getLsbD i <;> rfl

/-- The hardware sets and clears the overflow bit. Whether the event is the configured one is asked
for the other bits. -/
theorem record_overflow (b : ℕ) (bit : Bool) :
    SameCtr h (hw.record h (.overflow b bit)) c := by
  simp only [PmuHw.record, PmuHw.step, PmuHw.configuredAfter]
  by_cases hevent : Programmable b ∧ h.pmu.csr (csrMhpmevent3 + b - 3) ≠ 0#64
  · rw [if_pos hevent]
    refine ⟨rfl, rfl, ?_⟩
    by_cases hcb : c = b
    · subst hcb
      right
      simp only [Pmu.ctr, Function.update_self]
      exact ⟨hevent.2, or_overflow _ _⟩
    · have hne : csrMhpmevent3 + c - 3 ≠ csrMhpmevent3 + b - 3 := by
        rw [csrMhpmevent3]
        omega
      simp only [Pmu.ctr, Function.update_of_ne hne]
      exact .inl trivial
  · rw [if_neg hevent]
    exact ⟨rfl, rfl, .inl rfl⟩

theorem record_count (values : ℕ → U64) (hc : Programmable c) :
    SameCtr h (hw.record h (.count values)) c := by
  refine ⟨rfl, rfl, .inl (if_neg ?_)⟩
  have hlt := programmable_lt hc
  rw [csrMcycle, csrMhpmevent3]
  omega

/-- **What a step does to the event of a counter.** A start copies the entry of the table;
everything else leaves the event, or writes it together with the entry. -/
theorem record_cases (hwr : hw.WritesMask w) (hs : h.pmu.Settled w) (e : PmuStep)
    (hc : Programmable c) :
    (¬ StartsCtr h.pmu c e ∧ (SameCtr h (hw.record h e) c ∨ Configures (hw.record h e) c ∨
        FreesCtr (hw.record h e) c)) ∨
      (StartsCtr h.pmu c e ∧ ProgramsEntry h (hw.record h e) c) := by
  have hno : ∀ {p : Prop}, p → ¬ False ∧ p := fun hp => ⟨id, hp⟩
  cases e with
  | call e =>
    cases e with
    | numCtr =>
      refine .inl (hno (.inl ?_))
      simp only [PmuHw.record, PmuHw.step, PmuHw.configuredAfter,
        PmuHw.next_eq (sbiPmuNumCtr_eq hw h.pmu)]
      exact ⟨rfl, rfl, .inl rfl⟩
    | getInfo cidx =>
      refine .inl (hno (.inl ?_))
      simp only [PmuHw.record, PmuHw.step, PmuHw.configuredAfter, PmuHw.next, mcallExtPmu,
        sbiPmuCtrGetInfo]
      split_ifs <;> exact ⟨rfl, rfl, .inl rfl⟩
    | cfgMatch cidxBase cidxMask flags eventIdx data1 =>
      rcases record_cfgMatch hs cidxBase cidxMask flags eventIdx data1 hc with hsame | hconf
      · exact .inl (hno (.inl hsame))
      · exact .inl (hno (.inr (.inl hconf)))
    | start cbase cmask flags data1 mip =>
      rcases record_start hwr hs cbase cmask flags data1 mip hc with ⟨hnot, hsame⟩ | hprograms
      · exact .inl ⟨hnot, .inl hsame⟩
      · exact .inr hprograms
    | stop cbase cmask flags =>
      rcases record_stop hwr hs cbase cmask flags hc with hsame | hfrees
      · exact .inl (hno (.inl hsame))
      · exact .inl (hno (.inr (.inr hfrees)))
  | count values => exact .inl (hno (.inl (record_count values hc)))
  | overflow b bit => exact .inl (hno (.inl (record_overflow b bit)))

/-! ## Every run -/

/-- Every step keeps the entries what the counters were configured with, whether or not the event
registers are. -/
theorem sound_record (hwr : hw.WritesMask w) (hs : h.Sound w) (e : PmuStep) :
    (hw.record h e).Sound w where
  settled := settled_step hwr hs.settled e
  entry c hc := by
    rcases record_cases hwr hs.settled e hc with
      ⟨_, ⟨hconf, hact, _⟩ | ⟨event, hconf, hact, _⟩ | ⟨hfree, _⟩⟩ | ⟨_, hconf, hact, _⟩
    · rw [Pmu.Free, hconf, hact]
      exact hs.entry c hc
    · exact .inr (by rw [hconf, hact])
    · exact .inl hfree
    · rw [Pmu.Free, hconf, hact]
      exact hs.entry c hc

/-- The event of one counter after a step. It goes wrong where a start finds a counter that is free,
and programs the sentinel into it. -/
theorem isConfigured_record_iff (hwr : hw.WritesMask w) (hs : h.Sound w) (e : PmuStep)
    (hc : Programmable c) (hold : IsConfigured (h.configured c) (h.pmu.ctr c).selector) :
    IsConfigured ((hw.record h e).configured c) ((hw.record h e).pmu.ctr c).selector ↔
      ¬ (StartsCtr h.pmu c e ∧ h.pmu.Free c ∧
        ¬ IsConfigured (h.configured c) sbiPmuEventNotSupp) := by
  rcases record_cases hwr hs.settled e hc with ⟨hnot, hres⟩ | ⟨hstarts, hconf, _, hsel⟩
  · refine iff_of_true ?_ fun hstarts => hnot hstarts.1
    rcases hres with ⟨hconf, _, hsel | ⟨hnz, hsel⟩⟩ | ⟨event, hconf, _, hsel⟩ | ⟨_, hsel⟩
    · rw [hconf, hsel]
      exact hold
    · obtain ⟨selector, hlast, heq⟩ := hold.resolve_left hnz
      exact .inr ⟨selector, hconf.trans hlast, hsel.trans heq⟩
    · refine .inr ⟨event, hconf, ?_⟩
      rw [hsel, BitVec.or_assoc, BitVec.or_self]
    · exact .inl hsel
  · rw [hconf, hsel]
    by_cases hfree : h.pmu.Free c
    · have hentry : h.pmu.activeEvents c = sbiPmuEventNotSupp := hfree
      simp [hentry, hstarts, hfree]
    · have hlast := (hs.entry c hc).resolve_left hfree
      exact iff_of_true (.inr ⟨_, hlast, rfl⟩) fun hbad => hfree hbad.2.1

/-- **One step** from registers that hold configured events. -/
theorem lawful_record_iff (hwr : hw.WritesMask w) (hs : h.Sound w) (hlaw : h.Lawful)
    (e : PmuStep) : (hw.record h e).Lawful ↔ ¬ StartsFree h e := by
  simp only [PmuHistory.Lawful, StartsFree, not_exists]
  refine forall_congr' fun c => ?_
  rw [not_and]
  exact forall_congr' fun hc => isConfigured_record_iff hwr hs e hc (hlaw c hc)

theorem sound_start (hwr : hw.WritesMask w) {s : Pmu} (havail : s.avail ≤ 32) :
    (PmuHistory.start hw s).Sound w where
  settled := settled_hartInit hwr havail
  entry _ hc := .inl (if_pos hc.2)

/-- **The event registers hold configured events** in every state of a run, from
registers that are 0, exactly when no step of it starts a free counter. -/
theorem event_registers_iff (hwr : hw.WritesMask w) (s₀ : Pmu) (havail : s₀.avail ≤ 32)
    (steps : List PmuStep) :
    Throughout hw.record PmuHistory.Lawful (PmuHistory.start hw s₀) steps ↔
      (∀ c, Programmable c → s₀.csr (csrMhpmevent3 + c - 3) = 0#64) ∧
        EachStep hw.record (fun h e => ¬ StartsFree h e) (PmuHistory.start hw s₀) steps := by
  have hzero : (PmuHistory.start hw s₀).Lawful ↔
      ∀ c, Programmable c → s₀.csr (csrMhpmevent3 + c - 3) = 0#64 := by
    refine forall_congr' fun c => forall_congr' fun _ => ?_
    constructor
    · rintro (hz | ⟨selector, hnone, _⟩)
      · exact hz
      · cases hnone
    · exact .inl
  rw [← hzero]
  exact throughout_iff (PmuHistory.Sound w) (fun h e hs => sound_record hwr hs e)
    (fun h e hs hlaw => lawful_record_iff hwr hs hlaw e) (sound_start hwr havail)

/-- Counter 3 is configured, started, overflows and is stopped. -/
theorem event_registers_configured :
    Throughout PmuHw.sample.record PmuHistory.Lawful (PmuHistory.start PmuHw.sample Pmu.reset)
      [.call .numCtr, .call (.cfgMatch 3#64 1#64 0#64 1#64 0#64),
        .call (.start 3#64 1#64 0#64 0#64 fun _ => 0#64), .overflow 3 true,
        .call (.stop 3#64 1#64 sbiPmuStopFlagReset)] := by
  refine (event_registers_iff PmuHw.sample_writesMask Pmu.reset (by decide) _).mpr
    ⟨fun _ _ => rfl, ?_, ?_, ?_, ?_, ?_, trivial⟩
  · exact fun ⟨_, _, hstarts, _⟩ => hstarts
  · exact fun ⟨_, _, hstarts, _⟩ => hstarts
  · rintro ⟨c, _, ⟨_, hbit, _⟩, hfree, _⟩
    have heq : shl 1#64 3#64 = 1#64 <<< 3 := rfl
    rw [heq, getLsbD_one_shiftLeft (by decide), decide_eq_true_eq] at hbit
    subst hbit
    exact absurd hfree (by decide +kernel)
  · exact fun ⟨_, _, hstarts, _⟩ => hstarts
  · exact fun ⟨_, _, hstarts, _⟩ => hstarts

/-- Counter 3 is started without having been configured: its event register has
all bits set. -/
theorem event_registers_not_configured :
    ¬ Throughout PmuHw.sample.record PmuHistory.Lawful (PmuHistory.start PmuHw.sample Pmu.reset)
      [.call .numCtr, .call (.start 3#64 1#64 0#64 0#64 fun _ => 0#64)] := by
  intro hlaw
  rcases hlaw _ [] (List.append_nil _).symm 3 (by decide) with hzero | ⟨_, hnone, _⟩
  · exact absurd hzero (by decide +kernel)
  · cases hnone

end ScBl
