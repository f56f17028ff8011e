import ScBl.Pmu.StartStop

/-!
# The requested counters

A caller names a set of counters by a base and a mask: `base + i` for the set bits
`i` of the mask. The code computes with the shifted mask, which the hardware
shifts modulo 64, or with an `int`. For bases below 64 these are the requested
counters; from 64 on no counter is requested, but calls may still act
(`only_requested_iff`).
-/

namespace ScBl

open Loops Runs Words

/-- A call that succeeds returns a requested counter, and changes no other. -/
def OnlyRequested (hw : PmuHw) (s : Pmu) (e : PmuCall) : Prop :=
  match e with
  | .cfgMatch base mask _ _ _ =>
    ∀ out s', mcallExtPmu hw s e = some (sbiErrorSuccess, out, s') → Requested base mask out.toNat
  | .start base mask _ _ _ | .stop base mask _ =>
    ∀ out s', mcallExtPmu hw s e = some (sbiErrorSuccess, out, s') →
      ∀ c < 64, s'.ctr c ≠ s.ctr c → Requested base mask c
  | _ => True

/-- Starting the counter would change nothing. -/
def Pmu.AlreadyStarted (s : Pmu) (flags init : U64) (c : ℕ) : Prop :=
  (s.ctr c).inhibited = false ∧
    (hasFlag flags sbiPmuStartFlagSetInitValue ∧ c ≤ pmuHwCtrMax → (s.ctr c).value = init)

/-- Stopping the counter would change nothing. -/
def Pmu.AlreadyStopped (s : Pmu) (w flags : U64) (c : ℕ) : Prop :=
  ((inhibitable w).getLsbD c = true → (s.ctr c).inhibited = true) ∧
    (hasFlag flags sbiPmuStopFlagReset →
      s.Free c ∧ (Programmable c → (s.ctr c).selector = 0#64))

/-- The base is in range, or the call fails, or it finds nothing to change. -/
def PmuCall.BaseInRange (w : U64) (s : Pmu) : PmuCall → Prop
  | .cfgMatch base mask flags eventIdx data1 =>
    base.toNat < 64 ∨ (∀ selector, pmuFindEventSelector eventIdx data1 ≠ .ok selector) ∨
      ∀ c, ¬ s.LeadsTo base mask flags c
  | .start base mask flags data1 _ =>
    base.toNat < 64 ∨ ¬ s.Accepts (shl mask base) ∨
      ∀ c, (shl mask base).getLsbD c = true → s.AlreadyStarted flags data1 c
  | .stop base mask flags =>
    base.toNat < 64 ∨ ¬ s.Accepts (shl mask base) ∨
      ∀ c, (shl mask base).getLsbD c = true → s.AlreadyStopped w flags c
  | _ => True

variable {hw : PmuHw} {w : U64} {s : Pmu} {flags init base mask : U64} {mip : ℕ → U64} {c : ℕ}

/-! ## Configuring -/

/-- The `int` is the sum, for bases in range. -/
theorem toNat_skipMatchCntr (hbase : base.toNat < 64) (hmask : mask ≠ 0#64) :
    (skipMatchCntr base mask).toNat = base.toNat + sbiFfs mask := by
  have hffs := sbiFfs_lt hmask
  have hsum : (base + BitVec.ofNat 64 (sbiFfs mask)).toNat = base.toNat + sbiFfs mask := by
    rw [BitVec.toNat_add, BitVec.toNat_ofNat]
    omega
  have hsmall : ((base + BitVec.ofNat 64 (sbiFfs mask)).setWidth 32).toNat =
      base.toNat + sbiFfs mask := by
    rw [BitVec.toNat_setWidth, hsum]
    omega
  rw [skipMatchCntr, toNat_signExtend_of_lt (by decide) (by omega), hsmall]

/-- What `sbi_pmu_ctr_cfg_match` is led to is requested, for bases in range. -/
theorem Pmu.LeadsTo.requested (hbase : base.toNat < 64) (h : s.LeadsTo base mask flags c) :
    Requested base mask c := by
  rw [Pmu.LeadsTo] at h
  split_ifs at h with hskip
  · obtain ⟨hmask, rfl, _⟩ := h
    exact ⟨_, (sbiFfs_spec hmask).1, toNat_skipMatchCntr hbase hmask⟩
  · exact requested_of_shl hbase (getLsbD_findMask h.2.1).2

/-! ## What changes nothing -/

theorem startCtr_eq_self_iff :
    startCtr flags init mip c (s.ctr c) = s.ctr c ↔ s.AlreadyStarted flags init c := by
  rw [Pmu.AlreadyStarted]
  constructor
  · intro heq
    have hinh := congrArg PmuCtr.inhibited heq
    have hvalue := congrArg PmuCtr.value heq
    refine ⟨hinh.symm, fun hinit => ?_⟩
    simp only [startCtr, if_pos hinit] at hvalue
    exact hvalue.symm
  · rintro ⟨hinh, hvalue⟩
    rw [startCtr_of_started hinh]
    split_ifs with hinit
    · rw [← hvalue hinit]
    · rfl

theorem stopCtr_eq_self_iff :
    stopCtr w flags c (s.ctr c) = s.ctr c ↔ s.AlreadyStopped w flags c := by
  rw [Pmu.AlreadyStopped]
  constructor
  · intro heq
    have hinh := congrArg PmuCtr.inhibited heq
    have hevent := congrArg PmuCtr.event heq
    have hselector := congrArg PmuCtr.selector heq
    refine ⟨fun hset => ?_, fun hreset => ⟨?_, fun hprog => ?_⟩⟩
    · simpa [stopCtr, hset] using hinh.symm
    · simp only [stopCtr, if_pos hreset] at hevent
      exact hevent.symm
    · simp only [stopCtr, if_pos (And.intro hreset hprog)] at hselector
      exact hselector.symm
  · rintro ⟨hinh, hfree⟩
    have hevent : hasFlag flags sbiPmuStopFlagReset → (s.ctr c).event = sbiPmuEventNotSupp :=
      fun hreset => (hfree hreset).1
    have hselector := fun hreset => (hfree hreset).2
    generalize s.ctr c = r at hinh hevent hselector
    obtain ⟨inhibited, event, value, selector⟩ := r
    simp only [stopCtr, PmuCtr.mk.injEq, true_and]
    refine ⟨?_, ?_, ?_⟩
    · rcases hset : (inhibitable w).getLsbD c with _ | _
      · exact Bool.or_false _
      · rw [Bool.or_true]
        exact (hinh hset).symm
    · split_ifs with hreset
      · exact (hevent hreset).symm
      · rfl
    · split_ifs with hreset
      · exact (hselector hreset.1 hreset.2).symm
      · rfl

/-- **A start or a stop**, by what it makes of the counters of its mask. The shift by the base wraps
at 64, so that a larger base reaches counters that are not asked for. -/
theorem onlyRequested_mask_iff {f : ℕ → PmuCtr → PmuCtr} {r : Option PmuResult}
    (hcall : ∃ s', r = some (if s.Accepts (shl mask base) then sbiErrorSuccess
        else sbiErrorInvalidParam, 0#64, s') ∧
      ∀ c, c < 64 → s'.ctr c = if c ∈ s.taken (shl mask base) then f c (s.ctr c) else s.ctr c) :
    (∀ out s', r = some (sbiErrorSuccess, out, s') →
        ∀ c < 64, s'.ctr c ≠ s.ctr c → Requested base mask c) ↔
      base.toNat < 64 ∨ ¬ s.Accepts (shl mask base) ∨
        ∀ c, (shl mask base).getLsbD c = true → f c (s.ctr c) = s.ctr c := by
  obtain ⟨s', rfl, hctr⟩ := hcall
  by_cases hacc : s.Accepts (shl mask base)
  · rw [if_pos hacc]
    have htaken := fun c => Pmu.mem_taken_of_accepts (c := c) hacc
    constructor
    · intro honly
      by_cases hbase : base.toNat < 64
      · exact .inl hbase
      · refine .inr (.inr fun c hbit => ?_)
        have hc := lt_of_getLsbD hbit
        by_contra hchange
        refine not_requested (Nat.le_of_not_lt hbase) hc (honly _ s' rfl c hc ?_)
        rw [hctr c hc, if_pos ((htaken c).mpr hbit)]
        exact hchange
    · intro hcond out s'' heq c hc hchange
      cases heq
      rw [hctr c hc] at hchange
      by_cases hbit : (shl mask base).getLsbD c = true
      · rw [if_pos ((htaken c).mpr hbit)] at hchange
        rcases hcond with hbase | hfail | hsame
        · exact requested_of_shl hbase hbit
        · exact absurd hacc hfail
        · exact absurd (hsame c hbit) hchange
      · rw [if_neg (fun hmem => hbit ((htaken c).mp hmem))] at hchange
        exact absurd rfl hchange
  · rw [if_neg hacc]
    refine ⟨fun _ => .inr (.inl hacc), fun _ out s'' heq => ?_⟩
    cases heq

/-- **A configuration**, by the counter that it is led to. Nothing can go wrong if the call has no
selector to store, or no counter to store it for. -/
theorem onlyRequested_cfgMatch_iff {eventIdx data1 : U64} (hs : s.Settled w) :
    (∀ out s', mcallExtPmu hw s (.cfgMatch base mask flags eventIdx data1) =
        some (sbiErrorSuccess, out, s') → Requested base mask out.toNat) ↔
      base.toNat < 64 ∨ (∀ selector, pmuFindEventSelector eventIdx data1 ≠ .ok selector) ∨
        ∀ c, ¬ s.LeadsTo base mask flags c := by
  obtain ⟨log, ⟨ret, hret, heq, hnone⟩ | ⟨c, selector, hleads, hsel, heq⟩⟩ :=
    sbiPmuCtrCfgMatch_eq hw hs.avail_le base mask flags eventIdx data1
  · rw [heq]
    refine iff_of_true (fun out s' h => ?_) ?_
    · cases h
      exact absurd rfl hret
    · by_cases hsel : ∃ selector, pmuFindEventSelector eventIdx data1 = .ok selector
      · obtain ⟨selector, hsel⟩ := hsel
        exact .inr (.inr fun c => hnone c selector hsel)
      · exact .inr (.inl fun selector h => hsel ⟨selector, h⟩)
  · have hle := hleads.le
    have hav := hs.avail_le
    have hout : (BitVec.ofNat 64 c).toNat = c := by
      rw [BitVec.toNat_ofNat, Nat.mod_eq_of_lt (by omega)]
    rw [heq, cfgMatchCounter]
    constructor
    · intro honly
      have hreq := honly _ _ rfl
      rw [hout] at hreq
      by_contra hcond
      have hbase : 64 ≤ base.toNat := Nat.le_of_not_lt fun h => hcond (.inl h)
      exact not_requested hbase (by omega) hreq
    · rintro (hbase | hnone | hnone) out s' h
      · cases h
        rw [hout]
        exact hleads.requested hbase
      · exact absurd hsel (hnone selector)
      · exact absurd hleads (hnone c)

/-- **Only requested counters**: exactly the calls with a base below 64 keep to the
counters that the caller names, but for those that fail or find nothing to change. -/
theorem only_requested_iff (hwr : hw.WritesMask w) (s₀ : Pmu) (havail : s₀.avail ≤ 32)
    (steps : List PmuStep) (e : PmuCall) :
    OnlyRequested hw (run hw.step (hartInit hw s₀) steps) e ↔
      e.BaseInRange w (run hw.step (hartInit hw s₀) steps) := by
  have hs := settled_run hwr havail steps
  generalize run hw.step (hartInit hw s₀) steps = s at hs ⊢
  cases e with
  | cfgMatch base mask flags eventIdx data1 =>
    exact onlyRequested_cfgMatch_iff hs
  | start base mask flags data1 mip =>
    obtain ⟨s', heq, _, _, _, hctr⟩ := sbiPmuCtrStart_taken hwr hs base mask flags data1 mip
    refine (onlyRequested_mask_iff ⟨s', heq, hctr⟩).trans ?_
    simp only [PmuCall.BaseInRange, startCtr_eq_self_iff]
  | stop base mask flags =>
    obtain ⟨s', heq, _, _, _, hctr⟩ := sbiPmuCtrStop_taken hwr hs base mask flags
    refine (onlyRequested_mask_iff ⟨s', heq, hctr⟩).trans ?_
    simp only [PmuCall.BaseInRange, stopCtr_eq_self_iff]
  | _ => exact Iff.rfl

/-- Counter 3 by base 1 and mask 4. -/
theorem only_requested_base_one :
    OnlyRequested PmuHw.sample
      (run PmuHw.sample.step (hartInit PmuHw.sample Pmu.reset) [.call .numCtr])
      (.cfgMatch 1#64 4#64 0#64 1#64 0#64) :=
  (only_requested_iff PmuHw.sample_writesMask Pmu.reset (by decide) _ _).mpr (.inl (by decide))

/-- Base 67 and mask 1 get counter 3. -/
theorem base_beyond_word_not_requested :
    ¬ OnlyRequested PmuHw.sample
      (run PmuHw.sample.step (hartInit PmuHw.sample Pmu.reset) [.call .numCtr])
      (.cfgMatch 67#64 1#64 0#64 1#64 0#64) := by
  intro honly
  have hcall := PmuHw.sample.call_eq_next
    (run PmuHw.sample.step (hartInit PmuHw.sample Pmu.reset) [.call .numCtr])
    (.cfgMatch 67#64 1#64 0#64 1#64 0#64) sbiErrorSuccess 3#64 (by decide +kernel)
  exact not_requested (by decide) (by decide) (honly _ _ hcall)

end ScBl
