import ScBl.CachePmu.Requested

/-!
# The allocator of the L3 PMU

An entry in use keeps its event, the banks that count it and their number, and only the
event is cleared when the counter is given back. The three agree after every history of
calls, so that a start always divides its initial value by a number of banks that is not
zero (`l3_allocator_sound`).
-/

namespace ScBl

open Loops Runs CachePmu

/-! ## The number of banks -/

theorem popcount_eq_zero_iff {mask : U32} : popcount mask = 0 ↔ mask = 0#32 := by
  rw [popcount, List.length_eq_zero_iff]
  constructor
  · intro hnil
    refine BitVec.eq_of_getLsbD_eq fun i hi => ?_
    rw [BitVec.getLsbD_zero]
    by_contra hbit
    have hmem : i ∈ indicesIn mask.getLsbD 0 32 :=
      mem_indicesIn.mpr ⟨Nat.zero_le i, hi, Bool.eq_true_of_not_eq_false hbit⟩
    rw [hnil] at hmem
    cases hmem
  · rintro rfl
    exact indicesIn_eq_nil fun i _ _ => BitVec.getLsbD_zero

theorem popcount_le (mask : U32) : popcount mask ≤ 32 :=
  length_indicesIn_le fun i hi => BitVec.getLsbD_of_ge mask i hi

/-- The number of banks as `sbi_l3_pmu_ctr_start` divides by it. -/
theorem toNat_signExtend_popcount (mask : U32) :
    ((BitVec.ofNat 32 (popcount mask)).signExtend 64).toNat = popcount mask := by
  have hle := popcount_le mask
  have hsmall : (BitVec.ofNat 32 (popcount mask)).toNat = popcount mask := by
    rw [BitVec.toNat_ofNat]
    omega
  rw [Words.toNat_signExtend_of_lt (by decide) (by omega), hsmall]

/-! ## The table -/

/-- The banks of an entry: some of those that are there, with their number. -/
structure L3PmuEvent.Consistent (hw : L3Hw) (e : L3PmuEvent) : Prop where
  nonempty : e.banksMask ≠ 0#32
  supported : e.banksMask &&& hw.supportedBanksMask = e.banksMask
  banks : e.banks.toNat = popcount e.banksMask

/-- Every entry in use is consistent. -/
def L3Valid (hw : L3Hw) (s : L3Pmu) : Prop :=
  ∀ c < 4, s.Busy c → (s.activeEvents c).Consistent hw

variable {hw : L3Hw} {s s' : L3Pmu} {c : ℕ} {cidxBase cidxMask flags eventIdx data1 : U64}
  {cbase cmask : U64} {e : L3PmuEvent}

/-- What a start divides by. -/
theorem L3PmuEvent.Consistent.divisor (h : e.Consistent hw) :
    (e.banks.signExtend 64).toNat = popcount e.banksMask := by
  have hbanks : e.banks = BitVec.ofNat 32 (popcount e.banksMask) := by
    rw [← h.banks, BitVec.ofNat_toNat, BitVec.setWidth_eq]
  rw [hbanks, toNat_signExtend_popcount]

theorem L3PmuEvent.Consistent.divisor_ne_zero (h : e.Consistent hw) :
    e.banks.signExtend 64 ≠ 0#64 := by
  intro hzero
  have hpop := h.divisor
  rw [hzero, BitVec.toNat_zero] at hpop
  exact h.nonempty (popcount_eq_zero_iff.mp hpop.symm)

/-- The entry of a configuration. -/
theorem consistent_programL3
    (hpop : popcount (scrL3BanksMaskNum data1 &&& hw.supportedBanksMask) ≠ 0) :
    ((programL3 hw s eventIdx data1 c).activeEvents c).Consistent hw := by
  rw [programL3, writeActive_activeEvents, Function.update_self]
  have hle := popcount_le (scrL3BanksMaskNum data1 &&& hw.supportedBanksMask)
  refine ⟨fun hzero => hpop (popcount_eq_zero_iff.mpr hzero), ?_, ?_⟩
  · rw [BitVec.and_assoc, BitVec.and_self]
  · rw [BitVec.toNat_ofNat]
    exact Nat.mod_eq_of_lt (by omega)

theorem valid_of_freed_l3 (hvalid : L3Valid hw s)
    (hs' : ∀ c < 4, s'.Busy c → s'.activeEvents c = s.activeEvents c) : L3Valid hw s' := by
  intro c hc hbusy
  have heq := hs' c hc hbusy
  rw [CachePmu.Busy, heq] at hbusy
  rw [heq]
  exact hvalid c hc hbusy

theorem cfgMatch_valid_l3 (hvalid : L3Valid hw s) :
    L3Valid hw (sbiL3PmuCtrCfgMatch hw cidxBase cidxMask flags eventIdx data1 s).2.2 := by
  have h := sbiL3PmuCtrCfgMatch_spec hw s cidxBase cidxMask flags eventIdx data1
  generalize sbiL3PmuCtrCfgMatch hw cidxBase cidxMask flags eventIdx data1 s = r at h ⊢
  cases h with
  | noBanks | noEvent | skipBeyond | skipFree | beyond | full | noSupport => exact hvalid
  | skip =>
    refine valid_of_freed_l3 hvalid fun c _ _ => ?_
    rw [skipMatch_activeEvents, readActive_activeEvents]
  | found _ _ _ i hi hpop =>
    intro c hc hbusy
    rw [CachePmu.Busy, skipMatch_activeEvents] at hbusy
    rw [skipMatch_activeEvents]
    by_cases hci : c = i
    · subst hci
      exact consistent_programL3 hpop
    · have hsame : (programL3 hw s eventIdx data1 i).activeEvents c = s.activeEvents c :=
        Function.update_of_ne hci ..
      rw [hsame] at hbusy ⊢
      exact hvalid c hc hbusy

/-! ## Stop -/

/-- The counters that a start or a stop goes through. -/
def namedL3 (cbase ctrMask : U64) : List ℕ :=
  indicesIn (wordBitmap ctrMask).bit cbase.toNat scrL3PmuCounters

theorem mem_namedL3_of_lt (hbase : cbase.toNat < 64) (cmask : U64) (c : ℕ) :
    c ∈ namedL3 cbase (shl cmask cbase) ↔ c < 4 ∧ (cmask <<< cbase.toNat).getLsbD c = true :=
  mem_namedL2_of_lt hbase cmask c

theorem l3StopBody_fst (s : L3Pmu) : (l3StopBody hw flags c s).1 = none := by
  simp only [l3StopBody]
  split_ifs <;> rfl

/-- **A round of stop** clears the event of its counter, if `RESET` asks for it. The banks stay in
the entry, but without an event it counts as free. -/
theorem l3StopBody_activeEvents (hw : L3Hw) (flags : U64) (s : L3Pmu) (hc : c < 4) (i : ℕ) :
    (l3StopBody hw flags c s).2.activeEvents i =
      if i = c then
        if hasFlag flags sbiPmuStopFlagReset then { s.activeEvents i with ctrl := scrL3CacheNop }
        else s.activeEvents i
      else s.activeEvents i := by
  by_cases hbusy : s.Busy c
  · have hround : (l3StopBody hw flags c s).2.activeEvents =
        if hasFlag flags sbiPmuStopFlagReset then
          Function.update s.activeEvents c { s.activeEvents c with ctrl := scrL3CacheNop }
        else s.activeEvents := by
      rw [l3StopBody, validate_of_busy hc hbusy]
      split_ifs <;> rfl
    rw [hround]
    by_cases hreset : hasFlag flags sbiPmuStopFlagReset
    · rw [if_pos hreset, if_pos hreset, Function.update_apply]
      split_ifs with hic
      · rw [hic]
      · rfl
    · rw [if_neg hreset, if_neg hreset, ite_self]
  · -- the event of a free counter is clear already
    have hsame : i = c → { s.activeEvents i with ctrl := scrL3CacheNop } = s.activeEvents i := by
      rintro rfl
      have hnop : (s.activeEvents i).ctrl = scrL3CacheNop := not_not.mp hbusy
      rw [← hnop]
    have hround : (l3StopBody hw flags c s).2.activeEvents = s.activeEvents := by
      rw [l3StopBody, validate_of_free hc hbusy]
      rfl
    rw [hround]
    split_ifs with hic
    · exact (hsame hic).symm
    · rfl
    · rfl

/-- **Stop** clears the events of the counters it goes through, if `RESET` asks for it, and leaves
all other entries. A mask with a bit beyond the four counters is refused as a whole. -/
theorem stop_activeEvents_l3 (hw : L3Hw) (s : L3Pmu) (cbase cmask flags : U64) (i : ℕ) :
    (sbiL3PmuCtrStop hw cbase cmask flags s).2.2.activeEvents i =
      if sbiFls (shl cmask cbase) < 4 ∧ hasFlag flags sbiPmuStopFlagReset ∧
          i ∈ namedL3 cbase (shl cmask cbase) then { s.activeEvents i with ctrl := scrL3CacheNop }
      else s.activeEvents i := by
  rw [sbiL3PmuCtrStop_eq]
  refine (runUntil_view_if (K := fun _ => True) (fun _ => True)
    (fun i (s : L3Pmu) => s.activeEvents i)
    (fun _ e => if hasFlag flags sbiPmuStopFlagReset then { e with ctrl := scrL3CacheNop } else e)
    (nodup_namedL2 cbase (shl cmask cbase))
    (fun b hb t _ => ⟨l3StopBody_fst t, trivial, fun i _ =>
      l3StopBody_activeEvents hw flags t (mem_counters.mp hb).2.1 i⟩) trivial trivial).trans ?_
  have hnamed : i ∈ namedL2 cbase (shl cmask cbase) ↔ i ∈ namedL3 cbase (shl cmask cbase) := Iff.rfl
  by_cases hreset : hasFlag flags sbiPmuStopFlagReset
  · simp [hreset, hnamed]
  · simp [hreset]

/-- **Every call** keeps the table valid. By cases of the call: a configuration stores what has
passed the check, and a stop takes the event away. -/
theorem valid_next_l3 (hvalid : L3Valid hw s) (e : L3Call) : L3Valid hw (hw.next s e) := by
  cases e with
  | cfgMatch => exact cfgMatch_valid_l3 hvalid
  | start =>
    exact valid_of_freed_l3 hvalid fun c _ _ => congrFun (start_activeEvents hw) c
  | stop cbase cmask flags =>
    refine valid_of_freed_l3 hvalid fun c _ hbusy => ?_
    have hstop := stop_activeEvents_l3 hw s cbase cmask flags c
    split_ifs at hstop
    · have hfree : (sbiL3PmuCtrStop hw cbase cmask flags s).2.2.Busy c := hbusy
      rw [CachePmu.Busy, hstop] at hfree
      exact absurd rfl hfree
    · exact hstop
  | hwCtrRead =>
    exact valid_of_freed_l3 hvalid fun c _ _ => congrFun (hwCtrRead_activeEvents hw) c

theorem not_busy_init (s : L3Pmu) (hc : c < 4) : ¬ (scrFdtL3PmuInit s).Busy c := by
  have hentry : (scrFdtL3PmuInit s).activeEvents c =
      { s.activeEvents c with ctrl := scrL3CacheNop } := if_pos hc
  rw [CachePmu.Busy, hentry]
  exact not_not.mpr rfl

/-- After `scr_fdt_l3_pmu_init`, whatever is called. -/
theorem valid_run_l3 (hw : L3Hw) (s₀ : L3Pmu) (calls : List L3Call) :
    L3Valid hw (run hw.next (scrFdtL3PmuInit s₀) calls) :=
  run_inv (L3Valid hw) (fun _ e hvalid => valid_next_l3 hvalid e)
    fun _ hc hbusy => absurd hbusy (not_busy_init s₀ hc)

/-! ## The law -/

/-- In every round of a start that comes to the division, the divisor is not zero. -/
def DividesL3 (hw : L3Hw) (s : L3Pmu) (cbase cmask flags data1 : U64) : Prop :=
  ∀ before c after, namedL3 cbase (shl cmask cbase) = before ++ c :: after →
    ∀ t, t = (runUntil (l3StartBody hw flags data1) before (sbiErrorInvalidParam, s)).2.2 →
      t.Busy c → (t.activeEvents c).banks.signExtend 64 ≠ 0#64

theorem dividesL3 (hvalid : L3Valid hw s) (cbase cmask flags data1 : U64) :
    DividesL3 hw s cbase cmask flags data1 := by
  rintro before c after hsplit t rfl hbusy
  have hnamed : c ∈ namedL3 cbase (shl cmask cbase) := by simp [hsplit]
  have hsame : (runUntil (l3StartBody hw flags data1) before
      (sbiErrorInvalidParam, s)).2.2.activeEvents = s.activeEvents := by
    refine runUntil_inv (fun t : ℤ × L3Pmu => t.2.activeEvents = s.activeEvents)
      (fun b _ t ht => ?_) rfl
    simp only [l3StartBody]
    split_ifs <;> simp [startHw_activeEvents, ht]
  rw [CachePmu.Busy, hsame] at hbusy
  rw [hsame]
  exact (hvalid c (mem_counters.mp hnamed).2.1 hbusy).divisor_ne_zero

/-- What a configuration may do: without `SKIP_MATCH`, it takes a free counter and leaves
the other ones. A failing one leaves the table and the registers alone. -/
def AllocatesL3 (hw : L3Hw) (s : L3Pmu) (cidxBase cidxMask flags eventIdx data1 : U64) : Prop :=
  ∀ ret out s', mcallExtL3Pmu hw s (.cfgMatch cidxBase cidxMask flags eventIdx data1) =
      (ret, out, s') →
    (¬ hasFlag flags sbiPmuCfgFlagSkipMatch → ret = sbiErrorSuccess →
      ∃ c < 4, out = BitVec.ofNat 64 c ∧ ¬ s.Busy c ∧ s'.Busy c ∧
        ∀ i, i ≠ c → s'.activeEvents i = s.activeEvents i) ∧
    (ret ≠ sbiErrorSuccess → TableOnly s s')

theorem allocatesL3 (hw : L3Hw) (s : L3Pmu) (cidxBase cidxMask flags eventIdx data1 : U64) :
    AllocatesL3 hw s cidxBase cidxMask flags eventIdx data1 := by
  intro ret out s' hr
  have h := sbiL3PmuCtrCfgMatch_spec hw s cidxBase cidxMask flags eventIdx data1
  have hr' : sbiL3PmuCtrCfgMatch hw cidxBase cidxMask flags eventIdx data1 s = (ret, out, s') := hr
  rw [hr'] at h
  refine ⟨fun hmatch => ?_, tableOnly_of_fails_l3 h⟩
  generalize hr₂ : (ret, out, s') = r at h
  cases h with
  | noBanks | noEvent | beyond | full | noSupport =>
    cases hr₂
    exact fun h => absurd h (by decide)
  | skipBeyond _ hskip | skipFree _ hskip | skip _ hskip => exact absurd hskip hmatch
  | found hok _ _ c hc =>
    have hentry : (l3SkipMatch hw flags (scrL3BanksMaskNum data1 &&& hw.supportedBanksMask)
        (l3EventType eventIdx) c (programL3 hw s eventIdx data1 c)).2.2.activeEvents =
          (programL3 hw s eventIdx data1 c).activeEvents := skipMatch_activeEvents hw
    have hevent : l3EventType eventIdx ≠ scrL3CacheNop := fun hnop => hok.2 (.inr hnop)
    cases hr₂
    refine fun _ => ⟨c, hc.lt, rfl, hc.free, fun hnop => hevent ?_, fun i hi => ?_⟩
    · have hself := congrFun hentry c
      rw [programL3, writeActive_activeEvents, Function.update_self] at hself
      exact (congrArg L3PmuEvent.ctrl hself).symm.trans hnop
    · exact (congrFun hentry i).trans (Function.update_of_ne hi ..)

/-- What a stop may do: with `RESET` it frees exactly the named counters that are
taken, if it succeeds; otherwise none. -/
def ReleasesL3 (hw : L3Hw) (s : L3Pmu) (cbase cmask flags : U64) : Prop :=
  ∀ ret out s', mcallExtL3Pmu hw s (.stop cbase cmask flags) = (ret, out, s') →
    if ret = sbiErrorSuccess ∧ hasFlag flags sbiPmuStopFlagReset then
      (∀ c < 4, (s.Busy c ∧ ¬ s'.Busy c) ↔
        s.Busy c ∧ (cmask <<< cbase.toNat).getLsbD c = true) ∧
      ∀ c, ¬ (cmask <<< cbase.toNat).getLsbD c = true → s'.activeEvents c = s.activeEvents c
    else s'.activeEvents = s.activeEvents

theorem stop_success_iff_l3 (hw : L3Hw) (s : L3Pmu) (cbase cmask flags : U64) :
    (sbiL3PmuCtrStop hw cbase cmask flags s).1 = sbiErrorSuccess ↔
      sbiFls (shl cmask cbase) < 4 := by
  have hinvalid : sbiErrorInvalidParam ≠ sbiErrorSuccess := by decide
  rw [sbiL3PmuCtrStop_eq]
  by_cases hfls : sbiFls (shl cmask cbase) < 4
  · exact iff_of_true (if_pos hfls) hfls
  · rw [if_neg hfls]
    exact iff_of_false hinvalid hfls

theorem releasesL3 (hbase : cbase.toNat < 64) (hw : L3Hw) (s : L3Pmu) (cmask flags : U64) :
    ReleasesL3 hw s cbase cmask flags := by
  intro ret out s' hr
  have hentry : ∀ i, s'.activeEvents i = _ := fun i =>
    (congrArg (fun r : L3Result => r.2.2.activeEvents i) hr).symm.trans
      (stop_activeEvents_l3 hw s cbase cmask flags i)
  have hret : ret = sbiErrorSuccess ↔ sbiFls (shl cmask cbase) < 4 := by
    rw [← stop_success_iff_l3 hw s cbase cmask flags]
    exact Eq.congr (congrArg Prod.fst hr).symm rfl
  have hnamed := mem_namedL3_of_lt hbase cmask
  by_cases hfrees : sbiFls (shl cmask cbase) < 4 ∧ hasFlag flags sbiPmuStopFlagReset
  · rw [if_pos ⟨hret.mpr hfrees.1, hfrees.2⟩]
    refine ⟨fun c hc => and_congr_right fun hbusy => ?_, fun c hbit => ?_⟩
    · rw [CachePmu.Busy, hentry]
      constructor
      · intro hfree
        by_contra hbit
        rw [if_neg fun h => hbit ((hnamed c).mp h.2.2).2] at hfree
        exact hfree hbusy
      · intro hbit
        rw [if_pos ⟨hfrees.1, hfrees.2, (hnamed c).mpr ⟨hc, hbit⟩⟩]
        exact not_not.mpr rfl
    · rw [hentry, if_neg fun h => hbit ((hnamed c).mp h.2.2).2]
  · rw [if_neg fun h => hfrees ⟨hret.mp h.1, h.2⟩]
    funext i
    rw [hentry, if_neg fun h => hfrees ⟨h.1, h.2.1⟩]

/-- **The L3 PMU allocator is sound.** After `scr_fdt_l3_pmu_init` and any history of
calls: the banks of every entry in use are some of those that are there, and counted
right, so that no start divides by zero; configurations take and stops free counters as
they should. -/
theorem l3_allocator_sound (hw : L3Hw) (s₀ : L3Pmu) (calls : List L3Call) :
    let s := run hw.next (scrFdtL3PmuInit s₀) calls
    (∀ c < 4, (s.activeEvents c).ctrl ≠ scrL3CacheNop → (s.activeEvents c).Consistent hw) ∧
    (∀ cbase cmask flags data1, DividesL3 hw s cbase cmask flags data1) ∧
    (∀ cidxBase cidxMask flags eventIdx data1,
      AllocatesL3 hw s cidxBase cidxMask flags eventIdx data1) ∧
    ∀ cbase cmask flags, cbase.toNat < 64 → ReleasesL3 hw s cbase cmask flags := by
  have hvalid := valid_run_l3 hw s₀ calls
  exact ⟨hvalid, dividesL3 hvalid, allocatesL3 hw _, fun _ _ _ hbase => releasesL3 hbase hw _ _ _⟩

/-- Counter 0 is taken for event 5 in bank 0 and given back. -/
theorem l3_allocator_sound_counter_zero :
    ReleasesL3 L3Hw.sample
      (run L3Hw.sample.next (scrFdtL3PmuInit ⟨fun _ => ⟨0#64, 0#32, 0#32⟩, []⟩)
        [.cfgMatch 0#64 1#64 0#64 5#64 0x100#64])
      0#64 1#64 sbiPmuStopFlagReset :=
  (l3_allocator_sound L3Hw.sample ⟨fun _ => ⟨0#64, 0#32, 0#32⟩, []⟩ _).2.2.2 _ _ _ (by decide)

end ScBl
