import ScBl.CachePmu.Online

/-!
# The L2 counters as an allocator

The table `active_events` of the L2 PMU is its free list: an entry is the marker
of a free counter or the event that the counter counts. Stop is an update of the
named entries (`stop_activeEvents_l2`); from this and the outcomes of
`sbi_l2_pmu_ctr_cfg_match` the law of the allocator follows for every history of
calls (`l2_allocator_sound`).
-/

namespace ScBl

open Loops Runs CachePmu

/-! ## The table -/

/-- Every entry is the marker or an event of the cache. -/
def L2Valid (hw : L2Hw) (s : L2Pmu) : Prop :=
  ∀ c < 4, L2Free s c ∨ (s.activeEvents c).toNat < hw.scrL2CacheEvents

variable {hw : L2Hw} {s : L2Pmu} {c : ℕ} {cidxBase cidxMask flags eventIdx data1 : U64}

theorem scrL2CacheEvents_le (hw : L2Hw) : hw.scrL2CacheEvents ≤ 36 := by
  rw [L2Hw.scrL2CacheEvents]
  split_ifs <;> omega

/-- The recorded event is the requested one. -/
theorem toNat_recorded (hevent : eventIdx.toNat < hw.scrL2CacheEvents) :
    (eventIdx.setWidth 32).toNat = eventIdx.toNat := by
  have hle := scrL2CacheEvents_le hw
  rw [BitVec.toNat_setWidth]
  omega

/-- An event is not the marker. -/
theorem not_invalid_of_lt (hw : L2Hw) {event : U32} (h : event.toNat < hw.scrL2CacheEvents) :
    event ≠ sbiPmuEventIdxInvalid := by
  rintro rfl
  have hle := scrL2CacheEvents_le hw
  have hmax : sbiPmuEventIdxInvalid.toNat = 2 ^ 32 - 1 := by decide
  omega

theorem programL2_activeEvents :
    (programL2 hw s eventIdx data1 c).activeEvents =
      Function.update s.activeEvents c (eventIdx.setWidth 32) := rfl

theorem valid_update (hvalid : L2Valid hw s) (c : ℕ) (event : U32)
    (hevent : event.toNat < hw.scrL2CacheEvents) {s' : L2Pmu}
    (hs' : s'.activeEvents = Function.update s.activeEvents c event) : L2Valid hw s' := by
  intro i hi
  rw [L2Free, hs']
  by_cases hic : i = c
  · subst hic
    rw [Function.update_self]
    exact .inr hevent
  · rw [Function.update_of_ne hic]
    exact hvalid i hi

/-- `pmu_ctr_validate` passes exactly the counters that are taken. -/
theorem validate_neg_iff (hvalid : L2Valid hw s) (hc : c < 4) :
    (pmuCtrValidate hw c s).1 < 0 ↔ L2Free s c := by
  have hlt : ¬ scrL2PmuCtrNum ≤ c := Nat.not_le.mpr hc
  rw [pmuCtrValidate, if_neg hlt]
  by_cases hfree : s.activeEvents c = sbiPmuEventIdxInvalid
  · simp only [if_pos hfree]
    exact iff_of_true (by decide) hfree
  · have hevent := (hvalid c hc).resolve_left hfree
    have hle := scrL2CacheEvents_le hw
    simp only [if_neg hfree, if_neg (Nat.not_le.mpr hevent)]
    refine iff_of_false ?_ hfree
    rw [BitVec.toInt_eq_toNat_of_lt (by omega)]
    omega

/-- The counters that a stop or a start goes through. -/
def namedL2 (cbase ctrMask : U64) : List ℕ := indicesIn (wordBitmap ctrMask).bit cbase.toNat 4

theorem nodup_namedL2 (cbase ctrMask : U64) : (namedL2 cbase ctrMask).Nodup :=
  pairwise_indicesIn.imp fun h => Nat.ne_of_lt h

theorem mem_namedL2 {cbase ctrMask : U64} :
    c ∈ namedL2 cbase ctrMask ↔ cbase.toNat ≤ c ∧ c < 4 ∧ ctrMask.getLsbD c = true :=
  mem_counters

/-- **A round of stop** frees its counter, if `RESET` asks for it. That the entries are valid makes
the check of the round pass for each counter that is not free already. -/
theorem l2StopBody_activeEvents (flags : U64) (hvalid : L2Valid hw s) (hc : c < 4) (i : ℕ) :
    (l2StopBody hw flags c s).2.activeEvents i =
      if i = c then
        if hasFlag flags sbiPmuStopFlagReset then sbiPmuEventIdxInvalid else s.activeEvents i
      else s.activeEvents i := by
  have hneg := validate_neg_iff hvalid hc
  simp only [l2StopBody]
  by_cases hfree : L2Free s c
  · rw [if_pos (hneg.mpr hfree)]
    simp only [pmuCtrValidate_activeEvents]
    have hsame : i = c → s.activeEvents i = sbiPmuEventIdxInvalid := by
      rintro rfl
      exact hfree
    split_ifs with hic
    · exact hsame hic
    · rfl
    · rfl
  · rw [if_neg fun h => hfree (hneg.mp h)]
    by_cases hreset : hasFlag flags sbiPmuStopFlagReset
    · simp only [if_pos hreset, resetEvent_activeEvents, writeActive_activeEvents,
        pmuCtrValidate_activeEvents, Function.update_apply]
    · simp only [if_neg hreset, pmuCtrValidate_activeEvents, ite_self]

theorem l2StopBody_fst (s : L2Pmu) : (l2StopBody hw flags c s).1 = none := by
  simp only [l2StopBody]
  split_ifs <;> rfl

/-- Freeing counters keeps the table valid. -/
theorem valid_of_freed (hvalid : L2Valid hw s) {s' : L2Pmu}
    (hs' : ∀ i, s'.activeEvents i = sbiPmuEventIdxInvalid ∨ s'.activeEvents i = s.activeEvents i) :
    L2Valid hw s' := by
  intro i hi
  rw [L2Free]
  rcases hs' i with hinvalid | hsame
  · exact .inl hinvalid
  · rw [hsame]
    exact hvalid i hi

theorem l2StopBody_round (flags : U64) (hvalid : L2Valid hw s) {cbase ctrMask : U64}
    (hc : c ∈ namedL2 cbase ctrMask) :
    (l2StopBody hw flags c s).1 = none ∧ L2Valid hw (l2StopBody hw flags c s).2 ∧
      ∀ i, True → (l2StopBody hw flags c s).2.activeEvents i =
        if i = c then
          if hasFlag flags sbiPmuStopFlagReset then sbiPmuEventIdxInvalid else s.activeEvents i
        else s.activeEvents i := by
  have hentry := l2StopBody_activeEvents flags hvalid (mem_namedL2.mp hc).2.1
  refine ⟨l2StopBody_fst s, valid_of_freed hvalid fun i => ?_, fun i _ => hentry i⟩
  rw [hentry]
  split_ifs
  · exact .inl rfl
  · exact .inr rfl
  · exact .inr rfl

/-- **Stop** frees the counters it goes through, if `RESET` asks for it, and leaves all other
entries. A mask with a bit beyond the four counters is refused as a whole. -/
theorem stop_activeEvents_l2 (hvalid : L2Valid hw s) (cbase cmask flags : U64) (i : ℕ) :
    (sbiL2PmuCtrStop hw cbase cmask flags s).2.2.activeEvents i =
      if sbiFls (shl cmask cbase) < 4 ∧ hasFlag flags sbiPmuStopFlagReset ∧
          i ∈ namedL2 cbase (shl cmask cbase) then sbiPmuEventIdxInvalid
      else s.activeEvents i := by
  rw [sbiL2PmuCtrStop_eq]
  refine (runUntil_view_if (K := fun _ => True) (L2Valid hw)
    (fun i (s : L2Pmu) => s.activeEvents i)
    (fun _ e => if hasFlag flags sbiPmuStopFlagReset then sbiPmuEventIdxInvalid else e)
    (nodup_namedL2 cbase (shl cmask cbase)) (fun b hb s hs => l2StopBody_round flags hs hb) hvalid
    trivial).trans ?_
  by_cases hreset : hasFlag flags sbiPmuStopFlagReset
  · simp [hreset]
  · simp [hreset]

/-- The index that is returned. -/
theorem signExtend_ofNat (hc : c < 4) : (BitVec.ofNat 32 c).signExtend 64 = BitVec.ofNat 64 c := by
  have hall : ∀ c < 4, (BitVec.ofNat 32 c).signExtend 64 = BitVec.ofNat 64 c := by decide
  exact hall c hc

/-- **A configuration that fails** only looked at the table: no entry has changed, and no register
of the cache was touched on the way. -/
theorem tableOnly_of_fails {ret : ℤ} {out : U64} {s' : L2Pmu}
    (h : CfgMatchL2 hw s cidxBase cidxMask flags eventIdx data1 (ret, out, s'))
    (hret : ret ≠ sbiErrorSuccess) : TableOnly s s' := by
  generalize hr : (ret, out, s') = r at h
  cases h with
  | refused | noEvent =>
    cases hr
    exact .refl s
  | skipFree =>
    cases hr
    exact tableOnly_readActive _
  | full =>
    cases hr
    exact tableOnly_readTable 4
  | skip | found =>
    cases hr
    exact absurd rfl hret

/-- The entries after a configuration are markers or events of the cache, whatever the caller asked
for: what is stored has passed the check of the event. -/
theorem cfgMatch_valid_l2 (hvalid : L2Valid hw s) :
    L2Valid hw (sbiL2PmuCtrCfgMatch hw cidxBase cidxMask flags eventIdx data1 s).2.2 := by
  have h := sbiL2PmuCtrCfgMatch_spec hw s cidxBase cidxMask flags eventIdx data1
  generalize sbiL2PmuCtrCfgMatch hw cidxBase cidxMask flags eventIdx data1 s = r at h ⊢
  have hsame : ∀ {s' : L2Pmu}, s'.activeEvents = s.activeEvents → L2Valid hw s' := by
    intro s' heq i hi
    rw [L2Free, heq]
    exact hvalid i hi
  cases h with
  | refused | noEvent => exact hvalid
  | skipFree | full => exact hsame rfl
  | skip => exact hsame (skipMatch_activeEvents_l2 hw)
  | found _ _ hevent c hc =>
    refine valid_update hvalid c (eventIdx.setWidth 32) ?_
      ((skipMatch_activeEvents_l2 hw).trans programL2_activeEvents)
    rw [toNat_recorded hevent]
    exact hevent

/-- **Every call** keeps the table valid. By cases of the call: a configuration stores what has
passed the check, and a stop stores the marker. -/
theorem valid_next (hvalid : L2Valid hw s) (e : L2Call) : L2Valid hw (hw.next s e) := by
  cases e with
  | cfgMatch => exact cfgMatch_valid_l2 hvalid
  | start cbase cmask flags data1 =>
    exact valid_of_freed hvalid fun i => .inr (congrFun (start_activeEvents_l2 hw) i)
  | stop cbase cmask flags =>
    refine valid_of_freed hvalid fun i => ?_
    have hstop := stop_activeEvents_l2 hvalid cbase cmask flags i
    split_ifs at hstop
    · exact .inl hstop
    · exact .inr hstop
  | hwCtrRead cidx =>
    exact valid_of_freed hvalid fun i => .inr (congrFun (hwCtrRead_activeEvents_l2 hw) i)

theorem valid_init (hw : L2Hw) (s : L2Pmu) : L2Valid hw (scrFdtL2PmuInit s) :=
  fun _ hc => .inl (if_pos hc)

/-- After `scr_fdt_l2_pmu_init`, whatever is called. -/
theorem valid_run (hw : L2Hw) (s₀ : L2Pmu) (calls : List L2Call) :
    L2Valid hw (run hw.next (scrFdtL2PmuInit s₀) calls) :=
  run_inv (L2Valid hw) (fun _ e hvalid => valid_next hvalid e) (valid_init hw s₀)

/-! ## The law -/

/-- What a configuration may do: without `SKIP_MATCH`, it takes a free counter for
exactly the requested event where it succeeds. On valid arguments it does so if and only
if there is one, and fails with `SBI_ERROR_NOT_SUPPORTED` if and only if there is none. A
failing one leaves the table and the registers alone. -/
def AllocatesL2 (hw : L2Hw) (s : L2Pmu) (cidxBase cidxMask flags eventIdx data1 : U64) : Prop :=
  ∀ ret out s', mcallExtL2Pmu hw s (.cfgMatch cidxBase cidxMask flags eventIdx data1) =
      (ret, out, s') →
    (¬ hasFlag flags sbiPmuCfgFlagSkipMatch →
      (ret = sbiErrorSuccess → ∃ c < 4, out = BitVec.ofNat 64 c ∧ L2Free s c ∧ ¬ L2Free s' c ∧
        (s'.activeEvents c).toNat = eventIdx.toNat ∧
        ∀ i, i ≠ c → s'.activeEvents i = s.activeEvents i) ∧
      (¬ hw.RefusesCfgMatch cidxBase cidxMask eventIdx data1 →
        eventIdx.toNat < hw.scrL2CacheEvents →
        (ret = sbiErrorNotSupported ↔ L2AllBusy s) ∧ (ret = sbiErrorSuccess ↔ ¬ L2AllBusy s))) ∧
    (ret ≠ sbiErrorSuccess → TableOnly s s')

theorem allocatesL2 (hw : L2Hw) (s : L2Pmu) (cidxBase cidxMask flags eventIdx data1 : U64) :
    AllocatesL2 hw s cidxBase cidxMask flags eventIdx data1 := by
  intro ret out s' hr
  have h := sbiL2PmuCtrCfgMatch_spec hw s cidxBase cidxMask flags eventIdx data1
  have hr' : sbiL2PmuCtrCfgMatch hw cidxBase cidxMask flags eventIdx data1 s = (ret, out, s') := hr
  rw [hr'] at h
  refine ⟨fun hmatch => ?_, tableOnly_of_fails h⟩
  generalize hr₂ : (ret, out, s') = r at h
  cases h with
  | refused href =>
    cases hr₂
    exact ⟨fun h => absurd h (by decide), fun hok => absurd href hok⟩
  | skipFree _ hskip | skip _ hskip => exact absurd hskip hmatch
  | noEvent _ _ hevent =>
    cases hr₂
    exact ⟨fun h => absurd h (by decide), fun _ hlt => absurd hevent (Nat.not_le.mpr hlt)⟩
  | full _ _ _ hbusy =>
    cases hr₂
    exact ⟨fun h => absurd h (by decide), fun _ _ =>
      ⟨iff_of_true rfl hbusy, iff_of_false (by decide) fun hfree => hfree hbusy⟩⟩
  | found _ _ hevent c hc =>
    cases hr₂
    have hentry : (l2SkipMatch hw flags (BitVec.ofNat 32 c)
        (programL2 hw s eventIdx data1 c)).2.2.activeEvents =
          Function.update s.activeEvents c (eventIdx.setWidth 32) :=
      (skipMatch_activeEvents_l2 hw).trans programL2_activeEvents
    have hself := congrFun hentry c
    rw [Function.update_self] at hself
    have hrec := toNat_recorded hevent
    have hsome : ¬ L2AllBusy s := fun hbusy => hbusy c hc.lt hc.free
    refine ⟨fun _ => ⟨c, hc.lt, signExtend_ofNat hc.lt, hc.free, fun hfree => ?_, ?_,
      fun i hi => ?_⟩, fun _ _ => ⟨iff_of_false (by decide) hsome, iff_of_true rfl hsome⟩⟩
    · exact not_invalid_of_lt hw (hrec ▸ hevent) (hself.symm.trans hfree)
    · exact (congrArg BitVec.toNat hself).trans hrec
    · exact (congrFun hentry i).trans (Function.update_of_ne hi ..)

/-- What a stop may do: with `RESET` it frees exactly the named counters that are
taken, if it succeeds; otherwise none. -/
def ReleasesL2 (hw : L2Hw) (s : L2Pmu) (cbase cmask flags : U64) : Prop :=
  ∀ ret out s', mcallExtL2Pmu hw s (.stop cbase cmask flags) = (ret, out, s') →
    if ret = sbiErrorSuccess ∧ hasFlag flags sbiPmuStopFlagReset then
      (∀ c < 4, (¬ L2Free s c ∧ L2Free s' c) ↔
        ¬ L2Free s c ∧ (cmask <<< cbase.toNat).getLsbD c = true) ∧
      ∀ c, ¬ (cmask <<< cbase.toNat).getLsbD c = true → s'.activeEvents c = s.activeEvents c
    else s'.activeEvents = s.activeEvents

/-- The counters that a mask names, for bases in range. -/
theorem mem_namedL2_of_lt {cbase : U64} (hbase : cbase.toNat < 64) (cmask : U64) (c : ℕ) :
    c ∈ namedL2 cbase (shl cmask cbase) ↔ c < 4 ∧ (cmask <<< cbase.toNat).getLsbD c = true := by
  rw [mem_namedL2, shl_of_lt hbase, and_iff_right_iff_imp]
  rintro ⟨_, hbit⟩
  rw [BitVec.getLsbD_shiftLeft] at hbit
  simp only [Bool.and_eq_true, Bool.not_eq_true', decide_eq_false_iff_not] at hbit
  omega

/-- The counters that a stop or a start goes through are the requested ones. -/
theorem mem_namedL2_iff :
    c ∈ namedL2 cbase (shl cmask cbase) ↔ c < 4 ∧ Requested cbase cmask c := by
  by_cases hbase : cbase.toNat < 64
  · rw [mem_namedL2_of_lt hbase cmask c]
    refine and_congr_right fun hc => ?_
    rw [requested_iff_shl hbase (by omega), shl_of_lt hbase]
  · refine iff_of_false (fun hmem => ?_) fun h => not_requested (Nat.not_lt.mp hbase) (by omega) h.2
    obtain ⟨hle, hlt, _⟩ := mem_namedL2.mp hmem
    omega

theorem releasesL2 (hvalid : L2Valid hw s) {cbase : U64} (hbase : cbase.toNat < 64)
    (cmask flags : U64) : ReleasesL2 hw s cbase cmask flags := by
  intro ret out s' hr
  have hentry : ∀ i, s'.activeEvents i = _ := fun i =>
    (congrArg (fun r : L2Result => r.2.2.activeEvents i) hr).symm.trans
      (stop_activeEvents_l2 hvalid cbase cmask flags i)
  have hret : ret = sbiErrorSuccess ↔ sbiFls (shl cmask cbase) < 4 := by
    have hfst := congrArg Prod.fst hr
    simp only [mcallExtL2Pmu, sbiL2PmuCtrStop_eq] at hfst
    split_ifs at hfst with hfls
    · exact iff_of_true hfst.symm hfls
    · have hfails : sbiErrorInvalidParam ≠ sbiErrorSuccess := by decide
      exact iff_of_false (fun hsuccess => hfails (hfst.trans hsuccess)) hfls
  have hnamed := mem_namedL2_of_lt hbase cmask
  by_cases hfrees : sbiFls (shl cmask cbase) < 4 ∧ hasFlag flags sbiPmuStopFlagReset
  · rw [if_pos ⟨hret.mpr hfrees.1, hfrees.2⟩]
    refine ⟨fun c hc => and_congr_right fun hbusy => ?_, fun c hbit => ?_⟩
    · rw [L2Free, hentry]
      constructor
      · intro hfree
        by_contra hbit
        rw [if_neg fun h => hbit ((hnamed c).mp h.2.2).2] at hfree
        exact hbusy hfree
      · intro hbit
        rw [if_pos ⟨hfrees.1, hfrees.2, (hnamed c).mpr ⟨hc, hbit⟩⟩]
    · rw [hentry, if_neg fun h => hbit ((hnamed c).mp h.2.2).2]
  · rw [if_neg fun h => hfrees ⟨hret.mp h.1, h.2⟩]
    funext i
    rw [hentry, if_neg fun h => hfrees ⟨h.1, h.2.1⟩]

/-- **The L2 PMU allocator is sound.** After `scr_fdt_l2_pmu_init` and any history of
calls: every entry is the marker or an event of the cache, configurations take and
stops free counters as they should. -/
theorem l2_allocator_sound (hw : L2Hw) (s₀ : L2Pmu) (calls : List L2Call) :
    let s := run hw.next (scrFdtL2PmuInit s₀) calls
    (∀ c < 4, s.activeEvents c = sbiPmuEventIdxInvalid ∨
      (s.activeEvents c).toNat < hw.scrL2CacheEvents) ∧
    (∀ cidxBase cidxMask flags eventIdx data1,
      AllocatesL2 hw s cidxBase cidxMask flags eventIdx data1) ∧
    ∀ cbase cmask flags, cbase.toNat < 64 → ReleasesL2 hw s cbase cmask flags := by
  have hvalid := valid_run hw s₀ calls
  exact ⟨hvalid, allocatesL2 hw _, fun _ _ _ hbase => releasesL2 hvalid hbase _ _⟩

/-- Counter 3 is taken for event 5 and given back. -/
theorem l2_allocator_sound_counter_three :
    let s := scrFdtL2PmuInit ⟨fun _ => 0#32, []⟩
    (∃ out s', mcallExtL2Pmu L2Hw.sample s (.cfgMatch 3#64 1#64 0#64 5#64 0x10000#64) =
        (sbiErrorSuccess, out, s') ∧ ∃ c < 4, out = BitVec.ofNat 64 c ∧ L2Free s c ∧
          ¬ L2Free s' c ∧ (s'.activeEvents c).toNat = 5) ∧
      ReleasesL2 L2Hw.sample
        (run L2Hw.sample.next s [.cfgMatch 3#64 1#64 0#64 5#64 0x10000#64]) 3#64 1#64
        sbiPmuStopFlagReset := by
  have hfresh := (l2_allocator_sound L2Hw.sample ⟨fun _ => 0#32, []⟩ []).2.1
  obtain ⟨htakes, hanswers⟩ := (hfresh 3#64 1#64 0#64 5#64 0x10000#64 _ _ _ rfl).1 (by decide)
  have hsuccess := (hanswers (by decide) (by decide)).2.mpr fun hbusy => hbusy 3 (by decide) rfl
  obtain ⟨c, hc, hout, hfree, hbusy, hevent, -⟩ := htakes hsuccess
  exact ⟨⟨_, _, Prod.ext hsuccess rfl, c, hc, hout, hfree, hbusy, hevent⟩,
    (l2_allocator_sound L2Hw.sample ⟨fun _ => 0#32, []⟩ _).2.2 _ _ _ (by decide)⟩

end ScBl
