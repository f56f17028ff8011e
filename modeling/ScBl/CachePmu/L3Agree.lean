import ScBl.CachePmu.L3Control

/-!
# What the L3 counters count

For each counter the entry of the table and its control registers agree, or do not:
`ViewAgrees`. All calls keep an agreement but the configurations with `SKIP_MATCH` and
`AUTO_START`, which write an event and banks that the table need not have
(`l3_agree_iff`).
-/

namespace ScBl

open Loops Runs CachePmu

/-! ## The entry and the registers of a counter -/

section View

variable {n : ℕ} {r : L3PmuEvent × (Fin n → U64)}

/-- Every register is clear or has the event of the entry, and only those of the banks of
the entry are not clear. -/
def ViewAgrees (r : L3PmuEvent × (Fin n → U64)) : Prop :=
  ∀ b : Fin n, (r.2 b = scrL3CacheNop ∨ r.2 b = r.1.ctrl) ∧ (r.2 b ≠ scrL3CacheNop → r.1.Counts b)

/-- If any bank counts, those of the entry do. -/
def ViewWhole (r : L3PmuEvent × (Fin n → U64)) : Prop :=
  (∃ b, r.2 b ≠ scrL3CacheNop) → ∀ b : Fin n, r.1.Counts b → r.2 b ≠ scrL3CacheNop

theorem viewAgrees_of_nop (h : ∀ b, r.2 b = scrL3CacheNop) : ViewAgrees r :=
  fun b => ⟨.inl (h b), fun hne => absurd (h b) hne⟩

theorem viewWhole_of_nop (h : ∀ b, r.2 b = scrL3CacheNop) : ViewWhole r := by
  rintro ⟨b, hne⟩
  exact absurd (h b) hne

/-- The registers of a free counter are clear. -/
theorem ViewAgrees.nop (h : ViewAgrees r) (hfree : ¬ r.1.IsActive) (b : Fin n) :
    r.2 b = scrL3CacheNop := by
  rcases (h b).1 with hnop | hctrl
  · exact hnop
  · exact hctrl.trans (not_not.mp hfree)

/-- A counter with a bank that counts is in use. -/
theorem ViewAgrees.active (h : ViewAgrees r) {b : Fin n} (hne : r.2 b ≠ scrL3CacheNop) :
    r.1.IsActive := by
  by_contra hfree
  exact hne (h.nop hfree b)

end View

section Views

variable {hw : L3Hw} {r : L3PmuEvent × (Fin hw.supportedBanks → U64)} {eventType : U64}
  {banksMask : U32}

theorem ViewAgrees.started (h : ViewAgrees r) : ViewAgrees (startedView r) := by
  intro (b : Fin hw.supportedBanks)
  by_cases hcounts : r.1.IsActive ∧ r.1.Counts b
  · have hreg : (startedView r).2 b = r.1.ctrl := if_pos hcounts
    exact ⟨.inr hreg, fun _ => hcounts.2⟩
  · have hreg : (startedView r).2 b = r.2 b := if_neg hcounts
    rw [hreg]
    exact h b

/-- A start makes all banks of the entry count. -/
theorem ViewAgrees.whole_started (h : ViewAgrees r) : ViewWhole (startedView r) := by
  by_cases hactive : r.1.IsActive
  · intro _ (b : Fin hw.supportedBanks) hcounts
    have hreg : (startedView r).2 b = r.1.ctrl := if_pos ⟨hactive, hcounts⟩
    rw [hreg]
    exact hactive
  · refine viewWhole_of_nop fun b => ?_
    have hreg : (startedView r).2 b = r.2 b := if_neg fun h => hactive h.1
    rw [hreg]
    exact h.nop hactive b

theorem ViewAgrees.nop_stopped (h : ViewAgrees r) (flags : U64) (b : Fin hw.supportedBanks) :
    (stoppedView flags r).2 b = scrL3CacheNop := by
  by_cases hactive : r.1.IsActive
  · exact if_pos hactive
  · exact (if_neg hactive).trans (h.nop hactive b)

theorem restarted_ne_nop (hevent : eventType ≠ scrL3CacheNop) (b : Fin hw.supportedBanks) :
    (restartedView eventType banksMask r).2 b ≠ scrL3CacheNop ↔
      banksMask.getLsbD b = true ∨ r.2 b ≠ scrL3CacheNop := by
  by_cases hbit : banksMask.getLsbD b = true
  · have hreg : (restartedView eventType banksMask r).2 b = eventType := if_pos hbit
    rw [hreg]
    exact iff_of_true hevent (.inl hbit)
  · have hreg : (restartedView eventType banksMask r).2 b = r.2 b := if_neg hbit
    rw [hreg, or_iff_right hbit]

/-- **A restart** keeps the agreement if it asks for what the entry has: it writes its event to the
banks of its mask, and the entry stays. -/
theorem ViewAgrees.restarted_iff (h : ViewAgrees r) (hevent : eventType ≠ scrL3CacheNop)
    (banksMask : U32) :
    ViewAgrees (restartedView eventType banksMask r) ↔
      ∀ b : Fin hw.supportedBanks, banksMask.getLsbD b = true →
        eventType = r.1.ctrl ∧ r.1.Counts b := by
  refine forall_congr' fun b => ?_
  by_cases hbit : banksMask.getLsbD b = true
  · have hreg : (restartedView eventType banksMask r).2 b = eventType := if_pos hbit
    rw [hreg, imp_iff_right hbit, or_iff_right hevent, imp_iff_right hevent]
    exact Iff.rfl
  · have hreg : (restartedView eventType banksMask r).2 b = r.2 b := if_neg hbit
    rw [hreg]
    exact iff_of_true (h b) fun hb => absurd hb hbit

theorem ViewWhole.restarted_iff (h : ViewWhole r) (hevent : eventType ≠ scrL3CacheNop)
    (banksMask : U32) :
    ViewWhole (restartedView eventType banksMask r) ↔
      ((∃ b : Fin hw.supportedBanks, banksMask.getLsbD b = true) →
        ∀ b : Fin hw.supportedBanks, r.1.Counts b →
          banksMask.getLsbD b = true ∨ r.2 b ≠ scrL3CacheNop) := by
  simp only [ViewWhole, restarted_ne_nop hevent]
  constructor
  · rintro hwhole ⟨b, hbit⟩
    exact hwhole ⟨b, .inl hbit⟩
  · rintro hwhole ⟨b, hbit | hne⟩
    · exact hwhole ⟨b, hbit⟩
    · exact fun b' hcounts => .inr (h ⟨b, hne⟩ b' hcounts)

end Views

/-! ## The law -/

variable {hw : L3Hw} {s : L3Pmu} {c i : ℕ}

/-- The control register of a counter in a bank is clear or has the event of its entry,
and is clear in the banks that are not of the entry. -/
def L3Agrees (hw : L3Hw) (s : L3Pmu) : Prop :=
  ∀ c < 4, ∀ b : Fin hw.supportedBanks,
    (hw.regs s c b = scrL3CacheNop ∨ hw.regs s c b = (s.activeEvents c).ctrl) ∧
      (hw.regs s c b ≠ scrL3CacheNop → (s.activeEvents c).Counts b)

/-- A read of the counter adds what the bank has counted. -/
def L3Hw.Sums (hw : L3Hw) (s : L3Pmu) (c bank : ℕ) : Prop :=
  .read (hw.l3bPceCntrN bank (BitVec.ofNat 32 c)) ∈
    (mcallExtL3Pmu hw s (.hwCtrRead (BitVec.ofNat 64 c))).2.2.log.drop s.log.length

/-- A read of a counter that counts sums exactly the banks that count. -/
def L3SumsExactly (hw : L3Hw) (s : L3Pmu) : Prop :=
  ∀ c < 4, (∃ b, hw.regs s c b ≠ scrL3CacheNop) →
    ∀ b : Fin hw.supportedBanks, hw.Sums s c b ↔ hw.regs s c b ≠ scrL3CacheNop

/-- Who restarts a counter asks for its event, and for some of its banks. -/
def L3Call.AsksRecorded (hw : L3Hw) (s : L3Pmu) : L3Call → Prop
  | .cfgMatch cidxBase cidxMask flags eventIdx data1 =>
    ∀ c < 4, RestartsL3 hw s cidxBase cidxMask flags eventIdx data1 c →
      ∀ b : Fin hw.supportedBanks, (scrL3BanksMaskNum data1).getLsbD b = true →
        l3EventType eventIdx = (s.activeEvents c).ctrl ∧ (s.activeEvents c).Counts b
  | _ => True

/-- If it asks for any bank, the ones that it does not ask for count already. -/
def L3Call.AsksWhole (hw : L3Hw) (s : L3Pmu) : L3Call → Prop
  | .cfgMatch cidxBase cidxMask flags eventIdx data1 =>
    ∀ c < 4, RestartsL3 hw s cidxBase cidxMask flags eventIdx data1 c →
      (∃ b : Fin hw.supportedBanks, (scrL3BanksMaskNum data1).getLsbD b = true) →
        ∀ b : Fin hw.supportedBanks, (s.activeEvents c).Counts b →
          (scrL3BanksMaskNum data1).getLsbD b = true ∨ hw.regs s c b ≠ scrL3CacheNop
  | _ => True

/-! ## What a read sums -/

theorem readCntr_log {mask : U32} {cidx : U32} :
    (scrL3PmuReadCntr hw (mask.setWidth 64) cidx s).2.log =
      s.log ++ (hw.banksOf mask).map fun bank => .read (hw.l3bPceCntrN bank cidx) := by
  have hfold : ∀ (l : List ℕ) (t : U64 × L3Pmu),
      (l.foldl (fun (t : U64 × L3Pmu) bank =>
        (t.1 + (readq hw.dev (hw.l3bPceCntrN bank cidx) t.2).1,
          (readq hw.dev (hw.l3bPceCntrN bank cidx) t.2).2)) t).2.log =
        t.2.log ++ l.map fun bank => .read (hw.l3bPceCntrN bank cidx) := by
    intro l
    induction l with
    | nil => exact fun t => (List.append_nil _).symm
    | cons bank l ih =>
      intro t
      rw [List.foldl_cons, ih, List.map_cons, ← List.singleton_append, ← List.append_assoc]
      rfl
  rw [scrL3PmuReadCntr, forEachBank_eq, runUntil_eq_foldl]
  exact hfold _ _

theorem sums_iff (hc : c < 4) (hbusy : s.Busy c) (b : Fin hw.supportedBanks) :
    hw.Sums s c b ↔ (s.activeEvents c).Counts b := by
  have hcut : (BitVec.ofNat 64 c).setWidth 32 = BitVec.ofNat 32 c :=
    BitVec.setWidth_ofNat_of_le (by decide) c
  have hnat : (BitVec.ofNat 64 c).toNat = c := by
    rw [BitVec.toNat_ofNat]
    omega
  have hlog : (mcallExtL3Pmu hw s (.hwCtrRead (BitVec.ofNat 64 c))).2.2.log =
      s.log ++ (.activeEvents c :: .activeEvents c ::
        (hw.banksOf (s.activeEvents c).banksMask).map fun bank =>
          .read (hw.l3bPceCntrN bank (BitVec.ofNat 32 c))) := by
    rw [mcallExtL3Pmu, sbiL3PmuHwCtrRead, hcut, validate_of_busy hc hbusy, hnat]
    simp only [ne_eq, not_true_eq_false, if_false]
    refine readCntr_log.trans ?_
    simp [readActive, CachePmu.access]
  rw [L3Hw.Sums, hlog, List.drop_left]
  constructor
  · intro hmem
    simp only [List.mem_cons, reduceCtorEq, false_or, List.mem_map] at hmem
    obtain ⟨b', hb', haddr⟩ := hmem
    have heq :=
      (bankCntr_addr_inj (mem_banksOf.mp hb').1 b.isLt hc hc).mp (CacheAccess.read.inj haddr)
    rw [← heq.2]
    exact (mem_banksOf.mp hb').2
  · intro hcounts
    have hmem : b.val ∈ hw.banksOf (s.activeEvents c).banksMask := mem_banksOf.mpr ⟨b.isLt, hcounts⟩
    exact List.mem_cons_of_mem _ (List.mem_cons_of_mem _ (List.mem_map_of_mem hmem))

theorem sumsExactly_iff (h : L3Agrees hw s) :
    L3SumsExactly hw s ↔ ∀ c < 4, ViewWhole (hw.ctrView c s) := by
  refine forall₂_congr fun c hc => forall_congr' fun hcounting => forall_congr' fun b => ?_
  have hview : ViewAgrees (hw.ctrView c s) := h c hc
  obtain ⟨b', hne⟩ := hcounting
  rw [sums_iff hc (hview.active hne)]
  exact ⟨Iff.mp, fun hwhole => ⟨hwhole, (hview b).2⟩⟩

/-! ## One call -/

section Step

variable (h : L3Agrees hw s)

include h

/-- A call that is no restart of the counter leaves entry and registers in agreement: either it
leaves both, or it writes both with the same event and for the same banks. -/
theorem viewAgrees_next {e : L3Call} (hi : i < 4)
    (he : ∀ cidxBase cidxMask flags eventIdx data1,
      e = .cfgMatch cidxBase cidxMask flags eventIdx data1 →
        ¬ RestartsL3 hw s cidxBase cidxMask flags eventIdx data1 i) :
    ViewAgrees (hw.ctrView i (hw.next s e)) ∧
      (ViewWhole (hw.ctrView i s) → ViewWhole (hw.ctrView i (hw.next s e))) := by
  have hview : ViewAgrees (hw.ctrView i s) := h i hi
  cases e with
  | cfgMatch cidxBase cidxMask flags eventIdx data1 =>
    rcases ctrView_cfgMatch hi (he _ _ _ _ _ rfl) with hsame | ⟨hfree, htaken | htaken⟩
    · rw [L3Hw.next, mcallExtL3Pmu, hsame]
      exact ⟨hview, id⟩
    · have hnop := fun b => hview.nop hfree b
      rw [L3Hw.next, mcallExtL3Pmu, htaken]
      exact ⟨viewAgrees_of_nop hnop, fun _ => viewWhole_of_nop hnop⟩
    · have hnop := fun b => hview.nop hfree b
      have hentry : ViewAgrees ((sbiL3PmuCtrCfgMatch hw cidxBase cidxMask flags eventIdx data1
        s).2.2.activeEvents i, hw.regs s i) := viewAgrees_of_nop hnop
      rw [L3Hw.next, mcallExtL3Pmu, htaken]
      exact ⟨hentry.started, fun _ => hentry.whole_started⟩
  | start cbase cmask flags data1 =>
    rw [L3Hw.next, mcallExtL3Pmu, ctrView_start hi]
    split_ifs
    · exact ⟨hview.started, fun _ => hview.whole_started⟩
    · exact ⟨hview, id⟩
  | stop cbase cmask flags =>
    rw [L3Hw.next, mcallExtL3Pmu, ctrView_stop hi]
    split_ifs
    · have hnop := hview.nop_stopped flags
      exact ⟨viewAgrees_of_nop hnop, fun _ => viewWhole_of_nop hnop⟩
    · exact ⟨hview, id⟩
  | hwCtrRead cidx =>
    rw [L3Hw.next, mcallExtL3Pmu, ctrView_hwCtrRead]
    exact ⟨hview, id⟩

/-- **A call** keeps the agreement exactly if it asks for what is recorded. A restart writes the
registers only, with the event and the banks of the call, while the entry stays. -/
theorem agrees_next_iff (e : L3Call) : L3Agrees hw (hw.next s e) ↔ e.AsksRecorded hw s := by
  have hother : (∀ cidxBase cidxMask flags eventIdx data1,
      e ≠ .cfgMatch cidxBase cidxMask flags eventIdx data1) → L3Agrees hw (hw.next s e) :=
    fun hne i hi => (viewAgrees_next h hi fun _ _ _ _ _ heq => absurd heq (hne _ _ _ _ _)).1
  cases e with
  | cfgMatch cidxBase cidxMask flags eventIdx data1 =>
    refine forall₂_congr fun i hi => ?_
    by_cases hrestarts : RestartsL3 hw s cidxBase cidxMask flags eventIdx data1 i
    · have hview : ViewAgrees (hw.ctrView i s) := h i hi
      have hevent : l3EventType eventIdx ≠ scrL3CacheNop := fun hnop => hrestarts.ok.2 (.inr hnop)
      have hiff := hview.restarted_iff hevent (scrL3BanksMaskNum data1)
      rw [← ctrView_restart hrestarts] at hiff
      rw [imp_iff_right hrestarts]
      exact hiff
    · refine iff_of_true (viewAgrees_next h hi fun _ _ _ _ _ heq => ?_).1
        fun hr => absurd hr hrestarts
      cases heq
      exact hrestarts
  | start | stop | hwCtrRead =>
    refine iff_of_true (hother fun _ _ _ _ _ => ?_) trivial
    exact L3Call.noConfusion

theorem whole_next_iff (hwhole : ∀ c < 4, ViewWhole (hw.ctrView c s)) (e : L3Call) :
    (∀ c < 4, ViewWhole (hw.ctrView c (hw.next s e))) ↔ e.AsksWhole hw s := by
  have hother : (∀ cidxBase cidxMask flags eventIdx data1,
      e ≠ .cfgMatch cidxBase cidxMask flags eventIdx data1) →
        ∀ c < 4, ViewWhole (hw.ctrView c (hw.next s e)) := fun hne i hi =>
    (viewAgrees_next h hi fun _ _ _ _ _ heq => absurd heq (hne _ _ _ _ _)).2 (hwhole i hi)
  cases e with
  | cfgMatch cidxBase cidxMask flags eventIdx data1 =>
    refine forall₂_congr fun i hi => ?_
    by_cases hrestarts : RestartsL3 hw s cidxBase cidxMask flags eventIdx data1 i
    · have hevent : l3EventType eventIdx ≠ scrL3CacheNop := fun hnop => hrestarts.ok.2 (.inr hnop)
      have hiff := (hwhole i hi).restarted_iff hevent (scrL3BanksMaskNum data1)
      rw [← ctrView_restart hrestarts] at hiff
      rw [imp_iff_right hrestarts]
      exact hiff
    · refine iff_of_true ((viewAgrees_next h hi fun _ _ _ _ _ heq => ?_).2 (hwhole i hi))
        fun hr => absurd hr hrestarts
      cases heq
      exact hrestarts
  | start | stop | hwCtrRead =>
    refine iff_of_true (hother fun _ _ _ _ _ => ?_) trivial
    exact L3Call.noConfusion

end Step

/-! ## Runs -/

theorem agrees_init {s₀ : L3Pmu}
    (hnop : ∀ c < 4, ∀ b : Fin hw.supportedBanks, hw.regs s₀ c b = scrL3CacheNop) :
    L3Agrees hw (scrFdtL3PmuInit s₀) ∧
      ∀ c < 4, ViewWhole (hw.ctrView c (scrFdtL3PmuInit s₀)) := by
  have hview : ∀ c < 4, ∀ b, (hw.ctrView c (scrFdtL3PmuInit s₀)).2 b = scrL3CacheNop := hnop
  exact ⟨fun c hc => viewAgrees_of_nop (hview c hc), fun c hc => viewWhole_of_nop (hview c hc)⟩

/-- **What the L3 counters count.** After `scr_fdt_l3_pmu_init` with the control registers
clear, table and registers agree in every state of a run exactly if every restart asks for
what is recorded; and then reads sum exactly the banks that count, in every state, exactly
if every restart leaves none of the banks of its counter out. -/
theorem l3_agree_iff (hw : L3Hw) (s₀ : L3Pmu)
    (hnop : ∀ c < 4, ∀ b : Fin hw.supportedBanks, hw.regs s₀ c b = scrL3CacheNop)
    (calls : List L3Call) :
    (Throughout hw.next (L3Agrees hw) (scrFdtL3PmuInit s₀) calls ↔
      EachStep hw.next (fun s e => e.AsksRecorded hw s) (scrFdtL3PmuInit s₀) calls) ∧
    (Throughout hw.next (fun s => L3Agrees hw s ∧ L3SumsExactly hw s) (scrFdtL3PmuInit s₀) calls ↔
      EachStep hw.next (fun s e => e.AsksRecorded hw s ∧ e.AsksWhole hw s)
        (scrFdtL3PmuInit s₀) calls) := by
  obtain ⟨hagrees, hwhole⟩ := agrees_init hnop
  have hgood : ∀ s, L3Agrees hw s ∧ L3SumsExactly hw s ↔
      L3Agrees hw s ∧ ∀ c < 4, ViewWhole (hw.ctrView c s) :=
    fun s => and_congr_right fun h => sumsExactly_iff h
  constructor
  · refine (throughout_iff (fun _ => True) (fun _ _ _ => trivial)
      (fun s e _ h => agrees_next_iff h e) trivial).trans (and_iff_right hagrees)
  · refine (throughout_iff (fun _ => True) (fun _ _ _ => trivial) (fun s e _ h => ?_)
      trivial).trans (and_iff_right ((hgood _).mpr ⟨hagrees, hwhole⟩))
    obtain ⟨hs, hsw⟩ := (hgood s).mp h
    rw [hgood, agrees_next_iff hs]
    exact and_congr_right fun _ => whole_next_iff hs hsw e

/-- A counter for event 5 in bank 0 is started. -/
theorem l3_agree_started :
    (Throughout L3Hw.sample.next (L3Agrees L3Hw.sample)
        (scrFdtL3PmuInit ⟨fun _ => ⟨0#64, 0#32, 0#32⟩, []⟩)
        [.cfgMatch 0#64 1#64 0#64 5#64 0x100#64, .start 0#64 1#64 0#64 0#64] ↔
      EachStep L3Hw.sample.next (fun s e => e.AsksRecorded L3Hw.sample s)
        (scrFdtL3PmuInit ⟨fun _ => ⟨0#64, 0#32, 0#32⟩, []⟩)
        [.cfgMatch 0#64 1#64 0#64 5#64 0x100#64, .start 0#64 1#64 0#64 0#64]) :=
  (l3_agree_iff L3Hw.sample ⟨fun _ => ⟨0#64, 0#32, 0#32⟩, []⟩ (fun _ _ _ => rfl) _).1

/-- Counter 0 is configured for event 5, and restarted for event 6. -/
theorem l3_not_agree :
    ¬ Throughout L3Hw.sample.next (L3Agrees L3Hw.sample)
      (scrFdtL3PmuInit ⟨fun _ => ⟨0#64, 0#32, 0#32⟩, []⟩)
      [.cfgMatch 0#64 1#64 0#64 5#64 0x100#64,
        .cfgMatch 0#64 1#64 (sbiPmuCfgFlagSkipMatch ||| sbiPmuCfgFlagAutoStart) 6#64 0x100#64] := by
  intro h
  have hreg := (h _ [] (List.append_nil _).symm 0 (by decide) ⟨0, by decide⟩).1
  revert hreg
  decide +kernel

end ScBl
