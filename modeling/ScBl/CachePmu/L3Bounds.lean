import ScBl.CachePmu.CfgMatch

/-!
# L3 PMU calls and their tables

A call names counters, as unbounded numbers. The checks of `l3_pmu.c` look at
the mask after the shift, and at a read index cut to 32 bits, so that a call may
pass them although it names a counter that is not there. Exactly these calls
break the law that calls stay inside their tables and that out of range ones
fail without touching a register (`l3_law_iff`).
-/

namespace ScBl

open Loops Runs CachePmu

/-! ## The law -/

/-- The control and counter registers of the four counters. -/
def L3Hw.Register (hw : L3Hw) (addr : U64) : Prop :=
  ∃ c < 4, addr = hw.l3cPceCtrlN (BitVec.ofNat 32 c) ∨
    ∃ bank < hw.supportedBanks, addr = hw.l3bPceCtrlN bank (BitVec.ofNat 32 c) ∨
      addr = hw.l3bPceCntrN bank (BitVec.ofNat 32 c)

/-- An access inside the table or the registers. -/
def L3Hw.InTables (hw : L3Hw) : CacheAccess → Prop
  | .activeEvents index => index < 4
  | .read addr => hw.Register addr
  | .write addr _ => hw.Register addr

/-- An access to the table, inside it. -/
def CacheAccess.InTable (a : CacheAccess) : Prop := ∃ i < 4, a = .activeEvents i

/-- A register access. -/
def CacheAccess.IsRegister : CacheAccess → Prop
  | .activeEvents _ => False
  | .read _ => True
  | .write _ _ => True

/-- The counters that a call is about, as unbounded numbers. -/
def L3Call.Names : L3Call → ℕ → Prop
  | .cfgMatch cidxBase cidxMask flags _ _, n =>
    if hasFlag flags sbiPmuCfgFlagSkipMatch then
      cidxMask ≠ 0#64 ∧ n = cidxBase.toNat + sbiFfs cidxMask
    else ∃ i, cidxMask.getLsbD i = true ∧ n = cidxBase.toNat + i
  | .start cbase cmask _ _, n => ∃ i, cmask.getLsbD i = true ∧ n = cbase.toNat + i
  | .stop cbase cmask _, n => ∃ i, cmask.getLsbD i = true ∧ n = cbase.toNat + i
  | .hwCtrRead cidx, n => n = cidx.toNat

/-- A call with a counter index out of range. -/
def L3Call.OutOfRange (c : L3Call) : Prop := ∃ n, c.Names n ∧ 4 ≤ n

/-- The call stays inside the tables, and fails without touching a register if
it is out of range. -/
def L3Law (hw : L3Hw) (s : L3Pmu) (c : L3Call) : Prop :=
  Adds hw.InTables s (hw.next s c) ∧
    (c.OutOfRange → (mcallExtL3Pmu hw s c).1 < 0 ∧
      Adds (fun a => ¬ a.IsRegister) s (hw.next s c))

/-! ## What the calls check -/

/-- The checks of the call let it through. -/
def L3Call.Passes (hw : L3Hw) (s : L3Pmu) : L3Call → Prop
  | .cfgMatch cidxBase cidxMask flags eventIdx data1 =>
    scrL3BanksMaskNum data1 ≠ 0#32 ∧ ¬ hw.RefusesEvent eventIdx ∧
      if hasFlag flags sbiPmuCfgFlagSkipMatch then
        sbiFfs (shl cidxMask cidxBase) < 4 ∧ s.Busy (sbiFfs (shl cidxMask cidxBase))
      else
        sbiFls (shl cidxMask cidxBase) < 4 ∧ (∃ i < 4, ¬ s.Busy i) ∧
          popcount (scrL3BanksMaskNum data1 &&& hw.supportedBanksMask) ≠ 0
  | .start cbase cmask _ _ =>
    sbiFls (shl cmask cbase) < 4 ∧
      ∃ b, cbase.toNat ≤ b ∧ b < 4 ∧ (shl cmask cbase).getLsbD b = true ∧ s.Busy b
  | .stop cbase cmask _ => sbiFls (shl cmask cbase) < 4
  | .hwCtrRead cidx => cidx.toNat % 2 ^ 32 < 4 ∧ s.Busy (cidx.toNat % 2 ^ 32)

/-- An out of range call does not get through. -/
def KeepsRange (hw : L3Hw) (s : L3Pmu) (c : L3Call) : Prop := c.OutOfRange → ¬ c.Passes hw s

/-! ## The helpers -/

/-- A table access is no register access. -/
theorem CacheAccess.InTable.not_isRegister {a : CacheAccess} (h : a.InTable) : ¬ a.IsRegister := by
  obtain ⟨i, _, rfl⟩ := h
  exact id

/-- An access inside the table is one of those that are allowed. -/
theorem CacheAccess.InTable.inTables (hw : L3Hw) {a : CacheAccess} (h : a.InTable) :
    hw.InTables a := by
  obtain ⟨i, hi, rfl⟩ := h
  exact hi

variable {hw : L3Hw} {s : L3Pmu} {c : ℕ}

theorem adds_readActive (hc : c < 4) : Adds CacheAccess.InTable s (s.readActive c) :=
  (Adds.refl s).access ⟨c, hc, rfl⟩

theorem toNat_ofNat_of_lt (hc : c < 4) : (BitVec.ofNat 32 c).toNat = c := by
  rw [BitVec.toNat_ofNat]
  omega

/-- A counter in use passes the check. -/
theorem validate_of_busy (hc : c < 4) (hbusy : s.Busy c) :
    scrL3PmuEventValidate (BitVec.ofNat 32 c) s = (0, s.readActive c) := by
  have hnot : ¬ scrL3PmuCounters ≤ c := not_le.mpr hc
  rw [scrL3PmuEventValidate, toNat_ofNat_of_lt hc,
    if_neg hnot]
  exact if_neg (not_not.mpr hbusy)

/-- A free one does not. -/
theorem validate_of_free (hc : c < 4) (hfree : ¬ s.Busy c) :
    scrL3PmuEventValidate (BitVec.ofNat 32 c) s = (sbiErrorInvalidParam, s.readActive c) := by
  have hnot : ¬ scrL3PmuCounters ≤ c := not_le.mpr hc
  rw [scrL3PmuEventValidate, toNat_ofNat_of_lt hc,
    if_neg hnot]
  exact if_pos hfree

/-- The loops over banks. -/
theorem forEachBank_inv {σ : Type} (Inv : σ → Prop) {banksMask : U64} {body : ℕ → σ → σ}
    (hbody : ∀ bank < hw.supportedBanks, ∀ s, Inv s → Inv (body bank s)) {s : σ} (hs : Inv s) :
    Inv (forEachBank hw banksMask body s) := by
  rw [forEachBank, forEachSetBitFrom_eq]
  refine runUntil_inv Inv (fun bank hbank s hs => ?_) hs
  exact hbody bank (mem_indicesIn.mp hbank).2.1 s hs

/-- The control register of a counter in a bank that there is. -/
theorem register_bankCtrl {bank : ℕ} (hc : c < 4) (hbank : bank < hw.supportedBanks) :
    hw.Register (hw.l3bPceCtrlN bank (BitVec.ofNat 32 c)) :=
  ⟨c, hc, .inr ⟨bank, hbank, .inl rfl⟩⟩

/-- The counter itself. -/
theorem register_bankCntr {bank : ℕ} (hc : c < 4) (hbank : bank < hw.supportedBanks) :
    hw.Register (hw.l3bPceCntrN bank (BitVec.ofNat 32 c)) :=
  ⟨c, hc, .inr ⟨bank, hbank, .inr rfl⟩⟩

/-- A write of a counter, with any mask, goes to banks that there are. -/
theorem adds_writeCntr (hc : c < 4) {banksMask val : U64} :
    Adds hw.InTables s (scrL3PmuWriteCntr hw banksMask (BitVec.ofNat 32 c) val s) := by
  refine forEachBank_inv (Adds hw.InTables s) (fun bank hbank t ht => ?_) (Adds.refl s)
  exact ht.access (register_bankCntr hc hbank)

/-- So does a write of the control registers. -/
theorem adds_bankWriteCtrl (hc : c < 4) {banksMask ival : U64} :
    Adds hw.InTables s (scrL3PmuBankWriteCtrl hw banksMask (BitVec.ofNat 32 c) ival s) := by
  refine forEachBank_inv (Adds hw.InTables s) (fun bank hbank t ht => ?_) (Adds.refl s)
  exact ht.access (register_bankCtrl hc hbank)

/-- So does a read of a counter. -/
theorem adds_readCntr (hc : c < 4) {banksMask : U64} :
    Adds hw.InTables s (scrL3PmuReadCntr hw banksMask (BitVec.ofNat 32 c) s).2 := by
  refine forEachBank_inv (fun t : U64 × L3Pmu => Adds hw.InTables s t.2)
    (fun bank hbank t ht => ?_) (Adds.refl s)
  exact ht.access (register_bankCntr hc hbank)

/-- Starting a counter stays inside, given that the counter is one of four. -/
theorem adds_startHw (hc : c < 4) {banksMask : U32} {ctrlVal cntrVal : U64} {cntrUpdate : Prop}
    [Decidable cntrUpdate] :
    Adds hw.InTables s (scrL3PmuCtrStartHw hw banksMask (BitVec.ofNat 32 c) ctrlVal cntrVal
      cntrUpdate s) := by
  rw [scrL3PmuCtrStartHw]
  split_ifs
  · exact (adds_writeCntr hc).trans (adds_bankWriteCtrl hc)
  · exact adds_bankWriteCtrl hc

/-- Starting a counter leaves the table. -/
theorem startHw_activeEvents {cidx banksMask : U32} {ctrlVal cntrVal : U64} {cntrUpdate : Prop}
    [Decidable cntrUpdate] :
    (scrL3PmuCtrStartHw hw banksMask cidx ctrlVal cntrVal cntrUpdate s).activeEvents =
      s.activeEvents := by
  have hsame : ∀ (mask val : U64) (addr : ℕ → U64) (s : L3Pmu),
      (forEachBank hw mask (fun bank s => writeq val (addr bank) s) s).activeEvents =
        s.activeEvents := by
    intro mask val addr s
    refine forEachBank_inv (fun t : L3Pmu => t.activeEvents = s.activeEvents)
      (fun bank _ t ht => ?_) rfl
    exact ht
  rw [scrL3PmuCtrStartHw, scrL3PmuBankWriteCtrl, hsame]
  split_ifs
  · exact hsame ..
  · rfl

/-- With `SKIP_MATCH` there is nothing left to fail. -/
theorem skipMatch_fst {flags eventType : U64} {banksMask : U32} :
    (l3SkipMatch hw flags banksMask eventType c s).1 = sbiErrorSuccess := rfl

/-- Its accesses are those of one entry and its counter. -/
theorem adds_skipMatch (hc : c < 4) {flags eventType : U64} {banksMask : U32} :
    Adds hw.InTables s (l3SkipMatch hw flags banksMask eventType c s).2.2 := by
  have hclear : ∀ t : L3Pmu, Adds hw.InTables s t → Adds hw.InTables s
      (if hasFlag flags sbiPmuCfgFlagClearValue then
        scrL3PmuWriteCntr hw ((~~~0#32).setWidth 64) (BitVec.ofNat 32 c) 0#64 t
      else t) := by
    intro t ht
    split_ifs
    · exact ht.trans (adds_writeCntr hc)
    · exact ht
  have hauto : ∀ t : L3Pmu, Adds hw.InTables s t → Adds hw.InTables s
      (if hasFlag flags sbiPmuCfgFlagAutoStart then
        scrL3PmuCtrStartHw hw banksMask (BitVec.ofNat 32 c) eventType 0#64 False t
      else t) := by
    intro t ht
    split_ifs
    · exact ht.trans (adds_startHw hc)
    · exact ht
  exact hauto _ (hclear _ (Adds.refl s))

/-- A search goes through the four entries. -/
theorem adds_readTable {n : ℕ} (hn : n ≤ 4) : Adds CacheAccess.InTable s (readTable n s) := by
  induction n with
  | zero =>
    rw [readTable_zero]
    exact .refl s
  | succ n ih =>
    rw [readTable_succ]
    exact (ih (Nat.le_of_succ_le hn)).trans (adds_readActive hn)

/-! ## The calls -/

/-- The two ways a call can go: its checks let it through, it succeeds and stays
inside the tables if it is not out of range, or they do not, it fails and has
looked at the table only. -/
def L3Outcome (hw : L3Hw) (s : L3Pmu) (c : L3Call) (r : L3Result) : Prop :=
  (c.Passes hw s ∧ r.1 = 0 ∧ (¬ c.OutOfRange → Adds hw.InTables s r.2.2)) ∨
    (¬ c.Passes hw s ∧ r.1 < 0 ∧ Adds CacheAccess.InTable s r.2.2)

variable {call : L3Call} {ret : ℤ} {t : L3Pmu}

/-- The outcome of a call that fails on its checks. -/
theorem L3Outcome.refused (hno : ¬ call.Passes hw s) (hret : ret < 0)
    (hadds : Adds CacheAccess.InTable s t) : L3Outcome hw s call (ret, 0#64, t) :=
  .inr ⟨hno, hret, hadds⟩

section CfgMatch

variable {cidxBase cidxMask flags eventIdx data1 : U64}

/-- The checks that are left for an event that is accepted. -/
theorem passes_cfgMatch_iff (s : L3Pmu) (cidxBase cidxMask flags : U64)
    (hok : hw.AcceptsEvent eventIdx data1) :
    L3Call.Passes hw s (.cfgMatch cidxBase cidxMask flags eventIdx data1) ↔
      if hasFlag flags sbiPmuCfgFlagSkipMatch then
        sbiFfs (shl cidxMask cidxBase) < 4 ∧ s.Busy (sbiFfs (shl cidxMask cidxBase))
      else
        sbiFls (shl cidxMask cidxBase) < 4 ∧ (∃ i < 4, ¬ s.Busy i) ∧
          popcount (scrL3BanksMaskNum data1 &&& hw.supportedBanksMask) ≠ 0 := by
  rw [L3Call.Passes, and_iff_right hok.1, and_iff_right hok.2]

/-- **A configuration** either passes its checks, and then succeeds, or has looked at the table
only. -/
theorem cfgMatch_outcome (hw : L3Hw) (s : L3Pmu)
    (cidxBase cidxMask flags eventIdx data1 : U64) :
    L3Outcome hw s (.cfgMatch cidxBase cidxMask flags eventIdx data1)
      (sbiL3PmuCtrCfgMatch hw cidxBase cidxMask flags eventIdx data1 s) := by
  have h := sbiL3PmuCtrCfgMatch_spec hw s cidxBase cidxMask flags eventIdx data1
  generalize sbiL3PmuCtrCfgMatch hw cidxBase cidxMask flags eventIdx data1 s = r at h ⊢
  have hpasses := fun hok : hw.AcceptsEvent eventIdx data1 =>
    passes_cfgMatch_iff s cidxBase cidxMask flags hok
  have hinvalid : sbiErrorInvalidParam < 0 := by decide
  have hunsupported : sbiErrorNotSupported < 0 := by decide
  cases h with
  | noBanks hbanks => exact .refused (fun h => h.1 hbanks) hinvalid (.refl s)
  | noEvent _ hevent => exact .refused (fun h => h.2.1 hevent) hunsupported (.refl s)
  | skipBeyond hok hskip hc =>
    rw [if_pos hskip] at hpasses
    exact .refused (fun h => Nat.not_lt.mpr hc ((hpasses hok).mp h).1) hinvalid (.refl s)
  | skipFree hok hskip hc hfree =>
    rw [if_pos hskip] at hpasses
    exact .refused (fun h => hfree ((hpasses hok).mp h).2) hinvalid (adds_readActive hc)
  | skip hok hskip hc hbusy =>
    rw [if_pos hskip] at hpasses
    refine .inl ⟨(hpasses hok).mpr ⟨hc, hbusy⟩, skipMatch_fst, fun _ => ?_⟩
    have hread := adds_readActive (s := s) hc
    exact (hread.mono fun _ => CacheAccess.InTable.inTables hw).trans (adds_skipMatch hc)
  | beyond hok hmatch hfls =>
    rw [if_neg hmatch] at hpasses
    exact .refused (fun h => Nat.not_lt.mpr hfls ((hpasses hok).mp h).1) hunsupported (.refl s)
  | full hok hmatch _ hbusy =>
    rw [if_neg hmatch] at hpasses
    refine .refused (fun h => ?_) hunsupported (adds_readTable (le_refl 4))
    obtain ⟨i, hi, hfree⟩ := ((hpasses hok).mp h).2.1
    exact hfree (hbusy i hi)
  | noSupport hok hmatch _ c hc hpop =>
    rw [if_neg hmatch] at hpasses
    exact .refused (fun h => ((hpasses hok).mp h).2.2 hpop) hinvalid (adds_readTable hc.lt)
  | found hok hmatch hfls c hc hpop =>
    rw [if_neg hmatch] at hpasses
    refine .inl ⟨(hpasses hok).mpr ⟨hfls, ⟨c, hc.lt, hc.free⟩, hpop⟩, skipMatch_fst, fun _ => ?_⟩
    have htable := (adds_readTable (s := s) hc.lt).mono fun _ => CacheAccess.InTable.inTables hw
    exact (htable.writeActive hc.lt).trans (adds_skipMatch hc.lt)

/-- A call that fails has not passed its checks. -/
theorem L3Outcome.not_passes {r : L3Result} (h : L3Outcome hw s call r) (hret : r.1 ≠ 0) :
    ¬ call.Passes hw s := by
  rcases h with ⟨_, hzero, _⟩ | ⟨hno, _⟩
  · exact absurd hzero hret
  · exact hno

/-- A call that succeeds has passed its checks. -/
theorem L3Outcome.passes {r : L3Result} (h : L3Outcome hw s call r) (hret : r.1 = 0) :
    call.Passes hw s := by
  rcases h with ⟨hpasses, _⟩ | ⟨_, hneg, _⟩
  · exact hpasses
  · exact absurd hret (Int.ne_of_lt hneg)

end CfgMatch

/-- A round at a counter in use makes the call a success. -/
theorem l3StartBody_of_busy (hw : L3Hw) (flags init : U64) {t : ℤ × L3Pmu} (hc : c < 4)
    (hbusy : t.2.Busy c) :
    ∃ t', l3StartBody hw flags init c t = (none, 0, t') ∧ t'.activeEvents = t.2.activeEvents ∧
      Adds hw.InTables t.2 t' := by
  have hread : Adds hw.InTables t.2 ((t.2.readActive c).readActive c) :=
    ((Adds.refl t.2).access hc).access hc
  rw [l3StartBody, validate_of_busy hc hbusy]
  exact ⟨_, rfl, startHw_activeEvents, hread.trans (adds_startHw hc)⟩

/-- A round at a free counter leaves the result as it was, so that one counter in use is enough. -/
theorem l3StartBody_of_free (hw : L3Hw) (flags init : U64) {t : ℤ × L3Pmu} (hc : c < 4)
    (hfree : ¬ t.2.Busy c) :
    l3StartBody hw flags init c t = (none, t.1, t.2.readActive c) := by
  rw [l3StartBody, validate_of_free hc hfree]
  rfl

/-- The loop of `sbi_l3_pmu_ctr_start` over free counters. -/
theorem runUntil_l3Start_of_free (hw : L3Hw) (flags init : U64) {l : List ℕ} : ∀ {t : ℤ × L3Pmu},
    (∀ b ∈ l, b < 4 ∧ ¬ t.2.Busy b) →
    (runUntil (l3StartBody hw flags init) l t).2.1 = t.1 ∧
      Adds CacheAccess.InTable t.2 (runUntil (l3StartBody hw flags init) l t).2.2 := by
  induction l with
  | nil =>
    intro t _
    exact ⟨rfl, Adds.refl _⟩
  | cons b l ih =>
    intro t hl
    obtain ⟨⟨hb, hfree⟩, hl⟩ := List.forall_mem_cons.mp hl
    have hbody := l3StartBody_of_free hw flags init hb hfree
    obtain ⟨hret, hadds⟩ := ih (t := (t.1, t.2.readActive b)) hl
    rw [runUntil_cons_next (by rw [hbody]), hbody]
    exact ⟨hret, (adds_readActive hb).trans hadds⟩

/-- The loop of `sbi_l3_pmu_ctr_start` reports success when it meets a counter
that is configured, and keeps a success. -/
theorem runUntil_l3Start (hw : L3Hw) (flags init : U64) {l : List ℕ} : ∀ {t : ℤ × L3Pmu},
    (∀ b ∈ l, b < 4) →
    ((∃ b ∈ l, t.2.Busy b) ∨ t.1 = 0 → (runUntil (l3StartBody hw flags init) l t).2.1 = 0) ∧
      Adds hw.InTables t.2 (runUntil (l3StartBody hw flags init) l t).2.2 := by
  induction l with
  | nil =>
    intro t _
    exact ⟨fun h => by simpa using h, Adds.refl _⟩
  | cons b l ih =>
    intro t hl
    obtain ⟨hb, hl⟩ := List.forall_mem_cons.mp hl
    by_cases hbusy : t.2.Busy b
    · obtain ⟨t', hbody, hact, hadds⟩ :=
        l3StartBody_of_busy hw flags init hb hbusy
      obtain ⟨hret, hadds'⟩ := ih (t := (0, t')) hl
      rw [runUntil_cons_next (by rw [hbody]), hbody]
      exact ⟨fun _ => hret (.inr rfl), hadds.trans hadds'⟩
    · have hbody := l3StartBody_of_free hw flags init hb hbusy
      obtain ⟨hret, hadds⟩ := ih (t := (t.1, t.2.readActive b)) hl
      rw [runUntil_cons_next (by rw [hbody]), hbody]
      refine ⟨fun h => hret ?_, ((Adds.refl t.2).access hb).trans hadds⟩
      rcases h with ⟨b', hmem, hbusy'⟩ | h
      · rcases List.mem_cons.mp hmem with rfl | hmem
        · exact absurd hbusy' hbusy
        · exact .inl ⟨b', hmem, hbusy'⟩
      · exact .inr h

/-- The counters that the loops of start and stop visit. -/
theorem mem_counters {cbase ctrMask : U64} {b : ℕ} :
    b ∈ indicesIn (wordBitmap ctrMask).bit cbase.toNat scrL3PmuCounters ↔
      cbase.toNat ≤ b ∧ b < 4 ∧ ctrMask.getLsbD b = true := by
  rw [mem_indicesIn]
  refine and_congr_right fun _ => and_congr_right fun hb => ?_
  have hb4 : b < 4 := hb
  rw [wordBitmap_bit ctrMask (by omega)]

/-- **A start** succeeds or fails by its checks. The loop may come to counters that are free, and
then fails unless there is one in use as well; at those it reads the table alone. -/
theorem start_outcome (hw : L3Hw) (s : L3Pmu) (cbase cmask flags data1 : U64) :
    L3Outcome hw s (.start cbase cmask flags data1)
      (sbiL3PmuCtrStart hw cbase cmask flags data1 s) := by
  have hinvalid : sbiErrorInvalidParam < 0 := by decide
  rw [sbiL3PmuCtrStart_eq]
  by_cases hfls : sbiFls (shl cmask cbase) < 4
  swap
  · rw [if_neg hfls]
    exact .refused (fun h => hfls h.1) hinvalid (Adds.refl s)
  rw [if_pos hfls]
  by_cases hbusy : ∃ b ∈ indicesIn (wordBitmap (shl cmask cbase)).bit cbase.toNat scrL3PmuCounters,
      s.Busy b
  · obtain ⟨hret, hadds⟩ := runUntil_l3Start hw flags data1
      (t := (sbiErrorInvalidParam, s)) fun b hb => (mem_counters.mp hb).2.1
    obtain ⟨b, hb, hbb⟩ := hbusy
    obtain ⟨hle, hb4, hbit⟩ := mem_counters.mp hb
    exact .inl ⟨⟨hfls, b, hle, hb4, hbit, hbb⟩, hret (.inl ⟨b, hb, hbb⟩),
      fun _ => hadds⟩
  · obtain ⟨hret, hadds⟩ := runUntil_l3Start_of_free hw flags data1
      (t := (sbiErrorInvalidParam, s)) fun b hb =>
        ⟨(mem_counters.mp hb).2.1, fun h => hbusy ⟨b, hb, h⟩⟩
    refine .inr ⟨?_, ?_, hadds⟩
    · rintro ⟨_, b, hle, hb4, hbit, hbb⟩
      exact hbusy ⟨b, mem_counters.mpr ⟨hle, hb4, hbit⟩, hbb⟩
    · exact hret.trans_lt hinvalid

/-- A round of the stop stays inside. -/
theorem adds_stopBody {flags : U64} (hc : c < 4) :
    Adds hw.InTables s (l3StopBody hw flags c s).2 := by
  have hread : Adds hw.InTables s (s.readActive c) := (Adds.refl s).access hc
  by_cases hbusy : s.Busy c
  · rw [l3StopBody, validate_of_busy hc hbusy]
    have hstop : ∀ t : L3Pmu, Adds hw.InTables s t →
        Adds hw.InTables s (scrL3PmuCtrStopHw hw (BitVec.ofNat 32 c) t) := by
      intro t ht
      have hreg : hw.Register (hw.l3cPceCtrlN (BitVec.ofNat 32 c)) := ⟨c, hc, .inl rfl⟩
      exact ht.access hreg
    simp only [ne_eq, not_true_eq_false, if_false]
    split_ifs
    · exact hstop _ (hread.writeActive hc)
    · exact hstop _ hread
  · rw [l3StopBody, validate_of_free hc hbusy]
    exact hread

/-- **A stop** likewise. -/
theorem stop_outcome (hw : L3Hw) (s : L3Pmu) (cbase cmask flags : U64) :
    L3Outcome hw s (.stop cbase cmask flags) (sbiL3PmuCtrStop hw cbase cmask flags s) := by
  rw [sbiL3PmuCtrStop_eq]
  by_cases hfls : sbiFls (shl cmask cbase) < 4
  · rw [if_pos hfls, if_pos hfls]
    refine .inl ⟨hfls, rfl, fun _ => ?_⟩
    refine runUntil_inv (Adds hw.InTables s) (fun b hb t ht => ?_) (Adds.refl s)
    exact ht.trans (adds_stopBody (mem_counters.mp hb).2.1)
  · rw [if_neg hfls, if_neg hfls]
    exact .refused hfls (by decide) (Adds.refl s)

/-- **A read** succeeds or fails by its checks: the index is compared as it comes, so that none out
of range reaches a register. -/
theorem hwCtrRead_outcome (hw : L3Hw) (s : L3Pmu) (cidx : U64) :
    L3Outcome hw s (.hwCtrRead cidx) (sbiL3PmuHwCtrRead hw cidx s) := by
  have hcut : cidx.setWidth 32 = BitVec.ofNat 32 (cidx.toNat % 2 ^ 32) := by
    apply BitVec.eq_of_toNat_eq
    rw [BitVec.toNat_setWidth, BitVec.toNat_ofNat, Nat.mod_mod]
  rw [sbiL3PmuHwCtrRead, hcut]
  by_cases hc : cidx.toNat % 2 ^ 32 < 4
  · by_cases hbusy : s.Busy (cidx.toNat % 2 ^ 32)
    · rw [validate_of_busy hc hbusy]
      refine .inl ⟨⟨hc, hbusy⟩, rfl, fun hin => ?_⟩
      have hlt : cidx.toNat < 4 := by
        by_contra hge
        exact hin ⟨cidx.toNat, rfl, not_lt.mp hge⟩
      exact (((Adds.refl s).access hc).access hlt).trans (adds_readCntr hc)
    · rw [validate_of_free hc hbusy]
      exact .refused (fun h => hbusy h.2) (by decide) (adds_readActive hc)
  · have hrefuse : scrL3PmuEventValidate (BitVec.ofNat 32 (cidx.toNat % 2 ^ 32)) s =
        (sbiErrorInvalidParam, s) := by
      rw [scrL3PmuEventValidate, BitVec.toNat_ofNat, Nat.mod_mod]
      exact if_pos (not_lt.mp hc)
    rw [hrefuse]
    exact .refused (fun h => hc h.1) (by decide) (Adds.refl s)

/-! ## The law of a call -/

/-- All calls of the extension. -/
theorem mcallExtL3Pmu_outcome (hw : L3Hw) (s : L3Pmu) (c : L3Call) :
    L3Outcome hw s c (mcallExtL3Pmu hw s c) := by
  cases c with
  | cfgMatch cidxBase cidxMask flags eventIdx data1 =>
    exact cfgMatch_outcome hw s cidxBase cidxMask flags eventIdx data1
  | start cbase cmask flags data1 => exact start_outcome hw s cbase cmask flags data1
  | stop cbase cmask flags => exact stop_outcome hw s cbase cmask flags
  | hwCtrRead cidx => exact hwCtrRead_outcome hw s cidx

/-- **One call** follows the law exactly when its checks do not let it through
out of range. -/
theorem l3Law_iff (hw : L3Hw) (s : L3Pmu) (c : L3Call) : L3Law hw s c ↔ KeepsRange hw s c := by
  rcases mcallExtL3Pmu_outcome hw s c with ⟨hpasses, hret, hadds⟩ | ⟨hrefused, hret, hadds⟩
  · refine ⟨fun hlaw hout => ?_, fun hkeeps => ?_⟩
    · have hfails := (hlaw.2 hout).1
      rw [hret] at hfails
      exact absurd hfails (by decide)
    · have hin : ¬ c.OutOfRange := fun hout => hkeeps hout hpasses
      exact ⟨hadds hin, fun hout => absurd hout hin⟩
  · refine ⟨fun _ _ => hrefused, fun _ => ⟨?_, fun _ => ⟨hret, ?_⟩⟩⟩
    · exact hadds.mono fun _ => CacheAccess.InTable.inTables hw
    · exact hadds.mono fun _ => CacheAccess.InTable.not_isRegister

/-- **The L3 tables.** From any state, every call of a history stays inside the
tables, and fails without touching a register if a counter it names is out of
range, exactly when no call of the history gets through out of range. -/
theorem l3_law_iff (hw : L3Hw) (s : L3Pmu) (calls : List L3Call) :
    EachStep hw.next (L3Law hw) s calls ↔ EachStep hw.next (KeepsRange hw) s calls :=
  eachStep_congr (l3Law_iff hw)

/-- An L3 cache with one bank whose registers read zero. -/
def L3Hw.sample : L3Hw where
  l3ctlBase := 0x20000000#64
  descrCache := 0x100#64
  scrVid := 0x2022010101#64
  dev := fun _ _ => 0#64

/-- Once counter 0 is configured, reading counter `2 ^ 32` is not refused, and
takes the bank mask from outside the table. -/
theorem hwCtrRead_wide_breaks_l3Law :
    ¬ EachStep L3Hw.sample.next (L3Law L3Hw.sample)
      (scrFdtL3PmuInit { activeEvents := fun _ => ⟨0#64, 0#32, 0#32⟩, log := [] })
      [.cfgMatch 0#64 1#64 0#64 1#64 0x100#64, .hwCtrRead 0x100000000#64] := by
  intro hlaw
  obtain ⟨_, ⟨_, hread⟩, _⟩ := hlaw
  have heq : 2 ^ 32 = (0x100000000#64).toNat := by decide
  have hfails := (hread ⟨2 ^ 32, heq, by decide⟩).1
  revert hfails
  decide +kernel

end ScBl
