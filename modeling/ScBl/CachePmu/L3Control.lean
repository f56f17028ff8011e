import ScBl.CachePmu.L3Alloc

/-!
# The control registers of the L3 PMU

A counter has a control register in each bank, and a write to the common one goes to all
of them. The table says which event a counter counts in which banks. A start writes what
the table says; a configuration with `SKIP_MATCH` and `AUTO_START` writes what its caller
says, and leaves the table alone. So table and registers agree exactly in the runs where
these callers ask for what the table has (`l3_agree_iff`).
-/

namespace ScBl

open Loops Runs CachePmu

/-! ## Registers -/

/-- What the control register of counter `c` in a bank has: the value written last, to it
or to the common register of the counter. -/
def L3Hw.bankCtrl (hw : L3Hw) (s : L3Pmu) (c bank : ℕ) : U64 :=
  lastWritten (fun addr => addr = hw.l3bPceCtrlN bank (BitVec.ofNat 32 c) ∨
    addr = hw.l3cPceCtrlN (BitVec.ofNat 32 c)) scrL3CacheNop s.log

/-- The control registers of counter `c`. -/
def L3Hw.regs (hw : L3Hw) (s : L3Pmu) (c : ℕ) (bank : Fin hw.supportedBanks) : U64 :=
  hw.bankCtrl s c bank

/-- The bank is one that counts the event of the entry. -/
def L3PmuEvent.Counts (e : L3PmuEvent) (bank : ℕ) : Prop := e.banksMask.getLsbD bank = true

instance (e : L3PmuEvent) (bank : ℕ) : Decidable (e.Counts bank) :=
  inferInstanceAs (Decidable (_ = true))

variable {hw : L3Hw} {s : L3Pmu} {b b' c c' i : ℕ} {v ival : U64}

/-- The number of banks is a field of eight bits. -/
theorem supportedBanks_lt (hw : L3Hw) : hw.supportedBanks < 256 := by
  rw [L3Hw.supportedBanks, BitVec.toNat_and]
  exact Nat.lt_of_le_of_lt Nat.and_le_right (by decide)

/-- The common control register of a counter, as an offset from the base of the controller. -/
theorem l3cPceCtrlN_eq (hw : L3Hw) (hc : c < 4) :
    hw.l3cPceCtrlN (BitVec.ofNat 32 c) = hw.l3ctlBase + BitVec.ofNat 64 (152 + 8 * c) := by
  have hoff : ∀ c < 4, 152#64 + (BitVec.ofNat 32 c * 8#32).setWidth 64 =
      BitVec.ofNat 64 (152 + 8 * c) := by decide
  rw [L3Hw.l3cPceCtrlN, BitVec.add_assoc, hoff c hc]

/-- A register of a bank, as an offset from the base. Each bank has 256 bytes. -/
theorem l3bPrivateNBank_add (hw : L3Hw) (b k : ℕ) :
    hw.l3bPrivateNBank b + BitVec.ofNat 64 k =
      hw.l3ctlBase + BitVec.ofNat 64 (256 + 256 * b + k) := by
  have hoff : 0x100#64 + BitVec.ofNat 64 b * 0x100#64 + BitVec.ofNat 64 k =
      BitVec.ofNat 64 (256 + 256 * b + k) := by
    rw [BitVec.ofNat_add, BitVec.ofNat_add, BitVec.ofNat_mul, BitVec.mul_comm (BitVec.ofNat 64 256)]
  rw [L3Hw.l3bPrivateNBank, ← hoff, BitVec.add_assoc, BitVec.add_assoc, BitVec.add_assoc]

/-- The control register of a counter in a bank. -/
theorem l3bPceCtrlN_eq (hw : L3Hw) (b : ℕ) (hc : c < 4) :
    hw.l3bPceCtrlN b (BitVec.ofNat 32 c) =
      hw.l3ctlBase + BitVec.ofNat 64 (256 + 256 * b + (168 + 16 * c)) := by
  have hoff : ∀ c < 4, 168#64 + (BitVec.ofNat 32 c * 0x10#32).setWidth 64 =
      BitVec.ofNat 64 (168 + 16 * c) := by decide
  rw [L3Hw.l3bPceCtrlN, BitVec.add_assoc, hoff c hc, l3bPrivateNBank_add]

/-- The counter itself, 8 bytes after its control register. -/
theorem l3bPceCntrN_eq (hw : L3Hw) (b : ℕ) (hc : c < 4) :
    hw.l3bPceCntrN b (BitVec.ofNat 32 c) =
      hw.l3ctlBase + BitVec.ofNat 64 (256 + 256 * b + (176 + 16 * c)) := by
  have hoff : ∀ c < 4, 176#64 + (BitVec.ofNat 32 c * 0x10#32).setWidth 64 =
      BitVec.ofNat 64 (176 + 16 * c) := by decide
  rw [L3Hw.l3bPceCntrN, BitVec.add_assoc, hoff c hc, l3bPrivateNBank_add]

/-- Offsets this small never meet by wrapping around, wherever the base is. -/
theorem base_add_inj {base : U64} {k k' : ℕ} (hk : k < 2 ^ 20) (hk' : k' < 2 ^ 20) :
    base + BitVec.ofNat 64 k = base + BitVec.ofNat 64 k' ↔ k = k' := by
  refine ⟨fun h => ?_, fun h => h ▸ rfl⟩
  have hnat := congrArg BitVec.toNat (add_left_cancel h)
  rw [BitVec.toNat_ofNat, BitVec.toNat_ofNat] at hnat
  omega

section Addresses

variable (hb : b < hw.supportedBanks) (hb' : b' < hw.supportedBanks) (hc : c < 4) (hc' : c' < 4)

include hb hb' hc hc'

/-- No two counters or banks share a control register. -/
theorem bankCtrl_addr_inj :
    hw.l3bPceCtrlN b (BitVec.ofNat 32 c) = hw.l3bPceCtrlN b' (BitVec.ofNat 32 c') ↔
      c = c' ∧ b = b' := by
  have hlt := supportedBanks_lt hw
  rw [l3bPceCtrlN_eq hw b hc, l3bPceCtrlN_eq hw b' hc', base_add_inj (by omega) (by omega)]
  omega

/-- Nor a counter register. -/
theorem bankCntr_addr_inj :
    hw.l3bPceCntrN b (BitVec.ofNat 32 c) = hw.l3bPceCntrN b' (BitVec.ofNat 32 c') ↔
      c = c' ∧ b = b' := by
  have hlt := supportedBanks_lt hw
  rw [l3bPceCntrN_eq hw b hc, l3bPceCntrN_eq hw b' hc', base_add_inj (by omega) (by omega)]
  omega

/-- A counter register is no control register. -/
theorem bankCntr_ne_bankCtrl :
    hw.l3bPceCntrN b (BitVec.ofNat 32 c) ≠ hw.l3bPceCtrlN b' (BitVec.ofNat 32 c') := by
  have hlt := supportedBanks_lt hw
  rw [l3bPceCntrN_eq hw b hc, l3bPceCtrlN_eq hw b' hc', Ne, base_add_inj (by omega) (by omega)]
  omega

omit hb' in
/-- The registers of the banks come after the common ones. -/
theorem bankCtrl_ne_common :
    hw.l3bPceCtrlN b (BitVec.ofNat 32 c) ≠ hw.l3cPceCtrlN (BitVec.ofNat 32 c') := by
  have hlt := supportedBanks_lt hw
  rw [l3bPceCtrlN_eq hw b hc, l3cPceCtrlN_eq hw hc', Ne, base_add_inj (by omega) (by omega)]
  omega

omit hb' in
theorem bankCntr_ne_common :
    hw.l3bPceCntrN b (BitVec.ofNat 32 c) ≠ hw.l3cPceCtrlN (BitVec.ofNat 32 c') := by
  have hlt := supportedBanks_lt hw
  rw [l3bPceCntrN_eq hw b hc, l3cPceCtrlN_eq hw hc', Ne, base_add_inj (by omega) (by omega)]
  omega

end Addresses

/-- No two counters share a common control register. -/
theorem common_addr_inj (hc : c < 4) (hc' : c' < 4) :
    hw.l3cPceCtrlN (BitVec.ofNat 32 c) = hw.l3cPceCtrlN (BitVec.ofNat 32 c') ↔ c = c' := by
  rw [l3cPceCtrlN_eq hw hc, l3cPceCtrlN_eq hw hc', base_add_inj (by omega) (by omega)]
  omega

/-! ## What a write leaves in the control registers -/

@[simp] theorem bankCtrl_readActive : hw.bankCtrl (s.readActive i) c b = hw.bankCtrl s c b :=
  lastWritten_readActive

@[simp] theorem bankCtrl_writeActive {e : L3PmuEvent} :
    hw.bankCtrl (s.writeActive i e) c b = hw.bankCtrl s c b :=
  lastWritten_writeActive

@[simp] theorem bankCtrl_readTable : hw.bankCtrl (readTable i s) c b = hw.bankCtrl s c b :=
  lastWritten_readTable

/-- The register of a bank. -/
theorem bankCtrl_write_bank (hb : b < hw.supportedBanks) (hb' : b' < hw.supportedBanks)
    (hc : c < 4) (hc' : c' < 4) :
    hw.bankCtrl (writeq v (hw.l3bPceCtrlN b' (BitVec.ofNat 32 c')) s) c b =
      if c' = c ∧ b' = b then v else hw.bankCtrl s c b := by
  rw [L3Hw.bankCtrl, lastWritten_writeq]
  exact if_congr ((or_iff_left (bankCtrl_ne_common hb' hc' hc)).trans
    (bankCtrl_addr_inj hb' hb hc' hc)) rfl rfl

/-- The common register. -/
theorem bankCtrl_write_common (hb : b < hw.supportedBanks) (hc : c < 4) (hc' : c' < 4) :
    hw.bankCtrl (writeq v (hw.l3cPceCtrlN (BitVec.ofNat 32 c')) s) c b =
      if c' = c then v else hw.bankCtrl s c b := by
  rw [L3Hw.bankCtrl, lastWritten_writeq]
  exact if_congr ((or_iff_right (bankCtrl_ne_common hb hc hc').symm).trans
    (common_addr_inj hc' hc)) rfl rfl

/-- A counter register. -/
theorem bankCtrl_write_cntr (hb : b < hw.supportedBanks) (hb' : b' < hw.supportedBanks)
    (hc : c < 4) (hc' : c' < 4) :
    hw.bankCtrl (writeq v (hw.l3bPceCntrN b' (BitVec.ofNat 32 c')) s) c b =
      hw.bankCtrl s c b := by
  rw [L3Hw.bankCtrl, lastWritten_writeq, if_neg]
  · rfl
  · rintro (h | h)
    · exact bankCntr_ne_bankCtrl hb' hb hc' hc h
    · exact bankCntr_ne_common hb' hc' hc h

/-! ## The loops over banks -/

/-- The loops over the banks read the mask as a bitmap of one word. -/
theorem getLsbD_bit (word : U64) (i : ℕ) : (wordBitmap word).bit i = word.getLsbD i := by
  by_cases hi : i < 64
  · exact wordBitmap_bit word hi
  · have hword : i / 64 ≠ 0 := by omega
    rw [Bitmap.bit, wordBitmap, if_neg hword, BitVec.getLsbD_zero,
      BitVec.getLsbD_of_ge word i (Nat.le_of_not_lt hi)]

/-- The banks of a mask. -/
def L3Hw.banksOf (hw : L3Hw) (mask : U32) : List ℕ := indicesIn mask.getLsbD 0 hw.supportedBanks

/-- The banks that a mask addresses are those that there are. -/
theorem mem_banksOf {mask : U32} : b ∈ hw.banksOf mask ↔
    b < hw.supportedBanks ∧ mask.getLsbD b = true := by
  rw [L3Hw.banksOf, mem_indicesIn, and_iff_right (Nat.zero_le b)]

/-- Each of them once. -/
theorem nodup_banksOf (mask : U32) : (hw.banksOf mask).Nodup :=
  pairwise_indicesIn.imp fun h => Nat.ne_of_lt h

/-- A loop over the banks of a mask. -/
theorem forEachBank_eq {σ : Type} (mask : U32) (body : ℕ → σ → σ) (s : σ) :
    forEachBank hw (mask.setWidth 64) body s =
      (runUntil (fun bank s => ((none : Option Unit), body bank s)) (hw.banksOf mask) s).2 := by
  have hbit : (wordBitmap (mask.setWidth 64)).bit = mask.getLsbD := by
    funext i
    rw [getLsbD_bit, BitVec.getLsbD_setWidth]
    by_cases hi : i < 64
    · rw [decide_eq_true hi, Bool.true_and]
    · rw [decide_eq_false hi, Bool.false_and, BitVec.getLsbD_of_ge mask i (by omega)]
  rw [forEachBank, forEachSetBitFrom_eq, hbit]
  rfl

/-- **A loop that works on one bank after the other** changes the view of each bank of the
mask once. -/
theorem forEachBank_view {γ : Type} (Inv : L3Pmu → Prop) (view : ℕ → L3Pmu → γ) (f : γ → γ)
    (mask : U32) (body : ℕ → L3Pmu → L3Pmu)
    (hbody : ∀ a < hw.supportedBanks, ∀ t, Inv t → Inv (body a t) ∧
      ∀ b < hw.supportedBanks, view b (body a t) = if b = a then f (view b t) else view b t)
    (hs : Inv s) :
    Inv (forEachBank hw (mask.setWidth 64) body s) ∧ ∀ b < hw.supportedBanks,
      view b (forEachBank hw (mask.setWidth 64) body s) =
        if mask.getLsbD b = true then f (view b s) else view b s := by
  rw [forEachBank_eq]
  obtain ⟨round, hround⟩ : ∃ round : ℕ → L3Pmu → Option Unit × L3Pmu,
    round = fun bank s => (none, body bank s) := ⟨_, rfl⟩
  have hkeep : ∀ a ∈ hw.banksOf mask, ∀ t, Inv t → (round a t).1 = none ∧ Inv (round a t).2 ∧
      ∀ b, b < hw.supportedBanks →
        view b (round a t).2 = if b = a then f (view b t) else view b t := by
    subst hround
    exact fun a ha t ht => ⟨rfl, hbody a (mem_banksOf.mp ha).1 t ht⟩
  obtain ⟨_, hinv, hview⟩ := runUntil_view Inv view (fun _ => f) (nodup_banksOf mask) hkeep hs
  rw [← hround]
  refine ⟨hinv, fun b hb => (hview b hb).trans (if_congr ?_ rfl rfl)⟩
  rw [mem_banksOf, and_iff_right hb]

/-- A write to the banks of a mask reaches the control register of this counter in these, and no
other. -/
theorem bankCtrl_bankWriteCtrl {mask : U32} (hb : b < hw.supportedBanks) (hc : c < 4)
    (hc' : c' < 4) :
    hw.bankCtrl (scrL3PmuBankWriteCtrl hw (mask.setWidth 64) (BitVec.ofNat 32 c') ival s) c b =
      if c' = c ∧ mask.getLsbD b = true then ival else hw.bankCtrl s c b := by
  have hview := forEachBank_view (s := s) (fun _ => True) (fun b s => hw.bankCtrl s c b)
    (fun v => if c' = c then ival else v) mask
    (fun bank s => writeq ival (hw.l3bPceCtrlN bank (BitVec.ofNat 32 c')) s)
    (fun a ha t _ => ⟨trivial, fun b hb => by
      rw [bankCtrl_write_bank hb ha hc hc']
      by_cases hcc : c' = c
      · simp [hcc, eq_comm]
      · simp [hcc]⟩) trivial
  refine (hview.2 b hb).trans ?_
  rw [← ite_and]
  exact if_congr and_comm rfl rfl

/-- Setting a counter leaves the control registers. -/
theorem bankCtrl_writeCntr {mask : U64} (hb : b < hw.supportedBanks) (hc : c < 4) (hc' : c' < 4) :
    hw.bankCtrl (scrL3PmuWriteCntr hw mask (BitVec.ofNat 32 c') ival s) c b =
      hw.bankCtrl s c b := by
  refine forEachBank_inv (fun t : L3Pmu => hw.bankCtrl t c b = hw.bankCtrl s c b)
    (fun bank hbank t ht => ?_) rfl
  exact (bankCtrl_write_cntr hb hbank hc hc').trans ht

/-- Starting a counter, with an initial value or without, writes the control registers of its banks.
-/
theorem bankCtrl_startHw {mask : U32} {cntrVal : U64} {update : Prop} [Decidable update]
    (hb : b < hw.supportedBanks) (hc : c < 4) (hc' : c' < 4) :
    hw.bankCtrl (scrL3PmuCtrStartHw hw mask (BitVec.ofNat 32 c') ival cntrVal update s) c b =
      if c' = c ∧ mask.getLsbD b = true then ival else hw.bankCtrl s c b := by
  rw [scrL3PmuCtrStartHw, bankCtrl_bankWriteCtrl hb hc hc']
  by_cases hupdate : update
  · simp only [if_pos hupdate, bankCtrl_writeCntr hb hc hc']
  · simp only [if_neg hupdate]

/-- With `SKIP_MATCH` a configuration writes them if it starts the counter as well. -/
theorem bankCtrl_skipMatch {mask : U32} {flags : U64} (hb : b < hw.supportedBanks) (hc : c < 4)
    (hc' : c' < 4) :
    hw.bankCtrl (l3SkipMatch hw flags mask ival c' s).2.2 c b =
      if hasFlag flags sbiPmuCfgFlagAutoStart ∧ c' = c ∧ mask.getLsbD b = true then ival
      else hw.bankCtrl s c b := by
  have hclear : hw.bankCtrl (if hasFlag flags sbiPmuCfgFlagClearValue then
      scrL3PmuWriteCntr hw ((~~~0#32).setWidth 64) (BitVec.ofNat 32 c') 0#64 s else s) c b =
      hw.bankCtrl s c b := by
    split_ifs
    · exact bankCtrl_writeCntr hb hc hc'
    · rfl
  simp only [l3SkipMatch]
  by_cases hauto : hasFlag flags sbiPmuCfgFlagAutoStart
  · rw [if_pos hauto, bankCtrl_startHw hb hc hc', hclear]
    exact if_congr (and_iff_right hauto).symm rfl rfl
  · rw [if_neg hauto, hclear, if_neg fun h => hauto h.1]

/-- Reading a counter leaves the control registers. -/
theorem bankCtrl_readCntr {mask : U64} {cidx : U32} :
    hw.bankCtrl (scrL3PmuReadCntr hw mask cidx s).2 c b = hw.bankCtrl s c b := by
  refine forEachBank_inv (fun t : U64 × L3Pmu => hw.bankCtrl t.2 c b = hw.bankCtrl s c b)
    (fun bank _ t ht => ?_) rfl
  have hread : hw.bankCtrl (readq hw.dev (hw.l3bPceCntrN bank cidx) t.2).2 c b =
      hw.bankCtrl t.2 c b := lastWritten_readq
  exact hread.trans ht

/-! ## What a call leaves in the control registers -/

variable {cbase cmask flags data1 : U64}

/-- The entry and the control registers of a counter. -/
def L3Hw.ctrView (hw : L3Hw) (c : ℕ) (s : L3Pmu) : L3PmuEvent × (Fin hw.supportedBanks → U64) :=
  (s.activeEvents c, hw.regs s c)

@[simp] theorem ctrView_readActive (i : ℕ) :
    hw.ctrView c (s.readActive i) = hw.ctrView c s :=
  Prod.ext rfl (funext fun _ => bankCtrl_readActive)

@[simp] theorem ctrView_readTable (n : ℕ) : hw.ctrView c (readTable n s) = hw.ctrView c s :=
  Prod.ext rfl (funext fun _ => bankCtrl_readTable)

/-- What a start makes of them. -/
def startedView (r : L3PmuEvent × (Fin hw.supportedBanks → U64)) :
    L3PmuEvent × (Fin hw.supportedBanks → U64) :=
  (r.1, fun bank => if r.1.IsActive ∧ r.1.Counts bank then r.1.ctrl else r.2 bank)

/-- What a stop makes of them. -/
def stoppedView (flags : U64) (r : L3PmuEvent × (Fin hw.supportedBanks → U64)) :
    L3PmuEvent × (Fin hw.supportedBanks → U64) :=
  (if hasFlag flags sbiPmuStopFlagReset then { r.1 with ctrl := scrL3CacheNop } else r.1,
    fun bank => if r.1.IsActive then scrL3CacheNop else r.2 bank)

/-- **A round of start** writes the control registers of its counter, in the banks of its entry,
with the event of its entry, if it has one. The other counters are as they were. -/
theorem l3StartBody_view (hw : L3Hw) (flags init : U64) (t : ℤ × L3Pmu) (hc : c < 4)
    (hi : i < 4) :
    (l3StartBody hw flags init c t).1 = none ∧ hw.ctrView i (l3StartBody hw flags init c t).2.2 =
      if i = c then startedView (hw.ctrView i t.2) else hw.ctrView i t.2 := by
  by_cases hbusy : t.2.Busy c
  · have hregs : ∀ (val : U64) (bank : Fin hw.supportedBanks),
        hw.bankCtrl (scrL3PmuCtrStartHw hw (t.2.activeEvents c).banksMask (BitVec.ofNat 32 c)
          (t.2.activeEvents c).ctrl val (hasFlag flags sbiPmuStartFlagSetInitValue)
          ((t.2.readActive c).readActive c)) i bank =
        if c = i ∧ (t.2.activeEvents c).Counts bank then (t.2.activeEvents c).ctrl
        else hw.regs t.2 i bank := by
      intro val bank
      rw [bankCtrl_startHw bank.isLt hi hc, bankCtrl_readActive, bankCtrl_readActive]
      rfl
    rw [l3StartBody, validate_of_busy hc hbusy]
    refine ⟨rfl, ?_⟩
    simp only [L3Hw.ctrView, ne_eq, not_true_eq_false, if_false, startHw_activeEvents,
      readActive_activeEvents]
    split_ifs with hic
    · subst hic
      refine Prod.ext rfl (funext fun bank => (hregs _ bank).trans ?_)
      exact if_congr (and_congr_left' (iff_of_true rfl hbusy)) rfl rfl
    · refine Prod.ext rfl (funext fun bank => (hregs _ bank).trans ?_)
      exact if_neg fun h => hic h.1.symm
  · rw [l3StartBody_of_free hw flags init hc hbusy]
    refine ⟨rfl, (ctrView_readActive c).trans ?_⟩
    split_ifs with hic
    · subst hic
      refine Prod.ext rfl (funext fun bank => ?_)
      exact (if_neg fun h => hbusy h.1).symm
    · rfl

/-- **A round of stop** clears the control registers of its counter, in all banks, if the entry has
an event, which it clears too with `RESET`. The other counters are as they were. -/
theorem l3StopBody_view (hw : L3Hw) (flags : U64) (t : L3Pmu) (hc : c < 4) (hi : i < 4) :
    (l3StopBody hw flags c t).1 = none ∧ hw.ctrView i (l3StopBody hw flags c t).2 =
      if i = c then stoppedView flags (hw.ctrView i t) else hw.ctrView i t := by
  refine ⟨l3StopBody_fst t, ?_⟩
  have hentry := l3StopBody_activeEvents hw flags t hc i
  have hregs : ∀ bank : Fin hw.supportedBanks,
      hw.regs (l3StopBody hw flags c t).2 i bank =
        if i = c ∧ t.Busy c then scrL3CacheNop else hw.regs t i bank := by
    intro bank
    by_cases hbusy : t.Busy c
    · rw [l3StopBody, validate_of_busy hc hbusy]
      simp only [ne_eq, not_true_eq_false, if_false]
      refine (bankCtrl_write_common bank.isLt hi hc).trans ?_
      refine if_congr (by rw [and_iff_left hbusy, eq_comm]) rfl ?_
      split_ifs
      · exact bankCtrl_writeActive.trans bankCtrl_readActive
      · exact bankCtrl_readActive
    · rw [l3StopBody, validate_of_free hc hbusy, if_neg fun h => hbusy h.2]
      exact bankCtrl_readActive
  split_ifs at hentry ⊢ with hic hreset
  · subst hic
    refine Prod.ext (hentry.trans (if_pos hreset).symm) (funext fun bank => (hregs bank).trans ?_)
    exact if_congr (and_iff_right rfl) rfl rfl
  · subst hic
    refine Prod.ext (hentry.trans (if_neg hreset).symm) (funext fun bank => (hregs bank).trans ?_)
    exact if_congr (and_iff_right rfl) rfl rfl
  · refine Prod.ext hentry (funext fun bank => (hregs bank).trans ?_)
    exact if_neg fun h => hic h.1

/-- A start that is not refused starts the counters it names and leaves the others. -/
theorem ctrView_start (hi : i < 4) :
    hw.ctrView i (sbiL3PmuCtrStart hw cbase cmask flags data1 s).2.2 =
      if sbiFls (shl cmask cbase) < 4 ∧ i ∈ namedL3 cbase (shl cmask cbase) then
        startedView (hw.ctrView i s)
      else hw.ctrView i s := by
  rw [sbiL3PmuCtrStart_eq]
  exact runUntil_view_if (K := (· < 4)) (fun _ => True)
    (fun i (t : ℤ × L3Pmu) => hw.ctrView i t.2) (fun _ => startedView)
    (nodup_namedL2 cbase (shl cmask cbase)) (fun a ha t _ => by
      have hround := fun b hb => l3StartBody_view hw flags data1 t (mem_counters.mp ha).2.1
        (i := b) hb
      exact ⟨(hround 0 (by decide)).1, trivial, fun b hb => (hround b hb).2⟩) trivial hi

/-- A stop that is not refused stops the counters it names and leaves the others. -/
theorem ctrView_stop (hi : i < 4) :
    hw.ctrView i (sbiL3PmuCtrStop hw cbase cmask flags s).2.2 =
      if sbiFls (shl cmask cbase) < 4 ∧ i ∈ namedL3 cbase (shl cmask cbase) then
        stoppedView flags (hw.ctrView i s)
      else hw.ctrView i s := by
  rw [sbiL3PmuCtrStop_eq]
  exact runUntil_view_if (K := (· < 4)) (fun _ => True)
    (fun i (t : L3Pmu) => hw.ctrView i t) (fun _ => stoppedView flags)
    (nodup_namedL2 cbase (shl cmask cbase)) (fun a ha t _ => by
      have hround := fun b hb => l3StopBody_view hw flags t (mem_counters.mp ha).2.1 (i := b) hb
      exact ⟨(hround 0 (by decide)).1, trivial, fun b hb => (hround b hb).2⟩) trivial hi

/-- A read leaves all counters as they are. -/
theorem ctrView_hwCtrRead {cidx : U64} :
    hw.ctrView i (sbiL3PmuHwCtrRead hw cidx s).2.2 = hw.ctrView i s := by
  have hvalidate : ∀ bank, hw.bankCtrl (scrL3PmuEventValidate (cidx.setWidth 32) s).2 i bank =
      hw.bankCtrl s i bank := by
    intro bank
    rw [scrL3PmuEventValidate]
    split_ifs
    · rfl
    · exact bankCtrl_readActive
    · exact bankCtrl_readActive
  refine Prod.ext (congrFun (hwCtrRead_activeEvents hw) i) (funext fun bank => ?_)
  simp only [L3Hw.ctrView, L3Hw.regs, sbiL3PmuHwCtrRead]
  split_ifs
  · exact hvalidate bank
  · rw [bankCtrl_readCntr, bankCtrl_readActive, hvalidate]

section CfgMatch

variable {cidxBase cidxMask eventIdx : U64}

/-- A configuration with `SKIP_MATCH` and `AUTO_START` that comes to a counter in use. -/
structure RestartsL3 (hw : L3Hw) (s : L3Pmu) (cidxBase cidxMask flags eventIdx data1 : U64)
    (c : ℕ) : Prop where
  ok : hw.AcceptsEvent eventIdx data1
  skip : hasFlag flags sbiPmuCfgFlagSkipMatch
  auto : hasFlag flags sbiPmuCfgFlagAutoStart
  ctr : sbiFfs (shl cidxMask cidxBase) = c
  lt : c < 4
  busy : s.Busy c

/-- It writes its own event to its own banks. -/
def restartedView (eventType : U64) (banksMask : U32)
    (r : L3PmuEvent × (Fin hw.supportedBanks → U64)) :
    L3PmuEvent × (Fin hw.supportedBanks → U64) :=
  (r.1, fun bank => if banksMask.getLsbD bank = true then eventType else r.2 bank)

/-- With `SKIP_MATCH` and `AUTO_START` the counter starts with the event and the banks of the call,
whatever it counted before. -/
theorem ctrView_skipMatch (hi : i < 4) (hc : c < 4) {mask : U32} {eventType : U64} :
    hw.ctrView i (l3SkipMatch hw flags mask eventType c s).2.2 =
      if hasFlag flags sbiPmuCfgFlagAutoStart ∧ c = i then
        restartedView eventType mask (hw.ctrView i s)
      else hw.ctrView i s := by
  have hentry : (l3SkipMatch hw flags mask eventType c s).2.2.activeEvents i = s.activeEvents i :=
    congrFun (skipMatch_activeEvents hw) i
  by_cases hauto : hasFlag flags sbiPmuCfgFlagAutoStart ∧ c = i
  · rw [if_pos hauto]
    refine Prod.ext hentry (funext fun bank => ?_)
    refine (bankCtrl_skipMatch bank.isLt hi hc).trans (if_congr ?_ rfl rfl)
    rw [← and_assoc, and_iff_right hauto]
  · rw [if_neg hauto]
    refine Prod.ext hentry (funext fun bank => ?_)
    exact (bankCtrl_skipMatch bank.isLt hi hc).trans (if_neg fun h => hauto ⟨h.1, h.2.1⟩)

/-- Counter `c` has been recorded. -/
theorem ctrView_programL3 (c : ℕ) :
    hw.ctrView i (programL3 hw s eventIdx data1 c) =
      if i = c then ((programL3 hw s eventIdx data1 c).activeEvents c, hw.regs s i)
      else hw.ctrView i s := by
  have hregs : hw.regs (programL3 hw s eventIdx data1 c) i = hw.regs s i := by
    funext bank
    exact bankCtrl_writeActive.trans bankCtrl_readTable
  split_ifs with hic
  · subst hic
    exact Prod.ext rfl hregs
  · exact Prod.ext (Function.update_of_ne hic ..) hregs

/-- What that does to a counter in use. -/
theorem ctrView_restart (h : RestartsL3 hw s cidxBase cidxMask flags eventIdx data1 i) :
    hw.ctrView i (sbiL3PmuCtrCfgMatch hw cidxBase cidxMask flags eventIdx data1 s).2.2 =
      restartedView (l3EventType eventIdx) (scrL3BanksMaskNum data1) (hw.ctrView i s) := by
  have hspec := sbiL3PmuCtrCfgMatch_spec hw s cidxBase cidxMask flags eventIdx data1
  generalize sbiL3PmuCtrCfgMatch hw cidxBase cidxMask flags eventIdx data1 s = r at hspec ⊢
  obtain ⟨hok, hskip, hauto, rfl, hlt, hbusy⟩ := h
  cases hspec with
  | noBanks hbanks => exact absurd hbanks hok.1
  | noEvent _ hevent => exact absurd hevent hok.2
  | skipBeyond _ _ hc => exact absurd hlt (Nat.not_lt.mpr hc)
  | skipFree _ _ _ hfree => exact absurd hbusy hfree
  | skip =>
    rw [ctrView_skipMatch hlt hlt, if_pos ⟨hauto, rfl⟩, ctrView_readActive]
  | beyond _ hmatch | full _ hmatch | noSupport _ hmatch | found _ hmatch =>
    exact absurd hskip hmatch

/-- A configuration that is no restart of the counter leaves it alone, or takes it while it is free:
the entry is that of the call, and the registers are as they were or those of a start. -/
theorem ctrView_cfgMatch (hi : i < 4)
    (h : ¬ RestartsL3 hw s cidxBase cidxMask flags eventIdx data1 i) :
    let r := sbiL3PmuCtrCfgMatch hw cidxBase cidxMask flags eventIdx data1 s
    hw.ctrView i r.2.2 = hw.ctrView i s ∨ ¬ s.Busy i ∧
      (hw.ctrView i r.2.2 = (r.2.2.activeEvents i, hw.regs s i) ∨
        hw.ctrView i r.2.2 = startedView (r.2.2.activeEvents i, hw.regs s i)) := by
  have hspec := sbiL3PmuCtrCfgMatch_spec hw s cidxBase cidxMask flags eventIdx data1
  generalize sbiL3PmuCtrCfgMatch hw cidxBase cidxMask flags eventIdx data1 s = r at hspec ⊢
  cases hspec with
  | noBanks | noEvent | skipBeyond | beyond => exact .inl rfl
  | skipFree => exact .inl (ctrView_readActive _)
  | full | noSupport => exact .inl (ctrView_readTable _)
  | skip hok hskip hc hbusy =>
    left
    rw [ctrView_skipMatch hi hc, ctrView_readActive]
    refine if_neg fun hauto => h ⟨hok, hskip, hauto.1, hauto.2, hi, ?_⟩
    exact hauto.2 ▸ hbusy
  | found hok _ _ c hc =>
    by_cases hic : i = c
    · subst hic
      refine .inr ⟨hc.free, ?_⟩
      have hentry : (l3SkipMatch hw flags (scrL3BanksMaskNum data1 &&& hw.supportedBanksMask)
          (l3EventType eventIdx) i (programL3 hw s eventIdx data1 i)).2.2.activeEvents i =
            (programL3 hw s eventIdx data1 i).activeEvents i :=
        congrFun (skipMatch_activeEvents hw) i
      rw [hentry, ctrView_skipMatch hi hi, ctrView_programL3, if_pos rfl]
      split_ifs with hauto
      · refine .inr (Prod.ext rfl (funext fun bank => ?_))
        rw [programL3, writeActive_activeEvents, Function.update_self]
        have hactive : l3EventType eventIdx ≠ scrL3CacheNop := fun hnop => hok.2 (.inr hnop)
        exact if_congr (and_iff_right hactive).symm rfl rfl
      · exact .inl rfl
    · left
      rw [ctrView_skipMatch hi hc.lt, if_neg fun h => hic h.2.symm, ctrView_programL3, if_neg hic]

end CfgMatch

end ScBl
