import ScBl.CachePmu.L3Control

/-!
# The initial value of an L3 counter

A counter is the sum of the counters of its banks. A start divides its initial value by
their number and writes the quotient to each of them, and what remains is lost. So a read
returns the initial value exactly if the number of banks divides it
(`l3_init_value_iff`).
-/

namespace ScBl

open Loops Runs CachePmu

variable {hw : L3Hw} {s s₀ t : L3Pmu} {b b' c c' i : ℕ} {v ival init : U64} {e : L3PmuEvent}

/-! ## The banks of an entry -/

theorem getLsbD_supportedBanksMask (hpos : 0 < hw.supportedBanks) (hle : hw.supportedBanks ≤ 32)
    (hi : i < 32) :
    hw.supportedBanksMask.getLsbD i = decide (i < hw.supportedBanks) := by
  have hones : BitVec.allOnes 64 - (1#64 <<< 0) + 1#64 = BitVec.allOnes 64 := by decide
  rw [L3Hw.supportedBanksMask, if_pos ⟨hle, hpos⟩, genmask, hones, BitVec.getLsbD_setWidth,
    BitVec.getLsbD_and, BitVec.getLsbD_allOnes, BitVec.getLsbD_ushiftRight, BitVec.getLsbD_allOnes]
  simp only [← Bool.decide_and]
  exact decide_eq_decide.mpr (by omega)

/-- The number of banks that the entry has is that of the loops over them, since it has no bank that
is not there. -/
theorem L3PmuEvent.Consistent.length_banksOf (h : e.Consistent hw) :
    (hw.banksOf e.banksMask).length = popcount e.banksMask := by
  have hsupported : hw.supportedBanks ≤ 32 ∧ 0 < hw.supportedBanks := by
    by_contra hnone
    have hmask : hw.supportedBanksMask = 0#32 := if_neg hnone
    have hzero := h.supported
    rw [hmask, BitVec.and_zero] at hzero
    exact h.nonempty hzero.symm
  have hbeyond : ∀ i, hw.supportedBanks ≤ i → e.banksMask.getLsbD i = false := by
    intro i hi
    by_cases hlt : i < 32
    · rw [← h.supported, BitVec.getLsbD_and,
        getLsbD_supportedBanksMask hsupported.2 hsupported.1 hlt,
        decide_eq_false (Nat.not_lt.mpr hi), Bool.and_false]
    · exact BitVec.getLsbD_of_ge _ i (Nat.le_of_not_lt hlt)
  rw [popcount, indicesIn_eq_of_false (Nat.zero_le _) hsupported.1 hbeyond, L3Hw.banksOf]

/-- What a start writes to each of them. -/
theorem L3PmuEvent.Consistent.toNat_divu (h : e.Consistent hw) (init : U64) :
    (divu init (e.banks.signExtend 64)).toNat = init.toNat / popcount e.banksMask := by
  rw [divu, if_neg h.divisor_ne_zero, BitVec.toNat_udiv, h.divisor]

/-! ## The counter registers -/

/-- No events occur after the accesses `log`: the counter registers keep what they have
or are written. -/
def L3Hw.Quiet (hw : L3Hw) (log : List CacheAccess) : Prop :=
  ∀ new, ∀ b < hw.supportedBanks, ∀ c < 4, ∀ addr, addr = hw.l3bPceCntrN b (BitVec.ofNat 32 c) →
    hw.dev (log ++ new) addr = lastWritten (· = addr) (hw.dev log addr) new

/-- What the counter register of counter `c` in a bank has in state `t`, if nothing has
occurred since state `s₀`. -/
def L3Hw.bankCntr (hw : L3Hw) (s₀ t : L3Pmu) (c bank : ℕ) : U64 :=
  lastWritten (· = hw.l3bPceCntrN bank (BitVec.ofNat 32 c))
    (hw.dev s₀.log (hw.l3bPceCntrN bank (BitVec.ofNat 32 c))) (t.log.drop s₀.log.length)

/-- State `t` comes after `s₀`, with the same table. -/
structure Follows (s₀ t : L3Pmu) : Prop where
  log : s₀.log <+: t.log
  table : t.activeEvents = s₀.activeEvents

theorem Follows.refl (s : L3Pmu) : Follows s s := ⟨List.prefix_rfl, rfl⟩

theorem Follows.access (h : Follows s₀ t) (a : CacheAccess) : Follows s₀ (t.access a) :=
  ⟨h.log.trans (List.prefix_append ..), h.table⟩

/-- What a register answers. -/
theorem Follows.dev_eq (h : Follows s₀ t) (hquiet : hw.Quiet s₀.log) (hb : b < hw.supportedBanks)
    (hc : c < 4) :
    hw.dev t.log (hw.l3bPceCntrN b (BitVec.ofNat 32 c)) = hw.bankCntr s₀ t c b := by
  obtain ⟨new, hnew⟩ := h.log
  rw [L3Hw.bankCntr, ← hnew, List.drop_left]
  exact hquiet new b hb c hc _ rfl

/-- An access to something else. -/
theorem Follows.bankCntr_access (h : Follows s₀ t) {a : CacheAccess}
    (ha : ∀ val, a ≠ .write (hw.l3bPceCntrN b (BitVec.ofNat 32 c)) val) :
    hw.bankCntr s₀ (t.access a) c b = hw.bankCntr s₀ t c b := by
  obtain ⟨new, hnew⟩ := h.log
  rw [L3Hw.bankCntr, L3Hw.bankCntr, CachePmu.access, ← hnew, List.append_assoc, List.drop_left,
    List.drop_left, lastWritten, lastWritten, List.foldl_append]
  cases a with
  | activeEvents | read => rfl
  | write addr val =>
    refine if_neg fun haddr => ha val ?_
    rw [haddr]

theorem Follows.bankCntr_write (h : Follows s₀ t) (hb : b < hw.supportedBanks)
    (hb' : b' < hw.supportedBanks) (hc : c < 4) (hc' : c' < 4) :
    hw.bankCntr s₀ (writeq v (hw.l3bPceCntrN b' (BitVec.ofNat 32 c')) t) c b =
      if c' = c ∧ b' = b then v else hw.bankCntr s₀ t c b := by
  by_cases hsame : c' = c ∧ b' = b
  · obtain ⟨rfl, rfl⟩ := hsame
    obtain ⟨new, hnew⟩ := h.log
    rw [if_pos ⟨rfl, rfl⟩, L3Hw.bankCntr, writeq, CachePmu.access, ← hnew, List.append_assoc,
      List.drop_left, lastWritten, List.foldl_append]
    exact if_pos rfl
  · rw [if_neg hsame]
    refine h.bankCntr_access fun val heq => hsame ?_
    exact (bankCntr_addr_inj hb' hb hc' hc).mp (CacheAccess.write.inj heq).1

theorem Follows.writeCntr (h : Follows s₀ t) (hw : L3Hw) (mask : U32) (ival : U64) (hc : c < 4)
    (hc' : c' < 4) :
    Follows s₀ (scrL3PmuWriteCntr hw (mask.setWidth 64) (BitVec.ofNat 32 c') ival t) ∧
      ∀ b < hw.supportedBanks,
        hw.bankCntr s₀ (scrL3PmuWriteCntr hw (mask.setWidth 64) (BitVec.ofNat 32 c') ival t) c b =
          if c' = c ∧ mask.getLsbD b = true then ival else hw.bankCntr s₀ t c b := by
  have hview := forEachBank_view (s := t) (Follows s₀) (fun b t => hw.bankCntr s₀ t c b)
    (fun v => if c' = c then ival else v) mask
    (fun bank s => writeq ival (hw.l3bPceCntrN bank (BitVec.ofNat 32 c')) s)
    (fun a ha t ht => ⟨ht.access _, fun b hb => by
      rw [ht.bankCntr_write hb ha hc hc']
      by_cases hcc : c' = c
      · simp [hcc, eq_comm]
      · simp [hcc]⟩) h
  refine ⟨hview.1, fun b hb => (hview.2 b hb).trans ?_⟩
  rw [← ite_and]
  exact if_congr and_comm rfl rfl

theorem Follows.bankWriteCtrl (h : Follows s₀ t) (hw : L3Hw) (mask : U32) (ival : U64) (hc : c < 4)
    (hc' : c' < 4) :
    Follows s₀ (scrL3PmuBankWriteCtrl hw (mask.setWidth 64) (BitVec.ofNat 32 c') ival t) ∧
      ∀ b < hw.supportedBanks,
        hw.bankCntr s₀ (scrL3PmuBankWriteCtrl hw (mask.setWidth 64) (BitVec.ofNat 32 c') ival t)
          c b = hw.bankCntr s₀ t c b := by
  have hview := forEachBank_view (s := t) (Follows s₀) (fun b t => hw.bankCntr s₀ t c b) id mask
    (fun bank s => writeq ival (hw.l3bPceCtrlN bank (BitVec.ofNat 32 c')) s)
    (fun a ha t ht => ⟨ht.access _, fun b hb => by
      refine (ht.bankCntr_access fun val heq => ?_).trans (ite_self _).symm
      exact bankCntr_ne_bankCtrl hb ha hc hc' (CacheAccess.write.inj heq).1.symm⟩) h
  exact ⟨hview.1, fun b hb => (hview.2 b hb).trans (ite_self _)⟩

/-! ## Start -/

/-- **A round of start** writes the quotient to the banks of its counter. It divides the initial
value by the number of banks, and what is left of the division is lost. -/
theorem l3StartBody_bankCntr (hw : L3Hw) (flags init : U64) {t : ℤ × L3Pmu} (h : Follows s₀ t.2)
    (hinit : hasFlag flags sbiPmuStartFlagSetInitValue) (hc : c < 4) (hi : i < 4) :
    (l3StartBody hw flags init c t).1 = none ∧ Follows s₀ (l3StartBody hw flags init c t).2.2 ∧
      ∀ b < hw.supportedBanks, hw.bankCntr s₀ (l3StartBody hw flags init c t).2.2 i b =
        if c = i ∧ s₀.Busy i ∧ (s₀.activeEvents i).Counts b then
          divu init ((s₀.activeEvents i).banks.signExtend 64)
        else hw.bankCntr s₀ t.2 i b := by
  have hread : ∀ {t : L3Pmu}, Follows s₀ t → ∀ b, hw.bankCntr s₀ (t.readActive c) i b =
      hw.bankCntr s₀ t i b := fun ht b => ht.bankCntr_access fun _ h => by cases h
  have hbusy_iff : t.2.Busy c ↔ s₀.Busy c := by rw [CachePmu.Busy, CachePmu.Busy, h.table]
  by_cases hbusy : s₀.Busy c
  · have h₁ : Follows s₀ (t.2.readActive c) := h.access _
    have h₂ : Follows s₀ ((t.2.readActive c).readActive c) := h₁.access _
    obtain ⟨h₃, hcntr⟩ := h₂.writeCntr hw (s₀.activeEvents c).banksMask
      (divu init ((s₀.activeEvents c).banks.signExtend 64)) hi hc
    obtain ⟨h₄, hctrl⟩ := h₃.bankWriteCtrl hw (s₀.activeEvents c).banksMask
      (s₀.activeEvents c).ctrl hi hc
    rw [l3StartBody, validate_of_busy hc (hbusy_iff.mpr hbusy)]
    simp only [ne_eq, not_true_eq_false, if_false, readActive_activeEvents, h.table,
      scrL3PmuCtrStartHw, if_pos hinit]
    refine ⟨trivial, h₄, fun b hb => (hctrl b hb).trans ((hcntr b hb).trans ?_)⟩
    rw [hread h₁, hread h]
    by_cases hci : c = i
    · subst hci
      refine if_congr ?_ rfl rfl
      rw [and_iff_right rfl, and_iff_right rfl, and_iff_right hbusy]
      rfl
    · rw [if_neg fun h => hci h.1, if_neg fun h => hci h.1]
  · have hfree : ¬ t.2.Busy c := fun h => hbusy (hbusy_iff.mp h)
    rw [l3StartBody_of_free hw flags init hc hfree]
    refine ⟨rfl, h.access _, fun b _ => (hread h b).trans ?_⟩
    refine (if_neg ?_).symm
    rintro ⟨rfl, hb, _⟩
    exact hbusy hb

/-- **Start** writes the quotient to the banks of the counters that it covers, each by the number of
its own banks. Rounds of other counters leave it there. -/
theorem start_bankCntr (hw : L3Hw) (s : L3Pmu) {cbase cmask flags : U64} (init : U64)
    (hinit : hasFlag flags sbiPmuStartFlagSetInitValue)
    (hfls : sbiFls (shl cmask cbase) < 4) (hi : i < 4)
    (hcovers : Requested cbase cmask i) (hbusy : s.Busy i) :
    Follows s (sbiL3PmuCtrStart hw cbase cmask flags init s).2.2 ∧
      ∀ b < hw.supportedBanks, (s.activeEvents i).Counts b →
        hw.bankCntr s (sbiL3PmuCtrStart hw cbase cmask flags init s).2.2 i b =
          divu init ((s.activeEvents i).banks.signExtend 64) := by
  rw [sbiL3PmuCtrStart_eq, if_pos hfls]
  -- the view of a counter is that of all its banks
  obtain ⟨_, hfollows, hview⟩ := runUntil_view (K := (· < 4))
    (fun t : ℤ × L3Pmu => Follows s t.2)
    (fun i (t : ℤ × L3Pmu) (b : Fin hw.supportedBanks) => hw.bankCntr s t.2 i b)
    (fun i r b => if s.Busy i ∧ (s.activeEvents i).Counts b then
      divu init ((s.activeEvents i).banks.signExtend 64) else r b)
    (nodup_namedL2 cbase (shl cmask cbase)) (fun a ha t ht => by
      have hround := fun b hb => l3StartBody_bankCntr hw flags init ht hinit
        (mem_counters.mp ha).2.1 (i := b) hb
      refine ⟨(hround 0 (by decide)).1, (hround 0 (by decide)).2.1, fun b hb => ?_⟩
      funext bank
      rw [(hround b hb).2.2 bank bank.isLt]
      by_cases hab : b = a
      · subst hab
        rw [if_pos rfl]
        exact if_congr (and_iff_right rfl) rfl rfl
      · rw [if_neg hab, if_neg fun h => hab h.1.symm])
    (s := (sbiErrorInvalidParam, s)) (Follows.refl s)
  refine ⟨hfollows, fun b hb hcounts => ?_⟩
  have hmem : i ∈ namedL2 cbase (shl cmask cbase) := mem_namedL2_iff.mpr ⟨hi, hcovers⟩
  have hreg := congrFun (hview i hi) ⟨b, hb⟩
  rw [if_pos hmem, if_pos ⟨hbusy, hcounts⟩] at hreg
  exact hreg

/-! ## Read -/

/-- The sum over banks that all have the same value, by induction on the banks of the mask. No
register changes between the reads. -/
theorem readCntr_fst (hquiet : hw.Quiet s₀.log) (hc : c < 4) {mask : U32}
    (hv : ∀ b < hw.supportedBanks, mask.getLsbD b = true → hw.bankCntr s₀ t c b = v)
    (h : Follows s₀ t) :
    (scrL3PmuReadCntr hw (mask.setWidth 64) (BitVec.ofNat 32 c) t).1 =
      BitVec.ofNat 64 (hw.banksOf mask).length * v := by
  have hfold : ∀ (l : List ℕ) (val : U64) (t : L3Pmu), Follows s₀ t →
      (∀ b ∈ l, b < hw.supportedBanks ∧ hw.bankCntr s₀ t c b = v) →
      (l.foldl (fun (r : U64 × L3Pmu) bank =>
        (r.1 + (readq hw.dev (hw.l3bPceCntrN bank (BitVec.ofNat 32 c)) r.2).1,
          (readq hw.dev (hw.l3bPceCntrN bank (BitVec.ofNat 32 c)) r.2).2)) (val, t)).1 =
        val + BitVec.ofNat 64 l.length * v := by
    intro l
    induction l with
    | nil =>
      intro val t _ _
      simp
    | cons b l ih =>
      intro val t ht hl
      obtain ⟨⟨hb, hreg⟩, hl⟩ := List.forall_mem_cons.mp hl
      have hread : (readq hw.dev (hw.l3bPceCntrN b (BitVec.ofNat 32 c)) t).1 = v :=
        (ht.dev_eq hquiet hb hc).trans hreg
      have hrest := ih (val + v) (t.access (.read (hw.l3bPceCntrN b (BitVec.ofNat 32 c))))
        (ht.access _) fun b' hb' => ⟨(hl b' hb').1,
          (ht.bankCntr_access fun _ h => by cases h).trans (hl b' hb').2⟩
      rw [List.foldl_cons]
      simp only [hread]
      refine Eq.trans hrest ?_
      rw [List.length_cons, BitVec.ofNat_add, BitVec.add_mul, BitVec.one_mul, BitVec.add_assoc,
        BitVec.add_comm v]
  rw [scrL3PmuReadCntr, forEachBank_eq, runUntil_eq_foldl]
  refine (hfold _ 0#64 t h fun b hb => ?_).trans (BitVec.zero_add _)
  exact ⟨(mem_banksOf.mp hb).1, hv b (mem_banksOf.mp hb).1 (mem_banksOf.mp hb).2⟩

/-! ## The law -/

/-- A quotient, as often as it has been divided by. -/
theorem mul_divu_eq_iff {n : ℕ} {q : U64} (hq : q.toNat = init.toNat / n) :
    BitVec.ofNat 64 n * q = init ↔ n ∣ init.toNat := by
  have hle : n * (init.toNat / n) ≤ init.toNat := Nat.mul_div_le init.toNat n
  have hlt := init.isLt
  rw [← BitVec.toNat_inj, BitVec.toNat_mul, BitVec.toNat_ofNat, hq, ← Nat.mul_mod_mod,
    Nat.mod_mul_mod, Nat.mul_mod_mod, Nat.mod_eq_of_lt (Nat.lt_of_le_of_lt hle hlt),
    Nat.mul_div_eq_iff_dvd]

/-- A read after a start adds up as many quotients as the start has written, which is the initial
value less the remainder of the division. -/
theorem read_after_start (hvalid : L3Valid hw s) {cbase cmask flags : U64} (init : U64)
    (hinit : hasFlag flags sbiPmuStartFlagSetInitValue)
    (hfls : sbiFls (shl cmask cbase) < 4) (hc : c < 4)
    (hcovers : Requested cbase cmask c) (hbusy : s.Busy c) (hquiet : hw.Quiet s.log) :
    let r := mcallExtL3Pmu hw (hw.next s (.start cbase cmask flags init))
      (.hwCtrRead (BitVec.ofNat 64 c))
    r.1 = 0 ∧ r.2.1 = BitVec.ofNat 64 (popcount (s.activeEvents c).banksMask) *
      divu init ((s.activeEvents c).banks.signExtend 64) := by
  obtain ⟨hfollows, hregs⟩ := start_bankCntr hw s init hinit hfls hc hcovers hbusy
  have hcut : (BitVec.ofNat 64 c).setWidth 32 = BitVec.ofNat 32 c :=
    BitVec.setWidth_ofNat_of_le (by decide) c
  have hnat : (BitVec.ofNat 64 c).toNat = c := by
    rw [BitVec.toNat_ofNat]
    omega
  have htable := hfollows.table
  rw [L3Hw.next, mcallExtL3Pmu, mcallExtL3Pmu]
  generalize (sbiL3PmuCtrStart hw cbase cmask flags init s).2.2 = t at hfollows hregs htable ⊢
  have hbusy' : t.Busy c := by rwa [CachePmu.Busy, htable]
  have h₁ : Follows s (t.readActive c) := hfollows.access _
  have h₂ : Follows s ((t.readActive c).readActive c) := h₁.access _
  have hread : ∀ b < hw.supportedBanks, (s.activeEvents c).Counts b →
      hw.bankCntr s ((t.readActive c).readActive c) c b =
        divu init ((s.activeEvents c).banks.signExtend 64) := by
    intro b hb hcounts
    refine (h₁.bankCntr_access fun _ h => by cases h).trans ?_
    exact (hfollows.bankCntr_access fun _ h => by cases h).trans (hregs b hb hcounts)
  rw [sbiL3PmuHwCtrRead, hcut, validate_of_busy hc hbusy', hnat]
  simp only [ne_eq, not_true_eq_false, if_false, readActive_activeEvents, htable, true_and]
  rw [readCntr_fst hquiet hc hread h₂, (hvalid c hc hbusy).length_banksOf]

/-- **The initial value.** After `scr_fdt_l3_pmu_init` and any history of calls, a read of a
counter right after a start that gives it an initial value returns this value exactly if
the number of its banks divides it. -/
theorem l3_init_value_iff (hw : L3Hw) (s₀ : L3Pmu) (calls : List L3Call)
    (cbase cmask flags init : U64) (c : ℕ) :
    let s := run hw.next (scrFdtL3PmuInit s₀) calls
    c < 4 → s.Busy c → hasFlag flags sbiPmuStartFlagSetInitValue → Requested cbase cmask c →
      (mcallExtL3Pmu hw s (.start cbase cmask flags init)).1 = sbiErrorSuccess →
      hw.Quiet s.log →
        let r := mcallExtL3Pmu hw (hw.next s (.start cbase cmask flags init))
          (.hwCtrRead (BitVec.ofNat 64 c))
        r.1 = 0 ∧ r.2.1 = init ↔ popcount (s.activeEvents c).banksMask ∣ init.toNat := by
  intro s hc hbusy hinit hcovers hret hquiet
  have hvalid : L3Valid hw s := valid_run_l3 hw s₀ calls
  have hpasses := (start_outcome hw s cbase cmask flags init).passes hret
  obtain ⟨hzero, hsum⟩ := read_after_start hvalid init hinit hpasses.1 hc hcovers hbusy hquiet
  refine (and_iff_right hzero).trans ?_
  rw [hsum]
  exact mul_divu_eq_iff ((hvalid c hc hbusy).toNat_divu init)

/-- An L3 cache with two banks whose registers keep what is written to them. -/
def L3Hw.twoBanks : L3Hw where
  l3ctlBase := 0x20000000#64
  descrCache := 0x200#64
  scrVid := 0x2022010101#64
  dev := fun log addr => lastWritten (· = addr) 0#64 log

theorem quiet_twoBanks (log : List CacheAccess) : L3Hw.twoBanks.Quiet log :=
  fun _ _ _ _ _ _ _ => List.foldl_append

/-- A counter of two banks with an even initial value. -/
theorem l3_init_value_even :
    let s := run L3Hw.twoBanks.next (scrFdtL3PmuInit ⟨fun _ => ⟨0#64, 0#32, 0#32⟩, []⟩)
      [.cfgMatch 0#64 1#64 0#64 5#64 0x300#64]
    let r := mcallExtL3Pmu L3Hw.twoBanks
      (L3Hw.twoBanks.next s (.start 0#64 1#64 sbiPmuStartFlagSetInitValue 10#64))
      (.hwCtrRead (BitVec.ofNat 64 0))
    r.1 = 0 ∧ r.2.1 = 10#64 ↔ popcount (s.activeEvents 0).banksMask ∣ (10#64).toNat :=
  l3_init_value_iff L3Hw.twoBanks ⟨fun _ => ⟨0#64, 0#32, 0#32⟩, []⟩
    [.cfgMatch 0#64 1#64 0#64 5#64 0x300#64] 0#64 1#64 sbiPmuStartFlagSetInitValue 10#64 0
    (by decide) (by decide +kernel) (by decide) ⟨0, by decide, by decide⟩ (by decide +kernel)
    (quiet_twoBanks _)

/-- A counter of two banks that is started with 1 reads 0. -/
theorem l3_init_value_lost :
    let s := run L3Hw.twoBanks.next (scrFdtL3PmuInit ⟨fun _ => ⟨0#64, 0#32, 0#32⟩, []⟩)
      [.cfgMatch 0#64 1#64 0#64 5#64 0x300#64]
    L3Hw.twoBanks.Quiet s.log ∧
      (mcallExtL3Pmu L3Hw.twoBanks
        (L3Hw.twoBanks.next s (.start 0#64 1#64 sbiPmuStartFlagSetInitValue 1#64))
        (.hwCtrRead (BitVec.ofNat 64 0))).2.1 ≠ 1#64 :=
  ⟨quiet_twoBanks _, by decide +kernel⟩

end ScBl
