import ScBl.Pmu.Core
import ScBl.Lib.Runs

/-!
# What core PMU calls do

The fields that each helper of `pmu.c` leaves alone, what it adds to the log,
and the loops of the calls as loops over the set bits of the counter mask
(`forCounters_eq`, `pmuFindHwCntr_eq`). The loops end because the count of
`sbi_pmu_num_ctr` is at most 32 (`PmuHw.numCtr_le`) and masks beyond it are
refused before.
-/

namespace ScBl

open Loops Runs

/-! ## Fields -/

section Fields

variable (s : Pmu) (a : PmuAccess) (i : ℕ) (event : U64)

@[simp] theorem Pmu.access_avail : (s.access a).avail = s.avail := rfl
@[simp] theorem Pmu.access_activeEvents : (s.access a).activeEvents = s.activeEvents := rfl
@[simp] theorem Pmu.access_mcountinhibit : (s.access a).mcountinhibit = s.mcountinhibit := rfl
@[simp] theorem Pmu.readActive_avail : (s.readActive i).avail = s.avail := rfl
@[simp] theorem Pmu.readActive_activeEvents :
    (s.readActive i).activeEvents = s.activeEvents := rfl
@[simp] theorem Pmu.readActive_mcountinhibit :
    (s.readActive i).mcountinhibit = s.mcountinhibit := rfl
@[simp] theorem Pmu.writeActive_avail : (s.writeActive i event).avail = s.avail := rfl
/-- A store into the table changes the one entry. -/
@[simp] theorem Pmu.writeActive_activeEvents :
    (s.writeActive i event).activeEvents = Function.update s.activeEvents i event := rfl
@[simp] theorem Pmu.writeActive_mcountinhibit :
    (s.writeActive i event).mcountinhibit = s.mcountinhibit := rfl

/-- `csr_write_num` changes CSRs only, whether its number has a case or not. -/
@[simp] theorem csrWriteNum_avail : (csrWriteNum i event s).avail = s.avail := by
  rw [csrWriteNum]
  split_ifs <;> rfl
/-- The table is left alone by `csr_write_num`. -/
@[simp] theorem csrWriteNum_activeEvents :
    (csrWriteNum i event s).activeEvents = s.activeEvents := by
  rw [csrWriteNum]
  split_ifs <;> rfl

@[simp] theorem pmuSetHwEvent_avail : (pmuSetHwEvent i event s).avail = s.avail := by
  rw [pmuSetHwEvent]
  split_ifs <;> simp
@[simp] theorem pmuSetHwEvent_activeEvents :
    (pmuSetHwEvent i event s).activeEvents = s.activeEvents := by
  rw [pmuSetHwEvent]
  split_ifs <;> simp
@[simp] theorem pmuWriteHwCtr_avail : (pmuWriteHwCtr i event s).avail = s.avail := by
  rw [pmuWriteHwCtr]
  split_ifs <;> simp
@[simp] theorem pmuWriteHwCtr_activeEvents :
    (pmuWriteHwCtr i event s).activeEvents = s.activeEvents := by
  rw [pmuWriteHwCtr]
  split_ifs <;> simp

end Fields

/-! ## Log -/

/-- All entries of the log satisfy `P`. -/
def Pmu.LogAll (P : PmuAccess → Prop) (s : Pmu) : Prop := ∀ a ∈ s.log, P a

section Log

variable {P : PmuAccess → Prop} {s : Pmu} {a : PmuAccess} {i : ℕ} {event : U64}

/-- One access more. -/
@[simp] theorem Pmu.logAll_access : (s.access a).LogAll P ↔ s.LogAll P ∧ P a := by
  simp only [LogAll, access, List.mem_append, List.mem_singleton]
  constructor
  · intro h
    exact ⟨fun b hb => h b (.inl hb), h a (.inr rfl)⟩
  · rintro ⟨hs, ha⟩ b (hb | rfl)
    · exact hs b hb
    · exact ha

@[simp] theorem Pmu.logAll_readActive :
    (s.readActive i).LogAll P ↔ s.LogAll P ∧ P (.activeEvents i) :=
  Pmu.logAll_access

@[simp] theorem Pmu.logAll_writeActive :
    (s.writeActive i event).LogAll P ↔ s.LogAll P ∧ P (.activeEvents i) :=
  Pmu.logAll_access

/-- The number is logged also where it has no case, since `csr_write_num` gets it all the same. -/
@[simp] theorem logAll_csrWriteNum :
    (csrWriteNum i event s).LogAll P ↔ s.LogAll P ∧ P (.csrWriteNum i) := by
  rw [csrWriteNum]
  split_ifs <;> exact Pmu.logAll_access

/-- Only calls that go through `Pmu.access` write to the log. -/
theorem Pmu.logAll_mcountinhibit (inhibit : U64) :
    Pmu.LogAll P { s with mcountinhibit := inhibit } ↔ s.LogAll P :=
  Iff.rfl

/-- Nothing is written for a fixed counter, nor beyond the counters that there are. -/
theorem logAll_pmuSetHwEvent :
    (pmuSetHwEvent i event s).LogAll P ↔
      s.LogAll P ∧ (3 ≤ i → i ≤ s.avail → P (.csrWriteNum (csrMhpmevent3 + i - 3))) := by
  rw [pmuSetHwEvent]
  split_ifs with h
  · have hskip : 3 ≤ i → i ≤ s.avail → P (.csrWriteNum (csrMhpmevent3 + i - 3)) := by omega
    exact ⟨fun hs => ⟨hs, hskip⟩, fun hs => hs.1⟩
  · have h3 : 3 ≤ i := by omega
    have hav : i ≤ s.avail := by omega
    simp [h3, hav]

/-- Nothing is written for `TIME`, nor beyond the counters that there are. -/
theorem logAll_pmuWriteHwCtr :
    (pmuWriteHwCtr i event s).LogAll P ↔
      s.LogAll P ∧ (i ≠ 1 → i ≤ s.avail → P (.csrWriteNum (csrMcycle + i))) := by
  rw [pmuWriteHwCtr]
  split_ifs with h
  · have hskip : i ≠ 1 → i ≤ s.avail → P (.csrWriteNum (csrMcycle + i)) := by omega
    exact ⟨fun hs => ⟨hs, hskip⟩, fun hs => hs.1⟩
  · have h1 : i ≠ 1 := by omega
    have hav : i ≤ s.avail := by omega
    simp [h1, hav]

end Log

/-! ## The number of counters -/

namespace PmuHw

variable (hw : PmuHw)

/-- The value that `sbi_pmu_num_ctr` loops over. -/
def ctrReg : U64 := (hw.mcounteren.setWidth 64) >>> pmuHwCtrStart

/-- The number of counters: `MCYCLE`, `TIME` and `MINSTRET`, and one for each
bit that `mcounteren` reads back. -/
def numCtr : ℕ := 3 + (indicesIn hw.ctrReg.getLsbD 0 64).length

/-- Bit `i` of the loop stands for counter `3 + i`. -/
theorem getLsbD_ctrReg (i : ℕ) :
    hw.ctrReg.getLsbD i = (decide (3 + i < 64) && hw.mcounteren.getLsbD (3 + i)) := by
  rw [ctrReg, BitVec.getLsbD_ushiftRight, BitVec.getLsbD_setWidth]
  rfl

/-- `mcounteren` has 32 bits, so that the count never exceeds the table. -/
theorem numCtr_le : hw.numCtr ≤ 32 := by
  have hlen : (indicesIn hw.ctrReg.getLsbD 0 64).length ≤ 29 := by
    refine length_indicesIn_le fun i hi => ?_
    rw [getLsbD_ctrReg, BitVec.getLsbD_of_ge _ _ (by omega), Bool.and_false]
  rw [numCtr]
  omega

/-- The programmable counters are those from 3 to `k`. -/
def Contiguous (k : ℕ) : Prop := ∀ i, 3 ≤ i → hw.mcounteren.getLsbD i = decide (i ≤ k)

variable {hw}

/-- The bits of the register decide. -/
theorem contiguous_of_decide {k : ℕ} (hk : k < 32)
    (h : ∀ i < 32, 3 ≤ i → hw.mcounteren.getLsbD i = decide (i ≤ k)) : hw.Contiguous k := by
  intro i h3
  by_cases hi : i < 32
  · exact h i hi h3
  · rw [BitVec.getLsbD_of_ge _ _ (by omega), eq_comm, decide_eq_false_iff_not]
    omega

/-- With no gap among the counters, the count is one more than the number of the last. The three
fixed counters are counted without a look at the register. -/
theorem Contiguous.numCtr_eq {k : ℕ} (h : hw.Contiguous k) (hk : 2 ≤ k) (hk31 : k ≤ 31) :
    hw.numCtr = k + 1 := by
  have hlen : (indicesIn hw.ctrReg.getLsbD 0 64).length = k - 2 := by
    refine length_indicesIn_eq (by omega) fun i => ?_
    rw [getLsbD_ctrReg, h (3 + i) (by omega)]
    by_cases hi : i < k - 2
    · have hle : 3 + i ≤ k := by omega
      have hlt : 3 + i < 64 := by omega
      simp [hi, hle, hlt]
    · have hnot : ¬ 3 + i ≤ k := by omega
      simp [hi, hnot]
  rw [numCtr, hlen]
  omega

end PmuHw

/-- **`sbi_pmu_num_ctr`** counts the counters and sets `pmu_hw_ctr_avail`, which the other calls
compare with. -/
theorem sbiPmuNumCtr_eq (hw : PmuHw) (s : Pmu) :
    mcallExtPmu hw s .numCtr =
      some (sbiErrorSuccess, BitVec.ofNat 64 hw.numCtr, { s with avail := hw.numCtr }) := by
  have hcount : ∀ (l : List ℕ) (s : Pmu),
      runUntil (fun _ s => ((none : Option Unit), { s with avail := s.avail + 1 })) l s =
        (none, { s with avail := s.avail + l.length }) := by
    intro l
    induction l with
    | nil =>
      intro s
      rfl
    | cons b l ih =>
      intro s
      rw [runUntil_cons_next rfl, ih, List.length_cons]
      simp only [Nat.add_assoc, Nat.add_comm 1]
  have htop : hw.ctrReg.getLsbD 63 = false := by
    rw [PmuHw.getLsbD_ctrReg]
    rfl
  simp only [mcallExtPmu, sbiPmuNumCtr]
  have heq : (hw.mcounteren.setWidth 64) >>> pmuHwCtrStart = hw.ctrReg := rfl
  rw [heq,
    forEachSetBit_eq htop, hcount]
  rfl

/-! ## Loops over the counter mask -/

/-- A mask that passes the `sbi_fls` check has its top bit clear. -/
theorem top_clear {word : U64} {n : ℕ} (hfls : sbiFls word ≤ n) (hn : n < 63) :
    word.getLsbD 63 = false := by
  by_contra htop
  have := le_sbiFls (by simpa using htop : word.getLsbD 63 = true)
  omega

variable {s : Pmu}

/-- The mask is refused before the loop: it is empty, or its highest bit is beyond the counters that
there are. -/
theorem forCounters_of_refused {cbase cmask : U64} {body : ℕ → Pmu → Option ℤ × Pmu}
    (h : shl cmask cbase = 0#64 ∨ s.avail < sbiFls (shl cmask cbase)) :
    forCounters cbase cmask body s = some (sbiErrorInvalidParam, 0#64, s) := by
  simp only [forCounters]
  split_ifs with hz hfls
  · rfl
  · rfl
  · exact absurd h (not_or.mpr ⟨hz, hfls⟩)

/-- The loop of `sbi_pmu_ctr_start` and `sbi_pmu_ctr_stop`. -/
theorem forCounters_eq (body : ℕ → Pmu → Option ℤ × Pmu) (havail : s.avail ≤ 32)
    {cbase cmask : U64} (hnz : shl cmask cbase ≠ 0#64)
    (hfls : sbiFls (shl cmask cbase) ≤ s.avail) :
    forCounters cbase cmask body s =
      some ((runUntil body (indicesIn (shl cmask cbase).getLsbD 0 64) s).1.getD sbiErrorSuccess,
        0#64, (runUntil body (indicesIn (shl cmask cbase).getLsbD 0 64) s).2) := by
  simp only [forCounters]
  rw [if_neg hnz, if_neg (by omega), forEachSetBit_eq (top_clear hfls (by omega))]
  rfl

/-- The counters that `pmu_find_hw_cntr` looks at. -/
def findMask (base mask : U64) : U64 := shl mask base &&& ~~~sbiPmuFixedCtrMask

/-- The search ends at once if its mask has no programmable counter, or has its highest bit beyond
the count. -/
theorem pmuFindHwCntr_of_refused {base mask : U64}
    (h : findMask base mask = 0#64 ∨ s.avail < sbiFls (findMask base mask)) :
    pmuFindHwCntr base mask s = some (sbiErrorInvalidParam, s) := by
  rw [findMask] at h
  simp only [pmuFindHwCntr]
  split_ifs with hz hfls
  · rfl
  · rfl
  · exact absurd h (not_or.mpr ⟨hz, hfls⟩)

/-- Otherwise it is the loop over the bits of the mask, and the end of the loop is a failure. -/
theorem pmuFindHwCntr_eq (havail : s.avail ≤ 32) {base mask : U64}
    (hnz : findMask base mask ≠ 0#64) (hfls : sbiFls (findMask base mask) ≤ s.avail) :
    pmuFindHwCntr base mask s =
      some ((runUntil findHwCntrBody (indicesIn (findMask base mask).getLsbD 0 64) s).1.getD
          sbiErrorFailure,
        (runUntil findHwCntrBody (indicesIn (findMask base mask).getLsbD 0 64) s).2) := by
  rw [findMask] at hnz hfls ⊢
  simp only [pmuFindHwCntr]
  rw [if_neg hnz, if_neg (by omega), forEachSetBit_eq (top_clear hfls (by omega))]
  rfl

/-- The bits of a mask that passes the `sbi_fls` check. -/
theorem le_of_mem_indices {word : U64} {n b : ℕ} (hfls : sbiFls word ≤ n)
    (hb : b ∈ indicesIn word.getLsbD 0 64) : b ≤ n :=
  le_trans (le_sbiFls (mem_indicesIn.mp hb).2.2) hfls

/-- `pmu_find_hw_cntr` looks at programmable counters only. -/
theorem getLsbD_findMask {base mask : U64} {b : ℕ}
    (hb : (findMask base mask).getLsbD b = true) : 3 ≤ b ∧ (shl mask base).getLsbD b = true := by
  rw [findMask, BitVec.getLsbD_and, BitVec.getLsbD_not, Bool.and_eq_true] at hb
  refine ⟨?_, hb.1⟩
  by_contra hlt
  have hfixed : sbiPmuFixedCtrMask.getLsbD b = true := by
    have heq : sbiPmuFixedCtrMask = BitVec.ofNat 64 (2 ^ 3 - 1) := rfl
    rw [heq, Words.getLsbD_lowMask]
    have hb3 : b < 3 := by omega
    have hb64 : b < 64 := by omega
    simp [hb3, hb64]
  simp [hfixed] at hb

/-! ## Finding a counter -/

/-- A counter is free when its entry is the sentinel. -/
def Pmu.Free (s : Pmu) (c : ℕ) : Prop := s.activeEvents c = sbiPmuEventNotSupp

instance (s : Pmu) (c : ℕ) : Decidable (s.Free c) :=
  inferInstanceAs (Decidable (s.activeEvents c = sbiPmuEventNotSupp))

/-- A round at a free counter ends the search with its number. -/
theorem findHwCntrBody_of_free {c : ℕ} (hbit : ¬ s.badBit c) (hfree : s.Free c) :
    findHwCntrBody c s = (some (c : ℤ), s.readActive c) := by
  rw [findHwCntrBody, if_neg hbit]
  exact if_pos hfree

/-- A round at a busy one goes on. -/
theorem findHwCntrBody_of_busy {c : ℕ} (hbit : ¬ s.badBit c) (hbusy : ¬ s.Free c) :
    findHwCntrBody c s = (none, s.readActive c) := by
  rw [findHwCntrBody, if_neg hbit]
  exact if_neg hbusy

/-- **The search** finds a free counter of the list or passes over all of them,
and only writes to the log. -/
theorem runUntil_findHwCntr {l : List ℕ} : ∀ {s : Pmu}, (∀ b ∈ l, ¬ s.badBit b) →
    (∃ log, (runUntil findHwCntrBody l s).2 = { s with log := log }) ∧
      (((runUntil findHwCntrBody l s).1 = none ∧ ∀ b ∈ l, ¬ s.Free b) ∨
        ∃ c ∈ l, (runUntil findHwCntrBody l s).1 = some (c : ℤ) ∧ s.Free c) := by
  induction l with
  | nil =>
    intro s _
    exact ⟨⟨s.log, rfl⟩, .inl ⟨rfl, by simp⟩⟩
  | cons b l ih =>
    intro s hl
    have hb : ¬ s.badBit b := hl b (List.mem_cons_self ..)
    by_cases hfree : s.Free b
    · have he := findHwCntrBody_of_free hb hfree
      rw [runUntil_cons_exit (r := (b : ℤ)) (by rw [he]), he]
      exact ⟨⟨_, rfl⟩, .inr ⟨b, List.mem_cons_self .., rfl, hfree⟩⟩
    · have he := findHwCntrBody_of_busy hb hfree
      rw [runUntil_cons_next (by rw [he]), he]
      obtain ⟨⟨log, hlog⟩, hres⟩ :=
        ih (s := s.readActive b) fun b' hb' => hl b' (List.mem_cons_of_mem _ hb')
      refine ⟨⟨log, hlog⟩, ?_⟩
      rcases hres with ⟨hnone, hbusy⟩ | ⟨c, hc, hsome, hcfree⟩
      · refine .inl ⟨hnone, fun b' hb' => ?_⟩
        rcases List.mem_cons.mp hb' with rfl | hb'
        · exact hfree
        · exact hbusy b' hb'
      · exact .inr ⟨c, List.mem_cons_of_mem _ hc, hsome, hcfree⟩

/-- What the search adds to the log are table reads of the listed counters. -/
theorem logAll_runUntil_findHwCntr {P : PmuAccess → Prop} {l : List ℕ}
    (hP : ∀ b ∈ l, P (.activeEvents b)) :
    ∀ {s : Pmu}, (runUntil findHwCntrBody l s).2.LogAll P ↔ s.LogAll P := by
  induction l with
  | nil =>
    intro s
    exact Iff.rfl
  | cons b l ih =>
    intro s
    have htail := fun b' hb' => hP b' (List.mem_cons_of_mem _ hb')
    have hread : (s.readActive b).LogAll P ↔ s.LogAll P := by
      simp [hP b (List.mem_cons_self ..)]
    by_cases hbit : s.badBit b
    · rw [runUntil_cons_exit (r := sbiErrorInvalidParam) (by rw [findHwCntrBody, if_pos hbit]),
        findHwCntrBody, if_pos hbit]
    · by_cases hfree : s.Free b
      · have he := findHwCntrBody_of_free hbit hfree
        rw [runUntil_cons_exit (r := (b : ℤ)) (by rw [he]), he]
        exact hread
      · have he := findHwCntrBody_of_busy hbit hfree
        rw [runUntil_cons_next (by rw [he]), he, ih htail]
        exact hread

/-- Counter `c` is free, and a mask that is not refused has it. -/
def Pmu.FoundIn (s : Pmu) (base mask : U64) (c : ℕ) : Prop :=
  sbiFls (findMask base mask) ≤ s.avail ∧ (findMask base mask).getLsbD c = true ∧ s.Free c

/-- **`pmu_find_hw_cntr`** returns a free programmable counter of the mask, or
fails if there is none. -/
theorem pmuFindHwCntr_cases (havail : s.avail ≤ 32) (base mask : U64) :
    ∃ ret log, pmuFindHwCntr base mask s = some (ret, { s with log := log }) ∧
      ((ret < 0 ∧ ∀ c, ¬ s.FoundIn base mask c) ∨ ∃ c : ℕ, ret = c ∧ s.FoundIn base mask c) := by
  by_cases hrefused : findMask base mask = 0#64 ∨ s.avail < sbiFls (findMask base mask)
  · refine ⟨_, s.log, pmuFindHwCntr_of_refused hrefused, .inl ⟨by decide, ?_⟩⟩
    rintro c ⟨hfls, hbit, _⟩
    rcases hrefused with hz | hlt
    · simp [hz] at hbit
    · omega
  · obtain ⟨hnz, hfls⟩ := not_or.mp hrefused
    have hfls := Nat.le_of_not_lt hfls
    have hbits : ∀ b ∈ indicesIn (findMask base mask).getLsbD 0 64, ¬ s.badBit b := by
      intro b hb
      have hle := le_of_mem_indices hfls hb
      have h3 := (getLsbD_findMask (mem_indicesIn.mp hb).2.2).1
      rw [Pmu.badBit]
      omega
    obtain ⟨⟨log, hlog⟩, hres⟩ := runUntil_findHwCntr hbits
    refine ⟨_, log, by rw [pmuFindHwCntr_eq havail hnz hfls, hlog], ?_⟩
    rcases hres with ⟨hnone, hbusy⟩ | ⟨c, hc, hsome, hfree⟩
    · rw [hnone]
      refine .inl ⟨by decide, ?_⟩
      rintro c ⟨_, hbit, hfree⟩
      exact hbusy c (mem_indicesIn.mpr ⟨Nat.zero_le _, Words.lt_of_getLsbD hbit, hbit⟩) hfree
    · rw [hsome]
      exact .inr ⟨c, rfl, hfls, (mem_indicesIn.mp hc).2.2, hfree⟩

/-! ## The table after a call -/

/-- The counter that is configured gets its selector, with the inhibit bits of the flags, into the
table and nothing else changes there. -/
theorem cfgMatchCounter_activeEvents (flags selector : U64) (c : ℕ) (s : Pmu) :
    (cfgMatchCounter flags selector c s).2.2.activeEvents =
      Function.update s.activeEvents c (sbiPmuApplyHwFlags flags selector) := by
  simp [cfgMatchCounter]

/-- Configuring a counter leaves the count of counters. -/
theorem cfgMatchCounter_avail (flags selector : U64) (c : ℕ) (s : Pmu) :
    (cfgMatchCounter flags selector c s).2.2.avail = s.avail := by
  simp [cfgMatchCounter]

/-- The lookup fails with one code only, whichever of the types of events it has looked through. -/
theorem pmuFindEventSelector_error {eventIdx eventData : U64} {ret : ℤ}
    (h : pmuFindEventSelector eventIdx eventData = .error ret) : ret = sbiErrorNotSupported := by
  simp only [pmuFindEventSelector] at h
  split_ifs at h
  · split at h <;> cases h
    rfl
  · cases h
  · cases h
    rfl

/-- Firmware events have no selector. -/
theorem getCidxType_of_ok {eventIdx eventData selector : U64}
    (h : pmuFindEventSelector eventIdx eventData = .ok selector) :
    getCidxType eventIdx ≠ sbiPmuEventTypeFw := by
  intro hfw
  simp [pmuFindEventSelector, hfw, sbiPmuEventTypeFw, sbiPmuEventTypeHw, sbiPmuEventTypeHwCache,
    sbiPmuEventTypeHwRaw] at h

/-- The counter that the arguments and the table lead `sbi_pmu_ctr_cfg_match`
to: the first one of the mask with `SKIP_MATCH`, a free one without. -/
def Pmu.LeadsTo (s : Pmu) (cidxBase cidxMask flags : U64) (c : ℕ) : Prop :=
  if hasFlag flags sbiPmuCfgFlagSkipMatch then
    cidxMask ≠ 0#64 ∧ c = (skipMatchCntr cidxBase cidxMask).toNat ∧ c ≤ s.avail
  else
    sbiFls (findMask cidxBase cidxMask) ≤ s.avail ∧
      (findMask cidxBase cidxMask).getLsbD c = true ∧ s.Free c

/-- The counter that is configured is one that there is. -/
theorem Pmu.LeadsTo.le {cidxBase cidxMask flags : U64} {c : ℕ}
    (h : s.LeadsTo cidxBase cidxMask flags c) : c ≤ s.avail := by
  rw [Pmu.LeadsTo] at h
  split_ifs at h
  · exact h.2.2
  · exact le_trans (le_sbiFls h.2.1) h.1

/-- **`sbi_pmu_ctr_cfg_match`** configures the counter that the arguments lead
to. It fails if there is none, or no selector; then it only writes to the log. -/
theorem sbiPmuCtrCfgMatch_eq (hw : PmuHw) (havail : s.avail ≤ 32)
    (cidxBase cidxMask flags eventIdx data1 : U64) :
    ∃ log,
      (∃ ret, ret ≠ sbiErrorSuccess ∧
        mcallExtPmu hw s (.cfgMatch cidxBase cidxMask flags eventIdx data1) =
          some (ret, 0#64, { s with log := log }) ∧
        ∀ c selector, pmuFindEventSelector eventIdx data1 = .ok selector →
          ¬ s.LeadsTo cidxBase cidxMask flags c) ∨
      ∃ c selector, s.LeadsTo cidxBase cidxMask flags c ∧
        pmuFindEventSelector eventIdx data1 = .ok selector ∧
        mcallExtPmu hw s (.cfgMatch cidxBase cidxMask flags eventIdx data1) =
          some (cfgMatchCounter flags selector c { s with log := log }) := by
  simp only [mcallExtPmu, sbiPmuCtrCfgMatch]
  rcases hsel : pmuFindEventSelector eventIdx data1 with ret | selector
  · refine ⟨s.log, .inl ?_⟩
    by_cases hfw : getCidxType eventIdx = sbiPmuEventTypeFw
    · rw [if_pos hfw]
      exact ⟨_, by decide, rfl, by simp⟩
    · rw [if_neg hfw]
      refine ⟨ret, ?_, rfl, by simp⟩
      rw [pmuFindEventSelector_error hsel]
      decide
  rw [if_neg (getCidxType_of_ok hsel)]
  by_cases hskip : hasFlag flags sbiPmuCfgFlagSkipMatch
  · simp only [if_pos hskip, Pmu.LeadsTo]
    refine ⟨s.log, ?_⟩
    by_cases hmask : cidxMask = 0#64
    · rw [if_pos hmask]
      exact .inl ⟨_, by decide, rfl, fun c _ _ h => h.1 hmask⟩
    rw [if_neg hmask]
    by_cases hbound : s.avail < (skipMatchCntr cidxBase cidxMask).toNat
    · rw [if_pos hbound]
      refine .inl ⟨_, by decide, rfl, ?_⟩
      rintro c _ _ ⟨_, rfl, hle⟩
      omega
    · rw [if_neg hbound]
      exact .inr ⟨_, selector, ⟨hmask, rfl, by omega⟩, rfl, rfl⟩
  · simp only [if_neg hskip, Pmu.LeadsTo]
    obtain ⟨ret, log, hfind, hret⟩ := pmuFindHwCntr_cases havail cidxBase cidxMask
    refine ⟨log, ?_⟩
    rw [hfind, Option.map_some]
    simp only
    rcases hret with ⟨hneg, hnone⟩ | ⟨c, rfl, hc⟩
    · rw [if_pos hneg]
      refine .inl ⟨ret, ?_, rfl, fun c _ _ => hnone c⟩
      rintro rfl
      exact absurd hneg (by decide)
    · rw [if_neg (by omega), Int.toNat_natCast]
      exact .inr ⟨c, selector, hc, rfl, rfl⟩

/-- It fails without touching the table, or stores the selector of the event,
with the mode filters, at the counter it returns. -/
theorem sbiPmuCtrCfgMatch_cases (hw : PmuHw) (havail : s.avail ≤ 32)
    (cidxBase cidxMask flags eventIdx data1 : U64) :
    ∃ ret out s',
      mcallExtPmu hw s (.cfgMatch cidxBase cidxMask flags eventIdx data1) =
        some (ret, out, s') ∧
      s'.avail = s.avail ∧
      ((ret ≠ sbiErrorSuccess ∧ s'.activeEvents = s.activeEvents) ∨
        ∃ c selector, ret = sbiErrorSuccess ∧ out = BitVec.ofNat 64 c ∧
          s.LeadsTo cidxBase cidxMask flags c ∧
          pmuFindEventSelector eventIdx data1 = .ok selector ∧
          s'.activeEvents =
            Function.update s.activeEvents c (sbiPmuApplyHwFlags flags selector)) := by
  obtain ⟨log, ⟨ret, hret, heq, _⟩ | ⟨c, selector, hleads, hsel, heq⟩⟩ :=
    sbiPmuCtrCfgMatch_eq hw havail cidxBase cidxMask flags eventIdx data1
  · exact ⟨_, _, _, heq, rfl, .inl ⟨hret, rfl⟩⟩
  · exact ⟨_, _, _, heq, cfgMatchCounter_avail .., .inr ⟨c, selector, rfl, rfl, hleads, hsel,
      cfgMatchCounter_activeEvents ..⟩⟩

/-! ## Start and stop -/

variable {hw : PmuHw} {flags init : U64} {mip : ℕ → U64} {b : ℕ}

/-- A round of `sbi_pmu_ctr_start` leaves the table alone. -/
theorem ctrStartBody_table (hw : PmuHw) (flags init : U64) (mip : ℕ → U64) (b : ℕ) (s : Pmu) :
    (ctrStartBody hw flags init mip b s).2.avail = s.avail ∧
      (ctrStartBody hw flags init mip b s).2.activeEvents = s.activeEvents := by
  simp only [ctrStartBody]
  split_ifs <;> simp

/-- A round of `sbi_pmu_ctr_stop` frees its counter, if `RESET` asks for it. -/
theorem ctrStopBody_table (hw : PmuHw) (flags : U64) (b : ℕ) (s : Pmu) :
    (ctrStopBody hw flags b s).2.avail = s.avail ∧
      (ctrStopBody hw flags b s).2.activeEvents =
        if ¬ s.badBit b ∧ hasFlag flags sbiPmuStopFlagReset then
          Function.update s.activeEvents b sbiPmuEventNotSupp
        else s.activeEvents := by
  by_cases hbit : s.badBit b
  · simp [ctrStopBody, hbit]
  · by_cases hreset : hasFlag flags sbiPmuStopFlagReset <;>
      by_cases hinh : s.mcountinhibit.getLsbD b = false <;>
      simp [ctrStopBody, hbit, hreset, hinh]

/-- **`sbi_pmu_ctr_start`** leaves the table alone, whatever it answers: entries change when a
counter is configured or reset. -/
theorem sbiPmuCtrStart_cases (hw : PmuHw) (havail : s.avail ≤ 32) (cbase cmask flags data1 : U64)
    (mip : ℕ → U64) :
    ∃ ret out s', mcallExtPmu hw s (.start cbase cmask flags data1 mip) = some (ret, out, s') ∧
      s'.avail = s.avail ∧ s'.activeEvents = s.activeEvents := by
  by_cases hrefused : shl cmask cbase = 0#64 ∨ s.avail < sbiFls (shl cmask cbase)
  · exact ⟨_, _, s, forCounters_of_refused hrefused, rfl, rfl⟩
  · obtain ⟨hnz, hfls⟩ := not_or.mp hrefused
    have hinv : (runUntil (ctrStartBody hw flags data1 mip)
          (indicesIn (shl cmask cbase).getLsbD 0 64) s).2.avail = s.avail ∧
        (runUntil (ctrStartBody hw flags data1 mip)
          (indicesIn (shl cmask cbase).getLsbD 0 64) s).2.activeEvents = s.activeEvents := by
      refine runUntil_inv (fun s' : Pmu => s'.avail = s.avail ∧ s'.activeEvents = s.activeEvents)
        (fun b _ s' hs' => ?_) ⟨rfl, rfl⟩
      obtain ⟨hav, hact⟩ := ctrStartBody_table hw flags data1 mip b s'
      exact ⟨hav.trans hs'.1, hact.trans hs'.2⟩
    exact ⟨_, _, _, forCounters_eq _ havail hnz (by omega), hinv.1, hinv.2⟩

/-- A body that leaves at counter 1 and nowhere else below it. -/
theorem runUntil_of_bit_one {body : ℕ → Pmu → Option ℤ × Pmu} {word : U64} {r : ℤ}
    (hone : word.getLsbD 1 = true) (hzero : ∀ s, (body 0 s).1 = none)
    (hexit : ∀ s, body 1 s = (some r, s)) :
    runUntil body (indicesIn word.getLsbD 0 64) s =
      (some r, (runUntil body (indicesIn word.getLsbD 0 1) s).2) := by
  have hbelow : ∀ b ∈ indicesIn word.getLsbD 0 1, ∀ s, (body b s).1 = none := by
    intro b hb s
    obtain rfl : b = 0 := by
      have := (mem_indicesIn.mp hb).2.1
      omega
    exact hzero s
  have hle : 0 ≤ 1 := by decide
  have hle' : 1 ≤ 64 := by decide
  rw [indicesIn_split hle hle',
    indicesIn_eq_cons (le_refl 1) (by decide) hone (fun i h1 h2 => by omega),
    runUntil_append (runUntil_eq_none hbelow s), runUntil_cons_exit (r := r) (by rw [hexit]), hexit]

/-- `MCYCLE` is always there. -/
theorem not_badBit_zero : ¬ s.badBit 0 := by
  rw [Pmu.badBit]
  omega

/-- A round of the start goes on, unless at `TIME` or beyond the count. -/
theorem ctrStartBody_fst (hbit : ¬ s.badBit b) : (ctrStartBody hw flags init mip b s).1 = none := by
  rw [ctrStartBody]
  rw [if_neg hbit]
  simp only
  split_ifs <;> rfl

/-- So does a round of the stop. -/
theorem ctrStopBody_fst (hbit : ¬ s.badBit b) : (ctrStopBody hw flags b s).1 = none := by
  rw [ctrStopBody]
  rw [if_neg hbit]
  simp only
  split_ifs <;> rfl

/-- At `TIME` the start leaves with an error, and the counters of higher number are not started. -/
theorem ctrStartBody_one : ctrStartBody hw flags init mip 1 s = (some sbiErrorInvalidParam, s) :=
  if_pos (.inr rfl)

/-- So does the stop. -/
theorem ctrStopBody_one : ctrStopBody hw flags 1 s = (some sbiErrorInvalidParam, s) :=
  if_pos (.inr rfl)

/-- A mask of stop without counter 1 is walked to its end, since no other counter of a mask that has
passed the checks is bad. -/
theorem runUntil_ctrStop_fst {l : List ℕ} : ∀ {s : Pmu}, (∀ b ∈ l, ¬ s.badBit b) →
    (runUntil (ctrStopBody hw flags) l s).1 = none := by
  induction l with
  | nil =>
    intro s _
    rfl
  | cons b l ih =>
    intro s hl
    rw [runUntil_cons_next (ctrStopBody_fst (hl b (List.mem_cons_self ..)))]
    refine ih fun b' hb' => ?_
    rw [Pmu.badBit]
    rw [(ctrStopBody_table _ _ _ _).1]
    exact hl b' (List.mem_cons_of_mem _ hb')

/-- What the rounds of stop can free: the entries of the counters that they go through, and these
with `RESET` alone. -/
theorem runUntil_ctrStop_table (hw : PmuHw) (flags : U64) (l : List ℕ) (s : Pmu) :
    (runUntil (ctrStopBody hw flags) l s).2.avail = s.avail ∧
      ∀ c, (runUntil (ctrStopBody hw flags) l s).2.activeEvents c = s.activeEvents c ∨
        (hasFlag flags sbiPmuStopFlagReset ∧ c ∈ l) := by
  refine runUntil_inv (fun s' : Pmu => s'.avail = s.avail ∧
    ∀ c, s'.activeEvents c = s.activeEvents c ∨ (hasFlag flags sbiPmuStopFlagReset ∧ c ∈ l))
    (fun b hb s' hs' => ?_) ⟨rfl, fun c => .inl rfl⟩
  obtain ⟨hav, hact⟩ := ctrStopBody_table hw flags b s'
  refine ⟨hav.trans hs'.1, fun c => ?_⟩
  rw [hact]
  split_ifs with hfree
  · by_cases hcb : c = b
    · exact .inr ⟨hfree.2, hcb ▸ hb⟩
    · rw [Function.update_of_ne hcb]
      exact hs'.2 c
  · exact hs'.2 c

/-- **`sbi_pmu_ctr_stop`** frees programmable counters only when it succeeds,
has `RESET` and covers them. -/
theorem sbiPmuCtrStop_cases (hw : PmuHw) (havail : s.avail ≤ 32) (cbase cmask flags : U64) :
    ∃ ret out s', mcallExtPmu hw s (.stop cbase cmask flags) = some (ret, out, s') ∧
      s'.avail = s.avail ∧
      ∀ c, 3 ≤ c → s'.activeEvents c = s.activeEvents c ∨
        (ret = sbiErrorSuccess ∧ hasFlag flags sbiPmuStopFlagReset ∧
          (shl cmask cbase).getLsbD c = true) := by
  by_cases hrefused : shl cmask cbase = 0#64 ∨ s.avail < sbiFls (shl cmask cbase)
  · exact ⟨_, _, s, forCounters_of_refused hrefused, rfl, fun c _ => .inl rfl⟩
  obtain ⟨hnz, hfls⟩ := not_or.mp hrefused
  have heq := forCounters_eq (ctrStopBody hw flags) havail hnz (by omega)
  by_cases hone : (shl cmask cbase).getLsbD 1 = true
  · rw [runUntil_of_bit_one hone (fun _ => ctrStopBody_fst not_badBit_zero)
      (fun _ => ctrStopBody_one)] at heq
    obtain ⟨hav, hact⟩ := runUntil_ctrStop_table hw flags
      (indicesIn (shl cmask cbase).getLsbD 0 1) s
    refine ⟨_, _, _, heq, hav, fun c h3 => .inl ?_⟩
    rcases hact c with hc | ⟨_, hc⟩
    · exact hc
    · have := (mem_indicesIn.mp hc).2.1
      omega
  · have hbits : ∀ b ∈ indicesIn (shl cmask cbase).getLsbD 0 64, ¬ s.badBit b := by
      rintro b hb (hlt | rfl)
      · have := le_of_mem_indices (Nat.le_of_not_lt hfls) hb
        omega
      · exact hone (mem_indicesIn.mp hb).2.2
    rw [runUntil_ctrStop_fst hbits] at heq
    obtain ⟨hav, hact⟩ := runUntil_ctrStop_table hw flags
      (indicesIn (shl cmask cbase).getLsbD 0 64) s
    refine ⟨_, _, _, heq, hav, fun c _ => ?_⟩
    rcases hact c with hc | ⟨hreset, hc⟩
    · exact .inl hc
    · exact .inr ⟨rfl, hreset, (mem_indicesIn.mp hc).2.2⟩

/-! ## Runs -/

/-- The state after a call. -/
def PmuHw.next (hw : PmuHw) (s : Pmu) (c : PmuCall) : Pmu :=
  match mcallExtPmu hw s c with
  | some (_, _, s') => s'
  | none => s

/-- A call that returns leads to the state it returns. -/
theorem PmuHw.next_eq {c : PmuCall} {ret : ℤ} {out : U64} {s' : Pmu}
    (h : mcallExtPmu hw s c = some (ret, out, s')) : hw.next s c = s' := by
  rw [PmuHw.next, h]

variable {e : PmuCall}

/-- The count stays in the table. -/
theorem next_avail_le (havail : s.avail ≤ 32) : (hw.next s e).avail ≤ 32 := by
  cases e with
  | numCtr =>
    rw [PmuHw.next_eq (sbiPmuNumCtr_eq hw s)]
    exact hw.numCtr_le
  | getInfo cidx =>
    simp only [PmuHw.next, mcallExtPmu, sbiPmuCtrGetInfo]
    split_ifs <;> exact havail
  | cfgMatch cidxBase cidxMask flags eventIdx data1 =>
    obtain ⟨ret, out, s', heq, hav, _⟩ :=
      sbiPmuCtrCfgMatch_cases hw havail cidxBase cidxMask flags eventIdx data1
    rw [PmuHw.next_eq heq, hav]
    exact havail
  | start cbase cmask flags data1 mip =>
    obtain ⟨ret, out, s', heq, hav, _⟩ :=
      sbiPmuCtrStart_cases hw havail cbase cmask flags data1 mip
    rw [PmuHw.next_eq heq, hav]
    exact havail
  | stop cbase cmask flags =>
    obtain ⟨ret, out, s', heq, hav, _⟩ :=
      sbiPmuCtrStop_cases hw havail cbase cmask flags
    rw [PmuHw.next_eq heq, hav]
    exact havail

/-- No run of calls counts more counters than the table has entries. -/
theorem run_avail_le {calls : List PmuCall} (havail : s.avail ≤ 32) :
    (run hw.next s calls).avail ≤ 32 :=
  run_inv (fun s : Pmu => s.avail ≤ 32) (fun _ _ hs => next_avail_le hs) havail

/-- **Every call returns.** The loops are over the bits of a word, which end at 64 at the latest. -/
theorem mcallExtPmu_isSome (hw : PmuHw) (havail : s.avail ≤ 32) (e : PmuCall) :
    (mcallExtPmu hw s e).isSome := by
  cases e with
  | numCtr => rw [sbiPmuNumCtr_eq hw s, Option.isSome_some]
  | getInfo cidx =>
    simp only [mcallExtPmu, sbiPmuCtrGetInfo]
    split_ifs <;> rfl
  | cfgMatch cidxBase cidxMask flags eventIdx data1 =>
    obtain ⟨ret, out, s', heq, _⟩ :=
      sbiPmuCtrCfgMatch_cases hw havail cidxBase cidxMask flags eventIdx data1
    rw [heq, Option.isSome_some]
  | start cbase cmask flags data1 mip =>
    obtain ⟨ret, out, s', heq, _⟩ := sbiPmuCtrStart_cases hw havail cbase cmask flags data1 mip
    rw [heq, Option.isSome_some]
  | stop cbase cmask flags =>
    obtain ⟨ret, out, s', heq, _⟩ := sbiPmuCtrStop_cases hw havail cbase cmask flags
    rw [heq, Option.isSome_some]

/-- A hart with the fixed counters and counter 3. -/
def PmuHw.sample : PmuHw where
  mcounteren := 0xf#32
  inhibit := id

/-- The state at reset. -/
def Pmu.reset : Pmu where
  avail := 0
  activeEvents := fun _ => 0#64
  mcountinhibit := ~~~5#64
  csr := fun _ => 0#64
  log := []

end ScBl
