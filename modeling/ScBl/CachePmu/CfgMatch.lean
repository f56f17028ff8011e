import ScBl.CachePmu.L2
import ScBl.CachePmu.L3

/-!
# Configuring a counter of the cache PMUs

All that `sbi_l2_pmu_ctr_cfg_match` and `sbi_l3_pmu_ctr_cfg_match` can do, listed once
(`CfgMatchL2`, `CfgMatchL3`): the checks in their order, the search for a free counter,
and what is programmed and recorded. The L2 search ends with the last free counter, the
L3 search with the first one.
-/

namespace ScBl

open Loops CachePmu

/-! ## Free counters of the L2 PMU -/

/-- The entry is the marker. -/
def L2Free (s : L2Pmu) (c : ℕ) : Prop := s.activeEvents c = sbiPmuEventIdxInvalid

instance (s : L2Pmu) (c : ℕ) : Decidable (L2Free s c) :=
  inferInstanceAs (Decidable (s.activeEvents c = sbiPmuEventIdxInvalid))

/-- No counter is free. -/
def L2AllBusy (s : L2Pmu) : Prop := ∀ c < 4, ¬ L2Free s c

instance (s : L2Pmu) : Decidable (L2AllBusy s) := Nat.decidableBallLT 4 fun c _ => ¬ L2Free s c

/-- The free counter that the search ends with. -/
structure L2LastFree (s : L2Pmu) (c : ℕ) : Prop where
  lt : c < 4
  free : L2Free s c
  last : ∀ i, c < i → i < 4 → ¬ L2Free s i

/-- What the search has found after `n` rounds. -/
def lastFreeBelow (s : L2Pmu) : ℕ → ℤ
  | 0 => sbiErrorNotSupported
  | n + 1 => if L2Free s n then n else lastFreeBelow s n

theorem runUntil_findFreeL2 (s : L2Pmu) (n : ℕ) :
    runUntil findFreeL2Body (List.range n) (sbiErrorNotSupported, s) =
      (none, lastFreeBelow s n, readTable n s) := by
  induction n with
  | zero =>
    rw [readTable_zero]
    rfl
  | succ n ih =>
    rw [runUntil_range_succ ih rfl, findFreeL2Body]
    rw [readTable_succ]
    rfl

theorem lastFreeBelow_cases (s : L2Pmu) (n : ℕ) :
    (lastFreeBelow s n = sbiErrorNotSupported ∧ ∀ i < n, ¬ L2Free s i) ∨
      ∃ c : ℕ, lastFreeBelow s n = c ∧ c < n ∧ L2Free s c ∧
        ∀ i, c < i → i < n → ¬ L2Free s i := by
  induction n with
  | zero => exact .inl ⟨rfl, fun i hi => absurd hi (Nat.not_lt_zero i)⟩
  | succ n ih =>
    rw [lastFreeBelow]
    by_cases hfree : L2Free s n
    · rw [if_pos hfree]
      exact .inr ⟨n, rfl, by omega, hfree, fun i h1 h2 => by omega⟩
    · rw [if_neg hfree]
      have hnext : ∀ {i}, i < n + 1 → ¬ i < n → ¬ L2Free s i := by
        intro i h1 h2
        obtain rfl : i = n := by omega
        exact hfree
      rcases ih with ⟨hnone, hbusy⟩ | ⟨c, hc, hlt, hcfree, hlast⟩
      · refine .inl ⟨hnone, fun i hi => ?_⟩
        by_cases hin : i < n
        · exact hbusy i hin
        · exact hnext hi hin
      · refine .inr ⟨c, hc, by omega, hcfree, fun i h1 h2 => ?_⟩
        by_cases hin : i < n
        · exact hlast i h1 hin
        · exact hnext h2 hin

/-- **The search** returns the last free counter, and only reads the table. -/
theorem findFreeL2Ctr_eq (s : L2Pmu) :
    (findFreeL2Ctr s).2 = readTable 4 s ∧
      ((L2AllBusy s ∧ (findFreeL2Ctr s).1 = sbiErrorNotSupported) ∨
        ∃ c, L2LastFree s c ∧ (findFreeL2Ctr s).1 = c) := by
  have heq : findFreeL2Ctr s = (lastFreeBelow s 4, readTable 4 s) := by
    rw [findFreeL2Ctr, scrL2PmuCtrNum, runUntil_findFreeL2]
  rw [heq]
  refine ⟨rfl, ?_⟩
  rcases lastFreeBelow_cases s 4 with ⟨hnone, hbusy⟩ | ⟨c, hc, hlt, hfree, hlast⟩
  · exact .inl ⟨hbusy, hnone⟩
  · exact .inr ⟨c, ⟨hlt, hfree, hlast⟩, hc⟩

/-! ## Configuring an L2 counter -/

section CfgMatch

variable (hw : L2Hw) (s : L2Pmu) (cidxBase cidxMask flags eventIdx data1 : U64)

/-- Counter `c` is programmed and recorded. -/
def programL2 (c : ℕ) : L2Pmu :=
  (scrL2PmuCtrWriteEvent hw (BitVec.ofNat 32 c) (data1 ||| l2EventType eventIdx)
    (readTable 4 s)).writeActive c (eventIdx.setWidth 32)

/-- **The outcomes of `sbi_l2_pmu_ctr_cfg_match`.** -/
inductive CfgMatchL2 : L2Result → Prop
  /-- The sanity check fails. -/
  | refused (href : hw.RefusesCfgMatch cidxBase cidxMask eventIdx data1) :
    CfgMatchL2 (sbiErrorInvalidParam, 0#64, s)
  /-- `SKIP_MATCH` of a counter that is not configured. -/
  | skipFree (hok : ¬ hw.RefusesCfgMatch cidxBase cidxMask eventIdx data1)
    (hskip : hasFlag flags sbiPmuCfgFlagSkipMatch) (hfree : L2Free s cidxBase.toNat) :
    CfgMatchL2 (sbiErrorInvalidParam, 0#64, s.readActive cidxBase.toNat)
  | skip (hok : ¬ hw.RefusesCfgMatch cidxBase cidxMask eventIdx data1)
    (hskip : hasFlag flags sbiPmuCfgFlagSkipMatch) (hbusy : ¬ L2Free s cidxBase.toNat) :
    CfgMatchL2 (l2SkipMatch hw flags (cidxBase.setWidth 32) (s.readActive cidxBase.toNat))
  /-- The event does not exist. -/
  | noEvent (hok : ¬ hw.RefusesCfgMatch cidxBase cidxMask eventIdx data1)
    (hmatch : ¬ hasFlag flags sbiPmuCfgFlagSkipMatch)
    (hevent : hw.scrL2CacheEvents ≤ eventIdx.toNat) :
    CfgMatchL2 (sbiErrorNotSupported, 0#64, s)
  /-- All counters are taken. -/
  | full (hok : ¬ hw.RefusesCfgMatch cidxBase cidxMask eventIdx data1)
    (hmatch : ¬ hasFlag flags sbiPmuCfgFlagSkipMatch)
    (hevent : eventIdx.toNat < hw.scrL2CacheEvents) (hbusy : L2AllBusy s) :
    CfgMatchL2 (sbiErrorNotSupported, 0#64, readTable 4 s)
  | found (hok : ¬ hw.RefusesCfgMatch cidxBase cidxMask eventIdx data1)
    (hmatch : ¬ hasFlag flags sbiPmuCfgFlagSkipMatch)
    (hevent : eventIdx.toNat < hw.scrL2CacheEvents) (c : ℕ) (hc : L2LastFree s c) :
    CfgMatchL2 (l2SkipMatch hw flags (BitVec.ofNat 32 c) (programL2 hw s eventIdx data1 c))

theorem sbiL2PmuCtrCfgMatch_spec :
    CfgMatchL2 hw s cidxBase cidxMask flags eventIdx data1
      (sbiL2PmuCtrCfgMatch hw cidxBase cidxMask flags eventIdx data1 s) := by
  rw [sbiL2PmuCtrCfgMatch]
  by_cases href : hw.RefusesCfgMatch cidxBase cidxMask eventIdx data1
  · rw [if_pos href]
    exact .refused href
  rw [if_neg href]
  by_cases hskip : hasFlag flags sbiPmuCfgFlagSkipMatch
  · rw [if_pos hskip]
    by_cases hfree : s.activeEvents cidxBase.toNat = sbiPmuEventIdxInvalid
    · simp only [if_pos hfree]
      exact .skipFree href hskip hfree
    · simp only [if_neg hfree]
      exact .skip href hskip hfree
  rw [if_neg hskip]
  by_cases hevent : hw.scrL2CacheEvents ≤ eventIdx.toNat
  · rw [if_pos hevent]
    exact .noEvent href hskip hevent
  rw [if_neg hevent]
  obtain ⟨hlog, ⟨hbusy, hret⟩ | ⟨c, hc, hret⟩⟩ := findFreeL2Ctr_eq s
  · simp only [hret, hlog]
    rw [if_pos (by decide)]
    exact .full href hskip (Nat.lt_of_not_le hevent) hbusy
  · simp only [hret, hlog]
    rw [if_neg (by omega), Int.toNat_natCast]
    exact .found href hskip (Nat.lt_of_not_le hevent) c hc

end CfgMatch

/-! ## Free counters of the L3 PMU -/

section L3

variable {s : L3Pmu} {c : ℕ}

/-- The counter is configured. -/
def CachePmu.Busy (s : L3Pmu) (c : ℕ) : Prop := (s.activeEvents c).IsActive

instance (s : L3Pmu) (c : ℕ) : Decidable (s.Busy c) :=
  inferInstanceAs (Decidable (s.activeEvents c).IsActive)

/-- The free counter that the search ends with. -/
structure L3FirstFree (s : L3Pmu) (c : ℕ) : Prop where
  lt : c < 4
  free : ¬ s.Busy c
  first : ∀ i < c, s.Busy i

/-- Only one counter is the first free one. -/
theorem L3FirstFree.unique {c' : ℕ} (h : L3FirstFree s c) (h' : L3FirstFree s c') : c = c' := by
  rcases Nat.lt_trichotomy c c' with hlt | heq | hlt
  · exact absurd (h'.first c hlt) h.free
  · exact heq
  · exact absurd (h.first c' hlt) h'.free

/-- The search goes past counters that are taken. -/
theorem runUntil_findFreeL3_of_busy {n : ℕ} (hbusy : ∀ i < n, s.Busy i) :
    runUntil findFreeL3Body (List.range n) s = (none, readTable n s) := by
  induction n with
  | zero =>
    rw [readTable_zero]
    rfl
  | succ n ih =>
    have hn : (s.activeEvents n).IsActive := hbusy n (Nat.lt_succ_self n)
    have hbody : findFreeL3Body n (readTable n s) = (none, (readTable n s).readActive n) :=
      if_neg (not_not.mpr hn)
    rw [runUntil_range_succ (ih fun i hi => hbusy i (by omega)) (by rw [hbody]), hbody,
      readTable_succ]

/-- **The search** returns the first free counter, and only reads the table. It has read the entries
up to that counter, or all four of them where each one is in use. -/
theorem findFreeL3Ctr_eq (s : L3Pmu) :
    ((∀ i < 4, s.Busy i) ∧ findFreeL3Ctr s = (none, readTable 4 s)) ∨
      ∃ c, L3FirstFree s c ∧ findFreeL3Ctr s = (some c, readTable (c + 1) s) := by
  by_cases hfree : ∃ c, c < 4 ∧ ¬ s.Busy c
  · classical
    obtain ⟨hlt, hc⟩ := Nat.find_spec hfree
    have hfirst : ∀ i < Nat.find hfree, s.Busy i := by
      intro i hi
      by_contra hnot
      exact Nat.find_min hfree hi ⟨by omega, hnot⟩
    have hexit : findFreeL3Body (Nat.find hfree) (readTable (Nat.find hfree) s) =
        (some (Nat.find hfree), (readTable (Nat.find hfree) s).readActive (Nat.find hfree)) :=
      if_pos hc
    refine .inr ⟨Nat.find hfree, ⟨hlt, hc, hfirst⟩, ?_⟩
    rw [findFreeL3Ctr, scrL3PmuCounters, runUntil_range_exit hlt
      (runUntil_findFreeL3_of_busy hfirst) (by rw [hexit]), hexit, readTable_succ]
  · push Not at hfree
    exact .inl ⟨hfree, runUntil_findFreeL3_of_busy hfree⟩

end L3

/-! ## Configuring an L3 counter -/

section CfgMatch

variable (hw : L3Hw) (s : L3Pmu) (cidxBase cidxMask flags eventIdx data1 : U64)

/-- The checks that come first: some bank, and an event of the cache. -/
def L3Hw.AcceptsEvent (hw : L3Hw) (eventIdx data1 : U64) : Prop :=
  scrL3BanksMaskNum data1 ≠ 0#32 ∧ ¬ hw.RefusesEvent eventIdx

/-- Counter `c` is recorded. -/
def programL3 (c : ℕ) : L3Pmu :=
  (readTable (c + 1) s).writeActive c
    { ctrl := l3EventType eventIdx
      banksMask := scrL3BanksMaskNum data1 &&& hw.supportedBanksMask
      banks := BitVec.ofNat 32 (popcount (scrL3BanksMaskNum data1 &&& hw.supportedBanksMask)) }

/-- **The outcomes of `sbi_l3_pmu_ctr_cfg_match`.** -/
inductive CfgMatchL3 : L3Result → Prop
  | noBanks (hbanks : scrL3BanksMaskNum data1 = 0#32) :
    CfgMatchL3 (sbiErrorInvalidParam, 0#64, s)
  /-- The event does not exist. -/
  | noEvent (hbanks : scrL3BanksMaskNum data1 ≠ 0#32) (hevent : hw.RefusesEvent eventIdx) :
    CfgMatchL3 (sbiErrorNotSupported, 0#64, s)
  /-- `SKIP_MATCH` of a counter that is not there. -/
  | skipBeyond (hok : hw.AcceptsEvent eventIdx data1)
    (hskip : hasFlag flags sbiPmuCfgFlagSkipMatch) (hc : 4 ≤ sbiFfs (shl cidxMask cidxBase)) :
    CfgMatchL3 (sbiErrorInvalidParam, 0#64, s)
  /-- `SKIP_MATCH` of a counter that is not configured. -/
  | skipFree (hok : hw.AcceptsEvent eventIdx data1)
    (hskip : hasFlag flags sbiPmuCfgFlagSkipMatch) (hc : sbiFfs (shl cidxMask cidxBase) < 4)
    (hfree : ¬ s.Busy (sbiFfs (shl cidxMask cidxBase))) :
    CfgMatchL3 (sbiErrorInvalidParam, 0#64, s.readActive (sbiFfs (shl cidxMask cidxBase)))
  | skip (hok : hw.AcceptsEvent eventIdx data1)
    (hskip : hasFlag flags sbiPmuCfgFlagSkipMatch) (hc : sbiFfs (shl cidxMask cidxBase) < 4)
    (hbusy : s.Busy (sbiFfs (shl cidxMask cidxBase))) :
    CfgMatchL3 (l3SkipMatch hw flags (scrL3BanksMaskNum data1) (l3EventType eventIdx)
      (sbiFfs (shl cidxMask cidxBase)) (s.readActive (sbiFfs (shl cidxMask cidxBase))))
  /-- The mask has a counter that is not there. -/
  | beyond (hok : hw.AcceptsEvent eventIdx data1)
    (hmatch : ¬ hasFlag flags sbiPmuCfgFlagSkipMatch) (hfls : 4 ≤ sbiFls (shl cidxMask cidxBase)) :
    CfgMatchL3 (sbiErrorNotSupported, 0#64, s)
  /-- All counters are taken. -/
  | full (hok : hw.AcceptsEvent eventIdx data1)
    (hmatch : ¬ hasFlag flags sbiPmuCfgFlagSkipMatch) (hfls : sbiFls (shl cidxMask cidxBase) < 4)
    (hbusy : ∀ i < 4, s.Busy i) :
    CfgMatchL3 (sbiErrorNotSupported, 0#64, readTable 4 s)
  /-- None of the banks is there. -/
  | noSupport (hok : hw.AcceptsEvent eventIdx data1)
    (hmatch : ¬ hasFlag flags sbiPmuCfgFlagSkipMatch) (hfls : sbiFls (shl cidxMask cidxBase) < 4)
    (c : ℕ) (hc : L3FirstFree s c)
    (hpop : popcount (scrL3BanksMaskNum data1 &&& hw.supportedBanksMask) = 0) :
    CfgMatchL3 (sbiErrorInvalidParam, 0#64, readTable (c + 1) s)
  | found (hok : hw.AcceptsEvent eventIdx data1)
    (hmatch : ¬ hasFlag flags sbiPmuCfgFlagSkipMatch) (hfls : sbiFls (shl cidxMask cidxBase) < 4)
    (c : ℕ) (hc : L3FirstFree s c)
    (hpop : popcount (scrL3BanksMaskNum data1 &&& hw.supportedBanksMask) ≠ 0) :
    CfgMatchL3 (l3SkipMatch hw flags (scrL3BanksMaskNum data1 &&& hw.supportedBanksMask)
      (l3EventType eventIdx) c (programL3 hw s eventIdx data1 c))

theorem sbiL3PmuCtrCfgMatch_spec :
    CfgMatchL3 hw s cidxBase cidxMask flags eventIdx data1
      (sbiL3PmuCtrCfgMatch hw cidxBase cidxMask flags eventIdx data1 s) := by
  rw [sbiL3PmuCtrCfgMatch]
  by_cases hbanks : scrL3BanksMaskNum data1 = 0#32
  · rw [if_pos hbanks]
    exact .noBanks hbanks
  rw [if_neg hbanks]
  by_cases hevent : hw.RefusesEvent eventIdx
  · rw [if_pos hevent]
    exact .noEvent hbanks hevent
  rw [if_neg hevent]
  have hok : hw.AcceptsEvent eventIdx data1 := ⟨hbanks, hevent⟩
  by_cases hskip : hasFlag flags sbiPmuCfgFlagSkipMatch
  · rw [if_pos hskip]
    by_cases hc : scrL3PmuCounters ≤ sbiFfs (shl cidxMask cidxBase)
    · rw [if_pos hc]
      exact .skipBeyond hok hskip hc
    rw [if_neg hc]
    by_cases hbusy : (s.activeEvents (sbiFfs (shl cidxMask cidxBase))).IsActive
    · rw [if_neg (not_not.mpr hbusy)]
      exact .skip hok hskip (Nat.lt_of_not_le hc) hbusy
    · rw [if_pos hbusy]
      exact .skipFree hok hskip (Nat.lt_of_not_le hc) hbusy
  rw [if_neg hskip]
  by_cases hfls : scrL3PmuCounters ≤ sbiFls (shl cidxMask cidxBase)
  · rw [if_pos hfls]
    exact .beyond hok hskip hfls
  rw [if_neg hfls]
  have hlt : sbiFls (shl cidxMask cidxBase) < 4 := Nat.lt_of_not_le hfls
  rcases findFreeL3Ctr_eq s with ⟨hbusy, heq⟩ | ⟨c, hc, heq⟩
  · rw [heq]
    exact .full hok hskip hlt hbusy
  · rw [heq]
    simp only
    by_cases hpop : popcount (scrL3BanksMaskNum data1 &&& hw.supportedBanksMask) = 0
    · rw [if_pos hpop]
      exact .noSupport hok hskip hlt c hc hpop
    · rw [if_neg hpop]
      exact .found hok hskip hlt c hc hpop

end CfgMatch

end ScBl
