import ScBl.Sbi.MaskLoop

/-!
# The fast path and the dispatcher agree, or not

What the fast path and `mmode_trap_handler` make of the same call. They differ in
the treatment of negative mask bases, of unknown functions of the IPI extension,
and of a null mask pointer where the null page maps to memory
(`fastPath_agrees_iff`).
-/

namespace ScBl

open Rv

variable {plf : SbiPlf} {s : SbiHart} {self : ℕ} {mask mask' : U64} {n : ℕ}

namespace SbiHart

/-! ## Signals -/

/-- Bits of a mask from `n` on are for no hart. -/
theorem signals_congr (h : ∀ i < n, mask.getLsbD i = mask'.getLsbD i) :
    s.signals plf self mask n = s.signals plf self mask' n := by
  rw [signals, signals, List.filter_congr fun i hi => h i (List.mem_range.mp hi)]

/-- A smaller mask with as many harts has the same ones. So two lists of signals in any order tell
whether the masks agree. -/
theorem bits_of_length_signals (hsub : ∀ i < n, mask.getLsbD i = true → mask'.getLsbD i = true)
    (hlength : (s.signals plf self mask n).length = (s.signals plf self mask' n).length) :
    ∀ i < n, mask'.getLsbD i = true → mask.getLsbD i = true := by
  rw [signals, signals, List.length_map, List.length_map] at hlength
  have hfilter : ((List.range n).filter fun i => mask'.getLsbD i).filter (fun i => mask.getLsbD i) =
      (List.range n).filter fun i => mask.getLsbD i := by
    rw [List.filter_filter]
    refine List.filter_congr fun i hi => ?_
    have hi := hsub i (List.mem_range.mp hi)
    rcases hbit : mask.getLsbD i with _ | _
    · simp
    · simp [hi hbit]
  have heq := (hfilter ▸ List.filter_sublist).eq_of_length hlength
  intro i hi hbit
  have hmem : i ∈ (List.range n).filter fun i => mask'.getLsbD i :=
    List.mem_filter.mpr ⟨List.mem_range.mpr hi, hbit⟩
  rw [← heq] at hmem
  exact (List.mem_filter.mp hmem).2

/-- The others of a mask. -/
theorem map_loopTargets (h : mask'.getLsbD self = false) :
    ((loopTargets n 0 mask').map fun i =>
        s.ipiSendData plf ((s.ipiN (plf.hartTls i)).setWidth 32)
          (plf.packScipiMsg scrIpiCmdSignal)) = s.signals plf self mask' n := by
  rw [loopTargets_eq, signals, ← List.range_eq_range']
  refine List.map_congr_left fun i hi => ?_
  have hbit : mask'.getLsbD i = true := by simpa using (List.mem_filter.mp hi).2
  have hne : i ≠ self := by
    rintro rfl
    rw [h] at hbit
    cases hbit
  rw [signal, if_neg hne]

/-- The own signal, and the others. The dispatcher sends the own one before all others, and the loop
of the fast path where the hart has its turn. -/
theorem perm_signals (plf : SbiPlf) (hself : self < n) (hown : mask.getLsbD self = true)
    (hmask : ∀ i, mask'.getLsbD i = (mask.getLsbD i && decide (i ≠ self))) :
    (s.signal plf self self :: s.signals plf self mask' n).Perm (s.signals plf self mask n) := by
  have hmem : self ∈ (List.range n).filter fun i => mask.getLsbD i :=
    List.mem_filter.mpr ⟨List.mem_range.mpr hself, hown⟩
  have herase : ((List.range n).filter fun i => mask.getLsbD i).erase self =
      (List.range n).filter fun i => mask'.getLsbD i := by
    rw [(List.nodup_range.filter _).erase_eq_filter, List.filter_filter]
    refine List.filter_congr fun i _ => ?_
    rw [hmask, Bool.and_comm]
    by_cases hi : i = self <;> simp [hi]
  have hperm := (List.perm_cons_erase hmem).symm.map (s.signal plf self)
  rwa [herase, List.map_cons] at hperm

/-- **`mcall_signal`** sends the signals of the mask, the own one first. What counts is which harts
are signalled, and not in which order. -/
theorem perm_mcallSignal (hself : self < s.numHarts.toNat) (hn : s.numHarts.toNat < 64) :
    (s.mcallSignal plf self mask).effects.Perm
      (s.effects ++ s.signals plf self mask s.numHarts.toNat) := by
  have hlt : self < 64 := by omega
  rw [mcallSignal, Nat.mod_eq_of_lt hlt]
  simp only [ne_eq, ite_not, Words.and_oneBit_eq_zero hlt]
  by_cases hown : mask.getLsbD self = false
  · rw [if_pos hown, sendSignalLoop, map_loopTargets hown]
  · rw [if_neg hown, sendSignalLoop]
    rw [Bool.not_eq_false] at hown
    have hmask := Words.getLsbD_and_not_oneBit hlt mask
    have hothers : (mask &&& ~~~(1#64 <<< self)).getLsbD self = false := by
      rw [hmask]
      simp
    have hsignal : s.signal plf self self = .setMip (1#64 <<< intSmSoftware) := if_pos rfl
    have hperm := perm_signals (s := s) plf hself hown hmask
    rw [hsignal, ← map_loopTargets hothers] at hperm
    rw [effect, List.append_assoc]
    exact hperm.append_left _

/-! ## Entry -/

/-- The hart past the saves of the trap handler, for a call in state `s`. -/
structure Entered (s e : SbiHart) : Prop where
  frame : e = { s with x := e.x, xreg := e.xreg, mscratch := e.mscratch }
  sp : e.x.get .sp = s.mscratch
  a6 : e.x.get .a6 = s.x.get .a6
  arg0 : e.xreg.get .a0 = s.x.get .a0
  arg1 : e.xreg.get .a1 = s.x.get .a1

/-- The hart past a test of the call number, which leaves `v` in `a1`. -/
def atTest (s : SbiHart) (v : U64) : SbiHart :=
  (((s.swapSp.saveReg .a0).saveReg .a1).exec (·.li .a0 s.mcause)).exec (·.li .a1 v)

/-- At each test of the fast path the registers of the call are in the storage. -/
theorem atTest_entered (s : SbiHart) (v : U64) : Entered s (s.atTest v) := by
  refine ⟨rfl, ?_, ?_, ?_, ?_⟩
  all_goals simp [atTest, exec, saveReg, swapSp, RegFile.li]

/-- The tests of the call number, with what each of them leaves in `a1`. A number that none of them
knows goes on to the C handler. -/
theorem trapHander_ecall (plf : SbiPlf) (hecall : s.mcause = excSmEcall) :
    s.trapHander plf =
      if sbiSendIpi = s.x.get .a7 then .mret ((s.atTest sbiSendIpi).sbiCallSendIpi plf)
      else if sbiSetTimer = s.x.get .a7 then .mret ((s.atTest sbiSetTimer).lsbiCallTimerRet plf)
      else if sbiExtTime = s.x.get .a7 then .mret ((s.atTest sbiExtTime).sbi02CallSetTimer plf)
      else if sbiExtIpi = s.x.get .a7 then .mret ((s.atTest sbiExtIpi).sbi02CallSendIpi plf)
      else if sbiClearIpi = s.x.get .a7 then .mret (s.atTest sbiClearIpi).sbiCallClearIpi
      else .handleTrapInMachineMode (s.atTest sbiClearIpi) := by
  have hpos : ¬ excSmEcall.slt 0#64 := by decide
  have htlb : excTlbMiss ≠ excSmEcall := by decide
  simp [trapHander, atTest, exec, saveReg, swapSp, RegFile.li, hecall, hpos, htlb]

/-! ## Returns -/

/-- A call in state `s` that returns `retval` at the next instruction, with more effects. -/
structure Returns (s t : SbiHart) (retval : U64) (more : List SbiEffect) : Prop where
  a0 : t.x.get .a0 = retval
  mepc : t.mepc = s.mepc + 4#64
  effects : t.effects.Perm (s.effects ++ more)

variable {e t : SbiHart} {v : U64} {more : List SbiEffect}

/-- The end of a legacy call: no error, past the `ecall`, and nothing done. -/
theorem Entered.returns_mtrapScallRet (h : Entered s e) : Returns s e.mtrapScallRet 0#64 [] := by
  refine ⟨mtrapScallRet_a0, ?_, ?_⟩
  · rw [mtrapScallRet_mepc, h.frame]
  · rw [mtrapScallRet_effects, h.frame, List.append_nil]

/-- The end of a call with a function that is not known: the error is `SBI_ERR_NOT_SUPPORTED`. -/
theorem Entered.returns_sbi02CallRetErr (h : Entered s e) :
    Returns s e.sbi02CallRetErr (-2#64) [] := by
  refine ⟨sbi02CallRetErr_a0, ?_, ?_⟩
  · rw [sbi02CallRetErr_mepc, h.frame]
  · rw [sbi02CallRetErr_effects, h.frame, List.append_nil]

/-- `.Lipi_send_masked` with the mask `mask`, reached from the entry. It sends the last hart first,
which is a permutation of the signals. -/
theorem Entered.returns_lipiSendMasked (h : Entered s e)
    (ht : t = { e with x := t.x, xreg := t.xreg }) (hsp : t.x.get .sp = e.x.get .sp)
    (hmask : t.x.get .a3 = mask) (hmscratch : s.mscratch = plf.hartTls self) (hself : self < 64)
    (hn : s.numHarts.toNat < 64) :
    Returns s (t.lipiSendMasked plf) 0#64 (s.signals plf self mask s.numHarts.toNat) := by
  have hframe : t = { s with x := t.x, xreg := t.xreg, mscratch := e.mscratch } := by
    rw [ht, h.frame]
  have hnumHarts : t.numHarts = s.numHarts := by rw [hframe]
  obtain ⟨heffects, ha0, hmepc⟩ := lipiSendMasked_spec (s := t)
    (by rwa [hnumHarts]) hself (hsp.trans (h.sp.trans hmscratch))
  refine ⟨ha0, ?_, ?_⟩
  · rw [hmepc, hframe]
  · rw [heffects, hmask, hframe]
    exact (List.reverse_perm _).append_left _

/-- The mask that the fast path reads at `pmask`. -/
def fastPmask2mask (plf : SbiPlf) (s : SbiHart) (pmask : U64) : U64 :=
  if plf.pa pmask < plf.memBase ∨ plf.memBase + plf.memSize ≤ plf.pa pmask then s.hartsOnline
  else s.mem (plf.pa pmask) &&& s.hartsOnline

/-- `a2` and `a3` saved, and other registers in use. -/
def saved (e : SbiHart) (x : RegFile 64) : SbiHart :=
  { e with x := x, xreg := (e.xreg.set .a2 (e.x.get .a2)).set .a3 (e.x.get .a3) }

/-- `sbi_call_send_ipi` in front of `.Lipi_send_masked`. -/
theorem Entered.sbiCallSendIpi_eq (plf : SbiPlf) (h : Entered s e) :
    ∃ x, e.sbiCallSendIpi plf = (e.saved x).lipiSendMasked plf ∧
      x.get .a3 = s.fastPmask2mask plf (s.x.get .a0) ∧
      ∀ r ∉ [.a0, .a1, .a2, .a3], x.get r = e.x.get r := by
  have hpa : e.xreg.get .a0 - (plf.pageOffset - plf.memBase) = plf.pa (s.x.get .a0) := by
    rw [h.arg0, SbiPlf.pa]
  have honline : e.hartsOnline = s.hartsOnline := by rw [h.frame]
  have hmem : e.mem = s.mem := by rw [h.frame]
  simp (disch := decide) only [sbiCallSendIpi, exec, saveReg, loadReg, RegFile.li, RegFile.sub,
    RegFile.and, RegFile.get_set_self, RegFile.get_set_of_ne, hpa]
  simp only [List.mem_cons, List.not_mem_nil, or_false, not_or]
  by_cases hlow : plf.pa (s.x.get .a0) < plf.memBase
  · rw [if_pos hlow, fastPmask2mask, if_pos (.inl hlow)]
    exact ⟨_, rfl, by simp [honline], fun r hr => by simp [hr]⟩
  · rw [if_neg hlow]
    by_cases hhigh : plf.memBase + plf.memSize ≤ plf.pa (s.x.get .a0)
    · rw [if_pos hhigh, fastPmask2mask, if_pos (.inr hhigh)]
      exact ⟨_, rfl, by simp [honline], fun r hr => by simp [hr]⟩
    · rw [if_neg hhigh, fastPmask2mask, if_neg (not_or.mpr ⟨hlow, hhigh⟩)]
      exact ⟨_, rfl, by simp [honline, hmem], fun r hr => by simp [hr]⟩

/-- The legacy call signals the harts of the mask that its pointer leads to, the own hart by the bit
of its `mip`. -/
theorem Entered.returns_sbiCallSendIpi (h : Entered s e) (hmscratch : s.mscratch = plf.hartTls self)
    (hself : self < 64) (hn : s.numHarts.toNat < 64) :
    Returns s (e.sbiCallSendIpi plf) 0#64
      (s.signals plf self (s.fastPmask2mask plf (s.x.get .a0)) s.numHarts.toNat) := by
  obtain ⟨x, heq, hmask, hregs⟩ := h.sbiCallSendIpi_eq plf
  rw [heq]
  exact h.returns_lipiSendMasked rfl (hregs .sp (by decide)) hmask hmscratch hself hn

/-- The mask that the fast path makes of a mask and its base. -/
def fastMaskoff2mask (s : SbiHart) (mask offs : U64) : U64 :=
  if (64#64).sle offs then 0#64
  else if offs.slt 0#64 then s.hartsOnline
  else s.hartsOnline &&& mask <<< (offs.toNat % 64)

theorem signals_zero : s.signals plf self 0#64 n = [] := by
  simp [signals]

/-- A base past the width of a mask: nothing is sent, and the call succeeds. -/
theorem Entered.sbi02CallSendIpi_of_sle (plf : SbiPlf) (h : Entered s e)
    (hfn : s.x.get .a6 = 0#64) (hbig : (64#64).sle (s.x.get .a1)) :
    ∃ x, e.sbi02CallSendIpi plf = mtrapScallRet { e with x := x } ∧
      ∀ r, r ≠ .a0 → r ≠ .a1 → x.get r = e.x.get r := by
  have hfn' : ¬ e.x.get .a6 ≠ 0#64 := by rw [h.a6, hfn, not_not]
  rw [sbi02CallSendIpi, if_neg hfn']
  simp (disch := decide) only [exec, loadReg, RegFile.li, RegFile.get_set_self,
    RegFile.get_set_of_ne, h.arg1]
  rw [if_pos hbig]
  exact ⟨_, rfl, fun r h0 h1 => by simp [h0, h1]⟩

/-- `sbi02_call_send_ipi` in front of `.Lipi_send_masked`. -/
theorem Entered.sbi02CallSendIpi_eq (plf : SbiPlf) (h : Entered s e) (hfn : s.x.get .a6 = 0#64)
    (hbig : ¬ (64#64).sle (s.x.get .a1)) :
    ∃ x, e.sbi02CallSendIpi plf = (e.saved x).lipiSendMasked plf ∧
      x.get .a3 = s.fastMaskoff2mask (s.x.get .a0) (s.x.get .a1) ∧
      ∀ r ∉ [.a0, .a1, .a2, .a3], x.get r = e.x.get r := by
  have honline : e.hartsOnline = s.hartsOnline := by rw [h.frame]
  have hfn' : ¬ e.x.get .a6 ≠ 0#64 := by rw [h.a6, hfn, not_not]
  rw [sbi02CallSendIpi, if_neg hfn']
  simp (disch := decide) only [exec, saveReg, loadReg, RegFile.li, RegFile.sll, RegFile.and,
    RegFile.get_set_self, RegFile.get_set_of_ne, h.arg1]
  simp only [List.mem_cons, List.not_mem_nil, or_false, not_or]
  rw [if_neg hbig, fastMaskoff2mask, if_neg hbig]
  by_cases hneg : (s.x.get .a1).slt 0#64
  · rw [if_pos hneg, if_pos hneg]
    exact ⟨_, rfl, by simp [honline], fun r hr => by simp [hr]⟩
  · rw [if_neg hneg, if_neg hneg]
    exact ⟨_, rfl, by simp [honline, h.arg0], fun r hr => by simp [hr]⟩

/-- The call with mask and base signals the harts of the mask that the base has shifted. -/
theorem Entered.returns_sbi02CallSendIpi (h : Entered s e) (hfn : s.x.get .a6 = 0#64)
    (hmscratch : s.mscratch = plf.hartTls self) (hself : self < 64) (hn : s.numHarts.toNat < 64) :
    Returns s (e.sbi02CallSendIpi plf) 0#64
      (s.signals plf self (s.fastMaskoff2mask (s.x.get .a0) (s.x.get .a1)) s.numHarts.toNat) := by
  by_cases hbig : (64#64).sle (s.x.get .a1)
  · rw [fastMaskoff2mask, if_pos hbig, signals_zero]
    obtain ⟨x, heq, hregs⟩ := h.sbi02CallSendIpi_of_sle plf hfn hbig
    have hx : Entered s { e with x := x } :=
      ⟨by rw [h.frame], (hregs .sp (by decide) (by decide)).trans h.sp,
        (hregs .a6 (by decide) (by decide)).trans h.a6, h.arg0, h.arg1⟩
    rw [heq]
    exact hx.returns_mtrapScallRet
  · obtain ⟨x, heq, hmask, hregs⟩ := h.sbi02CallSendIpi_eq plf hfn hbig
    rw [heq]
    exact h.returns_lipiSendMasked rfl (hregs .sp (by decide)) hmask hmscratch hself hn

theorem Entered.returns_sbi02CallSendIpi_err (h : Entered s e) (hfn : s.x.get .a6 ≠ 0#64) :
    Returns s (e.sbi02CallSendIpi plf) (-2#64) [] := by
  have hfn' : e.x.get .a6 ≠ 0#64 := by rwa [h.a6]
  rw [sbi02CallSendIpi, if_pos hfn']
  exact h.returns_sbi02CallRetErr

/-- What setting the timer does. -/
def timerEffects (plf : SbiPlf) (when_ : U64) : List SbiEffect :=
  [.setCmp plf.mtimerBase when_, .clearMip (1#64 <<< intSmTimer), .setMie (1#64 <<< intMmTimer)]

/-- The timer is set, its pending bit cleared, and its interrupt enabled. -/
theorem Entered.returns_lsbiCallTimerRet (h : Entered s e) :
    Returns s (e.lsbiCallTimerRet plf) 0#64 (timerEffects plf (s.x.get .a0)) := by
  refine ⟨mtrapScallRet_a0, ?_, ?_⟩
  · rw [lsbiCallTimerRet, mtrapScallRet_mepc, h.frame]
    rfl
  · rw [lsbiCallTimerRet, mtrapScallRet_effects, timerEffects]
    simp [exec, effect, loadReg, RegFile.li, h.arg0]
    rw [h.frame]

/-- The call with a function number does the same for function 0, and refuses all others. -/
theorem Entered.returns_sbi02CallSetTimer (h : Entered s e) :
    Returns s (e.sbi02CallSetTimer plf) (if s.x.get .a6 ≠ 0#64 then -2#64 else 0#64)
      (if s.x.get .a6 ≠ 0#64 then [] else timerEffects plf (s.x.get .a0)) := by
  rw [sbi02CallSetTimer, h.a6]
  by_cases hfn : s.x.get .a6 ≠ 0#64
  · rw [if_pos hfn, if_pos hfn, if_pos hfn]
    exact h.returns_sbi02CallRetErr
  · rw [if_neg hfn, if_neg hfn, if_neg hfn]
    exact h.returns_lsbiCallTimerRet

theorem Entered.returns_sbiCallClearIpi (h : Entered s e) :
    Returns s e.sbiCallClearIpi 0#64 [.clearMip (1#64 <<< intSmSoftware)] := by
  refine ⟨mtrapScallRet_a0, ?_, ?_⟩
  · rw [sbiCallClearIpi, mtrapScallRet_mepc, h.frame]
    rfl
  · rw [sbiCallClearIpi, mtrapScallRet_effects, h.frame]
    rfl

/-! ## The dispatcher -/

/-- What `slowPath` makes of the result of `mmode_trap_handler`. -/
theorem returns_slowPath {effects : List SbiEffect}
    (h : mmodeTrapHandler plf { s with xreg := s.x } self =
      some ({ s with xreg := s.x, effects := effects }, v))
    (heffects : effects.Perm (s.effects ++ more)) :
    ∃ slow, s.slowPath plf self = some slow ∧ Returns s slow v more := by
  refine ⟨_, by rw [slowPath, h]; rfl, ⟨?_, rfl, heffects⟩⟩
  exact RegFile.get_set_self (by decide)

/-- `mcall_signal` has effects, and changes no register. -/
theorem mcallSignal_frame :
    s.mcallSignal plf self mask = { s with effects := (s.mcallSignal plf self mask).effects } := by
  rw [mcallSignal]
  by_cases hown : mask &&& 1#64 <<< (self % 64) ≠ 0#64
  · rw [if_pos hown]
    rfl
  · rw [if_neg hown]
    rfl

/-- The dispatcher on the legacy call. It signals the harts of a mask that it reads by itself. -/
theorem slowPath_sendIpi (h7 : s.x.get .a7 = sbiSendIpi) (hself : self < s.numHarts.toNat)
    (hn : s.numHarts.toNat < 64) :
    ∃ slow, s.slowPath plf self = some slow ∧ Returns s slow 0#64
      (s.signals plf self (s.mcallPmask2mask plf (s.x.get .a0)) s.numHarts.toNat) := by
  refine returns_slowPath ?_ (perm_mcallSignal (s := { s with xreg := s.x }) hself hn)
  rw [mmodeTrapHandler, if_pos h7]
  exact congrArg (fun t => some (t, 0#64)) mcallSignal_frame

/-- The dispatcher on the call with mask and base, with its own shift of the mask. -/
theorem slowPath_sbiExtIpi (h7 : s.x.get .a7 = sbiExtIpi) (hfn : s.x.get .a6 = 0#64)
    (hself : self < s.numHarts.toNat) (hn : s.numHarts.toNat < 64) :
    ∃ slow, s.slowPath plf self = some slow ∧ Returns s slow 0#64
      (s.signals plf self (s.mcallMaskoff2mask (s.x.get .a0) (s.x.get .a1)) s.numHarts.toNat) := by
  refine returns_slowPath ?_ (perm_mcallSignal (s := { s with xreg := s.x }) hself hn)
  simp only [mmodeTrapHandler]
  rw [h7, if_neg (by decide), if_neg (by decide), if_neg (by decide), if_neg (by decide),
    if_pos rfl, if_pos hfn]
  exact congrArg (fun t => some (t, 0#64)) mcallSignal_frame

/-- For an unknown function the dispatcher returns `-3`, an invalid parameter, where the fast path
says that it is not supported. -/
theorem slowPath_sbiExtIpi_err (h7 : s.x.get .a7 = sbiExtIpi) (hfn : s.x.get .a6 ≠ 0#64) :
    ∃ slow, s.slowPath plf self = some slow ∧ Returns s slow (-3#64) [] := by
  refine returns_slowPath ?_ (by rw [List.append_nil])
  simp only [mmodeTrapHandler]
  rw [h7, if_neg (by decide), if_neg (by decide), if_neg (by decide), if_neg (by decide),
    if_pos rfl, if_neg hfn]

theorem slowPath_clearIpi (h7 : s.x.get .a7 = sbiClearIpi) :
    ∃ slow, s.slowPath plf self = some slow ∧
      Returns s slow 0#64 [.clearMip (1#64 <<< intSmSoftware)] := by
  refine returns_slowPath ?_ (List.Perm.refl _)
  simp only [mmodeTrapHandler]
  rw [h7, if_neg (by decide), if_pos rfl]
  rfl

/-- `mcall_set_timer` does what the fast path does, in the same order. -/
theorem mcallSetTimer_eq (when_ : U64) :
    s.mcallSetTimer plf when_ = { s with effects := s.effects ++ timerEffects plf when_ } := by
  simp [mcallSetTimer, effect, timerEffects, intSmTimer, intMmTimer]

/-- The dispatcher on the legacy timer call. -/
theorem slowPath_setTimer (h7 : s.x.get .a7 = sbiSetTimer) :
    ∃ slow, s.slowPath plf self = some slow ∧
      Returns s slow 0#64 (timerEffects plf (s.x.get .a0)) := by
  refine returns_slowPath ?_ (List.Perm.refl _)
  simp only [mmodeTrapHandler]
  rw [h7, if_neg (by decide), if_neg (by decide), if_neg (by decide), if_pos rfl, mcallSetTimer_eq]

/-- The dispatcher on the timer extension, with the same error as the fast path. -/
theorem slowPath_sbiExtTime (h7 : s.x.get .a7 = sbiExtTime) :
    ∃ slow, s.slowPath plf self = some slow ∧
      Returns s slow (if s.x.get .a6 ≠ 0#64 then -2#64 else 0#64)
        (if s.x.get .a6 ≠ 0#64 then [] else timerEffects plf (s.x.get .a0)) := by
  refine returns_slowPath ?_ (List.Perm.refl _)
  simp only [mmodeTrapHandler]
  rw [h7, if_neg (by decide), if_neg (by decide), if_pos rfl]
  by_cases hfn : s.x.get .a6 ≠ 0#64
  · rw [if_pos hfn, if_pos hfn, if_pos hfn, List.append_nil]
  · rw [if_neg hfn, if_neg hfn, if_neg hfn, mcallSetTimer_eq]

/-! ## Agreement -/

/-- The fast path serves the call in state `s` as the dispatcher on hart `self` does:
the same code in `a0`, the same `mepc` and, in some order, the same effects. -/
def FastPathAgrees (plf : SbiPlf) (s : SbiHart) (self : ℕ) : Prop :=
  ∃ fast slow, s.trapHander plf = .mret fast ∧ s.slowPath plf self = some slow ∧
    fast.x.get .a0 = slow.x.get .a0 ∧ fast.mepc = slow.mepc ∧ fast.effects.Perm slow.effects

/-- The calls that both of them serve. -/
def fastCalls : List U64 := [sbiSendIpi, sbiExtIpi, sbiSetTimer, sbiExtTime, sbiClearIpi]

/-- Two returns agree when their codes do and their effects, in any order: both of them go on after
the call. -/
theorem fastPathAgrees_iff {fast : SbiHart} {v' : U64} {more' : List SbiEffect}
    (hfast : s.trapHander plf = .mret fast) (hreturns : Returns s fast v more)
    (hslow : ∃ slow, s.slowPath plf self = some slow ∧ Returns s slow v' more') :
    s.FastPathAgrees plf self ↔ v = v' ∧ more.Perm more' := by
  obtain ⟨slow, hslow, hreturns'⟩ := hslow
  have heffects : fast.effects.Perm slow.effects ↔ more.Perm more' := by
    refine Iff.trans ?_ (List.perm_append_left_iff s.effects)
    exact ⟨fun h => hreturns.effects.symm.trans (h.trans hreturns'.effects),
      fun h => hreturns.effects.trans (h.trans hreturns'.effects.symm)⟩
  rw [← heffects, ← hreturns.a0, ← hreturns'.a0]
  constructor
  · rintro ⟨fast', slow', hfast', hslow', ha0, _, hperm⟩
    cases hfast.symm.trans hfast'
    cases hslow.symm.trans hslow'
    exact ⟨ha0, hperm⟩
  · rintro ⟨ha0, hperm⟩
    exact ⟨fast, slow, hfast, hslow, ha0, hreturns.mepc.trans hreturns'.mepc.symm, hperm⟩

/-- Signals of two masks, one inside the other, agree when the masks do. -/
theorem perm_signals_iff (hsub : ∀ i < n, mask.getLsbD i = true → mask'.getLsbD i = true) :
    (s.signals plf self mask n).Perm (s.signals plf self mask' n) ↔
      ∀ i < n, mask'.getLsbD i = true → mask.getLsbD i = true := by
  constructor
  · intro h
    exact bits_of_length_signals hsub h.length_eq
  · intro h
    rw [signals_congr fun i hi => Bool.eq_iff_iff.mpr ⟨hsub i hi, h i hi⟩]

/-- The two ways to read a mask differ at the null pointer, which the dispatcher takes for all harts
that are online, and the fast path for an address. -/
theorem perm_signals_pmask (v : U64) :
    (s.signals plf self (s.fastPmask2mask plf v) n).Perm
        (s.signals plf self (s.mcallPmask2mask plf v) n) ↔
      (v ≠ 0#64 ∨ plf.pa 0#64 < plf.memBase ∨ plf.memBase + plf.memSize ≤ plf.pa 0#64 ∨
        ∀ i < n, s.hartsOnline.getLsbD i = true → (s.mem (plf.pa 0#64)).getLsbD i = true) := by
  rw [fastPmask2mask, mcallPmask2mask, actualMask]
  by_cases hout : plf.pa v < plf.memBase ∨ plf.memBase + plf.memSize ≤ plf.pa v
  · have hin : ¬ (v ≠ 0#64 ∧ plf.memBase ≤ plf.pa v ∧ plf.pa v < plf.memBase + plf.memSize) := by
      rintro ⟨_, hbase, hsize⟩
      rcases hout with hout | hout
      · exact BitVec.not_le.mpr hout hbase
      · exact BitVec.not_le.mpr hsize hout
    rw [if_pos hout, if_neg hin, BitVec.allOnes_and]
    refine iff_of_true (List.Perm.refl _) ?_
    by_cases hv : v = 0#64
    · rw [hv] at hout
      exact .inr (hout.imp_right .inl)
    · exact .inl hv
  · rw [if_neg hout]
    obtain ⟨hbase, hsize⟩ := not_or.mp hout
    by_cases hv : v = 0#64
    · subst hv
      rw [if_neg (fun h => h.1 rfl), BitVec.allOnes_and, perm_signals_iff]
      · simp only [ne_eq, not_true_eq_false, hbase, hsize, false_or, BitVec.getLsbD_and,
          Bool.and_eq_true]
        exact forall₂_congr fun i _ => forall_congr' fun hbit => and_iff_left hbit
      · intro i _ hbit
        simpa using (by simpa using hbit : _ ∧ _).2
    · rw [if_pos ⟨hv, BitVec.not_lt.mp hbase, BitVec.not_le.mp hsize⟩]
      exact iff_of_true (List.Perm.refl _) (.inl hv)

/-- The three kinds of a signed mask base: one within the width, one past it, and a negative one,
which is past it for an unsigned comparison. -/
theorem signed_base (offs : U64) :
    ((0#64).sle offs ↔ ¬ offs.slt 0#64) ∧ ((64#64).sle offs ↔ (0#64).sle offs ∧ ¬ offs < 64#64) ∧
      (offs < 64#64 → (0#64).sle offs) := by
  have htoInt := BitVec.toInt_eq_toNat_cond offs
  have hisLt := offs.isLt
  have h0 : (0#64).toInt = 0 := rfl
  have h64 : (64#64).toInt = 64 := rfl
  rw [BitVec.sle_iff_toInt_le, BitVec.slt_iff_toInt_lt, BitVec.sle_iff_toInt_le, BitVec.lt_def,
    BitVec.toNat_ofNat, h0, h64]
  split_ifs at htoInt
  · omega
  · omega

/-- The two ways to shift a mask differ at negative bases other than -1: the fast path takes all
harts that are online, and the dispatcher none. -/
theorem perm_signals_maskoff (mask offs : U64) :
    (s.signals plf self (s.fastMaskoff2mask mask offs) n).Perm
        (s.signals plf self (s.mcallMaskoff2mask mask offs) n) ↔
      ((0#64).sle offs ∨ offs = -1#64 ∨ ∀ i < n, s.hartsOnline.getLsbD i = false) := by
  rw [fastMaskoff2mask, mcallMaskoff2mask]
  by_cases hall : offs = -1#64
  · have hneg : ¬ (64#64).sle (-1#64) ∧ (-1#64).slt 0#64 := by decide
    have hones : s.actualMask (-1#64) = s.hartsOnline := by
      rw [actualMask, BitVec.neg_one_eq_allOnes, BitVec.allOnes_and]
    rw [hall, if_neg hneg.1, if_pos hneg.2, if_pos rfl, hones]
    exact iff_of_true (List.Perm.refl _) (.inr (.inl rfl))
  · rw [if_neg hall]
    obtain ⟨hpos, hbig, hsmall⟩ := signed_base offs
    by_cases hneg : offs.slt 0#64
    · have hle : ¬ (0#64).sle offs := by rwa [hpos, not_not]
      have hnot : ¬ (64#64).sle offs := fun h => hle (hbig.mp h).1
      rw [if_neg hnot, if_pos hneg, if_neg (mt hsmall hle), List.perm_comm, perm_signals_iff]
      · simp only [hle, Bool.false_eq_true, hall, false_or]
        simp
      · simp
    · have hle := hpos.mpr hneg
      refine iff_of_true ?_ (.inl hle)
      by_cases hlt : offs < 64#64
      · have hlt' : offs.toNat < 64 := hlt
        rw [if_neg fun h => (hbig.mp h).2 hlt, if_neg hneg, if_pos hlt, actualMask, BitVec.and_comm,
          Nat.mod_eq_of_lt hlt']
      · rw [if_pos (hbig.mpr ⟨hle, hlt⟩), if_neg hlt]

end SbiHart

open SbiHart

/-- **The fast path agrees with the dispatcher** except for a null mask pointer that
maps to memory, an unknown function of the IPI extension, and a negative mask base
other than `-1`, where there are harts to tell the difference. -/
theorem fastPath_agrees_iff (hcall : s.x.get .a7 ∈ fastCalls) (hecall : s.mcause = excSmEcall)
    (hmscratch : s.mscratch = plf.hartTls self) (hself : self < s.numHarts.toNat)
    (hn : s.numHarts.toNat < 64) :
    s.FastPathAgrees plf self ↔
      (s.x.get .a7 = sbiSendIpi →
        (s.x.get .a0 ≠ 0#64 ∨ plf.pa 0#64 < plf.memBase ∨
          plf.memBase + plf.memSize ≤ plf.pa 0#64 ∨
          ∀ i < s.numHarts.toNat, s.hartsOnline.getLsbD i = true →
            (s.mem (plf.pa 0#64)).getLsbD i = true)) ∧
      (s.x.get .a7 = sbiExtIpi → s.x.get .a6 = 0#64 ∧
        ((0#64).sle (s.x.get .a1) ∨ s.x.get .a1 = -1#64 ∨
          ∀ i < s.numHarts.toNat, s.hartsOnline.getLsbD i = false)) := by
  have hlt : self < 64 := by omega
  have he := s.atTest_entered
  have htrap := trapHander_ecall plf hecall
  simp only [fastCalls, List.mem_cons, List.not_mem_nil, or_false] at hcall
  rcases hcall with h7 | h7 | h7 | h7 | h7
  · rw [h7, if_pos rfl] at htrap
    rw [fastPathAgrees_iff htrap ((he _).returns_sbiCallSendIpi hmscratch hlt hn)
      (slowPath_sendIpi h7 hself hn), perm_signals_pmask, h7]
    have hext : sbiSendIpi ≠ sbiExtIpi := by decide
    simp [hext]
  · rw [h7, if_neg (by decide), if_neg (by decide), if_neg (by decide), if_pos rfl] at htrap
    rw [h7]
    by_cases hfn : s.x.get .a6 = 0#64
    · rw [fastPathAgrees_iff htrap ((he _).returns_sbi02CallSendIpi hfn hmscratch hlt hn)
        (slowPath_sbiExtIpi h7 hfn hself hn), perm_signals_maskoff]
      have hsend : sbiExtIpi ≠ sbiSendIpi := by decide
      simp [hsend, hfn]
    · rw [fastPathAgrees_iff htrap ((he _).returns_sbi02CallSendIpi_err hfn)
        (slowPath_sbiExtIpi_err h7 hfn)]
      simp [hfn]
  · rw [h7, if_neg (by decide), if_pos rfl] at htrap
    rw [fastPathAgrees_iff htrap (he _).returns_lsbiCallTimerRet (slowPath_setTimer h7), h7]
    have hsend : sbiSetTimer ≠ sbiSendIpi := by decide
    have hext : sbiSetTimer ≠ sbiExtIpi := by decide
    simp [hsend, hext]
  · rw [h7, if_neg (by decide), if_neg (by decide), if_pos rfl] at htrap
    rw [fastPathAgrees_iff htrap (he _).returns_sbi02CallSetTimer (slowPath_sbiExtTime h7), h7]
    have hsend : sbiExtTime ≠ sbiSendIpi := by decide
    have hext : sbiExtTime ≠ sbiExtIpi := by decide
    simp [hsend, hext]
  · rw [h7, if_neg (by decide), if_neg (by decide), if_neg (by decide), if_neg (by decide),
      if_pos rfl] at htrap
    rw [fastPathAgrees_iff htrap (he _).returns_sbiCallClearIpi (slowPath_clearIpi h7), h7]
    have hsend : sbiClearIpi ≠ sbiSendIpi := by decide
    have hext : sbiClearIpi ≠ sbiExtIpi := by decide
    simp [hsend, hext]

/-- A platform with the storage of hart 0 at `0x10000`. -/
def smallPlf : SbiPlf where
  transport := .csr
  iccmSegABase := 0#64
  mtimerBase := 0x100000#64
  memBase := 0x80000000#64
  memSize := 0x1000000#64
  pageOffset := 0x80000000#64
  tls0Base := 0x10000#64
  l2Stack8Core := false

/-- Hart 0 of two that are online, before `sbi_send_ipi(1, base)`. -/
def sendIpiCall (base : U64) : SbiHart where
  x := (((RegFile.mk fun _ => 0#64).set .a7 sbiExtIpi).set .a0 1#64).set .a1 base
  mscratch := smallPlf.hartTls 0
  mepc := 0x80200000#64
  mcause := excSmEcall
  xreg := ⟨fun _ => 0#64⟩
  ipiN a := if a = smallPlf.hartTls 1 then 1#8 else 0#8
  mem _ := 0#64
  hartsOnline := 0x3#64
  numHarts := 2#32
  slotBitsShift := 0#32
  effects := []

/-- The own hart, by a mask from hart 0 on. -/
theorem fastPath_agrees_base_zero : (sendIpiCall 0#64).FastPathAgrees smallPlf 0 :=
  (fastPath_agrees_iff (by decide) rfl rfl (by decide) (by decide)).mpr ⟨by decide, by decide⟩

/-- A base of `-2` is no hart to the dispatcher, and every hart to the fast path. -/
theorem fastPath_sends_base_neg_two : ¬ (sendIpiCall (-2#64)).FastPathAgrees smallPlf 0 := by
  rintro ⟨fast, slow, hfast, hslow, _, _, hperm⟩
  have hsent : ∀ fast, (sendIpiCall (-2#64)).trapHander smallPlf = .mret fast →
      fast.effects.length = 2 := by
    rintro _ ⟨⟩
    decide +kernel
  have hnone : ∀ slow, (sendIpiCall (-2#64)).slowPath smallPlf 0 = some slow →
      slow.effects.length = 0 := by
    rintro _ ⟨⟩
    decide +kernel
  have hlength := hperm.length_eq
  rw [hsent fast hfast, hnone slow hslow] at hlength
  cases hlength

end ScBl
