import ScBl.Sbi.Agree
import ScBl.Sbi.FastPath32
import ScBl.Sbi.Hls

/-!
# The registers of the caller

What the fast path leaves of the registers that a call has been made with: all but `a0` and
`a1` on RV32, and on RV64 as far as it does not send through ICCM, whose `ipi_send_wait`
works in `t0` to `t3` (`fastPath_keepsCaller_iff`).
-/

namespace ScBl

open Rv

namespace SbiHart

variable {plf : SbiPlf} {s s₀ e t : SbiHart} {x y : RegFile 64} {own receiver : U8}
  {last : Option U8} {mask : U64} {k : ℕ} {r : IntReg}

/-- A call in state `s` that returns in state `t`. -/
abbrev CallerKept (s t : SbiHart) : Prop :=
  CallKept s.x s.mscratch s.mepc t.x t.mscratch t.mepc

/-! ## The temporaries -/

/-- What `ipi_send_wait` makes of the registers, `a0` apart, when hart `own` sends to
`receiver`. -/
def regsAfterSend (plf : SbiPlf) (own receiver : U8) (x : RegFile 64) : RegFile 64 :=
  match plf.transport with
  | .csr => x
  | .iccm =>
    (((x.set .t0 (plf.iccmSegABase + 0xC00#64 + receiver.setWidth 64 <<< 2)).set
      .t1 (own.setWidth 64)).set .t2 (receiver.setWidth 64 <<< 2)).set
      .t3 (1#64 <<< (receiver.toNat % 64))

/-- The registers after some messages, the last of them to `last`. -/
def regsAfter (plf : SbiPlf) (own : U8) (last : Option U8) (x : RegFile 64) : RegFile 64 :=
  match last with
  | none => x
  | some receiver => regsAfterSend plf own receiver x

/-- The registers hold what a message to `receiver` leaves in them. -/
structure HoldsSent (plf : SbiPlf) (own receiver : U8) (x : RegFile 64) : Prop where
  t0 : x.get .t0 = plf.iccmSegABase + 0xC00#64 + receiver.setWidth 64 <<< 2
  t1 : x.get .t1 = own.setWidth 64
  t2 : x.get .t2 = receiver.setWidth 64 <<< 2
  t3 : x.get .t3 = 1#64 <<< (receiver.toNat % 64)

/-- A message leaves all registers but four. -/
theorem regsAfterSend_get_of_notMem (hr : r ∉ [.t0, .t1, .t2, .t3]) :
    (regsAfterSend plf own receiver x).get r = x.get r := by
  simp only [List.mem_cons, List.not_mem_nil, or_false, not_or] at hr
  obtain ⟨h0, h1, h2, h3⟩ := hr
  rw [regsAfterSend]
  cases plf.transport with
  | csr => rfl
  | iccm => simp [h0, h1, h2, h3]

/-- So do any number of them. -/
theorem regsAfter_get_of_notMem (hr : r ∉ [.t0, .t1, .t2, .t3]) :
    (regsAfter plf own last x).get r = x.get r := by
  cases last with
  | none => rfl
  | some receiver => exact regsAfterSend_get_of_notMem hr

/-- The temporaries do not depend on what they held before. -/
theorem regsAfterSend_get_congr (hiccm : plf.transport = .iccm) (hr : r ∈ [.t0, .t1, .t2, .t3]) :
    (regsAfterSend plf own receiver x).get r = (regsAfterSend plf own receiver y).get r := by
  simp only [List.mem_cons, List.not_mem_nil, or_false] at hr
  rw [regsAfterSend, regsAfterSend, hiccm]
  rcases hr with rfl | rfl | rfl | rfl <;> simp

/-- Through the CSR mailbox a message is sent with `a0` alone. -/
theorem regsAfter_csr (hcsr : plf.transport = .csr) : regsAfter plf own last x = x := by
  cases last with
  | none => rfl
  | some receiver => rw [regsAfter, regsAfterSend, hcsr]

/-- Of the messages only the last counts, since each of them writes the same four registers. -/
theorem regsAfterSend_regsAfter (hxy : x.get r = (regsAfter plf own last y).get r) :
    (regsAfterSend plf own receiver x).get r = (regsAfterSend plf own receiver y).get r := by
  by_cases hr : r ∈ [.t0, .t1, .t2, .t3]
  · cases htransport : plf.transport with
    | csr =>
      rw [regsAfter_csr htransport] at hxy
      rw [regsAfterSend, regsAfterSend, htransport]
      exact hxy
    | iccm => exact regsAfterSend_get_congr htransport hr
  · rw [regsAfterSend_get_of_notMem hr, regsAfterSend_get_of_notMem hr, hxy,
      regsAfter_get_of_notMem hr]

/-- What a register is after the messages depends on what it was before them, and on nothing else.
-/
theorem regsAfter_get_congr (hxy : x.get r = y.get r) :
    (regsAfter plf own last x).get r = (regsAfter plf own last y).get r := by
  cases last with
  | none => exact hxy
  | some receiver =>
    have hnone : x.get r = (regsAfter plf own none y).get r := hxy
    exact regsAfterSend_regsAfter hnone

/-- When the messages change no register that the caller cares for: with the CSR mailbox always, and
otherwise if the caller happens to hold what the last message leaves. -/
theorem regsAfter_eq_iff :
    (∀ r, r ≠ .a0 → r ≠ .a1 → (regsAfter plf own last x).get r = x.get r) ↔
      plf.transport = .csr ∨ ∀ receiver, last = some receiver → HoldsSent plf own receiver x := by
  cases htransport : plf.transport with
  | csr => simp [regsAfter_csr htransport]
  | iccm =>
    cases last with
    | none => simp [regsAfter]
    | some receiver =>
      simp only [reduceCtorEq, false_or, Option.some.injEq, forall_eq']
      constructor
      · intro h
        have ht0 := h .t0 (by decide) (by decide)
        have ht1 := h .t1 (by decide) (by decide)
        have ht2 := h .t2 (by decide) (by decide)
        have ht3 := h .t3 (by decide) (by decide)
        simp only [regsAfter, regsAfterSend, htransport] at ht0 ht1 ht2 ht3
        simp at ht0 ht1 ht2 ht3
        exact ⟨ht0.symm, ht1.symm, ht2.symm, ht3.symm⟩
      · intro h r _ _
        by_cases hr : r ∈ [.t0, .t1, .t2, .t3]
        · simp only [List.mem_cons, List.not_mem_nil, or_false] at hr
          rw [regsAfter, regsAfterSend, htransport]
          rcases hr with rfl | rfl | rfl | rfl
          · simp [h.t0]
          · simp [h.t1]
          · simp [h.t2]
          · simp [h.t3]
        · exact regsAfter_get_of_notMem hr

/-- `ipi_send_wait` to a receiver in `a0`. -/
theorem ipiSendWait_get (ha0 : s.x.get .a0 = receiver.setWidth 64) (hr : r ≠ .a0) :
    (s.ipiSendWait plf).x.get r =
      (regsAfterSend plf (s.ipiN (s.x.get .sp)) receiver s.x).get r := by
  by_cases hmem : r ∈ [.t0, .t1, .t2, .t3]
  · simp only [List.mem_cons, List.not_mem_nil, or_false] at hmem
    rw [ipiSendWait, regsAfterSend]
    cases plf.transport with
    | csr => simp [exec, effect, RegFile.li, hr]
    | iccm =>
      simp only [exec, effect, loadIpiN, RegFile.li, RegFile.slli, RegFile.add, RegFile.sll]
      rcases hmem with rfl | rfl | rfl | rfl
      · simp [ha0]
      · simp
      · simp [ha0]
      · simp [ha0]
  · rw [regsAfterSend_get_of_notMem hmem]
    refine ipiSendWait_get_of_notMem ?_
    rw [List.mem_cons, not_or]
    exact ⟨hr, hmem⟩

/-- A send works in registers, and posts one word. -/
theorem ipiSendWait_frame (plf : SbiPlf) (s : SbiHart) :
    s.ipiSendWait plf =
      { s with x := (s.ipiSendWait plf).x, effects := (s.ipiSendWait plf).effects } := by
  rw [ipiSendWait]
  cases plf.transport <;> rfl

/-! ## The loop -/

/-- The storage of the hart that `.Lipi_mask_loop` takes bit `k` of the mask for. -/
def maskTls (plf : SbiPlf) (s : SbiHart) (k : ℕ) : U64 :=
  plf.tls0Base - s.numHarts.signExtend 64 <<< plf.hlshift
    + BitVec.ofNat 64 (s.numHarts.toNat % 64) * plf.hlsize - BitVec.ofNat 64 k * plf.hlsize

/-- The loop goes down through the storages one by one. -/
theorem maskTls_succ (plf : SbiPlf) (s : SbiHart) (k : ℕ) :
    s.maskTls plf (k + 1) + plf.hlsize = s.maskTls plf k := by
  have hone : BitVec.ofNat 64 1 = 1 := rfl
  rw [maskTls, maskTls, BitVec.ofNat_add, hone]
  ring

/-- Bit `k` is that of another hart than the one with its storage at `sp`. -/
def sendsTo (plf : SbiPlf) (s : SbiHart) (sp mask : U64) (k : ℕ) : Bool :=
  mask.getLsbD k && decide (s.maskTls plf k ≠ sp)

/-- The last receiver for the bits below `k`: the loop goes down. -/
def lastReceiver (plf : SbiPlf) (s : SbiHart) (sp mask : U64) (k : ℕ) : Option U8 :=
  ((List.range k).find? (s.sendsTo plf sp mask)).map fun j => s.ipiN (s.maskTls plf j)

/-- The loop goes down, so that a lower bit comes later and replaces the receiver of a higher one.
-/
theorem lastReceiver_succ (plf : SbiPlf) (s : SbiHart) (sp mask : U64) (k : ℕ) :
    s.lastReceiver plf sp mask (k + 1) =
      (s.lastReceiver plf sp mask k).or
        (if s.sendsTo plf sp mask k then some (s.ipiN (s.maskTls plf k)) else none) := by
  rw [lastReceiver, lastReceiver, List.range_succ, List.find?_append]
  cases (List.range k).find? (s.sendsTo plf sp mask) with
  | some j => rfl
  | none => cases hk : s.sendsTo plf sp mask k <;> simp [hk]

/-- Where the shifted mask has become zero, nothing is left to be sent. -/
theorem lastReceiver_eq_none {sp : U64} (hk : k < 64) (hzero : mask <<< (63 - k) = 0#64) :
    s.lastReceiver plf sp mask k = none := by
  rw [lastReceiver, Option.map_eq_none_iff, List.find?_eq_none]
  intro j hj hsends
  have hnil := filter_range_eq_nil hk hzero
  have hbit : mask.getLsbD j = true := (Bool.and_eq_true_iff.mp hsends).1
  exact List.not_mem_nil (hnil ▸ List.mem_filter.mpr ⟨hj, hbit⟩)

/-- At the head of the loop, with `k` bits to go, after messages of which the last went to
`last`. -/
structure AtBit (plf : SbiPlf) (s₀ : SbiHart) (mask : U64) (k : ℕ) (last : Option U8)
    (s : SbiHart) : Prop where
  frame : s = { s₀ with x := s.x, effects := s.effects }
  a2 : s.x.get .a2 = s₀.maskTls plf k
  a3 : s.x.get .a3 = mask <<< (63 - k)
  regs : ∀ r ∉ [.a0, .a2, .a3],
    s.x.get r = (regsAfter plf (s₀.ipiN (s₀.x.get .sp)) last s₀.x).get r

/-- The loop leaves `sp`. -/
theorem AtBit.sp (h : AtBit plf s₀ mask k last s) : s.x.get .sp = s₀.x.get .sp := by
  rw [h.regs .sp (by decide), regsAfter_get_of_notMem (by decide)]

/-- `maskTestRegs` by its registers. -/
theorem maskTestRegs_get (hr : r ∉ [.a0, .a2, .a3]) : (maskTestRegs plf x).get r = x.get r := by
  simp only [List.mem_cons, List.not_mem_nil, or_false, not_or] at hr
  exact maskTestRegs_of_ne x hr.1 hr.2.1 hr.2.2

/-- **A round** deals with one bit: it sends to its hart, if the bit is set and the hart is another
one, and shifts the next one to the sign. -/
theorem AtBit.round (h : AtBit plf s₀ mask (k + 1) last s) (hk : k < 63) :
    AtBit plf s₀ mask k
      ((if s₀.sendsTo plf (s₀.x.get .sp) mask k then some (s₀.ipiN (s₀.maskTls plf k))
        else none).or last) (s.lipiMaskRound plf) := by
  have hshift := Words.shiftLeft_sub_succ mask (Nat.succ_lt_succ hk)
  have hlt : k < 64 := by omega
  have hmsb := Words.msb_shiftLeft_sub mask hlt
  obtain ⟨x, hx⟩ : ∃ x, x = maskTestRegs plf s.x := ⟨_, rfl⟩
  have hx2 : x.get .a2 = s₀.maskTls plf k := by
    rw [hx, maskTestRegs_a2, h.a2, maskTls_succ]
  have hx3 : x.get .a3 = mask <<< (63 - k) := by
    rw [hx, maskTestRegs_a3, h.a3, hshift]
  have hregs : ∀ r ∉ [.a0, .a2, .a3],
      x.get r = (regsAfter plf (s₀.ipiN (s₀.x.get .sp)) last s₀.x).get r := by
    intro r hr
    rw [hx, maskTestRegs_get hr, h.regs r hr]
  have hxsp : x.get .sp = s₀.x.get .sp := by
    rw [hregs .sp (by decide), regsAfter_get_of_notMem (by decide)]
  have hstay : AtBit plf s₀ mask k last { s with x := x } :=
    ⟨by rw [h.frame], hx2, hx3, hregs⟩
  rw [lipiMaskRound_of_regs hx, hx3, hmsb, hx2, hxsp, sendsTo]
  rcases hbit : mask.getLsbD k with _ | _
  · rw [if_pos Bool.false_ne_true]
    exact hstay
  · rw [if_neg (not_not.mpr rfl)]
    by_cases hown : s₀.maskTls plf k = s₀.x.get .sp
    · rw [if_pos hown, if_neg (by simp [hown])]
      exact ⟨by rw [h.frame], hx2, hx3, hregs⟩
    · rw [if_neg hown, if_pos (by simp [hown])]
      obtain ⟨s', hs'⟩ : ∃ s', s' = loadIpiN { s with x := x } .a0 .a2 := ⟨_, rfl⟩
      have hreceiver : s'.x.get .a0 = (s₀.ipiN (s₀.maskTls plf k)).setWidth 64 := by
        rw [hs', h.frame, ← hx2]
        exact RegFile.get_set_self (by decide)
      have hloaded : ∀ r, r ≠ .a0 → s'.x.get r = x.get r := by
        intro r hr
        rw [hs']
        exact RegFile.get_set_of_ne hr
      have hsend : ∀ r, r ≠ .a0 → (s'.ipiSendWait plf).x.get r =
          (regsAfterSend plf (s₀.ipiN (s₀.x.get .sp)) (s₀.ipiN (s₀.maskTls plf k)) s'.x).get r := by
        intro r hr
        have hipiN : s'.ipiN (s'.x.get .sp) = s₀.ipiN (s₀.x.get .sp) := by
          rw [hloaded .sp (by decide), hxsp, hs', h.frame]
          rfl
        rw [ipiSendWait_get hreceiver hr, hipiN]
      rw [← hs']
      refine ⟨?_, ?_, ?_, ?_⟩
      · rw [ipiSendWait_frame, hs', h.frame]
        rfl
      · rw [hsend .a2 (by decide), regsAfterSend_get_of_notMem (by decide),
          hloaded .a2 (by decide), hx2]
      · rw [hsend .a3 (by decide), regsAfterSend_get_of_notMem (by decide),
          hloaded .a3 (by decide), hx3]
      · intro r hr
        have hr0 : r ≠ .a0 := List.ne_of_not_mem_cons hr
        rw [hsend r hr0]
        exact regsAfterSend_regsAfter ((hloaded r hr0).trans (hregs r hr))

/-- The last round, past all bits of the mask, sends nothing. -/
theorem AtBit.done (h : AtBit plf s₀ mask 0 last s) :
    (s.lipiMaskRound plf).x.get .a3 = 0#64 ∧
      s.lipiMaskRound plf =
        { s₀ with x := (s.lipiMaskRound plf).x, effects := (s.lipiMaskRound plf).effects } ∧
      ∀ r ∉ [.a0, .a2, .a3], (s.lipiMaskRound plf).x.get r =
        (regsAfter plf (s₀.ipiN (s₀.x.get .sp)) last s₀.x).get r := by
  have hx3 : (maskTestRegs plf s.x).get .a3 = 0#64 := by
    rw [maskTestRegs_a3, h.a3, ← BitVec.shiftLeft_add]
    exact BitVec.shiftLeft_eq_zero (by decide)
  rw [lipiMaskRound_of_regs rfl, hx3, if_pos (by decide)]
  refine ⟨hx3, by rw [h.frame], fun r hr => ?_⟩
  rw [maskTestRegs_get hr, h.regs r hr]

/-- **The loop** leaves the registers as the last message does. By induction on the bits that are
left of the mask. -/
theorem lipiMaskLoop_regs :
    ∀ {fuel k : ℕ} {last : Option U8} {s : SbiHart}, k < 64 → k < fuel →
      AtBit plf s₀ mask k last s →
      s.lipiMaskLoop plf fuel =
          { s₀ with
            x := (s.lipiMaskLoop plf fuel).x
            effects := (s.lipiMaskLoop plf fuel).effects } ∧
        ∀ r ∉ [.a0, .a2, .a3], (s.lipiMaskLoop plf fuel).x.get r =
          (regsAfter plf (s₀.ipiN (s₀.x.get .sp))
            ((s₀.lastReceiver plf (s₀.x.get .sp) mask k).or last) s₀.x).get r := by
  intro fuel
  induction fuel with
  | zero =>
    intro k last s _ hfuel
    omega
  | succ fuel ih =>
    intro k last s hk hfuel h
    rw [lipiMaskLoop]
    cases k with
    | zero =>
      obtain ⟨hx3, hframe, hregs⟩ := h.done
      rw [if_pos hx3]
      exact ⟨hframe, hregs⟩
    | succ k =>
      have hnext := h.round (by omega)
      rw [lastReceiver_succ, Option.or_assoc]
      by_cases hzero : (s.lipiMaskRound plf).x.get .a3 = 0#64
      · rw [if_pos hzero]
        rw [hnext.a3] at hzero
        rw [lastReceiver_eq_none (by omega) hzero, Option.none_or]
        exact ⟨hnext.frame, hnext.regs⟩
      · rw [if_neg hzero]
        exact ih (by omega) (by omega) hnext

/-! ## Before and after the loop -/

/-- The set-up of the loop works in the four saved registers. -/
theorem lipiMaskStart_get (hr : r ∉ [.a0, .a1, .a2, .a3]) :
    (s.lipiMaskStart plf).x.get r = s.x.get r := by
  simp only [List.mem_cons, List.not_mem_nil, or_false, not_or] at hr
  obtain ⟨h0, h1, h2, h3⟩ := hr
  rw [lipiMaskStart]
  cases plf.transport <;>
    simp [exec, RegFile.li, RegFile.sll, RegFile.addi, RegFile.neg, RegFile.slli, RegFile.sub,
      h0, h1, h2, h3]

/-- A call in state `s` that returns in state `t`, after messages of which the last went to
`last`. -/
structure Resumes (plf : SbiPlf) (s t : SbiHart) (last : Option U8) : Prop where
  regs : ∀ r, r ≠ .a0 → r ≠ .a1 →
    t.x.get r = (regsAfter plf (s.ipiN s.mscratch) last s.x).get r
  mscratch : t.mscratch = s.mscratch
  mepc : t.mepc = s.mepc + 4#64

/-- **What the caller finds**: its registers, except that on ICCM the last message shows in four of
them unless they happened to hold just that. -/
theorem Resumes.callerKept_iff (h : Resumes plf s t last) :
    s.CallerKept t ↔ plf.transport = .csr ∨
      ∀ receiver, last = some receiver → HoldsSent plf (s.ipiN s.mscratch) receiver s.x := by
  rw [← regsAfter_eq_iff]
  constructor
  · intro hkept r h0 h1
    rw [← h.regs r h0 h1, hkept.regs r h0 h1]
  · intro hsame
    exact ⟨fun r h0 h1 => (h.regs r h0 h1).trans (hsame r h0 h1), h.mscratch, h.mepc⟩

/-- The hart past the entry of the trap handler: all registers but `a0` and `a1` are as they
were. -/
abbrev Inside (s e : SbiHart) : Prop := InTrap s.x s.mscratch s.mepc e.x e.mscratch e.mepc

/-- The hart where `a2` and `a3` have been saved. -/
structure Sending (s t : SbiHart) : Prop extends
    ArgsSaved s.x s.mscratch s.mepc t.x t.mscratch t.mepc t.xreg where
  frame : t = { s with x := t.x, xreg := t.xreg, mscratch := t.mscratch }

/-- At each test of the entry only `a0` and `a1` have changed. -/
theorem atTest_inside (s : SbiHart) (v : U64) : Inside s (s.atTest v) where
  sp := (s.atTest_entered v).sp
  mscratch := rfl
  mepc := rfl
  regs r hr := by
    simp only [List.mem_cons, List.not_mem_nil, or_false, not_or] at hr
    obtain ⟨hsp, h0, h1⟩ := hr
    simp [atTest, exec, saveReg, swapSp, RegFile.li, hsp, h0, h1]

/-- The return swaps `sp` back. -/
theorem mtrapScallRet_get (h0 : r ≠ .a0) (h1 : r ≠ .a1) :
    s.mtrapScallRet.x.get r = if r = .sp then s.mscratch else s.x.get r := by
  by_cases hsp : r = .sp
  · simp [mtrapScallRet, swapSp, loadReg, exec, hsp]
  · simp [mtrapScallRet, swapSp, loadReg, exec, RegFile.li, RegFile.addi, h0, h1, hsp]

/-- And the storage of the hart with it. -/
theorem mtrapScallRet_mscratch : s.mtrapScallRet.mscratch = s.x.get .sp := by
  simp [mtrapScallRet, swapSp, loadReg, exec, RegFile.li, RegFile.addi]

/-- The other return differs in `a0`. -/
theorem sbi02CallRetErr_get (h0 : r ≠ .a0) :
    s.sbi02CallRetErr.x.get r = s.mtrapScallRet.x.get r := by
  by_cases hsp : r = .sp
  · simp [sbi02CallRetErr, mtrapScallRet, swapSp, loadReg, exec, hsp]
  · by_cases h1 : r = .a1
    · simp [sbi02CallRetErr, mtrapScallRet, swapSp, loadReg, exec, h1]
    · simp [sbi02CallRetErr, mtrapScallRet, swapSp, loadReg, exec, RegFile.li, RegFile.addi, h0,
        h1, hsp]

/-- The return with an error does the same. -/
theorem sbi02CallRetErr_mscratch : s.sbi02CallRetErr.mscratch = s.x.get .sp := by
  simp [sbi02CallRetErr, swapSp, loadReg, exec, RegFile.li, RegFile.addi]

/-- A call that sends no message. -/
theorem resumes_none (h : CallerKept s t) : Resumes plf s t none := ⟨h.regs, h.mscratch, h.mepc⟩

/-- A call that goes straight to its return. -/
theorem Inside.resumes_mtrapScallRet (h : Inside s e) : Resumes plf s e.mtrapScallRet none :=
  resumes_none (h.returned (fun _ => mtrapScallRet_get) mtrapScallRet_mscratch
    mtrapScallRet_mepc)

/-- A call that returns two values. -/
theorem Inside.resumes_sbi02CallRetErr (h : Inside s e) :
    Resumes plf s e.sbi02CallRetErr none where
  regs r h0 h1 := by
    rw [sbi02CallRetErr_get h0]
    exact h.resumes_mtrapScallRet.regs r h0 h1
  mscratch := sbi02CallRetErr_mscratch.trans h.sp
  mepc := by rw [sbi02CallRetErr_mepc, h.mepc]

/-- Setting the timer, from the comparison on. -/
theorem Inside.resumes_lsbiCallTimerRet (h : Inside s e) :
    Resumes plf s (e.lsbiCallTimerRet plf) none := by
  rw [lsbiCallTimerRet]
  apply Inside.resumes_mtrapScallRet
  refine h.of_regs (fun r h0 h1 => ?_) rfl rfl
  simp [exec, effect, loadReg, RegFile.li, h0, h1]

theorem Inside.resumes_sbi02CallSetTimer (h : Inside s e) :
    Resumes plf s (e.sbi02CallSetTimer plf) none := by
  rw [sbi02CallSetTimer]
  split_ifs
  · exact h.resumes_sbi02CallRetErr
  · exact h.resumes_lsbiCallTimerRet

theorem Inside.resumes_sbiCallClearIpi (h : Inside s e) :
    Resumes plf s e.sbiCallClearIpi none := by
  rw [sbiCallClearIpi]
  apply Inside.resumes_mtrapScallRet
  exact h.of_regs (fun _ _ _ => rfl) rfl rfl

/-- The last receiver of the messages to the harts of a mask. -/
def maskReceiver (plf : SbiPlf) (s : SbiHart) (mask : U64) : Option U8 :=
  s.lastReceiver plf s.mscratch mask (s.numHarts.toNat % 64)

/-- **`.Lipi_send_masked`** gives back `a2` and `a3`, and the registers of the last message are what
may be left changed. -/
theorem Sending.resumes_lipiSendMasked (h : Sending s t) (hmask : t.x.get .a3 = mask) :
    Resumes plf s (t.lipiSendMasked plf) (s.maskReceiver plf mask) := by
  obtain ⟨x, hstart, -, hx2, hx3, hxsp⟩ := lipiMaskStart_spec plf t
  have hxregs : ∀ r ∉ [.a0, .a1, .a2, .a3], x.get r = t.x.get r := by
    intro r hr
    have hget : (t.lipiMaskStart plf).x.get r = t.x.get r := lipiMaskStart_get hr
    rw [← hget, hstart]
  have hn : t.numHarts = s.numHarts := by rw [h.frame]
  have hlt : s.numHarts.toNat % 64 < 64 := Nat.mod_lt _ (by decide)
  rw [hn, hmask, shift_amount] at hx3
  have htls : x.get .a2 = maskTls plf { t with x := x } (s.numHarts.toNat % 64) := by
    rw [hx2, maskTls, hn]
    ring
  have hatBit : AtBit plf { t with x := x } mask (s.numHarts.toNat % 64) none { t with x := x } :=
    ⟨rfl, htls, hx3, fun r _ => rfl⟩
  obtain ⟨hframe, hregs⟩ := lipiMaskLoop_regs hlt hlt hatBit
  rw [lipiSendMasked_eq, hstart]
  obtain ⟨u, hu⟩ : ∃ u, u = lipiMaskLoop plf 64 { t with x := x } := ⟨_, rfl⟩
  rw [← hu] at hframe hregs ⊢
  have hsp : x.get .sp = s.mscratch := hxsp.trans h.sp
  have hlast : lastReceiver plf { t with x := x } s.mscratch mask (s.numHarts.toNat % 64) =
      s.maskReceiver plf mask := by
    rw [h.frame]
    rfl
  have hipiN : t.ipiN = s.ipiN := by rw [h.frame]
  simp only [hsp, hlast, Option.or_none] at hregs
  simp only [hipiN] at hregs
  have huxreg : u.xreg = t.xreg := by rw [hframe]
  have humscratch : u.mscratch = t.mscratch := by rw [hframe]
  have humepc : u.mepc = s.mepc := by rw [hframe, h.frame]
  refine ⟨fun r h0 h1 => ?_, ?_, ?_⟩
  · rw [mtrapScallRet_get h0 h1]
    by_cases hrsp : r = .sp
    · rw [if_pos hrsp, hrsp, regsAfter_get_of_notMem (by decide)]
      exact humscratch.trans h.mscratch
    · rw [if_neg hrsp]
      by_cases h2 : r = .a2
      · rw [h2, regsAfter_get_of_notMem (by decide)]
        simpa [loadReg, huxreg] using h.arg2
      · by_cases h3 : r = .a3
        · rw [h3, regsAfter_get_of_notMem (by decide)]
          simpa [loadReg, huxreg] using h.arg3
        · have hr : ((u.loadReg .a2).loadReg .a3).x.get r = u.x.get r := by
            simp [loadReg, h2, h3]
          rw [hr, hregs r (by simp [h0, h2, h3])]
          refine regsAfter_get_congr ?_
          rw [hxregs r (by simp [h0, h1, h2, h3]), h.regs r (by simp [hrsp, h0, h1, h2, h3])]
  · rw [mtrapScallRet_mscratch]
    have husp : ((u.loadReg .a2).loadReg .a3).x.get .sp = u.x.get .sp := by
      simp [loadReg]
    rw [husp, hregs .sp (by decide), regsAfter_get_of_notMem (by decide), hsp]
  · rw [mtrapScallRet_mepc]
    exact congrArg (· + 4#64) humepc

/-! ## The calls -/

/-- A call that sends has saved two registers more before it uses them. -/
theorem Inside.sending (h : Inside s e) (hentered : Entered s e)
    (hregs : ∀ r ∉ [.a0, .a1, .a2, .a3], x.get r = e.x.get r) : Sending s (e.saved x) where
  toArgsSaved := h.argsSaved e.xreg hregs
  frame := by
    rw [hentered.frame]
    rfl

/-- The last receiver of a call in state `s`. -/
def callReceiver (plf : SbiPlf) (s : SbiHart) : Option U8 :=
  if s.x.get .a7 = sbiSendIpi then s.maskReceiver plf (s.fastPmask2mask plf (s.x.get .a0))
  else if s.x.get .a7 = sbiExtIpi ∧ s.x.get .a6 = 0#64 then
    s.maskReceiver plf (s.fastMaskoff2mask (s.x.get .a0) (s.x.get .a1))
  else none

/-- The legacy call, with its mask read through the pointer. -/
theorem resumes_sbiCallSendIpi (plf : SbiPlf) (s : SbiHart) (v : U64) :
    Resumes plf s ((s.atTest v).sbiCallSendIpi plf)
      (s.maskReceiver plf (s.fastPmask2mask plf (s.x.get .a0))) := by
  have hentered := s.atTest_entered v
  obtain ⟨x, heq, hmask, hregs⟩ := hentered.sbiCallSendIpi_eq plf
  rw [heq]
  exact ((s.atTest_inside v).sending hentered hregs).resumes_lipiSendMasked hmask

/-- With an empty mask nothing is sent. -/
theorem maskReceiver_zero (plf : SbiPlf) (s : SbiHart) : s.maskReceiver plf 0#64 = none := by
  simp [maskReceiver, lastReceiver, sendsTo]

/-- The call with mask and base. -/
theorem resumes_sbi02CallSendIpi (plf : SbiPlf) (v : U64) (hfn : s.x.get .a6 = 0#64) :
    Resumes plf s ((s.atTest v).sbi02CallSendIpi plf)
      (s.maskReceiver plf (s.fastMaskoff2mask (s.x.get .a0) (s.x.get .a1))) := by
  have hentered := s.atTest_entered v
  by_cases hbig : (64#64).sle (s.x.get .a1)
  · obtain ⟨x, heq, hregs⟩ := hentered.sbi02CallSendIpi_of_sle plf hfn hbig
    rw [heq, fastMaskoff2mask, if_pos hbig, maskReceiver_zero]
    apply Inside.resumes_mtrapScallRet
    exact (s.atTest_inside v).of_regs hregs rfl rfl
  · obtain ⟨x, heq, hmask, hregs⟩ := hentered.sbi02CallSendIpi_eq plf hfn hbig
    rw [heq]
    exact ((s.atTest_inside v).sending hentered hregs).resumes_lipiSendMasked hmask

/-- A function that the extension does not have returns an error, with nothing sent. -/
theorem resumes_sbi02CallSendIpi_err (plf : SbiPlf) (v : U64) (hfn : s.x.get .a6 ≠ 0#64) :
    Resumes plf s ((s.atTest v).sbi02CallSendIpi plf) none := by
  have hfn' : (s.atTest v).x.get .a6 ≠ 0#64 := by rwa [(s.atTest_entered v).a6]
  rw [sbi02CallSendIpi, if_pos hfn']
  exact (s.atTest_inside v).resumes_sbi02CallRetErr

/-- Only the calls of S-mode return from here. -/
theorem mcause_of_mret (hmret : s.trapHander plf = .mret t) : s.mcause = excSmEcall := by
  by_contra hne
  rw [trapHander] at hmret
  simp [exec, saveReg, swapSp, RegFile.li, Ne.symm hne] at hmret
  split_ifs at hmret

/-- **Each call** that the fast path completes returns with the registers of its caller, but for
those of the last message. By cases of the call number. -/
theorem resumes_of_mret (hmret : s.trapHander plf = .mret t) :
    Resumes plf s t (s.callReceiver plf) := by
  have hinside := s.atTest_inside
  rw [trapHander_ecall plf (mcause_of_mret hmret)] at hmret
  rw [callReceiver]
  split_ifs at hmret with h7 h7 h7 h7 h7
  · cases hmret
    rw [if_pos h7.symm]
    exact resumes_sbiCallSendIpi plf s sbiSendIpi
  · cases hmret
    rw [← h7, if_neg (by decide), if_neg (fun h => absurd h.1 (by decide))]
    exact (hinside sbiSetTimer).resumes_lsbiCallTimerRet
  · cases hmret
    rw [← h7, if_neg (by decide), if_neg (fun h => absurd h.1 (by decide))]
    exact (hinside sbiExtTime).resumes_sbi02CallSetTimer
  · cases hmret
    rw [← h7, if_neg (by decide)]
    by_cases hfn : s.x.get .a6 = 0#64
    · rw [if_pos ⟨rfl, hfn⟩]
      exact resumes_sbi02CallSendIpi plf sbiExtIpi hfn
    · rw [if_neg fun h => hfn h.2]
      exact resumes_sbi02CallSendIpi_err plf sbiExtIpi hfn
  · cases hmret
    rw [← h7, if_neg (by decide), if_neg (fun h => absurd h.1 (by decide))]
    exact (hinside sbiClearIpi).resumes_sbiCallClearIpi

end SbiHart

open SbiHart

/-- **The fast path keeps the registers of the caller**, on RV64 unless it sends through ICCM and
the caller's temporaries are not by chance what the last message leaves in them. On RV32 it always
does. -/
theorem fastPath_keepsCaller_iff (plf : SbiPlf) (s t : SbiHart) (plf32 : SbiPlf32)
    (s32 t32 : SbiHart32) :
    (s.trapHander plf = .mret t →
      (s.CallerKept t ↔ plf.transport = .csr ∨ ∀ receiver, s.callReceiver plf = some receiver →
        HoldsSent plf (s.ipiN s.mscratch) receiver s.x)) ∧
      (s32.trapHander plf32 = .mret t32 → s32.CallerKept t32) :=
  ⟨fun hmret => (resumes_of_mret hmret).callerKept_iff,
    fun hmret => SbiHart32.kept_of_mret hmret⟩

/-- A platform with ICCM. -/
def iccmPlf : SbiPlf := { smallPlf with transport := .iccm, iccmSegABase := 0x40000#64 }

/-- Hart 0 of two that are online, before `sbi_send_ipi(2, 0)`. -/
def sendIpiToOther : SbiHart := { sendIpiCall 0#64 with x := (sendIpiCall 0#64).x.set .a0 2#64 }

/-- A platform of RV32. -/
def smallPlf32 : SbiPlf32 where
  mtimerBase := 0x2000000#32
  memBase := 0x80000000#32
  memSize := 0x10000000#32
  pageOffset := 0xC0000000#32
  tls0Base := 0x20000#32
  l2Stack8Core := false

/-- An RV32 hart before `sbi_set_timer(0x100000005)`. -/
def setTimerCall32 : SbiHart32 where
  x :=
    (((Rv.RegFile.mk fun _ => 0#32).set .a7 (sbiSetTimer.setWidth 32)).set .a0 5#32).set .a1 1#32
  mscratch := 0x10000#32
  mepc := 0x80200000#32
  mcause := excSmEcall.setWidth 32
  xreg := ⟨fun _ => 0#32⟩
  ipiN _ := 0#8
  mem _ := 0#32
  hartsOnline := 0x1#32
  numHarts := 1#32
  slotBitsShift := 0#32
  effects := []

/-- The mailbox in CSRs, and a call on RV32. -/
theorem fastPath_keepsCaller_csr :
    ∃ t t32, sendIpiToOther.trapHander smallPlf = .mret t ∧ sendIpiToOther.CallerKept t ∧
      setTimerCall32.trapHander smallPlf32 = .mret t32 ∧ setTimerCall32.CallerKept t32 := by
  obtain ⟨t, ht⟩ : ∃ t, sendIpiToOther.trapHander smallPlf = .mret t := ⟨_, rfl⟩
  obtain ⟨t32, ht32⟩ : ∃ t32, setTimerCall32.trapHander smallPlf32 = .mret t32 := ⟨_, rfl⟩
  have hkept := fastPath_keepsCaller_iff smallPlf sendIpiToOther t smallPlf32 setTimerCall32 t32
  exact ⟨t, t32, ht, (hkept.1 ht).mpr (.inl rfl), ht32, hkept.2 ht32⟩

/-- A call that tells hart 1 loses `t3`. -/
theorem fastPath_losesTemps : ¬ ∀ (plf : SbiPlf) (s t : SbiHart),
    s.trapHander plf = .mret t → s.CallerKept t := by
  intro hkept
  obtain ⟨t, ht⟩ : ∃ t, sendIpiToOther.trapHander iccmPlf = .mret t := ⟨_, rfl⟩
  have ht3 : ∀ t, sendIpiToOther.trapHander iccmPlf = .mret t → t.x.get .t3 = 2#64 := by
    rintro _ ⟨⟩
    decide +kernel
  have hsame := (hkept iccmPlf sendIpiToOther t ht).regs .t3 (by decide) (by decide)
  rw [ht3 t ht] at hsame
  exact absurd hsame (by decide)

end ScBl
