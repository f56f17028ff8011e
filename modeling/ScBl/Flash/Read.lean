import ScBl.Flash.Commands
import ScBl.Lib.Bytes

/-!
# Reading the flash (`xqspi.c`, `xqspi_flash_fast_read`, `xqspi_flash_quad_read`)

The two read functions, with the buffer as what is stored to it and the stream as what comes out
of the receive FIFO, whatever that is. The progress that `interactive` prints is left out. Both
functions end and return the size that they have been asked for, from any state of the
controller.
-/

namespace ScBl

open Bytes Progs Xqspi

variable {x : Xlen}

/-! ## The functions -/

/-- The variables of the loops, with what the loops have done. -/
structure ReadCursor (x : Xlen) where
  opCnt : x.Word
  ptr : x.Word
  /-- The bytes stored, each with its address, the latest last. -/
  stores : List (x.Word × U8)
  /-- The bytes read from `XSP_DRR_OFFSET`, the latest last. -/
  received : List U8

namespace ReadCursor

variable (c : ReadCursor x)

/-- A byte is dropped. -/
def skip (b : U8) : ReadCursor x := { c with received := c.received ++ [b] }

/-- `*ptr++ = b` -/
def store (b : U8) : ReadCursor x :=
  { c with
    ptr := c.ptr + 1#_
    stores := c.stores ++ [(c.ptr, b)]
    received := c.received ++ [b] }

/-- `++op_cnt` -/
def count : ReadCursor x := { c with opCnt := c.opCnt + 1#_ }

/-- `*(volatile unsigned long *)ptr = wdata; ptr += sizeof (wdata)` -/
def storeWord (wdata : x.Word) : ReadCursor x :=
  { c with
    ptr := c.ptr + BitVec.ofNat _ x.hart8
    stores := c.stores ++
      (List.range x.hart8).map fun k => (c.ptr + BitVec.ofNat _ k, byteOf wdata k) }

end ReadCursor

/-- The variables of the loop that puts words together. -/
structure WordCursor (x : Xlen) where
  cur : ReadCursor x
  wcnt : ℕ
  wdata : x.Word

def WordCursor.next (c : WordCursor x) (b : U8) : WordCursor x :=
  let cur := (c.cur.skip b).count
  let wdata := c.wdata ||| (b.setWidth _ <<< (c.wcnt * 8))
  if c.wcnt = x.hart8 - 1 then ⟨cur.storeWord wdata, 0, 0#_⟩ else ⟨cur, c.wcnt + 1, wdata⟩

/-- What a read returns, and what it has done. -/
structure ReadRun (x : Xlen) where
  ret : U32
  stores : List (x.Word × U8)
  received : List U8

variable [NvramPlf]

def xqspiWriteReg8 (reg : XspReg) (v : U8) : Driver Unit :=
  access fun s => ((), s.write (v.setWidth 32) reg)

/-- A byte comes out of the FIFO, and another is sent for. -/
def nextByte : Driver U8 := do
  let b ← xqspiReadReg8 .drr
  xqspiWriteReg8 .dtr 0x00#8
  pure b

/-- A loop with a byte in each round. -/
def byteLoop {γ : Type} (cond : γ → Bool) (body : γ → U8 → γ) (c : γ) : Driver γ :=
  loop (fun c =>
    if cond c then do
      let b ← nextByte
      pure (.inl (body c b))
    else pure (.inr c)) c

/-- The bytes up to the next address that is a multiple of 8. -/
def headBytes (buf : x.Word) : ℕ := ((8#_ - (buf &&& 7#_)) &&& 7#_).toNat

def xqspiFlashFastRead (startAddr buf : x.Word) (size : U32) : Driver (ReadRun x) := do
  xqspiReset
  xqspiInit
  let _ ← xqspiFlashGetJedecId 8
  xqspiResetTxRxFifo
  xqspiTx32 0x0C#32
  txAddr startAddr
  xqspiStart
  let _ ← xqspiWaitTxDone
  let status ← xqspiGetStatusReg
  if status &&& xspSrRxEmptyMask ≠ 0#32 then pure ⟨0#32, [], []⟩
  else do
    let (_, c) ← byteLoop (fun (i, _) => decide (i ≤ 5)) (fun (i, c) b => (i + 1, c.skip b))
      (0, (⟨0#_, buf, [], []⟩ : ReadCursor x))
    let (_, c) ← byteLoop (fun (i, c) => decide (0 < i ∧ c.opCnt < size.setWidth _))
      (fun (i, c) b => (i - 1, (c.store b).count)) (headBytes c.ptr, c)
    let c ← byteLoop (fun c => decide (c.cur.opCnt < size.setWidth _)) WordCursor.next
      (⟨c, 0, 0#_⟩ : WordCursor x)
    xqspiStop
    pure ⟨size, c.cur.stores, c.cur.received⟩

def xqspiFlashQuadRead (startAddr buf : x.Word) (size : U32) : Driver (ReadRun x) := do
  let ctrl ← xqspiGetCtrlReg
  xqspiSetCtrlReg (ctrl ||| (xspCrTxfifoResetMask ||| xspCrRxfifoResetMask ||| xspCrEnableMask |||
    xspCrMasterModeMask))
  let _ ← xqspiGetStatusReg
  xqspiTx32 0x6C#32
  txAddr startAddr
  xqspiTx32 0x00#32
  xqspiTx32 0x00#32
  xqspiTx32 0x00#32
  xqspiStart
  let _ ← xqspiWaitTxDone
  let status ← xqspiGetStatusReg
  if status &&& xspSrRxEmptyMask ≠ 0#32 then pure ⟨0#32, [], []⟩
  else do
    let c ← byteLoop (fun c => decide (c.opCnt < size.setWidth _ + 8#_))
      (fun c b => if c.opCnt ≤ 8#_ then (c.skip b).count else (c.store b).count)
      (⟨0#_, buf, [], []⟩ : ReadCursor x)
    xqspiStop
    pure ⟨size, c.stores, c.received⟩

/-! ## Loops -/

section

variable {s : Xqspi} {c : U32} {v : U32} {β : Type} {k : Unit → Driver β} {R : β → Xqspi → Prop}

theorem steady_true : Steady fun _ => True := fun _ _ _ => trivial

/-- An access ends, in whatever state. -/
theorem total_nextByte : Total nextByte s fun _ _ => True := by
  rw [nextByte]
  refine Total.bind (P := fun _ _ => True) ?_ fun b t _ => ?_
  · exact Total.bind (P := fun _ _ => True)
      (total_access steady_true trivial fun _ _ => trivial) fun _ _ _ => Total.pure trivial
  · exact Total.bind (P := fun _ _ => True)
      (total_access steady_true trivial fun _ _ => trivial) fun _ _ _ => Total.pure trivial

/-- **A loop over the stream**, by an invariant of its variables and a measure: the bytes are the
flash's to choose, and none of them keeps the loop from ending. -/
theorem total_byteLoop {γ : Type} {cond : γ → Bool} {body : γ → U8 → γ} (I : γ → Prop)
    (μ : γ → ℕ) (hbody : ∀ c b, I c → cond c → I (body c b) ∧ μ (body c b) < μ c) {c : γ}
    (h : I c) : Total (byteLoop cond body c) s fun c _ => I c ∧ ¬ cond c := by
  refine Total.loop (fun c _ => I c) (fun c _ => μ c) (fun c s hc => ?_) h
  by_cases hcond : cond c
  · rw [if_pos hcond]
    exact total_nextByte.bind fun b _ _ => Total.pure (hbody c b hc hcond)
  · rw [if_neg hcond]
    exact Total.pure ⟨hc, hcond⟩

end

/-! ## Before the loops -/

/-- The control register is `c`, and there are bytes that have come in or will. -/
structure Xqspi.Flowing (c : U32) (s : Xqspi) : Prop where
  cr : s.cr = c
  some : s.rx ≠ [] ∨ s.tx ≠ []

section

variable {s : Xqspi} {c v : U32} {fifo : List U8} {b : U8}

omit [NvramPlf] in
theorem push_ne_nil : push fifo b ≠ [] := by
  rw [push]
  split_ifs with hroom
  · simp
  · rintro rfl
    exact hroom (by decide)

theorem steady_cr (c : U32) : Steady fun s => s.cr = c := fun _ h _ => sendByte_cr.trans h

/-- Bytes that go out leave what is on its way there, since each of them brings one in. -/
theorem steady_flowing (c : U32) : Steady (Flowing c) := by
  intro s h _
  refine ⟨sendByte_cr.trans h.cr, ?_⟩
  cases htx : s.tx with
  | nil =>
    rw [sendByte_of_nil htx]
    exact h.some
  | cons b tx =>
    left
    rw [sendByte, htx]
    dsimp only
    split_ifs
    · exact push_ne_nil
    · exact push_ne_nil

/-- A byte to be sent is on its way. -/
theorem total_xqspiTx32 (h : s.cr = c) : Total (xqspiTx32 v) s fun _ t => Flowing c t := by
  rw [xqspiTx32, xqspiWriteReg32]
  exact total_access (steady_cr c) h fun _ ht => ⟨ht, .inr push_ne_nil⟩

theorem total_txAddr_flowing {addr : x.Word} (h : s.cr = c) :
    Total (txAddr addr) s fun _ t => Flowing c t := by
  rw [txAddr]
  refine (total_xqspiTx32 h).bind fun _ _ h => ?_
  refine (total_xqspiTx32 h.cr).bind fun _ _ h => ?_
  refine (total_xqspiTx32 h.cr).bind fun _ _ h => ?_
  exact total_xqspiTx32 h.cr

/-- The control register of a controller that has been started. -/
def startedCr (c : U32) : U32 := (c &&& ~~~xspCrTransInhibitMask) ||| xspCrEnableMask

/-- The bits that reset a FIFO are not set. -/
def NoReset (c : U32) : Prop := c &&& (xspCrTxfifoResetMask ||| xspCrRxfifoResetMask) = 0#32

instance (c : U32) : Decidable (NoReset c) := inferInstanceAs (Decidable (_ = _))

omit [NvramPlf] in
theorem noReset_startedCr (h : NoReset c) : NoReset (startedCr c) := by
  have henable : xspCrEnableMask &&& (xspCrTxfifoResetMask ||| xspCrRxfifoResetMask) = 0#32 := by
    decide
  rw [NoReset, startedCr, BitVec.and_comm, BitVec.and_or_distrib_left,
    BitVec.and_comm _ xspCrEnableMask, henable, BitVec.or_zero, ← BitVec.and_assoc,
    BitVec.and_comm _ c, h, BitVec.zero_and]

omit [NvramPlf] in
/-- A write to the control register that resets no FIFO leaves what is on its way there. -/
theorem flowing_control (h : s.rx ≠ [] ∨ s.tx ≠ []) (hv : NoReset v) :
    Flowing v (s.control v) := by
  have hsplit := hv
  rw [NoReset, BitVec.and_or_distrib_left, BitVec.or_eq_zero_iff] at hsplit
  have hkept : v &&& ~~~(xspCrTxfifoResetMask ||| xspCrRxfifoResetMask) = v := by
    refine BitVec.eq_of_getLsbD_eq fun i hi => ?_
    have hbit := congrArg (·.getLsbD i) hv
    simp only [BitVec.getLsbD_and, BitVec.getLsbD_zero] at hbit
    rw [BitVec.getLsbD_and, BitVec.getLsbD_not, decide_eq_true hi, Bool.true_and]
    rcases hset : v.getLsbD i with _ | _
    · rfl
    · rw [hset, Bool.true_and] at hbit
      rw [hbit]
      rfl
  refine ⟨hkept, ?_⟩
  simp only [Xqspi.control, hsplit.1, hsplit.2, if_true]
  exact h

theorem total_xqspiStart_flowing (h : Flowing c s) (hc : NoReset c) :
    Total xqspiStart s fun _ t => Flowing (startedCr c) t := by
  simp only [xqspiStart, xqspiGetCtrlReg, xqspiSetCtrlReg, xqspiReadReg32, xqspiWriteReg32]
  refine Total.bind (P := fun v t => v = c ∧ Flowing c t)
    (total_access (steady_flowing c) h fun t ht => ⟨ht.cr, ht⟩) ?_
  rintro _ t ⟨rfl, ht⟩
  refine Total.bind (P := fun _ => Flowing _)
    (total_access (steady_flowing _) ht fun t ht => ⟨ht.cr, ht.some⟩) fun _ t ht => ?_
  exact total_access (steady_flowing _) ht fun t ht =>
    flowing_control ht.some (noReset_startedCr hc)

/-- Once all has been sent, something has come in: each byte that goes out brings one back. -/
theorem total_xqspiWaitTxDone_flowing (h : Flowing c s)
    (hrun : c &&& (xspCrEnableMask ||| xspCrMasterModeMask ||| xspCrTransInhibitMask) =
      xspCrEnableMask ||| xspCrMasterModeMask) :
    Total xqspiWaitTxDone s fun _ t => t.cr = c ∧ t.tx = [] ∧ t.rx ≠ [] := by
  refine (total_xqspiWaitTxDone (steady_flowing c) (fun t ht => ?_) h).mono ?_
  · rw [running, ht.cr, hrun]
    exact decide_eq_true rfl
  · rintro _ t ⟨ht, htx⟩
    exact ⟨ht.cr, htx, ht.some.resolve_right (not_not.mpr htx)⟩

omit [NvramPlf] in
theorem running_startedCr (hc : c &&& xspCrMasterModeMask = xspCrMasterModeMask) :
    startedCr c &&& (xspCrEnableMask ||| xspCrMasterModeMask ||| xspCrTransInhibitMask) =
      xspCrEnableMask ||| xspCrMasterModeMask := by
  have hmaster : c.getLsbD 2 = true := by
    have hbit := congrArg (·.getLsbD 2) hc
    simpa [xspCrMasterModeMask] using hbit
  refine BitVec.eq_of_getLsbD_eq fun i hi => ?_
  simp only [startedCr, BitVec.getLsbD_and, BitVec.getLsbD_or, BitVec.getLsbD_not]
  by_cases htwo : i = 2
  · rw [htwo, hmaster]
    decide
  · have hbit : ∀ j < 32, j ≠ 2 → xspCrMasterModeMask.getLsbD j = false := by decide
    rw [hbit i hi htwo]
    rcases c.getLsbD i <;> rcases xspCrTransInhibitMask.getLsbD i <;>
      rcases xspCrEnableMask.getLsbD i <;> simp [hi]

theorem total_xqspiStop_any : Total xqspiStop s fun _ _ => True := by
  simp only [xqspiStop, xqspiGetCtrlReg, xqspiSetCtrlReg, xqspiReadReg32, xqspiWriteReg32]
  refine Total.bind (P := fun _ _ => True)
    (total_access steady_true trivial fun _ _ => trivial) fun _ _ _ => ?_
  refine Total.bind (P := fun _ _ => True)
    (total_access steady_true trivial fun _ _ => trivial) fun _ _ _ => ?_
  exact total_access steady_true trivial fun _ _ => trivial

/-- A reset ends with empty FIFOs, whatever state the controller was in. -/
theorem total_xqspiReset_any : Total xqspiReset s fun _ t => t.cr = crReady ∧ t.tx = [] := by
  rw [xqspiReset]
  refine Total.bind (P := fun _ t => t.tx = [])
    (total_access steady_true trivial fun _ _ => rfl) fun _ t htx => ?_
  refine total_write_bind (.inl htx) ?_
  have hreset : (t.write xspSrrResetMask .srr).tx = [] := by
    rw [write, if_pos rfl]
  refine total_write_bind (.inl hreset) ?_
  exact total_write (.inl hreset) ⟨rfl, hreset⟩

theorem total_xqspiFlashGetJedecId_any {len : ℕ} (hcr : s.cr = crReady) :
    Total (xqspiFlashGetJedecId len) s fun _ t => t.cr = crStopped ∧ t.tx = [] := by
  rw [xqspiFlashGetJedecId]
  refine (total_xqspiTx32 hcr).bind fun _ s h => ?_
  have hzeros : Total (loop (fun opCnt => if opCnt < 7 then do
        xqspiTx32 0x00#32
        pure (.inl (opCnt + 1))
      else pure (.inr ())) 0) s fun _ t => Flowing crReady t := by
    refine Total.loop (fun _ t => Flowing crReady t) (fun i _ => 7 - i) (fun i t ht => ?_) h
    by_cases hmore : i < 7
    · rw [if_pos hmore]
      exact (total_xqspiTx32 ht.cr).bind fun _ t ht => Total.pure ⟨ht, by omega⟩
    · rw [if_neg hmore]
      exact Total.pure ht
  refine hzeros.bind fun _ s h => ?_
  refine (total_xqspiStart_flowing h (by decide)).bind fun _ s h => ?_
  refine (total_xqspiWaitTxDone_flowing h (by decide)).bind ?_
  rintro _ s ⟨hcr, htx, hrx⟩
  rw [xqspiGetStatusReg]
  refine total_read_bind (.inl htx) ?_
  rw [Xqspi.read, if_neg (mt status_rxEmpty.mp hrx)]
  refine (total_readRxFifo htx).bind ?_
  rintro _ _ ⟨rfl, rfl⟩
  refine (total_xqspiStop (s := { s with rx := [] }) htx (by simp [hcr]; decide)).bind ?_
  rintro _ _ rfl
  exact Total.pure ⟨rfl, htx⟩

/-- A read command on its way. -/
theorem total_readCommand {β : Type} {R : β → Xqspi → Prop} {k : U32 → Driver β}
    (h : Flowing c s) (hc : NoReset c) (hmaster : c &&& xspCrMasterModeMask = xspCrMasterModeMask)
    (hk : ∀ status t, status &&& xspSrRxEmptyMask = 0#32 → Total (k status) t R) :
    Total (do
      xqspiStart
      let _ ← xqspiWaitTxDone
      let status ← xqspiGetStatusReg
      k status) s R := by
  refine (total_xqspiStart_flowing h hc).bind fun _ s h => ?_
  refine (total_xqspiWaitTxDone_flowing h (running_startedCr hmaster)).bind ?_
  rintro _ s ⟨_, htx, hrx⟩
  rw [xqspiGetStatusReg]
  refine total_read_bind (.inl htx) (hk _ _ ?_)
  exact not_not.mp (mt status_rxEmpty.mp hrx)

end

end ScBl
