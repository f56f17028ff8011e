import ScBl.Lib.Pages
import ScBl.Lib.Prog
import ScBl.Lib.Rv
import ScBl.Xlen

/-!
# Remote fences (`mcall_sfence_vma`, `ipi_handler_sfence_vma`)

The message of a remote `sfence.vma`, as `mtrap.c` builds it, and the handlers in `mentry.S`
that a recipient runs with the address of the message in `a0`, on both widths. The size in the
message, its sign and the loop over pages together never miss a page of the range.
-/

namespace ScBl

open Pages Progs Rv

variable {x : Xlen}

/-- `PGSHIFT` -/
def pgshift : ℕ := 12
/-- `PGSIZE` -/
def pgsize : ℕ := 2 ^ pgshift

/-! ## The message -/

/-- `SCIPI_MSG_HANDLER_OFF` -/
def scipiMsgHandlerOff : ℕ := 8
/-- `SCIPI_MSG_PAYLOAD_OFF` -/
def scipiMsgPayloadOff : ℕ := 16

/-- `SCIPI_MSG_RFENCE_ADDR_OFF` -/
def Xlen.rfenceAddrOff (x : Xlen) : x.Word := BitVec.ofNat _ scipiMsgPayloadOff
/-- `SCIPI_MSG_RFENCE_SIZE_OFF` -/
def Xlen.rfenceSizeOff (x : Xlen) : x.Word := BitVec.ofNat _ (scipiMsgPayloadOff + x.hart8)
/-- `SCIPI_MSG_RFENCE_ASID_OFF` -/
def Xlen.rfenceAsidOff (x : Xlen) : x.Word :=
  BitVec.ofNat _ (scipiMsgPayloadOff + (x.hart8 + x.hart8))

/-- `TLB_FLUSH_THRESHOLD` -/
def Xlen.tlbFlushThreshold (x : Xlen) : x.Word := BitVec.ofNat _ (4 * pgsize)
/-- `SFENCE_ALL_SIZE` -/
def Xlen.sfenceAllSize (x : Xlen) : x.Word := -1

/-- Memory, by the words in use. -/
abbrev MsgMem (x : Xlen) : Type := x.Word → x.Word

/-- The size in a message. -/
def rfenceSize (size : x.Word) : x.Word :=
  if x.tlbFlushThreshold < size then x.sfenceAllSize else size

/-- `mcall_sfence_vma`, up to the message that it sends, in the slot at `msg` of the pool.
`handler` is the address of `ipi_handler_sfence_vma`. -/
def mcallSfenceVma (m : MsgMem x) (msg handler addr size : x.Word) : MsgMem x :=
  let m := Function.update m (msg + BitVec.ofNat _ scipiMsgHandlerOff) handler
  let m := Function.update m (msg + x.rfenceAddrOff) addr
  Function.update m (msg + x.rfenceSizeOff) (rfenceSize size)

/-- `mcall_sfence_vma_asid`, with the address of `ipi_handler_sfence_vma_asid`. -/
def mcallSfenceVmaAsid (m : MsgMem x) (msg handler addr size asid : x.Word) : MsgMem x :=
  let m := Function.update m (msg + BitVec.ofNat _ scipiMsgHandlerOff) handler
  let m := Function.update m (msg + x.rfenceAddrOff) addr
  let m := Function.update m (msg + x.rfenceSizeOff) (rfenceSize size)
  Function.update m (msg + x.rfenceAsidOff) asid

/-! ## The handlers -/

/-- A fence: of one page or of all, and for one address space or for all. -/
structure SfenceVma (x : Xlen) where
  va : Option x.Word
  asid : Option x.Word
  deriving DecidableEq

/-- A hart in a handler. -/
structure FenceHart (x : Xlen) where
  regs : RegFile (8 * x.hart8)
  /-- The fences, the latest last. -/
  fences : List (SfenceVma x)

namespace FenceHart

variable (m : MsgMem x) (rs2 : IntReg) (s : FenceHart x)

/-- Instructions on registers. -/
def onRegs (f : RegFile (8 * x.hart8) → RegFile (8 * x.hart8)) : FenceHart x :=
  { s with regs := f s.regs }

/-- `load_xreg rd, off(rs)` -/
def loadXreg (rd : IntReg) (off : x.Word) (rs : IntReg) : FenceHart x :=
  s.onRegs fun r => r.set rd (m (r.get rs + off))

/-- The operand of a fence; `zero` is none. -/
def fenceArg (r : IntReg) : Option x.Word := if r = .zero then none else some (s.regs.get r)

/-- `sfence.vma rs1, rs2` -/
def sfenceVma (rs1 rs2 : IntReg) : FenceHart x :=
  { s with fences := s.fences ++ [⟨s.fenceArg rs1, s.fenceArg rs2⟩] }

/-- A round of `.Lsfence_vma_loop`. -/
def lsfenceVmaLoop (_ : Unit) : Prog (FenceHart x) (Unit ⊕ Unit) :=
  act fun s =>
    let s := s.sfenceVma .a0 rs2
    let s := s.onRegs fun r => (r.sub .a1 .a1 .t0).add .a0 .a0 .t0
    -- `bgtz`
    (if BitVec.slt 0#_ (s.regs.get .a1) then .inl () else .inr (), s)

/-- Load the address, and test it and the size for zero in `t0`. -/
def loadAddr : FenceHart x :=
  (s.loadXreg m .a0 x.rfenceAddrOff .a0).onRegs fun r => r.or .t0 .a0 .a1

/-- Align the address, and add what that takes away to the size. -/
def alignRange : FenceHart x :=
  s.onRegs fun r =>
    let r := r.li .t0 (BitVec.ofNat _ (pgsize - 1))
    let r := r.and .t0 .a0 .t0
    let r := r.sub .a0 .a0 .t0
    let r := r.add .a1 .a1 .t0
    r.li .t0 (BitVec.ofNat _ pgsize)

/-- From the test of the size on, with the address space in `rs2`. -/
def lsfenceVma : Prog (FenceHart x) Unit := do
  let s ← act fun s => (s, s)
  -- `bltz`
  if (s.regs.get .a1).slt 0#_ then
    act fun s => ((), s.sfenceVma .zero rs2)
  else
    let s ← act fun s => (s.loadAddr m, s.loadAddr m)
    if s.regs.get .t0 = 0#_ then
      act fun s => ((), s.sfenceVma .zero rs2)
    else
      act fun s => ((), s.alignRange)
      loop (lsfenceVmaLoop rs2) ()

def ipiHandlerSfenceVma : Prog (FenceHart x) Unit := do
  act fun s => ((), s.loadXreg m .a1 x.rfenceSizeOff .a0)
  lsfenceVma m .zero

def ipiHandlerSfenceVmaAsid : Prog (FenceHart x) Unit := do
  act fun s =>
    ((), (s.loadXreg m .a1 x.rfenceSizeOff .a0).loadXreg m .t1 x.rfenceAsidOff .a0)
  lsfenceVma m .t1

/-! ## The size -/

variable {m : MsgMem x} {rs2 : IntReg} {s : FenceHart x} {addr size asid : x.Word}

theorem toNat_tlbFlushThreshold (x : Xlen) : x.tlbFlushThreshold.toNat = 4 * pgsize := by
  cases x <;> rfl

/-- The size in a message is negative where the threshold is passed. The receiver looks at the sign
only to fence everything. -/
theorem rfenceSize_slt : (rfenceSize size).slt 0#_ = decide (4 * pgsize < size.toNat) := by
  have hlt : x.tlbFlushThreshold < size ↔ 4 * pgsize < size.toNat := by
    rw [BitVec.lt_def, toNat_tlbFlushThreshold]
  rw [rfenceSize]
  by_cases hbig : 4 * pgsize < size.toNat
  · rw [if_pos (hlt.mpr hbig), decide_eq_true hbig]
    cases x <;> decide
  · rw [if_neg fun h => hbig (hlt.mp h), decide_eq_false hbig, BitVec.slt_zero_eq_msb,
      BitVec.msb_eq_false_iff_two_mul_lt]
    have hpow : 2 ^ 32 ≤ 2 ^ (8 * x.hart8) := Nat.pow_le_pow_right (by decide) x.le_bits
    simp only [pgsize, pgshift] at hbig
    omega

theorem pgsize_lt (x : Xlen) : pgsize < 2 ^ (8 * x.hart8) := by
  cases x <;> decide

/-! ## The loop -/

/-- What a range of pages from `va` on is fenced with. -/
def pageFence (asid : Option x.Word) (va : x.Word) : SfenceVma x := ⟨some va, asid⟩

/-- The registers that the loop and the code around it write. -/
def scratch : List IntReg := [.a0, .a1, .t0]

theorem fenceArg_of_writes {t : FenceHart x} {rs : List IntReg} (hrs2 : rs2 ∉ rs)
    (h : RegFile.Writes rs s.regs t.regs) : t.fenceArg rs2 = s.fenceArg rs2 := by
  rw [fenceArg, fenceArg, h rs2 hrs2]

/-- A round of the loop, with `n` bytes to go: one page is fenced before the test, so that a range
of no bytes has one page fenced as well. -/
theorem lsfenceVmaLoop_round (rs2 : IntReg) {n : ℕ} (ha1 : s.regs.get .a1 = BitVec.ofNat _ n)
    (ht0 : s.regs.get .t0 = BitVec.ofNat _ pgsize) (hn : n < 2 ^ 31) : ∃ t,
    Ends (lsfenceVmaLoop rs2 ()) s (if pgsize < n then .inl () else .inr ()) t ∧
      t.fences = s.fences ++ [pageFence (s.fenceArg rs2) (s.regs.get .a0)] ∧
      t.regs.get .a0 = s.regs.get .a0 + BitVec.ofNat _ pgsize ∧
      t.regs.get .a1 = BitVec.ofNat _ n - BitVec.ofNat _ pgsize ∧
      RegFile.Writes [.a0, .a1] s.regs t.regs := by
  have hslt := slt_ofNat_sub x.bits_pos (Xlen.lt_half hn) (Xlen.lt_half (n := pgsize) (by decide))
  refine ⟨(s.sfenceVma .a0 rs2).onRegs fun r => (r.sub .a1 .a1 .t0).add .a0 .a0 .t0,
    ⟨0, fun _ _ => ?_⟩, rfl, ?_, ?_, ?_⟩
  · have hleft : ((s.regs.sub .a1 .a1 .t0).add .a0 .a0 .t0).get .a1 =
        BitVec.ofNat _ n - BitVec.ofNat _ pgsize := by
      simp [RegFile.sub, RegFile.add, ha1, ht0]
    simp only [lsfenceVmaLoop, act, onRegs, sfenceVma, hleft, hslt, decide_eq_true_eq]
  · simp [onRegs, sfenceVma, RegFile.sub, RegFile.add, ht0]
  · simp [onRegs, sfenceVma, RegFile.sub, RegFile.add, ha1, ht0]
  · exact ((RegFile.Writes.refl _ _).set (by decide)).set (by decide)

/-- **The loop** fences pages until none of the `n` bytes is left, one at least. By induction on a
bound of the rounds, from an address that is aligned. -/
theorem lsfenceVmaLoop_ends (hrs2 : rs2 ∉ [.a0, .a1]) (k : ℕ) :
    ∀ {n : ℕ} {s : FenceHart x}, s.regs.get .a1 = BitVec.ofNat _ n →
      s.regs.get .t0 = BitVec.ofNat _ pgsize → n < 2 ^ 31 → n ≤ (k + 1) * pgsize →
      ∃ t c, EndsWithin (lsfenceVmaLoop rs2) (k + 1) () s () t ∧ c ≤ k + 1 ∧ n ≤ c * pgsize ∧
        t.fences = s.fences ++
          (pagesFrom pgshift (s.regs.get .a0) c).map (pageFence (s.fenceArg rs2)) ∧
        RegFile.Writes [.a0, .a1] s.regs t.regs := by
  induction k with
  | zero =>
    intro n s ha1 ht0 hn hle
    obtain ⟨t, hround, hfences, _, _, hwrites⟩ := lsfenceVmaLoop_round rs2 ha1 ht0 hn
    rw [if_neg (by omega)] at hround
    exact ⟨t, 1, .exit hround, by omega, hle, by simpa [pagesFrom_one] using hfences, hwrites⟩
  | succ k ih =>
    intro n s ha1 ht0 hn hle
    obtain ⟨t, hround, hfences, ha0, ha1', hwrites⟩ :=
      lsfenceVmaLoop_round rs2 ha1 ht0 hn
    by_cases hlast : pgsize < n
    · rw [if_pos hlast] at hround
      have hleft : t.regs.get .a1 = BitVec.ofNat _ (n - pgsize) := by
        rw [ha1', BitVec.ofNat_sub_ofNat_of_le _ _ (pgsize_lt x) hlast.le]
      obtain ⟨u, c, hrest, hc, hbytes, hfences', hwrites'⟩ := ih hleft
        ((hwrites .t0 (by decide)).trans ht0) (by omega) (by rw [Nat.succ_mul] at hle; omega)
      refine ⟨u, c + 1, .next hround hrest, by omega, by rw [Nat.succ_mul]; omega, ?_,
        hwrites.trans hwrites'⟩
      rw [hfences', hfences, ha0, fenceArg_of_writes hrs2 hwrites, pagesFrom_succ, List.map_cons,
        List.append_assoc]
      rfl
    · rw [if_neg hlast] at hround
      exact ⟨t, 1, .exit hround, by omega, by omega, by simpa [pagesFrom_one] using hfences,
        hwrites⟩

/-! ## A handler -/

/-- The fences flush all, or the pages that meet the bytes of a range, five at most. -/
def Flushes (addr size : x.Word) (asid : Option x.Word) (fences : List (SfenceVma x)) : Prop :=
  fences = [⟨none, asid⟩] ∨
    ∃ pages : List x.Word, fences = pages.map (pageFence asid) ∧ pages.length ≤ 5 ∧
      ∀ j < size.toNat, pageOf pgshift (addr + BitVec.ofNat _ j) ∈ pages

theorem loadAddr_spec (ha1 : s.regs.get .a1 = size)
    (hmsg : m (s.regs.get .a0 + x.rfenceAddrOff) = addr) :
    (s.loadAddr m).regs.get .a0 = addr ∧ (s.loadAddr m).regs.get .a1 = size ∧
      (s.loadAddr m).regs.get .t0 = addr ||| size := by
  refine ⟨?_, ?_, ?_⟩ <;> simp [loadAddr, loadXreg, onRegs, RegFile.or, ha1, hmsg]

theorem writes_loadAddr : RegFile.Writes scratch s.regs (s.loadAddr m).regs :=
  ((RegFile.Writes.refl _ _).set (by decide)).set (by decide)

/-- The registers where the loop starts: the page of the address, the bytes from there on, and the
size of a page. -/
theorem alignRange_spec (ha0 : s.regs.get .a0 = addr) (ha1 : s.regs.get .a1 = size) :
    s.alignRange.regs.get .a0 = pageOf pgshift addr ∧
      s.alignRange.regs.get .a1 = BitVec.ofNat _ (addr.toNat % pgsize + size.toNat) ∧
      s.alignRange.regs.get .t0 = BitVec.ofNat _ pgsize := by
  have hle := x.le_bits
  have hoffset := and_offsetMask (p := pgshift) (by simp only [pgshift]; omega) addr
  have hsize : BitVec.ofNat (8 * x.hart8) size.toNat = size := by
    rw [BitVec.ofNat_toNat, BitVec.setWidth_eq]
  refine ⟨?_, ?_, ?_⟩
  · rw [pageOf_eq_sub, ← hoffset]
    simp [alignRange, onRegs, RegFile.li, RegFile.and, RegFile.sub, RegFile.add, ha0, pgsize]
  · rw [BitVec.ofNat_add, hsize, BitVec.add_comm]
    simpa [alignRange, onRegs, RegFile.li, RegFile.and, RegFile.sub, RegFile.add, ha0, ha1,
      pgsize] using hoffset
  · simp [alignRange, onRegs, RegFile.li]

theorem writes_alignRange : RegFile.Writes scratch s.regs s.alignRange.regs :=
  (((((RegFile.Writes.refl _ _).set (by decide)).set (by decide)).set (by decide)).set
    (by decide)).set (by decide)

/-- A negative size. -/
theorem lsfenceVma_all (hslt : (s.regs.get .a1).slt 0#_) :
    Ends (lsfenceVma m rs2) s () (s.sfenceVma .zero rs2) := by
  refine .bind (Ends.act _ s) ?_
  rw [if_pos hslt]
  exact Ends.act _ s

/-- An address and a size of zero. -/
theorem lsfenceVma_zero (hslt : ¬ (s.regs.get .a1).slt 0#_)
    (hzero : (s.loadAddr m).regs.get .t0 = 0#_) :
    Ends (lsfenceVma m rs2) s () ((s.loadAddr m).sfenceVma .zero rs2) := by
  refine .bind (Ends.act _ s) ?_
  rw [if_neg hslt]
  refine .bind (Ends.act _ s) ?_
  rw [if_pos hzero]
  exact Ends.act _ _

/-- A range that is neither of the two: the loop fences it page by page. -/
theorem lsfenceVma_range {t : FenceHart x} (hslt : ¬ (s.regs.get .a1).slt 0#_)
    (hzero : (s.loadAddr m).regs.get .t0 ≠ 0#_)
    (hloop : Ends (loop (lsfenceVmaLoop rs2) ()) (s.loadAddr m).alignRange () t) :
    Ends (lsfenceVma m rs2) s () t := by
  refine .bind (Ends.act _ s) ?_
  rw [if_neg hslt]
  refine .bind (Ends.act _ s) ?_
  rw [if_neg hzero]
  exact .bind (Ends.act _ _) hloop

/-- **From the test of the size on**, with the size of a message in `a1`: everything for a size of
`-1` and for an empty range at 0, and else the pages of the range. -/
theorem lsfenceVma_ends (hrs2 : rs2 ∉ scratch) (ha1 : s.regs.get .a1 = rfenceSize size)
    (hmsg : m (s.regs.get .a0 + x.rfenceAddrOff) = addr) : ∃ t fences,
    Ends (lsfenceVma m rs2) s () t ∧ t.fences = s.fences ++ fences ∧
      Flushes addr size (s.fenceArg rs2) fences ∧
      ((addr = 0#_ ∧ size = 0#_) ∨ size = -1 → fences = [⟨none, s.fenceArg rs2⟩]) ∧
      RegFile.Writes scratch s.regs t.regs := by
  have hslt : (s.regs.get .a1).slt 0#_ = decide (4 * pgsize < size.toNat) := by
    rw [ha1, rfenceSize_slt]
  by_cases hbig : 4 * pgsize < size.toNat
  · exact ⟨_, _, lsfenceVma_all (hslt.trans (decide_eq_true hbig)), rfl, .inl rfl, fun _ => rfl,
      .refl _ _⟩
  · have hnot : ¬ (s.regs.get .a1).slt 0#_ := by
      rw [hslt, decide_eq_false hbig]
      exact Bool.false_ne_true
    have hsize : rfenceSize size = size :=
      if_neg fun h => hbig (by rwa [BitVec.lt_def, toNat_tlbFlushThreshold] at h)
    obtain ⟨ha0', ha1', ht0'⟩ := loadAddr_spec (ha1.trans hsize) hmsg
    by_cases hzero : addr ||| size = 0#_
    · have harg : (s.loadAddr m).fenceArg rs2 = s.fenceArg rs2 :=
        fenceArg_of_writes hrs2 writes_loadAddr
      refine ⟨_, [⟨none, s.fenceArg rs2⟩], lsfenceVma_zero hnot (ht0'.trans hzero), ?_, .inl rfl,
        fun _ => rfl, writes_loadAddr⟩
      rw [sfenceVma, harg]
      rfl
    · obtain ⟨ha0, ha1, ht0⟩ := alignRange_spec ha0' ha1'
      have hoffset : addr.toNat % pgsize < pgsize := Nat.mod_lt _ (by decide)
      have hloopRegs : [.a0, .a1] ⊆ scratch := by decide
      obtain ⟨t, c, hloop, hc, hbytes, hfences, hwrites⟩ :=
        lsfenceVmaLoop_ends (fun h => hrs2 (hloopRegs h)) 4 ha1 ht0
          (by simp only [pgsize, pgshift] at *; omega) (by simp only [pgsize, pgshift] at *; omega)
      have hrange : RegFile.Writes scratch s.regs (s.loadAddr m).alignRange.regs :=
        writes_loadAddr.trans writes_alignRange
      rw [ha0, fenceArg_of_writes hrs2 hrange] at hfences
      refine ⟨t, _, lsfenceVma_range hnot (ht0' ▸ hzero) hloop.ends, hfences,
        .inr ⟨_, rfl, by simpa using hc, fun j hj => ?_⟩, fun hall => ?_,
        hrange.trans (hwrites.mono hloopRegs)⟩
      · have hle := x.le_bits
        exact pageOf_mem_pagesFrom (by simp only [pgshift]; omega)
          (by simp only [pgsize] at hbytes; omega)
      · rcases hall with ⟨rfl, rfl⟩ | rfl
        · exact absurd BitVec.or_self hzero
        · exact absurd (by cases x <;> decide) hbig

/-! ## The message, read back -/

/-- The words of a message are apart. -/
theorem rfence_offsets (x : Xlen) : x.rfenceAddrOff ≠ x.rfenceSizeOff ∧
    x.rfenceAddrOff ≠ x.rfenceAsidOff ∧ x.rfenceSizeOff ≠ x.rfenceAsidOff := by
  cases x <;> decide

section

variable {msg handler : x.Word}

@[simp] theorem mcallSfenceVma_size :
    mcallSfenceVma m msg handler addr size (msg + x.rfenceSizeOff) = rfenceSize size :=
  Function.update_self ..

@[simp] theorem mcallSfenceVma_addr :
    mcallSfenceVma m msg handler addr size (msg + x.rfenceAddrOff) = addr := by
  obtain ⟨hne, _, _⟩ := rfence_offsets x
  rw [mcallSfenceVma, Function.update_of_ne fun h => hne (add_left_cancel h),
    Function.update_self]

/-- The message for an address space has one word more. -/
theorem mcallSfenceVmaAsid_eq : mcallSfenceVmaAsid m msg handler addr size asid =
    Function.update (mcallSfenceVma m msg handler addr size) (msg + x.rfenceAsidOff) asid := rfl

@[simp] theorem mcallSfenceVmaAsid_asid :
    mcallSfenceVmaAsid m msg handler addr size asid (msg + x.rfenceAsidOff) = asid :=
  Function.update_self ..

@[simp] theorem mcallSfenceVmaAsid_addr :
    mcallSfenceVmaAsid m msg handler addr size asid (msg + x.rfenceAddrOff) = addr := by
  obtain ⟨_, hne, _⟩ := rfence_offsets x
  rw [mcallSfenceVmaAsid_eq, Function.update_of_ne fun h => hne (add_left_cancel h),
    mcallSfenceVma_addr]

@[simp] theorem mcallSfenceVmaAsid_size :
    mcallSfenceVmaAsid m msg handler addr size asid (msg + x.rfenceSizeOff) = rfenceSize size := by
  obtain ⟨_, _, hne⟩ := rfence_offsets x
  rw [mcallSfenceVmaAsid_eq, Function.update_of_ne fun h => hne (add_left_cancel h),
    mcallSfenceVma_size]

end

/-- What a recipient does that has been told to flush a range, with `rs` for scratch. -/
def Handled (handler : Prog (FenceHart x) Unit) (addr size : x.Word) (asid : Option x.Word)
    (rs : List IntReg) (s : FenceHart x) : Prop :=
  ∃ t fences, Ends handler s () t ∧ t.fences = s.fences ++ fences ∧
    Flushes addr size asid fences ∧
    ((addr = 0#_ ∧ size = 0#_) ∨ size = -1 → fences = [⟨none, asid⟩]) ∧
    RegFile.Writes rs s.regs t.regs

/-- A handler loads words of the message and goes on. What differs between the handlers is which
words, and what `rs2` is. -/
theorem handled_of_load (m : MsgMem x) (f : FenceHart x → FenceHart x) (rs2 : IntReg)
    {rs : List IntReg} (hrs2 : rs2 ∉ scratch) (hfences : (f s).fences = s.fences)
    (hwrites : RegFile.Writes rs s.regs (f s).regs) (hrs : scratch ⊆ rs)
    (ha1 : (f s).regs.get .a1 = rfenceSize size)
    (hmsg : m ((f s).regs.get .a0 + x.rfenceAddrOff) = addr) :
    Handled (do act fun s => ((), f s); lsfenceVma m rs2) addr size ((f s).fenceArg rs2) rs s := by
  obtain ⟨t, fences, hends, hfences', hflushes, hall, hwrites'⟩ := lsfenceVma_ends hrs2 ha1 hmsg
  rw [hfences] at hfences'
  exact ⟨t, fences, .bind (Ends.act _ s) hends, hfences', hflushes, hall,
    hwrites.trans (hwrites'.mono hrs)⟩

theorem handled_sfenceVma (m : MsgMem x) (handler addr size : x.Word) (s : FenceHart x) :
    Handled (ipiHandlerSfenceVma (mcallSfenceVma m (s.regs.get .a0) handler addr size))
      addr size none [.a0, .a1, .t0] s :=
  handled_of_load _ (fun s => s.loadXreg _ .a1 x.rfenceSizeOff .a0) .zero (by decide) rfl
    ((RegFile.Writes.refl _ _).set (by decide)) (List.Subset.refl _)
    (by simp [loadXreg, onRegs]) (by simp [loadXreg, onRegs])

theorem handled_sfenceVmaAsid (m : MsgMem x) (handler addr size asid : x.Word)
    (s : FenceHart x) :
    Handled (ipiHandlerSfenceVmaAsid
        (mcallSfenceVmaAsid m (s.regs.get .a0) handler addr size asid))
      addr size (some asid) [.a0, .a1, .t0, .t1] s := by
  obtain ⟨m', hm'⟩ :
      ∃ m', m' = mcallSfenceVmaAsid m (s.regs.get .a0) handler addr size asid := ⟨_, rfl⟩
  obtain ⟨f, hf⟩ : ∃ f : FenceHart x → FenceHart x, f = fun s =>
      (s.loadXreg m' .a1 x.rfenceSizeOff .a0).loadXreg m' .t1 x.rfenceAsidOff .a0 := ⟨_, rfl⟩
  have harg : (f s).fenceArg .t1 = some asid := by
    simp [hf, fenceArg, loadXreg, onRegs, hm']
  have ha1 : (f s).regs.get .a1 = rfenceSize size := by
    simp [hf, loadXreg, onRegs, hm']
  have hmsg : m' ((f s).regs.get .a0 + x.rfenceAddrOff) = addr := by
    simp [hf, loadXreg, onRegs, hm']
  have hwrites : RegFile.Writes [.a0, .a1, .t0, .t1] s.regs (f s).regs := by
    rw [hf]
    exact ((RegFile.Writes.refl _ _).set (by decide)).set (by decide)
  have hhandled := handled_of_load m' f .t1 (by decide) (by rw [hf]; rfl) hwrites (by decide) ha1
    hmsg
  rw [harg, hf] at hhandled
  rw [← hm']
  exact hhandled

/-- **A remote fence** covers its range, whatever the range: the recipient flushes all, or every
page that meets the range, and spares all registers but the scratch of its handler. -/
theorem rfence_covers (m : MsgMem x) (handler handlerAsid addr size asid : x.Word)
    (s : FenceHart x) :
    Handled (ipiHandlerSfenceVma (mcallSfenceVma m (s.regs.get .a0) handler addr size))
      addr size none [.a0, .a1, .t0] s ∧
    Handled (ipiHandlerSfenceVmaAsid
        (mcallSfenceVmaAsid m (s.regs.get .a0) handlerAsid addr size asid))
      addr size (some asid) [.a0, .a1, .t0, .t1] s :=
  ⟨handled_sfenceVma m handler addr size s,
    handled_sfenceVmaAsid m handlerAsid addr size asid s⟩

end FenceHart

end ScBl
