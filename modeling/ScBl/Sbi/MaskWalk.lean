import ScBl.Lib.Prog
import ScBl.Lib.Rv
import ScBl.Sbi.MaskLoop
import ScBl.Xlen

/-!
# The hart-mask walk on both widths (`.Lipi_send_masked`, `ipi_send_wait`)

The labels of `mentry.S` between the mask in `a3` and the end of the loop, with the mailbox in
CSRs and the polling of its status: every read of `SCR_CSR_IPI_MSTATUS` is a step, and what it
finds is for the hardware to choose. The walk ends in a round for each hart and one more, and
signals the harts of the mask.
-/

namespace ScBl

open Progs Rv

variable {x : Xlen}

/-! ## The hart -/

/-- The constants of a platform. -/
structure WalkPlf (x : Xlen) where
  /-- `__TLS0_BASE__` -/
  tls0Base : x.Word
  /-- `PLF_L2_STACK_8CORE` -/
  l2Stack8Core : Bool
  /-- `__riscv_32e` -/
  riscv32e : Bool

namespace WalkPlf

variable (plf : WalkPlf x)

/-- `HLSHIFT` -/
def hlshift : ℕ := if plf.l2Stack8Core then 11 else 12

/-- `HLSIZE` -/
def hlsize : x.Word := BitVec.ofNat _ (2 ^ plf.hlshift)

/-- The offset of `hls.ipi_n` in the storage of a hart, past `xreg`. -/
def ipiNOff : x.Word := BitVec.ofNat _ ((if plf.riscv32e then 16 else 32) * x.hart8)

/-- `hart_tls`, the storage of hart `i` -/
def hartTls (i : ℕ) : x.Word := plf.tls0Base - BitVec.ofNat _ (i * 2 ^ plf.hlshift)

end WalkPlf

/-- What the walk does outside of the registers. -/
inductive WalkAccess (x : Xlen)
  /-- A load of a word of the storage of a hart. -/
  | load (addr : x.Word)
  /-- A read of `SCR_CSR_IPI_MSTATUS`, with `SCR_CSR_IPI_MADDR = slot`. -/
  | poll (slot : x.Word)
  /-- A write of `word` to `SCR_CSR_IPI_MWDATA`, with `SCR_CSR_IPI_MADDR = slot`. -/
  | post (slot word : x.Word)
  deriving DecidableEq

/-- What the walk finds. -/
structure WalkEnv (x : Xlen) where
  /-- Memory, by words. -/
  mem : x.Word → x.Word
  numHarts : U32
  slotBitsShift : U32
  /-- `SCR_CSR_IPI_MSTATUS` after these accesses, with this slot in `SCR_CSR_IPI_MADDR`. -/
  mstatus : List (WalkAccess x) → x.Word → x.Word

/-- A hart on the walk. -/
structure WalkHart (x : Xlen) where
  regs : RegFile (8 * x.hart8)
  mip : x.Word
  /-- `SCR_CSR_IPI_MADDR` -/
  maddr : x.Word
  /-- The accesses, the latest last. -/
  log : List (WalkAccess x)

/-- `SCR_IPI_SEND_CSHIFT` -/
def Xlen.sendCshift (x : Xlen) : ℕ := 8 * x.hart8 - 10

namespace WalkHart

variable (plf : WalkPlf x) (env : WalkEnv x) (s : WalkHart x)

/-! ## Instructions -/

/-- Instructions on registers. -/
def onRegs (f : RegFile (8 * x.hart8) → RegFile (8 * x.hart8)) : WalkHart x :=
  { s with regs := f s.regs }

/-- A load of the word at an offset. -/
def loadOffs (rd : IntReg) (off : x.Word) (rs : IntReg) : WalkHart x :=
  { s with
    regs := s.regs.set rd (env.mem (s.regs.get rs + off))
    log := s.log ++ [.load (s.regs.get rs + off)] }

/-- `csrs mip, bits` -/
def setMip (bits : x.Word) : WalkHart x := { s with mip := s.mip ||| bits }

/-- `csrw SCR_CSR_IPI_MADDR, rs` -/
def writeMaddr (rs : IntReg) : WalkHart x := { s with maddr := s.regs.get rs }

/-- `csrr rd, SCR_CSR_IPI_MSTATUS` -/
def readMstatus (rd : IntReg) : WalkHart x :=
  { s with
    regs := s.regs.set rd (env.mstatus s.log s.maddr)
    log := s.log ++ [.poll s.maddr] }

/-- `csrw SCR_CSR_IPI_MWDATA, rs` -/
def writeMwdata (rs : IntReg) : WalkHart x :=
  { s with log := s.log ++ [.post s.maddr (s.regs.get rs)] }

/-! ## Labels -/

def lipiStatusWait (_ : Unit) : Prog (WalkHart x) (Unit ⊕ Unit) :=
  act fun s =>
    let s := s.readMstatus env .a0
    (if s.regs.get .a0 ≠ 0#_ then .inl () else .inr (), s)

def ipiSendWait : Prog (WalkHart x) Unit := do
  act fun s => ((), s.writeMaddr .a0)
  loop (lipiStatusWait env) ()
  act fun s => ((), s.writeMwdata .a1)

/-- The head of a round: the next bit of the mask, and the storage of its hart. -/
def lipiMaskShift : WalkHart x :=
  s.onRegs fun r => ((r.slli .a3 .a3 1).li .a0 plf.hlsize).add .a2 .a2 .a0

/-- The body of a round, by the bit of the mask and the hart. -/
def lipiMaskBody (s : WalkHart x) : Prog (WalkHart x) Unit :=
  -- `bgez a3`
  if ¬ (s.regs.get .a3).msb then pure ()
  else if s.regs.get .a2 = s.regs.get .sp then
    act fun s => ((), s.setMip (1#_ <<< intSmSoftware))
  else do
    act fun s => ((), s.loadOffs env .a0 plf.ipiNOff .a2)
    ipiSendWait env

/-- A round of the loop. -/
def lipiMaskLoop (_ : Unit) : Prog (WalkHart x) (Unit ⊕ Unit) := do
  let s ← act fun s => (s.lipiMaskShift plf, s.lipiMaskShift plf)
  lipiMaskBody plf env s
  act fun s => (if s.regs.get .a3 ≠ 0#_ then .inl () else .inr (), s)

/-- `.Lipi_send_masked`, up to the loop. -/
def lipiMaskStart : WalkHart x :=
  s.onRegs fun r =>
    let r := r.li .a1 (BitVec.ofNat _ scrIpiCmdSignal <<< x.sendCshift)
    let r := r.li .a2 (env.slotBitsShift.signExtend _)
    let r := r.sll .a1 .a1 .a2
    let r := r.li .a2 (env.numHarts.signExtend _)
    let r := r.addi .a0 .a2 (1 - BitVec.ofNat _ (8 * x.hart8))
    let r := r.neg .a0 .a0
    let r := r.sll .a3 .a3 .a0
    let r := r.slli .a0 .a2 plf.hlshift
    let r := r.li .a2 plf.tls0Base
    r.sub .a2 .a2 .a0

/-- `.Lipi_send_masked`, with as many rounds of its loop as it takes. -/
def lipiSendMasked : Prog (WalkHart x) Unit := do
  act fun s => ((), s.lipiMaskStart plf env)
  loop (lipiMaskLoop plf env) ()

/-! ## What is to be signalled -/

/-- Where the number of the slot of hart `i` is. -/
def slotAddr (plf : WalkPlf x) (i : ℕ) : x.Word := plf.hartTls i + plf.ipiNOff

/-- The slot of hart `i`, its `hls.ipi_n`. -/
def slot (plf : WalkPlf x) (env : WalkEnv x) (i : ℕ) : x.Word := env.mem (slotAddr plf i)

/-- `SCR_IPI_CMD_SIGNAL`, as `ipi_send_data` writes it. -/
def signalWord (env : WalkEnv x) : x.Word :=
  BitVec.ofNat _ scrIpiCmdSignal <<< x.sendCshift <<< (env.slotBitsShift.toNat % (8 * x.hart8))

/-- The harts below `k` that a mask has beside the own one, the last first. -/
def others (mask : x.Word) (self k : ℕ) : List ℕ :=
  ((List.range k).filter fun i => mask.getLsbD i && decide (i ≠ self)).reverse

/-- The posts among some accesses, each a slot and a word. -/
def posts (log : List (WalkAccess x)) : List (x.Word × x.Word) :=
  log.filterMap fun
    | .post slot word => some (slot, word)
    | _ => none

/-- The addresses of the loads. -/
def loads (log : List (WalkAccess x)) : List x.Word :=
  log.filterMap fun
    | .load addr => some addr
    | _ => none

/-- The receiver at a slot reports free at last, whatever has been done before. -/
def Frees (env : WalkEnv x) (slot : x.Word) : Prop :=
  ∀ log, ∃ k, env.mstatus (log ++ List.replicate k (.poll slot)) slot = 0#_

/-- From `s` to `t` the harts of a list have been signalled, and the own one if `own`. -/
structure Walked (plf : WalkPlf x) (env : WalkEnv x) (harts : List ℕ) (own : Prop)
    (s t : WalkHart x) : Prop where
  log : ∃ log, t.log = s.log ++ log ∧
    posts log = harts.map (fun i => (slot plf env i, signalWord env)) ∧
    loads log = harts.map (slotAddr plf)
  mip : (own → t.mip = s.mip ||| 1#_ <<< intSmSoftware) ∧ (¬ own → t.mip = s.mip)

variable {plf : WalkPlf x} {env : WalkEnv x} {s t u : WalkHart x} {harts harts' : List ℕ}
  {own own' : Prop} {mask : x.Word} {self k : ℕ}

/-- Registers alone. -/
theorem Walked.of_kept (hlog : t.log = s.log) (hmip : t.mip = s.mip) :
    Walked plf env [] False s t where
  log := ⟨[], by simp [hlog], rfl, rfl⟩
  mip := ⟨False.elim, fun _ => hmip⟩

theorem Walked.trans (h : Walked plf env harts own s t) (h' : Walked plf env harts' own' t u) :
    Walked plf env (harts ++ harts') (own ∨ own') s u where
  log := by
    obtain ⟨log, hlog, hposts, hloads⟩ := h.log
    obtain ⟨log', hlog', hposts', hloads'⟩ := h'.log
    refine ⟨log ++ log', by rw [hlog', hlog, List.append_assoc], ?_, ?_⟩
    · rw [posts, List.filterMap_append, List.map_append, ← hposts, ← hposts', posts, posts]
    · rw [loads, List.filterMap_append, List.map_append, ← hloads, ← hloads', loads, loads]
  mip := by
    obtain ⟨hset, hkept⟩ := h.mip
    obtain ⟨hset', hkept'⟩ := h'.mip
    constructor
    · rintro hown
      by_cases hown' : own'
      · by_cases hfirst : own
        · rw [hset' hown', hset hfirst, BitVec.or_assoc, BitVec.or_self]
        · rw [hset' hown', hkept hfirst]
      · rw [hkept' hown', hset (hown.resolve_right hown')]
    · intro hno
      rw [hkept' fun h => hno (.inr h), hkept fun h => hno (.inl h)]

/-! ## One receiver -/

/-- A read of the status that finds the receiver free. -/
theorem lipiStatusWait_exit (hfree : env.mstatus s.log s.maddr = 0#_) :
    Ends (lipiStatusWait env ()) s (.inr ())
      { s with regs := s.regs.set .a0 0#_, log := s.log ++ [.poll s.maddr] } := by
  refine ⟨0, fun n _ => ?_⟩
  simp [lipiStatusWait, act, readMstatus, hfree]

theorem lipiStatusWait_next (hbusy : env.mstatus s.log s.maddr ≠ 0#_) :
    Ends (lipiStatusWait env ()) s (.inl ()) (s.readMstatus env .a0) := by
  refine ⟨0, fun n _ => ?_⟩
  simp [lipiStatusWait, act, readMstatus, hbusy]

/-- `.Lipi_status_wait` ends when the receiver is free. By induction on the polls before that, none
of which changes anything but the log. -/
theorem lipiStatusWait_ends (k : ℕ) :
    ∀ s : WalkHart x, env.mstatus (s.log ++ List.replicate k (.poll s.maddr)) s.maddr = 0#_ →
      ∃ p, RoundsEnd (lipiStatusWait env) () s ()
        { s with
          regs := s.regs.set .a0 0#_
          log := s.log ++ List.replicate p (.poll s.maddr) } := by
  induction k with
  | zero =>
    intro s hfree
    rw [List.replicate_zero, List.append_nil] at hfree
    exact ⟨1, .exit (lipiStatusWait_exit hfree)⟩
  | succ k ih =>
    intro s hfree
    by_cases hnow : env.mstatus s.log s.maddr = 0#_
    · exact ⟨1, .exit (lipiStatusWait_exit hnow)⟩
    · obtain ⟨p, hrest⟩ := ih (s.readMstatus env .a0) (by
        simpa [readMstatus, List.replicate_succ] using hfree)
      refine ⟨p + 1, ?_⟩
      have hnext := RoundsEnd.next (lipiStatusWait_next hnow) hrest
      simpa [readMstatus, List.replicate_succ] using hnext

/-- `ipi_send_wait` posts the word in `a1` to the slot in `a0`. -/
theorem ipiSendWait_ends (hfree : Frees env (s.regs.get .a0)) : ∃ p,
    Ends (ipiSendWait env) s ()
      { s with
        regs := s.regs.set .a0 0#_
        maddr := s.regs.get .a0
        log := s.log ++ (List.replicate p (.poll (s.regs.get .a0)) ++
          [.post (s.regs.get .a0) (s.regs.get .a1)]) } := by
  obtain ⟨k, hk⟩ := hfree s.log
  obtain ⟨p, hwait⟩ := lipiStatusWait_ends k (s.writeMaddr .a0) hk
  refine ⟨p, ?_⟩
  have hsend : Ends (ipiSendWait env) s () _ :=
    .bind (Ends.act _ s) (.bind hwait.ends (Ends.act _ _))
  simpa [writeMaddr, writeMwdata] using hsend

/-! ## Storage addresses -/

theorem hartTls_succ (plf : WalkPlf x) (k : ℕ) :
    plf.hartTls (k + 1) + plf.hlsize = plf.hartTls k :=
  Words.sub_ofNat_succ_mul plf.tls0Base k (2 ^ plf.hlshift)

/-- Storages of different harts are apart. -/
theorem hartTls_inj {i j : ℕ} (hi : i < 8 * x.hart8) (hj : j < 8 * x.hart8) :
    plf.hartTls i = plf.hartTls j ↔ i = j := by
  have hbits := x.bits_le
  have hpow : 2 ^ 32 ≤ 2 ^ (8 * x.hart8) := Nat.pow_le_pow_right (by decide) x.le_bits
  have hfits : ∀ k < 8 * x.hart8, k * 2 ^ plf.hlshift < 2 ^ (8 * x.hart8) := by
    intro k hk
    rw [WalkPlf.hlshift]
    split_ifs <;> omega
  exact Words.sub_ofNat_mul_inj (Nat.two_pow_pos _) (hfits i hi) (hfits j hj)

/-! ## The mask -/

/-- One hart more. -/
theorem others_succ : others mask self (k + 1) =
    (if mask.getLsbD k ∧ k ≠ self then [k] else []) ++ others mask self k := by
  rw [others, others, List.range_succ, List.filter_append, List.reverse_append]
  by_cases hmem : mask.getLsbD k ∧ k ≠ self
  · rw [if_pos hmem]
    simp [hmem.1, hmem.2]
  · rw [if_neg hmem]
    by_cases hbit : mask.getLsbD k
    · have hself : k = self := by
        by_contra hne
        exact hmem ⟨hbit, hne⟩
      simp [hself]
    · simp [hbit]

theorem others_eq_nil (hno : ∀ i < k, mask.getLsbD i = false) : others mask self k = [] := by
  rw [others, List.reverse_eq_nil_iff, List.filter_eq_nil_iff]
  intro i hi
  simp [hno i (List.mem_range.mp hi)]

theorem mem_others {i : ℕ} : i ∈ others mask self k ↔ i < k ∧ i ≠ self ∧ mask.getLsbD i := by
  simp [others, and_comm, and_left_comm]

theorem nodup_others (mask : x.Word) (self k : ℕ) : (others mask self k).Nodup :=
  List.nodup_reverse.mpr (List.nodup_range.filter _)

/-! ## The loop -/

/-- In the loop, past the hart `k`. -/
structure AtHart (plf : WalkPlf x) (env : WalkEnv x) (mask : x.Word) (own k : ℕ)
    (s : WalkHart x) : Prop where
  a1 : s.regs.get .a1 = signalWord env
  a2 : s.regs.get .a2 = plf.hartTls k
  a3 : s.regs.get .a3 = mask <<< (8 * x.hart8 - 1 - k)
  sp : s.regs.get .sp = plf.hartTls own

theorem Walked.of_iff (h : Walked plf env harts own s t) (hown : own ↔ own') :
    Walked plf env harts own' s t :=
  propext hown ▸ h

theorem walked_lipiMaskShift : Walked plf env [] False s (s.lipiMaskShift plf) :=
  .of_kept rfl rfl

theorem AtHart.shift (h : AtHart plf env mask self (k + 1) s) (hk : k + 1 < 8 * x.hart8) :
    AtHart plf env mask self k (s.lipiMaskShift plf) := by
  obtain ⟨ha1, ha2, ha3, hsp⟩ := h
  have htls := hartTls_succ plf k
  have hmask := Words.shiftLeft_sub_succ mask hk
  refine ⟨?_, ?_, ?_, ?_⟩
  · simp [lipiMaskShift, onRegs, RegFile.slli, RegFile.li, RegFile.add, ha1]
  · simp [lipiMaskShift, onRegs, RegFile.slli, RegFile.li, RegFile.add, ha2, htls]
  · simp [lipiMaskShift, onRegs, RegFile.slli, RegFile.li, RegFile.add, ha3, hmask]
  · simp [lipiMaskShift, onRegs, RegFile.slli, RegFile.li, RegFile.add, hsp]

/-- The body signals a hart of the mask: itself by `mip`, without a word in a mailbox, and any other
one by the word, when its mailbox is free. -/
theorem AtHart.body (h : AtHart plf env mask self k s) (hk : k < 8 * x.hart8)
    (hself : self < 8 * x.hart8)
    (hfree : k ≠ self → mask.getLsbD k → Frees env (slot plf env k)) : ∃ t,
    Ends (lipiMaskBody plf env s) s () t ∧ AtHart plf env mask self k t ∧
      Walked plf env (if mask.getLsbD k ∧ k ≠ self then [k] else [])
        (mask.getLsbD k ∧ k = self) s t := by
  obtain ⟨ha1, ha2, ha3, hsp⟩ := h
  have hmsb := Words.msb_shiftLeft_sub mask hk
  have htls : plf.hartTls k = plf.hartTls self ↔ k = self := hartTls_inj hk hself
  by_cases hbit : mask.getLsbD k
  · by_cases hown : k = self
    · refine ⟨s.setMip (1#_ <<< intSmSoftware), ?_, ⟨ha1, ha2, ha3, hsp⟩, ?_, ?_⟩
      · rw [lipiMaskBody, ha3, hmsb, if_neg (not_not.mpr hbit), ha2, hsp, if_pos (htls.mpr hown)]
        exact Ends.act _ s
      · exact ⟨[], by simp [setMip], by simp [posts, hown], by simp [loads, hown]⟩
      · exact ⟨fun _ => rfl, fun hno => absurd ⟨hbit, hown⟩ hno⟩
    · have hload : (s.loadOffs env .a0 plf.ipiNOff .a2).regs.get .a0 = slot plf env k := by
        simp [loadOffs, slot, slotAddr, ha2]
      obtain ⟨p, hsend⟩ := ipiSendWait_ends (s := s.loadOffs env .a0 plf.ipiNOff .a2)
        (hload ▸ hfree hown hbit)
      have hbody : lipiMaskBody plf env s =
          (do act fun s => ((), s.loadOffs env .a0 plf.ipiNOff .a2); ipiSendWait env) := by
        rw [lipiMaskBody, ha3, hmsb, if_neg (not_not.mpr hbit), ha2, hsp,
          if_neg fun heq => hown (htls.mp heq)]
      have hsteps := Ends.bind (f := fun _ => ipiSendWait env)
        (Ends.act (fun s : WalkHart x => ((), s.loadOffs env .a0 plf.ipiNOff .a2)) s) hsend
      refine ⟨_, hbody ▸ hsteps, ?_, ?_, ?_⟩
      · constructor <;> simp [loadOffs, ha1, ha2, ha3, hsp]
      · refine ⟨.load (slotAddr plf k) :: (List.replicate p (.poll (slot plf env k)) ++
          [.post (slot plf env k) (signalWord env)]), ?_, ?_, ?_⟩
        · simp [loadOffs, slotAddr, slot, ha1, ha2]
        · simp [posts, hbit, hown]
        · simp [loads, hbit, hown]
      · exact ⟨fun hyes => absurd hyes.2 hown, fun _ => rfl⟩
  · refine ⟨s, ?_, ⟨ha1, ha2, ha3, hsp⟩, ?_⟩
    · rw [lipiMaskBody, ha3, hmsb, if_pos hbit]
      exact Ends.pure () s
    · have hkept : Walked plf env [] False s s := .of_kept rfl rfl
      simpa [hbit] using hkept

/-- A round, past the hart `k + 1`. -/
theorem AtHart.round (h : AtHart plf env mask self (k + 1) s) (hk : k + 1 < 8 * x.hart8)
    (hself : self < 8 * x.hart8)
    (hfree : k ≠ self → mask.getLsbD k → Frees env (slot plf env k)) : ∃ t,
    Ends (lipiMaskLoop plf env ()) s (if t.regs.get .a3 ≠ 0#_ then .inl () else .inr ()) t ∧
      AtHart plf env mask self k t ∧
      Walked plf env (if mask.getLsbD k ∧ k ≠ self then [k] else [])
        (mask.getLsbD k ∧ k = self) s t := by
  obtain ⟨t, hends, hat, hwalked⟩ := (h.shift hk).body (by omega) hself hfree
  refine ⟨t, .bind (Ends.act _ s) (.bind hends (Ends.act _ t)), hat, ?_⟩
  simpa using walked_lipiMaskShift.trans hwalked

/-- The last round finds no hart. -/
theorem AtHart.last (h : AtHart plf env mask self 0 s) : ∃ t,
    Ends (lipiMaskLoop plf env ()) s (.inr ()) t ∧ Walked plf env [] False s t := by
  have hle := x.le_bits
  have ha3 : (s.lipiMaskShift plf).regs.get .a3 = 0#_ := by
    have hmask : mask <<< (8 * x.hart8 - 1 - 0) <<< 1 = 0#_ := by
      rw [← BitVec.shiftLeft_add]
      exact BitVec.shiftLeft_eq_zero (by omega)
    simp only [lipiMaskShift, onRegs, RegFile.slli, RegFile.li, RegFile.add]
    simpa [h.a3] using hmask
  refine ⟨s.lipiMaskShift plf, ?_, walked_lipiMaskShift⟩
  have hbody : Ends (lipiMaskBody plf env (s.lipiMaskShift plf)) (s.lipiMaskShift plf) ()
      (s.lipiMaskShift plf) := by
    rw [lipiMaskBody, ha3, BitVec.msb_zero, if_pos Bool.false_ne_true]
    exact Ends.pure () _
  have hround : Ends (lipiMaskLoop plf env ()) s
      (if (s.lipiMaskShift plf).regs.get .a3 ≠ 0#_ then .inl () else .inr ())
      (s.lipiMaskShift plf) := .bind (Ends.act _ s) (.bind hbody (Ends.act _ _))
  rwa [ha3, if_neg (not_not.mpr rfl)] at hround

/-- **The loop** signals the harts of the mask below `k`, in a round for each and one more. By
induction on `k`, with what the rounds log put together. -/
theorem AtHart.loop (hself : self < 8 * x.hart8) : ∀ {k : ℕ} {s : WalkHart x},
    k < 8 * x.hart8 → AtHart plf env mask self k s →
      (∀ i < k, i ≠ self → mask.getLsbD i → Frees env (slot plf env i)) → ∃ t,
        EndsWithin (lipiMaskLoop plf env) (k + 1) () s () t ∧
          Walked plf env (others mask self k) (self < k ∧ mask.getLsbD self) s t := by
  intro k
  induction k with
  | zero =>
    intro s _ h _
    obtain ⟨t, hround, hwalked⟩ := h.last
    exact ⟨t, .exit hround, hwalked.of_iff (by simp)⟩
  | succ k ih =>
    intro s hk h hfree
    obtain ⟨t, hround, hat, hwalked⟩ := h.round hk hself (hfree k k.lt_succ_self)
    rw [others_succ]
    by_cases hzero : t.regs.get .a3 = 0#_
    · -- no bit is left at `k` and below
      rw [if_neg (not_not.mpr hzero)] at hround
      rw [hat.a3] at hzero
      have hno : ∀ i ≤ k, mask.getLsbD i = false := fun i hi =>
        Words.getLsbD_of_shiftLeft_sub_eq_zero (by omega) hzero hi
      rw [others_eq_nil fun i hi => hno i (by omega), List.append_nil]
      refine ⟨t, .exit hround, hwalked.of_iff ⟨fun h => ?_, fun h => ?_⟩⟩
      · exact ⟨by omega, h.2 ▸ h.1⟩
      · have hbit := hno self (by omega)
        rw [h.2] at hbit
        cases hbit
    · rw [if_pos hzero] at hround
      obtain ⟨u, hrest, hwalked'⟩ := ih (by omega) hat fun i hi => hfree i (by omega)
      refine ⟨u, .next hround hrest, (hwalked.trans hwalked').of_iff ⟨?_, ?_⟩⟩
      · rintro (⟨hbit, rfl⟩ | ⟨hlt, hbit⟩)
        · exact ⟨by omega, hbit⟩
        · exact ⟨by omega, hbit⟩
      · rintro ⟨hlt, hbit⟩
        rcases Nat.lt_succ_iff_lt_or_eq.mp hlt with hlt | rfl
        · exact .inr ⟨hlt, hbit⟩
        · exact .inl ⟨hbit, rfl⟩

/-! ## Before the loop -/

/-- A shift takes no more than the low bits of its amount. -/
theorem toNat_signExtend_mod_bits (v : U32) :
    (v.signExtend (8 * x.hart8)).toNat % (8 * x.hart8) = v.toNat % (8 * x.hart8) := by
  cases x with
  | rv32 => exact Words.toNat_signExtend_mod (m := 5) v (by decide) (by decide)
  | rv64 => exact Words.toNat_signExtend_mod (m := 6) v (by decide) (by decide)

/-- The amount that brings the bit of the last hart next to the top. -/
theorem maskShift {n : ℕ} (hn : n < 8 * x.hart8) :
    (-(BitVec.ofNat (8 * x.hart8) n + (1 - BitVec.ofNat _ (8 * x.hart8)))).toNat %
      (8 * x.hart8) = 8 * x.hart8 - 1 - n := by
  have hdvd : 8 * x.hart8 ∣ 2 ^ (8 * x.hart8) := by cases x <;> decide
  have hamount := Words.toNat_neg_add_one_sub_mod hdvd (BitVec.ofNat _ n)
  have hfits : n < 2 ^ (8 * x.hart8) := hn.trans Nat.lt_two_pow_self
  rwa [BitVec.toNat_ofNat, Nat.mod_eq_of_lt hfits, Nat.mod_eq_of_lt hn] at hamount

theorem atHart_lipiMaskStart {n : ℕ} (hn : env.numHarts.toNat = n) (hlt : n < 8 * x.hart8)
    (hsp : s.regs.get .sp = plf.hartTls self) :
    AtHart plf env (s.regs.get .a3) self n (s.lipiMaskStart plf env) := by
  have hbits := x.bits_le
  have hnum : env.numHarts.signExtend (8 * x.hart8) = BitVec.ofNat _ n :=
    hn ▸ Words.signExtend_of_lt (by omega)
  have hshift := maskShift hlt
  have hslot := toNat_signExtend_mod_bits (x := x) env.slotBitsShift
  have htls : BitVec.ofNat (8 * x.hart8) n <<< plf.hlshift =
      BitVec.ofNat _ (n * 2 ^ plf.hlshift) := by
    refine BitVec.eq_of_toNat_eq ?_
    rw [BitVec.toNat_shiftLeft, BitVec.toNat_ofNat, BitVec.toNat_ofNat, Nat.shiftLeft_eq,
      Nat.mod_mul_mod]
  refine ⟨?_, ?_, ?_, ?_⟩
  · simp [lipiMaskStart, onRegs, RegFile.li, RegFile.sll, RegFile.addi, RegFile.neg,
      RegFile.slli, RegFile.sub, signalWord, hslot]
  · have ha2 : (s.lipiMaskStart plf env).regs.get .a2 =
        plf.tls0Base - env.numHarts.signExtend _ <<< plf.hlshift := by
      simp [lipiMaskStart, onRegs, RegFile.li, RegFile.sll, RegFile.addi, RegFile.neg,
        RegFile.slli, RegFile.sub]
    rw [ha2, hnum, htls, WalkPlf.hartTls]
  · simp only [lipiMaskStart, onRegs, RegFile.li, RegFile.sll, RegFile.addi, RegFile.neg,
      RegFile.slli, RegFile.sub, hnum]
    simpa using congrArg (s.regs.get .a3 <<< ·) hshift
  · simp [lipiMaskStart, onRegs, RegFile.li, RegFile.sll, RegFile.addi, RegFile.neg,
      RegFile.slli, RegFile.sub, hsp]

/-- **The walk** delivers to exactly the harts of the mask: a signal to each of the others, the
own software interrupt, and nothing for bits without a hart. -/
theorem mask_walk_delivers (plf : WalkPlf x) (env : WalkEnv x) (s : WalkHart x) {n self : ℕ}
    (hn : env.numHarts.toNat = n) (hlt : n < 8 * x.hart8) (hself : self < n)
    (hsp : s.regs.get .sp = plf.hartTls self)
    (hfree : ∀ i < n, i ≠ self → (s.regs.get .a3).getLsbD i → Frees env (slot plf env i)) :
    ∃ t log,
      EndsWithin (lipiMaskLoop plf env) (n + 1) () (s.lipiMaskStart plf env) () t ∧
      Ends (lipiSendMasked plf env) s () t ∧
      t.log = s.log ++ log ∧
      (∃ harts : List ℕ, harts.Nodup ∧
        (∀ i, i ∈ harts ↔ i < n ∧ i ≠ self ∧ (s.regs.get .a3).getLsbD i) ∧
        posts log = harts.map fun i => (slot plf env i, signalWord env)) ∧
      ((s.regs.get .a3).getLsbD self → t.mip = s.mip ||| 1#_ <<< intSmSoftware) ∧
      (¬ (s.regs.get .a3).getLsbD self → t.mip = s.mip) ∧
      ∀ addr ∈ loads log, ∃ i < n, addr = slotAddr plf i := by
  obtain ⟨t, hends, hwalked⟩ :=
    AtHart.loop (hself.trans hlt) hlt (atHart_lipiMaskStart hn hlt hsp) hfree
  obtain ⟨log, hlog, hposts, hloads⟩ := hwalked.log
  refine ⟨t, log, hends, .bind (Ends.act _ s) hends.ends, hlog,
    ⟨others (s.regs.get .a3) self n, nodup_others _ self n, fun i => mem_others, hposts⟩,
    fun hown => hwalked.mip.1 ⟨hself, hown⟩, fun hno => hwalked.mip.2 fun h => hno h.2, ?_⟩
  intro addr haddr
  rw [hloads] at haddr
  obtain ⟨i, hi, rfl⟩ := List.mem_map.mp haddr
  exact ⟨i, (mem_others.mp hi).1, rfl⟩

def walkPlfTwo : WalkPlf .rv32 where
  tls0Base := 0x10000#32
  l2Stack8Core := false
  riscv32e := false

/-- Two harts, whose storages tell the slot 5, and a mask with more bits than that. -/
def walkEnvTwo : WalkEnv .rv32 where
  mem _ := 5#32
  numHarts := 2#32
  slotBitsShift := 1#32
  mstatus _ _ := 0#32

def walkHartTwo : WalkHart .rv32 where
  regs := ((RegFile.mk fun _ => 0#32).set .sp 0x10000#32).set .a3 7#32
  mip := 0#32
  maddr := 0#32
  log := []

/-- Hart 0 signals the slot of hart 1 and itself. -/
theorem mask_walk_delivers_two : ∃ t,
    Ends (lipiSendMasked walkPlfTwo walkEnvTwo) walkHartTwo () t ∧
      posts t.log = [(5#32, signalWord walkEnvTwo)] ∧ t.mip = 2#32 := by
  obtain ⟨t, log, _, hends, hlog, ⟨harts, hnodup, hmem, hposts⟩, hown, _⟩ :=
    mask_walk_delivers walkPlfTwo walkEnvTwo walkHartTwo (n := 2) rfl
      (by decide) Nat.two_pos (by decide) fun i _ _ _ log => ⟨0, rfl⟩
  have hone : harts = [1] := by
    refine List.perm_singleton.mp
      ((List.perm_ext_iff_of_nodup hnodup (List.nodup_singleton 1)).mpr fun i => ?_)
    rw [hmem, List.mem_singleton]
    constructor
    · omega
    · rintro rfl
      exact ⟨by decide, by decide, by decide⟩
  refine ⟨t, hends, ?_, hown (by decide)⟩
  rw [hlog, walkHartTwo, List.nil_append, hposts, hone]
  rfl

end WalkHart

end ScBl
