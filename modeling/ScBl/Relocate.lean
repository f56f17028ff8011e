import ScBl.Lib.Move
import ScBl.Lib.Pages
import ScBl.Lib.Prog
import ScBl.Lib.Rv
import ScBl.Xlen

/-!
# Relocation at start-up

The image runs where it was loaded until `_crt_start` of `mentry.S` has copied it to where it was
linked. With an L3 cache `_relocate` copies the whole image from its end down, word by word; else
the block of 64 KiB that holds the start is copied from its start up, by the `memcpy` of
`include/asm.h`. Both flush the copy from the data caches, for the fetches that follow.

The instructions themselves are not in the memory of the model.
-/

namespace ScBl

open Bytes Pages Progs Rv

variable {x : Xlen}

/-- The hart that starts. -/
structure CopyHart (x : Xlen) where
  regs : RegFile (8 * x.hart8)
  mem : x.Word → BitVec 8
  /-- `SCR_CSR_CACHE_DSCR_L1`, zero where there is no cache. -/
  cacheDscrL1 : x.Word
  /-- The addresses of `clflush`, the latest last. -/
  flushed : List x.Word

namespace CopyHart

variable (s : CopyHart x)

/-! ## Instructions -/

/-- Instructions on registers. -/
def onRegs (f : RegFile (8 * x.hart8) → RegFile (8 * x.hart8)) : CopyHart x :=
  { s with regs := f s.regs }

def loadXreg (rd rs₁ : IntReg) : CopyHart x :=
  s.onRegs fun r => r.set rd (leWord (bytesAt s.mem (r.get rs₁)) x.hart8)

def saveXreg (rs₂ rs₁ : IntReg) : CopyHart x :=
  { s with mem := writeBytes s.mem (s.regs.get rs₁) (s.regs.get rs₂) x.hart8 }

def clflush (rs : IntReg) : CopyHart x := { s with flushed := s.flushed ++ [s.regs.get rs] }

/-- `xreg_len` -/
def xregLen : x.Word := BitVec.ofNat _ x.hart8

/-! ## Macros -/

/-- Label `cache_l1l2_flush_loop`. -/
def cacheL1l2FlushLoop (line : x.Word) (addr size : IntReg) (_ : Unit) :
    Prog (CopyHart x) (Unit ⊕ Unit) :=
  act fun s =>
    let s := (s.clflush addr).onRegs fun r => (r.addi size size (-line)).addi addr addr line
    -- `bgez size`
    if ¬ BitVec.slt (s.regs.get size) 0#_ then (.inl (), s) else (.inr (), s)

/-- `cache_l1l2_flush addr, size`, where `line` is `PLF_CACHELINE_SIZE`. -/
def cacheL1l2Flush (line : x.Word) (addr size : IntReg) : Prog (CopyHart x) Unit :=
  if line = 0#_ then pure ()
  else do
    let s ← act fun s =>
      let s := s.onRegs fun r => r.set .t0 s.cacheDscrL1
      (s, s)
    if s.regs.get .t0 = 0#_ then pure ()
    else loop (cacheL1l2FlushLoop line addr size) ()

/-- A round of `memcpy src_beg, src_end, dst, tmp_reg`. -/
def memcpyLoop (srcBeg srcEnd dst tmpReg : IntReg) (_ : Unit) : Prog (CopyHart x) (Unit ⊕ Unit) :=
  act fun s =>
    if s.regs.get srcBeg < s.regs.get srcEnd then
      (.inl (), ((s.loadXreg tmpReg srcBeg).saveXreg tmpReg dst).onRegs fun r =>
        (r.addi srcBeg srcBeg xregLen).addi dst dst xregLen)
    else (.inr (), s)

/-! ## The whole image -/

/-- The start of `_relocate`: the destination and the size to `s0` and `s1`, and `t1` to the end of
the destination. -/
def relocateStart : CopyHart x :=
  s.onRegs fun r => (((r.mv .s0 .t1).sub .s1 .t2 .t0).sub .t3 .t2 .t0).add .t1 .t1 .t3

/-- `_relocate_loop` -/
def relocateLoop (_ : Unit) : Prog (CopyHart x) (Unit ⊕ Unit) :=
  act fun s =>
    if s.regs.get .t0 < s.regs.get .t2 then
      let s := s.onRegs fun r => (r.addi .t1 .t1 (-xregLen)).addi .t2 .t2 (-xregLen)
      (.inl (), (s.loadXreg .tp .t2).saveXreg .tp .t1)
    else (.inr (), s)

/-- `_relocate`: `[t0, t2)` to `t1`, up to the jump to the copy. -/
def relocate (line : x.Word) : Prog (CopyHart x) Unit := do
  act fun s => ((), s.relocateStart)
  loop relocateLoop ()
  cacheL1l2Flush line .s0 .s1

/-! ## A block of 64 KiB -/

/-- "align at 64K" -/
def align64K : CopyHart x :=
  s.onRegs fun r => ((((((((r.srli .t1 .t1 16).srli .t0 .t0 16).addi .t2 .t0 1#_).slli
    .t1 .t1 16).slli .t0 .t0 16).slli .t2 .t2 16)).mv .s0 .t1)

/-- The relocation in `_crt_start` where there is no L3 cache: `abs` is where the start was linked
and `pcrel` where it runs. -/
def relocate64K (line abs pcrel : x.Word) : Prog (CopyHart x) Unit := do
  let s ← act fun s =>
    let s := s.onRegs fun r => (r.li .t1 abs).li .t0 pcrel
    (s, s)
  if s.regs.get .t0 = s.regs.get .t1 then pure ()
  else do
    act fun s => ((), s.align64K)
    loop (memcpyLoop .t0 .t2 .t1 .tp) ()
    act fun s => ((), s.onRegs fun r => r.li .t1 (BitVec.ofNat _ (64 * 1024)))
    cacheL1l2Flush line .s0 .t1

variable {s} {dst src : x.Word} {n k : ℕ}

/-! ## Loops -/

theorem add_ofNat_succ (v : x.Word) (k : ℕ) :
    v + BitVec.ofNat _ (x.hart8 * (k + 1)) + -xregLen = v + BitVec.ofNat _ (x.hart8 * k) := by
  rw [Nat.mul_succ, BitVec.ofNat_add, xregLen]
  ring

theorem lt_add_ofNat {v : x.Word} (hpos : 0 < n) (hfit : v.toNat + n < 2 ^ (8 * x.hart8)) :
    v < v + BitVec.ofNat _ n := by
  rw [BitVec.lt_def, BitVec.toNat_add, BitVec.toNat_ofNat, Nat.mod_eq_of_lt (by omega : n < _),
    Nat.mod_eq_of_lt hfit]
  omega

theorem hart8_pos (x : Xlen) : 0 < x.hart8 := by cases x <;> decide

/-- A word that is loaded and stored. -/
theorem writeBytes_leWord_self (mem : x.Word → BitVec 8) (dst src : x.Word) :
    writeBytes mem dst (leWord (bytesAt mem src) x.hart8) x.hart8 =
      moveBytes mem dst src x.hart8 := by
  rw [← writeBytes_leWord le_rfl, BitVec.setWidth_eq]

variable (s dst src k) in
/-- `_relocate_loop`, `k` words in front of the end. By induction on `k`: it copies from the top
down, so that an image may be moved up over itself. -/
theorem relocateLoop_ends (hsrc : s.regs.get .t0 = src)
    (hfit : src.toNat + x.hart8 * k < 2 ^ (8 * x.hart8))
    (hend : s.regs.get .t2 = src + BitVec.ofNat _ (x.hart8 * k))
    (hdst : s.regs.get .t1 = dst + BitVec.ofNat _ (x.hart8 * k)) : ∃ r,
    RoundsEnd relocateLoop () s ()
        { s with regs := r, mem := copyDown x.hart8 dst src s.mem k } ∧
      RegFile.Writes [.t1, .t2, .tp] s.regs r := by
  induction k generalizing s with
  | zero =>
    rw [Nat.mul_zero, BitVec.add_zero] at hend
    refine ⟨s.regs, .exit ⟨0, fun _ _ => ?_⟩, .refl _ _⟩
    simp [relocateLoop, act, hsrc, hend, copyDown]
  | succ k ih =>
    have hpos := Nat.mul_pos (hart8_pos x) (Nat.succ_pos k)
    have hlt : s.regs.get .t0 < s.regs.get .t2 := by
      rw [hsrc, hend]
      exact lt_add_ofNat hpos hfit
    have hless : x.hart8 * k ≤ x.hart8 * (k + 1) := Nat.mul_le_mul_left _ (Nat.le_succ k)
    let s' := s.onRegs fun r => (r.addi .t1 .t1 (-xregLen)).addi .t2 .t2 (-xregLen)
    let t := (s'.loadXreg .tp .t2).saveXreg .tp .t1
    have hround : Ends (relocateLoop ()) s (.inl ()) t :=
      ⟨0, fun _ _ => by simp [relocateLoop, act, hlt, t, s']⟩
    have hwrites : RegFile.Writes [.t1, .t2, .tp] s.regs t.regs :=
      .set (.set (.set (.refl _ _) (by simp)) (by simp)) (by simp)
    have hend' : t.regs.get .t2 = src + BitVec.ofNat _ (x.hart8 * k) := by
      simp [t, s', saveXreg, loadXreg, onRegs, RegFile.addi, hend, add_ofNat_succ]
    have hdst' : t.regs.get .t1 = dst + BitVec.ofNat _ (x.hart8 * k) := by
      simp [t, s', saveXreg, loadXreg, onRegs, RegFile.addi, hdst, add_ofNat_succ]
    have hmem : t.mem = moveBytes s.mem (dst + BitVec.ofNat _ (x.hart8 * k))
        (src + BitVec.ofNat _ (x.hart8 * k)) x.hart8 := by
      rw [← writeBytes_leWord_self]
      simp [t, s', saveXreg, loadXreg, onRegs, RegFile.addi, hend, hdst, add_ofNat_succ]
    obtain ⟨r, hends, hwrites'⟩ := ih t ((hwrites .t0 (by simp)).trans hsrc) (by omega) hend' hdst'
    refine ⟨r, .next hround ?_, hwrites.trans hwrites'⟩
    rw [hmem] at hends
    exact hends

/-- A round of `memcpy`, `k` words in front of the end. By induction on `k`: it copies from the
bottom up, one word in each round. -/
theorem memcpyLoop_ends (hsrc : s.regs.get .t0 = src) (hdst : s.regs.get .t1 = dst)
    (hfit : src.toNat + x.hart8 * k < 2 ^ (8 * x.hart8))
    (hend : s.regs.get .t2 = src + BitVec.ofNat _ (x.hart8 * k)) : ∃ r,
    RoundsEnd (memcpyLoop .t0 .t2 .t1 .tp) () s ()
        { s with regs := r, mem := copyUp x.hart8 s.mem dst src k } ∧
      RegFile.Writes [.t0, .t1, .tp] s.regs r := by
  induction k generalizing s dst src with
  | zero =>
    rw [Nat.mul_zero, BitVec.add_zero] at hend
    refine ⟨s.regs, .exit ⟨0, fun _ _ => ?_⟩, .refl _ _⟩
    simp [memcpyLoop, act, hsrc, hend, copyUp]
  | succ k ih =>
    have hpos := Nat.mul_pos (hart8_pos x) (Nat.succ_pos k)
    have hlt : s.regs.get .t0 < s.regs.get .t2 := by
      rw [hsrc, hend]
      exact lt_add_ofNat hpos hfit
    let s' := ((s.loadXreg .tp .t0).saveXreg .tp .t1).onRegs fun r =>
      (r.addi .t0 .t0 xregLen).addi .t1 .t1 xregLen
    have hround : Ends (memcpyLoop .t0 .t2 .t1 .tp ()) s (.inl ()) s' :=
      ⟨0, fun _ _ => by simp [memcpyLoop, act, hlt, s']⟩
    have hwrites : RegFile.Writes [.t0, .t1, .tp] s.regs s'.regs :=
      .set (.set (.set (.refl _ _) (by simp)) (by simp)) (by simp)
    have hsrc' : s'.regs.get .t0 = src + xregLen := by
      simp [s', saveXreg, loadXreg, onRegs, RegFile.addi, hsrc]
    have hdst' : s'.regs.get .t1 = dst + xregLen := by
      simp [s', saveXreg, loadXreg, onRegs, RegFile.addi, hdst]
    have hmem : s'.mem = moveBytes s.mem dst src x.hart8 := by
      rw [← writeBytes_leWord_self]
      simp [s', saveXreg, loadXreg, onRegs, hsrc, hdst]
    have hsucc : x.hart8 * (k + 1) = x.hart8 + x.hart8 * k := by ring
    have hlen := hart8_pos x
    have hend' : s'.regs.get .t2 = src + xregLen + BitVec.ofNat _ (x.hart8 * k) := by
      rw [hwrites .t2 (by simp), hend, hsucc, BitVec.ofNat_add, xregLen, add_assoc]
    have hfit' : (src + xregLen).toNat + x.hart8 * k < 2 ^ (8 * x.hart8) := by
      rw [xregLen, BitVec.toNat_add, BitVec.toNat_ofNat, Nat.add_mod_mod,
        Nat.mod_eq_of_lt (by omega)]
      omega
    obtain ⟨r, hends, hwrites'⟩ := ih hsrc' hdst' hfit' hend'
    refine ⟨r, .next hround ?_, hwrites.trans hwrites'⟩
    rw [hmem] at hends
    exact hends

/-- The addresses of the flush of `n` bytes from `dst` on. -/
def flushLog (cacheDscrL1 : x.Word) (k : ℕ) (dst : x.Word) (n : ℕ) : List x.Word :=
  if cacheDscrL1 = 0#_ then [] else pagesFrom k dst (n / 2 ^ k + 1)

section Flush

variable {addr size : IntReg} (haddr : addr ≠ .zero) (hzero : size ≠ .zero) (hne : addr ≠ size)

include haddr hzero hne

/-- `cache_l1l2_flush_loop`: a line for each that the size holds, and one more. By induction on the
lines, to where the size that is left is negative. -/
theorem cacheL1l2FlushLoop_ends (hk : k + 1 < 8 * x.hart8) (hn : n < 2 ^ (8 * x.hart8 - 1))
    (hdst : s.regs.get addr = dst) (hsize : s.regs.get size = BitVec.ofNat _ n) : ∃ r,
    RoundsEnd (cacheL1l2FlushLoop (BitVec.ofNat _ (2 ^ k)) addr size) () s ()
        { s with regs := r, flushed := s.flushed ++ pagesFrom k dst (n / 2 ^ k + 1) } ∧
      RegFile.Writes [addr, size] s.regs r := by
  have hline : 2 ^ k < 2 ^ (8 * x.hart8 - 1) := Nat.pow_lt_pow_right (by decide) (by omega)
  induction n using Nat.strong_induction_on generalizing s dst with
  | _ n ih =>
    let t := (s.clflush addr).onRegs fun r => (r.addi size size (-BitVec.ofNat _ (2 ^ k))).addi
      addr addr (BitVec.ofNat _ (2 ^ k))
    have hwrites : RegFile.Writes [addr, size] s.regs t.regs :=
      .set (.set (.refl _ _) (by simp)) (by simp)
    have hflushed : t.flushed = s.flushed ++ [dst] := by
      simp [t, onRegs, clflush, hdst]
    have hsize' : t.regs.get size = BitVec.ofNat _ n - BitVec.ofNat _ (2 ^ k) := by
      simp [t, onRegs, clflush, RegFile.addi, hsize, hne.symm, hzero, sub_eq_add_neg]
    have hdst' : t.regs.get addr = dst + BitVec.ofNat _ (2 ^ k) := by
      simp [t, onRegs, clflush, RegFile.addi, hdst, hne, haddr]
    have hslt := slt_ofNat_sub_zero x.bits_pos (c := 2 ^ k) hn hline
    rw [← hsize'] at hslt
    rcases Nat.lt_or_ge n (2 ^ k) with hlt | hge
    · have hround : Ends (cacheL1l2FlushLoop (BitVec.ofNat _ (2 ^ k)) addr size ()) s (.inr ()) t :=
        ⟨0, fun _ _ => congrArg some (if_neg (by rw [hslt, decide_eq_true hlt]; decide))⟩
      refine ⟨t.regs, .exit ?_, hwrites⟩
      rw [Nat.div_eq_of_lt hlt, Nat.zero_add, pagesFrom_one, ← hflushed]
      exact hround
    · have hround : Ends (cacheL1l2FlushLoop (BitVec.ofNat _ (2 ^ k)) addr size ()) s (.inl ()) t :=
        ⟨0, fun _ _ => congrArg some (if_pos (by rw [hslt, decide_eq_false hge.not_gt]; decide))⟩
      have hpos : 0 < 2 ^ k := Nat.two_pow_pos k
      have hless : t.regs.get size = BitVec.ofNat _ (n - 2 ^ k) := by
        rw [hsize', sub_eq_iff_eq_add, ← BitVec.ofNat_add, Nat.sub_add_cancel hge]
      obtain ⟨r, hends, hwrites'⟩ := ih (n - 2 ^ k) (by omega) (by omega) hdst' hless
      refine ⟨r, .next hround ?_, hwrites.trans hwrites'⟩
      have hrounds : n / 2 ^ k = (n - 2 ^ k) / 2 ^ k + 1 := by
        rw [← Nat.add_div_right _ hpos, Nat.sub_add_cancel hge]
      rw [hflushed, List.append_assoc, List.singleton_append, ← pagesFrom_succ, ← hrounds] at hends
      exact hends

/-- The lines that the macro flushes. -/
theorem cacheL1l2Flush_ends (haddr' : addr ≠ .t0) (hsize' : size ≠ .t0)
    (hk : k + 1 < 8 * x.hart8) (hn : n < 2 ^ (8 * x.hart8 - 1))
    (hdst : s.regs.get addr = dst) (hsize : s.regs.get size = BitVec.ofNat _ n) : ∃ r,
    Ends (cacheL1l2Flush (BitVec.ofNat _ (2 ^ k)) addr size) s ()
      { s with regs := r, flushed := s.flushed ++ flushLog s.cacheDscrL1 k dst n } := by
  have hline : BitVec.ofNat (8 * x.hart8) (2 ^ k) ≠ 0#_ := by
    rw [ne_eq, ← BitVec.toNat_inj, BitVec.toNat_ofNat, BitVec.toNat_ofNat, Nat.zero_mod,
      Nat.mod_eq_of_lt (Nat.pow_lt_pow_right (by decide) (by omega))]
    exact (Nat.two_pow_pos k).ne'
  let s' := s.onRegs fun r => r.set .t0 s.cacheDscrL1
  have ht0 : s'.regs.get .t0 = s.cacheDscrL1 := by simp [s', onRegs]
  rw [cacheL1l2Flush, if_neg hline, flushLog]
  split_ifs with hdscr
  · refine ⟨s'.regs, .bind (.act _ s) ?_⟩
    rw [if_pos (ht0.trans hdscr), List.append_nil]
    exact .pure () s'
  · have hdst' : s'.regs.get addr = dst := by simp [s', onRegs, haddr', hdst]
    have hn' : s'.regs.get size = BitVec.ofNat _ n := by simp [s', onRegs, hsize', hsize]
    obtain ⟨r, hends, -⟩ := cacheL1l2FlushLoop_ends haddr hzero hne hk hn hdst' hn'
    refine ⟨r, .bind (.act _ s) ?_⟩
    rw [if_neg (ht0.symm ▸ hdscr)]
    exact hends.ends

end Flush

/-- Every line of a range has been flushed. -/
def Flushed (k : ℕ) (dst : x.Word) (n : ℕ) (log : List x.Word) : Prop :=
  ∀ i < n, pageOf k (dst + BitVec.ofNat _ i) ∈ log.map (pageOf k)

/-- The lines flushed are those of the range if its part of the last line is not longer than what
its start leaves of the first. -/
theorem flushed_iff (hk : k + 1 < 8 * x.hart8) (hn : n < 2 ^ (8 * x.hart8 - 1)) :
    Flushed k dst n (pagesFrom k dst (n / 2 ^ k + 1)) ↔
      dst.toNat % 2 ^ k + n % 2 ^ k ≤ 2 ^ k := by
  have hpow : 2 ^ (8 * x.hart8) = 2 * 2 ^ (8 * x.hart8 - 1) := by
    rw [← pow_succ', Nat.sub_add_cancel x.bits_pos]
  have hline : 2 ^ k < 2 ^ (8 * x.hart8 - 1) := Nat.pow_lt_pow_right (by decide) (by omega)
  have hoffset := Nat.mod_lt dst.toNat (Nat.two_pow_pos k)
  have hsplit := Nat.div_add_mod' n (2 ^ k)
  have hlines : (n / 2 ^ k + 1) * 2 ^ k = n / 2 ^ k * 2 ^ k + 2 ^ k := Nat.succ_mul _ _
  have hmem : ∀ i < n, pageOf k (dst + BitVec.ofNat _ i) ∈
      (pagesFrom k dst (n / 2 ^ k + 1)).map (pageOf k) ↔
        dst.toNat % 2 ^ k + i < (n / 2 ^ k + 1) * 2 ^ k := fun i hi => by
    rw [map_pageOf_pagesFrom (by omega), pageOf_mem_pagesFrom_iff (by omega) (by omega) (by omega)]
  constructor
  · intro h
    rcases Nat.eq_zero_or_pos n with hzero | hpos
    · rw [hzero, Nat.zero_mod]
      omega
    · have hlast := (hmem (n - 1) (by omega)).mp (h (n - 1) (by omega))
      omega
  · exact fun h i hi => (hmem i hi).mpr (by omega)

/-! ## The whole image -/

theorem hart8_dvd_two_pow (x : Xlen) : x.hart8 ∣ 2 ^ (8 * x.hart8) := by cases x <;> decide

/-- The image to relocate: `[t0, t2)` to `t1`. -/
structure ImageOk (s : CopyHart x) : Prop where
  le : (s.regs.get .t0).toNat ≤ (s.regs.get .t2).toNat
  /-- Words are loaded and stored at aligned addresses. -/
  t0 : x.hart8 ∣ (s.regs.get .t0).toNat
  t1 : x.hart8 ∣ (s.regs.get .t1).toNat
  t2 : x.hart8 ∣ (s.regs.get .t2).toNat
  /-- The size is not negative. -/
  size : (s.regs.get .t2 - s.regs.get .t0).toNat < 2 ^ (8 * x.hart8 - 1)

/-- The size of the image. -/
def imageSize (s : CopyHart x) : ℕ := (s.regs.get .t2 - s.regs.get .t0).toNat

theorem ImageOk.add_imageSize (h : ImageOk s) :
    (s.regs.get .t0).toNat + imageSize s = (s.regs.get .t2).toNat := by
  rw [imageSize, BitVec.toNat_sub_of_le h.le]
  exact Nat.add_sub_cancel' h.le

theorem ImageOk.dvd_imageSize (h : ImageOk s) : x.hart8 ∣ imageSize s := by
  have hsum := h.t2
  rw [← h.add_imageSize] at hsum
  exact (Nat.dvd_add_right h.t0).mp hsum

theorem ImageOk.dvd_distance (h : ImageOk s) :
    x.hart8 ∣ (s.regs.get .t0 - s.regs.get .t1).toNat := by
  rw [BitVec.toNat_sub, Nat.dvd_mod_iff (hart8_dvd_two_pow x)]
  exact Nat.dvd_add (Nat.dvd_sub (hart8_dvd_two_pow x) h.t1) h.t0

/-- **The run** of `_relocate`, from the comparison of the two starts to the flush: what it leaves
in memory, in the registers and in the cache. -/
theorem relocate_ends (h : ImageOk s) (hk : k + 1 < 8 * x.hart8) : ∃ r,
    Ends (relocate (BitVec.ofNat _ (2 ^ k))) s ()
      { s with
        regs := r
        mem := copyDown x.hart8 (s.regs.get .t1) (s.regs.get .t0) s.mem (imageSize s / x.hart8)
        flushed := s.flushed ++ flushLog s.cacheDscrL1 k (s.regs.get .t1) (imageSize s) } := by
  have hsize : x.hart8 * (imageSize s / x.hart8) = imageSize s :=
    Nat.mul_div_cancel' h.dvd_imageSize
  have hword : BitVec.ofNat _ (imageSize s) = s.regs.get .t2 - s.regs.get .t0 := by
    rw [imageSize, BitVec.ofNat_toNat, BitVec.setWidth_eq]
  have hsum := h.add_imageSize
  have hlt := (s.regs.get .t2).isLt
  obtain ⟨r, hloop, hwrites⟩ := relocateLoop_ends s.relocateStart (s.regs.get .t1)
    (s.regs.get .t0) (imageSize s / x.hart8)
    (by simp [relocateStart, onRegs, RegFile.mv, RegFile.sub, RegFile.add]) (by omega)
    (by simp [relocateStart, onRegs, RegFile.mv, RegFile.sub, RegFile.add, hsize, hword])
    (by simp [relocateStart, onRegs, RegFile.mv, RegFile.sub, RegFile.add, hsize, hword])
  let v : CopyHart x := { s with
    regs := r
    mem := copyDown x.hart8 (s.regs.get .t1) (s.regs.get .t0) s.mem (imageSize s / x.hart8) }
  have hv0 : v.regs.get .s0 = s.regs.get .t1 := (hwrites .s0 (by decide)).trans
    (by simp [relocateStart, onRegs, RegFile.mv, RegFile.sub, RegFile.add])
  have hv1 : v.regs.get .s1 = BitVec.ofNat _ (imageSize s) := (hwrites .s1 (by decide)).trans
    (by simp [relocateStart, onRegs, RegFile.mv, RegFile.sub, RegFile.add, hword])
  obtain ⟨r', hflush⟩ := cacheL1l2Flush_ends (by decide) (by decide) (by decide) (by decide)
    (by decide) hk h.size hv0 hv1
  exact ⟨r', .bind (.act _ s) (.bind hloop.ends hflush)⟩

/-- **Relocation** of the image moves it, whatever it is, exactly where it was not loaded inside
the destination, past its start; and it flushes every line of the copy where the lines that it
counts are enough. -/
theorem relocate_iff (h : ImageOk s) (hk : k + 1 < 8 * x.hart8) :
    ((∀ mem, ∃ t, Ends (relocate (BitVec.ofNat _ (2 ^ k))) { s with mem := mem } () t ∧
        t.mem = moveBytes mem (s.regs.get .t1) (s.regs.get .t0) (imageSize s)) ↔
      ClearAbove (s.regs.get .t1) (s.regs.get .t0) (imageSize s)) ∧
    (s.cacheDscrL1 ≠ 0#_ → ∃ t log, Ends (relocate (BitVec.ofNat _ (2 ^ k))) s () t ∧
      t.flushed = s.flushed ++ log ∧
      (Flushed k (s.regs.get .t1) (imageSize s) log ↔
        (s.regs.get .t1).toNat % 2 ^ k + imageSize s % 2 ^ k ≤ 2 ^ k)) := by
  have hsize : x.hart8 * (imageSize s / x.hart8) = imageSize s :=
    Nat.mul_div_cancel' h.dvd_imageSize
  have hiff := copyDown_iff (k := imageSize s / x.hart8) (hart8_pos x)
    (by rw [hsize]; exact (BitVec.isLt _).le) h.dvd_distance
  rw [hsize] at hiff
  refine ⟨?_, fun hdscr => ?_⟩
  · rw [← hiff]
    refine forall_congr' fun mem => ?_
    obtain ⟨r, hends⟩ := relocate_ends (s := { s with mem := mem })
      ⟨h.le, h.t0, h.t1, h.t2, h.size⟩ hk
    constructor
    · rintro ⟨t, hends', hmem⟩
      obtain ⟨-, rfl⟩ := hends.unique hends'
      exact hmem
    · exact fun hmem => ⟨_, hends, hmem⟩
  · obtain ⟨r, hends⟩ := relocate_ends h hk
    refine ⟨_, _, hends, rfl, ?_⟩
    rw [flushLog, if_neg hdscr]
    exact flushed_iff hk h.size

/-- An image at the start of a RAM that was linked 64 KiB above it. -/
def loadedBelow : CopyHart .rv64 where
  regs := (((RegFile.mk fun _ => 0#_).set .t0 0x80000000#64).set .t1 0x80010000#64).set
    .t2 0x80020010#64
  mem _ := 0x13#8
  cacheDscrL1 := 1#64
  flushed := []

theorem relocate_loadedBelow :
    ((∀ mem, ∃ t, Ends (relocate (BitVec.ofNat _ (2 ^ 4))) { loadedBelow with mem := mem } () t ∧
        t.mem = moveBytes mem (loadedBelow.regs.get .t1) (loadedBelow.regs.get .t0)
          (imageSize loadedBelow)) ↔
      ClearAbove (loadedBelow.regs.get .t1) (loadedBelow.regs.get .t0) (imageSize loadedBelow)) ∧
    (loadedBelow.cacheDscrL1 ≠ 0#_ →
      ∃ t log, Ends (relocate (BitVec.ofNat _ (2 ^ 4))) loadedBelow () t ∧
        t.flushed = loadedBelow.flushed ++ log ∧
        (Flushed 4 (loadedBelow.regs.get .t1) (imageSize loadedBelow) log ↔
          (loadedBelow.regs.get .t1).toNat % 2 ^ 4 + imageSize loadedBelow % 2 ^ 4 ≤ 2 ^ 4)) :=
  relocate_iff ⟨by decide, by decide, by decide, by decide, by decide⟩ (by decide)

/-! ## A block of 64 KiB -/

/-- Each byte of the block of `abs` is what it was where it was loaded. -/
def LoadedBlock (abs pcrel : x.Word) (mem mem' : x.Word → BitVec 8) : Prop :=
  ∀ p, pageOf 16 p = pageOf 16 abs → mem' p = mem (p - abs + pcrel)

theorem sixteen_lt_bits (x : Xlen) : 16 < 8 * x.hart8 := by cases x <;> decide

/-- "align at 64K" -/
theorem shiftRight_shiftLeft (v : x.Word) : v >>> 16 <<< 16 = pageOf 16 v := by
  rw [← BitVec.toNat_inj, BitVec.toNat_shiftLeft, BitVec.toNat_ushiftRight, Nat.shiftLeft_eq,
    Nat.shiftRight_eq_div_pow, pageOf, BitVec.toNat_ofNat]

/-- The end of a block. -/
theorem shiftRight_add_shiftLeft (v : x.Word) :
    (v >>> 16 + 1#_) <<< 16 = pageOf 16 v + BitVec.ofNat _ (2 ^ 16) := by
  rw [← BitVec.toNat_inj, BitVec.toNat_shiftLeft, BitVec.toNat_add, BitVec.toNat_ushiftRight,
    Nat.shiftLeft_eq, Nat.shiftRight_eq_div_pow, toNat_one, Nat.mod_mul_mod, BitVec.toNat_add,
    pageOf, BitVec.toNat_ofNat, BitVec.toNat_ofNat, ← Nat.add_mod, Nat.succ_mul]

theorem sub_pageOf (v : x.Word) : v - pageOf 16 v = BitVec.ofNat _ (v.toNat % 2 ^ 16) := by
  rw [pageOf_eq_sub]
  ring

/-- The offset in a block. -/
theorem toNat_sub_pageOf (v : x.Word) : (v - pageOf 16 v).toNat = v.toNat % 2 ^ 16 := by
  have hlt : 2 ^ 16 < 2 ^ (8 * x.hart8) := Nat.pow_lt_pow_right (by decide) (sixteen_lt_bits x)
  have hmod := Nat.mod_lt v.toNat (Nat.two_pow_pos 16)
  rw [sub_pageOf, BitVec.toNat_ofNat, Nat.mod_eq_of_lt (by omega)]

theorem toNat_pageOf (v : x.Word) : (pageOf 16 v).toNat = v.toNat / 2 ^ 16 * 2 ^ 16 := by
  rw [pageOf, BitVec.toNat_ofNat, Nat.mod_eq_of_lt]
  exact (Nat.div_mul_le_self _ _).trans_lt v.isLt

/-- Two blocks do not overlap: both start at a multiple of their size, so that they are the same or
apart. -/
theorem clearBelow_pageOf (abs pcrel : x.Word) :
    ClearBelow (pageOf 16 abs) (pageOf 16 pcrel) (2 ^ 16) := by
  rintro ⟨hpos, hlt⟩
  have hdvd : 2 ^ 16 ∣ (pageOf 16 abs - pageOf 16 pcrel).toNat := by
    have hbits : 2 ^ 16 ∣ 2 ^ (8 * x.hart8) := Nat.pow_dvd_pow 2 (sixteen_lt_bits x).le
    rw [BitVec.toNat_sub, Nat.dvd_mod_iff hbits, toNat_pageOf, toNat_pageOf]
    exact Nat.dvd_add (Nat.dvd_sub hbits (Nat.dvd_mul_left _ _)) (Nat.dvd_mul_left _ _)
  exact absurd (Nat.le_of_dvd hpos hdvd) (Nat.not_le.mpr hlt)

/-- The memory after the block has been copied, from a block that is not the last. -/
def copiedBlock (mem : x.Word → BitVec 8) (abs pcrel : x.Word) : x.Word → BitVec 8 :=
  if (pageOf 16 pcrel).toNat + 2 ^ 16 < 2 ^ (8 * x.hart8) then
    moveBytes mem (pageOf 16 abs) (pageOf 16 pcrel) (2 ^ 16)
  else mem

/-- A copy of whole words to a place whose start is not among them. -/
theorem memcpyLoop_moves (hdvd : x.hart8 ∣ n) (hclear : ClearBelow dst src n)
    (hsrc : s.regs.get .t0 = src) (hdst : s.regs.get .t1 = dst)
    (hfit : src.toNat + n < 2 ^ (8 * x.hart8)) (hend : s.regs.get .t2 = src + BitVec.ofNat _ n) :
    ∃ r, RoundsEnd (memcpyLoop .t0 .t2 .t1 .tp) () s ()
        { s with regs := r, mem := moveBytes s.mem dst src n } ∧
      RegFile.Writes [.t0, .t1, .tp] s.regs r := by
  obtain ⟨k, rfl⟩ := hdvd
  obtain ⟨r, hends, hwrites⟩ := memcpyLoop_ends hsrc hdst hfit hend
  rw [copyUp_of_clear (by omega) hclear] at hends
  exact ⟨r, hends, hwrites⟩

/-- The copy of a block. Where it is the last of the address space its end is zero, and there is
no round. -/
theorem memcpyLoop_block {abs pcrel : x.Word} (hsrc : s.regs.get .t0 = pageOf 16 pcrel)
    (hdst : s.regs.get .t1 = pageOf 16 abs)
    (hend : s.regs.get .t2 = pageOf 16 pcrel + BitVec.ofNat _ (2 ^ 16)) : ∃ r,
    RoundsEnd (memcpyLoop .t0 .t2 .t1 .tp) () s ()
        { s with regs := r, mem := copiedBlock s.mem abs pcrel } ∧
      RegFile.Writes [.t0, .t1, .tp] s.regs r := by
  have hdvd : x.hart8 ∣ 2 ^ 16 := by cases x <;> decide
  rw [copiedBlock]
  split_ifs with hfit
  · exact memcpyLoop_moves hdvd (clearBelow_pageOf abs pcrel) hsrc hdst hfit hend
  · have hzero : s.regs.get .t2 = 0#_ := by
      have hbits : 2 ^ 16 ∣ 2 ^ (8 * x.hart8) := Nat.pow_dvd_pow 2 (sixteen_lt_bits x).le
      obtain ⟨m, hm⟩ := hbits
      have hlt := (pageOf 16 pcrel).isLt
      rw [toNat_pageOf, hm] at hfit hlt
      have hlast : pcrel.toNat / 2 ^ 16 + 1 = m := by omega
      rw [hend, ← BitVec.toNat_inj, BitVec.toNat_add, toNat_pageOf, BitVec.toNat_ofNat,
        Nat.add_mod_mod, ← Nat.succ_mul, Nat.succ_eq_add_one, hlast, Nat.mul_comm, ← hm,
        Nat.mod_self,
        BitVec.toNat_ofNat, Nat.zero_mod]
    refine ⟨s.regs, .exit ⟨0, fun _ _ => ?_⟩, .refl _ _⟩
    simp [memcpyLoop, act, hzero]

/-- The registers of the copy: the two blocks and the end. -/
theorem align64K_regs (s : CopyHart x) :
    s.align64K.regs.get .t0 = pageOf 16 (s.regs.get .t0) ∧
      s.align64K.regs.get .t1 = pageOf 16 (s.regs.get .t1) ∧
      s.align64K.regs.get .t2 = pageOf 16 (s.regs.get .t0) + BitVec.ofNat _ (2 ^ 16) ∧
      s.align64K.regs.get .s0 = pageOf 16 (s.regs.get .t1) := by
  rw [← shiftRight_add_shiftLeft, ← shiftRight_shiftLeft, ← shiftRight_shiftLeft]
  refine ⟨?_, ?_, ?_, ?_⟩ <;>
    simp [align64K, onRegs, RegFile.srli, RegFile.slli, RegFile.addi, RegFile.mv]

/-- **The run** of the relocation of a block, where the start is not where it was linked to: a copy
of all of it, and the flush of its new place. -/
theorem relocate64K_ends {abs pcrel : x.Word} (hne : pcrel ≠ abs) (hk : k + 1 < 8 * x.hart8) : ∃ r,
    Ends (relocate64K (BitVec.ofNat _ (2 ^ k)) abs pcrel) s ()
      { s with
        regs := r
        mem := copiedBlock s.mem abs pcrel
        flushed := s.flushed ++ flushLog s.cacheDscrL1 k (pageOf 16 abs) (2 ^ 16) } := by
  have hpow : 2 ^ 16 < 2 ^ (8 * x.hart8 - 1) := x.lt_half (by decide)
  let u := s.onRegs fun r => (r.li .t1 abs).li .t0 pcrel
  have hu0 : u.regs.get .t0 = pcrel := by simp [u, onRegs, RegFile.li]
  have hu1 : u.regs.get .t1 = abs := by simp [u, onRegs, RegFile.li]
  obtain ⟨ht0, ht1, ht2, hs0⟩ := align64K_regs u
  rw [hu0] at ht0 ht2
  rw [hu1] at ht1 hs0
  obtain ⟨r, hloop, hwrites⟩ := memcpyLoop_block ht0 ht1 ht2
  let v : CopyHart x := { s with
    regs := r.li .t1 (BitVec.ofNat _ (64 * 1024))
    mem := copiedBlock s.mem abs pcrel }
  have hv0 : v.regs.get .s0 = pageOf 16 abs := by
    simp [v, RegFile.li, hwrites .s0 (by decide), hs0]
  have hv1 : v.regs.get .t1 = BitVec.ofNat _ (2 ^ 16) := by
    simp [v, RegFile.li]
  obtain ⟨r', hflush⟩ := cacheL1l2Flush_ends (by decide) (by decide) (by decide) (by decide)
    (by decide) hk hpow hv0 hv1
  refine ⟨r', .bind (.act _ s) ?_⟩
  rw [if_neg (by rwa [hu0, hu1])]
  exact .bind (.act _ u) (.bind hloop.ends (.bind (.act _ _) hflush))

/-- The copy puts each byte in its place if the two starts are at one offset of their blocks. -/
theorem copiedBlock_loaded {abs pcrel : x.Word} {mem : x.Word → BitVec 8}
    (hoffset : abs.toNat % 2 ^ 16 = pcrel.toNat % 2 ^ 16)
    (hfit : (pageOf 16 pcrel).toNat + 2 ^ 16 < 2 ^ (8 * x.hart8)) :
    LoadedBlock abs pcrel mem (copiedBlock mem abs pcrel) := by
  intro p hp
  have hsub : p - abs + pcrel = pageOf 16 pcrel + (p - pageOf 16 abs) := by
    have heq : abs - pageOf 16 abs = pcrel - pageOf 16 pcrel := by
      rw [sub_pageOf, sub_pageOf, hoffset]
    calc
      p - abs + pcrel = p - pageOf 16 abs - (abs - pageOf 16 abs) + pcrel := by ring
      _ = pageOf 16 pcrel + (p - pageOf 16 abs) := by
        rw [heq]
        ring
  have hlt : (p - pageOf 16 abs).toNat < 2 ^ 16 := by
    rw [← hp, toNat_sub_pageOf]
    exact Nat.mod_lt _ (Nat.two_pow_pos 16)
  rw [copiedBlock, if_pos hfit, moveBytes_of_lt hlt, hsub]

/-- A memory that holds one at the loaded start only shows where that start is copied to. -/
theorem copiedBlock_loaded_iff {abs pcrel : x.Word} (hne : abs ≠ pcrel) :
    (∀ mem, LoadedBlock abs pcrel mem (copiedBlock mem abs pcrel)) ↔
      abs.toNat % 2 ^ 16 = pcrel.toNat % 2 ^ 16 ∧
        (pageOf 16 pcrel).toNat + 2 ^ 16 < 2 ^ (8 * x.hart8) := by
  refine ⟨fun h => ?_, fun h mem => copiedBlock_loaded h.1 h.2⟩
  have hone : copiedBlock (fun p => if p = pcrel then 1#8 else 0#8) abs pcrel abs = 1#8 := by
    rw [h _ abs rfl, sub_self, zero_add]
    exact if_pos rfl
  rw [copiedBlock] at hone
  split_ifs at hone with hfit
  · have hlt : (abs - pageOf 16 abs).toNat < 2 ^ 16 := by
      rw [toNat_sub_pageOf]
      exact Nat.mod_lt _ (Nat.two_pow_pos 16)
    rw [moveBytes_of_lt hlt] at hone
    have hsrc : pageOf 16 pcrel + (abs - pageOf 16 abs) = pcrel := by
      by_contra hother
      exact absurd ((if_neg hother).symm.trans hone) (by decide)
    rw [← eq_sub_iff_add_eq', ← BitVec.toNat_inj, toNat_sub_pageOf, toNat_sub_pageOf] at hsrc
    exact ⟨hsrc, hfit⟩
  · exact absurd ((if_neg hne).symm.trans hone) (by decide)

/-- An image that runs where it was linked stays there. -/
theorem relocate64K_same (line abs : x.Word) : ∃ r,
    Ends (relocate64K line abs abs) s () { s with regs := r } := by
  let u := s.onRegs fun r => (r.li .t1 abs).li .t0 abs
  have hu : u.regs.get .t0 = u.regs.get .t1 := by simp [u, onRegs, RegFile.li]
  refine ⟨u.regs, .bind (.act _ s) ?_⟩
  rw [if_pos hu]
  exact .pure () u

/-- **The block of the start** is in its place after the relocation, whatever it is, exactly where
the image runs there, or the linked and the loaded start are at one offset of their blocks and the
loaded one is not in the last block. A copy is flushed, all of its lines. -/
theorem relocate64K_iff (abs pcrel : x.Word) (hk : k ≤ 16) :
    ((∀ s : CopyHart x, ∃ t, Ends (relocate64K (BitVec.ofNat _ (2 ^ k)) abs pcrel) s () t ∧
        LoadedBlock abs pcrel s.mem t.mem) ↔
      abs = pcrel ∨ abs.toNat % 2 ^ 16 = pcrel.toNat % 2 ^ 16 ∧
        (pageOf 16 pcrel).toNat + 2 ^ 16 < 2 ^ (8 * x.hart8)) ∧
    (abs ≠ pcrel → ∀ s : CopyHart x, s.cacheDscrL1 ≠ 0#_ →
      ∃ t log, Ends (relocate64K (BitVec.ofNat _ (2 ^ k)) abs pcrel) s () t ∧
        t.flushed = s.flushed ++ log ∧ Flushed k (pageOf 16 abs) (2 ^ 16) log) := by
  have hbits : k + 1 < 8 * x.hart8 := by
    have hle := x.le_bits
    omega
  constructor
  · rcases eq_or_ne abs pcrel with rfl | hne
    · refine ⟨fun _ => .inl rfl, fun _ s => ?_⟩
      obtain ⟨r, hends⟩ := relocate64K_same (s := s) (BitVec.ofNat _ (2 ^ k)) abs
      refine ⟨_, hends, fun p _ => ?_⟩
      rw [sub_add_cancel]
    · rw [or_iff_right hne, ← copiedBlock_loaded_iff hne]
      constructor
      · intro h mem
        let s : CopyHart x := ⟨⟨fun _ => 0#_⟩, mem, 0#_, []⟩
        obtain ⟨t, hends, hloaded⟩ := h s
        obtain ⟨r, hends'⟩ := relocate64K_ends (s := s) hne.symm hbits
        obtain ⟨-, rfl⟩ := hends'.unique hends
        exact hloaded
      · intro h s
        obtain ⟨r, hends⟩ := relocate64K_ends (s := s) hne.symm hbits
        exact ⟨_, hends, h s.mem⟩
  · intro hne s hdscr
    obtain ⟨r, hends⟩ := relocate64K_ends (s := s) hne.symm hbits
    refine ⟨_, _, hends, rfl, ?_⟩
    rw [flushLog, if_neg hdscr, flushed_iff hbits (x.lt_half (by decide))]
    have hdvd : 2 ^ k ∣ 2 ^ 16 := Nat.pow_dvd_pow 2 hk
    have hstart : (pageOf 16 abs).toNat % 2 ^ k = 0 := by
      rw [toNat_pageOf]
      exact Nat.mod_eq_zero_of_dvd (hdvd.mul_left _)
    rw [hstart, Nat.mod_eq_zero_of_dvd hdvd]
    exact Nat.zero_le _

/-- A start that was linked in the last block of the address space. -/
def linkedStart : Xlen.Word .rv32 := 0xFFFF0200#32

/-- Where a flash memory has it. -/
def flashStart : Xlen.Word .rv32 := 0x10000200#32

theorem relocate64K_flash :
    ((∀ s : CopyHart .rv32, ∃ t,
        Ends (relocate64K (BitVec.ofNat _ (2 ^ 4)) linkedStart flashStart) s () t ∧
          LoadedBlock linkedStart flashStart s.mem t.mem) ↔
      linkedStart = flashStart ∨ linkedStart.toNat % 2 ^ 16 = flashStart.toNat % 2 ^ 16 ∧
        (pageOf 16 flashStart).toNat + 2 ^ 16 < 2 ^ (8 * Xlen.hart8 .rv32)) ∧
    (linkedStart ≠ flashStart → ∀ s : CopyHart .rv32, s.cacheDscrL1 ≠ 0#_ → ∃ t log,
      Ends (relocate64K (BitVec.ofNat _ (2 ^ 4)) linkedStart flashStart) s () t ∧
        t.flushed = s.flushed ++ log ∧ Flushed 4 (pageOf 16 linkedStart) (2 ^ 16) log) :=
  relocate64K_iff linkedStart flashStart (by decide)

end CopyHart

end ScBl
