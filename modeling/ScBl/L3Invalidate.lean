import ScBl.Lib.Prog
import ScBl.Lib.Rv
import ScBl.Bitops

/-!
# The invalidation of the L3 cache

The macro `cache_l3_init` has all banks of the cache invalidated and polls their status
registers, one bank after the other, in one loop that counts the banks down and goes back to
the same label for a bank that is not done. The controller is any device whose registers are
read and written by their addresses, where a read may change it too. What the loop amounts to
is `BanksDone`: a wait for each bank, in the order of the banks.
-/

namespace ScBl

open Progs Rv

variable {σ : Type}

/-! ## The controller -/

def l3cVidOffs : U64 := 0#64
def l3cDescrCacheOffs : U64 := 8#64
def l3cCmdCtrlOffs : U64 := 64#64
def l3cCmdInvalidateAll : U64 := 0xff02#64
def l3bStep : U64 := 0x100#64
def l3bCmdStsOffs : U64 := 16#64
def l3bCmdStsMaskDone : U64 := 1#64

/-- A device with registers of 64 bits, at `PLF_L3CTL_BASE`. -/
structure L3Ctl (σ : Type) where
  base : U64
  read : U64 → σ → U64 × σ
  write : U64 → U64 → σ → σ

namespace L3Ctl

variable (dev : L3Ctl σ)

/-- `L3B_PRIVATE_0_BANK` -/
def private0Bank : U64 := dev.base + l3bStep

/-- `L3B_CMD_STS_N(bank)` -/
def cmdSts (bank : ℕ) : U64 :=
  dev.private0Bank + BitVec.ofNat 64 bank * l3bStep + l3bCmdStsOffs

/-- The status that is read says that the bank is done. -/
def DoneAt (bank : ℕ) (s : σ) : Prop :=
  (dev.read (dev.cmdSts bank) s).1 &&& l3bCmdStsMaskDone ≠ 0#64

/-- The controller after a read of the status. -/
def polled (bank : ℕ) (s : σ) : σ := (dev.read (dev.cmdSts bank) s).2

/-- A wait for a bank: its status is read until it is done. -/
inductive BankDone (bank : ℕ) : σ → σ → Prop
  | done {s : σ} : dev.DoneAt bank s → BankDone bank s (dev.polled bank s)
  | again {s t : σ} : ¬ dev.DoneAt bank s → BankDone bank (dev.polled bank s) t → BankDone bank s t

/-- A wait for `count` banks from `bank` on, one after the other. -/
inductive BanksDone : ℕ → ℕ → σ → σ → Prop
  | nil {bank : ℕ} {s : σ} : BanksDone bank 0 s s
  | cons {bank count : ℕ} {s s' t : σ} :
    dev.BankDone bank s s' → BanksDone (bank + 1) count s' t → BanksDone bank (count + 1) s t

/-- The number of banks that the macro waits for: it counts down before it tests, so that the
count of a description of no bank wraps. -/
def banksPolled (descr : U64) : ℕ :=
  let banks := ((descr >>> 8) &&& 0xff#64).toNat
  if banks = 0 then 2 ^ 64 else banks

/-- What `cache_l3_init` is to do. -/
def Invalidated (s t : σ) : Prop :=
  let (vid, s) := dev.read (dev.base + l3cVidOffs) s
  if vid = 0#64 then t = s
  else
    let s := dev.write (dev.base + l3cCmdCtrlOffs) l3cCmdInvalidateAll s
    let (descr, s) := dev.read (dev.base + l3cDescrCacheOffs) s
    dev.BanksDone 0 (banksPolled descr) s t

end L3Ctl

/-! ## The macro -/

/-- A hart and the controller. -/
structure L3Hart (σ : Type) where
  regs : RegFile 64
  dev : σ

namespace L3Hart

/-- An instruction that accesses registers only. -/
def exec (h : L3Hart σ) (f : RegFile 64 → RegFile 64) : L3Hart σ := { h with regs := f h.regs }

variable (dev : L3Ctl σ)

def ld (h : L3Hart σ) (rd : IntReg) (offs : U64) (base : IntReg) : L3Hart σ :=
  let (v, dev') := dev.read (h.regs.get base + offs) h.dev
  ⟨h.regs.set rd v, dev'⟩

def sd (h : L3Hart σ) (rs : IntReg) (offs : U64) (base : IntReg) : L3Hart σ :=
  { h with dev := dev.write (h.regs.get base + offs) (h.regs.get rs) h.dev }

/-- The status of the bank at `t1`, in `t0`. -/
def loadSts (h : L3Hart σ) : L3Hart σ :=
  (h.ld dev .t0 l3bCmdStsOffs .t1).exec (·.andi .t0 .t0 l3bCmdStsMaskDone)

/-- On to the next bank. -/
def nextBank (h : L3Hart σ) : L3Hart σ :=
  (h.exec (·.addi .t2 .t2 (-1#64))).exec (·.addi .t1 .t1 l3bStep)

/-- From `l3cache_wait_inv_loop` on, to which both branches go back. -/
def waitInvRound (h : L3Hart σ) : (Unit ⊕ Unit) × L3Hart σ :=
  let h := h.loadSts dev
  if h.regs.get .t0 = 0#64 then (.inl (), h)
  else
    let h := h.nextBank
    if h.regs.get .t2 = 0#64 then (.inr (), h) else (.inl (), h)

def waitInvLoop : Prog (L3Hart σ) Unit :=
  loop (fun _ : Unit => act fun h => h.waitInvRound dev) ()

/-- `l3cache_wait_inv`, up to its loop. -/
def waitInv (h : L3Hart σ) : L3Hart σ :=
  let h := h.exec (·.li .t1 dev.base)
  let h := h.ld dev .t2 l3cDescrCacheOffs .t1
  let h := h.exec (·.srli .t2 .t2 8)
  let h := h.exec (·.andi .t2 .t2 0xff#64)
  h.exec (·.li .t1 dev.private0Bank)

/-- `cache_l3_init` -/
def cacheL3Init : Prog (L3Hart σ) Unit := fun n h =>
  let h := h.exec (·.li .t1 dev.base)
  let h := h.ld dev .t0 l3cVidOffs .t1
  if h.regs.get .t0 = 0#64 then some ((), h)
  else
    -- invalidate all banks
    let h := h.exec (·.li .t2 l3cCmdInvalidateAll)
    let h := h.sd dev .t2 l3cCmdCtrlOffs .t1
    waitInvLoop dev n (h.waitInv dev)

end L3Hart

namespace L3Ctl

variable {dev : L3Ctl σ} {bank count : ℕ} {s t : σ}

theorem banksPolled_eq (descr : U64) :
    banksPolled descr = (((descr >>> 8) &&& 0xff#64) - 1#64).toNat + 1 := by
  rw [banksPolled]
  generalize descr >>> 8 &&& 0xff#64 = banks
  rcases Nat.eq_zero_or_pos banks.toNat with hnone | hsome
  · obtain rfl : banks = 0#64 := BitVec.eq_of_toNat_eq hnone
    rfl
  · have hle : (1#64).toNat ≤ banks.toNat := hsome
    have hsub : (banks - 1#64).toNat = banks.toNat - 1 := BitVec.toNat_sub_of_le hle
    rw [if_neg hsome.ne', hsub, Nat.sub_add_cancel hsome]

/-- A poll that comes to nothing, before the waits. -/
theorem BanksDone.again (hbusy : ¬ dev.DoneAt bank s)
    (h : dev.BanksDone bank (count + 1) (dev.polled bank s) t) :
    dev.BanksDone bank (count + 1) s t := by
  cases h with
  | cons hbank hrest => exact .cons (.again hbusy hbank) hrest

end L3Ctl

namespace L3Hart

variable {dev : L3Ctl σ} {bank count : ℕ} {h : L3Hart σ} {s t : σ}

/-! ## A round of the loop -/

/-- The loop is at a bank, with as many banks to go. -/
structure AtBank (dev : L3Ctl σ) (bank count : ℕ) (h : L3Hart σ) (s : σ) : Prop where
  t1 : h.regs.get .t1 = dev.private0Bank + BitVec.ofNat 64 bank * l3bStep
  t2 : h.regs.get .t2 = BitVec.ofNat 64 count
  dev : h.dev = s

theorem AtBank.loadSts (hs : AtBank dev bank count h s) :
    AtBank dev bank count (h.loadSts dev) (dev.polled bank s) := by
  obtain ⟨ht1, ht2, rfl⟩ := hs
  refine ⟨?_, ?_, ?_⟩
  · simpa [L3Hart.loadSts, ld, exec, RegFile.andi] using ht1
  · simpa [L3Hart.loadSts, ld, exec, RegFile.andi] using ht2
  · rw [L3Hart.loadSts, ld, ht1]
    rfl

theorem AtBank.loadSts_t0 (hs : AtBank dev bank count h s) :
    (h.loadSts dev).regs.get .t0 = 0#64 ↔ ¬ dev.DoneAt bank s := by
  obtain ⟨ht1, -, rfl⟩ := hs
  rw [L3Ctl.DoneAt, not_not, L3Hart.loadSts, ld, ht1]
  simp [exec, RegFile.andi, L3Ctl.cmdSts]

theorem AtBank.nextBank (hs : AtBank dev bank (count + 1) h s) :
    AtBank dev (bank + 1) count h.nextBank s := by
  obtain ⟨ht1, ht2, rfl⟩ := hs
  refine ⟨?_, ?_, rfl⟩
  · have hnext : h.nextBank.regs.get .t1 = h.regs.get .t1 + l3bStep := by
      simp [L3Hart.nextBank, exec, RegFile.addi]
    rw [hnext, ht1, BitVec.ofNat_add, BitVec.add_mul, BitVec.one_mul, BitVec.add_assoc]
  · have hnext : h.nextBank.regs.get .t2 = h.regs.get .t2 + -1#64 := by
      simp [L3Hart.nextBank, exec, RegFile.addi]
    rw [hnext, ht2, BitVec.ofNat_add, add_neg_cancel_right]

/-- **A round** polls the bank once: it stays, goes on to the next bank or leaves. -/
theorem AtBank.round (hs : AtBank dev bank (count + 1) h s) (hcount : count < 2 ^ 64) :
    (¬ dev.DoneAt bank s ∧ ∃ h', h.waitInvRound dev = (.inl (), h') ∧
      AtBank dev bank (count + 1) h' (dev.polled bank s)) ∨
    dev.DoneAt bank s ∧ ∃ h', AtBank dev (bank + 1) count h' (dev.polled bank s) ∧
      h.waitInvRound dev = if count = 0 then (.inr (), h') else (.inl (), h') := by
  by_cases hdone : dev.DoneAt bank s
  · refine .inr ⟨hdone, (h.loadSts dev).nextBank, hs.loadSts.nextBank, ?_⟩
    have hzero : (h.loadSts dev).nextBank.regs.get .t2 = 0#64 ↔ count = 0 := by
      rw [hs.loadSts.nextBank.t2, ← BitVec.toNat_inj, BitVec.toNat_ofNat,
        Nat.mod_eq_of_lt hcount, BitVec.toNat_ofNat, Nat.zero_mod]
    rw [waitInvRound, if_neg (hs.loadSts_t0.not.mpr (not_not.mpr hdone))]
    simp only [hzero]
  · refine .inl ⟨hdone, h.loadSts dev, ?_, hs.loadSts⟩
    rw [waitInvRound, if_pos (hs.loadSts_t0.mpr hdone)]

/-! ## The loop -/

/-- The loop ends. -/
def Leaves (dev : L3Ctl σ) (h h' : L3Hart σ) : Prop :=
  RoundsEnd (fun _ : Unit => act fun h => waitInvRound dev h) () h () h'

theorem Leaves.exit {h' : L3Hart σ} (hround : h.waitInvRound dev = (.inr (), h')) :
    Leaves dev h h' := by
  have hend := Ends.act (waitInvRound dev) h
  rw [hround] at hend
  exact RoundsEnd.exit hend

theorem Leaves.next {h' h'' : L3Hart σ} (hround : h.waitInvRound dev = (.inl (), h'))
    (hrest : Leaves dev h' h'') : Leaves dev h h'' := by
  have hend := Ends.act (waitInvRound dev) h
  rw [hround] at hend
  exact RoundsEnd.next hend hrest

/-- When the bank is done, the loop leaves or is at the next one. The count of banks is compared
before it goes down, so that a count of 0 is one of `2 ^ 64`. -/
theorem AtBank.wait {s' : σ} (hbank : dev.BankDone bank s s')
    (hs : AtBank dev bank (count + 1) h s) (hcount : count < 2 ^ 64) :
    ∃ h', AtBank dev (bank + 1) count h' s' ∧
      if count = 0 then Leaves dev h h' else ∀ h'', Leaves dev h' h'' → Leaves dev h h'' := by
  induction hbank generalizing h with
  | done hdone =>
    obtain ⟨hbusy, -⟩ | ⟨-, h', hs', hround⟩ := hs.round hcount
    · exact absurd hdone hbusy
    · refine ⟨h', hs', ?_⟩
      split_ifs at hround ⊢
      · exact .exit hround
      · exact fun _ => .next hround
  | again hbusy _ ih =>
    obtain ⟨-, h', hround, hs'⟩ | ⟨hdone, -⟩ := hs.round hcount
    · obtain ⟨h'', hs'', hrest⟩ := ih hs'
      refine ⟨h'', hs'', ?_⟩
      split_ifs at hrest ⊢
      · exact .next hround hrest
      · exact fun r hr => .next hround (hrest r hr)
    · exact absurd hdone hbusy

/-- The loop comes to its end when all banks are done. -/
theorem AtBank.leaves (hbanks : dev.BanksDone bank (count + 1) s t)
    (hs : AtBank dev bank (count + 1) h s) (hcount : count < 2 ^ 64) :
    ∃ h', Leaves dev h h' ∧ h'.dev = t := by
  induction count generalizing bank h s with
  | zero =>
    obtain _ | ⟨hbank, hrest⟩ := hbanks
    obtain ⟨h', hs', hleaves⟩ := hs.wait hbank hcount
    cases hrest
    exact ⟨h', hleaves, hs'.dev⟩
  | succ count ih =>
    obtain _ | ⟨hbank, hrest⟩ := hbanks
    obtain ⟨h', hs', hnext⟩ := hs.wait hbank hcount
    obtain ⟨h'', hleaves, hdev⟩ := ih hrest hs' (Nat.lt_of_succ_lt hcount)
    exact ⟨h'', hnext h'' hleaves, hdev⟩

/-- It does not come to its end otherwise: each bank that it has left was done when it left it. By
induction on the fuel of the loop. -/
theorem AtBank.banksDone {n k : ℕ} {r : Unit × L3Hart σ}
    (hr : rounds (fun _ : Unit => act fun h => waitInvRound dev h) n k () h = some r)
    (hs : AtBank dev bank (count + 1) h s) (hcount : count < 2 ^ 64) :
    dev.BanksDone bank (count + 1) s r.2.dev := by
  induction k generalizing bank count h s with
  | zero => cases hr
  | succ k ih =>
    rw [rounds, act] at hr
    obtain ⟨hbusy, h', hround, hs'⟩ | ⟨hdone, h', hs', hround⟩ := hs.round hcount
    · rw [hround] at hr
      exact .again hbusy (ih hr hs' hcount)
    · rw [hround] at hr
      cases count with
      | zero =>
        cases hr
        rw [hs'.dev]
        exact .cons (.done hdone) .nil
      | succ count => exact .cons (.done hdone) (ih hr hs' (Nat.lt_of_succ_lt hcount))

/-! ## The macro -/

/-- The macro at its loop. -/
theorem atBank_waitInv (h : L3Hart σ) :
    AtBank dev 0 (L3Ctl.banksPolled (dev.read (dev.base + l3cDescrCacheOffs) h.dev).1)
      (h.waitInv dev) (dev.read (dev.base + l3cDescrCacheOffs) h.dev).2 := by
  refine ⟨?_, ?_, ?_⟩
  · simp [waitInv, exec, RegFile.li]
  · rw [L3Ctl.banksPolled_eq, BitVec.ofNat_add, BitVec.ofNat_toNat, BitVec.setWidth_eq,
      sub_add_cancel]
    simp [waitInv, exec, ld, RegFile.li, RegFile.srli, RegFile.andi]
  · simp [waitInv, exec, ld, RegFile.li]

/-- The macro after its first load. -/
def vidRead (h : L3Hart σ) (dev : L3Ctl σ) : L3Hart σ :=
  (h.exec (·.li .t1 dev.base)).ld dev .t0 l3cVidOffs .t1

theorem vidRead_t0 :
    (h.vidRead dev).regs.get .t0 = (dev.read (dev.base + l3cVidOffs) h.dev).1 := by
  simp [vidRead, ld, exec, RegFile.li]

theorem vidRead_dev : (h.vidRead dev).dev = (dev.read (dev.base + l3cVidOffs) h.dev).2 := by
  simp [vidRead, ld, exec, RegFile.li]

/-- The macro after its store. -/
def commanded (h : L3Hart σ) (dev : L3Ctl σ) : L3Hart σ :=
  ((h.vidRead dev).exec (·.li .t2 l3cCmdInvalidateAll)).sd dev .t2 l3cCmdCtrlOffs .t1

theorem commanded_dev : (h.commanded dev).dev =
    dev.write (dev.base + l3cCmdCtrlOffs) l3cCmdInvalidateAll (h.vidRead dev).dev := by
  simp [commanded, vidRead, ld, sd, exec, RegFile.li]

theorem cacheL3Init_eq (n : ℕ) (h : L3Hart σ) : cacheL3Init dev n h =
    if (dev.read (dev.base + l3cVidOffs) h.dev).1 = 0#64 then some ((), h.vidRead dev)
    else waitInvLoop dev n ((h.commanded dev).waitInv dev) := by
  rw [← vidRead_t0]
  rfl

end L3Hart

open L3Hart in
/-- **The invalidation of the L3 cache** ends when all banks have been done, each of which is
polled in its turn, and otherwise not. The number of banks is that of the description, but a
description of none has the macro wait for `2 ^ 64`. -/
theorem cacheL3Init_iff (dev : L3Ctl σ) (h : L3Hart σ) (t : σ) :
    (∃ h', Ends (cacheL3Init dev) h () h' ∧ h'.dev = t) ↔ dev.Invalidated h.dev t := by
  rcases eq_or_ne (dev.read (dev.base + l3cVidOffs) h.dev).1 0#64 with hvid | hvid
  · have hrun (n : ℕ) : cacheL3Init dev n h = some ((), h.vidRead dev) := by
      rw [cacheL3Init_eq, if_pos hvid]
    have hends : Ends (cacheL3Init dev) h () (h.vidRead dev) := ⟨0, fun n _ => hrun n⟩
    have hinvalidated : dev.Invalidated h.dev t ↔ t = (h.vidRead dev).dev := by
      rw [L3Ctl.Invalidated, vidRead_dev]
      simp only [hvid, if_true]
    rw [hinvalidated]
    constructor
    · rintro ⟨h', hends', rfl⟩
      rw [(hends'.unique hends).2]
    · exact fun ht => ⟨_, hends, ht.symm⟩
  · have hrun (n : ℕ) :
        cacheL3Init dev n h = waitInvLoop dev n ((h.commanded dev).waitInv dev) := by
      rw [cacheL3Init_eq, if_neg hvid]
    have hstart : AtBank dev 0 _ _ _ := atBank_waitInv (h.commanded dev)
    rw [L3Ctl.banksPolled_eq] at hstart
    have hinvalidated : dev.Invalidated h.dev t ↔
        dev.BanksDone 0
          (L3Ctl.banksPolled (dev.read (dev.base + l3cDescrCacheOffs) (h.commanded dev).dev).1)
          (dev.read (dev.base + l3cDescrCacheOffs) (h.commanded dev).dev).2 t := by
      rw [L3Ctl.Invalidated, commanded_dev, vidRead_dev]
      simp only [hvid, if_false]
    rw [hinvalidated, L3Ctl.banksPolled_eq]
    constructor
    · rintro ⟨h', ⟨N, hN⟩, rfl⟩
      have hloop := hN N le_rfl
      rw [hrun] at hloop
      exact hstart.banksDone hloop (BitVec.isLt _)
    · intro hbanks
      obtain ⟨h', hleaves, hdev⟩ := hstart.leaves hbanks (BitVec.isLt _)
      obtain ⟨N, hN⟩ := hleaves.ends
      exact ⟨h', ⟨N, fun n hn => (hrun n).trans (hN n hn)⟩, hdev⟩

end ScBl
