import ScBl.Lib.Sim
import ScBl.Lib.Rv
import ScBl.Xlen

/-!
# Turning the L2 cache on

It is done twice: by the macro `cache_l2_init` before there is a stack, and by
`scr_l2cache_enable` in C when the cache is turned on again. The controller is any device whose
registers are read and written by their addresses, where a read may change it too, so that how
long it is busy is up to it. The two are compared over all such devices: they access the same
registers with the same values in the same order, and go round their wait loops alike.
-/

namespace ScBl

open Progs Rv

variable {x : Xlen} {σ : Type}

/-! ## The controller -/

def l2CsrVerIdx : ℕ := 0
def l2CsrDescrIdx : ℕ := 1
def l2CsrEnIdx : ℕ := 4
def l2CsrInvIdx : ℕ := 6
def l2CsrBusyIdx : ℕ := 11
def l2CsrSyscoIdx : ℕ := 40

/-- A device with registers of 32 bits. -/
structure L2Ctl (x : Xlen) (σ : Type) where
  read : x.Word → σ → BitVec 32 × σ
  write : x.Word → BitVec 32 → σ → σ

/-- The build: `PLF_L2CTL_BASE`, and whether there is a `PLF_L3CTL_BASE`. -/
structure L2Plf (x : Xlen) where
  l2ctlBase : x.Word
  l3 : Bool

/-- The address of `l2ctl[idx]`, which is also that of the offset `4 * idx`. -/
def L2Plf.csr (plf : L2Plf x) (idx : ℕ) : x.Word := plf.l2ctlBase + BitVec.ofNat _ (4 * idx)

/-! ## In C -/

namespace L2Ctl

variable (dev : L2Ctl x σ) (plf : L2Plf x)

def l2ctl (idx : ℕ) : Prog σ (BitVec 32) := act (dev.read (plf.csr idx))

def setL2ctl (idx : ℕ) (v : BitVec 32) : Prog σ Unit :=
  act fun s => ((), dev.write (plf.csr idx) v s)

/-- `while (l2ctl[L2_CSR_BUSY_IDX]);` -/
def l2Wait : Prog σ Unit :=
  loop (fun _ : Unit => dev.l2ctl plf l2CsrBusyIdx >>= fun busy =>
    if busy = 0#32 then pure (.inr ()) else pure (.inl ())) ()

/-- `(1 << (((descr >> 16) & 0xf) + 1)) - 1` -/
def cbmask (descr : BitVec 32) : BitVec 32 :=
  1#32 <<< ((descr >>> 16 &&& 0xf#32) + 1#32).toNat - 1#32

/-- External coherency, only if there is L3. -/
def enableSysco : Prog σ Unit :=
  if plf.l3 then do
    dev.setL2ctl plf l2CsrSyscoIdx 1#32
    dev.l2Wait plf
  else pure ()

/-- Disable, invalidate and enable the banks. -/
def enableBanks (mask : BitVec 32) : Prog σ Unit := do
  dev.setL2ctl plf l2CsrEnIdx 0#32
  dev.l2Wait plf
  dev.setL2ctl plf l2CsrInvIdx mask
  dev.l2Wait plf
  dev.enableSysco plf
  dev.setL2ctl plf l2CsrEnIdx mask
  dev.l2Wait plf

/-- `scr_l2cache_enable` -/
def scrL2cacheEnable : Prog σ Unit :=
  dev.l2ctl plf l2CsrVerIdx >>= fun ver =>
    -- cache not exists or not supported
    if ver = 0#32 then pure ()
    else dev.l2ctl plf l2CsrDescrIdx >>= fun descr => dev.enableBanks plf (cbmask descr)

end L2Ctl

/-! ## In assembly -/

/-- A hart and the controller of a cache. -/
structure CacheHart (x : Xlen) (σ : Type) where
  regs : RegFile (8 * x.hart8)
  dev : σ

namespace CacheHart

/-- An instruction that accesses registers only. -/
def exec (f : RegFile (8 * x.hart8) → RegFile (8 * x.hart8)) : Prog (CacheHart x σ) Unit :=
  act fun h => ((), { h with regs := f h.regs })

/-- `beqz`, to the first program. -/
def beqz {α : Type} (r : IntReg) (c c' : Prog (CacheHart x σ) α) : Prog (CacheHart x σ) α :=
  fun n h => if h.regs.get r = 0#_ then c n h else c' n h

variable (dev : L2Ctl x σ) (plf : L2Plf x)

/-- `lw`, which extends the sign. -/
def lw (rd : IntReg) (idx : ℕ) (base : IntReg) : Prog (CacheHart x σ) Unit :=
  act fun h =>
    let (v, dev') := dev.read (h.regs.get base + BitVec.ofNat _ (4 * idx)) h.dev
    ((), ⟨h.regs.set rd (v.signExtend _), dev'⟩)

def sw (rs : IntReg) (idx : ℕ) (base : IntReg) : Prog (CacheHart x σ) Unit :=
  act fun h => ((), { h with
    dev := dev.write (h.regs.get base + BitVec.ofNat _ (4 * idx))
      ((h.regs.get rs).setWidth 32) h.dev })

/-- `l2cache_wait_dis`, `l2cache_wait_inv`, `l2cache_wait_coh_en` and `l2cache_wait_en`; the
`fence` of the first has no effect here, where accesses are in order. -/
def l2cacheWait : Prog (CacheHart x σ) Unit :=
  loop (fun _ : Unit => lw dev .t0 l2CsrBusyIdx .t1 >>= fun _ =>
    beqz .t0 (pure (.inr ())) (pure (.inl ()))) ()

/-- The mask of the banks, in `t2`. -/
def l2banksMask : Prog (CacheHart x σ) Unit := do
  lw dev .t2 l2CsrDescrIdx .t1
  exec (·.srli .t2 .t2 16)
  exec (·.andi .t2 .t2 0xf#_)
  exec (·.addi .t2 .t2 1#_)
  exec (·.li .t0 1#_)
  exec (·.sll .t2 .t0 .t2)
  exec (·.addi .t2 .t2 (-1#_))

def coherency : Prog (CacheHart x σ) Unit :=
  if plf.l3 then do
    exec (·.li .t0 1#_)
    sw dev .t0 l2CsrSyscoIdx .t1
    l2cacheWait dev
  else pure ()

/-- From `disable all banks` on. -/
def initBanks : Prog (CacheHart x σ) Unit := do
  sw dev .zero l2CsrEnIdx .t1
  l2cacheWait dev
  sw dev .t2 l2CsrInvIdx .t1
  l2cacheWait dev
  coherency dev plf
  sw dev .t2 l2CsrEnIdx .t1
  l2cacheWait dev

/-- `cache_l2_init` -/
def cacheL2Init : Prog (CacheHart x σ) Unit := do
  exec (·.li .t1 plf.l2ctlBase)
  lw dev .t0 l2CsrVerIdx .t1
  beqz .t0 (pure ()) (l2banksMask dev >>= fun _ => initBanks dev plf)

end CacheHart

/-! ## The mask of the banks -/

section Mask

theorem signExtend_eq_zero_iff {w n : ℕ} (h : w ≤ n) {v : BitVec w} :
    v.signExtend n = 0#n ↔ v = 0#w := by
  constructor
  · intro hv
    refine BitVec.eq_of_getLsbD_eq fun i hi => ?_
    have hbit := congrArg (BitVec.getLsbD · i) hv
    simpa only [BitVec.getLsbD_signExtend, hi, hi.trans_le h, if_true, decide_true,
      Bool.true_and, BitVec.getLsbD_zero] using hbit
  · rintro rfl
    refine BitVec.eq_of_getLsbD_eq fun i _ => ?_
    simp only [BitVec.getLsbD_signExtend, BitVec.getLsbD_zero, BitVec.msb_zero, ite_self,
      Bool.and_false]

/-- The field of the description, which the sign does not reach. -/
theorem field_signExtend (descr : BitVec 32) :
    descr.signExtend (8 * x.hart8) >>> 16 &&& 0xf#_ =
      (descr >>> 16 &&& 0xf#32).setWidth (8 * x.hart8) := by
  have hlow {w i : ℕ} (hi : 4 ≤ i) : (0xf#w).getLsbD i = false := by
    have hpow : 15 < 2 ^ i :=
      lt_of_lt_of_le (by decide) (Nat.pow_le_pow_right (by decide) hi)
    rw [BitVec.getLsbD_ofNat, Nat.testBit_lt_two_pow hpow, Bool.and_false]
  have hbits := x.le_bits
  refine BitVec.eq_of_getLsbD_eq fun i hi => ?_
  simp only [BitVec.getLsbD_and, BitVec.getLsbD_ushiftRight, BitVec.getLsbD_setWidth,
    BitVec.getLsbD_signExtend]
  rcases lt_or_ge i 4 with h4 | h4
  · have hsame : (0xf#(8 * x.hart8)).getLsbD i = (0xf#32).getLsbD i := by
      rw [BitVec.getLsbD_ofNat, BitVec.getLsbD_ofNat, decide_eq_true hi,
        decide_eq_true (show i < 32 by omega)]
    rw [hsame, if_pos (show 16 + i < 32 by omega), decide_eq_true hi,
      decide_eq_true (show 16 + i < 8 * x.hart8 by omega), Bool.true_and, Bool.true_and]
  · rw [hlow h4, hlow h4, Bool.and_false, Bool.and_false, Bool.and_false]

theorem setWidth_maskOf {k : ℕ} (hk : k < 16) :
    (1#(8 * x.hart8) <<< ((BitVec.ofNat (8 * x.hart8) k + 1#_).toNat % (8 * x.hart8)) +
      -1#_).setWidth 32 = 1#32 <<< (BitVec.ofNat 32 k + 1#32).toNat - 1#32 := by
  revert k
  cases x <;> decide

/-- The mask, as it is computed in a register. -/
theorem setWidth_banksMask (descr : BitVec 32) :
    (1#(8 * x.hart8) <<< (((descr.signExtend (8 * x.hart8) >>> 16 &&& 0xf#_) + 1#_).toNat %
      (8 * x.hart8)) + -1#_).setWidth 32 = L2Ctl.cbmask descr := by
  have hk : (descr >>> 16 &&& 0xf#32).toNat < 16 := by
    rw [BitVec.toNat_and]
    exact Nat.and_lt_two_pow _ (show (0xf#32).toNat < 2 ^ 4 by decide)
  have hmask := setWidth_maskOf (x := x) hk
  rw [BitVec.ofNat_toNat, BitVec.ofNat_toNat, BitVec.setWidth_eq] at hmask
  rw [field_signExtend, hmask, L2Ctl.cbmask]

end Mask

namespace CacheHart

open L2Ctl

/-! ## Side by side -/

/-- The hart has done to the controller what the C code has, with `T` for its `t2`. -/
structure Agrees (plf : L2Plf x) (regs : RegFile (8 * x.hart8)) (T : x.Word → Prop)
    (h : CacheHart x σ) (s : σ) : Prop where
  dev : h.dev = s
  base : h.regs.get .t1 = plf.l2ctlBase
  kept : RegFile.Writes [.t0, .t1, .t2] regs h.regs
  t2 : T (h.regs.get .t2)

variable {dev : L2Ctl x σ} {plf : L2Plf x} {regs : RegFile (8 * x.hart8)} {T : x.Word → Prop}

theorem Agrees.setT0 {h : CacheHart x σ} {s : σ} (hs : Agrees plf regs T h s) (v : x.Word) :
    Agrees plf regs T ⟨h.regs.set .t0 v, h.dev⟩ s where
  dev := hs.dev
  base := by
    rw [RegFile.get_set_of_ne (by decide)]
    exact hs.base
  kept := hs.kept.set (by decide)
  t2 := by
    rw [RegFile.get_set_of_ne (by decide)]
    exact hs.t2

theorem sim_lw (idx : ℕ) :
    Sim (Agrees plf regs T) (lw dev .t0 idx .t1) (dev.l2ctl plf idx) fun _ v h s =>
      Agrees plf regs T h s ∧ h.regs.get .t0 = v.signExtend _ := by
  apply Sim.act
  rintro h s hs
  obtain rfl := hs.dev
  rw [hs.base]
  refine ⟨⟨rfl, ?_, hs.kept.set (by decide), ?_⟩, RegFile.get_set_self (by decide)⟩
  · exact (RegFile.get_set_of_ne (by decide)).trans hs.base
  · exact Eq.subst (RegFile.get_set_of_ne (by decide)).symm hs.t2

theorem sim_sw {P : CacheHart x σ → σ → Prop} {rs : IntReg} {v : BitVec 32} (idx : ℕ)
    (hP : ∀ h s, P h s → Agrees plf regs T h s ∧ (h.regs.get rs).setWidth 32 = v) :
    Sim P (sw dev rs idx .t1) (dev.setL2ctl plf idx v) fun _ _ => Agrees plf regs T := by
  apply Sim.act
  intro h s hst
  obtain ⟨hs, rfl⟩ := hP h s hst
  obtain rfl := hs.dev
  refine ⟨?_, hs.base, hs.kept, hs.t2⟩
  rw [hs.base]
  rfl

/-- A branch on what has been loaded. -/
theorem sim_beqz {α β : Type} {c c' : Prog (CacheHart x σ) α} {d d' : Prog σ β} {v : BitVec 32}
    {Q : α → β → CacheHart x σ → σ → Prop} (hzero : Sim (Agrees plf regs T) c d Q)
    (hne : Sim (Agrees plf regs T) c' d' Q) :
    Sim (fun h s => Agrees plf regs T h s ∧ h.regs.get .t0 = v.signExtend _) (beqz .t0 c c')
      (if v = 0#32 then d else d') Q := by
  rintro n h s ⟨hs, hload⟩
  have hbranch : h.regs.get .t0 = 0#_ ↔ v = 0#32 := by
    rw [hload, signExtend_eq_zero_iff x.le_bits]
  rcases eq_or_ne v 0#32 with hv | hv
  · rw [beqz, if_pos (hbranch.mpr hv), if_pos hv]
    exact hzero n h s hs
  · rw [beqz, if_neg (hbranch.not.mpr hv), if_neg hv]
    exact hne n h s hs

/-- **A wait loop** goes round as often as that of the C code. -/
theorem sim_l2cacheWait :
    Sim (Agrees plf regs T) (l2cacheWait dev) (dev.l2Wait plf) fun _ _ => Agrees plf regs T := by
  apply Sim.loop fun _ _ => Agrees plf regs T
  intro _ _
  apply (sim_lw l2CsrBusyIdx).bind
  intro _ busy
  apply sim_beqz
  · exact Sim.pure fun _ _ hs => .inr hs
  · exact Sim.pure fun _ _ hs => .inl hs

/-- **The mask** that is left in `t2` is the one of the C code: ones for the banks of the
description, by a shift and a subtraction. -/
theorem sim_l2banksMask :
    Sim (Agrees plf regs T) (l2banksMask dev) (dev.l2ctl plf l2CsrDescrIdx) fun _ descr =>
      Agrees plf regs fun v => v.setWidth 32 = cbmask descr := by
  intro n h s hs
  obtain rfl := hs.dev
  have hcsr : plf.csr l2CsrDescrIdx = h.regs.get .t1 + BitVec.ofNat _ (4 * l2CsrDescrIdx) := by
    rw [hs.base]
    rfl
  refine .some ⟨?_, hs.base, ?_, ?_⟩
  · rw [hcsr]
  · exact ((((((hs.kept.set (by decide)).set (by decide)).set (by decide)).set (by decide)).set
      (by decide)).set (by decide)).set (by decide)
  · rw [hcsr]
    exact setWidth_banksMask _

theorem sim_coherency :
    Sim (Agrees plf regs T) (coherency dev plf) (dev.enableSysco plf) fun _ _ =>
      Agrees plf regs T := by
  rw [coherency, enableSysco]
  rcases plf.l3.eq_false_or_eq_true with hl3 | hl3
  · rw [if_pos hl3, if_pos hl3]
    apply Sim.left (R := fun _ h s => Agrees plf regs T h s ∧ h.regs.get .t0 = 1#_)
    · exact fun h s hs => ⟨hs.setT0 _, RegFile.get_set_self (by decide)⟩
    · intro _
      apply (sim_sw l2CsrSyscoIdx _).bind
      · exact fun _ _ => sim_l2cacheWait
      · rintro h s ⟨hs, hone⟩
        refine ⟨hs, ?_⟩
        rw [hone]
        cases x <;> rfl
  · rw [if_neg (by simp [hl3]), if_neg (by simp [hl3])]
    exact Sim.pure fun _ _ hs => hs

/-- A store of the mask. -/
theorem sim_swMask {mask : BitVec 32} (idx : ℕ) :
    Sim (Agrees plf regs fun v => v.setWidth 32 = mask) (sw dev .t2 idx .t1)
      (dev.setL2ctl plf idx mask) fun _ _ => Agrees plf regs fun v => v.setWidth 32 = mask :=
  sim_sw idx fun _ _ hs => ⟨hs, hs.t2⟩

theorem sim_initBanks {mask : BitVec 32} :
    Sim (Agrees plf regs fun v => v.setWidth 32 = mask) (initBanks dev plf)
      (dev.enableBanks plf mask) fun _ _ => Agrees plf regs fun v => v.setWidth 32 = mask := by
  apply (sim_sw l2CsrEnIdx fun h s hs => ⟨hs, by simp⟩).bind
  intro _ _
  apply sim_l2cacheWait.bind
  intro _ _
  apply (sim_swMask l2CsrInvIdx).bind
  intro _ _
  apply sim_l2cacheWait.bind
  intro _ _
  apply sim_coherency.bind
  intro _ _
  apply (sim_swMask l2CsrEnIdx).bind
  intro _ _
  exact sim_l2cacheWait

theorem sim_cacheL2Init :
    Sim (fun h s => h.regs = regs ∧ h.dev = s) (cacheL2Init dev plf) (dev.scrL2cacheEnable plf)
      fun _ _ => Agrees plf regs fun _ => True := by
  apply Sim.left (R := fun _ => Agrees plf regs fun _ => True)
  · rintro h s ⟨rfl, rfl⟩
    exact ⟨rfl, RegFile.get_set_self (by decide), (RegFile.Writes.refl _ _).set (by decide),
      trivial⟩
  intro _
  apply (sim_lw l2CsrVerIdx).bind
  intro _ ver
  apply sim_beqz
  · exact Sim.pure fun _ _ hs => hs
  · apply sim_l2banksMask.bind
    intro _ descr
    apply sim_initBanks.mono
    · exact fun _ _ hs => hs
    · exact fun _ _ _ _ hs => ⟨hs.dev, hs.base, hs.kept, trivial⟩

end CacheHart

open CacheHart in
/-- **The two ways** to turn the L2 cache on are the same for every controller and with any
number of rounds of their wait loops: they leave it in the same state or wait for it both. The
macro keeps the registers other than `t0`, `t1` and `t2`. -/
theorem cacheL2Init_eq_scrL2cacheEnable (dev : L2Ctl x σ) (plf : L2Plf x)
    (regs : RegFile (8 * x.hart8)) (s : σ) (n : ℕ) :
    (cacheL2Init dev plf n ⟨regs, s⟩).map (fun r => r.2.dev) =
        (dev.scrL2cacheEnable plf n s).map Prod.snd ∧
      ∀ r ∈ cacheL2Init dev plf n ⟨regs, s⟩, RegFile.Writes [.t0, .t1, .t2] regs r.2.regs := by
  have hsim : Sim (fun h s => h.regs = regs ∧ h.dev = s) (cacheL2Init dev plf)
      (dev.scrL2cacheEnable plf) fun _ _ => Agrees plf regs fun _ => True := sim_cacheL2Init
  refine ⟨hsim.map_eq (f := CacheHart.dev) (g := id) (fun _ _ _ _ hs => hs.dev) n ⟨rfl, rfl⟩, ?_⟩
  intro r hr
  obtain ⟨_, _, _, hs⟩ := hsim.of_left ⟨rfl, rfl⟩ hr
  exact hs.kept

end ScBl
