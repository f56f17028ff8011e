import ScBl.Lib.Bytes
import Mathlib.Tactic.Ring

/-!
# Moving a block of memory

`moveBytes` moves a block at once, from the memory as it was. A loop that copies it chunk by
chunk does the same from the top down where no chunk is put on bytes that come before it in the
source (`moveBytes_chunk_top`), and from the bottom up where none is put on bytes that come
after it (`moveBytes_chunk_bottom`). Addresses are words and wrap around.
-/

namespace Bytes

variable {w a : ℕ}

/-- The memory with the `n` bytes from `src` on moved to `dst`. -/
def moveBytes (mem : BitVec a → BitVec 8) (dst src : BitVec a) (n : ℕ) : BitVec a → BitVec 8 :=
  fun p => if (p - dst).toNat < n then mem (src + (p - dst)) else mem p

variable {mem : BitVec a → BitVec 8} {dst src p : BitVec a} {n c : ℕ}

@[simp] theorem moveBytes_zero : moveBytes mem dst src 0 = mem := rfl

theorem moveBytes_of_lt (h : (p - dst).toNat < n) :
    moveBytes mem dst src n p = mem (src + (p - dst)) := by
  rw [moveBytes, if_pos h]

theorem moveBytes_of_le (h : n ≤ (p - dst).toNat) : moveBytes mem dst src n p = mem p := by
  rw [moveBytes, if_neg (Nat.not_lt.mpr h)]

/-- A word that is loaded and stored. -/
theorem writeBytes_leWord (hw : 8 * n ≤ w) :
    writeBytes mem dst ((leWord (bytesAt mem src) n).setWidth w) n = moveBytes mem dst src n := by
  funext p
  rw [writeBytes, moveBytes]
  split_ifs with hp
  · rw [byteOf_setWidth_leWord _ hp hw, bytesAt, BitVec.ofNat_toNat, BitVec.setWidth_eq]
  · rfl

/-- The distance from the chunk at offset `n` of a byte. -/
theorem toNat_sub_add {d : BitVec a} (hn : n < 2 ^ a) :
    (d - BitVec.ofNat a n).toNat =
      if n ≤ d.toNat then d.toNat - n else 2 ^ a - (n - d.toNat) := by
  have hd := d.isLt
  rw [BitVec.toNat_sub, BitVec.toNat_ofNat, Nat.mod_eq_of_lt hn]
  split_ifs with hle
  · have heq : 2 ^ a - n + d.toNat = 2 ^ a + (d.toNat - n) := by omega
    rw [heq, Nat.add_mod_left, Nat.mod_eq_of_lt (by omega)]
  · rw [Nat.mod_eq_of_lt (by omega)]
    omega

/-- **From the top down**: a chunk, then the `n` bytes in front of it. The chunk must not overwrite
what is still to be read. -/
theorem moveBytes_chunk_top (hn : n + c ≤ 2 ^ a) (hc : 0 < c)
    (hapart : ∀ i < n, c ≤ (src + BitVec.ofNat a i - (dst + BitVec.ofNat a n)).toNat) :
    moveBytes (moveBytes mem (dst + BitVec.ofNat a n) (src + BitVec.ofNat a n) c) dst src n =
      moveBytes mem dst src (n + c) := by
  funext p
  have hdist : p - (dst + BitVec.ofNat a n) = p - dst - BitVec.ofNat a n := by
    rw [sub_add_eq_sub_sub]
  have hchunk := toNat_sub_add (d := p - dst) (n := n) (by omega)
  rw [← hdist] at hchunk
  rcases Nat.lt_or_ge (p - dst).toNat n with hlt | hge
  · have hpd : p - dst = BitVec.ofNat a (p - dst).toNat := by
      rw [BitVec.ofNat_toNat, BitVec.setWidth_eq]
    rw [moveBytes_of_lt hlt, moveBytes_of_lt (Nat.lt_add_right c hlt), moveBytes_of_le]
    rw [hpd]
    exact hapart _ hlt
  · rw [moveBytes_of_le hge]
    rw [if_pos hge] at hchunk
    rcases Nat.lt_or_ge (p - dst).toNat (n + c) with hlt' | hge'
    · rw [moveBytes_of_lt (by omega), moveBytes_of_lt hlt', hdist, add_assoc, add_sub_cancel]
    · rw [moveBytes_of_le (by omega), moveBytes_of_le hge']

/-- **From the bottom up**: a chunk, then the `n` bytes after it, where the chunk has not
overwritten what is read for them. -/
theorem moveBytes_chunk_bottom (hn : c + n ≤ 2 ^ a) (hc : c < 2 ^ a)
    (hapart : ∀ i < n, c ≤ (src + BitVec.ofNat a (c + i) - dst).toNat) :
    moveBytes (moveBytes mem dst src c) (dst + BitVec.ofNat a c) (src + BitVec.ofNat a c) n =
      moveBytes mem dst src (c + n) := by
  funext p
  have hdist : p - (dst + BitVec.ofNat a c) = p - dst - BitVec.ofNat a c := by
    rw [sub_add_eq_sub_sub]
  have hrest := toNat_sub_add (d := p - dst) hc
  rw [← hdist] at hrest
  rcases Nat.lt_or_ge (p - dst).toNat c with hlt | hge
  · rw [if_neg (Nat.not_le.mpr hlt)] at hrest
    rw [moveBytes_of_le (by omega), moveBytes_of_lt hlt, moveBytes_of_lt (Nat.lt_add_right n hlt)]
  · rw [if_pos hge] at hrest
    rcases Nat.lt_or_ge (p - dst).toNat (c + n) with hlt' | hge'
    · obtain ⟨i, hi, hpd⟩ : ∃ i < n, p - dst = BitVec.ofNat a (c + i) := by
        refine ⟨(p - dst).toNat - c, by omega, ?_⟩
        rw [Nat.add_sub_cancel' hge, BitVec.ofNat_toNat, BitVec.setWidth_eq]
      have hsrc : src + BitVec.ofNat a c + (p - dst - BitVec.ofNat a c) =
          src + BitVec.ofNat a (c + i) := by
        rw [hpd, add_assoc, add_sub_cancel]
      rw [moveBytes_of_lt (by omega), moveBytes_of_lt hlt', hdist, hsrc, hpd,
        moveBytes_of_le (hapart i hi)]
    · rw [moveBytes_of_le (by omega), moveBytes_of_le (by omega), moveBytes_of_le hge']

/-! ## Loops -/

/-- `k` chunks of `c` bytes, the last one first. -/
def copyDown (c : ℕ) (dst src : BitVec a) : (BitVec a → BitVec 8) → ℕ → BitVec a → BitVec 8
  | mem, 0 => mem
  | mem, k + 1 => copyDown c dst src
      (moveBytes mem (dst + BitVec.ofNat a (c * k)) (src + BitVec.ofNat a (c * k)) c) k

/-- `k` chunks of `c` bytes, the first one first. -/
def copyUp (c : ℕ) : (BitVec a → BitVec 8) → BitVec a → BitVec a → ℕ → BitVec a → BitVec 8
  | mem, _, _, 0 => mem
  | mem, dst, src, k + 1 =>
    copyUp c (moveBytes mem dst src c) (dst + BitVec.ofNat a c) (src + BitVec.ofNat a c) k

/-- The source does not start inside the destination. -/
def ClearAbove (dst src : BitVec a) (n : ℕ) : Prop :=
  ¬ (0 < (src - dst).toNat ∧ (src - dst).toNat < n)

/-- The destination does not start inside the source. -/
def ClearBelow (dst src : BitVec a) (n : ℕ) : Prop :=
  ¬ (0 < (dst - src).toNat ∧ (dst - src).toNat < n)

instance : Decidable (ClearAbove dst src n) := inferInstanceAs (Decidable (¬ _))

instance : Decidable (ClearBelow dst src n) := inferInstanceAs (Decidable (¬ _))

/-- A byte of the source in front of a chunk is not in the destination of the chunk. -/
theorem ClearAbove.apart (h : ClearAbove dst src (n + c)) (hc : 0 < c) (hn : n + c ≤ 2 ^ a)
    {i : ℕ} (hi : i < n) : c ≤ (src + BitVec.ofNat a i - (dst + BitVec.ofNat a n)).toNat := by
  have heq : src + BitVec.ofNat a i - (dst + BitVec.ofNat a n) =
      (src - dst) - BitVec.ofNat a (n - i) := by
    have hsplit : BitVec.ofNat a n = BitVec.ofNat a i + BitVec.ofNat a (n - i) := by
      rw [← BitVec.ofNat_add, Nat.add_sub_cancel' hi.le]
    rw [hsplit]
    ring
  rw [heq, toNat_sub_add (by omega)]
  simp only [ClearAbove, not_and, not_lt] at h
  split_ifs with hle
  · have hge := h (by omega)
    omega
  · omega

/-- A byte of the source after a chunk is not in the destination of the chunk. -/
theorem ClearBelow.apart (h : ClearBelow dst src (c + n)) (hn : c + n ≤ 2 ^ a) {i : ℕ}
    (hi : i < n) : c ≤ (src + BitVec.ofNat a (c + i) - dst).toNat := by
  have heq : src + BitVec.ofNat a (c + i) - dst = BitVec.ofNat a (c + i) - (dst - src) := by
    ring
  have hd := (dst - src).isLt
  rw [heq, BitVec.toNat_sub, BitVec.toNat_ofNat, Nat.mod_eq_of_lt (by omega : c + i < 2 ^ a)]
  simp only [ClearBelow, not_and, not_lt] at h
  rcases Nat.eq_zero_or_pos (dst - src).toNat with hzero | hpos
  · rw [hzero, Nat.sub_zero, Nat.add_mod_left, Nat.mod_eq_of_lt (by omega)]
    omega
  · have hge := h hpos
    rw [Nat.mod_eq_of_lt (by omega)]
    omega

theorem copyDown_of_clear {k : ℕ} (hc : 0 < c) (hn : c * k ≤ 2 ^ a)
    (h : ClearAbove dst src (c * k)) :
    copyDown c dst src mem k = moveBytes mem dst src (c * k) := by
  induction k generalizing mem with
  | zero => rfl
  | succ k ih =>
    rw [Nat.mul_succ] at hn h ⊢
    have hlower : ClearAbove dst src (c * k) := fun hin => h ⟨hin.1, by omega⟩
    rw [copyDown, ih (by omega) hlower, moveBytes_chunk_top hn hc fun i hi =>
      h.apart hc hn hi]

theorem copyUp_of_clear {k : ℕ} (hn : c * k < 2 ^ a) (h : ClearBelow dst src (c * k)) :
    copyUp c mem dst src k = moveBytes mem dst src (c * k) := by
  induction k generalizing mem dst src with
  | zero => rfl
  | succ k ih =>
    have hsucc : c * (k + 1) = c + c * k := by ring
    rw [hsucc] at hn h ⊢
    have hlower : ClearBelow (dst + BitVec.ofNat a c) (src + BitVec.ofNat a c) (c * k) := by
      rw [ClearBelow, add_sub_add_right_eq_sub]
      exact fun hin => h ⟨hin.1, by omega⟩
    rw [copyUp, ih (by omega) hlower,
      moveBytes_chunk_bottom hn.le (by omega) fun i hi => h.apart hn.le hi]

theorem toNat_zero : (0 : BitVec a).toNat = 0 := BitVec.toNat_zero

/-- Nothing comes from nothing. -/
theorem copyDown_zero {k : ℕ} : copyDown c dst src (fun _ => 0#8) k = fun _ => 0#8 := by
  induction k with
  | zero => rfl
  | succ k ih =>
    have hsame : moveBytes (fun _ => 0#8) (dst + BitVec.ofNat a (c * k))
        (src + BitVec.ofNat a (c * k)) c = fun _ => 0#8 := by
      funext p
      rw [moveBytes, ite_self]
    rw [copyDown, hsame, ih]

/-- A byte at the start of the source that is overwritten before it is read is lost: a memory that
holds nothing else is zero after the copy. -/
theorem copyDown_lost {k m : ℕ} (hc : 0 < c) (hm : 0 < m) (hmk : m < k) (hn : c * k ≤ 2 ^ a)
    (hsrc : src = dst + BitVec.ofNat a (c * m)) (hmem : ∀ p, p ≠ src → mem p = 0#8) :
    copyDown c dst src mem k = fun _ => 0#8 := by
  induction k generalizing mem with
  | zero => exact absurd hmk (Nat.not_lt_zero m)
  | succ k ih =>
    rw [Nat.mul_succ] at hn
    -- the chunk at `k` takes no byte from the start of the source
    have hchunk : ∀ p, p ≠ src ∨ k = m → moveBytes mem (dst + BitVec.ofNat a (c * k))
        (src + BitVec.ofNat a (c * k)) c p = 0#8 := by
      intro p hp
      rcases Nat.lt_or_ge (p - (dst + BitVec.ofNat a (c * k))).toNat c with hlt | hge
      · rw [moveBytes_of_lt hlt]
        refine hmem _ fun heq => ?_
        have hpos : 0 < c * k := Nat.mul_pos hc (by omega)
        have hk : (BitVec.ofNat a (c * k)).toNat = c * k := by
          rw [BitVec.toNat_ofNat, Nat.mod_eq_of_lt (by omega)]
        rw [add_assoc, add_eq_left, ← BitVec.toNat_inj, BitVec.toNat_add, hk, toNat_zero,
          Nat.mod_eq_of_lt (by omega)] at heq
        omega
      · rw [moveBytes_of_le hge]
        obtain hne | rfl := hp
        · exact hmem p hne
        · refine hmem p fun heq => ?_
          rw [heq, hsrc, sub_self, toNat_zero] at hge
          omega
    rw [copyDown]
    rcases Nat.lt_or_ge m k with hlt | hge
    · exact ih hlt (by omega) fun p hp => hchunk p (.inl hp)
    · have hkm : k = m := by omega
      rw [funext fun p => hchunk p (.inr hkm), copyDown_zero]

/-- **Copying down moves a block** of any contents exactly where the source does not start
inside the destination. -/
theorem copyDown_iff {k : ℕ} (hc : 0 < c) (hn : c * k ≤ 2 ^ a) (hdvd : c ∣ (src - dst).toNat) :
    (∀ mem, copyDown c dst src mem k = moveBytes mem dst src (c * k)) ↔
      ClearAbove dst src (c * k) := by
  constructor
  · rintro h ⟨hpos, hlt⟩
    obtain ⟨m, hm⟩ := hdvd
    have hsrc : src = dst + BitVec.ofNat a (c * m) := by
      rw [← hm, BitVec.ofNat_toNat, BitVec.setWidth_eq, add_sub_cancel]
    have hm0 : 0 < m := Nat.pos_of_mul_pos_left (hm ▸ hpos)
    have hmk : m < k := Nat.lt_of_mul_lt_mul_left (hm ▸ hlt)
    have hlost := h fun p => if p = src then 1#8 else 0#8
    rw [copyDown_lost hc hm0 hmk hn hsrc fun p hp => if_neg hp] at hlost
    have hbyte := congrFun hlost dst
    rw [moveBytes_of_lt (by rw [sub_self, toNat_zero]; omega), sub_self, add_zero,
      if_pos rfl] at hbyte
    exact absurd hbyte (by decide)
  · exact fun h mem => copyDown_of_clear hc hn h

end Bytes
