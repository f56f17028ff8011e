import Mathlib.Data.BitVec
import Mathlib.Data.List.GetD
import Mathlib.Logic.Function.Basic

/-!
# Little-endian bytes of words and memories

Words are put together from bytes (`leWord`), taken apart into bytes
(`byteOf`), and written to a byte-addressed memory (`writeBytes`). A loop that
moves one byte per round is a chain of `leWord`s or `writeBytes`s of growing
length, so the lemmas here are about going from `n` bytes to `n + 1`, and about
repeating a write that stopped half way (`writeBytes_writeBytes`).

Addresses are words and wrap around.
-/

namespace Bytes

variable {w a : ℕ}

/-! ## Words from bytes -/

/-- Byte `i` of a word, counted from the least significant. -/
def byteOf (x : BitVec w) (i : ℕ) : BitVec 8 := x.extractLsb' (8 * i) 8

/-- The word whose bytes, least significant first, are `f 0`, …, `f (n - 1)`. -/
def leWord (f : ℕ → BitVec 8) : (n : ℕ) → BitVec (8 * n)
  | 0 => 0#(8 * 0)
  | n + 1 => (f n ++ leWord f n).cast (by omega)

theorem getLsbD_leWord (f : ℕ → BitVec 8) (n j : ℕ) :
    (leWord f n).getLsbD j = (decide (j < 8 * n) && (f (j / 8)).getLsbD (j % 8)) := by
  induction n with
  | zero => simp
  | succ n ih =>
    rw [leWord, BitVec.getLsbD_cast, BitVec.getLsbD_append, ih]
    by_cases hlow : j < 8 * n
    · have hlt : j < 8 * (n + 1) := by omega
      simp [hlow, hlt]
    · rw [if_neg hlow]
      by_cases hhigh : j < 8 * (n + 1)
      · have heq : j / 8 = n := by omega
        have heq' : j % 8 = j - 8 * n := by omega
        simp [hhigh, heq, heq']
      · have hle : 8 ≤ j - 8 * n := by omega
        simp [hhigh, hle]

/-- A word depends on its own bytes only. -/
theorem leWord_congr {f g : ℕ → BitVec 8} {n : ℕ} (h : ∀ i < n, f i = g i) :
    leWord f n = leWord g n := by
  refine BitVec.eq_of_getLsbD_eq fun j hj => ?_
  rw [getLsbD_leWord, getLsbD_leWord, h (j / 8) (by omega)]

/-- Or-ing the next byte in at its place extends the word by it. -/
theorem setWidth_leWord_or (f : ℕ → BitVec 8) (n : ℕ) :
    (leWord f n).setWidth w ||| ((f n).setWidth w <<< (8 * n)) =
      (leWord f (n + 1)).setWidth w := by
  refine BitVec.eq_of_getLsbD_eq fun j hj => ?_
  rw [BitVec.getLsbD_or, BitVec.getLsbD_setWidth, BitVec.getLsbD_shiftLeft,
    BitVec.getLsbD_setWidth, BitVec.getLsbD_setWidth, getLsbD_leWord, getLsbD_leWord]
  by_cases hlow : j < 8 * n
  · have hlt : j < 8 * (n + 1) := by omega
    simp [hj, hlow, hlt]
  · by_cases hhigh : j < 8 * (n + 1)
    · have heq : j / 8 = n := by omega
      have heq' : j % 8 = j - 8 * n := by omega
      have hlt' : j - 8 * n < w := by omega
      simp [hj, hlow, hhigh, heq, heq', hlt']
    · have hle : 8 ≤ j - 8 * n := by omega
      simp [hlow, hhigh, hle]

/-- A word put together from bytes has these bytes. -/
theorem byteOf_setWidth_leWord (f : ℕ → BitVec 8) {n k : ℕ} (hk : k < n) (hw : 8 * n ≤ w) :
    byteOf ((leWord f n).setWidth w) k = f k := by
  refine BitVec.eq_of_getLsbD_eq fun j hj => ?_
  have hbyte : (8 * k + j) / 8 = k := by omega
  have hbit : (8 * k + j) % 8 = j := by omega
  have hlt : 8 * k + j < 8 * n := by omega
  have hlt' : 8 * k + j < w := by omega
  rw [byteOf, BitVec.getLsbD_extractLsb', BitVec.getLsbD_setWidth, getLsbD_leWord, hbyte, hbit]
  simp [hj, hlt, hlt']

theorem byteOf_or (x y : BitVec w) (i : ℕ) :
    byteOf (x ||| y) i = byteOf x i ||| byteOf y i := by
  refine BitVec.eq_of_getLsbD_eq fun j hj => ?_
  simp only [byteOf, BitVec.getLsbD_extractLsb', BitVec.getLsbD_or, Bool.and_or_distrib_left]

/-- A shift by whole bytes. -/
theorem byteOf_shiftLeft (x : BitVec w) {k i : ℕ} (hi : 8 * (i + 1) ≤ w) :
    byteOf (x <<< (8 * k)) i = if i < k then 0#8 else byteOf x (i - k) := by
  refine BitVec.eq_of_getLsbD_eq fun j hj => ?_
  rw [byteOf, BitVec.getLsbD_extractLsb', BitVec.getLsbD_shiftLeft]
  have hlt : 8 * i + j < w := by omega
  split_ifs with hik
  · have hlow : 8 * i + j < 8 * k := by omega
    simp [hlow]
  · have hhigh : ¬ 8 * i + j < 8 * k := by omega
    have heq : 8 * i + j - 8 * k = 8 * (i - k) + j := by omega
    rw [byteOf, BitVec.getLsbD_extractLsb', heq]
    simp [hj, hlt, hhigh]

/-- The word with byte `i` replaced. -/
def setByte (x : BitVec w) (i : ℕ) (b : BitVec 8) : BitVec w :=
  (x &&& ~~~((BitVec.allOnes 8).setWidth w <<< (8 * i))) ||| (b.setWidth w <<< (8 * i))

/-- Replacing the byte after the last one extends the word by it. -/
theorem setByte_leWord (f : ℕ → BitVec 8) (n : ℕ) :
    setByte ((leWord f n).setWidth w) n (f n) = (leWord f (n + 1)).setWidth w := by
  have hkeep : (leWord f n).setWidth w &&& ~~~((BitVec.allOnes 8).setWidth w <<< (8 * n)) =
      (leWord f n).setWidth w := by
    refine BitVec.eq_of_getLsbD_eq fun j hj => ?_
    rw [BitVec.getLsbD_and, BitVec.getLsbD_not, BitVec.getLsbD_shiftLeft, BitVec.getLsbD_setWidth,
      getLsbD_leWord]
    by_cases hlow : j < 8 * n
    · simp [hj, hlow]
    · simp [hlow]
  rw [setByte, hkeep, setWidth_leWord_or]

/-- Sign extension by shifting the word up to the top and back down. -/
theorem sshiftRight_shiftLeft_setWidth {k : ℕ} (x : BitVec k) (hk : 0 < k) (hkw : k ≤ w) :
    ((x.setWidth w) <<< (w - k)).sshiftRight (w - k) = x.signExtend w := by
  refine BitVec.eq_of_getLsbD_eq fun j hj => ?_
  rw [BitVec.getLsbD_sshiftRight, BitVec.getLsbD_signExtend]
  by_cases hjk : j < k
  · have hlt : w - k + j < w := by omega
    simp [hj, hjk, hlt, Nat.not_le.mpr hj]
  · have hmsb : ((x.setWidth w) <<< (w - k)).msb = x.msb := by
      have heq : w - 1 - (w - k) = k - 1 := by omega
      rw [BitVec.msb_eq_getLsbD_last, BitVec.msb_eq_getLsbD_last, BitVec.getLsbD_shiftLeft,
        BitVec.getLsbD_setWidth, heq]
      have hw : w - 1 < w := by omega
      have hk : k - 1 < w := by omega
      have hnot : ¬ w - 1 < w - k := by omega
      simp [hw, hk, hnot]
    rw [if_neg (by omega), if_neg hjk, hmsb]
    simp [hj, Nat.not_le.mpr hj]

/-! ## Memories -/

/-- The bytes from an address on. -/
def bytesAt (mem : BitVec a → BitVec 8) (addr : BitVec a) (i : ℕ) : BitVec 8 :=
  mem (addr + BitVec.ofNat a i)

/-- The memory after the first `n` bytes of `x` were written at `addr`. -/
def writeBytes (mem : BitVec a → BitVec 8) (addr : BitVec a) (x : BitVec w) (n : ℕ) :
    BitVec a → BitVec 8 :=
  fun p => if (p - addr).toNat < n then byteOf x (p - addr).toNat else mem p

variable {mem : BitVec a → BitVec 8} {addr : BitVec a} {x y : BitVec w}

@[simp] theorem writeBytes_zero : writeBytes mem addr x 0 = mem := rfl

/-- The distance from an address to a byte in front of it. -/
theorem toNat_add_ofNat_sub {i : ℕ} (h : i < 2 ^ a) :
    (addr + BitVec.ofNat a i - addr).toNat = i := by
  rw [BitVec.add_comm, BitVec.add_sub_cancel, BitVec.toNat_ofNat, Nat.mod_eq_of_lt h]

theorem eq_add_ofNat_iff {p : BitVec a} {i : ℕ} (h : i < 2 ^ a) :
    p = addr + BitVec.ofNat a i ↔ (p - addr).toNat = i := by
  constructor
  · rintro rfl
    exact toNat_add_ofNat_sub h
  · rintro rfl
    rw [BitVec.ofNat_toNat, BitVec.setWidth_eq, BitVec.add_comm, BitVec.sub_add_cancel]

/-- A byte of the written range. -/
theorem writeBytes_of_lt {n i : ℕ} (hi : i < n) (h : i < 2 ^ a) :
    writeBytes mem addr x n (addr + BitVec.ofNat a i) = byteOf x i := by
  rw [writeBytes, toNat_add_ofNat_sub h, if_pos hi]

/-- A byte outside the written range. -/
theorem writeBytes_of_le {n : ℕ} {p : BitVec a} (h : n ≤ (p - addr).toNat) :
    writeBytes mem addr x n p = mem p := by
  rw [writeBytes, if_neg (by omega)]

/-- Writing one byte more. -/
theorem writeBytes_succ {n : ℕ} (h : n < 2 ^ a) :
    writeBytes mem addr x (n + 1) =
      Function.update (writeBytes mem addr x n) (addr + BitVec.ofNat a n) (byteOf x n) := by
  funext p
  by_cases hp : (p - addr).toNat = n
  · rw [(eq_add_ofNat_iff h).mpr hp, Function.update_self, writeBytes_of_lt (by omega) h]
  · rw [Function.update_of_ne (fun he => hp ((eq_add_ofNat_iff h).mp he))]
    have hiff : (p - addr).toNat < n + 1 ↔ (p - addr).toNat < n := by omega
    simp only [writeBytes, hiff]

/-- **Repeating an interrupted write.** Writing the first `n` bytes and then the
first `m` is writing as many as the longer write. -/
theorem writeBytes_writeBytes {n m : ℕ} :
    writeBytes (writeBytes mem addr x n) addr x m = writeBytes mem addr x (max n m) := by
  funext p
  by_cases hm : (p - addr).toNat < m
  · have hmax : (p - addr).toNat < max n m := lt_of_lt_of_le hm (le_max_right n m)
    simp only [writeBytes, if_pos hm, if_pos hmax]
  · by_cases hn : (p - addr).toNat < n
    · have hmax : (p - addr).toNat < max n m := lt_of_lt_of_le hn (le_max_left n m)
      simp only [writeBytes, if_neg hm, if_pos hn, if_pos hmax]
    · rw [writeBytes_of_le (by omega), writeBytes_of_le (by omega), writeBytes_of_le (by omega)]

/-- Memory that a write does not reach. -/
theorem writeBytes_of_ne {n : ℕ} {p : BitVec a} (h : ∀ i < n, addr + BitVec.ofNat a i ≠ p) :
    writeBytes mem addr x n p = mem p := by
  refine writeBytes_of_le ?_
  by_contra hlt
  refine h (p - addr).toNat (by omega) ?_
  rw [BitVec.ofNat_toNat, BitVec.setWidth_eq, BitVec.add_comm, BitVec.sub_add_cancel]

/-- Two writes of `n` bytes agree exactly when the bytes do. -/
theorem writeBytes_eq_iff {n : ℕ} (h : n ≤ 2 ^ a) :
    writeBytes mem addr x n = writeBytes mem addr y n ↔ ∀ i < n, byteOf x i = byteOf y i := by
  constructor
  · intro heq i hi
    have hp := congrFun heq (addr + BitVec.ofNat a i)
    rwa [writeBytes_of_lt hi (by omega), writeBytes_of_lt hi (by omega)] at hp
  · intro hb
    funext p
    by_cases hp : (p - addr).toNat < n
    · rw [writeBytes, writeBytes, if_pos hp, if_pos hp, hb _ hp]
    · rw [writeBytes_of_le (by omega), writeBytes_of_le (by omega)]

/-! ## Lists of bytes -/

/-- The first `n` bytes of a word. -/
def bytesOf (x : BitVec w) (n : ℕ) : List (BitVec 8) := (List.range n).map (byteOf x)

/-- The memory after the bytes of a list were written from `addr` on. -/
def writeList (mem : BitVec a → BitVec 8) (addr : BitVec a) (l : List (BitVec 8)) :
    BitVec a → BitVec 8 :=
  fun p => l.getD (p - addr).toNat (mem p)

variable {l l' : List (BitVec 8)}

@[simp] theorem length_bytesOf (x : BitVec w) (n : ℕ) : (bytesOf x n).length = n := by
  rw [bytesOf, List.length_map, List.length_range]

@[simp] theorem writeList_nil : writeList mem addr [] = mem := rfl

/-- A byte outside the list. -/
theorem writeList_of_le {p : BitVec a} (h : l.length ≤ (p - addr).toNat) :
    writeList mem addr l p = mem p :=
  List.getD_eq_default _ _ h

/-- A byte of the list. -/
theorem writeList_of_lt {i : ℕ} (hi : i < l.length) (h : i < 2 ^ a) :
    writeList mem addr l (addr + BitVec.ofNat a i) = l[i] := by
  rw [writeList, toNat_add_ofNat_sub h, List.getD_eq_getElem _ _ hi]

/-- A write of a word is a write of its bytes. -/
theorem writeBytes_eq_writeList {n : ℕ} :
    writeBytes mem addr x n = writeList mem addr (bytesOf x n) := by
  funext p
  by_cases hp : (p - addr).toNat < n
  · rw [writeBytes, if_pos hp, writeList, List.getD_eq_getElem _ _ (by simpa using hp)]
    simp [bytesOf]
  · rw [writeBytes, if_neg hp, writeList_of_le (by simpa using hp)]

/-- A list after another. The two together must fit into the address space once, for else the second
would go over the first. -/
theorem writeList_append (hlen : (l ++ l').length ≤ 2 ^ a) :
    writeList (writeList mem addr l) (addr + BitVec.ofNat a l.length) l' =
      writeList mem addr (l ++ l') := by
  funext p
  rw [List.length_append] at hlen
  have hsub : p - (addr + BitVec.ofNat a l.length) = p - addr - BitVec.ofNat a l.length := by
    rw [sub_add_eq_sub_sub]
  have hdist := (p - addr).isLt
  by_cases hl' : l'.length = 0
  · rw [List.length_eq_zero_iff.mp hl', writeList_nil, List.append_nil]
  · have hfits : l.length < 2 ^ a := by omega
    have htoNat := BitVec.toNat_sub (p - addr) (BitVec.ofNat a l.length)
    rw [← hsub, BitVec.toNat_ofNat, Nat.mod_eq_of_lt hfits] at htoNat
    by_cases hp : (p - addr).toNat < l.length
    · rw [Nat.mod_eq_of_lt (by omega)] at htoNat
      rw [writeList_of_le (l := l') (by omega), writeList, writeList, List.getD_append _ _ _ _ hp]
    · have heq : 2 ^ a - l.length + (p - addr).toNat = 2 ^ a + ((p - addr).toNat - l.length) := by
        omega
      rw [heq, Nat.add_mod_left, Nat.mod_eq_of_lt (by omega)] at htoNat
      rw [writeList, writeList_of_le (l := l) (by omega), htoNat, writeList,
        List.getD_append_right _ _ _ _ (by omega)]

/-- A range of memory holds one byte when the list is of that byte. -/
theorem writeList_eq_iff {b : BitVec 8} (hlen : l.length ≤ 2 ^ a) :
    (∀ i < l.length, writeList mem addr l (addr + BitVec.ofNat a i) = b) ↔ ∀ b' ∈ l, b' = b := by
  rw [List.forall_mem_iff_getElem]
  refine forall_congr' fun i => forall_congr' fun hi => ?_
  rw [writeList_of_lt hi (by omega)]

end Bytes
