import ScBl.Lib.Pages
import ScBl.Xlen

/-!
# Cache maintenance of a range (`include/cache.h`)

`cache_flush` and `cache_invalidate` operate on one address in each line. The first address is that
of the range, wherever in its line it is; the count of the lines takes its offset into account. The
lines operated on are those of the range, each once (`cache_range`).
-/

namespace ScBl

open Pages

variable {x : Xlen}

/-! ## The code -/

/-- What the code does to the cache. -/
inductive CacheOp (x : Xlen)
  /-- `clflush` of the line of an address -/
  | clflush (a0 : x.Word)
  /-- `clinvd` of the line of an address -/
  | clinvd (a0 : x.Word)
  | fence

/-- `do { .. a0 += PLF_CACHELINE_SIZE; } while (cnt--);`: the addresses operated on. `none`: the
loop is still running when the fuel is used up. -/
def cacheLoop (line : x.Word) : ℕ → x.Word → x.Word → Option (List x.Word)
  | 0, _, _ => none
  | fuel + 1, cnt, a0 =>
    if cnt = 0#_ then some [a0]
    else (cacheLoop line fuel (cnt - 1#_) (a0 + line)).map (a0 :: ·)

/-- The addresses for a range that is not empty. The fuel is as many rounds as `cnt` can count. -/
def cacheAddrs (line vaddr size : x.Word) : Option (List x.Word) :=
  let a0 := vaddr
  let size := size + (a0 &&& (line - 1#_))
  let cnt := (size - 1#_) / line
  cacheLoop line (2 ^ (8 * x.hart8)) cnt a0

/-- `cache_invalidate`, where `l1Available` is `cache_l1_available()` and `line` is
`PLF_CACHELINE_SIZE`. -/
def cacheInvalidate (l1Available : Bool) (line vaddr size : x.Word) : Option (List (CacheOp x)) :=
  if 0#_ < line ∧ l1Available = true ∧ size ≠ 0#_ then
    (cacheAddrs line vaddr size).map fun addrs => .fence :: addrs.map .clinvd
  else some [.fence]

/-- `cache_flush` -/
def cacheFlush (l1Available : Bool) (line vaddr size : x.Word) : Option (List (CacheOp x)) :=
  if 0#_ < line ∧ l1Available = true ∧ size ≠ 0#_ then
    (cacheAddrs line vaddr size).map fun addrs => addrs.map .clflush ++ [.fence]
  else some [.fence]

/-! ## The lines -/

/-- **The loop** runs once more than `cnt` says. -/
theorem cacheLoop_eq {k fuel : ℕ} {cnt a0 : x.Word} (hfuel : cnt.toNat < fuel) :
    cacheLoop (BitVec.ofNat _ (2 ^ k)) fuel cnt a0 = some (pagesFrom k a0 (cnt.toNat + 1)) := by
  induction fuel generalizing cnt a0 with
  | zero => exact absurd hfuel (Nat.not_lt_zero _)
  | succ fuel ih =>
    rw [cacheLoop]
    split_ifs with hcnt
    · rw [hcnt, BitVec.toNat_ofNat, Nat.zero_mod, pagesFrom_one]
    · have hpos : 0 < cnt.toNat := toNat_pos_iff.mpr hcnt
      have hpred := toNat_sub_one hpos
      rw [ih (by omega), hpred, Nat.sub_add_cancel hpos, pagesFrom_succ, Option.map_some]

/-- The line of an address. -/
def lineOf (k : ℕ) (a : x.Word) : ℕ := a.toNat / 2 ^ k

/-- The lines of a range: those of its bytes. -/
def rangeLines (k : ℕ) (vaddr size : x.Word) : Set ℕ :=
  {n | ∃ a, vaddr.toNat ≤ a ∧ a < vaddr.toNat + size.toNat ∧ a / 2 ^ k = n}

/-- The line of the last byte. -/
theorem lineOf_last (k : ℕ) (vaddr : x.Word) {size : x.Word} (hsize : size ≠ 0#_) :
    (vaddr.toNat + size.toNat - 1) / 2 ^ k =
    lineOf k vaddr + (size.toNat + vaddr.toNat % 2 ^ k - 1) / 2 ^ k := by
  have hpos : 0 < size.toNat := toNat_pos_iff.mpr hsize
  have hsplit := Nat.div_add_mod vaddr.toNat (2 ^ k)
  have hlast : vaddr.toNat + size.toNat - 1 =
      size.toNat + vaddr.toNat % 2 ^ k - 1 + 2 ^ k * lineOf k vaddr := by
    rw [lineOf]
    omega
  rw [hlast, Nat.add_mul_div_left _ _ (Nat.two_pow_pos k), Nat.add_comm]

section Range

variable {k : ℕ} {vaddr size : x.Word} (hk : k < 8 * x.hart8) (hsize : size ≠ 0#_)
  (hwrap : vaddr.toNat + size.toNat < 2 ^ (8 * x.hart8))

include hk hsize hwrap

/-- The count, from the offset in the first line. -/
theorem toNat_cnt :
    ((size + (vaddr &&& (BitVec.ofNat _ (2 ^ k) - 1#_)) - 1#_) / BitVec.ofNat _ (2 ^ k)).toNat =
      (size.toNat + vaddr.toNat % 2 ^ k - 1) / 2 ^ k := by
  have hpow : 2 ^ k < 2 ^ (8 * x.hart8) := Nat.pow_lt_pow_right (by decide) hk
  have hline : (BitVec.ofNat (8 * x.hart8) (2 ^ k)).toNat = 2 ^ k := by
    rw [BitVec.toNat_ofNat, Nat.mod_eq_of_lt hpow]
  have hpos : 0 < size.toNat := toNat_pos_iff.mpr hsize
  have hmod := Nat.mod_le vaddr.toNat (2 ^ k)
  have hmask : BitVec.ofNat (8 * x.hart8) (2 ^ k) - 1#_ = BitVec.ofNat _ (2 ^ k - 1) := by
    refine BitVec.eq_of_toNat_eq ?_
    rw [toNat_sub_one (by rw [hline]; exact Nat.two_pow_pos k), hline, BitVec.toNat_ofNat,
      Nat.mod_eq_of_lt (by omega)]
  have hsum : (size + BitVec.ofNat _ (vaddr.toNat % 2 ^ k)).toNat =
      size.toNat + vaddr.toNat % 2 ^ k := by
    rw [BitVec.toNat_add, BitVec.toNat_ofNat, Nat.mod_eq_of_lt (by omega : _ % 2 ^ k < _),
      Nat.mod_eq_of_lt (by omega)]
  rw [hmask, and_offsetMask hk.le, BitVec.toNat_udiv, toNat_sub_one (by omega), hsum, hline]

/-- **The addresses** are in the lines from that of the first byte to that of the last one. Each
round is one line further, with no wrap before the last. -/
theorem cacheAddrs_eq : ∃ addrs, cacheAddrs (BitVec.ofNat _ (2 ^ k)) vaddr size = some addrs ∧
    addrs.map (lineOf k) = List.range' (lineOf k vaddr)
      ((size.toNat + vaddr.toNat % 2 ^ k - 1) / 2 ^ k + 1) := by
  have hcnt := toNat_cnt hk hsize hwrap
  have hlast := lineOf_last k vaddr hsize
  refine ⟨_, cacheLoop_eq (BitVec.isLt _), ?_⟩
  rw [hcnt, pagesFrom, List.map_map, List.range'_eq_map_range]
  refine List.map_congr_left fun j hj => ?_
  -- the last address is in the line of the last byte, which ends in the address space
  have hpos : 0 < 2 ^ k := Nat.two_pow_pos k
  have hspace : 2 ^ k * 2 ^ (8 * x.hart8 - k) = 2 ^ (8 * x.hart8) := by
    rw [← Nat.pow_add, Nat.add_sub_cancel' hk.le]
  have hfit : lineOf k vaddr + j + 1 ≤ 2 ^ (8 * x.hart8 - k) := by
    have hlt : (vaddr.toNat + size.toNat - 1) / 2 ^ k < 2 ^ (8 * x.hart8 - k) :=
      Nat.div_lt_of_lt_mul (by omega)
    have hj := List.mem_range.mp hj
    omega
  have hsplit := Nat.div_add_mod vaddr.toNat (2 ^ k)
  have hoffset := Nat.mod_lt vaddr.toNat hpos
  have hend := Nat.mul_le_mul_left (2 ^ k) hfit
  have hmul : 2 ^ k * (lineOf k vaddr + j + 1) =
      2 ^ k * (vaddr.toNat / 2 ^ k) + j * 2 ^ k + 2 ^ k := by
    rw [lineOf]
    ring
  have haddr : (vaddr + BitVec.ofNat _ (j * 2 ^ k)).toNat = vaddr.toNat + j * 2 ^ k := by
    rw [BitVec.toNat_add, BitVec.toNat_ofNat, Nat.add_mod_mod, Nat.mod_eq_of_lt (by omega)]
  rw [Function.comp_apply, lineOf, haddr, Nat.add_mul_div_right _ _ hpos, lineOf]

/-- **A range** of the cache: the lines that are operated on are those of its bytes, each once and
in their order. -/
theorem cache_range : ∃ addrs : List x.Word,
    cacheFlush true (BitVec.ofNat _ (2 ^ k)) vaddr size = some (addrs.map .clflush ++ [.fence]) ∧
      cacheInvalidate true (BitVec.ofNat _ (2 ^ k)) vaddr size =
        some (.fence :: addrs.map .clinvd) ∧
      (addrs.map (lineOf k)).Nodup ∧
      ∀ n, n ∈ addrs.map (lineOf k) ↔ n ∈ rangeLines k vaddr size := by
  obtain ⟨addrs, haddrs, hlines⟩ := cacheAddrs_eq hk hsize hwrap
  have hlast := lineOf_last k vaddr hsize
  have hline : 0#_ < BitVec.ofNat (8 * x.hart8) (2 ^ k) := by
    rw [BitVec.lt_def, BitVec.toNat_ofNat, BitVec.toNat_ofNat, Nat.zero_mod,
      Nat.mod_eq_of_lt (Nat.pow_lt_pow_right (by decide) hk)]
    exact Nat.two_pow_pos k
  refine ⟨addrs, ?_, ?_, ?_, fun n => ?_⟩
  · rw [cacheFlush, if_pos ⟨hline, rfl, hsize⟩, haddrs, Option.map_some]
  · rw [cacheInvalidate, if_pos ⟨hline, rfl, hsize⟩, haddrs, Option.map_some]
  · rw [hlines]
    exact List.nodup_range'
  · have hrange : n ∈ rangeLines k vaddr size ↔
        lineOf k vaddr ≤ n ∧ n ≤ (vaddr.toNat + size.toNat - 1) / 2 ^ k :=
      exists_div_eq_iff (Nat.two_pow_pos k) (toNat_pos_iff.mpr hsize)
    rw [hlines, List.mem_range'_1, hrange, hlast]
    exact and_congr_right fun _ => Nat.lt_succ_iff

end Range

/-- A range of two bytes that are in two lines. -/
theorem cache_range_two : ∃ addrs : List (Xlen.Word .rv64),
    cacheFlush (x := .rv64) true (BitVec.ofNat 64 (2 ^ 4)) 0x1f#64 2#64 =
        some (addrs.map .clflush ++ [.fence]) ∧
      cacheInvalidate (x := .rv64) true (BitVec.ofNat 64 (2 ^ 4)) 0x1f#64 2#64 =
        some (.fence :: addrs.map .clinvd) ∧
      (addrs.map (lineOf 4)).Nodup ∧
      ∀ n, n ∈ addrs.map (lineOf 4) ↔ n ∈ rangeLines (x := .rv64) 4 0x1f#64 2#64 :=
  cache_range (x := .rv64) (by decide) (toNat_pos_iff.mp (by decide)) (by decide)

end ScBl
