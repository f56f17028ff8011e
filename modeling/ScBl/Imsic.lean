import ScBl.Lib.Loops
import ScBl.Lib.Pages
import ScBl.Lib.Words
import ScBl.Xlen

/-!
# The interrupt file of a hart (`imsic.c`)

The pending and the enable bits of the interrupt identities are in registers that are selected one
at a time. `imsic_local_eix_update` goes over a range of identities, a register at a time
(`imsicLocalEixUpdate_eq`). The numbers of the registers are not limited to those of the array: past
the last identity the pending bits run into the enable bits.
-/

namespace ScBl

open Loops Pages Words

variable {x : Xlen}

/-! ## The code -/

def imsicEidelivery : ℕ := 0x70
def imsicEithreshold : ℕ := 0x72
def imsicEip0 : ℕ := 0x80
def imsicEip63 : ℕ := 0xbf
def imsicEipxBits : ℕ := 32
def imsicEie0 : ℕ := 0xc0
def imsicEie63 : ℕ := 0xff
def imsicMaxId : ℕ := 2047
def imsicEnableEidelivery : ℕ := 1
def imsicEnableEithreshold : ℕ := 0
def imsicIpiId : ℕ := 1

/-- `__riscv_xlen` -/
def Xlen.bits (x : Xlen) : ℕ := 8 * x.hart8

/-- An access to the register `c` of the interrupt file: `c` is written to `miselect`, and `v` to
`mireg`. -/
inductive ImsicOp (x : Xlen)
  /-- `imsic_csr_write` -/
  | write (c v : x.Word)
  /-- `imsic_csr_set` -/
  | set (c v : x.Word)
  /-- `imsic_csr_clear` -/
  | clear (c v : x.Word)
  deriving DecidableEq, Repr

/-- `for (i = ..; (id < last_id) && (i < __riscv_xlen); i++)`: the values of `id` and `ireg` after
it. `none`: the loop is still running when the fuel is used up. -/
def eixWord (lastId : x.Word) : ℕ → x.Word → x.Word → x.Word → Option (x.Word × x.Word)
  | 0, _, _, _ => none
  | fuel + 1, i, id, ireg =>
    if id < lastId ∧ i < BitVec.ofNat _ x.bits then
      eixWord lastId fuel (i + 1#_) (id + 1#_) (ireg ||| 1#_ <<< i.toNat)
    else some (id, ireg)

/-- `isel`, the register of an identity. -/
def eixSelect (pend : Bool) (id : x.Word) : x.Word :=
  let isel := id / BitVec.ofNat _ x.bits
  let isel := isel * BitVec.ofNat _ (x.bits / imsicEipxBits)
  isel + BitVec.ofNat _ (if pend then imsicEip0 else imsicEie0)

/-- `while (id < last_id)`. `none`: the loop is still running when the fuel is used up. -/
def eixLoop (lastId : x.Word) (pend val : Bool) : ℕ → x.Word → Option (List (ImsicOp x))
  | 0, _ => none
  | fuel + 1, id =>
    if id < lastId then
      let isel := eixSelect pend id
      (eixWord lastId (x.bits + 1) (id &&& (BitVec.ofNat _ x.bits - 1#_)) id 0#_).bind
        fun (id, ireg) => (eixLoop lastId pend val fuel id).map
          ((if val then .set isel ireg else .clear isel ireg) :: ·)
    else some []

/-- `imsic_local_eix_update`. The fuel is as many rounds as there are identities, and one. -/
def imsicLocalEixUpdate (baseId numId : x.Word) (pend val : Bool) : Option (List (ImsicOp x)) :=
  eixLoop (baseId + numId) pend val (numId.toNat + 1) baseId

/-- `imsic_init`, where `numIds` is `PLF_IMSIC_NUM_IDS`. -/
def imsicInit (numIds : x.Word) : Option (List (ImsicOp x)) := do
  let disable ← imsicLocalEixUpdate 1#_ numIds false false
  let clearIpi ← imsicLocalEixUpdate (BitVec.ofNat _ imsicIpiId) 1#_ true false
  let enableIpi ← imsicLocalEixUpdate (BitVec.ofNat _ imsicIpiId) 1#_ false true
  return disable ++ clearIpi ++
    [.write (BitVec.ofNat _ imsicEithreshold) (BitVec.ofNat _ imsicEnableEithreshold),
      .write (BitVec.ofNat _ imsicEidelivery) (BitVec.ofNat _ imsicEnableEidelivery)] ++ enableIpi

/-! ## The bits of the interrupt file -/

/-- The bits of registers that an access changes: the register, and the position in it. -/
def ImsicOp.places : ImsicOp x → List (ℕ × ℕ)
  | .set c v | .clear c v => (indicesIn v.getLsbD 0 x.bits).map (c.toNat, ·)
  | .write _ _ => []

/-- What an access does to the words of the registers. -/
def ImsicOp.run (file : ℕ → x.Word) : ImsicOp x → ℕ → x.Word
  | .write c v => Function.update file c.toNat v
  | .set c v => Function.update file c.toNat (file c.toNat ||| v)
  | .clear c v => Function.update file c.toNat (file c.toNat &&& ~~~v)

/-- What is at a place: the pending bit (`true`) or the enable bit of an identity. A word of 64
bits is two registers, of which the even one is accessed. -/
def imsicBit (x : Xlen) (place : ℕ × ℕ) : Option (Bool × ℕ) :=
  if place.1 % (x.bits / imsicEipxBits) ≠ 0 then none
  else if imsicEip0 ≤ place.1 ∧ place.1 ≤ imsicEip63 then
    some (true, (place.1 - imsicEip0) * imsicEipxBits + place.2)
  else if imsicEie0 ≤ place.1 ∧ place.1 ≤ imsicEie63 then
    some (false, (place.1 - imsicEie0) * imsicEipxBits + place.2)
  else none

/-- The place of an identity, by the code. -/
def eixPlace (x : Xlen) (pend : Bool) (id : ℕ) : ℕ × ℕ :=
  (id / x.bits * (x.bits / imsicEipxBits) + (if pend then imsicEip0 else imsicEie0), id % x.bits)

/-! ## A word -/

/-- The positions in a word are the values of some low bits. -/
theorem Xlen.exists_offsetMask (x : Xlen) : ∃ p ≤ 8 * x.hart8, x.bits = 2 ^ p ∧
    BitVec.ofNat (8 * x.hart8) x.bits - 1#_ = BitVec.ofNat _ (2 ^ p - 1) := by
  cases x
  · exact ⟨5, by decide, rfl, by decide⟩
  · exact ⟨6, by decide, rfl, by decide⟩

theorem toNat_bits : (BitVec.ofNat (8 * x.hart8) x.bits).toNat = x.bits := toNat_lit x.bits_le

theorem lt_bits_iff {i : x.Word} : i < BitVec.ofNat _ x.bits ↔ i.toNat < x.bits := by
  rw [BitVec.lt_def, toNat_bits]

theorem bits_lt (x : Xlen) : x.bits < 2 ^ (8 * x.hart8) := Nat.lt_two_pow_self

/-- **The inner loop** puts the bits of `r` identities into the word, up to the end of the range or
of the word. -/
theorem eixWord_eq (lastId : x.Word) (r : ℕ) :
    ∀ (fuel : ℕ) (i id ireg : x.Word), r < fuel → i.toNat + r ≤ x.bits →
      id.toNat + r ≤ lastId.toNat → (id.toNat + r = lastId.toNat ∨ i.toNat + r = x.bits) →
      ∃ ireg', eixWord lastId fuel i id ireg = some (id + BitVec.ofNat _ r, ireg') ∧
        ∀ n, ireg'.getLsbD n =
          (ireg.getLsbD n || decide (i.toNat ≤ n ∧ n < i.toNat + r)) := by
  induction r with
  | zero =>
    intro fuel i id ireg hfuel hi hid hend
    obtain ⟨fuel, rfl⟩ := Nat.exists_eq_succ_of_ne_zero (Nat.ne_of_gt hfuel)
    have hstop : ¬ (id < lastId ∧ i < BitVec.ofNat _ x.bits) := by
      rw [BitVec.lt_def, lt_bits_iff]
      omega
    refine ⟨ireg, by rw [eixWord, if_neg hstop, BitVec.add_zero], fun n => ?_⟩
    rw [decide_eq_false (by omega), Bool.or_false]
  | succ r ih =>
    intro fuel i id ireg hfuel hi hid hend
    obtain ⟨fuel, rfl⟩ := Nat.exists_eq_succ_of_ne_zero (Nat.ne_of_gt (Nat.zero_lt_of_lt hfuel))
    have hgo : id < lastId ∧ i < BitVec.ofNat _ x.bits := by
      rw [BitVec.lt_def, lt_bits_iff]
      omega
    have hi' : (i + 1#_).toNat = i.toNat + 1 := toNat_add_one (lt_bits_iff.mp hgo.2) (bits_lt x)
    have hid' : (id + 1#_).toNat = id.toNat + 1 :=
      toNat_add_one (BitVec.lt_def.mp hgo.1) lastId.isLt
    obtain ⟨ireg', hword, hbits⟩ := ih fuel (i + 1#_) (id + 1#_) (ireg ||| 1#_ <<< i.toNat)
      (Nat.lt_of_succ_lt_succ hfuel) (by omega) (by omega) (by omega)
    refine ⟨ireg', ?_, fun n => ?_⟩
    · rw [eixWord, if_pos hgo, hword, BitVec.add_assoc, ← BitVec.ofNat_add, Nat.add_comm 1 r]
    · have hrange : (decide (n = i.toNat) || decide (i.toNat + 1 ≤ n ∧ n < i.toNat + 1 + r)) =
          decide (i.toNat ≤ n ∧ n < i.toNat + (r + 1)) := by
        simp only [← Bool.decide_or, decide_eq_decide]
        omega
      have hbit : (1#(8 * x.hart8) <<< i.toNat).getLsbD n = decide (n = i.toNat) :=
        getLsbD_one_shiftLeft (lt_bits_iff.mp hgo.2) n
      rw [hbits, hi', BitVec.getLsbD_or, hbit, Bool.or_assoc, hrange]

/-! ## The registers -/

theorem toNat_offset (id : x.Word) :
    (id &&& (BitVec.ofNat _ x.bits - 1#_)).toNat = id.toNat % x.bits := by
  obtain ⟨p, hle, hp, hmask⟩ := x.exists_offsetMask
  have hlt : id.toNat % 2 ^ p < 2 ^ (8 * x.hart8) := (Nat.mod_le _ _).trans_lt id.isLt
  rw [hmask, and_offsetMask hle, BitVec.toNat_ofNat, Nat.mod_eq_of_lt hlt, hp]

theorem toNat_eixSelect (pend : Bool) (id : x.Word) :
    (eixSelect pend id).toNat = (eixPlace x pend id.toNat).1 := by
  have hid := id.isLt
  have hstride : (BitVec.ofNat (8 * x.hart8) (x.bits / imsicEipxBits)).toNat =
      x.bits / imsicEipxBits := toNat_lit ((Nat.div_le_self _ _).trans x.bits_le)
  have hselect : (eixSelect pend id).toNat =
      (id.toNat / x.bits * (x.bits / imsicEipxBits) % 2 ^ (8 * x.hart8) +
        (if pend then imsicEip0 else imsicEie0) % 2 ^ (8 * x.hart8)) % 2 ^ (8 * x.hart8) := by
    rw [eixSelect, BitVec.toNat_add, BitVec.toNat_mul, BitVec.toNat_udiv, toNat_bits, hstride,
      BitVec.toNat_ofNat]
  have hbase : (if pend then imsicEip0 else imsicEie0) ≤ imsicEie0 := by
    cases pend <;> decide
  rw [hselect, eixPlace]
  cases x <;> simp only [Xlen.bits, Xlen.hart8, imsicEipxBits, imsicEie0] at hid hbase ⊢ <;> omega

/-- The identities of a word have one register. -/
theorem eixPlace_add {pend : Bool} {id j : ℕ} (h : id % x.bits + j < x.bits) :
    eixPlace x pend (id + j) = ((eixPlace x pend id).1, id % x.bits + j) := by
  have hpos : 0 < x.bits := x.bits_pos
  have hsplit : id + j = id % x.bits + j + x.bits * (id / x.bits) := by
    have := Nat.div_add_mod id x.bits
    omega
  rw [eixPlace, eixPlace, hsplit, Nat.add_mul_div_left _ _ hpos, Nat.add_mul_mod_self_left,
    Nat.div_eq_of_lt h, Nat.mod_eq_of_lt h, Nat.zero_add]

/-- What is at the place of an identity, if it is one of the interrupt file. -/
theorem imsicBit_eixPlace {pend : Bool} {id : ℕ} (hid : id ≤ imsicMaxId) :
    imsicBit x (eixPlace x pend id) = some (pend, id) := by
  rw [imsicMaxId] at hid
  cases x <;> cases pend <;>
    simp only [imsicBit, eixPlace, Xlen.bits, Xlen.hart8, imsicEipxBits, imsicEip0, imsicEie0,
      imsicEip63, imsicEie63, if_true, Bool.false_eq_true, if_false]
  all_goals split_ifs
  all_goals first
    | omega
    | exact congrArg (fun n => some (_, n)) (by omega)

/-- A register is set (`val`) or cleared, an even one where a word is two of them. -/
def ImsicOp.IsEix (val : Bool) : ImsicOp x → Prop
  | .set c _ => val = true ∧ c.toNat % (x.bits / imsicEipxBits) = 0
  | .clear c _ => val = false ∧ c.toNat % (x.bits / imsicEipxBits) = 0
  | .write _ _ => False

theorem eixPlace_stride (x : Xlen) (pend : Bool) (id : ℕ) :
    (eixPlace x pend id).1 % (x.bits / imsicEipxBits) = 0 := by
  have hbase : (if pend then imsicEip0 else imsicEie0) % (x.bits / imsicEipxBits) = 0 := by
    cases x <;> cases pend <;> decide
  rw [eixPlace, Nat.add_mod, Nat.mul_mod_left, hbase]
  rfl

/-! ## The accesses -/

theorem mem_maskPlaces {c v : x.Word} {place : ℕ × ℕ} :
    place ∈ (indicesIn v.getLsbD 0 x.bits).map (c.toNat, ·) ↔
      c.toNat = place.1 ∧ v.getLsbD place.2 = true := by
  rw [List.mem_map]
  constructor
  · rintro ⟨n, hn, rfl⟩
    exact ⟨rfl, (mem_indicesIn.mp hn).2.2⟩
  · rintro ⟨hc, hv⟩
    exact ⟨place.2, mem_indicesIn.mpr ⟨Nat.zero_le _, BitVec.lt_of_getLsbD hv, hv⟩,
      Prod.ext hc rfl⟩

/-- An access of the update changes the bits at its places, and no others. -/
theorem getLsbD_run {val : Bool} {op : ImsicOp x} (h : op.IsEix val) (file : ℕ → x.Word)
    (place : ℕ × ℕ) :
    (op.run file place.1).getLsbD place.2 =
      if place ∈ op.places then val else (file place.1).getLsbD place.2 := by
  cases op with
  | write c v => exact h.elim
  | set c v =>
    obtain ⟨rfl, -⟩ := h
    simp only [ImsicOp.places, mem_maskPlaces, ImsicOp.run]
    by_cases hc : c.toNat = place.1
    · rw [← hc, Function.update_self, BitVec.getLsbD_or]
      cases v.getLsbD place.2 <;> simp
    · rw [Function.update_of_ne (Ne.symm hc), if_neg fun hp => hc hp.1]
  | clear c v =>
    obtain ⟨rfl, -⟩ := h
    simp only [ImsicOp.places, mem_maskPlaces, ImsicOp.run]
    by_cases hc : c.toNat = place.1
    · rw [← hc, Function.update_self, BitVec.getLsbD_and, BitVec.getLsbD_not]
      by_cases hn : place.2 < 8 * x.hart8
      · cases v.getLsbD place.2 <;> simp [hn]
      · rw [BitVec.getLsbD_of_ge _ _ (Nat.le_of_not_lt hn)]
        simp
    · rw [Function.update_of_ne (Ne.symm hc), if_neg fun hp => hc hp.1]

/-- So do all the accesses together. -/
theorem getLsbD_foldl_run {val : Bool} (ops : List (ImsicOp x)) (h : ∀ op ∈ ops, op.IsEix val) :
    ∀ (file : ℕ → x.Word) (place : ℕ × ℕ),
      (ops.foldl ImsicOp.run file place.1).getLsbD place.2 =
        if place ∈ ops.flatMap ImsicOp.places then val else (file place.1).getLsbD place.2 := by
  induction ops with
  | nil =>
    intro file place
    rfl
  | cons op ops ih =>
    intro file place
    obtain ⟨hop, hops⟩ := List.forall_mem_cons.mp h
    rw [List.foldl_cons, ih hops, getLsbD_run hop, List.flatMap_cons]
    by_cases hmem : place ∈ ops.flatMap ImsicOp.places
    · rw [if_pos hmem, if_pos (List.mem_append_right _ hmem)]
    · rw [if_neg hmem]
      simp only [List.mem_append, hmem, or_false]

/-! ## The range -/

/-- The places of a word of which the bits from `m` on are set. -/
theorem places_eq (pend val : Bool) {id ireg : x.Word} {r : ℕ}
    (hr : id.toNat % x.bits + r ≤ x.bits)
    (hbits : ∀ n, ireg.getLsbD n =
      decide (id.toNat % x.bits ≤ n ∧ n < id.toNat % x.bits + r)) :
    (if val then ImsicOp.set (eixSelect pend id) ireg
      else ImsicOp.clear (eixSelect pend id) ireg).places =
        (List.range' id.toNat r).map (eixPlace x pend) := by
  have hindices : indicesIn ireg.getLsbD 0 x.bits = List.range' (id.toNat % x.bits) r := by
    refine indicesIn_eq_range' fun n => ?_
    rw [hbits, decide_eq_true_eq]
    omega
  have hplaces : (indicesIn ireg.getLsbD 0 x.bits).map ((eixSelect pend id).toNat, ·) =
      (List.range' id.toNat r).map (eixPlace x pend) := by
    rw [hindices, List.range'_eq_map_range, List.range'_eq_map_range, List.map_map, List.map_map]
    refine List.map_congr_left fun j hj => ?_
    have hj := List.mem_range.mp hj
    rw [Function.comp_apply, Function.comp_apply, eixPlace_add (by omega), toNat_eixSelect]
  cases val
  · exact hplaces
  · exact hplaces

/-- **The outer loop** has all identities up to the last one. By induction on the words that are
left, of which the last need not be whole. -/
theorem eixLoop_eq (lastId : x.Word) (pend val : Bool) (fuel : ℕ) :
    ∀ id : x.Word, id.toNat ≤ lastId.toNat → lastId.toNat - id.toNat < fuel →
      ∃ ops, eixLoop lastId pend val fuel id = some ops ∧
        ops.flatMap ImsicOp.places =
          (List.range' id.toNat (lastId.toNat - id.toNat)).map (eixPlace x pend) ∧
        ∀ op ∈ ops, op.IsEix val := by
  induction fuel with
  | zero =>
    intro id _ hfuel
    exact absurd hfuel (Nat.not_lt_zero _)
  | succ fuel ih =>
    intro id hle hfuel
    rw [eixLoop]
    by_cases hlt : id < lastId
    · have hmod := Nat.mod_lt id.toNat (y := x.bits) x.bits_pos
      have hnat : id.toNat < lastId.toNat := hlt
      -- the identities of the word
      obtain ⟨r, hr⟩ : ∃ r, r = min (lastId.toNat - id.toNat) (x.bits - id.toNat % x.bits) :=
        ⟨_, rfl⟩
      have hoffset := toNat_offset id
      obtain ⟨ireg, hword, hbits⟩ := eixWord_eq lastId r (x.bits + 1)
        (id &&& (BitVec.ofNat _ x.bits - 1#_)) id 0#_ (by omega) (by omega) (by omega) (by omega)
      have hid : (id + BitVec.ofNat _ r).toNat = id.toNat + r := by
        have hlast := lastId.isLt
        rw [BitVec.toNat_add, BitVec.toNat_ofNat, Nat.add_mod_mod, Nat.mod_eq_of_lt (by omega)]
      obtain ⟨ops, hops, hplaces, heix⟩ := ih (id + BitVec.ofNat _ r) (by omega) (by omega)
      have hzero (n : ℕ) : ireg.getLsbD n =
          decide (id.toNat % x.bits ≤ n ∧ n < id.toNat % x.bits + r) := by
        rw [hbits, hoffset, BitVec.getLsbD_zero, Bool.false_or]
      have hfirst := places_eq pend val (r := r) (by omega) hzero
      refine ⟨(if val then .set (eixSelect pend id) ireg
        else .clear (eixSelect pend id) ireg) :: ops, ?_, ?_, List.forall_mem_cons.mpr ⟨?_, heix⟩⟩
      · rw [if_pos hlt]
        dsimp only
        rw [hword, Option.bind_some, hops, Option.map_some]
      · have hlen : lastId.toNat - id.toNat = r + (lastId.toNat - (id.toNat + r)) := by omega
        rw [List.flatMap_cons, hfirst, hplaces, hid, ← List.map_append, List.range'_append_1,
          ← hlen]
      · have hstride := eixPlace_stride x pend id.toNat
        rw [← toNat_eixSelect] at hstride
        cases val
        · exact ⟨rfl, hstride⟩
        · exact ⟨rfl, hstride⟩
    · have hnat : ¬ id.toNat < lastId.toNat := hlt
      refine ⟨[], if_neg hlt, ?_, by simp⟩
      rw [Nat.sub_eq_zero_of_le (Nat.le_of_not_lt hnat)]
      rfl

/-- **A range** of identities: the places of each of them once, in their order, and no others. -/
theorem imsicLocalEixUpdate_eq (baseId numId : x.Word) (pend val : Bool)
    (hwrap : baseId.toNat + numId.toNat < 2 ^ (8 * x.hart8)) :
    ∃ ops, imsicLocalEixUpdate baseId numId pend val = some ops ∧
      ops.flatMap ImsicOp.places =
        (List.range' baseId.toNat numId.toNat).map (eixPlace x pend) ∧
      ∀ op ∈ ops, op.IsEix val := by
  have hlast : (baseId + numId).toNat = baseId.toNat + numId.toNat := BitVec.toNat_add_of_lt hwrap
  have hloop := eixLoop_eq (baseId + numId) pend val (numId.toNat + 1) baseId (by omega) (by omega)
  rwa [hlast, Nat.add_sub_cancel_left] at hloop

/-- A pending (`pend`) or an enable bit of an identity. -/
def imsicGet (file : ℕ → x.Word) (pend : Bool) (id : ℕ) : Bool :=
  (file (eixPlace x pend id).1).getLsbD (eixPlace x pend id).2

/-- Of the bits of the interrupt file, those of the range get the value, and no others change. -/
def UpdatesNamed (baseId numId : ℕ) (pend val : Bool) (ops : List (ImsicOp x)) : Prop :=
  ∀ (file : ℕ → x.Word) (which : Bool) (id : ℕ), id ≤ imsicMaxId →
    imsicGet (ops.foldl ImsicOp.run file) which id =
      if which = pend ∧ baseId ≤ id ∧ id < baseId + numId then val else imsicGet file which id

/-- Identities of the interrupt file have different places. -/
theorem eixPlace_inj {pend pend' : Bool} {id id' : ℕ} (hid : id ≤ imsicMaxId)
    (hid' : id' ≤ imsicMaxId) :
    eixPlace x pend id = eixPlace x pend' id' ↔ pend = pend' ∧ id = id' := by
  constructor
  · intro h
    have hbit : imsicBit x (eixPlace x pend id) = some (pend, id) := imsicBit_eixPlace hid
    rw [h, imsicBit_eixPlace hid', Option.some.injEq, Prod.mk.injEq] at hbit
    exact ⟨hbit.1.symm, hbit.2.symm⟩
  · rintro ⟨rfl, rfl⟩
    rfl

theorem updatesNamed {baseId numId : ℕ} {pend val : Bool} {ops : List (ImsicOp x)}
    (heix : ∀ op ∈ ops, op.IsEix val)
    (hplaces : ops.flatMap ImsicOp.places = (List.range' baseId numId).map (eixPlace x pend))
    (hmax : baseId + numId ≤ imsicMaxId + 1) : UpdatesNamed baseId numId pend val ops := by
  intro file which id hid
  have hmem : eixPlace x which id ∈ (List.range' baseId numId).map (eixPlace x pend) ↔
      which = pend ∧ baseId ≤ id ∧ id < baseId + numId := by
    rw [List.mem_map]
    constructor
    · rintro ⟨id', hid', hplace⟩
      rw [List.mem_range'_1] at hid'
      obtain ⟨rfl, rfl⟩ := (eixPlace_inj (by omega) hid).mp hplace
      exact ⟨rfl, hid'⟩
    · rintro ⟨rfl, hrange⟩
      exact ⟨id, List.mem_range'_1.mpr hrange, rfl⟩
  rw [imsicGet, getLsbD_foldl_run ops heix, hplaces]
  simp only [hmem]
  rfl

/-- **The bulk update.** It ends, has the place of each identity of the range once and in their
order, and sets or clears the bits at these places and no others. Up to the last identity of the
interrupt file these are the pending or the enable bits of the range. -/
theorem imsic_eix_update (baseId numId : x.Word) (pend val : Bool)
    (hwrap : baseId.toNat + numId.toNat < 2 ^ (8 * x.hart8)) :
    ∃ ops, imsicLocalEixUpdate baseId numId pend val = some ops ∧ (∀ op ∈ ops, op.IsEix val) ∧
      ops.flatMap ImsicOp.places =
        (List.range' baseId.toNat numId.toNat).map (eixPlace x pend) ∧
      (∀ (file : ℕ → x.Word) (place : ℕ × ℕ),
        (ops.foldl ImsicOp.run file place.1).getLsbD place.2 =
          if place ∈ (List.range' baseId.toNat numId.toNat).map (eixPlace x pend) then val
          else (file place.1).getLsbD place.2) ∧
      (baseId.toNat + numId.toNat ≤ imsicMaxId + 1 →
        (ops.flatMap ImsicOp.places).map (imsicBit x) =
          (List.range' baseId.toNat numId.toNat).map (fun id => some (pend, id)) ∧
        UpdatesNamed baseId.toNat numId.toNat pend val ops) := by
  obtain ⟨ops, hops, hplaces, heix⟩ := imsicLocalEixUpdate_eq baseId numId pend val hwrap
  have hrun := getLsbD_foldl_run ops heix
  simp only [hplaces] at hrun
  refine ⟨ops, hops, heix, hplaces, hrun, fun hmax => ⟨?_, updatesNamed heix hplaces hmax⟩⟩
  rw [hplaces, List.map_map]
  refine List.map_congr_left fun id hid => ?_
  rw [List.mem_range'_1] at hid
  exact imsicBit_eixPlace (by omega)

/-- From a word into the next one. -/
theorem imsic_eix_update_two_words :
    ∃ ops, imsicLocalEixUpdate (x := .rv64) 60#_ 8#_ true false = some ops ∧
      UpdatesNamed 60 8 true false ops := by
  obtain ⟨ops, hops, -, -, -, hnamed⟩ :=
    imsic_eix_update (x := .rv64) 60#_ 8#_ true false (by decide)
  exact ⟨ops, hops, (hnamed (by decide)).2⟩

/-- Past the last identity there are no pending bits: those of identity 2049 would be where the
enable bits are, and identity 1 is enabled. -/
theorem imsic_eix_update_past :
    ¬ ∀ (x : Xlen) (baseId numId : x.Word) (pend val : Bool),
      baseId.toNat + numId.toNat < 2 ^ (8 * x.hart8) →
        ∃ ops, imsicLocalEixUpdate baseId numId pend val = some ops ∧
          UpdatesNamed baseId.toNat numId.toNat pend val ops := by
  intro h
  obtain ⟨ops, hops, hnamed⟩ := h .rv64 2049#_ 1#_ true true (by decide)
  have heval : imsicLocalEixUpdate (x := .rv64) 2049#_ 1#_ true true =
      some [.set 0xc0#_ 2#_] := by decide
  obtain rfl := Option.some.inj (heval.symm.trans hops)
  exact absurd (hnamed (fun _ => 0#_) false 1 (by decide)) (by decide)

/-! ## The start of the interrupt file -/

/-- A register that has no pending or enable bits is written. -/
theorem imsicGet_write {c v : x.Word} (hc : c.toNat < imsicEip0) (file : ℕ → x.Word)
    (which : Bool) (id : ℕ) :
    imsicGet ((ImsicOp.write c v).run file) which id = imsicGet file which id := by
  have hbase : imsicEip0 ≤ if which then imsicEip0 else imsicEie0 := by
    cases which <;> decide
  have hne : (eixPlace x which id).1 ≠ c.toNat :=
    Nat.ne_of_gt (hc.trans_le (hbase.trans (Nat.le_add_left _ _)))
  rw [imsicGet, ImsicOp.run, Function.update_of_ne hne]
  rfl

theorem imsicMaxId_lt (x : Xlen) : imsicMaxId + 1 < 2 ^ (8 * x.hart8) := by
  cases x <;> decide

/-- An update of identities of the interrupt file. -/
theorem exists_updatesNamed (baseId numId : x.Word) {b n : ℕ} (pend val : Bool)
    (hb : baseId.toNat = b) (hn : numId.toNat = n) (hmax : b + n ≤ imsicMaxId + 1) :
    ∃ ops, imsicLocalEixUpdate baseId numId pend val = some ops ∧
      UpdatesNamed b n pend val ops := by
  subst hb hn
  obtain ⟨ops, hops, hplaces, heix⟩ :=
    imsicLocalEixUpdate_eq baseId numId pend val (hmax.trans_lt (imsicMaxId_lt x))
  exact ⟨ops, hops, updatesNamed heix hplaces hmax⟩

/-- **At the start** the IPI is the only identity of the platform that is enabled, and it is not
pending. -/
theorem imsicInit_enabled (numIds : x.Word) (hmax : numIds.toNat ≤ imsicMaxId) :
    ∃ ops, imsicInit numIds = some ops ∧ ∀ file : ℕ → x.Word,
      imsicGet (ops.foldl ImsicOp.run file) true imsicIpiId = false ∧
      ∀ id, 1 ≤ id → id ≤ imsicMaxId →
        imsicGet (ops.foldl ImsicOp.run file) false id =
          if id = imsicIpiId then true
          else if id ≤ numIds.toNat then false else imsicGet file false id := by
  obtain ⟨disable, hdisable, hnamed₁⟩ :=
    exists_updatesNamed 1#_ numIds false false toNat_one rfl (by omega)
  have hipi : (BitVec.ofNat (8 * x.hart8) imsicIpiId).toNat = 1 := toNat_one
  obtain ⟨clearIpi, hclearIpi, hnamed₂⟩ :=
    exists_updatesNamed _ 1#_ true false hipi toNat_one (by decide)
  obtain ⟨enableIpi, henableIpi, hnamed₃⟩ :=
    exists_updatesNamed _ 1#_ false true hipi toNat_one (by decide)
  have hlow : (BitVec.ofNat (8 * x.hart8) imsicEithreshold).toNat < imsicEip0 ∧
      (BitVec.ofNat (8 * x.hart8) imsicEidelivery).toNat < imsicEip0 := by
    cases x <;> decide
  refine ⟨_, by rw [imsicInit, hdisable, hclearIpi, henableIpi]; rfl, fun file => ?_⟩
  simp only [List.foldl_append, List.foldl_cons, List.foldl_nil]
  constructor
  · rw [hnamed₃ _ _ _ (by decide), imsicGet_write hlow.2, imsicGet_write hlow.1,
      hnamed₂ _ _ _ (by decide)]
    rfl
  · intro id hpos hid
    rw [hnamed₃ _ _ _ hid, imsicGet_write hlow.2, imsicGet_write hlow.1, hnamed₂ _ _ _ hid,
      hnamed₁ _ _ _ hid]
    have hone : 1 ≤ id ∧ id < 1 + 1 ↔ id = imsicIpiId := by
      rw [imsicIpiId]
      omega
    have hplatform : 1 ≤ id ∧ id < 1 + numIds.toNat ↔ id ≤ numIds.toNat := by omega
    simp only [hone, hplatform, true_and, Bool.false_eq_true, false_and, if_false]

end ScBl
