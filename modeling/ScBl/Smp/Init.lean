import ScBl.Bitops
import Mathlib.Data.List.GetD

/-!
# The harts that are found at boot (`minit.c`, `init_smp`)

The master hart probes the IPI slots in ascending order and numbers the harts as
it goes: itself first, then the slots that answer, then the others while there is
room. The slot of each logical hart is kept in its `hls`.
`hlsTable_eq` says which table that makes.
-/

namespace ScBl

open Loops

/-! ## The code -/

/-- What `init_smp` is built for and what it finds. Without ICCM support, the
slot of the master hart is `PLF_MASTER_HART`. -/
structure SmpBoard where
  /-- `PLF_MASTER_HART` -/
  masterHart : ℕ
  /-- `PLF_SMP_HART_NUM` -/
  smpHartNum : ℕ
  /-- `max_stack_chunks`, which is `STACK_SIZE / HLSIZE` -/
  maxStackChunks : ℕ
  /-- `ipi_get_num_slots()` -/
  numSlots : ℕ
  /-- The slot answers: it has the word the master sent to itself, or it gets free. -/
  slotActive : ℕ → Bool

/-- What `hls_init` writes into `hls_t` and is not the same for all harts. -/
structure Hls where
  ipiN : ℕ
  active : Bool
  deriving DecidableEq, Repr

/-- `hart_hls(hartn)->ipi_n`, for the harts that have a table. -/
def slotOf (hls : List Hls) (hartn : ℕ) : ℕ := (hls.map Hls.ipiN).getD hartn 0

/-- `hls` from hart 0 up to `hartn`, and `slot_mask`. -/
structure SlotScan where
  hls : List Hls
  slotMask : BitVec 32

/-- `BIT(nr)`; no bit where the shift is undefined. -/
def bit (nr : ℕ) : U64 := 1#64 <<< nr

namespace SmpBoard

variable (b : SmpBoard)

/-- `max_harts` -/
def maxHarts : ℕ := min b.smpHartNum b.maxStackChunks

/-- The slots that can get a number, from 0 on. -/
def numbered : ℕ := min b.maxHarts b.numSlots

/-- The probe of a slot. -/
def probeSlot (s : SlotScan) (slotn : ℕ) : SlotScan :=
  if b.slotActive slotn then
    { hls :=
        if slotn < b.maxHarts ∧ slotn ≠ b.masterHart then s.hls ++ [⟨slotn, true⟩] else s.hls
      slotMask := s.slotMask ||| (bit slotn).setWidth 32 }
  else s

/-- The second loop, for a slot. -/
def addEmptySlot (slotMask : BitVec 32) (hls : List Hls) (slotn : ℕ) : List Hls :=
  if slotMask.setWidth 64 &&& bit slotn ≠ 0#64 then hls
  else if hls.length < b.maxHarts then hls ++ [⟨slotn, false⟩]
  else hls

/-- Hart 0 comes from `plf_init`. -/
def slotScan : SlotScan :=
  (List.range b.numSlots).foldl b.probeSlot ⟨[⟨b.masterHart, true⟩], 0#32⟩

/-- The calls of `hls_init`, in the order of `hartn`. -/
def hlsTable : List Hls :=
  (List.range b.numSlots).foldl (b.addEmptySlot b.slotScan.slotMask) b.slotScan.hls

/-- `init_smp` on hardware that `smp_hardware_supported` accepts: the table for `num_harts` harts,
`none` where the hart halts. -/
def initSmp : Option (List Hls) :=
  if b.smpHartNum < b.hlsTable.length then none
  else if b.maxStackChunks < b.hlsTable.length then none
  else some b.hlsTable

/-! ## The loops -/

/-- The slots of the harts that the first loop numbers. -/
def activeSlots : List ℕ :=
  indicesIn (fun slotn => b.slotActive slotn && decide (slotn < b.maxHarts ∧ slotn ≠ b.masterHart))
    0 b.numSlots

/-- The slots that the second loop does not find in `slot_mask`, which is as wide
as `unsigned`. -/
def emptySlots : List ℕ :=
  indicesIn (fun slotn => !(b.slotActive slotn && decide (slotn < 32))) 0 b.numSlots

theorem getLsbD_setWidth_bit (i nr : ℕ) :
    ((bit nr).setWidth 32).getLsbD i = (decide (i = nr) && decide (i < 32)) := by
  rw [BitVec.getLsbD_setWidth, bit]
  by_cases hi : i < 32
  · by_cases hnr : nr < 64
    · rw [Words.getLsbD_one_shiftLeft hnr, Bool.and_comm]
    · have hne : i ≠ nr := by omega
      simp [BitVec.shiftLeft_eq_zero (Nat.le_of_not_lt hnr), hne]
  · simp [hi]

theorem and_bit_eq_zero (x : U64) (nr : ℕ) : x &&& bit nr = 0#64 ↔ x.getLsbD nr = false := by
  by_cases hnr : nr < 64
  · exact Words.and_oneBit_eq_zero hnr
  · have hge := Nat.le_of_not_lt hnr
    rw [bit, BitVec.shiftLeft_eq_zero hge, BitVec.and_zero, BitVec.getLsbD_of_ge x nr hge]
    exact iff_of_true rfl rfl

theorem setWidth_and_bit_eq_zero (slotMask : BitVec 32) (nr : ℕ) :
    slotMask.setWidth 64 &&& bit nr = 0#64 ↔ slotMask.getLsbD nr = false := by
  rw [and_bit_eq_zero, BitVec.getLsbD_setWidth]
  by_cases hnr : nr < 64
  · rw [decide_eq_true hnr, Bool.true_and]
  · rw [BitVec.getLsbD_of_ge slotMask nr (by omega), Bool.and_false]

/-- **The first loop** puts the slots that answer into the table, in ascending order, and marks them
in a mask of 32 bits. The master's own slot is left out of the table. -/
theorem foldl_probeSlot (l : List ℕ) (s : SlotScan) :
    (l.foldl b.probeSlot s).hls = s.hls ++ (l.filter fun slotn =>
        b.slotActive slotn && decide (slotn < b.maxHarts ∧ slotn ≠ b.masterHart)).map (⟨·, true⟩) ∧
      ∀ i, (l.foldl b.probeSlot s).slotMask.getLsbD i =
        (s.slotMask.getLsbD i || (decide (i ∈ l) && (b.slotActive i && decide (i < 32)))) := by
  induction l generalizing s with
  | nil => simp
  | cons slotn l ih =>
    obtain ⟨hhls, hmask⟩ := ih (b.probeSlot s slotn)
    rw [List.foldl_cons, hhls]
    refine ⟨?_, fun i => ?_⟩
    · cases hactive : b.slotActive slotn with
      | false => simp [probeSlot, hactive]
      | true =>
        by_cases hnum : slotn < b.maxHarts ∧ slotn ≠ b.masterHart
        · simp [probeSlot, hactive, hnum]
        · simp only [probeSlot, hactive, if_pos, if_neg hnum]
          rw [List.filter_cons_of_neg]
          rw [hactive, Bool.true_and, decide_eq_true_eq]
          exact hnum
    · rw [hmask]
      cases hactive : b.slotActive slotn with
      | false =>
        by_cases hi : i = slotn
        · subst hi
          simp [probeSlot, hactive]
        · simp [probeSlot, hactive, hi]
      | true =>
        simp only [probeSlot, hactive, if_pos, BitVec.getLsbD_or, getLsbD_setWidth_bit]
        by_cases hi : i = slotn
        · subst hi
          cases s.slotMask.getLsbD i <;> simp [hactive]
        · simp [hi]

/-- **The second loop** adds the slots that are not marked, as long as there is room for a number.
-/
theorem foldl_addEmptySlot (slotMask : BitVec 32) (l : List ℕ) (hls : List Hls) :
    l.foldl (b.addEmptySlot slotMask) hls =
      hls ++ ((l.filter fun slotn => !slotMask.getLsbD slotn).take
        (b.maxHarts - hls.length)).map (⟨·, false⟩) := by
  induction l generalizing hls with
  | nil => simp
  | cons slotn l ih =>
    rw [List.foldl_cons, ih, addEmptySlot]
    cases hmask : slotMask.getLsbD slotn with
    | true =>
      rw [if_pos (mt (setWidth_and_bit_eq_zero slotMask slotn).mp (by rw [hmask]; decide)),
        List.filter_cons_of_neg (by rw [hmask]; decide)]
    | false =>
      rw [if_neg (not_not.mpr ((setWidth_and_bit_eq_zero slotMask slotn).mpr hmask)),
        List.filter_cons_of_pos (by rw [hmask]; rfl)]
      by_cases hroom : hls.length < b.maxHarts
      · obtain ⟨k, hk⟩ : ∃ k, b.maxHarts - hls.length = k + 1 :=
          ⟨b.maxHarts - hls.length - 1, by omega⟩
        have hrest : b.maxHarts - (hls ++ [Hls.mk slotn false]).length = k := by
          rw [List.length_append, List.length_singleton]
          omega
        rw [if_pos hroom, hrest, hk, List.take_succ_cons, List.map_cons, List.append_assoc]
        rfl
      · have hfull : b.maxHarts - hls.length = 0 := by omega
        rw [if_neg hroom, hfull, List.take_zero, List.take_zero]

/-- **What `init_smp` builds**, before it looks at the sizes. -/
theorem hlsTable_eq :
    b.hlsTable = ⟨b.masterHart, true⟩ :: b.activeSlots.map (⟨·, true⟩) ++
      (b.emptySlots.take (b.maxHarts - (b.activeSlots.length + 1))).map (⟨·, false⟩) := by
  obtain ⟨hhls, hmask⟩ :=
    b.foldl_probeSlot (List.range b.numSlots) ⟨[⟨b.masterHart, true⟩], 0#32⟩
  rw [filter_range] at hhls
  have hlength : b.slotScan.hls.length = b.activeSlots.length + 1 := by
    rw [slotScan, hhls, List.length_append, List.length_map, Nat.add_comm]
    rfl
  have hempty : ((List.range b.numSlots).filter fun slotn => !b.slotScan.slotMask.getLsbD slotn) =
      b.emptySlots := by
    rw [emptySlots, ← filter_range]
    refine List.filter_congr fun slotn hmem => ?_
    rw [slotScan, hmask, BitVec.getLsbD_zero, Bool.false_or, decide_eq_true hmem, Bool.true_and]
  rw [hlsTable, foldl_addEmptySlot, hlength, hempty, slotScan, hhls]
  rfl

/-- The slots of the logical harts, in their order. -/
theorem map_ipiN_hlsTable :
    b.hlsTable.map Hls.ipiN = b.masterHart :: (b.activeSlots ++
      b.emptySlots.take (b.maxHarts - (b.activeSlots.length + 1))) := by
  rw [hlsTable_eq]
  simp [Function.comp_def]

end SmpBoard

section Slots

variable {b : SmpBoard} {hls : List Hls}

theorem initSmp_eq (hb : b.initSmp = some hls) :
    hls = b.hlsTable ∧ hls.length ≤ b.smpHartNum ∧ hls.length ≤ b.maxStackChunks := by
  rw [SmpBoard.initSmp] at hb
  split_ifs at hb with hnum hchunks
  cases hb
  exact ⟨rfl, Nat.le_of_not_lt hnum, Nat.le_of_not_lt hchunks⟩

theorem numbered_le_numSlots : b.numbered ≤ b.numSlots := Nat.min_le_right _ _

variable (b)

theorem mem_activeSlots {s : ℕ} :
    s ∈ b.activeSlots ↔ s < b.numbered ∧ b.slotActive s = true ∧ s ≠ b.masterHart := by
  rw [SmpBoard.activeSlots, mem_indicesIn, SmpBoard.numbered, lt_min_iff]
  simp only [Bool.and_eq_true, decide_eq_true_eq, Nat.zero_le]
  tauto

/-- `slot_mask` has no bit for the slot. -/
theorem unmasked_iff {s : ℕ} :
    (!(b.slotActive s && decide (s < 32))) = true ↔ (b.slotActive s = true → 32 ≤ s) := by
  cases b.slotActive s <;> simp

theorem mem_emptySlots {s : ℕ} :
    s ∈ b.emptySlots ↔ s < b.numSlots ∧ (b.slotActive s = true → 32 ≤ s) := by
  rw [SmpBoard.emptySlots, mem_indicesIn, unmasked_iff, and_iff_right (Nat.zero_le s)]

end Slots

end ScBl
