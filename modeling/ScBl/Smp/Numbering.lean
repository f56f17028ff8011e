import ScBl.Smp.DtbFill
import ScBl.Xlen

/-!
# The numbers of the harts

What `init_smp` gives to a board on which the master hart is among the slots that can
be numbered and answers (`numbering_initSmp`): the numbers below `num_harts` go to the
slots below it, one each. On other boards a hart can get the number `max_harts`, and its
local storage is then outside the stack (`hlsInits_inBounds_iff`).
-/

namespace ScBl

open Loops

/-! ## The code -/

/-- The stack area, and what is made of it for the harts. -/
structure StackArea (x : Xlen) where
  /-- `STACK_SIZE` -/
  size : x.Word
  /-- `PLF_L2_STACK_8CORE` -/
  l2Stack8Core : Bool

namespace StackArea

variable {x : Xlen} (area : StackArea x)

/-- `HLSIZE` -/
def hlsize : ℕ := 2 ^ if area.l2Stack8Core then 11 else 12

/-- The harts that have a stack. -/
def chunks : ℕ := area.size.toNat / area.hlsize

/-- `max_stack_chunks`, an `unsigned`. -/
def maxStackChunks : ℕ := area.chunks % 2 ^ 32

end StackArea

namespace SmpBoard

variable (b : SmpBoard)

/-- The board with this stack area. -/
def onStack {x : Xlen} (area : StackArea x) : SmpBoard :=
  { b with maxStackChunks := area.maxStackChunks }

/-- The calls of `hls_init` in `init_smp`, each with its `hartn`. -/
def hlsInits : List (Hls × ℕ) := b.hlsTable.tail.zipIdx 1

end SmpBoard

/-! ## How many harts are numbered -/

section Slots

variable (b : SmpBoard)

/-- The first loop comes to each slot once. -/
theorem nodup_activeSlots : b.activeSlots.Nodup :=
  pairwise_indicesIn.imp Nat.ne_of_lt

/-- No more distinct numbers below `n` than `n`. -/
theorem length_le_of_nodup {l : List ℕ} {n : ℕ} (hl : l.Nodup) (hlt : ∀ i ∈ l, i < n) :
    l.length ≤ n := by
  have hsub : l ⊆ List.range n := fun i hi => List.mem_range.mpr (hlt i hi)
  have hle := (hl.subperm hsub).length_le
  rwa [List.length_range] at hle

/-- The slots that are numbered are below the bound, and the master's is not among them. -/
theorem length_activeSlots_le : b.activeSlots.length ≤ b.numbered :=
  length_le_of_nodup (nodup_activeSlots b) fun _ hmem => ((mem_activeSlots b).mp hmem).1

/-- A slot that is not among the active ones leaves room for the master hart. -/
theorem length_activeSlots_lt {slotn : ℕ} (hslot : slotn < b.numbered)
    (hnot : slotn ∉ b.activeSlots) : b.activeSlots.length < b.numbered :=
  length_le_of_nodup (l := slotn :: b.activeSlots)
    (List.nodup_cons.mpr ⟨hnot, nodup_activeSlots b⟩)
    (List.forall_mem_cons.mpr ⟨hslot, fun _ hmem => ((mem_activeSlots b).mp hmem).1⟩)

/-- The table has the master, the active slots, and empty ones as long as there is room. -/
theorem length_hlsTable : b.hlsTable.length = b.activeSlots.length + 1 +
    min (b.maxHarts - (b.activeSlots.length + 1)) b.emptySlots.length := by
  rw [SmpBoard.hlsTable_eq, List.cons_append, List.length_cons, List.length_append,
    List.length_map, List.length_map, List.length_take]
  omega

/-- All slots that can get a number answer, and the master hart has none of them. -/
def Crowded : Prop :=
  0 < b.maxHarts ∧ b.maxHarts ≤ b.masterHart ∧ ∀ slotn < b.maxHarts, b.slotActive slotn = true

variable {b}

/-- With all slots answering and the master beyond them, the table gets one entry too many. -/
theorem length_hlsTable_of_crowded (hmaster : b.masterHart < b.numSlots) (h : Crowded b) :
    b.hlsTable.length = b.maxHarts + 1 := by
  obtain ⟨-, hle, hall⟩ := h
  have hnumbered : b.numbered = b.maxHarts := Nat.min_eq_left (by omega)
  have hsub : List.range b.maxHarts ⊆ b.activeSlots := by
    intro slotn hmem
    have hlt : slotn < b.maxHarts := List.mem_range.mp hmem
    exact (mem_activeSlots b).mpr ⟨by omega, hall slotn hlt, by omega⟩
  have hge := (List.nodup_range.subperm hsub).length_le
  have hle := length_activeSlots_le b
  rw [List.length_range] at hge
  rw [length_hlsTable]
  omega

/-- Else some number is not taken by an active slot. -/
theorem exists_hole_of_not_crowded (h : ¬ Crowded b) (hpos : 0 < b.maxHarts) :
    ∃ slotn < b.maxHarts, slotn ∉ b.activeSlots := by
  rcases Nat.lt_or_ge b.masterHart b.maxHarts with hlt | hge
  · exact ⟨b.masterHart, hlt, fun hmem => ((mem_activeSlots b).mp hmem).2.2 rfl⟩
  · by_contra hnone
    push Not at hnone
    exact h ⟨hpos, hge, fun slotn hlt => ((mem_activeSlots b).mp (hnone slotn hlt)).2.1⟩

/-- Otherwise it stays within `max_harts`, the entry of the master apart. -/
theorem length_hlsTable_le (h : ¬ Crowded b) : b.hlsTable.length ≤ max 1 b.maxHarts := by
  have hnumbered : b.numbered = min b.maxHarts b.numSlots := rfl
  have hle := length_activeSlots_le b
  rw [length_hlsTable]
  rcases Nat.eq_zero_or_pos b.maxHarts with hzero | hpos
  · omega
  · obtain ⟨slotn, hlt, hnot⟩ := exists_hole_of_not_crowded h hpos
    rcases Nat.lt_or_ge slotn b.numbered with hin | hout
    · have hless := length_activeSlots_lt b hin hnot
      omega
    · omega

end Slots

/-! ## The local storage that is written -/

/-- All indices of a list are below a bound exactly if its end is. -/
theorem forall_zipIdx_lt {α : Type} {l : List α} {k n : ℕ} :
    (∀ entry ∈ l.zipIdx k, entry.2 < n) ↔ l.length = 0 ∨ k + l.length ≤ n := by
  induction l generalizing k with
  | nil => simp
  | cons a l ih =>
    rw [List.zipIdx_cons, List.forall_mem_cons, ih, List.length_cons]
    omega

/-- Hence the numbers that `hls_init` is called with, from 1 on, by the length of the table. -/
theorem forall_hlsInits_lt {b : SmpBoard} {n : ℕ} :
    (∀ init ∈ b.hlsInits, init.2 < n) ↔ b.hlsTable.length ≤ max 1 n := by
  have hlength := length_hlsTable b
  rw [SmpBoard.hlsInits, forall_zipIdx_lt, List.length_tail]
  omega

/-- The boards on which nothing goes wrong: no harts at all, a master below the bound, or a slot
that does not answer. -/
theorem not_crowded_iff {b : SmpBoard} :
    ¬ Crowded b ↔ b.maxHarts = 0 ∨ b.masterHart < b.maxHarts ∨
      ∃ slotn < b.maxHarts, b.slotActive slotn = false := by
  simp only [Crowded, not_and_or, not_forall, Nat.not_lt, Nat.not_le, Nat.le_zero, exists_prop,
    Bool.not_eq_true]

/-- **The calls of `hls_init` stay in the stack area** unless the slots below `max_harts` all answer
and the master hart is not one of them. Then the first loop gives away as many numbers as there are
storages, and the master has had one before it. -/
theorem hlsInits_inBounds_iff {x : Xlen} (area : StackArea x) (b : SmpBoard)
    (hmaster : b.masterHart < b.numSlots) :
    (∀ init ∈ (b.onStack area).hlsInits, init.2 < min b.smpHartNum area.chunks) ↔
      ((b.onStack area).maxHarts < min b.smpHartNum area.chunks ∨ (b.onStack area).maxHarts = 0 ∨
        b.masterHart < (b.onStack area).maxHarts ∨
        ∃ slotn < (b.onStack area).maxHarts, b.slotActive slotn = false) := by
  have hle : (b.onStack area).maxHarts ≤ min b.smpHartNum area.chunks :=
    min_le_min_left _ (Nat.mod_le _ _)
  have hfree := not_crowded_iff (b := b.onStack area)
  rw [forall_hlsInits_lt]
  by_cases hcrowded : Crowded (b.onStack area)
  · have hlength := length_hlsTable_of_crowded (b := b.onStack area) hmaster hcrowded
    have hpos := hcrowded.1
    rw [hlength]
    constructor
    · intro hroom
      exact .inl (by omega)
    · rintro (hroom | hslots)
      · omega
      · exact absurd hcrowded (hfree.mpr hslots)
  · have hlength := length_hlsTable_le hcrowded
    exact iff_of_true (by omega) (.inr (hfree.mp hcrowded))

/-- Two harts are built in, and the master hart has a slot after those of two others. -/
def SmpBoard.masterLast : SmpBoard where
  masterHart := 2
  smpHartNum := 2
  maxStackChunks := 4
  numSlots := 3
  slotActive := fun _ => true

/-- The stack area of `fsbl.ld`. -/
def StackArea.sample : StackArea .rv64 := ⟨0x4000#64, false⟩

/-- Where slot 1 is empty, all is in bounds. -/
theorem hlsInits_inBounds_masterLast :
    ({ SmpBoard.masterLast with slotActive := (· ≠ 1) }.onStack .sample).hlsInits ≠ [] ∧
      ∀ init ∈ ({ SmpBoard.masterLast with slotActive := (· ≠ 1) }.onStack .sample).hlsInits,
        init.2 < 2 :=
  ⟨by decide, (hlsInits_inBounds_iff .sample { SmpBoard.masterLast with slotActive := (· ≠ 1) }
    (by decide)).mpr (.inr (.inr (.inr ⟨1, by decide, rfl⟩)))⟩

/-- Else slot 1 is given the number 2, of a hart that is not built in. -/
theorem hlsInits_outOfBounds :
    ¬ ∀ (x : Xlen) (area : StackArea x) (b : SmpBoard), b.masterHart < b.numSlots →
      ∀ init ∈ (b.onStack area).hlsInits, init.2 < min b.smpHartNum area.chunks := by
  intro hall
  have hlt := hall .rv64 .sample .masterLast (by decide) (⟨1, true⟩, 2) (by decide)
  revert hlt
  decide

/-! ## The numbering -/

/-- The numbers below `num_harts` go to the slots below it, one each: 0 to the master hart,
then to the active slots and to the empty ones, each in ascending order. -/
structure Numbering (b : SmpBoard) (hls : List Hls) : Prop where
  /-- `num_harts` -/
  length_eq : hls.length = min b.numSlots b.maxHarts
  bijOn : Set.BijOn (slotOf hls) (Set.Iio hls.length) (Set.Iio hls.length)
  master : slotOf hls 0 = b.masterHart
  active : ∀ h ∈ hls, h.active = b.slotActive h.ipiN
  ordered : hls.tail.Pairwise fun h h' =>
    h.active = true ∧ h'.active = false ∨ h.active = h'.active ∧ h.ipiN < h'.ipiN
  /-- In the tables of `init_dtb` the loop looks at no other entries. -/
  dtb : ∀ id ∈ initDtbIds hls, id < hls.length

/-- A permutation of the first numbers is a bijection between them. -/
theorem bijOn_getD {l : List ℕ} (hl : l.Perm (List.range l.length)) :
    Set.BijOn (fun i => l.getD i 0) (Set.Iio l.length) (Set.Iio l.length) := by
  have hget : ∀ i (hi : i < l.length), l.getD i 0 = l[i] := fun i hi =>
    List.getD_eq_getElem l 0 hi
  refine ⟨fun i hi => ?_, fun i hi j hj heq => ?_, fun slotn hslot => ?_⟩
  · have hlt := List.mem_range.mp (hl.mem_iff.mp (List.getElem_mem hi))
    exact (hget i hi).trans_lt hlt
  · have hnodup : l.Nodup := hl.nodup_iff.mpr List.nodup_range
    simp only [hget i hi, hget j hj] at heq
    exact hnodup.getElem_inj_iff.mp heq
  · have hmem : slotn ∈ l := hl.mem_iff.mpr (List.mem_range.mpr hslot)
    obtain ⟨i, hi, hslotn⟩ := List.getElem_of_mem hmem
    exact ⟨i, hi, (hget i hi).trans hslotn⟩

section Numbering

variable {b : SmpBoard}

/-- The slots below `num_harts` that do not answer. -/
def lowEmptySlots (b : SmpBoard) : List ℕ :=
  indicesIn (fun slotn => !b.slotActive slotn) 0 b.numbered

/-- The master, the active slots and the empty ones are all slots, each once. What is left is to cut
the list off where the numbers end. -/
theorem perm_slots (hmaster : b.masterHart < b.numbered)
    (hactive : b.slotActive b.masterHart = true) :
    (b.masterHart :: b.activeSlots ++ lowEmptySlots b).Perm (List.range b.numbered) := by
  have hnodup : (b.masterHart :: b.activeSlots).Nodup :=
    List.nodup_cons.mpr ⟨fun hmem => ((mem_activeSlots b).mp hmem).2.2 rfl, nodup_activeSlots b⟩
  have hperm : (b.masterHart :: b.activeSlots).Perm
      ((List.range b.numbered).filter b.slotActive) := by
    refine (List.perm_ext_iff_of_nodup hnodup (List.nodup_range.filter _)).mpr fun slotn => ?_
    rw [List.mem_cons, mem_activeSlots, List.mem_filter, List.mem_range]
    constructor
    · rintro (rfl | ⟨hlt, hslot, -⟩)
      · exact ⟨hmaster, hactive⟩
      · exact ⟨hlt, hslot⟩
    · rintro ⟨hlt, hslot⟩
      rcases eq_or_ne slotn b.masterHart with heq | hne
      · exact .inl heq
      · exact .inr ⟨hlt, hslot, hne⟩
  rw [lowEmptySlots, ← filter_range]
  exact (hperm.append_right _).trans (List.filter_append_perm _ _)

/-- The second loop ends with the last slot below `num_harts`. -/
theorem take_emptySlots_eq (hslots : b.numSlots ≤ 32) (hmaster : b.masterHart < b.numbered)
    (hactive : b.slotActive b.masterHart = true) :
    b.emptySlots.take (b.maxHarts - (b.activeSlots.length + 1)) = lowEmptySlots b := by
  have hnumbered : b.numbered = min b.maxHarts b.numSlots := rfl
  have hlength := (perm_slots hmaster hactive).length_eq
  rw [List.length_append, List.length_cons, List.length_range] at hlength
  have hempty : b.emptySlots = lowEmptySlots b ++
      indicesIn (fun slotn => !b.slotActive slotn) b.numbered b.numSlots := by
    rw [lowEmptySlots, ← indicesIn_split (Nat.zero_le _) numbered_le_numSlots]
    refine List.filter_congr fun slotn hmem => ?_
    have hlt : slotn < 32 := by
      rw [List.mem_range'_1] at hmem
      omega
    rw [decide_eq_true hlt, Bool.and_true]
  rw [hempty]
  rcases Nat.le_total b.maxHarts b.numSlots with hle | hge
  · exact List.take_left' (by omega)
  · have hrest : indicesIn (fun slotn => !b.slotActive slotn) b.numbered b.numSlots = [] :=
      indicesIn_eq_nil fun slotn hlo hhi => by omega
    rw [hrest, List.append_nil]
    exact List.take_of_length_le (by omega)

section Table

variable (hslots : b.numSlots ≤ 32) (hmaster : b.masterHart < b.numbered)
  (hactive : b.slotActive b.masterHart = true)

include hslots hmaster hactive

/-- The table in the order of the numbers, with the master first. -/
theorem hlsTable_eq_cons : b.hlsTable = ⟨b.masterHart, true⟩ ::
    (b.activeSlots.map (⟨·, true⟩) ++ (lowEmptySlots b).map (⟨·, false⟩)) := by
  rw [SmpBoard.hlsTable_eq, take_emptySlots_eq hslots hmaster hactive, List.cons_append]

/-- Each slot is in the table once. -/
theorem map_ipiN_perm : (b.hlsTable.map Hls.ipiN).Perm (List.range b.numbered) := by
  rw [SmpBoard.map_ipiN_hlsTable, take_emptySlots_eq hslots hmaster hactive]
  exact perm_slots hmaster hactive

theorem length_hlsTable_eq : b.hlsTable.length = b.numbered := by
  have hlength := (map_ipiN_perm hslots hmaster hactive).length_eq
  rwa [List.length_map, List.length_range] at hlength

/-- Logical numbers and slots are in bijection. -/
theorem bijOn_slotOf :
    Set.BijOn (slotOf b.hlsTable) (Set.Iio b.hlsTable.length) (Set.Iio b.hlsTable.length) := by
  have hperm := map_ipiN_perm hslots hmaster hactive
  rw [← length_hlsTable_eq hslots hmaster hactive] at hperm
  have hbij := bijOn_getD (by rwa [List.length_map])
  rwa [List.length_map] at hbij

/-- An entry is active exactly if its slot answers. -/
theorem active_eq_slotActive : ∀ h ∈ b.hlsTable, h.active = b.slotActive h.ipiN := by
  rw [hlsTable_eq_cons hslots hmaster hactive]
  simp only [List.mem_cons, List.mem_append, List.mem_map]
  rintro h (rfl | ⟨slotn, hslot, rfl⟩ | ⟨slotn, hslot, rfl⟩)
  · exact hactive.symm
  · exact ((mem_activeSlots b).mp hslot).2.1.symm
  · have hempty := (mem_indicesIn.mp hslot).2.2
    exact (Bool.not_eq_true' _ ▸ hempty).symm

/-- After the master come the active slots and then the empty ones, each in ascending order. -/
theorem pairwise_tail : b.hlsTable.tail.Pairwise fun h h' =>
    h.active = true ∧ h'.active = false ∨ h.active = h'.active ∧ h.ipiN < h'.ipiN := by
  rw [hlsTable_eq_cons hslots hmaster hactive, List.tail_cons, List.pairwise_append]
  refine ⟨?_, ?_, ?_⟩
  · exact List.pairwise_map.mpr (pairwise_indicesIn.imp fun hlt => .inr ⟨rfl, hlt⟩)
  · exact List.pairwise_map.mpr (pairwise_indicesIn.imp fun hlt => .inr ⟨rfl, hlt⟩)
  · intro h hmem h' hmem'
    obtain ⟨slotn, -, rfl⟩ := List.mem_map.mp hmem
    obtain ⟨slotn', -, rfl⟩ := List.mem_map.mp hmem'
    exact .inl ⟨rfl, rfl⟩

end Table

/-- **The numbering of the harts is a bijection** between logical numbers and slots, with 0 for the
master hart and the active slots before the empty ones; and the device tree is filled with numbers
of the table only. -/
theorem numbering_initSmp (b : SmpBoard) (hslots : b.numSlots ≤ 32)
    (hmaster : b.masterHart < min b.numSlots b.maxHarts)
    (hactive : b.slotActive b.masterHart = true) :
    ∃ hls, b.initSmp = some hls ∧ Numbering b hls := by
  have hlow : b.masterHart < b.numbered := by rwa [SmpBoard.numbered, min_comm]
  have hlength := length_hlsTable_eq hslots hlow hactive
  have hle : b.numbered ≤ b.maxHarts := Nat.min_le_left _ _
  have hmax : b.maxHarts = min b.smpHartNum b.maxStackChunks := rfl
  have hbij := bijOn_slotOf hslots hlow hactive
  refine ⟨b.hlsTable, ?_, ?_⟩
  · rw [SmpBoard.initSmp, if_neg (by omega), if_neg (by omega)]
  · exact {
      length_eq := by rw [hlength, SmpBoard.numbered, min_comm]
      bijOn := hbij
      master := by rw [slotOf, SmpBoard.map_ipiN_hlsTable, List.getD_cons_zero]
      active := active_eq_slotActive hslots hlow hactive
      ordered := pairwise_tail hslots hlow hactive
      dtb := fun id hid => by
        obtain ⟨i, hi, rfl⟩ := List.mem_map.mp hid
        exact hbij.mapsTo (List.mem_range.mp hi) }

end Numbering

/-- Four slots for three harts; slot 1 is empty. -/
theorem numbering_initSmp_sample : ∃ hls,
    SmpBoard.initSmp ⟨2, 3, 4, 4, (· ≠ 1)⟩ = some hls ∧ Numbering ⟨2, 3, 4, 4, (· ≠ 1)⟩ hls :=
  numbering_initSmp _ (by decide) (by decide) rfl

end ScBl
