import ScBl.Smp.Init

/-!
# What boot writes into the device tree for each hart (`minit.c`)

The tables of labels are indexed by slots, and the loops run over the logical harts. The loop of
`init_dtb` tests the entry that it writes. `DTB_FILL_PER_HART_INFO` tests the entry of the logical
hart and writes that of its slot (`dtb_fill_iff`).
-/

namespace ScBl

open Loops

/-! ## The code -/

/-- The sixteen weak labels of a table: which of them are defined. -/
abbrev DtbLabels : Type := Fin 16 → Bool

/-- Whether an entry is not `NULL`; none is read outside of the table. -/
def DtbLabels.entry (label : DtbLabels) (i : ℕ) : Option Bool :=
  if hi : i < 16 then some (label ⟨i, hi⟩) else none

/-- A `memcpy` to entry `id` of a table, in the round of `hart`. -/
structure DtbWrite where
  hart : ℕ
  id : ℕ
  bytes : List U8
  deriving DecidableEq, Repr

/-- The bytes of a value in the device tree, the highest first. -/
def dtbVal (val : U32) : List U8 :=
  [((val >>> 24) &&& 0xff#32).setWidth 8, ((val >>> 16) &&& 0xff#32).setWidth 8,
    ((val >>> 8) &&& 0xff#32).setWidth 8, (val &&& 0xff#32).setWidth 8]

section Code

variable (hls : List Hls)

/-- `hart_hls(hartn)->active` -/
def activeOf (hartn : ℕ) : Bool := (hls.map Hls.active).getD hartn false

/-- `hls->active && (id < num_harts)` -/
def enabled (i : ℕ) : Prop := activeOf hls i = true ∧ slotOf hls i < hls.length

instance (i : ℕ) : Decidable (enabled hls i) := inferInstanceAs (Decidable (_ ∧ _))

section Fill

variable (label : DtbLabels) (val : ℕ → U32)

/-- A round of `DTB_FILL_PER_HART_INFO`, in which `func(i).field` is `val i`. -/
def dtbFillHart (i : ℕ) : List DtbWrite :=
  if enabled hls i then
    if label.entry i = some true then [⟨i, slotOf hls i, dtbVal (val i)⟩] else []
  else []

/-- `DTB_FILL_PER_HART_INFO` -/
def dtbFillPerHartInfo : List DtbWrite :=
  (List.range (min 16 hls.length)).flatMap (dtbFillHart hls label val)

end Fill

/-- `DTB_STR_OKAY`, with its end. -/
def dtbStrOkay : List U8 := [0x6f#8, 0x6b#8, 0x61#8, 0x79#8, 0#8]

/-- `DTB_STR_FAIL`, with its end. -/
def dtbStrFail : List U8 := [0x66#8, 0x61#8, 0x69#8, 0x6c#8, 0#8]

/-- The tables of `init_dtb` for the harts. -/
structure DtbTables where
  hartStatusStr : DtbLabels
  hartFreq : DtbLabels
  cpuidDt : DtbLabels

/-- What is written into each of them. -/
structure DtbWrites where
  status : List DtbWrite
  freq : List DtbWrite
  cpuid : List DtbWrite

def DtbWrites.append (w w' : DtbWrites) : DtbWrites where
  status := w.status ++ w'.status
  freq := w.freq ++ w'.freq
  cpuid := w.cpuid ++ w'.cpuid

/-- `dtb_freq` -/
def dtbFreq {x : Xlen} (clk : x.Word) : List U8 := dtbVal (clk.setWidth 32)

/-- The write of a round into one table, if the entry is there and the hart has a value. -/
def dtbWrite (i : ℕ) (defined : Bool) (value : Option (List U8)) : List DtbWrite :=
  if defined then (value.map fun bytes => ⟨i, slotOf hls i, bytes⟩).toList else []

def statusValue (i : ℕ) : Option (List U8) :=
  some (if enabled hls i then dtbStrOkay else dtbStrFail)

/-- `clk_hart_get_by_id` gives the frequency of the hart, or fails. -/
def freqValue {x : Xlen} (clkHart : ℕ → Option x.Word) (i : ℕ) : Option (List U8) :=
  (clkHart i).map dtbFreq

def cpuidValue (i : ℕ) : Option (List U8) := some (dtbVal (BitVec.ofNat 32 i))

section Init

variable {x : Xlen} (t : DtbTables) (clkHart : ℕ → Option x.Word)

/-- A round of the loop of `init_dtb` over the harts; none if it reads outside of a table. -/
def initDtbHart (i : ℕ) : Option DtbWrites := do
  let id := slotOf hls i
  let status ← t.hartStatusStr.entry id
  let freq ← t.hartFreq.entry id
  let cpuid ← t.cpuidDt.entry id
  return {
    status := dtbWrite hls i status (statusValue hls i)
    freq := dtbWrite hls i freq (freqValue clkHart i)
    cpuid := dtbWrite hls i cpuid (cpuidValue i) }

def initDtbLoop : List ℕ → Option DtbWrites
  | [] => some ⟨[], [], []⟩
  | i :: l => do
    let w ← initDtbHart hls t clkHart i
    let w' ← initDtbLoop l
    return w.append w'

/-- The entries of the tables that the rounds of the loop look at. -/
def initDtbIds : List ℕ := (List.range hls.length).map (slotOf hls)

/-- The loop of `init_dtb` over the harts. -/
def initDtbHarts : Option DtbWrites := initDtbLoop hls t clkHart (List.range hls.length)

end Init

end Code

/-! ## What a table is owed -/

/-- Each hart that has a value has it written into the entry of its slot, if the label is defined,
and nothing else is written. -/
structure Fills (hls : List Hls) (label : DtbLabels) (value : ℕ → Option (List U8))
    (writes : List DtbWrite) : Prop where
  defined : ∀ w ∈ writes, label.entry w.id = some true
  mem_iff : ∀ w, w ∈ writes ↔ w.hart < hls.length ∧ w.id = slotOf hls w.hart ∧
    value w.hart = some w.bytes ∧ label.entry (slotOf hls w.hart) = some true

/-- The value of a hart in the tables of the caches. -/
def cacheValue (hls : List Hls) (val : ℕ → U32) (i : ℕ) : Option (List U8) :=
  if enabled hls i then some (dtbVal (val i)) else none

variable {hls : List Hls} {label : DtbLabels} {val : ℕ → U32} {w : DtbWrite}

/-- Writes to the entries of their harts, where these are, go to no other entry. -/
theorem Fills.of_mem_iff {value : ℕ → Option (List U8)} {writes : List DtbWrite}
    (h : ∀ w, w ∈ writes ↔ w.hart < hls.length ∧ w.id = slotOf hls w.hart ∧
      value w.hart = some w.bytes ∧ label.entry (slotOf hls w.hart) = some true) :
    Fills hls label value writes := by
  refine ⟨fun w hw => ?_, h⟩
  obtain ⟨-, hid, -, hlabel⟩ := (h w).mp hw
  rwa [hid]

theorem DtbLabels.entry_of_lt {i : ℕ} (hi : i < 16) : label.entry i = some (label ⟨i, hi⟩) :=
  dif_pos hi

theorem DtbLabels.entry_lt {i : ℕ} {b : Bool} (h : label.entry i = some b) : i < 16 := by
  by_contra hge
  rw [DtbLabels.entry, dif_neg hge] at h
  cases h

/-! ## The macro -/

theorem cacheValue_eq_some {i : ℕ} {bytes : List U8} :
    cacheValue hls val i = some bytes ↔ enabled hls i ∧ bytes = dtbVal (val i) := by
  rw [cacheValue]
  split_ifs with henabled
  · simp [henabled, eq_comm]
  · simp [henabled]

theorem mem_dtbFillHart {i : ℕ} : w ∈ dtbFillHart hls label val i ↔
    w.hart = i ∧ w.id = slotOf hls i ∧ cacheValue hls val i = some w.bytes ∧
      label.entry i = some true := by
  obtain ⟨hart, id, bytes⟩ := w
  rw [dtbFillHart, cacheValue_eq_some]
  split_ifs with henabled hlabel
  · simp [henabled, hlabel]
  · simp [hlabel]
  · simp [henabled]

/-- **The macro** looks at the entry of the logical hart. -/
theorem mem_dtbFillPerHartInfo : w ∈ dtbFillPerHartInfo hls label val ↔
    w.hart < hls.length ∧ w.id = slotOf hls w.hart ∧ cacheValue hls val w.hart = some w.bytes ∧
      label.entry w.hart = some true := by
  rw [dtbFillPerHartInfo, List.mem_flatMap]
  constructor
  · rintro ⟨i, hi, hmem⟩
    obtain ⟨rfl, hrest⟩ := mem_dtbFillHart.mp hmem
    exact ⟨(lt_min_iff.mp (List.mem_range.mp hi)).2, hrest⟩
  · rintro ⟨hlt, hid, hvalue, hlabel⟩
    have hrange : w.hart < min 16 hls.length := lt_min (DtbLabels.entry_lt hlabel) hlt
    exact ⟨w.hart, List.mem_range.mpr hrange, mem_dtbFillHart.mpr ⟨rfl, hid, hvalue, hlabel⟩⟩

/-- The macro keeps the law if and only if, for each hart that has a value, the two entries are
both there or both missing. -/
theorem fills_dtbFillPerHartInfo_iff :
    Fills hls label (cacheValue hls val) (dtbFillPerHartInfo hls label val) ↔
      ∀ i < hls.length, enabled hls i →
        (label.entry i = some true ↔ label.entry (slotOf hls i) = some true) := by
  constructor
  · intro h i hi henabled
    have hvalue : cacheValue hls val i = some (dtbVal (val i)) :=
      cacheValue_eq_some.mpr ⟨henabled, rfl⟩
    have hcode : ⟨i, slotOf hls i, dtbVal (val i)⟩ ∈ dtbFillPerHartInfo hls label val ↔
        label.entry i = some true :=
      mem_dtbFillPerHartInfo.trans
        ⟨fun hmem => hmem.2.2.2, fun hlabel => ⟨hi, rfl, hvalue, hlabel⟩⟩
    have hlaw := h.mem_iff ⟨i, slotOf hls i, dtbVal (val i)⟩
    rw [← hcode, hlaw]
    exact ⟨fun hmem => hmem.2.2.2, fun hlabel => ⟨hi, rfl, hvalue, hlabel⟩⟩
  · intro h
    refine .of_mem_iff fun w => ?_
    rw [mem_dtbFillPerHartInfo]
    refine and_congr_right fun hlt => and_congr_right fun _ => and_congr_right fun hvalue => ?_
    exact h w.hart hlt (cacheValue_eq_some.mp hvalue).1

/-! ## The loop of `init_dtb` -/

variable {x : Xlen} {t : DtbTables} {clkHart : ℕ → Option x.Word}

theorem mem_dtbWrite {i : ℕ} {b : Bool} {value : Option (List U8)} :
    w ∈ dtbWrite hls i b value ↔
      w.hart = i ∧ w.id = slotOf hls i ∧ value = some w.bytes ∧ b = true := by
  obtain ⟨hart, id, bytes⟩ := w
  rw [dtbWrite]
  cases b <;> cases value <;> simp [eq_comm]

/-- The rounds of the harts in `l` have filled a table. -/
def FilledBy (hls : List Hls) (label : DtbLabels) (value : ℕ → Option (List U8)) (l : List ℕ)
    (writes : List DtbWrite) : Prop :=
  ∀ w, w ∈ writes ↔ w.hart ∈ l ∧ w.id = slotOf hls w.hart ∧ value w.hart = some w.bytes ∧
    label.entry (slotOf hls w.hart) = some true

theorem FilledBy.cons {value : ℕ → Option (List U8)} {l : List ℕ} {writes : List DtbWrite} {i : ℕ}
    {b : Bool} (h : FilledBy hls label value l writes) (hb : label.entry (slotOf hls i) = some b) :
    FilledBy hls label value (i :: l) (dtbWrite hls i b (value i) ++ writes) := by
  intro w
  rw [List.mem_append, mem_dtbWrite, h w, List.mem_cons, or_and_right]
  refine or_congr_left ⟨?_, ?_⟩
  · rintro ⟨rfl, hid, hvalue, rfl⟩
    exact ⟨rfl, hid, hvalue, hb⟩
  · rintro ⟨rfl, hid, hvalue, hlabel⟩
    exact ⟨rfl, hid, hvalue, Option.some.inj (hb.symm.trans hlabel)⟩

/-- **The loop** looks at the entries that it writes, with at most sixteen slots. Each table gets
what is due at the entries of the harts that it goes through. -/
theorem initDtbLoop_of_lt {l : List ℕ} (hl : ∀ i ∈ l, slotOf hls i < 16) :
    ∃ w, initDtbLoop hls t clkHart l = some w ∧
      FilledBy hls t.hartStatusStr (statusValue hls) l w.status ∧
      FilledBy hls t.hartFreq (freqValue clkHart) l w.freq ∧
      FilledBy hls t.cpuidDt cpuidValue l w.cpuid := by
  induction l with
  | nil =>
    refine ⟨_, rfl, ?_, ?_, ?_⟩
    all_goals exact fun w => by simp
  | cons i l ih =>
    obtain ⟨hi, hl⟩ := List.forall_mem_cons.mp hl
    obtain ⟨w, hw, hstatus, hfreq, hcpuid⟩ := ih hl
    obtain ⟨b, hb⟩ : ∃ b, t.hartStatusStr.entry (slotOf hls i) = some b :=
      ⟨_, DtbLabels.entry_of_lt hi⟩
    obtain ⟨b', hb'⟩ : ∃ b, t.hartFreq.entry (slotOf hls i) = some b :=
      ⟨_, DtbLabels.entry_of_lt hi⟩
    obtain ⟨b'', hb''⟩ : ∃ b, t.cpuidDt.entry (slotOf hls i) = some b :=
      ⟨_, DtbLabels.entry_of_lt hi⟩
    let round : DtbWrites := ⟨dtbWrite hls i b (statusValue hls i),
      dtbWrite hls i b' (freqValue clkHart i), dtbWrite hls i b'' (cpuidValue i)⟩
    have hround : initDtbHart hls t clkHart i = some round := by
      rw [initDtbHart, hb, hb', hb'']
      rfl
    refine ⟨round.append w, ?_, hstatus.cons hb, hfreq.cons hb', hcpuid.cons hb''⟩
    rw [initDtbLoop, hround, hw]
    rfl

/-- It stays in the tables only where the slots do. -/
theorem lt_of_initDtbLoop {l : List ℕ} {w : DtbWrites} (hw : initDtbLoop hls t clkHart l = some w) :
    ∀ i ∈ l, slotOf hls i < 16 := by
  induction l generalizing w with
  | nil => simp
  | cons i l ih =>
    obtain ⟨round, hround, hrest⟩ := Option.bind_eq_some_iff.mp hw
    obtain ⟨w', hw', -⟩ := Option.bind_eq_some_iff.mp hrest
    obtain ⟨status, hstatus, -⟩ := Option.bind_eq_some_iff.mp hround
    exact List.forall_mem_cons.mpr ⟨DtbLabels.entry_lt hstatus, ih hw'⟩

/-- **The entries** that the loop looks at are in the tables of sixteen, or it goes past their
end. -/
theorem exists_initDtbHarts_iff :
    (∃ w, initDtbHarts hls t clkHart = some w) ↔ ∀ id ∈ initDtbIds hls, id < 16 := by
  rw [initDtbIds, List.forall_mem_map]
  constructor
  · rintro ⟨w, hw⟩
    exact lt_of_initDtbLoop hw
  · intro h
    obtain ⟨w, hw, -⟩ := initDtbLoop_of_lt h
    exact ⟨w, hw⟩

theorem FilledBy.fills {value : ℕ → Option (List U8)} {writes : List DtbWrite}
    (h : FilledBy hls label value (List.range hls.length) writes) :
    Fills hls label value writes := by
  refine .of_mem_iff fun w => ?_
  rw [h w, List.mem_range]

/-- Each hart has its status, its frequency and its number in the entries of its slot. -/
def InitDtbFills (hls : List Hls) (t : DtbTables) (clkHart : ℕ → Option x.Word) : Prop :=
  ∃ w, initDtbHarts hls t clkHart = some w ∧
    Fills hls t.hartStatusStr (statusValue hls) w.status ∧
    Fills hls t.hartFreq (freqValue clkHart) w.freq ∧ Fills hls t.cpuidDt cpuidValue w.cpuid

theorem initDtbFills_iff :
    InitDtbFills hls t clkHart ↔ ∀ i < hls.length, slotOf hls i < 16 := by
  constructor
  · rintro ⟨w, hw, -⟩ i hi
    exact lt_of_initDtbLoop hw i (List.mem_range.mpr hi)
  · intro h
    have hrange : ∀ i ∈ List.range hls.length, slotOf hls i < 16 := fun i hi =>
      h i (List.mem_range.mp hi)
    obtain ⟨w, hw, hstatus, hfreq, hcpuid⟩ := initDtbLoop_of_lt hrange
    exact ⟨w, hw, hstatus.fills, hfreq.fills, hcpuid.fills⟩

/-- **The device tree.** Both loops fill their tables as they owe if and only if the entry that
the macro tests is there where the entry that it writes is, and all slots have entries. -/
theorem dtb_fill_iff (hls : List Hls) (label : DtbLabels) (val : ℕ → U32) (t : DtbTables)
    (clkHart : ℕ → Option x.Word) :
    Fills hls label (cacheValue hls val) (dtbFillPerHartInfo hls label val) ∧
        InitDtbFills hls t clkHart ↔
      (∀ i < hls.length, activeOf hls i = true → slotOf hls i < hls.length →
        (label.entry i = some true ↔ label.entry (slotOf hls i) = some true)) ∧
        ∀ i < hls.length, slotOf hls i < 16 := by
  rw [fills_dtbFillPerHartInfo_iff, initDtbFills_iff]
  simp only [enabled, and_imp]

/-- Slot 1 is empty, and the hart in slot 2 is given the number 1. -/
def SmpBoard.emptySlot : SmpBoard where
  masterHart := 0
  smpHartNum := 4
  maxStackChunks := 4
  numSlots := 3
  slotActive := (· ≠ 1)

/-- There, with labels for the slots 0 and 1 alone, the macro writes to the label of slot 2. -/
theorem dtb_fill_null : ¬ ∀ (b : SmpBoard) (hls : List Hls) (label : DtbLabels) (val : ℕ → U32),
    b.initSmp = some hls →
      ∀ w ∈ dtbFillPerHartInfo hls label val, label.entry w.id = some true := by
  intro h
  have hnull := h .emptySlot [⟨0, true⟩, ⟨2, true⟩, ⟨1, false⟩] (fun i => decide (i < 2))
    (fun _ => 0#32) (by decide) ⟨1, 2, dtbVal 0#32⟩ (by decide)
  exact absurd hnull (by decide)

end ScBl
