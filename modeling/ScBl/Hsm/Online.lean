import ScBl.Lib.Runs
import ScBl.Lib.Words
import ScBl.Xlen

/-!
# The harts that are online (`minit.c`, `enter_entry_point`; `mtrap.c`, `HART_STOP`)

`harts_online` is shared by all harts, and each of them sets or clears its own bit by
loading the word and storing another one, without a lock. An update that comes between
the two accesses of another one is lost, unless it has been undone meanwhile
(`hartsOnline_iff`). The logical harts are those below 31: an `int` has no more bits to
shift into, and `sllw` takes the number of a hart modulo 32.
-/

namespace ScBl

open Runs Words

variable {x : Xlen}

/-! ## The code -/

/-- `1 << logical_hart()` -/
def onlineBit (x : Xlen) (h : ℕ) : x.Word := (1#32 <<< (h % 32)).signExtend (8 * x.hart8)

/-- How far a hart is with its bit. -/
inductive OnlinePc (x : Xlen)
  | offline
  /-- `harts_online |= (1 << logical_hart())`, with the word loaded -/
  | entering (loaded : x.Word)
  | online
  /-- `harts_online &= ~ (1 << logical_hart())`, with the word loaded -/
  | stopping (loaded : x.Word)

/-- The hart has set its bit, and not cleared it. -/
def OnlinePc.isOnline : OnlinePc x → Bool
  | .offline => false
  | .entering _ => false
  | .online => true
  | .stopping _ => true

/-- What a hart has loaded, and not stored yet. -/
def OnlinePc.loaded : OnlinePc x → Option x.Word
  | .entering w => some w
  | .stopping w => some w
  | _ => none

structure OnlineHarts (x : Xlen) where
  /-- `harts_online` -/
  hartsOnline : x.Word
  pc : ℕ → OnlinePc x

namespace OnlineHarts

/-- No hart is online. -/
def start : OnlineHarts x := ⟨0#_, fun _ => .offline⟩

/-- The next access of hart `h`. -/
def access (s : OnlineHarts x) (h : ℕ) : OnlineHarts x :=
  match s.pc h with
  | .offline => { s with pc := Function.update s.pc h (.entering s.hartsOnline) }
  | .entering w => ⟨w ||| onlineBit x h, Function.update s.pc h .online⟩
  | .online => { s with pc := Function.update s.pc h (.stopping s.hartsOnline) }
  | .stopping w => ⟨w &&& ~~~onlineBit x h, Function.update s.pc h .offline⟩

/-- The condition of `while (!(harts_online & (1 << regs[10])))`, in `HART_START`. -/
def waits (s : OnlineHarts x) (t : ℕ) : Prop := s.hartsOnline &&& onlineBit x t = 0#_

/-! ## The law -/

/-- The word has the bits of the harts that are online, and of no others. -/
def Accurate (s : OnlineHarts x) : Prop :=
  ∀ h < 31, s.hartsOnline.getLsbD h = (s.pc h).isOnline

/-- What the hart has loaded is still so, its own bit apart. -/
def Fresh (s : OnlineHarts x) (h : ℕ) : Prop :=
  ∀ w ∈ (s.pc h).loaded, ∀ j < 31, j ≠ h → w.getLsbD j = s.hartsOnline.getLsbD j

instance (s : OnlineHarts x) (h : ℕ) : Decidable (s.Fresh h) :=
  match hw : (s.pc h).loaded with
  | none => .isTrue fun w hmem => by rw [hw] at hmem; cases hmem
  | some v => decidable_of_iff (∀ j < 31, j ≠ h → v.getLsbD j = s.hartsOnline.getLsbD j)
      ⟨fun hv w hmem => by rw [hw] at hmem; cases hmem; exact hv, fun hfresh => hfresh v hw⟩

variable {s : OnlineHarts x} {h j t : ℕ} {w : x.Word}

/-- Each hart below 31 has a bit of its own, and none of them is the sign: the same bit on RV32 and
on RV64. -/
theorem onlineBit_eq (hh : h < 31) : onlineBit x h = 1#_ <<< h := by
  have hle := x.le_bits
  have hmsb : (1#32 <<< h).msb = false := by
    rw [BitVec.msb_eq_getLsbD_last, getLsbD_one_shiftLeft (by omega)]
    exact decide_eq_false (by omega)
  refine BitVec.eq_of_getLsbD_eq fun j hj => ?_
  rw [onlineBit, Nat.mod_eq_of_lt (by omega), BitVec.signExtend_eq_setWidth_of_msb_false hmsb,
    BitVec.getLsbD_setWidth, getLsbD_one_shiftLeft (by omega), getLsbD_one_shiftLeft (by omega)]
  simp [hj]

theorem getLsbD_onlineBit (hh : h < 31) : (onlineBit x h).getLsbD j = decide (j = h) := by
  have hle := x.le_bits
  rw [onlineBit_eq hh, getLsbD_one_shiftLeft (by omega)]

theorem getLsbD_enter (hh : h < 31) :
    (w ||| onlineBit x h).getLsbD j = (w.getLsbD j || decide (j = h)) := by
  rw [BitVec.getLsbD_or, getLsbD_onlineBit hh]

theorem getLsbD_stop (hh : h < 31) (hj : j < 31) :
    (w &&& ~~~onlineBit x h).getLsbD j = (w.getLsbD j && decide (j ≠ h)) := by
  have hle := x.le_bits
  have hlt : j < 8 * x.hart8 := by omega
  rw [BitVec.getLsbD_and, BitVec.getLsbD_not, getLsbD_onlineBit hh]
  simp [hlt]

theorem Fresh.of_not_loaded (hload : (s.pc h).loaded = none) : s.Fresh h := by
  intro w hw
  rw [hload] at hw
  cases hw

theorem fresh_iff (hload : (s.pc h).loaded = some w) :
    s.Fresh h ↔ ∀ j < 31, j ≠ h → w.getLsbD j = s.hartsOnline.getLsbD j := by
  refine ⟨fun hfresh => hfresh w hload, fun hw v hv => ?_⟩
  rw [hload] at hv
  cases hv
  exact hw

/-- A load changes no bit. -/
theorem accurate_load (hs : s.Accurate) {pc : OnlinePc x} (hpc : pc.isOnline = (s.pc h).isOnline) :
    Accurate { s with pc := Function.update s.pc h pc } := by
  intro j hj
  rcases eq_or_ne j h with rfl | hne
  · simp only [Function.update_self]
    rw [hpc, hs j hj]
  · simp only [Function.update_of_ne hne]
    exact hs j hj

/-- A store leaves the bits of other harts as they were loaded, and so is right exactly if none of
them has changed since the load. -/
theorem accurate_store_iff (hs : s.Accurate) {v : x.Word} {pc : OnlinePc x}
    (hown : v.getLsbD h = pc.isOnline)
    (hothers : ∀ j < 31, j ≠ h → v.getLsbD j = w.getLsbD j) (hload : (s.pc h).loaded = some w) :
    Accurate ⟨v, Function.update s.pc h pc⟩ ↔ s.Fresh h := by
  rw [fresh_iff hload]
  refine ⟨fun hacc j hj hne => ?_, fun hfresh j hj => ?_⟩
  · have hbit : v.getLsbD j = (Function.update s.pc h pc j).isOnline := hacc j hj
    rw [Function.update_of_ne hne, ← hs j hj] at hbit
    rw [← hothers j hj hne, hbit]
  · rcases eq_or_ne j h with rfl | hne
    · simp only [Function.update_self]
      exact hown
    · simp only [Function.update_of_ne hne]
      rw [hothers j hj hne, hfresh j hj hne, hs j hj]

/-- **An access keeps the word accurate** if and only if it stores nothing stale: the word that is
stored was loaded before, and other harts may have stored theirs since. -/
theorem accurate_access_iff (hh : h < 31) (hs : s.Accurate) :
    (s.access h).Accurate ↔ s.Fresh h := by
  rw [access]
  cases hpc : s.pc h with
  | offline =>
    have hload : (s.pc h).loaded = none := by rw [hpc]; rfl
    exact iff_of_true (accurate_load hs (by rw [hpc]; rfl)) (.of_not_loaded hload)
  | online =>
    have hload : (s.pc h).loaded = none := by rw [hpc]; rfl
    exact iff_of_true (accurate_load hs (by rw [hpc]; rfl)) (.of_not_loaded hload)
  | entering w =>
    refine accurate_store_iff hs ?_ (fun j hj hne => ?_) (by rw [hpc]; rfl)
    · rw [getLsbD_enter hh]
      simp [OnlinePc.isOnline]
    · simp [getLsbD_enter hh, hne]
  | stopping w =>
    refine accurate_store_iff hs ?_ (fun j hj hne => ?_) (by rw [hpc]; rfl)
    · rw [getLsbD_stop hh hh]
      simp [OnlinePc.isOnline]
    · simp [getLsbD_stop hh hj, hne]

/-! ## A lost bit -/

/-- The bit of hart `t` is not in the word, nor in any that a hart is about to store. -/
structure Lost (t : ℕ) (s : OnlineHarts x) : Prop where
  word : s.hartsOnline.getLsbD t = false
  loaded : ∀ h, ∀ w ∈ (s.pc h).loaded, w.getLsbD t = false

theorem waits_iff (ht : t < 31) : s.waits t ↔ s.hartsOnline.getLsbD t = false := by
  have hle := x.le_bits
  rw [waits, onlineBit_eq ht, and_oneBit_eq_zero (by omega)]

/-- A load takes the bit along: the word that is held without the bit is one more reason for it to
stay lost. -/
theorem Lost.load (hs : s.Lost t) {pc : OnlinePc x}
    (hpc : pc.loaded = some s.hartsOnline) : Lost t { s with pc := Function.update s.pc h pc } where
  word := hs.word
  loaded k w hw := by
    simp only at hw
    rcases eq_or_ne k h with rfl | hne
    · rw [Function.update_self, hpc] at hw
      cases hw
      exact hs.word
    · rw [Function.update_of_ne hne] at hw
      exact hs.loaded k w hw

theorem Lost.store (hs : s.Lost t) {v : x.Word} {pc : OnlinePc x} (hv : v.getLsbD t = false)
    (hpc : pc.loaded = none) : Lost t ⟨v, Function.update s.pc h pc⟩ where
  word := hv
  loaded k w hw := by
    simp only at hw
    rcases eq_or_ne k h with rfl | hne
    · rw [Function.update_self, hpc] at hw
      cases hw
    · rw [Function.update_of_ne hne] at hw
      exact hs.loaded k w hw

theorem lost_access (hs : s.Lost t) (ht : t < 31) (hh : h < 31) (hne : t ≠ h) :
    Lost t (s.access h) := by
  rw [access]
  cases hpc : s.pc h with
  | offline => exact hs.load rfl
  | online => exact hs.load rfl
  | entering w =>
    refine hs.store ?_ rfl
    rw [getLsbD_enter hh, hs.loaded h w (by rw [hpc]; rfl)]
    simp [hne]
  | stopping w =>
    refine hs.store ?_ rfl
    rw [getLsbD_stop hh ht, hs.loaded h w (by rw [hpc]; rfl)]
    simp

/-- It stays lost until the hart updates it again, since no other hart holds a word that has it. By
induction on the run. -/
theorem Lost.throughout (hs : s.Lost t) (ht : t < 31) {run : List ℕ} (hrun : t ∉ run)
    (hlt : ∀ h ∈ run, h < 31) : Throughout access (waits · t) s run := by
  intro before after heq
  induction before generalizing s run with
  | nil => exact (waits_iff ht).mpr hs.word
  | cons h before ih =>
    rw [heq, List.cons_append, List.mem_cons, not_or] at hrun
    rw [heq, List.cons_append, List.forall_mem_cons] at hlt
    exact ih (lost_access hs ht hlt.1 hrun.1) hrun.2 hlt.2 rfl

theorem start_accurate : Accurate (start (x := x)) := by
  intro h _
  simp [start, OnlinePc.isOnline]

end OnlineHarts

open OnlineHarts

/-- **`harts_online` is accurate in every state of a run** if and only if no hart stores a word
in which the bit of another one is not what it is by then. A bit that has been lost, and is in no
word that a hart has loaded either, stays lost, and who waits for its hart goes on waiting, until
the hart updates it again. -/
theorem hartsOnline_iff (x : Xlen) (run : List ℕ) (hrun : ∀ h ∈ run, h < 31) :
    (Throughout OnlineHarts.access Accurate (start (x := x)) run ↔
      EachStep OnlineHarts.access Fresh (start (x := x)) run) ∧
    ∀ t < 31, Lost t (Runs.run OnlineHarts.access (start (x := x)) run) →
      ∀ rest, t ∉ rest → (∀ h ∈ rest, h < 31) → Throughout OnlineHarts.access (waits · t)
        (Runs.run OnlineHarts.access (start (x := x)) run) rest := by
  refine ⟨?_, fun t ht hlost rest hrest hlt => hlost.throughout ht hrest hlt⟩
  rw [throughout_iff_of_mem (C := Fresh) (fun _ => True) (fun _ _ _ _ => trivial)
    (fun _ _ hh _ hs => accurate_access_iff hh hs) hrun trivial, and_iff_right start_accurate]

/-- Two harts that come online at the same time: hart 1 stays out, whatever hart 2 does. -/
theorem hartsOnline_iff_both :
    ¬ Throughout OnlineHarts.access Accurate (start (x := .rv64)) [1, 2, 1, 2] ∧
      ∀ rest, 1 ∉ rest → (∀ h ∈ rest, h < 31) → Throughout OnlineHarts.access (waits · 1)
        (Runs.run OnlineHarts.access (start (x := .rv64)) [1, 2, 1, 2]) rest := by
  obtain ⟨hiff, hlost⟩ := hartsOnline_iff .rv64 [1, 2, 1, 2] (by decide)
  refine ⟨fun hacc => ?_, hlost 1 (by decide) ⟨by decide, fun h w hw => ?_⟩⟩
  · exact absurd (hiff.mp hacc) (by decide)
  · rcases eq_or_ne h 2 with rfl | h2
    · cases hw
    · rcases eq_or_ne h 1 with rfl | h1
      · cases hw
      · simp [Runs.run, OnlineHarts.access, start, Function.update_of_ne, h1, h2,
          OnlinePc.loaded] at hw

end ScBl
