import ScBl.Bitops
import Mathlib.Data.List.Basic

/-!
# The platform interrupt controller (`aplic.c`)

`aplic_init` turns all sources off, gives them a configuration and a target and then delegates
ranges of them, from a table that it checks. What a source is configured as in the end is the last
range of the table that is valid and has it (`aplicInit_configures`).
-/

namespace ScBl

/-! ## Registers -/

def aplicDomaincfg : ℕ := 0x0000
def aplicDomaincfgDm : U32 := 1#32 <<< 2
def aplicSourcecfgBase : ℕ := 0x0004
def aplicSourcecfgD : U32 := 1#32 <<< 10
def aplicSourcecfgChildidxMask : U32 := 0x3ff#32
def aplicMmsicfgaddr : ℕ := 0x1bc0
def aplicMmsicfgaddrh : ℕ := 0x1bc4
def aplicSmsicfgaddr : ℕ := 0x1bc8
def aplicSmsicfgaddrh : ℕ := 0x1bcc
def aplicClrieBase : ℕ := 0x1f00
def aplicTargetBase : ℕ := 0x3004
def aplicMaxSource : ℕ := 1024
def aplicDefaultPriority : U32 := 1#32

/-- A `writel` to the controller: the offset of the register, and the value. -/
abbrev AplicWrite : Type := ℕ × U32

/-- The register that configures a source, from 1 on. -/
def sourcecfg (irq : ℕ) : ℕ := aplicSourcecfgBase + (irq - 1) * 4

/-- The register of its target. -/
def aplicTarget (irq : ℕ) : ℕ := aplicTargetBase + (irq - 1) * 4

/-- The register with its enable bit. -/
def aplicClrie (irq : ℕ) : ℕ := aplicClrieBase + irq / 32 * 4

/-! The registers lie in this order: the configurations, those of the MSIs, the enable bits and
the targets. -/

theorem sourcecfg_lt {irq : ℕ} (h : irq < aplicMaxSource) : sourcecfg irq < aplicMmsicfgaddr := by
  simp only [sourcecfg, aplicSourcecfgBase, aplicMmsicfgaddr, aplicMaxSource] at h ⊢
  omega

theorem lt_aplicClrie (irq : ℕ) : aplicSmsicfgaddrh < aplicClrie irq := by
  simp only [aplicSmsicfgaddrh, aplicClrie, aplicClrieBase]
  omega

theorem aplicClrie_lt {irq : ℕ} (h : irq < aplicMaxSource) (irq' : ℕ) :
    aplicClrie irq < aplicTarget irq' := by
  simp only [aplicClrie, aplicClrieBase, aplicTarget, aplicTargetBase, aplicMaxSource] at h ⊢
  omega

theorem sourcecfg_lt_aplicClrie {irq : ℕ} (h : irq < aplicMaxSource) (irq' : ℕ) :
    sourcecfg irq < aplicClrie irq' :=
  (sourcecfg_lt h).trans ((by decide : aplicMmsicfgaddr < aplicSmsicfgaddrh).trans
    (lt_aplicClrie irq'))

theorem sourcecfg_lt_aplicTarget {irq : ℕ} (h : irq < aplicMaxSource) (irq' : ℕ) :
    sourcecfg irq < aplicTarget irq' :=
  (sourcecfg_lt_aplicClrie h 0).trans (aplicClrie_lt (by decide) irq')

/-! ## The code -/

/-- `struct aplic_msicfg_data` -/
structure AplicMsicfg where
  lhxs : U64
  lhxw : U64
  hhxs : U64
  hhxw : U64
  baseAddr : U64

/-- `struct aplic_delegate_data` -/
structure AplicDelegate where
  firstIrq : U32
  lastIrq : U32
  childIndex : U32
  deriving DecidableEq, Repr

/-- The platform: `struct aplic_data` without the address, and the two MSI configurations. -/
structure AplicPlf where
  numSource : ℕ
  delegate : List AplicDelegate
  msicfgM : AplicMsicfg
  msicfgS : AplicMsicfg

/-- `(1UL << n) - 1` -/
def aplicPpnMask (n : U64) : U64 := shl 1#64 n - 1#64

/-- `aplic_write_msiconfig`, where `held` is what the upper register holds. -/
def aplicWriteMsiconfig (msicfg : AplicMsicfg) (msicfgaddr msicfgaddrh : ℕ) (held : U32) :
    List AplicWrite :=
  -- the configuration is locked
  if held &&& 1#32 <<< 31 ≠ 0#32 then []
  else
    let basePpn := msicfg.baseAddr >>> 12
    let basePpn := basePpn &&& ~~~aplicPpnMask msicfg.lhxs
    let basePpn := basePpn &&& ~~~shl (aplicPpnMask msicfg.lhxw) msicfg.lhxs
    let basePpn := basePpn &&& ~~~shl (aplicPpnMask msicfg.hhxw) (msicfg.hhxs + 12#64)
    let val := basePpn >>> 32 &&& 0xfff#64
    let val := val ||| (msicfg.lhxw &&& 0xf#64) <<< 12
    let val := val ||| (msicfg.hhxw &&& 0x7#64) <<< 16
    let val := val ||| (msicfg.lhxs &&& 0x7#64) <<< 20
    let val := val ||| (msicfg.hhxs &&& 0x1f#64) <<< 24
    [(msicfgaddr, basePpn.setWidth 32), (msicfgaddrh, val.setWidth 32)]

/-- A round of the loop over the table. -/
def aplicDelegate (numSource : ℕ) (deleg : AplicDelegate) : List AplicWrite :=
  if deleg.firstIrq = 0#32 ∨ deleg.lastIrq = 0#32 then []
  else if numSource < deleg.firstIrq.toNat ∨ numSource < deleg.lastIrq.toNat then []
  else if aplicSourcecfgChildidxMask < deleg.childIndex then []
  else
    let (firstIrq, lastIrq) :=
      if deleg.lastIrq < deleg.firstIrq then (deleg.lastIrq, deleg.firstIrq)
      else (deleg.firstIrq, deleg.lastIrq)
    (List.range' firstIrq.toNat (lastIrq.toNat + 1 - firstIrq.toNat)).map fun j =>
      (sourcecfg j, aplicSourcecfgD ||| deleg.childIndex)

/-- All interrupts are disabled. -/
def aplicDisable (numSource : ℕ) : List AplicWrite :=
  (List.range (numSource + 1)).map fun i => (aplicClrie i, -1#32)

/-- Type and priority of all interrupts. -/
def aplicDefaults (numSource : ℕ) : List AplicWrite :=
  (List.range' 1 numSource).flatMap fun i =>
    [(sourcecfg i, 0#32), (aplicTarget i, aplicDefaultPriority)]

/-- `aplic_init`, where `held` is what the registers hold that it reads. -/
def aplicInit (plf : AplicPlf) (held : ℕ → U32) : List AplicWrite :=
  (aplicDomaincfg, aplicDomaincfgDm) :: aplicDisable plf.numSource ++
    aplicDefaults plf.numSource ++ plf.delegate.flatMap (aplicDelegate plf.numSource) ++
    (aplicWriteMsiconfig plf.msicfgM aplicMmsicfgaddr aplicMmsicfgaddrh (held aplicMmsicfgaddrh) ++
      aplicWriteMsiconfig plf.msicfgS aplicSmsicfgaddr aplicSmsicfgaddrh (held aplicSmsicfgaddrh))

/-! ## What the registers hold -/

/-- The registers after some writes. -/
def aplicAfter (regs : ℕ → U32) (l : List AplicWrite) : ℕ → U32 :=
  l.foldl (fun regs w => Function.update regs w.1 w.2) regs

section

variable {regs : ℕ → U32} {l l' : List AplicWrite} {a : ℕ} {v : U32}

theorem aplicAfter_append : aplicAfter regs (l ++ l') a = aplicAfter (aplicAfter regs l) l' a := by
  rw [aplicAfter, List.foldl_append]
  rfl

theorem aplicAfter_of_forall_ne (h : ∀ w ∈ l, w.1 ≠ a) : aplicAfter regs l a = regs a := by
  induction l generalizing regs with
  | nil => rfl
  | cons w l ih =>
    have hrest : aplicAfter (Function.update regs w.1 w.2) l a = regs a := by
      rw [ih fun w' hw' => h w' (List.mem_cons_of_mem w hw'),
        Function.update_of_ne (h w List.mem_cons_self).symm]
    exact hrest

/-- Writes of one value to a register, among others. -/
theorem aplicAfter_of_mem (hmem : ∃ w ∈ l, w.1 = a) (h : ∀ w ∈ l, w.1 = a → w.2 = v) :
    aplicAfter regs l a = v := by
  induction l using List.reverseRecOn with
  | nil =>
    obtain ⟨w, hw, -⟩ := hmem
    cases hw
  | append_singleton l w ih =>
    rw [aplicAfter_append]
    rcases eq_or_ne w.1 a with hwa | hwa
    · rw [← h w (List.mem_append_right _ (List.mem_singleton_self w)) hwa, ← hwa]
      exact Function.update_self ..
    · have hlast : aplicAfter (aplicAfter regs l) [w] a = aplicAfter regs l a :=
        Function.update_of_ne hwa.symm ..
      rw [hlast]
      refine ih ?_ fun w' hw' => h w' (List.mem_append_left _ hw')
      obtain ⟨w', hw', rfl⟩ := hmem
      rcases List.mem_append.mp hw' with hw' | hw'
      · exact ⟨w', hw', rfl⟩
      · exact absurd (congrArg Prod.fst (List.mem_singleton.mp hw').symm) hwa

end

/-! ## Delegation -/

/-- A line of the table is valid and has the source, whichever end of its range comes first. -/
def AplicDelegate.Has (deleg : AplicDelegate) (numSource irq : ℕ) : Prop :=
  deleg.firstIrq ≠ 0#32 ∧ deleg.lastIrq ≠ 0#32 ∧ deleg.firstIrq.toNat ≤ numSource ∧
    deleg.lastIrq.toNat ≤ numSource ∧ deleg.childIndex ≤ aplicSourcecfgChildidxMask ∧
    min deleg.firstIrq.toNat deleg.lastIrq.toNat ≤ irq ∧
    irq ≤ max deleg.firstIrq.toNat deleg.lastIrq.toNat

instance (deleg : AplicDelegate) (numSource irq : ℕ) : Decidable (deleg.Has numSource irq) :=
  inferInstanceAs (Decidable (_ ∧ _))

/-- What a source is configured as by a table: by its last line that has it. -/
def configuredAs (delegate : List AplicDelegate) (numSource irq : ℕ) : Option U32 :=
  (delegate.reverse.find? (·.Has numSource irq)).map (aplicSourcecfgD ||| ·.childIndex)

section

variable {regs : ℕ → U32} {deleg : AplicDelegate} {numSource irq : ℕ} {w : AplicWrite}

/-- Different sources have different registers. -/
theorem sourcecfg_inj {irq' : ℕ} (h : 1 ≤ irq) (h' : 1 ≤ irq') :
    sourcecfg irq = sourcecfg irq' ↔ irq = irq' := by
  rw [sourcecfg, sourcecfg]
  omega

/-- The writes of a line: one for each source of its range that there is, whichever end of the range
is given first, and none if the line is not valid. -/
theorem mem_aplicDelegate : w ∈ aplicDelegate numSource deleg ↔
    ∃ irq, deleg.Has numSource irq ∧ w = (sourcecfg irq, aplicSourcecfgD ||| deleg.childIndex) := by
  have hrange (first last : U32) : w ∈ (List.range' first.toNat
        (last.toNat + 1 - first.toNat)).map
          (fun j => (sourcecfg j, aplicSourcecfgD ||| deleg.childIndex)) ↔
      ∃ irq, (first.toNat ≤ irq ∧ irq ≤ last.toNat) ∧
        w = (sourcecfg irq, aplicSourcecfgD ||| deleg.childIndex) := by
    simp only [List.mem_map, List.mem_range'_1]
    constructor
    · rintro ⟨j, ⟨hfirst, hlast⟩, rfl⟩
      exact ⟨j, ⟨hfirst, by omega⟩, rfl⟩
    · rintro ⟨j, ⟨hfirst, hlast⟩, rfl⟩
      exact ⟨j, ⟨hfirst, by omega⟩, rfl⟩
  rw [aplicDelegate]
  split_ifs with hzero hbound hchild hswap
  · simp only [List.not_mem_nil, false_iff, not_exists, not_and]
    exact fun _ h => absurd hzero (not_or.mpr ⟨h.1, h.2.1⟩)
  · simp only [List.not_mem_nil, false_iff, not_exists, not_and]
    exact fun _ h => absurd hbound
      (not_or.mpr ⟨Nat.not_lt.mpr h.2.2.1, Nat.not_lt.mpr h.2.2.2.1⟩)
  · simp only [List.not_mem_nil, false_iff, not_exists, not_and]
    exact fun _ h => absurd hchild (BitVec.not_lt.mpr h.2.2.2.2.1)
  all_goals
    rw [not_or] at hzero hbound
    simp only [AplicDelegate.Has, hzero.1, hzero.2, Nat.not_lt.mp hbound.1,
      Nat.not_lt.mp hbound.2, BitVec.not_lt.mp hchild, ne_eq, not_false_eq_true, true_and]
    rw [hrange]
  · have hle : deleg.lastIrq.toNat ≤ deleg.firstIrq.toNat := Nat.le_of_lt hswap
    rw [min_eq_right hle, max_eq_left hle]
  · have hle : deleg.firstIrq.toNat ≤ deleg.lastIrq.toNat := Nat.not_lt.mp hswap
    rw [min_eq_left hle, max_eq_right hle]

/-- A line has sources only. -/
theorem AplicDelegate.Has.bounds (h : deleg.Has numSource irq) : 1 ≤ irq ∧ irq ≤ numSource := by
  obtain ⟨hfirst, hlast, hfirstLe, hlastLe, -, hmin, hmax⟩ := h
  have hfirstPos : deleg.firstIrq.toNat ≠ 0 := fun h => hfirst (BitVec.eq_of_toNat_eq h)
  have hlastPos : deleg.lastIrq.toNat ≠ 0 := fun h => hlast (BitVec.eq_of_toNat_eq h)
  omega

/-- A round of the loop over the table. -/
theorem aplicAfter_delegate (hirq : 1 ≤ irq) :
    aplicAfter regs (aplicDelegate numSource deleg) (sourcecfg irq) =
      if deleg.Has numSource irq then aplicSourcecfgD ||| deleg.childIndex
      else regs (sourcecfg irq) := by
  split_ifs with hhas
  · refine aplicAfter_of_mem ⟨_, mem_aplicDelegate.mpr ⟨irq, hhas, rfl⟩, rfl⟩ fun w hw _ => ?_
    obtain ⟨-, -, rfl⟩ := mem_aplicDelegate.mp hw
    rfl
  · refine aplicAfter_of_forall_ne fun w hw heq => hhas ?_
    obtain ⟨irq', hhas', rfl⟩ := mem_aplicDelegate.mp hw
    rwa [← (sourcecfg_inj hhas'.bounds.1 hirq).mp heq]

/-- A later line of the table overrides what an earlier one says about a source. -/
theorem configuredAs_append (delegate : List AplicDelegate) :
    configuredAs (delegate ++ [deleg]) numSource irq =
      if deleg.Has numSource irq then some (aplicSourcecfgD ||| deleg.childIndex)
      else configuredAs delegate numSource irq := by
  rw [configuredAs, List.reverse_append, List.reverse_singleton, List.singleton_append]
  split_ifs with hhas
  · rw [List.find?_cons_of_pos (p := fun d : AplicDelegate => decide (d.Has numSource irq))
      (decide_eq_true hhas)]
    rfl
  · rw [List.find?_cons_of_neg (p := fun d : AplicDelegate => decide (d.Has numSource irq))
      (by simpa using hhas)]
    rfl

/-- **The table** leaves a source as its last line says that has it. -/
theorem aplicAfter_delegates (hirq : 1 ≤ irq) (delegate : List AplicDelegate) :
    aplicAfter regs (delegate.flatMap (aplicDelegate numSource)) (sourcecfg irq) =
      (configuredAs delegate numSource irq).getD (regs (sourcecfg irq)) := by
  induction delegate using List.reverseRecOn with
  | nil => rfl
  | append_singleton delegate deleg ih =>
    rw [List.flatMap_append, aplicAfter_append, List.flatMap_singleton, aplicAfter_delegate hirq,
      ih, configuredAs_append]
    split_ifs <;> rfl

theorem mem_aplicDefaults : w ∈ aplicDefaults numSource ↔ ∃ irq, (1 ≤ irq ∧ irq ≤ numSource) ∧
    (w = (sourcecfg irq, 0#32) ∨ w = (aplicTarget irq, aplicDefaultPriority)) := by
  simp only [aplicDefaults, List.mem_flatMap, List.mem_range'_1, List.mem_cons, List.not_mem_nil,
    or_false]
  constructor
  · rintro ⟨i, ⟨hfirst, hlast⟩, hw⟩
    exact ⟨i, ⟨hfirst, by omega⟩, hw⟩
  · rintro ⟨i, ⟨hfirst, hlast⟩, hw⟩
    exact ⟨i, ⟨hfirst, by omega⟩, hw⟩

theorem mem_aplicDisable : w ∈ aplicDisable numSource ↔
    ∃ irq ≤ numSource, w = (aplicClrie irq, -1#32) := by
  simp only [aplicDisable, List.mem_map, List.mem_range, Nat.lt_succ_iff, eq_comm]

theorem mem_aplicWriteMsiconfig {msicfg : AplicMsicfg} {cfgaddr cfgaddrh : ℕ} {held : U32}
    (hw : w ∈ aplicWriteMsiconfig msicfg cfgaddr cfgaddrh held) :
    w.1 = cfgaddr ∨ w.1 = cfgaddrh := by
  rw [aplicWriteMsiconfig] at hw
  split_ifs at hw
  · cases hw
  · simp only [List.mem_cons, List.not_mem_nil, or_false] at hw
    obtain rfl | rfl := hw
    · exact .inl rfl
    · exact .inr rfl

/-- The writes of both MSI configurations are elsewhere. -/
theorem aplicAfter_msi {plf : AplicPlf} {held : ℕ → U32} {a : ℕ}
    (ha : a < aplicMmsicfgaddr ∨ aplicSmsicfgaddrh < a) :
    aplicAfter regs
      (aplicWriteMsiconfig plf.msicfgM aplicMmsicfgaddr aplicMmsicfgaddrh
          (held aplicMmsicfgaddrh) ++
        aplicWriteMsiconfig plf.msicfgS aplicSmsicfgaddr aplicSmsicfgaddrh
          (held aplicSmsicfgaddrh)) a = regs a := by
  refine aplicAfter_of_forall_ne fun w hw => ?_
  simp only [aplicMmsicfgaddr, aplicSmsicfgaddrh] at ha
  rcases List.mem_append.mp hw with hw | hw
  all_goals
    have haddr := mem_aplicWriteMsiconfig hw
    simp only [aplicMmsicfgaddr, aplicMmsicfgaddrh, aplicSmsicfgaddr, aplicSmsicfgaddrh] at haddr
    omega

/-- The lines of the table write to the configurations of sources only. -/
theorem aplicAfter_delegates_of_ne {a : ℕ} {delegate : List AplicDelegate}
    (ha : ∀ irq, 1 ≤ irq → irq ≤ numSource → sourcecfg irq ≠ a) :
    aplicAfter regs (delegate.flatMap (aplicDelegate numSource)) a = regs a := by
  refine aplicAfter_of_forall_ne fun w hw => ?_
  obtain ⟨deleg, -, hw⟩ := List.mem_flatMap.mp hw
  obtain ⟨irq, hhas, rfl⟩ := mem_aplicDelegate.mp hw
  exact ha irq hhas.bounds.1 hhas.bounds.2

end

/-! ## The whole -/

section

variable {plf : AplicPlf} {held regs : ℕ → U32} {irq : ℕ}

/-- **`sourcecfg`** has the delegation of the last line that has the source, and is 0 where none has
it. -/
theorem aplicInit_sourcecfg (hnum : plf.numSource < aplicMaxSource) (hirq : 1 ≤ irq)
    (hle : irq ≤ plf.numSource) : aplicAfter regs (aplicInit plf held) (sourcecfg irq) =
      (configuredAs plf.delegate plf.numSource irq).getD 0#32 := by
  have hmax : irq < aplicMaxSource := hle.trans_lt hnum
  rw [aplicInit, aplicAfter_append, aplicAfter_msi (.inl (sourcecfg_lt hmax)), aplicAfter_append,
    aplicAfter_delegates hirq, aplicAfter_append]
  refine congrArg _ (aplicAfter_of_mem ⟨(sourcecfg irq, 0#32),
    mem_aplicDefaults.mpr ⟨irq, ⟨hirq, hle⟩, .inl rfl⟩, rfl⟩ fun w hw heq => ?_)
  obtain ⟨irq', -, rfl | rfl⟩ := mem_aplicDefaults.mp hw
  · rfl
  · exact absurd heq (sourcecfg_lt_aplicTarget hmax irq').ne'

/-- **`target`** has the default priority for every source, delegated or not. -/
theorem aplicInit_target (hnum : plf.numSource < aplicMaxSource) (hirq : 1 ≤ irq)
    (hle : irq ≤ plf.numSource) :
    aplicAfter regs (aplicInit plf held) (aplicTarget irq) = aplicDefaultPriority := by
  have hother (irq' : ℕ) (hle' : irq' ≤ plf.numSource) : sourcecfg irq' ≠ aplicTarget irq :=
    (sourcecfg_lt_aplicTarget (hle'.trans_lt hnum) irq).ne
  have haddr : aplicSmsicfgaddrh < aplicTarget irq :=
    (lt_aplicClrie 0).trans (aplicClrie_lt (by decide) irq)
  rw [aplicInit, aplicAfter_append, aplicAfter_msi (.inr haddr), aplicAfter_append,
    aplicAfter_delegates_of_ne fun irq' _ => hother irq', aplicAfter_append]
  refine aplicAfter_of_mem ⟨_, mem_aplicDefaults.mpr ⟨irq, ⟨hirq, hle⟩, .inr rfl⟩, rfl⟩
    fun w hw heq => ?_
  obtain ⟨irq', ⟨-, hle'⟩, rfl | rfl⟩ := mem_aplicDefaults.mp hw
  · exact absurd heq (hother irq' hle')
  · rfl

theorem aplicInit_clrie (hnum : plf.numSource < aplicMaxSource) (hle : irq ≤ plf.numSource) :
    aplicAfter regs (aplicInit plf held) (aplicClrie irq) = -1#32 := by
  have hother (irq' : ℕ) (hle' : irq' ≤ plf.numSource) : sourcecfg irq' ≠ aplicClrie irq :=
    (sourcecfg_lt_aplicClrie (hle'.trans_lt hnum) irq).ne
  rw [aplicInit, aplicAfter_append, aplicAfter_msi (.inr (lt_aplicClrie irq)), aplicAfter_append,
    aplicAfter_delegates_of_ne fun irq' _ => hother irq', aplicAfter_append,
    aplicAfter_of_forall_ne]
  · refine aplicAfter_of_mem ⟨_, List.mem_cons_of_mem _ (mem_aplicDisable.mpr ⟨irq, hle, rfl⟩),
      rfl⟩ fun w hw heq => ?_
    rcases List.mem_cons.mp hw with rfl | hw
    · exact absurd heq (Nat.zero_lt_of_lt (lt_aplicClrie irq)).ne
    · obtain ⟨-, -, rfl⟩ := mem_aplicDisable.mp hw
      rfl
  · intro w hw
    obtain ⟨irq', ⟨-, hle'⟩, rfl | rfl⟩ := mem_aplicDefaults.mp hw
    · exact hother irq' hle'
    · exact (aplicClrie_lt (hle.trans_lt hnum) irq').ne'

/-- Registers that are no one's keep what they hold: those of sources past the last one, and
whatever lies between the arrays. -/
theorem aplicInit_of_ne {a : ℕ} (hdomain : a ≠ aplicDomaincfg)
    (hmsi : a < aplicMmsicfgaddr ∨ aplicSmsicfgaddrh < a)
    (ha : ∀ irq ≤ plf.numSource, aplicClrie irq ≠ a ∧
      (1 ≤ irq → sourcecfg irq ≠ a ∧ aplicTarget irq ≠ a)) :
    aplicAfter regs (aplicInit plf held) a = regs a := by
  rw [aplicInit, aplicAfter_append, aplicAfter_msi hmsi, aplicAfter_append,
    aplicAfter_delegates_of_ne fun irq hirq hle => ((ha irq hle).2 hirq).1]
  refine aplicAfter_of_forall_ne fun w hw => ?_
  rcases List.mem_append.mp hw with hw | hw
  · rcases List.mem_cons.mp hw with rfl | hw
    · exact hdomain.symm
    · obtain ⟨irq, hle, rfl⟩ := mem_aplicDisable.mp hw
      exact (ha irq hle).1
  · obtain ⟨irq, ⟨hirq, hle⟩, rfl | rfl⟩ := mem_aplicDefaults.mp hw
    · exact ((ha irq hle).2 hirq).1
    · exact ((ha irq hle).2 hirq).2

end

/-- **After `aplic_init`** each source is off, has a target, and is configured by the last line of
the table that is valid and has it, or not in use; those past the last are as they were. -/
theorem aplicInit_configures (plf : AplicPlf) (hnum : plf.numSource < aplicMaxSource)
    (held regs : ℕ → U32) (irq : ℕ) (hirq : 1 ≤ irq) (hmax : irq < aplicMaxSource) :
    if irq ≤ plf.numSource then
      aplicAfter regs (aplicInit plf held) (sourcecfg irq) =
          (configuredAs plf.delegate plf.numSource irq).getD 0#32 ∧
        aplicAfter regs (aplicInit plf held) (aplicTarget irq) = aplicDefaultPriority ∧
        aplicAfter regs (aplicInit plf held) (aplicClrie irq) = -1#32
    else
      aplicAfter regs (aplicInit plf held) (sourcecfg irq) = regs (sourcecfg irq) ∧
        aplicAfter regs (aplicInit plf held) (aplicTarget irq) = regs (aplicTarget irq) := by
  split_ifs with hle
  · exact ⟨aplicInit_sourcecfg hnum hirq hle, aplicInit_target hnum hirq hle,
      aplicInit_clrie hnum hle⟩
  · have hpast {irq' : ℕ} (hle' : irq' ≤ plf.numSource) : irq' ≠ irq :=
      (hle'.trans_lt (not_le.mp hle)).ne
    constructor
    · apply aplicInit_of_ne
      · simp [sourcecfg, aplicSourcecfgBase, aplicDomaincfg]
      · exact .inl (sourcecfg_lt hmax)
      · intro irq' hle'
        refine ⟨(sourcecfg_lt_aplicClrie hmax irq').ne', fun hirq' => ⟨?_, ?_⟩⟩
        · exact (sourcecfg_inj hirq' hirq).not.mpr (hpast hle')
        · exact (sourcecfg_lt_aplicTarget hmax irq').ne'
    · have hclrie : aplicClrie 0 < aplicTarget irq := aplicClrie_lt (by decide) irq
      apply aplicInit_of_ne
      · exact (Nat.zero_lt_of_lt hclrie).ne'
      · exact .inr ((lt_aplicClrie 0).trans hclrie)
      · intro irq' hle'
        have hmax' : irq' < aplicMaxSource := hle'.trans_lt hnum
        refine ⟨(aplicClrie_lt hmax' irq).ne, fun hirq' => ⟨?_, ?_⟩⟩
        · exact (sourcecfg_lt_aplicTarget hmax' irq).ne
        · intro heq
          simp only [aplicTarget] at heq
          exact hpast hle' (by omega)

/-- Ninety-six sources, all of which go to child 0 but for those from 20 to 40. -/
def AplicPlf.sample : AplicPlf where
  numSource := 96
  delegate := [⟨1#32, 96#32, 0#32⟩, ⟨40#32, 20#32, 1#32⟩]
  msicfgM := ⟨0#64, 3#64, 24#64, 0#64, 0x40000000#64⟩
  msicfgS := ⟨0#64, 3#64, 24#64, 0#64, 0x40001000#64⟩

theorem aplicInit_configures_sample :
    aplicAfter (fun _ => 0#32) (aplicInit .sample fun _ => 0#32) (sourcecfg 30) = 0x401#32 ∧
      aplicAfter (fun _ => 0#32) (aplicInit .sample fun _ => 0#32) (sourcecfg 50) = 0x400#32 := by
  have h30 := aplicInit_configures .sample (by decide) (fun _ => 0#32) (fun _ => 0#32) 30
    (by decide) (by decide)
  have h50 := aplicInit_configures .sample (by decide) (fun _ => 0#32) (fun _ => 0#32) 50
    (by decide) (by decide)
  rw [if_pos (by decide)] at h30 h50
  refine ⟨h30.1.trans ?_, h50.1.trans ?_⟩
  · decide
  · decide

end ScBl
