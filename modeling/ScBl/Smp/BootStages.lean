import ScBl.Smp.Boot
import ScBl.Smp.Numbering

/-!
# The stages of the start-up

Every slot is at a stage of its own, which says what its mailbox holds and where its hart is;
a step of the hart leads to the next stage or leaves it where it is (`secondaryStep_stage`).
Different harts of the table have different slots and different storage.
-/

namespace ScBl

open Rv

/-! ## Stages -/

/-- The stages of a slot, in their order. -/
inductive SlotStage
  /-- Nothing has been posted to it. -/
  | fresh
  /-- The `RESET` waits for a hart. -/
  | reset
  /-- The hart has been woken up by the `RESET`. -/
  | awake
  | idle
  | setupPosted
  | settingUp
  | pending
  | startPosted
  | starting
  | gate
  | entered
  deriving DecidableEq, Repr

namespace BootPlf

variable (plf : BootPlf)

def resetWord : U64 := plf.receive (packScipiMsg scrIpiCmdReset 0xdeadbeaf#64)

def setupWord (hartn : ℕ) : U64 := plf.receive (plf.lay.setupMsg (BitVec.ofNat 32 hartn))

def startWord : U64 := plf.receive (packScipiMsg scrIpiCmdStart 0#64)

/-- The mailbox keeps the command and the data of a packed word. -/
def Delivers : Prop :=
  ∀ cmd < 2 ^ 5, ∀ data, Delivered (packScipiMsg cmd data) (plf.receive (packScipiMsg cmd data))

end BootPlf

namespace SlotStage

/-- The mailbox, where the slot is that of logical hart `hartn`. -/
def mailbox (plf : BootPlf) (hartn : ℕ) : SlotStage → Option U64
  | fresh => none
  | reset => some plf.resetWord
  | awake => some plf.resetWord
  | idle => none
  | setupPosted => some (plf.setupWord hartn)
  | settingUp => none
  | pending => none
  | startPosted => some plf.startWord
  | starting => none
  | gate => none
  | entered => none

/-- The hart. -/
def pc (plf : BootPlf) (hartn : ℕ) : SlotStage → SecondaryPc
  | fresh => .halted
  | reset => .halted
  | awake => .waitSetup
  | idle => .waitSetup
  | setupPosted => .waitSetup
  | settingUp => .setup (plf.hlsOf hartn)
  | pending => .waitStart (plf.hlsOf hartn)
  | startPosted => .waitStart (plf.hlsOf hartn)
  | starting => .start (plf.hlsOf hartn)
  | gate => .gate (plf.hlsOf hartn)
  | entered => .entered (plf.hlsOf hartn)

/-- `hls->state`, once there is a table. -/
def state : SlotStage → ℕ
  | fresh => sbiHsmStateStop
  | reset => sbiHsmStateStop
  | awake => sbiHsmStateStop
  | idle => sbiHsmStateStop
  | setupPosted => sbiHsmStateStop
  | settingUp => sbiHsmStateStop
  | pending => sbiHsmStateStartPending
  | startPosted => sbiHsmStateStartPending
  | starting => sbiHsmStateStartPending
  | gate => sbiHsmStateStart
  | entered => sbiHsmStateStart

/-- Where a step of the hart leads. -/
def next (rootPageTable : Bool) : SlotStage → SlotStage
  | fresh => fresh
  | reset => awake
  | awake => idle
  | idle => idle
  | setupPosted => settingUp
  | settingUp => pending
  | pending => pending
  | startPosted => starting
  | starting => gate
  | gate => if rootPageTable then entered else gate
  | entered => entered

/-- The hart has not been set up. -/
def Quiet (st : SlotStage) : Prop := st ∈ [fresh, reset, awake, idle]

end SlotStage

/-- Slot `slotn`, of logical hart `hartn` if it has one, is at this stage. -/
structure AtStage (plf : BootPlf) (s : Boot) (hartn slotn : ℕ) (st : SlotStage) : Prop where
  mailbox : s.mailbox slotn = st.mailbox plf hartn
  pc : s.secondary slotn = st.pc plf hartn

section Words

variable {plf : BootPlf}

theorem ipiWaitCmd_of_delivered {cmd cmd' : ℕ} {data word : U64} (hcmd : cmd < 2 ^ 10)
    (hcmd' : cmd' < 2 ^ 10) (hword : Delivered (packScipiMsg cmd data) word) :
    ipiWaitCmd cmd' word = decide (cmd = cmd') := by
  rw [ipiWaitCmd, hword.cmd, HartLayout.packScipiMsg_cmd hcmd, Bool.eq_iff_iff, beq_iff_eq,
    decide_eq_true_iff]
  constructor
  · intro heq
    have hnat := congrArg BitVec.toNat heq
    rwa [BitVec.toNat_ofNat, BitVec.toNat_ofNat, Nat.mod_eq_of_lt (by omega),
      Nat.mod_eq_of_lt (by omega)] at hnat
  · rintro rfl
    rfl

variable (hreceive : plf.Delivers)

include hreceive

theorem ipiWaitCmd_resetWord : ipiWaitCmd scrIpiCmdSetup plf.resetWord = false :=
  ipiWaitCmd_of_delivered (by decide) (by decide) (hreceive _ (by decide) _)

theorem ipiWaitCmd_startWord : ipiWaitCmd scrIpiCmdStart plf.startWord = true :=
  ipiWaitCmd_of_delivered (by decide) (by decide) (hreceive _ (by decide) _)

/-- The hart that is set up finds its own `hls_t`. -/
theorem secondaryHls_setupWord (hartn : ℕ) :
    ipiWaitCmd scrIpiCmdSetup (plf.setupWord hartn) = true ∧
      plf.secondaryHls (plf.setupWord hartn) = plf.hlsOf hartn := by
  have hword : Delivered (plf.lay.setupMsg (BitVec.ofNat 32 hartn)) (plf.setupWord hartn) :=
    hreceive scrIpiCmdSetup (by decide) _
  have ha1 : (RegFile.set ⟨fun _ => 0#64⟩ .a1 (plf.setupWord hartn)).get .a1 =
      plf.setupWord hartn := RegFile.get_set_self (by decide)
  obtain ⟨hcmd, htp, -⟩ := HartLayout.secondarySetup_tp hword ha1
  refine ⟨hcmd, ?_⟩
  rw [BootPlf.secondaryHls, htp]
  rfl

end Words

section Secondary

variable {plf : BootPlf} {s : Boot} {hartn slotn : ℕ} {st : SlotStage}

/-- **A step of a secondary hart**: its slot goes to the next stage, with the word taken from its
mailbox where it waits for one, and no other slot is touched. -/
theorem secondaryStep_stage (hreceive : plf.Delivers) (h : AtStage plf s hartn slotn st) :
    plf.secondaryStep s slotn = { s with
      mailbox := Function.update s.mailbox slotn ((st.next s.rootPageTable).mailbox plf hartn)
      secondary := Function.update s.secondary slotn ((st.next s.rootPageTable).pc plf hartn)
      state := if (st.next s.rootPageTable).state = st.state then s.state else
        Function.update s.state (plf.hlsOf hartn) (st.next s.rootPageTable).state } := by
  obtain ⟨hmailbox, hpc⟩ := h
  have hsame : Function.update s.mailbox slotn (st.mailbox plf hartn) = s.mailbox := by
    rw [← hmailbox, Function.update_eq_self]
  have hstay : Function.update s.secondary slotn (st.pc plf hartn) = s.secondary := by
    rw [← hpc, Function.update_eq_self]
  cases st with
  | fresh =>
    simp only [BootPlf.secondaryStep, hpc, SlotStage.pc, hmailbox, SlotStage.mailbox,
      SlotStage.next] at hsame hstay ⊢
    simp [hsame, hstay]
  | reset =>
    simp only [BootPlf.secondaryStep, hpc, SlotStage.pc, hmailbox, SlotStage.mailbox,
      SlotStage.next] at hsame hstay ⊢
    simp [hsame, Boot.gotoSecondary, SlotStage.state]
  | awake =>
    simp only [BootPlf.secondaryStep, hpc, SlotStage.pc, hmailbox, SlotStage.mailbox,
      SlotStage.next] at hsame hstay ⊢
    simp [hstay, ipiWaitCmd_resetWord hreceive, Boot.take, SlotStage.state]
  | idle =>
    simp only [BootPlf.secondaryStep, hpc, SlotStage.pc, hmailbox, SlotStage.mailbox,
      SlotStage.next] at hsame hstay ⊢
    simp [hsame, hstay]
  | setupPosted =>
    obtain ⟨hcmd, hhls⟩ := secondaryHls_setupWord hreceive hartn
    simp only [BootPlf.secondaryStep, hpc, SlotStage.pc, hmailbox, SlotStage.mailbox,
      SlotStage.next] at hsame hstay ⊢
    simp [hcmd, hhls, Boot.take, Boot.gotoSecondary, SlotStage.state]
  | settingUp =>
    simp only [BootPlf.secondaryStep, hpc, SlotStage.pc, SlotStage.mailbox,
      SlotStage.next] at hsame hstay ⊢
    simp [hsame, Boot.setState, Boot.gotoSecondary, SlotStage.state, sbiHsmStateStartPending,
      sbiHsmStateStop]
  | pending =>
    simp only [BootPlf.secondaryStep, hpc, SlotStage.pc, hmailbox, SlotStage.mailbox,
      SlotStage.next] at hsame hstay ⊢
    simp [hsame, hstay]
  | startPosted =>
    simp only [BootPlf.secondaryStep, hpc, SlotStage.pc, hmailbox, SlotStage.mailbox,
      SlotStage.next] at hsame hstay ⊢
    simp [ipiWaitCmd_startWord hreceive, Boot.take, Boot.gotoSecondary, SlotStage.state]
  | starting =>
    simp only [BootPlf.secondaryStep, hpc, SlotStage.pc, SlotStage.mailbox,
      SlotStage.next] at hsame hstay ⊢
    simp [hsame, Boot.setState, Boot.gotoSecondary, SlotStage.state, sbiHsmStateStartPending,
      sbiHsmStateStart]
  | gate =>
    simp only [BootPlf.secondaryStep, hpc, SlotStage.pc, SlotStage.mailbox] at hsame hstay ⊢
    cases hopen : s.rootPageTable with
    | false =>
      have hnext : SlotStage.gate.next false = .gate := rfl
      rw [hnext, if_neg Bool.false_ne_true, if_pos rfl, ← hopen]
      simp only [hsame, hstay]
    | true =>
      have hnext : SlotStage.gate.next true = .entered := rfl
      have hstate : SlotStage.entered.state = SlotStage.gate.state := rfl
      rw [hnext, if_pos rfl, if_pos hstate, ← hopen]
      simp only [hsame, Boot.gotoSecondary]
  | entered =>
    simp only [BootPlf.secondaryStep, hpc, SlotStage.pc, SlotStage.mailbox,
      SlotStage.next] at hsame hstay ⊢
    simp [hsame, hstay]

theorem SlotStage.Quiet.next (hquiet : st.Quiet) (opened : Bool) :
    (st.next opened).Quiet ∧ (st.next opened).state = st.state := by
  simp only [SlotStage.Quiet, List.mem_cons, List.not_mem_nil, or_false] at hquiet
  obtain rfl | rfl | rfl | rfl := hquiet
  all_goals exact ⟨by simp [SlotStage.Quiet, SlotStage.next], rfl⟩

end Secondary

/-! ## The table of the harts -/

section Table

variable {b : SmpBoard} {harts : List Hls} {j k t : ℕ}

/-- The harts that are numbered first have the active slots, in ascending order, and the empty ones
come after them. -/
theorem getElem_activeSlots_of_getElem? (hb : b.initSmp = some harts) (hk : 1 ≤ k)
    (ht : harts[k]? = some ⟨t, true⟩) : b.activeSlots[k - 1]? = some t := by
  obtain ⟨rfl, -, -⟩ := initSmp_eq hb
  obtain ⟨i, rfl⟩ : ∃ i, k = i + 1 := ⟨k - 1, by omega⟩
  rw [SmpBoard.hlsTable_eq, List.cons_append, List.getElem?_cons_succ] at ht
  rw [Nat.add_sub_cancel]
  rcases Nat.lt_or_ge i b.activeSlots.length with hlt | hge
  · rw [List.getElem?_append_left (by rwa [List.length_map]), List.getElem?_map] at ht
    obtain ⟨slotn, hslot, heq⟩ := Option.map_eq_some_iff.mp ht
    cases heq
    exact hslot
  · rw [List.getElem?_append_right (by rwa [List.length_map]), List.getElem?_map] at ht
    obtain ⟨slotn, -, heq⟩ := Option.map_eq_some_iff.mp ht
    cases heq

theorem slotActive_of_getElem? (hb : b.initSmp = some harts) (hk : 1 ≤ k)
    (ht : harts[k]? = some ⟨t, true⟩) : b.slotActive t = true ∧ t ≠ b.masterHart := by
  have hmem := List.mem_of_getElem? (getElem_activeSlots_of_getElem? hb hk ht)
  exact ((mem_activeSlots b).mp hmem).2

/-- Different harts have different slots. -/
theorem hartn_unique (hb : b.initSmp = some harts) (hj : 1 ≤ j) (hk : 1 ≤ k)
    (htj : harts[j]? = some ⟨t, true⟩) (htk : harts[k]? = some ⟨t, true⟩) : j = k := by
  have hslotj := getElem_activeSlots_of_getElem? hb hj htj
  have hslotk := getElem_activeSlots_of_getElem? hb hk htk
  obtain ⟨hlt, -⟩ := List.getElem?_eq_some_iff.mp hslotj
  have heq := (List.getElem?_inj hlt (nodup_activeSlots b)).mp (hslotj.trans hslotk.symm)
  omega

theorem lt_smpHartNum_of_getElem? {h : Hls} (hb : b.initSmp = some harts)
    (ht : harts[k]? = some h) : k < b.smpHartNum := by
  obtain ⟨-, hle, -⟩ := initSmp_eq hb
  obtain ⟨hlt, -⟩ := List.getElem?_eq_some_iff.mp ht
  omega

end Table

section Storage

variable (plf : BootPlf)

theorem hlsOf_inj {j k : ℕ} (hj : j < 2 ^ 32) (hk : k < 2 ^ 32) (h : plf.hlsOf j = plf.hlsOf k) :
    j = k := by
  rw [BootPlf.hlsOf, BootPlf.hlsOf, HartLayout.hartTls, HartLayout.hartTls] at h
  have hmul := sub_right_injective (add_right_cancel h)
  have hnat := congrArg BitVec.toNat hmul
  simp only [toNat_mul_hlsize, BitVec.toNat_ofNat, Nat.mod_eq_of_lt hj, Nat.mod_eq_of_lt hk] at hnat
  exact Nat.eq_of_mul_eq_mul_right (Nat.two_pow_pos _) hnat

/-- All states that `hls_init` writes are the same. -/
theorem foldl_stop (l : List ℕ) (addr : U64) (state : U64 → ℕ)
    (h : state addr = sbiHsmStateStop ∨ addr ∈ l.map plf.hlsOf) :
    l.foldl (fun state hartn => Function.update state (plf.hlsOf hartn) sbiHsmStateStop) state
      addr = sbiHsmStateStop := by
  induction l generalizing state with
  | nil => exact h.resolve_right List.not_mem_nil
  | cons hartn l ih =>
    refine ih (Function.update state (plf.hlsOf hartn) sbiHsmStateStop) ?_
    by_cases heq : addr = plf.hlsOf hartn
    · exact .inl (by rw [heq, Function.update_self])
    · rw [List.map_cons, List.mem_cons] at h
      rw [Function.update_of_ne heq]
      exact h.imp_right fun hmem => hmem.resolve_left heq

theorem hlsInitStates_eq {n k : ℕ} (hk : 1 ≤ k) (hn : k < n) (state : U64 → ℕ) :
    plf.hlsInitStates n state (plf.hlsOf k) = sbiHsmStateStop := by
  refine foldl_stop plf _ _ _ (.inr (List.mem_map_of_mem ?_))
  rw [List.mem_range'_1]
  omega

end Storage

end ScBl
