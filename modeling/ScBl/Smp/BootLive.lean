import ScBl.Smp.BootSafe
import ScBl.Lib.Fair
import Mathlib.Data.Prod.Lex
import Mathlib.Data.Nat.Pairing

/-!
# The start-up comes to its end

Where every hart goes on again and again, the master hart reaches `enter_entry_point` and so does
every active hart, unless `init_smp` halts (`boot_completes`): no wait of the start-up is for
something that does not come.
-/

namespace ScBl

open Runs

/-! ## The variant -/

/-- How far a secondary hart is from its end. -/
def SecondaryPc.rank : SecondaryPc → ℕ
  | halted => 6
  | waitSetup => 5
  | setup _ => 4
  | waitStart _ => 3
  | start _ => 2
  | gate _ => 1
  | entered _ => 0

theorem SecondaryPc.rank_lt (pc : SecondaryPc) : pc.rank < 7 := by
  cases pc <;> simp [rank]

/-- The phase, the slots or harts to go, and what is to be done for one of them. -/
def bootVariant (plf : BootPlf) (s : Boot) : ℕ ×ₗ ℕ ×ₗ ℕ :=
  match s.master with
  | .probe slotn => toLex (7, toLex (plf.board.numSlots - slotn, slotTimeoutUs + 2))
  | .loopback slotn => toLex (7, toLex (plf.board.numSlots - slotn, slotTimeoutUs + 1))
  | .await slotn left => toLex (7, toLex (plf.board.numSlots - slotn, left))
  | .setup i => toLex (6, toLex (s.harts.length - i, 7))
  | .setupWait i => toLex (6, toLex (s.harts.length - i, (s.secondary (slotOf s.harts i)).rank))
  | .monitor => toLex (5, toLex (0, 0))
  | .start i => toLex (4, toLex (s.harts.length - i, 7))
  | .startWait i => toLex (4, toLex (s.harts.length - i, (s.secondary (slotOf s.harts i)).rank))
  | .platform => toLex (3, toLex (0, 0))
  | .openGate => toLex (2, toLex (0, 0))
  | .entered => toLex (1, toLex (0, 0))
  | .halted => toLex (1, toLex (0, 0))

/-- The hart that has to go on next. -/
def BootPlf.helpful (plf : BootPlf) (s : Boot) : BootEvent :=
  match s.master with
  | .setupWait i =>
    if s.state (plf.hlsOf i) = sbiHsmStateStartPending then .master
    else .secondary (slotOf s.harts i)
  | .startWait i =>
    if s.state (plf.hlsOf i) = sbiHsmStateStart then .master else .secondary (slotOf s.harts i)
  | _ => .master

/-- The master hart is at `enter_entry_point`, or `init_smp` has halted it. -/
def MasterPc.Ended (pc : MasterPc) : Prop := pc = .entered ∨ pc = .halted

/-- The loops of the master hart are within their bounds. -/
def MasterPc.InBounds (numSlots : ℕ) (harts : List Hls) : MasterPc → Prop
  | loopback slotn => slotn < numSlots
  | await slotn _ => slotn < numSlots
  | setupWait i => harts[i]? = some ⟨slotOf harts i, true⟩
  | startWait i => harts[i]? = some ⟨slotOf harts i, true⟩
  | _ => True

/-- What is needed for the end to come. -/
structure LiveInv (plf : BootPlf) (s : Boot) : Prop where
  inv : BootInv plf s
  bounds : s.master.InBounds plf.board.numSlots s.harts
  opened : s.master = .entered → s.rootPageTable = true

section Live

variable {plf : BootPlf} {s : Boot} {i t : ℕ}

theorem lex_lt {a b c a' b' c' : ℕ} (h : a < a' ∨ a = a' ∧ (b < b' ∨ b = b' ∧ c < c')) :
    toLex (a, toLex (b, c)) < toLex (a', toLex (b', c')) := by
  rw [Prod.Lex.toLex_lt_toLex, Prod.Lex.toLex_lt_toLex]
  exact h

theorem getElem?_slotOf {harts : List Hls} (h : harts[i]? = some ⟨t, true⟩) :
    slotOf harts i = t := by
  rw [slotOf, List.getD_eq_getElem?_getD, List.getElem?_map, h]
  rfl

/-- What a step of a secondary hart does not change. -/
theorem secondary_frame (hreceive : plf.Delivers) (h : BootInv plf s) :
    (plf.step s (.secondary t)).master = s.master ∧
      (plf.step s (.secondary t)).harts = s.harts ∧
        (plf.step s (.secondary t)).rootPageTable = s.rootPageTable := by
  rw [BootPlf.step]
  split_ifs with hrun
  · obtain ⟨-, hslot⟩ := Bool.and_eq_true_iff.mp hrun
    obtain ⟨k, st, hstage⟩ := h.exists_stage (bne_iff_ne.mp hslot)
    rw [secondaryStep_stage hreceive hstage]
    exact ⟨rfl, rfl, rfl⟩
  · exact ⟨rfl, rfl, rfl⟩

theorem masterStep_inBounds (h : s.master.InBounds plf.board.numSlots s.harts) :
    (plf.masterStep s).master.InBounds plf.board.numSlots (plf.masterStep s).harts := by
  cases hpc : s.master with
  | probe slotn =>
    simp only [BootPlf.masterStep, hpc]
    split_ifs with hlt
    · exact hlt
    · split <;> trivial
  | loopback slotn =>
    rw [hpc] at h
    simp only [BootPlf.masterStep, hpc]
    split_ifs
    · trivial
    · exact h
  | await slotn left =>
    rw [hpc] at h
    cases left with
    | zero =>
      simp only [BootPlf.masterStep, hpc]
      trivial
    | succ left =>
      simp only [BootPlf.masterStep, hpc]
      split_ifs
      · trivial
      · exact h
  | setup i =>
    simp only [BootPlf.masterStep, hpc]
    rcases hget : s.harts[i]? with _ | ⟨ipiN, _ | _⟩
    · trivial
    · trivial
    · exact (getElem?_slotOf hget).symm ▸ hget
  | start i =>
    simp only [BootPlf.masterStep, hpc]
    rcases hget : s.harts[i]? with _ | ⟨ipiN, _ | _⟩
    · trivial
    · trivial
    · exact (getElem?_slotOf hget).symm ▸ hget
  | setupWait i =>
    simp only [BootPlf.masterStep, hpc]
    split_ifs
    · trivial
    · exact h
  | startWait i =>
    simp only [BootPlf.masterStep, hpc]
    split_ifs
    · trivial
    · exact h
  | monitor => simp only [BootPlf.masterStep, hpc]; trivial
  | platform => simp only [BootPlf.masterStep, hpc]; trivial
  | openGate => simp only [BootPlf.masterStep, hpc]; trivial
  | entered => simp only [BootPlf.masterStep, hpc]; trivial
  | halted => simp only [BootPlf.masterStep, hpc]; trivial

/-- The master hart is not past the gate before it has opened it. By cases of the place where it is.
-/
theorem masterStep_opened (h : s.master = .entered → s.rootPageTable = true)
    (hentered : (plf.masterStep s).master = .entered) :
    (plf.masterStep s).rootPageTable = true := by
  cases hpc : s.master with
  | openGate => simp only [BootPlf.masterStep, hpc]
  | entered =>
    simp only [BootPlf.masterStep, hpc]
    exact h hpc
  | probe slotn =>
    simp only [BootPlf.masterStep, hpc] at hentered
    split_ifs at hentered
    · cases hentered
    · rcases hb : (plf.boardOf s).initSmp with _ | harts
      · rw [hb] at hentered
        cases hentered
      · rw [hb] at hentered
        cases hentered
  | loopback slotn =>
    simp only [BootPlf.masterStep, hpc] at hentered
    split_ifs at hentered <;> cases hentered
  | await slotn left =>
    cases left with
    | zero =>
      simp only [BootPlf.masterStep, hpc] at hentered
      cases hentered
    | succ left =>
      simp only [BootPlf.masterStep, hpc] at hentered
      split_ifs at hentered <;> cases hentered
  | setup i =>
    simp only [BootPlf.masterStep, hpc] at hentered
    rcases hget : s.harts[i]? with _ | ⟨ipiN, _ | _⟩ <;> rw [hget] at hentered <;> cases hentered
  | start i =>
    simp only [BootPlf.masterStep, hpc] at hentered
    rcases hget : s.harts[i]? with _ | ⟨ipiN, _ | _⟩ <;> rw [hget] at hentered <;> cases hentered
  | setupWait i =>
    simp only [BootPlf.masterStep, hpc] at hentered
    split_ifs at hentered
    · cases hentered
    · cases hpc.symm.trans hentered
  | startWait i =>
    simp only [BootPlf.masterStep, hpc] at hentered
    split_ifs at hentered
    · cases hentered
    · cases hpc.symm.trans hentered
  | monitor => simp only [BootPlf.masterStep, hpc] at hentered; cases hentered
  | platform => simp only [BootPlf.masterStep, hpc] at hentered; cases hentered
  | halted =>
    simp only [BootPlf.masterStep, hpc] at hentered
    cases hentered

theorem liveInv_step (hreceive : plf.Delivers) (hnum : plf.board.smpHartNum ≤ 2 ^ 32)
    (h : LiveInv plf s) (e : BootEvent) : LiveInv plf (plf.step s e) := by
  refine ⟨bootInv_step hreceive hnum h.inv e, ?_, ?_⟩
  · cases e with
    | master => exact masterStep_inBounds h.bounds
    | secondary t =>
      obtain ⟨hmaster, hharts, -⟩ := secondary_frame hreceive h.inv
      rw [hmaster, hharts]
      exact h.bounds
  · cases e with
    | master => exact masterStep_opened h.opened
    | secondary t =>
      obtain ⟨hmaster, -, hopen⟩ := secondary_frame hreceive h.inv
      rw [hmaster, hopen]
      exact h.opened

/-! ## Waiting for a hart -/

theorem secondaryStep_eq_self {k : ℕ} {st : SlotStage} (hreceive : plf.Delivers)
    (hstage : AtStage plf s k t st) (hnext : st.next s.rootPageTable = st) :
    plf.secondaryStep s t = s := by
  rw [secondaryStep_stage hreceive hstage, hnext, if_pos rfl, ← hstage.mailbox, ← hstage.pc,
    Function.update_eq_self, Function.update_eq_self]

/-- While the master hart waits for hart `i`, that hart gets on or nothing happens. The three stages
that it may be at are those after the word has been posted. -/
theorem Running.waiting (before posted busy after : SlotStage) (hreceive : plf.Delivers)
    (h : Running plf s) (hclosed : s.rootPageTable = false)
    (hwait : ∀ k, s.master.expects k =
      if k < i then [after] else if k = i then [posted, busy, after] else [before])
    (hbefore : before.next false = before) (hafter : after.next false = after)
    (hposted : ((posted.next false).pc plf i).rank < (posted.pc plf i).rank)
    (hbusy : ((busy.next false).pc plf i).rank < (busy.pc plf i).rank)
    (hi : 1 ≤ i) (hget : s.harts[i]? = some ⟨slotOf s.harts i, true⟩)
    (hslot : t ≠ plf.board.masterHart) :
    (t = slotOf s.harts i ∧
      ((plf.secondaryStep s t).secondary t).rank < (s.secondary t).rank) ∨
    s.state (plf.hlsOf i) = (plf.secondaryStep s t).state (plf.hlsOf i) ∧
      s.secondary (slotOf s.harts i) = (plf.secondaryStep s t).secondary (slotOf s.harts i) ∧
      (t = slotOf s.harts i → s.state (plf.hlsOf i) = after.state) := by
  by_cases hactive : ∃ k, 1 ≤ k ∧ s.harts[k]? = some ⟨t, true⟩
  · obtain ⟨k, hk, ht⟩ := hactive
    obtain ⟨st, hst, hstage, hstate⟩ := h.numbered k t hk ht
    have hself : st.next false = st → plf.secondaryStep s t = s := fun hnext =>
      secondaryStep_eq_self hreceive hstage (by rw [hclosed, hnext])
    rw [hwait] at hst
    by_cases hki : k = i
    · subst hki
      obtain rfl : t = slotOf s.harts k := (getElem?_slotOf ht).symm
      have hrank : ((st.next false).pc plf k).rank < (st.pc plf k).rank →
          ((plf.secondaryStep s (slotOf s.harts k)).secondary (slotOf s.harts k)).rank <
            (s.secondary (slotOf s.harts k)).rank := by
        intro hlt
        rw [hstage.pc, secondaryStep_stage hreceive hstage, hclosed]
        simp only [Function.update_self]
        exact hlt
      rw [if_neg (lt_irrefl k), if_pos rfl] at hst
      simp only [List.mem_cons, List.not_mem_nil, or_false] at hst
      obtain rfl | rfl | rfl := hst
      · exact .inl ⟨rfl, hrank hposted⟩
      · exact .inl ⟨rfl, hrank hbusy⟩
      · rw [hself hafter]
        exact .inr ⟨rfl, rfl, fun _ => hstate⟩
    · have hnext : st.next false = st := by
        rw [if_neg hki] at hst
        split_ifs at hst
        · rwa [List.mem_singleton.mp hst]
        · rwa [List.mem_singleton.mp hst]
      rw [hself hnext]
      refine .inr ⟨rfl, rfl, ?_⟩
      rintro rfl
      exact absurd (h.unique hk hi ht hget) hki
  · simp only [not_exists, not_and] at hactive
    obtain ⟨st, hquiet, hstage⟩ := h.others t hslot hactive
    obtain ⟨-, hstate⟩ := hquiet.next s.rootPageTable
    have hne : t ≠ slotOf s.harts i := by
      rintro rfl
      exact hactive i hi hget
    rw [secondaryStep_stage hreceive hstage, if_pos hstate]
    exact .inr ⟨rfl, (Function.update_of_ne hne.symm ..).symm, fun heq => absurd heq hne⟩

/-! ## The variant goes down -/

theorem sub_succ_lt {n i : ℕ} (h : i < n) : n - (i + 1) < n - i := by omega

/-- The master hart gets on, unless it waits for a hart that is not there yet. By cases of the place
where it is: its own rank goes down, or there is less to wait for. -/
theorem masterStep_variant (h : LiveInv plf s) (hended : ¬ s.master.Ended)
    (hhelpful : plf.helpful s = .master) :
    bootVariant plf (plf.masterStep s) < bootVariant plf s := by
  have hbounds := h.bounds
  cases hpc : s.master with
  | probe slotn =>
    simp only [bootVariant, BootPlf.masterStep, hpc]
    split_ifs
    · exact lex_lt (.inr ⟨rfl, .inr ⟨rfl, Nat.lt_succ_self _⟩⟩)
    · rcases (plf.boardOf s).initSmp with _ | harts
      · exact lex_lt (.inl (by decide))
      · exact lex_lt (.inl (by decide))
  | loopback slotn =>
    rw [hpc] at hbounds
    simp only [bootVariant, BootPlf.masterStep, hpc]
    split_ifs
    · exact lex_lt (.inr ⟨rfl, .inl (sub_succ_lt hbounds)⟩)
    · exact lex_lt (.inr ⟨rfl, .inr ⟨rfl, Nat.lt_succ_self _⟩⟩)
  | await slotn left =>
    rw [hpc] at hbounds
    cases left with
    | zero =>
      simp only [bootVariant, BootPlf.masterStep, hpc]
      exact lex_lt (.inr ⟨rfl, .inl (sub_succ_lt hbounds)⟩)
    | succ left =>
      simp only [bootVariant, BootPlf.masterStep, hpc]
      split_ifs
      · exact lex_lt (.inr ⟨rfl, .inl (sub_succ_lt hbounds)⟩)
      · exact lex_lt (.inr ⟨rfl, .inr ⟨rfl, Nat.lt_succ_self _⟩⟩)
  | setup i =>
    simp only [bootVariant, BootPlf.masterStep, hpc]
    rcases hget : s.harts[i]? with _ | ⟨ipiN, _ | _⟩
    · exact lex_lt (.inl (by decide))
    · have hlt := (List.getElem?_eq_some_iff.mp hget).1
      exact lex_lt (.inr ⟨rfl, .inl (sub_succ_lt hlt)⟩)
    · refine lex_lt (.inr ⟨rfl, .inr ⟨rfl, ?_⟩⟩)
      exact SecondaryPc.rank_lt _
  | setupWait i =>
    rw [hpc] at hbounds
    have hlt := (List.getElem?_eq_some_iff.mp hbounds).1
    simp only [BootPlf.helpful, hpc] at hhelpful
    split_ifs at hhelpful with hstate
    simp only [bootVariant, BootPlf.masterStep, hpc, if_pos hstate]
    exact lex_lt (.inr ⟨rfl, .inl (sub_succ_lt hlt)⟩)
  | start i =>
    simp only [bootVariant, BootPlf.masterStep, hpc]
    rcases hget : s.harts[i]? with _ | ⟨ipiN, _ | _⟩
    · exact lex_lt (.inl (by decide))
    · have hlt := (List.getElem?_eq_some_iff.mp hget).1
      exact lex_lt (.inr ⟨rfl, .inl (sub_succ_lt hlt)⟩)
    · refine lex_lt (.inr ⟨rfl, .inr ⟨rfl, ?_⟩⟩)
      exact SecondaryPc.rank_lt _
  | startWait i =>
    rw [hpc] at hbounds
    have hlt := (List.getElem?_eq_some_iff.mp hbounds).1
    simp only [BootPlf.helpful, hpc] at hhelpful
    split_ifs at hhelpful with hstate
    simp only [bootVariant, BootPlf.masterStep, hpc, if_pos hstate]
    exact lex_lt (.inr ⟨rfl, .inl (sub_succ_lt hlt)⟩)
  | monitor =>
    simp only [bootVariant, BootPlf.masterStep, hpc]
    exact lex_lt (.inl (by decide))
  | platform =>
    simp only [bootVariant, BootPlf.masterStep, hpc]
    exact lex_lt (.inl (by decide))
  | openGate =>
    simp only [bootVariant, BootPlf.masterStep, hpc]
    exact lex_lt (.inl (by decide))
  | entered => exact absurd (.inl hpc) hended
  | halted => exact absurd (.inr hpc) hended

/-- While it waits, a step of the master hart does nothing. -/
theorem masterStep_eq_self (hhelpful : plf.helpful s ≠ .master) : plf.masterStep s = s := by
  cases hpc : s.master with
  | setupWait i =>
    simp only [BootPlf.helpful, hpc] at hhelpful
    split_ifs at hhelpful with hstate
    · exact absurd rfl hhelpful
    · simp only [BootPlf.masterStep, hpc, if_neg hstate]
  | startWait i =>
    simp only [BootPlf.helpful, hpc] at hhelpful
    split_ifs at hhelpful with hstate
    · exact absurd rfl hhelpful
    · simp only [BootPlf.masterStep, hpc, if_neg hstate]
  | _ =>
    simp only [BootPlf.helpful, hpc] at hhelpful
    exact absurd rfl hhelpful

/-- A step of a secondary hart lowers the variant, or it changes neither the variant nor who
has to go on; the latter is not so for the hart that has to go on. -/
theorem secondaryStep_variant (hreceive : plf.Delivers) (h : LiveInv plf s)
    (hslot : t ≠ plf.board.masterHart) :
    bootVariant plf (plf.secondaryStep s t) < bootVariant plf s ∨
      bootVariant plf (plf.secondaryStep s t) = bootVariant plf s ∧
        plf.helpful (plf.secondaryStep s t) = plf.helpful s ∧
          plf.helpful s ≠ .secondary t := by
  obtain ⟨k, st, hstage⟩ := h.inv.exists_stage hslot
  have hframe : (plf.secondaryStep s t).master = s.master ∧
      (plf.secondaryStep s t).harts = s.harts := by
    rw [secondaryStep_stage hreceive hstage]
    exact ⟨rfl, rfl⟩
  obtain ⟨hmaster, hharts⟩ := hframe
  have hbounds := h.bounds
  have hpast := h.inv.past
  have hrunning := h.inv.running
  cases hpc : s.master with
  | setupWait i =>
    rw [hpc] at hbounds hpast
    have hrun := hrunning (congrArg MasterPc.probed hpc)
    obtain ⟨rfl, hrank⟩ | ⟨hstate, hsecondary, hafter⟩ := hrun.waiting .idle .setupPosted
      .settingUp .pending hreceive (hrun.closed (by simp [hpc])) (fun k => by rw [hpc]; rfl) rfl rfl
      (Nat.lt_succ_self 4) (Nat.lt_succ_self 3) hpast hbounds hslot
    · left
      simp only [bootVariant, hmaster, hharts, hpc]
      exact lex_lt (.inr ⟨rfl, .inr ⟨rfl, hrank⟩⟩)
    · right
      simp only [bootVariant, BootPlf.helpful, hmaster, hharts, hpc, ← hstate, ← hsecondary,
        true_and]
      split_ifs with hready
      · exact nofun
      · rintro heq
        cases heq
        exact hready (hafter rfl)
  | startWait i =>
    rw [hpc] at hbounds hpast
    have hrun := hrunning (congrArg MasterPc.probed hpc)
    obtain ⟨rfl, hrank⟩ | ⟨hstate, hsecondary, hafter⟩ := hrun.waiting .pending .startPosted
      .starting .gate hreceive (hrun.closed (by simp [hpc])) (fun k => by rw [hpc]; rfl) rfl rfl
      (Nat.lt_succ_self 2) (Nat.lt_succ_self 1) hpast hbounds hslot
    · left
      simp only [bootVariant, hmaster, hharts, hpc]
      exact lex_lt (.inr ⟨rfl, .inr ⟨rfl, hrank⟩⟩)
    · right
      simp only [bootVariant, BootPlf.helpful, hmaster, hharts, hpc, ← hstate, ← hsecondary,
        true_and]
      split_ifs with hready
      · exact nofun
      · rintro heq
        cases heq
        exact hready (hafter rfl)
  | _ =>
    right
    simp only [bootVariant, BootPlf.helpful, hmaster, hharts, hpc]
    exact ⟨trivial, trivial, nofun⟩

/-! ## The end -/

variable {sched : ℕ → BootEvent} (hreceive : plf.Delivers) (hnum : plf.board.smpHartNum ≤ 2 ^ 32)
  (hfair : Fair sched)

include hreceive hnum hfair

/-- **The master hart reaches `enter_entry_point`**, or it halts. In a fair schedule the helpful
hart has its turn again and again, and each turn makes the variant smaller. -/
theorem master_ends (hs : LiveInv plf s) : ∃ n, (states plf.step s sched n).master.Ended := by
  refine eventually_of_variant (LiveInv plf) (fun s => s.master.Ended) plf.helpful
    (bootVariant plf) (fun s e h => liveInv_step hreceive hnum h e) (fun s e h hended => ?_)
    (fun s h hended => ?_) hfair hs
  · cases e with
    | master =>
      rw [BootPlf.step]
      by_cases hhelpful : plf.helpful s = .master
      · exact .inl (masterStep_variant h hended hhelpful)
      · rw [masterStep_eq_self hhelpful]
        exact .inr ⟨rfl, rfl⟩
    | secondary t =>
      rw [BootPlf.step]
      split_ifs with hrun
      · obtain ⟨-, hslot⟩ := Bool.and_eq_true_iff.mp hrun
        obtain hlt | ⟨heq, hsame, -⟩ := secondaryStep_variant hreceive h (bne_iff_ne.mp hslot)
        · exact .inl hlt
        · exact .inr ⟨heq, hsame⟩
      · exact .inr ⟨rfl, rfl⟩
  · cases hhelpful : plf.helpful s with
    | master => exact masterStep_variant h hended hhelpful
    | secondary t =>
      -- the hart that is waited for is there
      have hthere : t ≠ plf.board.masterHart ∧ plf.present t = true := by
        have hbounds := h.bounds
        have hpast := h.inv.past
        have hrunning := h.inv.running
        cases hpc : s.master with
        | setupWait i =>
          simp only [BootPlf.helpful, hpc] at hhelpful
          split_ifs at hhelpful
          cases hhelpful
          rw [hpc] at hbounds hpast
          exact (hrunning (congrArg MasterPc.probed hpc)).slot hpast hbounds
        | startWait i =>
          simp only [BootPlf.helpful, hpc] at hhelpful
          split_ifs at hhelpful
          cases hhelpful
          rw [hpc] at hbounds hpast
          exact (hrunning (congrArg MasterPc.probed hpc)).slot hpast hbounds
        | _ =>
          simp only [BootPlf.helpful, hpc] at hhelpful
          cases hhelpful
      obtain ⟨hslot, hpresent⟩ := hthere
      rw [BootPlf.step, if_pos (Bool.and_eq_true_iff.mpr ⟨hpresent, bne_iff_ne.mpr hslot⟩)]
      obtain hlt | ⟨-, -, hne⟩ := secondaryStep_variant hreceive h hslot
      · exact hlt
      · exact absurd hhelpful hne

omit hnum hfair in
/-- Once the gate is open, a hart that gets on reaches `enter_entry_point`. The gate is the last
thing that it waits for. -/
theorem secondary_enters {k : ℕ} {harts : List Hls} (hk : 1 ≤ k)
    (ht : harts[k]? = some ⟨t, true⟩) (h : LiveInv plf s) (hentered : s.master = .entered)
    (hharts : s.harts = harts) :
    (plf.step s (.secondary t)).secondary t = .entered (plf.hlsOf k) := by
  subst hharts
  have hrun := h.inv.running (by rw [hentered]; rfl)
  obtain ⟨hslot, hpresent⟩ := hrun.slot hk ht
  obtain ⟨st, hst, hstage, -⟩ := hrun.numbered k t hk ht
  rw [BootPlf.step, if_pos (Bool.and_eq_true_iff.mpr ⟨hpresent, bne_iff_ne.mpr hslot⟩),
    secondaryStep_stage hreceive hstage]
  simp only [Function.update_self, h.opened hentered]
  rw [hentered] at hst
  simp only [MasterPc.expects, List.mem_cons, List.not_mem_nil, or_false] at hst
  obtain rfl | rfl := hst
  all_goals rfl

omit hnum hfair in
/-- A hart that has got there stays there, whatever the others do. -/
theorem secondary_entered {hls : U64} (h : LiveInv plf s) (hentered : s.master = .entered)
    (hpc : s.secondary t = .entered hls) (e : BootEvent) :
    (plf.step s e).secondary t = .entered hls := by
  cases e with
  | master =>
    simp only [BootPlf.step, BootPlf.masterStep, hentered]
    exact hpc
  | secondary t' =>
    rw [BootPlf.step]
    split_ifs with hrun
    · obtain ⟨-, hslot⟩ := Bool.and_eq_true_iff.mp hrun
      by_cases heq : t' = t
      · subst heq
        simp only [BootPlf.secondaryStep, hpc]
      · obtain ⟨k, st, hstage⟩ := h.inv.exists_stage (bne_iff_ne.mp hslot)
        rw [secondaryStep_stage hreceive hstage]
        exact (Function.update_of_ne (Ne.symm heq) ..).trans hpc
    · exact hpc

/-- The master hart has opened the gate, and these are the harts. -/
structure GateOpen (plf : BootPlf) (harts : List Hls) (s : Boot) : Prop where
  inv : LiveInv plf s
  entered : s.master = .entered
  harts_eq : s.harts = harts

omit hfair in
theorem gateOpen_step {harts : List Hls} (h : GateOpen plf harts s) (e : BootEvent) :
    GateOpen plf harts (plf.step s e) := by
  refine ⟨liveInv_step hreceive hnum h.inv e, ?_, ?_⟩
  · cases e with
    | master => simp only [BootPlf.step, BootPlf.masterStep, h.entered]
    | secondary t => exact (secondary_frame hreceive h.inv.inv).1.trans h.entered
  · cases e with
    | master =>
      simp only [BootPlf.step, BootPlf.masterStep, h.entered]
      exact h.harts_eq
    | secondary t => exact (secondary_frame hreceive h.inv.inv).2.1.trans h.harts_eq

/-- Hart `k` has reached `enter_entry_point`, if it is an active one. -/
def HasEntered (plf : BootPlf) (harts : List Hls) (k : ℕ) (s : Boot) : Prop :=
  ∀ t, 1 ≤ k → harts[k]? = some ⟨t, true⟩ → s.secondary t = .entered (plf.hlsOf k)

theorem secondaries_enter {harts : List Hls} (h : GateOpen plf harts s) :
    ∃ n, ∀ m, n ≤ m → ∀ k < harts.length, HasEntered plf harts k (states plf.step s sched m) := by
  refine eventually_forall (states plf.step s sched) (HasEntered plf harts) harts.length
    fun k _ => ?_
  refine eventually_forever (GateOpen plf harts) (HasEntered plf harts k)
    (.secondary (slotOf harts k)) (fun s e hs => gateOpen_step hreceive hnum hs e)
    (fun s e hs henters t hk ht => ?_) (fun s hs t hk ht => ?_) hfair h
  · exact secondary_entered hreceive hs.inv hs.entered (henters t hk ht) e
  · rw [getElem?_slotOf ht]
    exact secondary_enters hreceive hk ht hs.inv hs.entered hs.harts_eq

end Live

/-- All active harts of the table have reached `enter_entry_point`. -/
structure BootDone (plf : BootPlf) (s : Boot) : Prop where
  master : s.master = .entered
  secondaries : ∀ k t, 1 ≤ k → s.harts[k]? = some ⟨t, true⟩ →
    s.secondary t = .entered (plf.hlsOf k)

/-- **The start-up ends**, whatever the order of the steps is, as long as every hart goes on: the
master hart reaches `enter_entry_point`, and so does every hart that it has found. Each phase leads
to the next one, by the fairness of the schedule. -/
theorem boot_completes (plf : BootPlf) (hreceive : plf.Delivers)
    (hnum : plf.board.smpHartNum ≤ 2 ^ 32) (memory : U64 → ℕ) (sched : ℕ → BootEvent)
    (hfair : Fair sched) :
    (∃ n, (states plf.step (.init memory) sched n).master = .halted) ∨
      ∃ n, ∀ m, n ≤ m → BootDone plf (states plf.step (.init memory) sched m) := by
  have hinit : LiveInv plf (.init memory) := ⟨bootInv_init memory, trivial, nofun⟩
  obtain ⟨n, hentered | hhalted⟩ := master_ends hreceive hnum hfair hinit
  · right
    have hinv := states_inv (LiveInv plf) (fun s e h => liveInv_step hreceive hnum h e) hinit
      sched n
    obtain ⟨harts, hopen⟩ : ∃ harts, GateOpen plf harts
        (states plf.step (.init memory) sched n) := ⟨_, hinv, hentered, rfl⟩
    obtain ⟨d, hd⟩ := secondaries_enter hreceive hnum (hfair.drop n) hopen
    refine ⟨n + d, fun m hm => ?_⟩
    obtain ⟨j, rfl⟩ := Nat.exists_eq_add_of_le hm
    have hlater := states_inv (GateOpen plf harts)
      (fun s e h => gateOpen_step hreceive hnum h e) hopen (fun i => sched (n + i)) (d + j)
    rw [Nat.add_assoc, states_add]
    refine ⟨hlater.entered, fun k t hk ht => ?_⟩
    rw [hlater.harts_eq] at ht
    exact hd (d + j) (Nat.le_add_right d j) k (List.getElem?_eq_some_iff.mp ht).1 t hk ht
  · exact .inl ⟨n, hhalted⟩

/-- Everyone in turn, each again and again. -/
def BootEvent.everyone (n : ℕ) : BootEvent :=
  match n.unpair.1 with
  | 0 => .master
  | slotn + 1 => .secondary slotn

theorem fair_everyone : Fair BootEvent.everyone := by
  intro e n
  cases e with
  | master => exact ⟨Nat.pair 0 n, Nat.right_le_pair 0 n, by simp [BootEvent.everyone]⟩
  | secondary slotn =>
    exact ⟨Nat.pair (slotn + 1) n, Nat.right_le_pair _ n, by simp [BootEvent.everyone]⟩

theorem boot_completes_sample :
    (∃ n, (states BootPlf.sample.step (.init fun _ => 0) BootEvent.everyone n).master = .halted) ∨
      ∃ n, ∀ m, n ≤ m →
        BootDone .sample (states BootPlf.sample.step (.init fun _ => 0) BootEvent.everyone m) :=
  boot_completes .sample delivers_sample (by decide) _ _ fair_everyone

end ScBl
