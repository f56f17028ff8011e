import ScBl.Smp.BootStages

/-!
# Safety of the start-up

Where the master hart is tells the stages that a logical hart can be at
(`MasterPc.expects`). So no word is posted to a mailbox that is full, one hart at a
time is initialised, and no hart reaches `enter_entry_point` before the master hart has opened the
gate (`boot_safe`).
-/

namespace ScBl

open Runs

/-! ## Where the harts can be -/

/-- The stages that an active logical hart can be at. -/
def MasterPc.expects (hartn : ℕ) : MasterPc → List SlotStage
  | setup i => if hartn < i then [.pending] else [.idle]
  | setupWait i =>
    if hartn < i then [.pending]
    else if hartn = i then [.setupPosted, .settingUp, .pending]
    else [.idle]
  | monitor => [.pending]
  | start i => if hartn < i then [.gate] else [.pending]
  | startWait i =>
    if hartn < i then [.gate]
    else if hartn = i then [.startPosted, .starting, .gate]
    else [.pending]
  | platform => [.gate]
  | openGate => [.gate]
  | entered => [.gate, .entered]
  | _ => []

/-- While `init_smp` looks for harts; it has posted a `RESET` to the slots below `probed`. -/
structure Scanning (plf : BootPlf) (s : Boot) (probed : ℕ) : Prop where
  slots : ∀ t, t ≠ plf.board.masterHart → ∃ st : SlotStage, AtStage plf s 0 t st ∧ st.Quiet ∧
    (st = .fresh ↔ probed ≤ t) ∧ (st = .idle → plf.present t = true)
  active : ∀ t, t ≠ plf.board.masterHart → s.slotActive t = true → s.mailbox t = none ∧ t < probed
  gate : s.rootPageTable = false
  harts : s.harts = []

/-- Afterwards. -/
structure Running (plf : BootPlf) (s : Boot) : Prop where
  table : s.harts = [] ∨ ∃ slotActive : ℕ → Bool,
    (∀ t, slotActive t = true → t ≠ plf.board.masterHart → plf.present t = true) ∧
      SmpBoard.initSmp { plf.board with slotActive := slotActive } = some s.harts
  numbered : ∀ k t, 1 ≤ k → s.harts[k]? = some ⟨t, true⟩ → ∃ st ∈ s.master.expects k,
    AtStage plf s k t st ∧ s.state (plf.hlsOf k) = st.state
  others : ∀ t, t ≠ plf.board.masterHart → (∀ k, 1 ≤ k → s.harts[k]? ≠ some ⟨t, true⟩) →
    ∃ st : SlotStage, st.Quiet ∧ AtStage plf s 0 t st
  gate : s.rootPageTable = true → s.master = .entered

/-- The loops over the logical harts are past hart 0. -/
def MasterPc.PastMaster : MasterPc → Prop
  | setup i => 1 ≤ i
  | setupWait i => 1 ≤ i
  | start i => 1 ≤ i
  | startWait i => 1 ≤ i
  | _ => True

/-- While `init_smp` looks for harts, the number of slots that have got a `RESET`. -/
def MasterPc.probed : MasterPc → Option ℕ
  | probe slotn => some slotn
  | loopback slotn => some (slotn + 1)
  | await slotn _ => some (slotn + 1)
  | _ => none

/-- The master hart has posted a word to itself. -/
def MasterPc.looped (masterHart : ℕ) : MasterPc → Bool
  | loopback slotn => decide (slotn = masterHart)
  | _ => false

/-- The invariant of the start-up, by where the master hart is. -/
structure BootInv (plf : BootPlf) (s : Boot) : Prop where
  halted : s.secondary plf.board.masterHart = .halted
  past : s.master.PastMaster
  scanning : ∀ probed, s.master.probed = some probed → Scanning plf s probed ∧
    (s.mailbox plf.board.masterHart).isSome = s.master.looped plf.board.masterHart
  running : s.master.probed = none → Running plf s

section Table

variable {plf : BootPlf} {s : Boot} {j k t t' : ℕ}

/-- An active entry stands for a hart that there is, and that is not the master. -/
theorem Running.slot (h : Running plf s) (hk : 1 ≤ k) (ht : s.harts[k]? = some ⟨t, true⟩) :
    t ≠ plf.board.masterHart ∧ plf.present t = true := by
  obtain hnil | ⟨slotActive, hpresent, hb⟩ := h.table
  · rw [hnil] at ht
    cases ht
  · obtain ⟨hactive, hmaster⟩ := slotActive_of_getElem? hb hk ht
    exact ⟨hmaster, hpresent t hactive hmaster⟩

/-- Two active entries never stand for the same slot. -/
theorem Running.unique (h : Running plf s) (hj : 1 ≤ j) (hk : 1 ≤ k)
    (htj : s.harts[j]? = some ⟨t, true⟩) (htk : s.harts[k]? = some ⟨t, true⟩) : j = k := by
  obtain hnil | ⟨slotActive, -, hb⟩ := h.table
  · rw [hnil] at htj
    cases htj
  · exact hartn_unique hb hj hk htj htk

/-- Different harts have their storage in different places. -/
theorem Running.hlsOf_ne (hnum : plf.board.smpHartNum ≤ 2 ^ 32) (h : Running plf s)
    (htj : s.harts[j]? = some ⟨t, true⟩) (htk : s.harts[k]? = some ⟨t', true⟩) (hne : j ≠ k) :
    plf.hlsOf j ≠ plf.hlsOf k := by
  obtain hnil | ⟨slotActive, -, hb⟩ := h.table
  · rw [hnil] at htj
    cases htj
  · have hltj := lt_smpHartNum_of_getElem? hb htj
    have hltk := lt_smpHartNum_of_getElem? hb htk
    exact fun heq => hne (hlsOf_inj plf (hltj.trans_le hnum) (hltk.trans_le hnum) heq)

/-- The master hart goes on, and nothing else changes. What it expects of the slots must hold of the
stages that they can be at. -/
theorem Running.goto (h : Running plf s) (pc : MasterPc)
    (hexpects : ∀ k t, 1 ≤ k → s.harts[k]? = some ⟨t, true⟩ → ∀ st ∈ s.master.expects k,
      s.state (plf.hlsOf k) = st.state → st ∈ pc.expects k)
    (hgate : s.rootPageTable = false) : Running plf (s.goto pc) where
  table := h.table
  numbered k t hk ht := by
    obtain ⟨st, hst, hstage, hstate⟩ := h.numbered k t hk ht
    exact ⟨st, hexpects k t hk ht st hst hstate, ⟨hstage.mailbox, hstage.pc⟩, hstate⟩
  others t ht hno := by
    obtain ⟨st, hquiet, hstage⟩ := h.others t ht hno
    exact ⟨st, hquiet, ⟨hstage.mailbox, hstage.pc⟩⟩
  gate hopen := by
    have hfalse : s.rootPageTable = true := hopen
    rw [hgate] at hfalse
    cases hfalse

/-- The master hart posts a word to hart `k`. That hart is at the one stage that is expected, and at
the next one by its word; the other slots stay where they are. -/
theorem Running.post (h : Running plf s) {msg : U64} (pc : MasterPc) (st st' : SlotStage)
    (hk : 1 ≤ k) (ht : s.harts[k]? = some ⟨t, true⟩) (hst : s.master.expects k = [st])
    (hpc : st'.pc plf k = st.pc plf k) (hmailbox : st'.mailbox plf k = some (plf.receive msg))
    (hstate : st'.state = st.state) (hst' : st' ∈ pc.expects k)
    (hexpects : ∀ j, j ≠ k → pc.expects j = s.master.expects j) (hgate : s.rootPageTable = false) :
    Running plf ((plf.post s t msg).goto pc) where
  table := h.table
  numbered j t' hj ht' := by
    obtain ⟨st₀, hst₀, hstage, hstate₀⟩ := h.numbered j t' hj ht'
    by_cases hjk : j = k
    · subst hjk
      cases ht.symm.trans ht'
      rw [hst, List.mem_singleton] at hst₀
      subst hst₀
      refine ⟨st', hst', ⟨?_, ?_⟩, ?_⟩
      · exact (Function.update_self ..).trans hmailbox.symm
      · exact hstage.pc.trans hpc.symm
      · exact hstate₀.trans hstate.symm
    · have hne : t' ≠ t := by
        rintro rfl
        exact hjk (h.unique hj hk ht' ht)
      refine ⟨st₀, (hexpects j hjk).symm ▸ hst₀, ⟨?_, hstage.pc⟩, hstate₀⟩
      exact (Function.update_of_ne hne ..).trans hstage.mailbox
  others t' ht' hno := by
    obtain ⟨st₀, hquiet, hstage⟩ := h.others t' ht' hno
    have hne : t' ≠ t := by
      rintro rfl
      exact hno k hk ht
    refine ⟨st₀, hquiet, ⟨?_, hstage.pc⟩⟩
    exact (Function.update_of_ne hne ..).trans hstage.mailbox
  gate hopen := by
    have hfalse : s.rootPageTable = true := hopen
    rw [hgate] at hfalse
    cases hfalse

/-- The stages that are expected are closed under steps of the hart, so that its steps need no look
at the master hart. -/
theorem MasterPc.next_mem_expects {pc : MasterPc} {st : SlotStage} {opened : Bool}
    (hst : st ∈ pc.expects k) (hopened : opened = true → pc = .entered) :
    st.next opened ∈ pc.expects k := by
  cases pc with
  | setup i =>
    simp only [MasterPc.expects] at hst ⊢
    split_ifs at hst ⊢ <;> simp_all [SlotStage.next]
  | setupWait i =>
    simp only [MasterPc.expects] at hst ⊢
    split_ifs at hst ⊢
    · simp_all [SlotStage.next]
    · simp only [List.mem_cons, List.not_mem_nil, or_false] at hst ⊢
      obtain rfl | rfl | rfl := hst
      · exact .inr (.inl rfl)
      · exact .inr (.inr rfl)
      · exact .inr (.inr rfl)
    · simp_all [SlotStage.next]
  | start i =>
    simp only [MasterPc.expects] at hst ⊢
    split_ifs at hst ⊢ <;> simp_all [SlotStage.next]
  | startWait i =>
    simp only [MasterPc.expects] at hst ⊢
    split_ifs at hst ⊢
    · simp_all [SlotStage.next]
    · simp only [List.mem_cons, List.not_mem_nil, or_false] at hst ⊢
      obtain rfl | rfl | rfl := hst
      · exact .inr (.inl rfl)
      · exact .inr (.inr rfl)
      · cases opened
        · exact .inr (.inr rfl)
        · cases hopened rfl
    · simp_all [SlotStage.next]
  | entered =>
    simp only [MasterPc.expects, List.mem_cons, List.not_mem_nil, or_false] at hst ⊢
    obtain rfl | rfl := hst
    · cases opened
      · exact .inl rfl
      · exact .inr rfl
    · exact .inr rfl
  | probe slotn => cases hst
  | loopback slotn => cases hst
  | await slotn left => cases hst
  | halted => cases hst
  | monitor => simp_all [MasterPc.expects, SlotStage.next]
  | platform => simp_all [MasterPc.expects, SlotStage.next]
  | openGate => simp_all [MasterPc.expects, SlotStage.next]

/-- A secondary hart makes a step. Its slot goes to a stage that is expected as well, and the
storage of no other hart is written. -/
theorem Running.secondary (hreceive : plf.Delivers) (hnum : plf.board.smpHartNum ≤ 2 ^ 32)
    (h : Running plf s) (hslot : t ≠ plf.board.masterHart) :
    Running plf (plf.secondaryStep s t) := by
  by_cases hactive : ∃ k, 1 ≤ k ∧ s.harts[k]? = some ⟨t, true⟩
  · obtain ⟨k, hk, ht⟩ := hactive
    obtain ⟨st, hst, hstage, hstate⟩ := h.numbered k t hk ht
    rw [secondaryStep_stage hreceive hstage]
    refine ⟨h.table, fun j t' hj ht' => ?_, fun t' ht' hno => ?_, h.gate⟩
    · by_cases hjk : j = k
      · subst hjk
        cases ht.symm.trans ht'
        refine ⟨_, MasterPc.next_mem_expects hst h.gate, ⟨Function.update_self .., ?_⟩, ?_⟩
        · exact Function.update_self ..
        · simp only
          split_ifs with heq
          · exact hstate.trans heq.symm
          · exact Function.update_self ..
      · obtain ⟨st₀, hst₀, hstage₀, hstate₀⟩ := h.numbered j t' hj ht'
        have hne : t' ≠ t := by
          rintro rfl
          exact hjk (h.unique hj hk ht' ht)
        refine ⟨st₀, hst₀, ⟨?_, ?_⟩, ?_⟩
        · exact (Function.update_of_ne hne ..).trans hstage₀.mailbox
        · exact (Function.update_of_ne hne ..).trans hstage₀.pc
        · simp only
          split_ifs
          · exact hstate₀
          · exact (Function.update_of_ne (h.hlsOf_ne hnum ht' ht hjk) ..).trans hstate₀
    · obtain ⟨st₀, hquiet, hstage₀⟩ := h.others t' ht' hno
      have hne : t' ≠ t := by
        rintro rfl
        exact hno k hk ht
      refine ⟨st₀, hquiet, ⟨?_, ?_⟩⟩
      · exact (Function.update_of_ne hne ..).trans hstage₀.mailbox
      · exact (Function.update_of_ne hne ..).trans hstage₀.pc
  · simp only [not_exists, not_and] at hactive
    obtain ⟨st, hquiet, hstage⟩ := h.others t hslot hactive
    obtain ⟨hnext, hstate⟩ := hquiet.next s.rootPageTable
    rw [secondaryStep_stage hreceive hstage, if_pos hstate]
    refine ⟨h.table, fun j t' hj ht' => ?_, fun t' ht' hno => ?_, h.gate⟩
    · obtain ⟨st₀, hst₀, hstage₀, hstate₀⟩ := h.numbered j t' hj ht'
      have hne : t' ≠ t := by
        rintro rfl
        exact hactive j hj ht'
      refine ⟨st₀, hst₀, ⟨?_, ?_⟩, hstate₀⟩
      · exact (Function.update_of_ne hne ..).trans hstage₀.mailbox
      · exact (Function.update_of_ne hne ..).trans hstage₀.pc
    · by_cases heq : t' = t
      · subst heq
        exact ⟨_, hnext, ⟨Function.update_self .., Function.update_self ..⟩⟩
      · obtain ⟨st₀, hquiet₀, hstage₀⟩ := h.others t' ht' hno
        refine ⟨st₀, hquiet₀, ⟨?_, ?_⟩⟩
        · exact (Function.update_of_ne heq ..).trans hstage₀.mailbox
        · exact (Function.update_of_ne heq ..).trans hstage₀.pc

/-! ## Looking for harts -/

variable {probed : ℕ}

/-- A slot that has got a `RESET` and whose mailbox is free has a hart that waits for `SETUP`. -/
theorem SlotStage.Quiet.eq_idle {st : SlotStage} (hquiet : st.Quiet) (hne : st ≠ .fresh)
    (hmailbox : st.mailbox plf 0 = none) : st = .idle := by
  simp only [SlotStage.Quiet, List.mem_cons, List.not_mem_nil, or_false] at hquiet
  obtain rfl | rfl | rfl | rfl := hquiet
  · exact absurd rfl hne
  · cases hmailbox
  · cases hmailbox
  · rfl

/-- A hart that has taken its `RESET` is idle, and it is there, since something has emptied the
mailbox. -/
theorem Scanning.idle (h : Scanning plf s probed) (hslot : t ≠ plf.board.masterHart)
    (hfree : s.mailbox t = none) (hlt : t < probed) :
    AtStage plf s 0 t .idle ∧ plf.present t = true := by
  obtain ⟨st, hstage, hquiet, hfresh, hpresent⟩ := h.slots t hslot
  have hidle : st = .idle := by
    refine hquiet.eq_idle (fun heq => ?_) (hstage.mailbox.symm.trans hfree)
    exact absurd (hfresh.mp heq) (Nat.not_le.mpr hlt)
  subst hidle
  exact ⟨hstage, hpresent rfl⟩

/-- No hart gets back to where it was before its `RESET`. -/
theorem SlotStage.next_eq_fresh {st : SlotStage} {opened : Bool} :
    st.next opened = .fresh ↔ st = .fresh := by
  cases st <;> cases opened <;> simp [SlotStage.next]

/-- While the master hart looks, any other may go on: it takes the `RESET` out of its mailbox and
waits for `SETUP`, which has not been posted yet. -/
theorem Scanning.secondary (hreceive : plf.Delivers) (h : Scanning plf s probed)
    (hslot : t ≠ plf.board.masterHart) (hpresent : plf.present t = true) :
    Scanning plf (plf.secondaryStep s t) probed := by
  obtain ⟨st, hstage, hquiet, hfresh, -⟩ := h.slots t hslot
  obtain ⟨hnext, hstate⟩ := hquiet.next s.rootPageTable
  rw [secondaryStep_stage hreceive hstage, if_pos hstate]
  refine ⟨fun t' hslot' => ?_, fun t' hslot' hactive => ?_, h.gate, h.harts⟩
  · by_cases heq : t' = t
    · subst heq
      refine ⟨_, ⟨Function.update_self .., Function.update_self ..⟩, hnext, ?_, fun _ => hpresent⟩
      exact SlotStage.next_eq_fresh.trans hfresh
    · obtain ⟨st', hstage', hrest⟩ := h.slots t' hslot'
      refine ⟨st', ⟨?_, ?_⟩, hrest⟩
      · exact (Function.update_of_ne heq ..).trans hstage'.mailbox
      · exact (Function.update_of_ne heq ..).trans hstage'.pc
  · obtain ⟨hfree, hlt⟩ := h.active t' hslot' hactive
    refine ⟨?_, hlt⟩
    by_cases heq : t' = t
    · subst heq
      have hidle : st = .idle := by
        refine hquiet.eq_idle (fun hst => ?_) (hstage.mailbox.symm.trans hfree)
        exact absurd (hfresh.mp hst) (Nat.not_le.mpr hlt)
      subst hidle
      exact Function.update_self ..
    · exact (Function.update_of_ne heq ..).trans hfree

/-- A step of the master hart that posts nothing. -/
theorem Scanning.goto (h : Scanning plf s probed) (pc : MasterPc) :
    Scanning plf (s.goto pc) probed where
  slots t ht := by
    obtain ⟨st, hstage, hrest⟩ := h.slots t ht
    exact ⟨st, ⟨hstage.mailbox, hstage.pc⟩, hrest⟩
  active := h.active
  gate := h.gate
  harts := h.harts

/-- It posts the `RESET` to the next slot, whether there is a hart or not. Only one that is there
will empty its mailbox. -/
theorem Scanning.post (h : Scanning plf s probed) (pc : MasterPc) :
    Scanning plf ((plf.post s probed (packScipiMsg scrIpiCmdReset 0xdeadbeaf#64)).goto pc)
      (probed + 1) where
  slots t ht := by
    obtain ⟨st, hstage, hquiet, hfresh, hpresent⟩ := h.slots t ht
    by_cases heq : t = probed
    · subst heq
      obtain rfl : st = .fresh := hfresh.mpr (le_refl t)
      refine ⟨.reset, ⟨Function.update_self .., hstage.pc⟩, ?_, ?_, nofun⟩
      · exact List.mem_cons_of_mem _ (List.mem_cons_self ..)
      · exact iff_of_false nofun (by omega)
    · refine ⟨st, ⟨?_, hstage.pc⟩, hquiet, hfresh.trans (by omega), hpresent⟩
      exact (Function.update_of_ne heq ..).trans hstage.mailbox
  active t ht hactive := by
    obtain ⟨hfree, hlt⟩ := h.active t ht hactive
    refine ⟨?_, by omega⟩
    exact (Function.update_of_ne (by omega) ..).trans hfree
  gate := h.gate
  harts := h.harts

/-- The mailbox of the master hart does not matter here. -/
theorem Scanning.take (h : Scanning plf s probed) :
    Scanning plf (s.take plf.board.masterHart) probed where
  slots t ht := by
    obtain ⟨st, hstage, hrest⟩ := h.slots t ht
    exact ⟨st, ⟨(Function.update_of_ne ht ..).trans hstage.mailbox, hstage.pc⟩, hrest⟩
  active t ht hactive := by
    obtain ⟨hfree, hlt⟩ := h.active t ht hactive
    exact ⟨(Function.update_of_ne ht ..).trans hfree, hlt⟩
  gate := h.gate
  harts := h.harts

/-- It puts a slot that has emptied its mailbox into the table, or its own, where the word has come
back. -/
theorem Scanning.found (h : Scanning plf s probed) (hlt : t < probed)
    (hfree : t ≠ plf.board.masterHart → s.mailbox t = none) :
    Scanning plf (s.found t) probed where
  slots t' ht' := by
    obtain ⟨st, hstage, hrest⟩ := h.slots t' ht'
    exact ⟨st, ⟨hstage.mailbox, hstage.pc⟩, hrest⟩
  active t' ht' hactive := by
    by_cases heq : t' = t
    · subst heq
      exact ⟨hfree ht', hlt⟩
    · exact h.active t' ht' ((Function.update_of_ne heq ..).symm.trans hactive)
  gate := h.gate
  harts := h.harts

/-- **The table of the harts** is that of the board with the slots that have been found. From here
on each active entry of it is at a known stage. -/
theorem Scanning.running (h : Scanning plf s probed) {harts : List Hls}
    (hb : (plf.boardOf s).initSmp = some harts) : Running plf { s with
      harts := harts
      state := plf.hlsInitStates harts.length s.state
      master := .setup 1 } where
  table := by
    refine .inr ⟨s.slotActive, fun t hactive hslot => ?_, hb⟩
    obtain ⟨hfree, hlt⟩ := h.active t hslot hactive
    exact (h.idle hslot hfree hlt).2
  numbered k t hk ht := by
    obtain ⟨hactive, hslot⟩ := slotActive_of_getElem? hb hk ht
    obtain ⟨hfree, hlt⟩ := h.active t hslot hactive
    obtain ⟨hmailbox, hpc⟩ := (h.idle hslot hfree hlt).1
    obtain ⟨hlen, -⟩ := List.getElem?_eq_some_iff.mp ht
    refine ⟨.idle, ?_, ⟨hmailbox, hpc⟩, hlsInitStates_eq plf hk hlen _⟩
    simp only [MasterPc.expects, if_neg (Nat.not_lt.mpr hk), List.mem_singleton]
  others t ht _ := by
    obtain ⟨st, ⟨hmailbox, hpc⟩, hquiet, -⟩ := h.slots t ht
    exact ⟨st, hquiet, ⟨hmailbox, hpc⟩⟩
  gate hopen := by
    have hfalse : s.rootPageTable = true := hopen
    rw [h.gate] at hfalse
    cases hfalse

/-- It halts for good, where there are more harts than tables or storages. -/
theorem Scanning.halted (h : Scanning plf s probed) : Running plf (s.goto .halted) where
  table := .inl h.harts
  numbered k t _ ht := by
    have hsome : s.harts[k]? = some ⟨t, true⟩ := ht
    rw [h.harts] at hsome
    cases hsome
  others t ht _ := by
    obtain ⟨st, ⟨hmailbox, hpc⟩, hquiet, -⟩ := h.slots t ht
    exact ⟨st, hquiet, ⟨hmailbox, hpc⟩⟩
  gate hopen := by
    have hfalse : s.rootPageTable = true := hopen
    rw [h.gate] at hfalse
    cases hfalse

/-! ## The invariant -/

/-- Where the master hart has not opened the gate. -/
theorem Running.closed (h : Running plf s) (hne : s.master ≠ .entered) :
    s.rootPageTable = false := by
  cases hopen : s.rootPageTable with
  | false => rfl
  | true => exact absurd (h.gate hopen) hne

/-- The invariant while the master hart looks for harts. -/
theorem BootInv.of_scanning {probed : ℕ}
    (hhalted : s.secondary plf.board.masterHart = .halted)
    (hprobed : s.master.probed = some probed) (hscan : Scanning plf s probed)
    (hmail : (s.mailbox plf.board.masterHart).isSome = s.master.looped plf.board.masterHart) :
    BootInv plf s where
  halted := hhalted
  past := by cases hpc : s.master <;> simp_all [MasterPc.probed, MasterPc.PastMaster]
  scanning _ heq := by
    cases hprobed.symm.trans heq
    exact ⟨hscan, hmail⟩
  running hnone := by cases hprobed.symm.trans hnone

/-- The invariant afterwards. -/
theorem BootInv.of_running (hhalted : s.secondary plf.board.masterHart = .halted)
    (hpast : s.master.PastMaster) (hprobed : s.master.probed = none) (hrun : Running plf s) :
    BootInv plf s where
  halted := hhalted
  past := hpast
  scanning _ heq := by cases hprobed.symm.trans heq
  running _ := hrun

/-- The step that posts a `RESET` to the next slot or, past the last one, makes the table. It halts
where the board has more harts than the table. -/
theorem masterStep_probe {slotn : ℕ} (hpc : s.master = .probe slotn) (h : BootInv plf s) :
    BootInv plf (plf.masterStep s) := by
  obtain ⟨hscan, hmail⟩ := h.scanning slotn (congrArg MasterPc.probed hpc)
  have hfree : (s.mailbox plf.board.masterHart).isSome = false :=
      hmail.trans (by rw [hpc]; rfl)
  simp only [BootPlf.masterStep, hpc]
  split_ifs
  · refine .of_scanning h.halted rfl (hscan.post _) ?_
    simp only [BootPlf.post, Boot.goto, MasterPc.looped, Function.update_apply]
    by_cases heq : slotn = plf.board.masterHart
    · rw [if_pos heq.symm, decide_eq_true heq, Option.isSome_some]
    · rw [if_neg (Ne.symm heq), decide_eq_false heq, hfree]
  · split
    · exact .of_running h.halted trivial rfl hscan.halted
    · next harts hb => exact .of_running h.halted (le_refl 1) rfl (hscan.running hb)

/-- The step that looks whether the word has come back, as it does from the master's own slot. -/
theorem masterStep_loopback {slotn : ℕ} (hpc : s.master = .loopback slotn) (h : BootInv plf s) :
    BootInv plf (plf.masterStep s) := by
  obtain ⟨hscan, hmail⟩ := h.scanning (slotn + 1) (congrArg MasterPc.probed hpc)
  rw [hpc, MasterPc.looped] at hmail
  simp only [BootPlf.masterStep, hpc, hmail, decide_eq_true_iff]
  split_ifs with heq
  · refine .of_scanning h.halted rfl
      ((hscan.take.found (Nat.lt_succ_self _) fun hne => absurd heq hne).goto _) ?_
    exact congrArg Option.isSome (Function.update_self plf.board.masterHart none s.mailbox)
  · refine .of_scanning h.halted rfl (hscan.goto _) ?_
    exact hmail.trans (decide_eq_false heq)

/-- The step that looks whether the slot is empty, until the time is up. A slot that is late is
taken for one without a hart. -/
theorem masterStep_await {slotn left : ℕ} (hpc : s.master = .await slotn left)
    (h : BootInv plf s) : BootInv plf (plf.masterStep s) := by
  obtain ⟨hscan, hmail⟩ := h.scanning (slotn + 1) (congrArg MasterPc.probed hpc)
  have hmail : (s.mailbox plf.board.masterHart).isSome = false :=
      hmail.trans (by rw [hpc]; rfl)
  cases left with
  | zero =>
    simp only [BootPlf.masterStep, hpc]
    exact .of_scanning h.halted rfl (hscan.goto _) hmail
  | succ left =>
    simp only [BootPlf.masterStep, hpc]
    split_ifs with hfree
    · refine .of_scanning h.halted rfl
        ((hscan.found (Nat.lt_succ_self _) fun _ => ?_).goto _) hmail
      exact Option.isNone_iff_eq_none.mp hfree
    · exact .of_scanning h.halted rfl (hscan.goto _) hmail

/-- A wake-up loop of the master hart, at hart `i`: `setup` and `start` are its program points
there, `before` and `after` what it finds and leaves the harts at. -/
theorem Running.wake (i : ℕ) {pc : MasterPc} (wait next done : MasterPc)
    (before posted after : SlotStage) (msg : U64) (h : Running plf s) (hpc : s.master = pc)
    (hclosed : s.rootPageTable = false)
    (hbefore : ∀ k, pc.expects k = if k < i then [after] else [before])
    (hnext : ∀ k, next.expects k = if k < i + 1 then [after] else [before])
    (hdone : ∀ k, done.expects k = [after])
    (hwait : ∀ k ≠ i, wait.expects k = pc.expects k) (hposted : posted ∈ wait.expects i)
    (hsame : posted.pc plf i = before.pc plf i) (hstate : posted.state = before.state)
    (hmailbox : posted.mailbox plf i = some (plf.receive msg)) (hi : 1 ≤ i) :
    Running plf (match s.harts[i]? with
      | none => s.goto done
      | some ⟨ipiN, active⟩ =>
        if active then (plf.post s ipiN msg).goto wait else s.goto next) := by
  split
  · next hnone =>
    refine h.goto _ (fun k t _ ht st hst _ => ?_) hclosed
    have hlt : k < i := by
      obtain ⟨hlen, -⟩ := List.getElem?_eq_some_iff.mp ht
      exact hlen.trans_le (List.getElem?_eq_none_iff.mp hnone)
    rwa [hpc, hbefore, if_pos hlt, ← hdone k] at hst
  · next ipiN active hsome =>
    split_ifs with hactive
    · subst hactive
      refine h.post wait before posted hi hsome ?_ hsame hmailbox hstate hposted ?_ hclosed
      · rw [hpc, hbefore, if_neg (lt_irrefl i)]
      · exact fun j hj => (hwait j hj).trans (congrArg _ hpc.symm)
    · refine h.goto _ (fun k t _ ht st hst _ => ?_) hclosed
      have hne : k ≠ i := by
        rintro rfl
        cases hsome.symm.trans ht
        exact hactive rfl
      rw [hpc, hbefore] at hst
      rw [hnext]
      split_ifs at hst ⊢ <;> first | exact hst | omega

/-- It has waited for hart `i`. -/
theorem Running.woken (i : ℕ) {wait : MasterPc} (next : MasterPc)
    (before posted busy after : SlotStage) (h : Running plf s) (hpc : s.master = wait)
    (hclosed : s.rootPageTable = false)
    (hwait : ∀ k, wait.expects k =
      if k < i then [after] else if k = i then [posted, busy, after] else [before])
    (hnext : ∀ k, next.expects k = if k < i + 1 then [after] else [before])
    (hposted : posted.state ≠ after.state) (hbusy : busy.state ≠ after.state) :
    Running plf (if s.state (plf.hlsOf i) = after.state then s.goto next else s) := by
  split_ifs with hstate
  · refine h.goto _ (fun k t _ ht st hst hk => ?_) hclosed
    rw [hpc, hwait] at hst
    rw [hnext]
    rcases Nat.lt_trichotomy k i with hlt | rfl | hgt
    · rw [if_pos hlt] at hst
      rwa [if_pos (Nat.lt_succ_of_lt hlt)]
    · rw [if_neg (lt_irrefl k), if_pos rfl] at hst
      rw [if_pos (Nat.lt_succ_self k)]
      simp only [List.mem_cons, List.not_mem_nil, or_false] at hst ⊢
      obtain rfl | rfl | rfl := hst
      · exact absurd (hk.symm.trans hstate) hposted
      · exact absurd (hk.symm.trans hstate) hbusy
      · rfl
    · rw [if_neg (Nat.not_lt_of_gt hgt), if_neg (Nat.ne_of_gt hgt)] at hst
      rwa [if_neg (Nat.not_lt.mpr hgt)]
  · exact h

/-- **The master hart keeps the invariant.** By cases of the place where it is: it looks for harts,
initialises them one by one, and starts them. -/
theorem bootInv_master (h : BootInv plf s) : BootInv plf (plf.masterStep s) := by
  obtain ⟨hhalted, hpast, -, hrunning⟩ := id h
  cases hpc : s.master with
  | probe slotn => exact masterStep_probe hpc h
  | loopback slotn => exact masterStep_loopback hpc h
  | await slotn left => exact masterStep_await hpc h
  | setup i =>
    have hrun := hrunning (congrArg MasterPc.probed hpc)
    rw [hpc] at hpast
    have hwake := hrun.wake i (.setupWait i) (.setup (i + 1)) .monitor .idle .setupPosted .pending
      (plf.lay.setupMsg (BitVec.ofNat 32 i)) hpc (hrun.closed (by simp [hpc]))
      (fun _ => rfl) (fun _ => rfl) (fun _ => rfl)
      (fun k hk => by simp only [MasterPc.expects, if_neg hk]) (by simp [MasterPc.expects])
      rfl rfl rfl hpast
    simp only [BootPlf.masterStep, hpc]
    rcases hget : s.harts[i]? with _ | ⟨ipiN, _ | _⟩
    all_goals rw [hget] at hwake
    · exact .of_running hhalted trivial rfl hwake
    · exact .of_running hhalted (Nat.le_succ_of_le hpast) rfl hwake
    · exact .of_running hhalted hpast rfl hwake
  | setupWait i =>
    have hrun := hrunning (congrArg MasterPc.probed hpc)
    rw [hpc] at hpast
    have hwoken := hrun.woken i (.setup (i + 1)) .idle .setupPosted .settingUp .pending hpc
      (hrun.closed (by simp [hpc])) (fun _ => rfl) (fun _ => rfl) (by decide) (by decide)
    simp only [BootPlf.masterStep, hpc]
    split_ifs with hstate
    · rw [if_pos (c := _ = SlotStage.pending.state) hstate] at hwoken
      exact .of_running hhalted (Nat.le_succ_of_le hpast) rfl hwoken
    · exact h
  | monitor =>
    have hrun := hrunning (congrArg MasterPc.probed hpc)
    simp only [BootPlf.masterStep, hpc]
    have hclosed := hrun.closed (by simp [hpc])
    have hgoto := hrun.goto (.start 1) (fun k t hk _ st hst _ => by
      rw [hpc] at hst
      rwa [MasterPc.expects, if_neg (Nat.not_lt.mpr hk)]) hclosed
    rw [Boot.goto, hclosed] at hgoto
    exact .of_running hhalted (le_refl 1) rfl hgoto
  | start i =>
    have hrun := hrunning (congrArg MasterPc.probed hpc)
    rw [hpc] at hpast
    have hwake := hrun.wake i (.startWait i) (.start (i + 1)) .platform .pending .startPosted .gate
      (packScipiMsg scrIpiCmdStart 0#64) hpc (hrun.closed (by simp [hpc])) (fun _ => rfl)
      (fun _ => rfl) (fun _ => rfl)
      (fun k hk => by simp only [MasterPc.expects, if_neg hk]) (by simp [MasterPc.expects])
      rfl rfl rfl hpast
    simp only [BootPlf.masterStep, hpc]
    rcases hget : s.harts[i]? with _ | ⟨ipiN, _ | _⟩
    all_goals rw [hget] at hwake
    · exact .of_running hhalted trivial rfl hwake
    · exact .of_running hhalted (Nat.le_succ_of_le hpast) rfl hwake
    · exact .of_running hhalted hpast rfl hwake
  | startWait i =>
    have hrun := hrunning (congrArg MasterPc.probed hpc)
    rw [hpc] at hpast
    have hwoken := hrun.woken i (.start (i + 1)) .pending .startPosted .starting .gate hpc
      (hrun.closed (by simp [hpc])) (fun _ => rfl) (fun _ => rfl) (by decide) (by decide)
    simp only [BootPlf.masterStep, hpc]
    split_ifs with hstate
    · rw [if_pos (c := _ = SlotStage.gate.state) hstate] at hwoken
      exact .of_running hhalted (Nat.le_succ_of_le hpast) rfl hwoken
    · exact h
  | platform =>
    have hrun := hrunning (congrArg MasterPc.probed hpc)
    simp only [BootPlf.masterStep, hpc]
    have hgoto := hrun.goto .openGate (fun k t _ _ st hst _ => by rwa [hpc] at hst)
      (hrun.closed (by simp [hpc]))
    exact .of_running hhalted trivial rfl hgoto
  | openGate =>
    have hrun := hrunning (congrArg MasterPc.probed hpc)
    simp only [BootPlf.masterStep, hpc]
    obtain ⟨htable, hnumbered, hothers, -⟩ := hrun.goto .entered (fun k t _ _ st hst _ => by
      rw [hpc, MasterPc.expects, List.mem_singleton] at hst
      exact hst ▸ List.mem_cons_self ..) (hrun.closed (by simp [hpc]))
    have hopen : Running plf { s with rootPageTable := true, master := .entered } := by
      refine ⟨htable, fun k t hk ht => ?_, fun t ht hno => ?_, fun _ => rfl⟩
      · obtain ⟨st, hst, ⟨hmailbox, hsecondary⟩, hstate⟩ := hnumbered k t hk ht
        exact ⟨st, hst, ⟨hmailbox, hsecondary⟩, hstate⟩
      · obtain ⟨st, hquiet, hmailbox, hsecondary⟩ := hothers t ht hno
        exact ⟨st, hquiet, hmailbox, hsecondary⟩
    exact .of_running hhalted trivial rfl hopen
  | entered =>
    simp only [BootPlf.masterStep, hpc]
    exact h
  | halted =>
    simp only [BootPlf.masterStep, hpc]
    exact h

/-- What another hart does leaves the slot of the master hart alone. -/
theorem secondaryStep_masterHart (hslot : t ≠ plf.board.masterHart) {st : SlotStage}
    (hreceive : plf.Delivers) (hstage : AtStage plf s k t st) :
    (plf.secondaryStep s t).secondary plf.board.masterHart =
        s.secondary plf.board.masterHart ∧
      (plf.secondaryStep s t).mailbox plf.board.masterHart =
        s.mailbox plf.board.masterHart ∧
      (plf.secondaryStep s t).master = s.master := by
  rw [secondaryStep_stage hreceive hstage]
  exact ⟨Function.update_of_ne hslot.symm .., Function.update_of_ne hslot.symm .., rfl⟩

/-- Every slot is at some stage, those without a hart as well. -/
theorem Running.exists_stage (h : Running plf s) (hslot : t ≠ plf.board.masterHart) :
    ∃ k st, AtStage plf s k t st := by
  by_cases hactive : ∃ k, 1 ≤ k ∧ s.harts[k]? = some ⟨t, true⟩
  · obtain ⟨k, hk, ht⟩ := hactive
    obtain ⟨st, -, hstage, -⟩ := h.numbered k t hk ht
    exact ⟨k, st, hstage⟩
  · simp only [not_exists, not_and] at hactive
    obtain ⟨st, -, hstage⟩ := h.others t hslot hactive
    exact ⟨0, st, hstage⟩

/-- Every slot is at a stage. -/
theorem BootInv.exists_stage (h : BootInv plf s) (hslot : t ≠ plf.board.masterHart) :
    ∃ k st, AtStage plf s k t st := by
  cases hprobed : s.master.probed with
  | none => exact (h.running hprobed).exists_stage hslot
  | some probed =>
    obtain ⟨st, hstage, -⟩ := (h.scanning probed hprobed).1.slots t hslot
    exact ⟨0, st, hstage⟩

/-- **A secondary hart keeps the invariant**, before the table is there and after, if it is not the
master's own slot. -/
theorem bootInv_secondary (hreceive : plf.Delivers) (hnum : plf.board.smpHartNum ≤ 2 ^ 32)
    (hpresent : plf.present t = true) (hslot : t ≠ plf.board.masterHart) (h : BootInv plf s) :
    BootInv plf (plf.secondaryStep s t) := by
  obtain ⟨k, st, hstage⟩ := h.exists_stage hslot
  obtain ⟨hsecondary, hmailbox, hmaster⟩ := secondaryStep_masterHart hslot hreceive hstage
  refine ⟨hsecondary.trans h.halted, hmaster ▸ h.past, fun probed hprobed => ?_,
    fun hprobed => ?_⟩
  · obtain ⟨hscan, hmail⟩ := h.scanning probed (hmaster ▸ hprobed)
    refine ⟨hscan.secondary hreceive hslot hpresent, ?_⟩
    rw [hmailbox, hmaster, hmail]
  · exact (h.running (hmaster ▸ hprobed)).secondary hreceive hnum hslot

/-- **The invariant is preserved** by each step of any hart, in whatever order they come. -/
theorem bootInv_step (hreceive : plf.Delivers) (hnum : plf.board.smpHartNum ≤ 2 ^ 32)
    (h : BootInv plf s) (e : BootEvent) : BootInv plf (plf.step s e) := by
  cases e with
  | master => exact bootInv_master h
  | secondary t =>
    rw [BootPlf.step]
    split_ifs with hrun
    · obtain ⟨hpresent, hslot⟩ := Bool.and_eq_true_iff.mp hrun
      exact bootInv_secondary hreceive hnum hpresent (bne_iff_ne.mp hslot) h
    · exact h

/-- It holds at the reset, whatever is in memory. -/
theorem bootInv_init (memory : U64 → ℕ) : BootInv plf (.init memory) := by
  refine .of_scanning rfl rfl ⟨fun t _ => ?_, fun t _ hactive => ?_, rfl, rfl⟩ rfl
  · refine ⟨.fresh, ⟨rfl, rfl⟩, List.mem_cons_self .., ?_, nofun⟩
    exact iff_of_true rfl (Nat.zero_le t)
  · cases hactive

end Table

/-! ## Safety -/

/-- The `hls_t` that a hart uses. -/
def SecondaryPc.hls : SecondaryPc → Option U64
  | halted => none
  | waitSetup => none
  | setup hls => some hls
  | waitStart hls => some hls
  | start hls => some hls
  | gate hls => some hls
  | entered hls => some hls

/-- It initialises its storage, or itself. -/
def SecondaryPc.Initialises : SecondaryPc → Prop
  | setup _ => True
  | start _ => True
  | _ => False

/-- `init_smp` has returned. -/
def MasterPc.SmpDone : MasterPc → Prop
  | monitor => True
  | start _ => True
  | startWait _ => True
  | platform => True
  | openGate => True
  | entered => True
  | _ => False

/-- `init_slaves` has returned. -/
def MasterPc.SlavesDone : MasterPc → Prop
  | platform => True
  | openGate => True
  | entered => True
  | _ => False

/-- The slot that the next step of the master hart posts a word to. -/
def BootPlf.posting (plf : BootPlf) (s : Boot) : Option ℕ :=
  match s.master with
  | .probe slotn => if slotn < plf.board.numSlots then some slotn else none
  | .setup hartn => (s.harts[hartn]?.filter Hls.active).map Hls.ipiN
  | .start hartn => (s.harts[hartn]?.filter Hls.active).map Hls.ipiN
  | _ => none

/-- What holds at any time of the start-up. -/
structure BootGood (plf : BootPlf) (s : Boot) : Prop where
  /-- The table of the harts is made of the slots that have a hart. -/
  table : s.harts = [] ∨ ∃ slotActive : ℕ → Bool,
    (∀ t, slotActive t = true → t ≠ plf.board.masterHart → plf.present t = true) ∧
      SmpBoard.initSmp { plf.board with slotActive := slotActive } = some s.harts
  /-- No word is lost. -/
  mailbox_free : ∀ t, plf.posting s = some t → s.mailbox t = none
  /-- A hart has the storage of the number of its slot. -/
  storage : ∀ t hls, (s.secondary t).hls = some hls →
    ∃ k, 1 ≤ k ∧ s.harts[k]? = some ⟨t, true⟩ ∧ hls = plf.hlsOf k
  /-- One hart at a time is initialised. -/
  alone : ∀ t t', (s.secondary t).Initialises → (s.secondary t').Initialises → t = t'
  /-- All active harts are set up when `init_smp` returns, -/
  setup : s.master.SmpDone → ∀ k t, 1 ≤ k → s.harts[k]? = some ⟨t, true⟩ →
    s.state (plf.hlsOf k) = sbiHsmStateStartPending ∨ s.state (plf.hlsOf k) = sbiHsmStateStart
  /-- and started when `init_slaves` does. -/
  started : s.master.SlavesDone → ∀ k t, 1 ≤ k → s.harts[k]? = some ⟨t, true⟩ →
    s.state (plf.hlsOf k) = sbiHsmStateStart
  /-- They reach `enter_entry_point` when the master hart has opened the gate. -/
  entered : ∀ t hls, s.secondary t = .entered hls → s.master = .entered

section Good

variable {plf : BootPlf} {s : Boot} {t : ℕ}

/-- A quiet hart uses no storage. -/
theorem SlotStage.Quiet.hls_eq {st : SlotStage} {k : ℕ} (hquiet : st.Quiet) :
    (st.pc plf k).hls = none ∧ ¬ (st.pc plf k).Initialises := by
  simp only [SlotStage.Quiet, List.mem_cons, List.not_mem_nil, or_false] at hquiet
  obtain rfl | rfl | rfl | rfl := hquiet
  all_goals exact ⟨rfl, id⟩

/-- While `init_smp` looks for harts, none of them is set up. -/
theorem BootInv.quiet {probed : ℕ} (h : BootInv plf s) (hprobed : s.master.probed = some probed)
    (t : ℕ) : (s.secondary t).hls = none ∧ ¬ (s.secondary t).Initialises := by
  by_cases hslot : t = plf.board.masterHart
  · rw [hslot, h.halted]
    exact ⟨rfl, id⟩
  · obtain ⟨st, hstage, hquiet, -⟩ := (h.scanning probed hprobed).1.slots t hslot
    rw [hstage.pc]
    exact hquiet.hls_eq

/-- A hart uses the storage of its own number only. -/
theorem SlotStage.hls_pc {st : SlotStage} {k : ℕ} {hls : U64} (h : (st.pc plf k).hls = some hls) :
    hls = plf.hlsOf k := by
  cases st <;> cases h <;> rfl

/-- A hart that is set up is one of the table. -/
theorem Running.numbered_of_hls (h : Running plf s)
    (hhalted : s.secondary plf.board.masterHart = .halted) {hls : U64}
    (hhls : (s.secondary t).hls = some hls) :
    ∃ k, 1 ≤ k ∧ s.harts[k]? = some ⟨t, true⟩ ∧ hls = plf.hlsOf k := by
  by_cases hactive : ∃ k, 1 ≤ k ∧ s.harts[k]? = some ⟨t, true⟩
  · obtain ⟨k, hk, ht⟩ := hactive
    obtain ⟨st, -, hstage, -⟩ := h.numbered k t hk ht
    rw [hstage.pc] at hhls
    exact ⟨k, hk, ht, SlotStage.hls_pc hhls⟩
  · simp only [not_exists, not_and] at hactive
    have hslot : t ≠ plf.board.masterHart := by
      rintro rfl
      rw [hhalted] at hhls
      cases hhls
    obtain ⟨st, hquiet, hstage⟩ := h.others t hslot hactive
    rw [hstage.pc, hquiet.hls_eq.1] at hhls
    cases hhls

/-- The hart that the master hart is waiting for. -/
def MasterPc.waited : MasterPc → Option ℕ
  | setupWait i => some i
  | startWait i => some i
  | _ => none

/-- What initialises, has a storage to initialise. -/
theorem SecondaryPc.Initialises.hls {pc : SecondaryPc} (h : pc.Initialises) :
    ∃ hls, pc.hls = some hls := by
  cases pc with
  | setup hls => exact ⟨hls, rfl⟩
  | start hls => exact ⟨hls, rfl⟩
  | _ => exact h.elim

/-- It is setting up or starting. -/
theorem SlotStage.eq_of_initialises {st : SlotStage} {k : ℕ} (h : (st.pc plf k).Initialises) :
    st = .settingUp ∨ st = .starting := by
  cases st with
  | settingUp => exact .inl rfl
  | starting => exact .inr rfl
  | _ => exact h.elim

/-- Only the hart that the master hart waits for is at a stage where it is initialised. So no two
harts are in there at the same time. -/
theorem MasterPc.waited_of_initialises {pc : MasterPc} {k : ℕ} {st : SlotStage}
    (hst : st ∈ pc.expects k) (hinit : (st.pc plf k).Initialises) : pc.waited = some k := by
  have hmem : SlotStage.settingUp ∈ pc.expects k ∨ SlotStage.starting ∈ pc.expects k := by
    obtain rfl | rfl := SlotStage.eq_of_initialises hinit
    · exact .inl hst
    · exact .inr hst
  cases pc with
  | setup i =>
    simp only [MasterPc.expects] at hmem
    split_ifs at hmem <;> simp at hmem
  | setupWait i =>
    simp only [MasterPc.expects] at hmem
    split_ifs at hmem with hlt heq
    · simp at hmem
    · rw [heq]
      rfl
    · simp at hmem
  | start i =>
    simp only [MasterPc.expects] at hmem
    split_ifs at hmem <;> simp at hmem
  | startWait i =>
    simp only [MasterPc.expects] at hmem
    split_ifs at hmem with hlt heq
    · simp at hmem
    · rw [heq]
      rfl
    · simp at hmem
  | _ => simp [MasterPc.expects] at hmem

/-- After `init_smp` all active harts wait to be started, or have been. By cases of the place of the
master hart, and of the stages that it expects there. -/
theorem MasterPc.state_of_smpDone {pc : MasterPc} {k : ℕ} {st : SlotStage}
    (hst : st ∈ pc.expects k) (hdone : pc.SmpDone) :
    st.state = sbiHsmStateStartPending ∨ st.state = sbiHsmStateStart := by
  have hmem : st ∈ [SlotStage.pending, .startPosted, .starting, .gate, .entered] := by
    cases pc with
    | monitor =>
      rw [List.mem_singleton.mp hst]
      exact List.mem_cons_self ..
    | start i =>
      simp only [MasterPc.expects] at hst
      split_ifs at hst <;> rw [List.mem_singleton.mp hst] <;> simp
    | startWait i =>
      simp only [MasterPc.expects] at hst
      split_ifs at hst <;> simp only [List.mem_cons, List.not_mem_nil, or_false] at hst ⊢
      · exact .inr (.inr (.inr (.inl hst)))
      · obtain rfl | rfl | rfl := hst
        · exact .inr (.inl rfl)
        · exact .inr (.inr (.inl rfl))
        · exact .inr (.inr (.inr (.inl rfl)))
      · exact .inl hst
    | platform =>
      rw [List.mem_singleton.mp hst]
      simp
    | openGate =>
      rw [List.mem_singleton.mp hst]
      simp
    | entered =>
      simp only [MasterPc.expects, List.mem_cons, List.not_mem_nil, or_false] at hst ⊢
      exact .inr (.inr (.inr hst))
    | _ => exact hdone.elim
  simp only [List.mem_cons, List.not_mem_nil, or_false] at hmem
  obtain rfl | rfl | rfl | rfl | rfl := hmem
  · exact .inl rfl
  · exact .inl rfl
  · exact .inl rfl
  · exact .inr rfl
  · exact .inr rfl

/-- After `init_slaves` they have been started. -/
theorem MasterPc.state_of_slavesDone {pc : MasterPc} {k : ℕ} {st : SlotStage}
    (hst : st ∈ pc.expects k) (hdone : pc.SlavesDone) : st.state = sbiHsmStateStart := by
  cases pc with
  | platform => rw [List.mem_singleton.mp hst]; rfl
  | openGate => rw [List.mem_singleton.mp hst]; rfl
  | entered =>
    simp only [MasterPc.expects, List.mem_cons, List.not_mem_nil, or_false] at hst
    obtain rfl | rfl := hst
    all_goals rfl
  | _ => exact hdone.elim

/-- No hart enters the kernel before the master hart has. -/
theorem MasterPc.eq_entered {pc : MasterPc} {k : ℕ} (hst : SlotStage.entered ∈ pc.expects k) :
    pc = .entered := by
  cases pc <;> simp only [MasterPc.expects] at hst
  all_goals first
    | rfl
    | (split_ifs at hst <;> simp at hst)
    | simp at hst

/-- A word for a hart of the table finds its mailbox free: the stage that is expected is one with
nothing in it. -/
theorem Running.mailbox_free {i : ℕ} (st : SlotStage) (h : Running plf s) (hi : 1 ≤ i)
    (hexpects : s.master.expects i = [st]) (hst : st.mailbox plf i = none)
    (hpost : (s.harts[i]?.filter Hls.active).map Hls.ipiN = some t) : s.mailbox t = none := by
  obtain ⟨⟨ipiN, active⟩, hget, heq⟩ := Option.map_eq_some_iff.mp hpost
  obtain ⟨hget, hactive⟩ := Option.filter_eq_some_iff.mp hget
  cases heq
  obtain rfl : active = true := hactive
  obtain ⟨st', hst', hstage, -⟩ := h.numbered i _ hi hget
  rw [hexpects, List.mem_singleton] at hst'
  rw [hstage.mailbox, hst', hst]

/-- Where the master hart posts a word, the mailbox is empty, so that no word is lost. -/
theorem BootInv.mailbox_free (h : BootInv plf s) (hpost : plf.posting s = some t) :
    s.mailbox t = none := by
  have hpast := h.past
  cases hpc : s.master with
  | probe slotn =>
    simp only [BootPlf.posting, hpc] at hpost
    split_ifs at hpost
    cases hpost
    obtain ⟨hscan, hmail⟩ := h.scanning t (congrArg MasterPc.probed hpc)
    by_cases hslot : t = plf.board.masterHart
    · have hfree : (s.mailbox plf.board.masterHart).isSome = false :=
      hmail.trans (by rw [hpc]; rfl)
      rw [← hslot] at hfree
      exact Option.isNone_iff_eq_none.mp (Option.isSome_eq_false_iff.mp hfree)
    · obtain ⟨st, hstage, -, hfresh, -⟩ := hscan.slots t hslot
      rw [hstage.mailbox, hfresh.mpr (le_refl t)]
      rfl
  | setup i =>
    rw [hpc] at hpast
    simp only [BootPlf.posting, hpc] at hpost
    refine (h.running (congrArg MasterPc.probed hpc)).mailbox_free .idle hpast ?_ rfl hpost
    rw [hpc, MasterPc.expects, if_neg (lt_irrefl i)]
  | start i =>
    rw [hpc] at hpast
    simp only [BootPlf.posting, hpc] at hpost
    refine (h.running (congrArg MasterPc.probed hpc)).mailbox_free .pending hpast ?_ rfl
      hpost
    rw [hpc, MasterPc.expects, if_neg (lt_irrefl i)]
  | _ =>
    simp only [BootPlf.posting, hpc] at hpost
    cases hpost

/-- What the invariant says about a state. Each part is read off the stages that the place of the
master hart allows. -/
theorem BootInv.good (h : BootInv plf s) : BootGood plf s := by
  cases hprobed : s.master.probed with
  | some probed =>
    have hharts : s.harts = [] := (h.scanning probed hprobed).1.harts
    have hno : ∀ (k t : ℕ), s.harts[k]? ≠ some (Hls.mk t true) := by
      intro k t ht
      rw [hharts] at ht
      cases ht
    refine ⟨.inl hharts, fun t => h.mailbox_free, fun t hls hhls => ?_, fun t t' ht => ?_,
      fun _ k t _ ht => absurd ht (hno k t), fun _ k t _ ht => absurd ht (hno k t),
      fun t hls hpc => ?_⟩
    · rw [(h.quiet hprobed t).1] at hhls
      cases hhls
    · exact absurd ht (h.quiet hprobed t).2
    · have hhls := (h.quiet hprobed t).1
      rw [hpc] at hhls
      cases hhls
  | none =>
    have hrun := h.running hprobed
    have hstage : ∀ t hls, (s.secondary t).hls = some hls → ∃ k, s.harts[k]? = some ⟨t, true⟩ ∧
        ∃ st ∈ s.master.expects k, s.secondary t = st.pc plf k := by
      intro t hls hhls
      obtain ⟨k, hk, ht, -⟩ := hrun.numbered_of_hls h.halted hhls
      obtain ⟨st, hst, hstage, -⟩ := hrun.numbered k t hk ht
      exact ⟨k, ht, st, hst, hstage.pc⟩
    have hwaited : ∀ t, (s.secondary t).Initialises →
        ∃ k, s.harts[k]? = some ⟨t, true⟩ ∧ s.master.waited = some k := by
      intro t hinit
      obtain ⟨hls, hhls⟩ := hinit.hls
      obtain ⟨k, ht, st, hst, hpc⟩ := hstage t hls hhls
      rw [hpc] at hinit
      exact ⟨k, ht, MasterPc.waited_of_initialises hst hinit⟩
    refine ⟨hrun.table, fun t => h.mailbox_free, fun t hls => hrun.numbered_of_hls h.halted,
      fun t t' hinit hinit' => ?_, fun hdone k t hk ht => ?_, fun hdone k t hk ht => ?_,
      fun t hls hpc => ?_⟩
    · obtain ⟨k, ht, hk⟩ := hwaited t hinit
      obtain ⟨k', ht', hk'⟩ := hwaited t' hinit'
      obtain rfl := Option.some.inj (hk.symm.trans hk')
      cases ht.symm.trans ht'
      rfl
    · obtain ⟨st, hst, -, hstate⟩ := hrun.numbered k t hk ht
      rw [hstate]
      exact MasterPc.state_of_smpDone hst hdone
    · obtain ⟨st, hst, -, hstate⟩ := hrun.numbered k t hk ht
      rw [hstate]
      exact MasterPc.state_of_slavesDone hst hdone
    · obtain ⟨k, -, st, hst, heq⟩ := hstage t hls (by rw [hpc]; rfl)
      rw [hpc] at heq
      cases st with
      | entered => exact MasterPc.eq_entered hst
      | _ => cases heq

/-- **The start-up is safe**, in every order of the steps of the harts: no word is lost, a hart uses
the storage of its own number, one at a time is initialised, and none enters before all have been
set up and started and the master hart has opened the gate. -/
theorem boot_safe (plf : BootPlf) (hreceive : plf.Delivers)
    (hnum : plf.board.smpHartNum ≤ 2 ^ 32) (memory : U64 → ℕ) (l : List BootEvent) :
    BootGood plf (run plf.step (.init memory) l) :=
  BootInv.good (run_inv (BootInv plf) (fun _ e h => bootInv_step hreceive hnum h e)
    (bootInv_init memory))

end Good

/-- Three slots, all with a hart, of which slot 1 is that of the master hart. -/
def BootPlf.sample : BootPlf where
  board := ⟨1, 4, 4, 3, fun _ => false⟩
  lay := .sample
  receive := fun word => word <<< scrIpiRecvSrcBits
  present := fun _ => true

theorem delivers_sample : BootPlf.sample.Delivers := by
  intro cmd hcmd data
  have hcmd10 : cmd < 2 ^ 10 := hcmd.trans (by decide)
  refine ⟨?_, ?_⟩
  · have hpacked := HartLayout.packScipiMsg_cmd hcmd10 data
    rw [hpacked]
    refine BitVec.eq_of_getLsbD_eq fun i hi => ?_
    have hbit := congrArg (fun w => BitVec.getLsbD w i) hpacked
    simp only [BitVec.getLsbD_ushiftRight] at hbit
    simp only [BootPlf.sample, BitVec.getLsbD_ushiftRight, BitVec.getLsbD_shiftLeft]
    by_cases hlow : i < 6
    · have hin : scrIpiRecvCshift + i < 64 := by
        rw [scrIpiRecvCshift]
        omega
      have hsub : scrIpiRecvCshift + i - scrIpiRecvSrcBits = scrIpiDataBits + i := by
        rw [scrIpiRecvCshift, scrIpiRecvSrcBits, scrIpiDataBits]
        omega
      have hge : ¬ scrIpiRecvCshift + i < scrIpiRecvSrcBits := by
        rw [scrIpiRecvCshift, scrIpiRecvSrcBits]
        omega
      rw [hsub, hbit, decide_eq_true hin, decide_eq_false hge]
      rfl
    · have hout : ¬ scrIpiRecvCshift + i < 64 := by
        rw [scrIpiRecvCshift]
        omega
      rw [decide_eq_false hout, BitVec.getLsbD_ofNat, Nat.testBit_lt_two_pow]
      · simp
      · exact hcmd.trans_le (Nat.pow_le_pow_right (by decide) (by omega))
  · rw [extractScipiMsgData]
    refine BitVec.eq_of_getLsbD_eq fun i hi => ?_
    simp only [BootPlf.sample, BitVec.getLsbD_and, BitVec.getLsbD_ushiftRight,
      BitVec.getLsbD_shiftLeft, Words.getLsbD_lowMask, Nat.add_sub_cancel_left]
    by_cases hdata : i < scrIpiDataBits
    · have hin : scrIpiRecvSrcBits + i < 64 := by
        rw [scrIpiDataBits] at hdata
        rw [scrIpiRecvSrcBits]
        omega
      simp [hin]
    · simp [hdata]

theorem boot_safe_sample : BootGood .sample (run BootPlf.sample.step (.init fun _ => 0)
    [.master, .master, .secondary 0, .master, .secondary 0, .master]) :=
  boot_safe .sample delivers_sample (by decide) _ _

end ScBl
