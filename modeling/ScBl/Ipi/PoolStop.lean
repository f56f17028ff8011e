import ScBl.Ipi.PoolSafe

/-!
# Harts that stop, and the message pool (`mtrap.c`, `HART_STOP`)

A hart that stops takes itself out of `harts_online`, tells the master hart by a
message, masks its interrupts and waits to be reset: what is in its mailbox then
stays there, and so do the references to the slots. Senders sample
`harts_online` before they allocate. No slot is lost in the runs where nothing
is left for a hart that stops (`no_slot_leak`).
-/

namespace ScBl

open RefCount Runs

variable {n : ℕ}

/-! ## The code -/

/-- How far `HART_STOP` is on a hart. -/
inductive StopStage (n : ℕ)
  | running
  /-- `harts_online &= ~ (1 << logical_hart())`, with the mask loaded -/
  | loaded (harts : Fin n → Bool)
  /-- `hsm_send_ipi_stop` -/
  | sending
  /-- `plf_local_cpu_deactivation_prepare`: in `wfi`, all interrupts masked -/
  | stopped

def StopStage.isStopped : StopStage n → Bool
  | .stopped => true
  | _ => false

/-- The pool, with harts that stop. -/
structure StopPool (n : ℕ) where
  pool : Pool n
  /-- `harts_online` -/
  online : Fin n → Bool
  stage : Fin n → StopStage n

inductive StopEvent (n : ℕ)
  /-- A step of the pool; calls are remote fences, their masks those of the caller. -/
  | pool (e : PoolEvent n)
  /-- `HART_STOP` loads `harts_online`. -/
  | load (h : Fin n)
  /-- It stores the mask, and allocates a message with these words. -/
  | store (h : Fin n) (writes : MsgWrites)
  /-- It has freed the message, and reaches `wfi`. -/
  | wfi (h : Fin n)

/-- `TLB_FLUSH_THRESHOLD` -/
def tlbFlushThreshold : U64 := 4 * 4096

/-- The words that `mcall_sfence_vma` writes into its message. -/
def sfenceVmaWrites (handler addr size : U64) : MsgWrites :=
  [(.handlerMsg, handler), (.payload 0, addr),
    (.payload 1, if size > tlbFlushThreshold then -1 else size)]

/-- Those of `mcall_sfence_vma_asid`. -/
def sfenceVmaAsidWrites (handler addr size asid : U64) : MsgWrites :=
  sfenceVmaWrites handler addr size ++ [(.payload 2, asid)]

/-- Those of `hsm_send_ipi_stop`; the callback finds the number of the core in
`payload.hsm.priv`. -/
def hsmStopWrites (handler mhartid : U64) : MsgWrites :=
  [(.handlerMsg, handler), (.payload 1, mhartid)]

/-- The hart is at no call, and executes no handler. -/
def PoolHart.atRest (l : PoolHart n) : Bool :=
  match l.pc, l.running with
  | .idle, none => true
  | _, _ => false

namespace StopPool

/-- `actual_mask` -/
def actualMask (s : StopPool n) (mask : Fin n → Bool) (t : Fin n) : Bool := mask t && s.online t

/-- A step; actions that are not possible where the hart is change nothing. The
hart that cannot stop is the master, logical hart 0; the message of the others
goes to the logical hart of the number `masterHart` (`PLF_MASTER_HART`). -/
def step (masterHart : ℕ) (s : StopPool n) : StopEvent n → StopPool n
  | .pool e =>
    match s.stage e.hart, e.action with
    | .stopped, _ => s
    | _, .go busy => { s with pool := s.pool.step ⟨e.hart, .go busy⟩ }
    | .running, .interrupt => { s with pool := s.pool.step ⟨e.hart, .interrupt⟩ }
    | .running, .call writes mask =>
      { s with pool := s.pool.step ⟨e.hart, .call writes (s.actualMask mask)⟩ }
    | .running, .signal cmd mask =>
      { s with pool := s.pool.step ⟨e.hart, .signal cmd (s.actualMask mask)⟩ }
    | _, _ => s
  | .load h =>
    match s.stage h with
    | .running =>
      if h.val ≠ 0 ∧ (s.pool.hart h).atRest then
        { s with stage := Function.update s.stage h (.loaded s.online) }
      else s
    | _ => s
  | .store h writes =>
    match s.stage h with
    | .loaded harts =>
      { pool := s.pool.step ⟨h, .call writes fun t => decide (t.val = masterHart)⟩
        online := fun t => harts t && decide (t ≠ h)
        stage := Function.update s.stage h .sending }
    | _ => s
  | .wfi h =>
    match s.stage h with
    | .sending =>
      if (s.pool.hart h).atRest then { s with stage := Function.update s.stage h .stopped } else s
    | _ => s

/-- Boot, with the harts that are online. -/
def init (body : MsgSlot → MsgField → U64) (online : Fin n → Bool) : StopPool n where
  pool := Pool.init body
  online := online
  stage := fun _ => .running

end StopPool

/-! ## What a slot leaks to -/

instance (pc : PoolPc n) : Decidable (pc = .idle) :=
  match pc with
  | .idle => isTrue rfl
  | .allocRead .. | .allocAdd .. | .allocUndo .. | .allocPoll .. | .fill .. => isFalse nofun
  | .sendSelf .. | .sendRun .. | .sendWait .. | .sendPoll .. | .sendCheck .. => isFalse nofun
  | .sendCount .. | .sendPost .. | .free .. => isFalse nofun

/-- A message is still to be sent to hart `t`. -/
def PoolPc.aims (t : Fin n) : PoolPc n → Bool
  | .idle => false
  | .allocRead _ _ mask => mask t
  | .allocAdd _ _ mask => mask t
  | .allocUndo _ _ mask => mask t
  | .allocPoll _ mask => mask t
  | .fill _ _ mask => mask t
  | .sendSelf cmd mask => cmd.slot.isSome && mask t
  | .sendRun cmd mask => cmd.slot.isSome && mask t
  | .sendWait cmd u todo => cmd.slot.isSome && decide (t ∈ u :: todo)
  | .sendPoll cmd u todo => cmd.slot.isSome && decide (t ∈ u :: todo)
  | .sendCheck cmd u todo => cmd.slot.isSome && decide (t ∈ u :: todo)
  | .sendCount cmd u todo => cmd.slot.isSome && decide (t ∈ u :: todo)
  | .sendPost cmd u todo => cmd.slot.isSome && decide (t ∈ u :: todo)
  | .free _ => false

namespace StopPool

/-- All senders have returned, and every hart that is running has drained its
mailbox. -/
structure Quiescent (s : StopPool n) : Prop where
  returned : ∀ h, (s.pool.hart h).pc = .idle
  drained : ∀ h, (s.stage h).isStopped = false →
    (s.pool.hart h).mailbox = [] ∧ (s.pool.hart h).running = none

/-- The steps that leave nothing for a hart that stops: a hart reaches `wfi` when
its mailbox has no message and no sender aims at it, and no call, the one of
`HART_STOP` included, sends to a hart that has stopped. -/
def LeavesNothing (masterHart : ℕ) (s : StopPool n) : StopEvent n → Prop
  | .pool ⟨_, .call _ mask⟩ => ∀ t, s.actualMask mask t = true → (s.stage t).isStopped = false
  | .store _ _ => ∀ t : Fin n, t.val = masterHart → (s.stage t).isStopped = false
  | .wfi h => (∀ i, .msg i ∉ (s.pool.hart h).mailbox) ∧ ∀ k, (s.pool.hart k).pc.aims h = false
  | _ => True

instance (masterHart : ℕ) (s : StopPool n) (e : StopEvent n) :
    Decidable (s.LeavesNothing masterHart e) :=
  match e with
  | .pool ⟨_, .call _ _⟩ => inferInstanceAs (Decidable (∀ _ : Fin n, _ → _))
  | .pool ⟨_, .signal _ _⟩ => inferInstanceAs (Decidable True)
  | .pool ⟨_, .interrupt⟩ => inferInstanceAs (Decidable True)
  | .pool ⟨_, .go _⟩ => inferInstanceAs (Decidable True)
  | .load _ => inferInstanceAs (Decidable True)
  | .store _ _ => inferInstanceAs (Decidable (∀ _ : Fin n, _ → _))
  | .wfi _ => inferInstanceAs (Decidable ((∀ _ : MsgSlot, ¬ _) ∧ ∀ _ : Fin n, _ = _))

end StopPool

/-! ## Steps of the pool -/

section Pool

variable {s : Pool n} {h k t : Fin n} {cmd : IpiCmd} {i : MsgSlot}

theorem aims_allocNext {writes : MsgWrites} {mask : Fin n → Bool} :
    (allocNext i writes mask).aims t = mask t := by
  rw [allocNext]
  split_ifs <;> rfl

theorem aims_sendNext {todo : List (Fin n)} (haims : (sendNext cmd todo).aims t = true) :
    cmd.slot.isSome = true ∧ t ∈ todo := by
  cases todo with
  | nil => cases cmd <;> cases haims
  | cons u todo => simpa [sendNext, PoolPc.aims] using haims

theorem mem_sendTargets {mask : Fin n → Bool} (hmem : t ∈ sendTargets h mask) : mask t = true :=
  (Bool.and_eq_true_iff.mp (List.mem_filter.mp hmem).2).1

/-- On its way, a sender aims at no hart that it has not aimed at before: the targets are those of
the mask, less those it has come past. -/
theorem go_aims (busy : Bool) (haims : ((s.go h busy).hart k).pc.aims t = true) :
    (s.hart k).pc.aims t = true := by
  by_cases hk : k = h
  · subst hk
    rw [Pool.go] at haims
    rcases hpc : (s.hart k).pc with _ | ⟨i, writes, mask⟩ | ⟨i, writes, mask⟩ | ⟨i, writes, mask⟩ |
      ⟨writes, mask⟩ | ⟨i, _ | ⟨w, writes⟩, mask⟩ | ⟨cmd, mask⟩ | ⟨cmd, mask⟩ | ⟨cmd, u, todo⟩ |
      ⟨cmd, u, todo⟩ | ⟨cmd, u, todo⟩ | ⟨cmd, u, todo⟩ | ⟨cmd, u, todo⟩ | i <;>
      simp only [hpc, setHart_hart_self, post_pc, receive_pc, aims_allocNext] at haims
    · -- idle
      cases haims
    · -- allocRead
      split_ifs at haims
      · simpa [PoolPc.aims] using haims
      · rw [setHart_hart_self] at haims
        exact aims_allocNext.symm.trans haims
    · -- allocAdd
      split_ifs at haims <;> simpa [PoolPc.aims] using haims
    · exact haims
    · exact haims
    · simpa [PoolPc.aims, IpiCmd.slot] using haims
    · simpa [PoolPc.aims] using haims
    · -- sendSelf
      split_ifs at haims
      · cases cmd with
        | msg i => simpa [PoolPc.aims, IpiCmd.slot] using haims
        | signal => simp [PoolPc.aims, IpiCmd.slot] at haims
        | fenceI => simp [PoolPc.aims, IpiCmd.slot] at haims
      · obtain ⟨hslot, hmem⟩ := aims_sendNext (by simpa using haims)
        simp [PoolPc.aims, hslot, mem_sendTargets hmem]
    · -- sendRun
      obtain ⟨hslot, hmem⟩ := aims_sendNext haims
      simp [PoolPc.aims, hslot, mem_sendTargets hmem]
    · -- sendWait
      split_ifs at haims <;> simpa [PoolPc.aims] using haims
    · exact haims
    · -- sendCheck
      split_ifs at haims
      · obtain ⟨hslot, hmem⟩ := aims_sendNext (by simpa using haims)
        simp [PoolPc.aims, hslot, hmem]
      · simpa [PoolPc.aims] using haims
    · -- sendCount
      cases cmd with
      | msg i => simpa [PoolPc.aims, IpiCmd.slot] using haims
      | signal => simp [PoolPc.aims, IpiCmd.slot] at haims
      | fenceI => simp [PoolPc.aims, IpiCmd.slot] at haims
    · -- sendPost
      obtain ⟨hslot, hmem⟩ := aims_sendNext haims
      simp [PoolPc.aims, hslot, hmem]
    · cases haims
  · rwa [go_pc_of_ne s hk] at haims

/-- An action leaves the handlers of the other harts alone, and posts a message
only where its sender aims. -/
theorem go_other (busy : Bool) (hk : k ≠ h) :
    ((s.go h busy).hart k).running = (s.hart k).running ∧
      (.msg i ∈ ((s.go h busy).hart k).mailbox →
        .msg i ∈ (s.hart k).mailbox ∨ (s.hart h).pc.aims k = true) := by
  have hother : ∀ (s' : Pool n) (l : PoolHart n), s'.hart = s.hart →
      (s'.setHart h l).hart k = s.hart k := fun s' l hs' => by
    rw [setHart_hart_of_ne s' l hk, hs']
  have hsame : ∀ l : PoolHart n, l = s.hart k → l.running = (s.hart k).running ∧
      (.msg i ∈ l.mailbox → .msg i ∈ (s.hart k).mailbox ∨ (s.hart h).pc.aims k = true) := by
    rintro l rfl
    exact ⟨rfl, .inl⟩
  cases hpc : (s.hart h).pc
  case sendPost cmd u todo =>
    simp only [Pool.go, hpc, Pool.post]
    by_cases hku : k = u
    · subst hku
      rw [setHart_hart_self, setHart_hart_of_ne _ _ hk]
      refine ⟨rfl, fun hmem => ?_⟩
      rcases List.mem_append.mp hmem with hmem | hmem
      · exact .inl hmem
      · rw [← List.mem_singleton.mp hmem]
        exact .inr (by simp [PoolPc.aims, IpiCmd.slot])
    · rw [setHart_hart_of_ne _ _ hku, setHart_hart_of_ne _ _ hk]
      exact ⟨rfl, .inl⟩
  case idle =>
    simp only [Pool.go, hpc]
    exact ⟨trivial, .inl⟩
  case fill i writes mask =>
    rw [hpc] at hsame
    cases writes <;> simp only [Pool.go, hpc] <;> exact hsame _ (hother _ _ rfl)
  all_goals
    rw [hpc] at hsame
    simp only [Pool.go, hpc]
    repeat' split
    all_goals exact hsame _ (hother _ _ rfl)

/-- Hart `t` has no message, executes no handler, and no sender aims at it. -/
structure Pool.Abandoned (s : Pool n) (t : Fin n) : Prop where
  running : (s.hart t).running = none
  empty : ∀ i, .msg i ∉ (s.hart t).mailbox
  spared : ∀ k, (s.hart k).pc.aims t = false

/-- Another hart changes, and does not aim at hart `t`. -/
theorem Pool.Abandoned.setHart (hs : s.Abandoned t) (ht : t ≠ h) (s' : Pool n)
    (hsame : s'.hart = s.hart) {l : PoolHart n} (haims : l.pc.aims t = false) :
    (s'.setHart h l).Abandoned t := by
  have hself : (s'.setHart h l).hart t = s.hart t := by rw [setHart_hart_of_ne s' l ht, hsame]
  refine ⟨by rw [hself]; exact hs.running, by rw [hself]; exact hs.empty, fun k => ?_⟩
  by_cases hk : k = h
  · rw [hk, setHart_hart_self]
    exact haims
  · rw [setHart_hart_of_ne s' l hk, hsame]
    exact hs.spared k

theorem Pool.Abandoned.go (hs : s.Abandoned t) (ht : t ≠ h) (busy : Bool) :
    (s.go h busy).Abandoned t := by
  refine ⟨(go_other (i := 0) busy ht).1.trans hs.running, fun i hmem => ?_, fun k => ?_⟩
  · rcases (go_other busy ht).2 hmem with hmem | haims
    · exact hs.empty i hmem
    · rw [hs.spared h] at haims
      cases haims
  · have hspared := hs.spared k
    rw [← Bool.not_eq_true] at hspared ⊢
    exact fun haims => hspared (go_aims busy haims)

/-- A hart that starts a call aims at the harts of its mask. -/
theorem startPc_aims {a : PoolAction n} {pc : PoolPc n} (hpc : a.startPc h = some pc)
    (haims : pc.aims t = true) : ∃ writes mask, a = .call writes mask ∧ mask t = true := by
  cases a with
  | call writes mask =>
    cases hpc
    exact ⟨writes, mask, rfl, haims⟩
  | signal cmd mask =>
    rw [PoolAction.startPc] at hpc
    split_ifs at hpc with hslot
    cases hpc
    simp [PoolPc.aims, hslot] at haims
  | _ => cases hpc

/-- **Other harts leave it alone**, when they start no call that includes it. Calls that were under
way do not aim at it any more. -/
theorem Pool.Abandoned.step (hs : s.Abandoned t) {e : PoolEvent n} (ht : t ≠ e.hart)
    (hcall : ∀ writes mask, e.action = .call writes mask → mask t = false) :
    (s.step e).Abandoned t := by
  obtain ⟨i, hrunning, hstep⟩ | ⟨hrunning, busy, hstep⟩ | ⟨hrunning, hpc, hstep⟩ |
    ⟨hpc, pc, hstart, hstep⟩ | hstep := s.step_cases e
  · rw [hstep]
    exact hs.setHart ht _ (atomicAdd_hart s (-1) i) (hs.spared e.hart)
  · rw [hstep]
    exact hs.go ht busy
  · rw [hstep]
    exact hs.setHart ht s rfl (by rw [receive_pc]; rfl)
  · rw [hstep]
    refine hs.setHart ht s rfl ?_
    rw [← Bool.not_eq_true]
    intro haims
    obtain ⟨writes, mask, haction, hmem⟩ := startPc_aims hstart haims
    rw [hcall writes mask haction] at hmem
    cases hmem
  · rw [hstep]
    exact hs

end Pool

/-! ## Runs -/

namespace StopPool

variable {masterHart : ℕ} {s : StopPool n} {e : StopEvent n}

/-- The counters are exact, and nothing is left for the harts that have stopped. -/
structure Sound (s : StopPool n) : Prop where
  good : ∀ i, (s.pool.tally i).Good
  abandoned : ∀ t, (s.stage t).isStopped = true → s.pool.Abandoned t

/-- A step of the pool by a hart that has not stopped. A call must not name a stopped hart, which
would never release what it gets. -/
theorem Sound.poolStep (hs : s.Sound) {h : Fin n} {a : PoolAction n}
    (hrunning : (s.stage h).isStopped = false)
    (hcall : ∀ writes mask, a = .call writes mask →
      ∀ t, (s.stage t).isStopped = true → mask t = false) :
    ({ s with pool := s.pool.step ⟨h, a⟩ } : StopPool n).Sound := by
  refine ⟨fun i => ?_, fun t ht => ?_⟩
  · exact (s.pool.step_tally _ i).good (hs.good i) (s.pool.tally_nonNeg i) (Pool.tally_nonNeg _ i)
  · have hne : t ≠ h := by
      rintro rfl
      rw [hrunning] at ht
      cases ht
    exact (hs.abandoned t ht).step hne fun writes mask ha => hcall writes mask ha t ht

/-- A hart that gets to another stage, not the last one. -/
theorem Sound.setStage (hs : s.Sound) {h : Fin n} {stage : StopStage n} {online : Fin n → Bool}
    (hstage : stage.isStopped = false) :
    (⟨s.pool, online, Function.update s.stage h stage⟩ : StopPool n).Sound := by
  refine ⟨hs.good, fun t ht => hs.abandoned t ?_⟩
  dsimp only at ht
  by_cases hth : t = h
  · rw [hth, Function.update_self, hstage] at ht
    cases ht
  · rwa [Function.update_of_ne hth] at ht

/-- No hart that has stopped is in the mask of a call. -/
theorem stopped_spared {mask : Fin n → Bool}
    (hmask : ∀ t, mask t = true → (s.stage t).isStopped = false) (t : Fin n)
    (ht : (s.stage t).isStopped = true) : mask t = false := by
  rw [← Bool.not_eq_true]
  intro hmem
  rw [hmask t hmem] at ht
  cases ht

theorem Sound.pool (hs : s.Sound) {e : PoolEvent n} (he : s.LeavesNothing masterHart (.pool e)) :
    (s.step masterHart (.pool e)).Sound := by
  obtain ⟨h, a⟩ := e
  cases hstage : s.stage h with
  | stopped =>
    simp only [StopPool.step, hstage]
    exact hs
  | running =>
    have hrunning : (s.stage h).isStopped = false := by rw [hstage]; rfl
    cases a with
    | call writes mask =>
      simp only [StopPool.step, hstage]
      refine hs.poolStep hrunning fun writes' mask' ha t ht => ?_
      obtain ⟨-, rfl⟩ := PoolAction.call.inj ha
      exact stopped_spared he t ht
    | signal cmd mask =>
      simp only [StopPool.step, hstage]
      exact hs.poolStep hrunning fun _ _ ha => nomatch ha
    | interrupt =>
      simp only [StopPool.step, hstage]
      exact hs.poolStep hrunning fun _ _ ha => nomatch ha
    | go busy =>
      simp only [StopPool.step, hstage]
      exact hs.poolStep hrunning fun _ _ ha => nomatch ha
  | loaded harts =>
    have hrunning : (s.stage h).isStopped = false := by rw [hstage]; rfl
    cases a with
    | go busy =>
      simp only [StopPool.step, hstage]
      exact hs.poolStep hrunning fun _ _ ha => nomatch ha
    | _ =>
      simp only [StopPool.step, hstage]
      exact hs
  | sending =>
    have hrunning : (s.stage h).isStopped = false := by rw [hstage]; rfl
    cases a with
    | go busy =>
      simp only [StopPool.step, hstage]
      exact hs.poolStep hrunning fun _ _ ha => nomatch ha
    | _ =>
      simp only [StopPool.step, hstage]
      exact hs

/-- A hart at rest reaches `wfi`, and nothing is left for it: neither a word in its mailbox nor a
call that still aims at it. -/
theorem Sound.wfi (hs : s.Sound) {h : Fin n} (hrest : (s.pool.hart h).atRest = true)
    (he : s.LeavesNothing masterHart (.wfi h)) :
    ({ s with stage := Function.update s.stage h .stopped } : StopPool n).Sound := by
  refine ⟨hs.good, fun t ht => ?_⟩
  dsimp only at ht ⊢
  by_cases hth : t = h
  · rw [hth]
    refine ⟨?_, he.1, he.2⟩
    rw [PoolHart.atRest] at hrest
    split at hrest
    · assumption
    · cases hrest
  · rw [Function.update_of_ne hth] at ht
    exact hs.abandoned t ht

/-- **One step** leaves every stopped hart abandoned, and every tally in order. By cases of the
event; the condition is needed where a hart is aimed at, or stops. -/
theorem Sound.step (hs : s.Sound) (he : s.LeavesNothing masterHart e) :
    (s.step masterHart e).Sound := by
  cases e with
  | pool e => exact hs.pool he
  | load h =>
    rw [StopPool.step]
    split
    · split_ifs
      · exact hs.setStage rfl
      · exact hs
    · exact hs
  | store h writes =>
    cases hstage : s.stage h with
    | loaded harts =>
      simp only [StopPool.step, hstage]
      have hcall := hs.poolStep (h := h)
        (a := .call writes fun t => decide (t.val = masterHart)) (by rw [hstage]; rfl) <| by
          intro writes' mask' ha t ht
          obtain ⟨-, rfl⟩ := PoolAction.call.inj ha
          exact stopped_spared (fun t ht => he t (of_decide_eq_true ht)) t ht
      exact hcall.setStage rfl
    | _ =>
      simp only [StopPool.step, hstage]
      exact hs
  | wfi h =>
    rw [StopPool.step]
    split
    · split_ifs with hrest
      · exact hs.wfi hrest he
      · exact hs
    · exact hs

theorem init_sound (body : MsgSlot → MsgField → U64) (online : Fin n → Bool) :
    (init body online).Sound :=
  ⟨Pool.init_good body, fun _ ht => nomatch ht⟩

/-! ## No slot leaks -/

/-- Where no message is, there is no reference. -/
theorem refs_eq_zero {l : PoolHart n} {i : MsgSlot} (hpc : l.pc = .idle)
    (hrunning : l.running = none) (hmailbox : .msg i ∉ l.mailbox) : l.refs i = 0 := by
  rw [PoolHart.refs, PoolHart.posted, hpc, hrunning, List.count_eq_zero.mpr hmailbox]
  rfl

/-- A sound state in which everything has come to rest has counted down: what a slot counts is held
by a hart or waits in a mailbox. -/
theorem Sound.cnt_eq_zero (hs : s.Sound) (hq : s.Quiescent) (i : MsgSlot) : s.pool.cnt i = 0 := by
  have howners : total (fun l : PoolHart n => slotIs l.pc.hold.slot i) s.pool.hart = 0 :=
    total_eq_zero_of_forall _ fun h => by rw [hq.returned h]; rfl
  have hlosers : total (fun l : PoolHart n => l.pc.hold.undoes i) s.pool.hart = 0 :=
    total_eq_zero_of_forall _ fun h => by rw [hq.returned h]; rfl
  have hrefs : total (PoolHart.refs (n := n) i) s.pool.hart = 0 := by
    refine total_eq_zero_of_forall _ fun h => ?_
    cases hstage : (s.stage h).isStopped with
    | false =>
      obtain ⟨hempty, hrunning⟩ := hq.drained h hstage
      exact refs_eq_zero (hq.returned h) hrunning (by rw [hempty]; exact List.not_mem_nil)
    | true =>
      have hleft := hs.abandoned h hstage
      exact refs_eq_zero (hq.returned h) hleft.running (hleft.empty i)
  have hcounter := (hs.good i).counter
  simp only [Pool.tally, howners, hlosers, hrefs] at hcounter
  exact hcounter

/-- **No slot leaks to a stopped hart** in the runs that leave nothing for the harts
that stop, for any number of harts and any interleaving. -/
theorem no_slot_leak (masterHart : ℕ) (body : MsgSlot → MsgField → U64) (online : Fin n → Bool)
    (events : List (StopEvent n))
    (hleaves : EachStep (step masterHart) (LeavesNothing masterHart) (init body online) events)
    (hq : (run (step masterHart) (init body online) events).Quiescent) (i : MsgSlot) :
    (run (step masterHart) (init body online) events).pool.cnt i = 0 := by
  have hsound := (EachStep.of_inv (P := fun _ _ => True) Sound
    (fun _ _ hs he => ⟨trivial, hs.step he⟩) (init_sound body online) hleaves).2
  exact hsound.cnt_eq_zero hq i

/-- `k` steps of hart `h` on its way. -/
def goOn (h : Fin n) (k : ℕ) : List (StopEvent n) := List.replicate k (.pool ⟨h, .go false⟩)

/-- Hart `h` takes an interrupt, and executes the handler. -/
def serve (h : Fin n) : List (StopEvent n) := [.pool ⟨h, .interrupt⟩, .pool ⟨h, .go false⟩]

/-- Hart `h` fences hart `t` for a page, `t` serves it, and stops after that; hart `w`
serves the message that `t` posts. -/
def fenceThenStop (w h t : Fin n) : List (StopEvent n) :=
  .pool ⟨h, .call (sfenceVmaAsidWrites 0x80000200#64 0x1000#64 0x1000#64 1#64) fun u => u = t⟩ ::
    goOn h 13 ++ serve t ++ [.load t, .store t (hsmStopWrites 0x80000300#64 2#64)] ++ goOn t 11 ++
    serve w ++ [.wfi t]

/-- Hart `h` has sampled `harts_online` when hart `t` stops, and posts its message
after that. -/
def stopAfterSample (w h t : Fin n) : List (StopEvent n) :=
  .pool ⟨h, .call (sfenceVmaWrites 0x80000200#64 0x1000#64 0x1000#64) fun u => u = t⟩ ::
    goOn h 2 ++ [.load t, .store t (hsmStopWrites 0x80000300#64 2#64)] ++ goOn t 11 ++
    serve w ++ [.wfi t] ++ goOn h 10

/-- After a fence and a stop that does not meet it, the slot of the fence is free. -/
theorem no_slot_leak_fence_then_stop :
    (run (step 0) (init (fun _ _ => 0) fun _ => true) (fenceThenStop (0 : Fin 3) 1 2)).pool.cnt 1
      = 0 :=
  no_slot_leak 0 (fun _ _ => 0) (fun _ => true) (fenceThenStop (0 : Fin 3) 1 2) (by decide +kernel)
    ⟨by decide +kernel, by decide +kernel⟩ 1

/-- A slot leaks when the target stops between the sample and the post. -/
theorem stop_after_sample_leaks :
    ¬ ∀ events : List (StopEvent 3),
      (run (step 0) (init (fun _ _ => 0) fun _ => true) events).Quiescent →
        ∀ i, (run (step 0) (init (fun _ _ => 0) fun _ => true) events).pool.cnt i = 0 := by
  intro hclaim
  have hzero := hclaim (stopAfterSample 0 1 2) ⟨by decide +kernel, by decide +kernel⟩ 1
  revert hzero
  decide +kernel

end StopPool

end ScBl
