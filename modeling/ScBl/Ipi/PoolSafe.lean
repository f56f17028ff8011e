import ScBl.Ipi.Pool

/-!
# Safety of the message pool

Every slot is a reference-counted object of the harts: `shared_cnt` is the tally
of its owner, the references to it that are posted, about to be posted or being
served, and the harts that have to back out of an allocation. Every step of the
harts is a step of these tallies (`Pool.step_tally`). So a slot has one owner,
and its words change only while nobody refers to it (`ipi_pool_safe`).
-/

namespace ScBl

open RefCount Runs

variable {n : ℕ}

/-! ## What a hart holds -/

/-- What a hart has of the slots, by where it is. -/
inductive PoolHold
  /-- The slot of its command, if that has one. `counted` tells that it has
  counted a reference which it is about to post or to serve. -/
  | own (slot : Option MsgSlot) (counted : Bool)
  /-- A slot that it writes. -/
  | fill (i : MsgSlot)
  /-- A slot that it has to back out of. -/
  | undo (i : MsgSlot)

def PoolPc.hold : PoolPc n → PoolHold
  | .idle => .own none false
  | .allocRead _ _ _ => .own none false
  | .allocAdd _ _ _ => .own none false
  | .allocUndo i _ _ => .undo i
  | .allocPoll _ _ => .own none false
  | .fill i _ _ => .fill i
  | .sendSelf cmd _ => .own cmd.slot false
  | .sendRun cmd _ => .own cmd.slot true
  | .sendWait cmd _ _ => .own cmd.slot false
  | .sendPoll cmd _ _ => .own cmd.slot false
  | .sendCheck cmd _ _ => .own cmd.slot false
  | .sendCount cmd _ _ => .own cmd.slot false
  | .sendPost cmd _ _ => .own cmd.slot true
  | .free i => .own (some i) false

/-- 1 for the slot itself. -/
def slotIs (o : Option MsgSlot) (i : MsgSlot) : ℤ := if o = some i then 1 else 0

namespace PoolHold

variable (i : MsgSlot)

/-- The slot that the hart owns. -/
@[simp] def slot : PoolHold → Option MsgSlot
  | own o _ => o
  | fill k => some k
  | undo _ => none

@[simp] def fills : PoolHold → ℤ
  | own _ _ => 0
  | fill k => slotIs (some k) i
  | undo _ => 0

@[simp] def undoes : PoolHold → ℤ
  | own _ _ => 0
  | fill _ => 0
  | undo k => slotIs (some k) i

@[simp] def counts : PoolHold → ℤ
  | own o counted => if counted then slotIs o i else 0
  | fill _ => 0
  | undo _ => 0

end PoolHold

/-- The references to slot `i` that have reached a hart: being served, in its
mailbox. -/
def PoolHart.posted (i : MsgSlot) (l : PoolHart n) : ℤ :=
  slotIs l.running i + l.mailbox.count (.msg i)

/-- The references to slot `i` at a hart, the counted ones included. -/
def PoolHart.refs (i : MsgSlot) (l : PoolHart n) : ℤ := l.pc.hold.counts i + l.posted i

/-- The tally of slot `i`. -/
def Pool.tally (s : Pool n) (i : MsgSlot) : Tally where
  counter := s.cnt i
  owners := total (fun l => slotIs l.pc.hold.slot i) s.hart
  fresh := total (fun l => l.pc.hold.fills i) s.hart
  losers := total (fun l => l.pc.hold.undoes i) s.hart
  refs := total (PoolHart.refs i) s.hart

/-- The counts below are sums of these. -/
theorem slotIs_nonneg (o : Option MsgSlot) (i : MsgSlot) : 0 ≤ slotIs o i := by
  rw [slotIs]
  split_ifs <;> decide

@[simp] theorem slotIs_none (i : MsgSlot) : slotIs none i = 0 := rfl

@[simp] theorem slotIs_some (i j : MsgSlot) : slotIs (some i) j = if i = j then 1 else 0 := by
  simp only [slotIs, Option.some.injEq]

/-- A posted command counts for its slot as often as it is in the mailbox. -/
theorem slotIs_slot (cmd : IpiCmd) (i : MsgSlot) :
    slotIs cmd.slot i = ([cmd].count (.msg i) : ℕ) := by
  cases cmd with
  | msg k => by_cases hk : k = i <;> simp [IpiCmd.slot, hk]
  | signal => rfl
  | fenceI => rfl

theorem PoolHold.counts_nonneg (i : MsgSlot) (a : PoolHold) : 0 ≤ a.counts i := by
  rcases a with ⟨o, _ | _⟩ | _ | _
  · exact le_refl _
  · exact slotIs_nonneg o i
  · exact le_refl _
  · exact le_refl _

theorem PoolHold.fills_nonneg (i : MsgSlot) (a : PoolHold) : 0 ≤ a.fills i := by
  cases a with
  | fill k => exact slotIs_nonneg _ i
  | _ => exact le_refl _

theorem PoolHold.undoes_nonneg (i : MsgSlot) (a : PoolHold) : 0 ≤ a.undoes i := by
  cases a with
  | undo k => exact slotIs_nonneg _ i
  | _ => exact le_refl _

/-- What is being filled is owned. -/
theorem PoolHold.fills_le_owns (i : MsgSlot) (a : PoolHold) : a.fills i ≤ slotIs a.slot i := by
  cases a with
  | own o _ => exact slotIs_nonneg o i
  | _ => exact le_refl _

/-- No hart holds a negative number of references. -/
theorem PoolHart.refs_nonneg (i : MsgSlot) (l : PoolHart n) : 0 ≤ l.refs i := by
  have hcounted := l.pc.hold.counts_nonneg i
  have hrunning := slotIs_nonneg l.running i
  rw [PoolHart.refs, PoolHart.posted]
  omega

/-- So no part of a tally is negative in any state of the pool. -/
theorem Pool.tally_nonNeg (s : Pool n) (i : MsgSlot) : (s.tally i).NonNeg := by
  refine ⟨?_, ?_, ?_, ?_⟩
  · exact total_nonneg s.hart fun l => l.pc.hold.fills_nonneg i
  · exact total_le_total s.hart fun l => l.pc.hold.fills_le_owns i
  · exact total_nonneg s.hart fun l => l.pc.hold.undoes_nonneg i
  · exact total_nonneg s.hart (PoolHart.refs_nonneg i)

/-! ## Changes of the tally -/

/-- A tally changes by what one hart held and holds. -/
def Held (t t' : Tally) (j : MsgSlot) (counter : ℤ) (a b : PoolHold) (refs : ℤ) : Prop :=
  t.Change t' counter (slotIs b.slot j - slotIs a.slot j) (b.fills j - a.fills j)
    (b.undoes j - a.undoes j) (b.counts j - a.counts j + refs)

variable (s : Pool n) (h : Fin n) (j : MsgSlot) {a b : PoolHold}

/-- A step that changes one hart changes the tally by what this hart holds, before and after. -/
theorem held_setHart (l : PoolHart n) :
    Held (s.tally j) ((s.setHart h l).tally j) j 0 (s.hart h).pc.hold l.pc.hold
      (slotIs l.running j - slotIs (s.hart h).running j +
        (l.mailbox.count (.msg j) - (s.hart h).mailbox.count (.msg j))) := by
  refine ⟨(add_zero _).symm, ?_, ?_, ?_, ?_⟩
  · exact total_update (fun l => slotIs l.pc.hold.slot j) s.hart h l
  · exact total_update (fun l => l.pc.hold.fills j) s.hart h l
  · exact total_update (fun l => l.pc.hold.undoes j) s.hart h l
  · refine (total_update (PoolHart.refs j) s.hart h l).trans (congrArg _ ?_)
    rw [PoolHart.refs, PoolHart.refs, PoolHart.posted, PoolHart.posted]
    omega

/-- The hart goes on, and keeps its mailbox and what it serves. -/
theorem held_setPc {pc : PoolPc n} (ha : (s.hart h).pc.hold = a) (hb : pc.hold = b) :
    Held (s.tally j) ((s.setHart h { s.hart h with pc := pc }).tally j) j 0 a b 0 := by
  have hheld := held_setHart s h j { s.hart h with pc := pc }
  rw [ha, hb] at hheld
  simpa using hheld

/-- `atomic_add` changes the counter, and nothing that a hart holds. -/
theorem change_atomicAdd (d : ℤ) (i : MsgSlot) :
    (s.tally j).Change ((s.atomicAdd d i).tally j) (if i = j then d else 0) 0 0 0 0 := by
  refine ⟨?_, (add_zero _).symm, (add_zero _).symm, (add_zero _).symm, (add_zero _).symm⟩
  by_cases hj : i = j
  · subst hj
    simp [Pool.tally, Pool.atomicAdd]
  · simp [Pool.tally, Pool.atomicAdd, hj, Ne.symm hj]

@[simp] theorem atomicAdd_hart (d : ℤ) (i : MsgSlot) : (s.atomicAdd d i).hart = s.hart := rfl

/-- The hart goes on with an atomic addition. -/
theorem held_add {pc : PoolPc n} (d : ℤ) (i : MsgSlot) (ha : (s.hart h).pc.hold = a)
    (hb : pc.hold = b) :
    Held (s.tally j) (((s.atomicAdd d i).setHart h { s.hart h with pc := pc }).tally j) j
      (if i = j then d else 0) a b 0 := by
  have hheld := held_setPc (s.atomicAdd d i) h j ha hb
  simpa only [Held, atomicAdd_hart, zero_add, add_zero] using (change_atomicAdd s j d i).trans hheld

/-- The reference is counted at the sender before it is posted. Posting moves it to the receiver. -/
theorem held_post (t : Fin n) (cmd : IpiCmd) :
    (s.tally j).Change ((s.post t cmd).tally j) 0 0 0 0 (slotIs cmd.slot j) := by
  have hheld := held_setHart s t j { s.hart t with mailbox := (s.hart t).mailbox ++ [cmd] }
  simpa [Held, Pool.post, slotIs_slot] using hheld

/-- Reading the mailbox moves a reference from there to the handler. -/
theorem held_receive {pc : PoolPc n} (hidle : (s.hart h).running = none)
    (ha : (s.hart h).pc.hold = a) (hb : pc.hold = b) :
    Held (s.tally j) ((s.setHart h ((s.hart h).receive pc)).tally j) j 0 a b 0 := by
  rcases hbox : (s.hart h).mailbox with _ | ⟨cmd, mailbox⟩
  · rw [PoolHart.receive, hbox]
    simpa [hbox] using held_setPc s h j ha hb
  · rw [PoolHart.receive, hbox]
    have hcount : ([cmd] ++ mailbox).count (.msg j) = _ := List.count_append
    rw [List.singleton_append] at hcount
    have hheld := held_setHart s h j ⟨pc, cmd.slot, mailbox⟩
    rw [hidle, hbox, hcount, slotIs_slot, ha, hb] at hheld
    simpa using hheld

/-! ## Steps -/

/-- Between two targets the sender owns its slot, with no count ahead. -/
theorem sendNext_hold (cmd : IpiCmd) (todo : List (Fin n)) :
    (sendNext cmd todo).hold = .own cmd.slot false := by
  cases todo <;> cases cmd <;> rfl

/-- A hart that looks for a slot holds none. -/
theorem allocNext_hold (i : MsgSlot) (writes : MsgWrites) (mask : Fin n → Bool) :
    (allocNext i writes mask).hold = .own none false := by
  rw [allocNext]
  split_ifs <;> rfl

section Held

variable {t t' : Tally} {i j : MsgSlot} {a : PoolHold}

/-- A step at which a hart goes on with what it holds keeps the tally. -/
theorem Held.same (hheld : Held t t' j 0 a a 0) : t.Step t' :=
  .same (by simpa [Held] using hheld)

/-- A command without a slot counts nothing. -/
theorem Held.noSlot {c c' : Bool} (hheld : Held t t' j 0 (.own none c) (.own none c') 0) :
    t.Step t' :=
  .same (by simpa [Held] using hheld)

/-- `shared_cnt` was 0, so that the hart that increments it owns the slot, and fills it. -/
theorem Held.win (hheld : Held t t' j (if i = j then 1 else 0) (.own none false) (.fill i) 0)
    (hzero : i = j → t.counter = 0) : t.Step t' := by
  by_cases hij : i = j
  · subst hij
    exact .win (hzero rfl) (by simpa [Held] using hheld)
  · exact .same (by simpa [Held, hij] using hheld)

/-- Another hart was faster. The increment is counted as one that will be undone. -/
theorem Held.lose
    (hheld : Held t t' j (if i = j then 1 else 0) (.own none false) (.undo i) 0) :
    t.Step t' := by
  by_cases hij : i = j
  · subst hij
    exact .lose (by simpa [Held] using hheld)
  · exact .same (by simpa [Held, hij] using hheld)

/-- It is undone. -/
theorem Held.backOut
    (hheld : Held t t' j (if i = j then -1 else 0) (.undo i) (.own none false) 0) :
    t.Step t' := by
  by_cases hij : i = j
  · subst hij
    exact .backOut (by simpa [Held] using hheld)
  · exact .same (by simpa [Held, hij] using hheld)

/-- The slot has been filled: its words are no longer written. -/
theorem Held.settle (hheld : Held t t' j 0 (.fill i) (.own (some i) false) 0) : t.Step t' := by
  by_cases hij : i = j
  · subst hij
    exact .settle (by simpa [Held] using hheld)
  · exact .same (by simpa [Held, hij] using hheld)

/-- The sender counts one more receiver of a slot that it has filled. -/
theorem Held.share
    (hheld : Held t t' j (if i = j then 1 else 0) (.own (some i) false) (.own (some i) true) 0)
    (hsettled : i = j → t.fresh < t.owners) : t.Step t' := by
  by_cases hij : i = j
  · subst hij
    exact .share (hsettled rfl) (by simpa [Held] using hheld)
  · exact .same (by simpa [Held, hij] using hheld)

/-- The owner gives its own count back. -/
theorem Held.free
    (hheld : Held t t' j (if i = j then -1 else 0) (.own (some i) false) (.own none false) 0) :
    t.Step t' := by
  by_cases hij : i = j
  · subst hij
    exact .free (by simpa [Held] using hheld)
  · exact .same (by simpa [Held, hij] using hheld)

end Held

/-- Who has a slot and does not write it is a settled owner. -/
theorem fresh_lt_owners {counted : Bool} {i : MsgSlot}
    (hown : (s.hart h).pc.hold = .own (some i) counted) (hij : i = j) :
    (s.tally j).fresh < (s.tally j).owners := by
  refine total_lt_total s.hart (fun l => l.pc.hold.fills_le_owns j) (i := h) ?_
  rw [hown, ← hij]
  simp

variable {s h j}

/-- **One action of a hart** is a step of every tally: of the one of the slot that it works on, and
of the others by doing nothing. The cases are the places where a hart can be. -/
theorem go_tally (hidle : (s.hart h).running = none) (busy : Bool) :
    (s.tally j).Step ((s.go h busy).tally j) := by
  have hset := @held_setPc _ s h j
  have hadd := @held_add _ s h j
  rw [Pool.go]
  rcases hpc : (s.hart h).pc with _ | ⟨i, writes, mask⟩ | ⟨i, writes, mask⟩ | ⟨i, writes, mask⟩ |
    ⟨writes, mask⟩ | ⟨i, _ | ⟨w, writes⟩, mask⟩ | ⟨cmd, mask⟩ | ⟨cmd, mask⟩ | ⟨cmd, t, todo⟩ |
    ⟨cmd, t, todo⟩ | ⟨cmd, t, todo⟩ | ⟨cmd, t, todo⟩ | ⟨cmd, t, todo⟩ | i <;>
    simp only [hpc] at hset hadd ⊢
  · -- idle
    exact .same ⟨by simp, by simp, by simp, by simp, by simp⟩
  · -- allocRead
    split_ifs
    · exact Held.same (hset rfl rfl)
    · exact Held.same (hset rfl (allocNext_hold i writes mask))
  · -- allocAdd
    split_ifs with hzero
    · exact Held.win (hadd 1 i rfl rfl) fun hij => hij ▸ hzero
    · exact Held.lose (hadd 1 i rfl rfl)
  · -- allocUndo
    exact Held.backOut (hadd (-1) i rfl (allocNext_hold i writes mask))
  · -- allocPoll
    exact Held.same (held_receive s h j hidle (by rw [hpc]; rfl) rfl)
  · -- fill, all words are written
    exact Held.settle (hset rfl rfl)
  · -- fill
    exact Held.same (held_setPc (s.write i w) h j (congrArg PoolPc.hold hpc) rfl)
  · -- sendSelf
    split_ifs
    · cases cmd with
      | msg i => exact Held.share (hadd 1 i rfl rfl) (fresh_lt_owners s h j (by rw [hpc]; rfl))
      | signal => exact Held.noSlot (hset rfl rfl)
      | fenceI => exact Held.noSlot (hset rfl rfl)
    · exact Held.same (hset rfl (sendNext_hold cmd _))
  · -- sendRun
    have hrun : (PoolPc.sendRun cmd mask).hold = .own cmd.slot true := rfl
    have hheld := held_setHart s h j
      { s.hart h with pc := sendNext cmd (sendTargets h mask), running := cmd.slot }
    simp only [hpc, hidle, sendNext_hold, hrun] at hheld
    exact .same (by simpa [Held] using hheld)
  · -- sendWait
    split_ifs
    · exact Held.same (hset rfl rfl)
    · exact Held.same (hset rfl rfl)
  · exact Held.same (held_receive s h j hidle (by rw [hpc]; rfl) rfl)
  · split_ifs
    · exact Held.same (hset rfl (sendNext_hold cmd _))
    · exact Held.same (hset rfl rfl)
  · cases cmd with
    | msg i => exact Held.share (hadd 1 i rfl rfl) (fresh_lt_owners s h j (by rw [hpc]; rfl))
    | signal => exact Held.noSlot (hset rfl rfl)
    | fenceI => exact Held.noSlot (hset rfl rfl)
  · -- sendPost
    have hheld := hset (a := .own cmd.slot true) rfl (sendNext_hold cmd todo)
    exact .same (by simpa using hheld.trans (held_post _ j t cmd))
  · exact Held.free (hadd (-1) i rfl rfl)

/-- The handler is done with the message, and gives the reference back that came with the word in
the mailbox. -/
theorem release_tally {i : MsgSlot} (hrunning : (s.hart h).running = some i) :
    (s.tally j).Step
      (((s.atomicAdd (-1) i).setHart h { s.hart h with running := none }).tally j) := by
  have hheld := held_setHart (s.atomicAdd (-1) i) h j { s.hart h with running := none }
  have hchange := (change_atomicAdd s j (-1) i).trans hheld
  rw [atomicAdd_hart, hrunning] at hchange
  by_cases hij : i = j
  · subst hij
    exact .release (by simpa using hchange)
  · exact .same (by simpa [hij] using hchange)

/-- Where a call begins. A signal refers to no slot. -/
def PoolAction.startPc (h : Fin n) : PoolAction n → Option (PoolPc n)
  | .call writes mask => some (.allocRead (Fin.ofNat scipiMsgPoolSize h) writes mask)
  | .signal cmd mask => if cmd.slot = none then some (.sendSelf cmd mask) else none
  | _ => none

/-- A hart that starts a call holds nothing yet. -/
theorem startPc_hold {a : PoolAction n} {pc : PoolPc n} (hpc : a.startPc h = some pc) :
    pc.hold = .own none false := by
  cases a with
  | call writes mask =>
    cases hpc
    rfl
  | signal cmd mask =>
    rw [PoolAction.startPc] at hpc
    split_ifs at hpc with hslot
    cases hpc
    rw [PoolPc.hold, hslot]
  | _ => cases hpc

/-- What a step can do: end a handler, begin a call, take the next word of the mailbox, or go on
with the call that the hart is in. -/
theorem Pool.step_cases (s : Pool n) (e : PoolEvent n) :
    (∃ i, (s.hart e.hart).running = some i ∧
      s.step e =
        (s.atomicAdd (-1) i).setHart e.hart { s.hart e.hart with running := none }) ∨
    ((s.hart e.hart).running = none ∧ ∃ busy, s.step e = s.go e.hart busy) ∨
    ((s.hart e.hart).running = none ∧ (s.hart e.hart).pc = .idle ∧
      s.step e = s.setHart e.hart ((s.hart e.hart).receive .idle)) ∨
    ((s.hart e.hart).pc = .idle ∧ ∃ pc, e.action.startPc e.hart = some pc ∧
      s.step e = s.setHart e.hart { s.hart e.hart with pc := pc }) ∨
    s.step e = s := by
  rcases hrunning : (s.hart e.hart).running with _ | i
  · rcases haction : e.action with ⟨writes, mask⟩ | ⟨cmd, mask⟩ | _ | busy
    · cases hpc : (s.hart e.hart).pc
      case idle =>
        refine .inr (.inr (.inr (.inl ⟨rfl, _, rfl, ?_⟩)))
        simp only [Pool.step, hrunning, haction, hpc]
      all_goals exact .inr (.inr (.inr (.inr (by simp only [Pool.step, hrunning, haction, hpc]))))
    · rcases hslot : cmd.slot with _ | i
      · cases hpc : (s.hart e.hart).pc
        case idle =>
          refine .inr (.inr (.inr (.inl ⟨rfl, _, if_pos hslot, ?_⟩)))
          simp only [Pool.step, hrunning, haction, hpc, hslot]
        all_goals
          exact .inr (.inr (.inr (.inr (by simp only [Pool.step, hrunning, haction, hpc]))))
      · refine .inr (.inr (.inr (.inr ?_)))
        cases hpc : (s.hart e.hart).pc <;> simp only [Pool.step, hrunning, haction, hpc, hslot]
    · cases hpc : (s.hart e.hart).pc
      case idle =>
        exact .inr (.inr (.inl ⟨rfl, rfl, by simp only [Pool.step, hrunning, haction, hpc]⟩))
      all_goals exact .inr (.inr (.inr (.inr (by simp only [Pool.step, hrunning, haction, hpc]))))
    · exact .inr (.inl ⟨rfl, busy, by simp only [Pool.step, hrunning, haction]⟩)
  · exact .inl ⟨i, rfl, by simp only [Pool.step, hrunning]⟩

/-- **Every step of the harts** is a step of every tally. The library says what such steps keep, so
that the code is looked at here for the last time. -/
theorem Pool.step_tally (s : Pool n) (e : PoolEvent n) (j : MsgSlot) :
    (s.tally j).Step ((s.step e).tally j) := by
  obtain ⟨i, hrunning, hstep⟩ | ⟨hrunning, busy, hstep⟩ | ⟨hrunning, hpc, hstep⟩ |
    ⟨hpc, pc, hstart, hstep⟩ | hstep := s.step_cases e
  · rw [hstep]
    exact release_tally hrunning
  · rw [hstep]
    exact go_tally hrunning busy
  · rw [hstep]
    exact Held.same (held_receive s e.hart j hrunning (congrArg PoolPc.hold hpc) rfl)
  · rw [hstep]
    exact Held.same (held_setPc s e.hart j (congrArg PoolPc.hold hpc) (startPc_hold hstart))
  · rw [hstep]
    exact .same ⟨by simp, by simp, by simp, by simp, by simp⟩

/-! ## Owners and words -/

section Frame

variable (s : Pool n) (h k : Fin n) (l : PoolHart n)

@[simp] theorem setHart_hart_self : (s.setHart h l).hart h = l := Function.update_self ..

/-- The other harts stay as they are. -/
theorem setHart_hart_of_ne {h k : Fin n} (hk : k ≠ h) : (s.setHart h l).hart k = s.hart k :=
  Function.update_of_ne hk ..

/-- The words of a slot are no state of a hart. -/
@[simp] theorem write_hart (i : MsgSlot) (w : MsgField × U64) : (s.write i w).hart = s.hart := rfl

/-- A hart goes on where it is when a word is posted to it. -/
@[simp] theorem post_pc (cmd : IpiCmd) : ((s.post h cmd).hart k).pc = (s.hart k).pc := by
  rw [Pool.post]
  by_cases hk : k = h
  · rw [hk, setHart_hart_self]
  · rw [setHart_hart_of_ne s _ hk]

@[simp] theorem receive_pc (pc : PoolPc n) : (l.receive pc).pc = pc := by
  rw [PoolHart.receive]
  cases l.mailbox <;> rfl

end Frame

/-- An action moves one hart. -/
theorem go_pc_of_ne (s : Pool n) {h k : Fin n} (hk : k ≠ h) (busy : Bool) :
    ((s.go h busy).hart k).pc = (s.hart k).pc := by
  rw [Pool.go]
  repeat' split
  all_goals simp [setHart_hart_of_ne _ _ hk]

/-- Words are written by the owner that prepares the slot, and by no one else, whatever stage the
hart is at. -/
theorem go_body (s : Pool n) (h : Fin n) (busy : Bool) (i : MsgSlot) :
    (s.go h busy).body i = s.body i ∨ (s.hart h).pc.hold = .fill i := by
  rw [Pool.go]
  split
  case h_6 k w writes mask hpc =>
    by_cases hk : k = i
    · exact .inr (by rw [hpc, PoolPc.hold, hk])
    · exact .inl (Function.update_of_ne (Ne.symm hk) ..)
  all_goals
    left
    repeat' split
    all_goals rfl

/-- A hart acquires a slot that it finds at zero. With a slot in hand it keeps that slot until it is
done with it. -/
theorem go_slot (s : Pool n) (h : Fin n) (busy : Bool) (i : MsgSlot)
    (hslot : ((s.go h busy).hart h).pc.hold.slot = some i) :
    (s.hart h).pc.hold.slot = some i ∨ s.cnt i = 0 := by
  rw [Pool.go] at hslot
  split at hslot
  case h_3 k writes mask hpc =>
    split_ifs at hslot with hzero
    · rw [setHart_hart_self] at hslot
      exact .inr (Option.some.inj hslot ▸ hzero)
    · rw [setHart_hart_self] at hslot
      cases hslot
  -- everywhere else the hart keeps what it has, or gives it up
  all_goals
    rename_i hpc
    rw [hpc]
    left
    (repeat' split at hslot) <;>
      simp only [setHart_hart_self, post_pc, receive_pc, sendNext_hold, allocNext_hold, hpc]
        at hslot
    all_goals first | exact hslot | cases hslot

/-! ## Safety -/

/-- The hart has allocated the slot and has not freed it. -/
def PoolHart.Owns (l : PoolHart n) (i : MsgSlot) : Prop := l.pc.hold.slot = some i

/-- A message in the slot is in the mailbox of the hart, or its handler is
executed there, or is about to be, or the hart is about to post it. -/
def PoolHart.Uses (l : PoolHart n) (i : MsgSlot) : Prop :=
  l.running = some i ∨ .msg i ∈ l.mailbox ∨ l.pc.hold = .own (some i) true

instance (l : PoolHart n) (i : MsgSlot) : Decidable (l.Owns i) :=
  inferInstanceAs (Decidable (_ = _))

/-- What the message pool promises in a state. -/
structure Pool.Safe (s : Pool n) : Prop where
  /-- `shared_cnt` is exact, the harts that back out included. -/
  counted : ∀ i, s.cnt i = (if ∃ h, (s.hart h).Owns i then 1 else 0) +
    total (PoolHart.refs i) s.hart + total (fun l => l.pc.hold.undoes i) s.hart
  /-- No two harts own one slot. -/
  unique : ∀ i h k, (s.hart h).Owns i → (s.hart k).Owns i → h = k
  /-- No step hands out or rewrites a slot that is used. -/
  stable : ∀ i h, (s.hart h).Uses i → ∀ e, (s.step e).body i = s.body i ∧
    ∀ k, ((s.step e).hart k).Owns i → (s.hart k).Owns i

/-- A hart that uses a slot has a reference to it: its own as the sender, the one in its mailbox, or
the one that it runs the handler for. -/
theorem PoolHart.refs_pos {l : PoolHart n} {i : MsgSlot} (huses : l.Uses i) : 0 < l.refs i := by
  have hcounted := l.pc.hold.counts_nonneg i
  have hrunning := slotIs_nonneg l.running i
  rw [PoolHart.refs, PoolHart.posted]
  rcases huses with hrun | hmem | hhold
  · rw [hrun, slotIs_some, if_pos rfl]
    omega
  · have hcount := List.count_pos_iff.mpr hmem
    omega
  · have hone : l.pc.hold.counts i = 1 := by simp [hhold]
    omega

/-- So the tally of the slot has one. -/
theorem Pool.refs_pos {s : Pool n} {h : Fin n} {i : MsgSlot} (huses : (s.hart h).Uses i) :
    0 < (s.tally i).refs :=
  lt_of_lt_of_le (PoolHart.refs_pos huses) (le_total s.hart (PoolHart.refs_nonneg i) h)

/-- A used slot is not prepared by anybody. -/
theorem Pool.not_fill {s : Pool n} {h k : Fin n} {i : MsgSlot} (hgood : (s.tally i).Good)
    (huses : (s.hart h).Uses i) : (s.hart k).pc.hold ≠ .fill i := by
  intro hfill
  have hle := le_total s.hart (fun l => l.pc.hold.fills_nonneg i) k
  rw [hfill, PoolHold.fills, slotIs_some, if_pos rfl] at hle
  exact (Pool.refs_pos huses).ne' (hgood.quiet (lt_of_lt_of_le one_pos hle))

/-- A used slot is not free. -/
theorem Pool.cnt_ne_zero {s : Pool n} {h : Fin n} {i : MsgSlot} (hgood : (s.tally i).Good)
    (huses : (s.hart h).Uses i) : s.cnt i ≠ 0 := by
  intro hzero
  obtain ⟨_, _, hrefs⟩ := hgood.unused (s.tally_nonNeg i) hzero
  exact (Pool.refs_pos huses).ne' hrefs

/-- A used slot keeps its words, and nobody acquires it: its counter is not 0 while someone uses it,
and only its owner writes it, before anyone does. -/
theorem Pool.step_stable {s : Pool n} {h : Fin n} {i : MsgSlot} (hgood : (s.tally i).Good)
    (huses : (s.hart h).Uses i) (e : PoolEvent n) :
    (s.step e).body i = s.body i ∧
      ∀ k, ((s.step e).hart k).Owns i → (s.hart k).Owns i := by
  -- a hart that stays where it is, or starts a call, acquires nothing
  have hkeep : ∀ (s' : Pool n) (l : PoolHart n), s'.hart = s.hart →
      (l.pc.hold.slot = (s.hart e.hart).pc.hold.slot ∨ l.pc.hold.slot = none) →
      ∀ k, ((s'.setHart e.hart l).hart k).Owns i → (s.hart k).Owns i := by
    intro s' l hs' hl k hk
    by_cases hke : k = e.hart
    · rw [hke, setHart_hart_self] at hk
      rcases hl with hl | hl
      · rw [hke]
        exact hl.symm.trans hk
      · cases hl.symm.trans hk
    · rwa [setHart_hart_of_ne s' l hke, hs'] at hk
  obtain ⟨j, hrunning, hstep⟩ | ⟨hrunning, busy, hstep⟩ | ⟨hrunning, hpc, hstep⟩ |
    ⟨hpc, pc, hstart, hstep⟩ | hstep := s.step_cases e
  · rw [hstep]
    exact ⟨rfl, hkeep _ _ rfl (.inl rfl)⟩
  · rw [hstep]
    refine ⟨?_, ?_⟩
    · exact (go_body s e.hart busy i).resolve_right (Pool.not_fill hgood huses)
    · intro k hk
      by_cases hke : k = e.hart
      · subst hke
        exact (go_slot s e.hart busy i hk).resolve_right (Pool.cnt_ne_zero hgood huses)
      · rwa [PoolHart.Owns, go_pc_of_ne s hke busy] at hk
  · rw [hstep]
    exact ⟨rfl, hkeep s _ rfl (.inr (by rw [receive_pc]; rfl))⟩
  · rw [hstep]
    exact ⟨rfl, hkeep s _ rfl (.inr (by rw [startPc_hold hstart]; rfl))⟩
  · rw [hstep]
    exact ⟨rfl, fun k hk => hk⟩

/-- The safety of the pool is that of its tallies. -/
theorem Pool.safe_of_good {s : Pool n} (hgood : ∀ i, (s.tally i).Good) : s.Safe := by
  have howners : ∀ i, (s.tally i).owners = total (fun l => if l.Owns i then 1 else 0) s.hart :=
    fun i => rfl
  have hone : ∀ i, total (fun l : PoolHart n => if l.Owns i then 1 else 0) s.hart ≤ 1 :=
    fun i => (hgood i).owners_le
  refine ⟨?_, ?_, ?_⟩
  · intro i
    have hcounter := (hgood i).counter
    rw [howners, total_eq_ite s.hart (hone i)] at hcounter
    rw [add_right_comm]
    exact hcounter
  · intro i h k
    exact unique_of_total_le_one s.hart (hone i)
  · intro i h huses e
    exact Pool.step_stable (hgood i) huses e

/-- Nothing is counted, owned or posted at boot. -/
theorem Pool.init_good (body : MsgSlot → MsgField → U64) (i : MsgSlot) :
    ((Pool.init (n := n) body).tally i).Good := by
  have howners : total (fun l : PoolHart n => slotIs l.pc.hold.slot i) (Pool.init body).hart = 0 :=
    total_eq_zero_of_forall _ fun _ => rfl
  have hlosers : total (fun l : PoolHart n => l.pc.hold.undoes i) (Pool.init body).hart = 0 :=
    total_eq_zero_of_forall _ fun _ => rfl
  have hrefs : total (PoolHart.refs (n := n) i) (Pool.init body).hart = 0 :=
    total_eq_zero_of_forall _ fun _ => rfl
  refine ⟨?_, howners.le.trans zero_le_one, fun _ => hrefs⟩
  simp only [Pool.tally, howners, hlosers, hrefs]
  rfl

/-- A message from hart 0 to hart 1, up to where it is counted and not yet posted. -/
def countedNotPosted : List (PoolEvent 2) :=
  ⟨0, .call [] fun t => t = 1⟩ :: List.replicate 7 ⟨0, .go false⟩

/-- Between `atomic_add` and `ipi_send_data` the counter is ahead of the posts. -/
theorem shared_cnt_ahead_of_post :
    let s := run Pool.step (Pool.init fun _ _ => 0#64) countedNotPosted
    s.cnt 0 ≠ (if ∃ h, (s.hart h).Owns 0 then 1 else 0) + total (PoolHart.posted 0) s.hart +
      total (fun l => l.pc.hold.undoes 0) s.hart := by
  decide

/-- **Safety of the message pool**, for any number of harts and any interleaving of their steps:
counts are exact, no slot has two owners, and none is handed out or rewritten while someone uses it.
By the tally of each slot, which every step keeps in order. -/
theorem ipi_pool_safe (body : MsgSlot → MsgField → U64) (events : List (PoolEvent n)) :
    (run Pool.step (Pool.init body) events).Safe := by
  refine Pool.safe_of_good
    (run_inv (fun s : Pool n => ∀ i, (s.tally i).Good) ?_ (Pool.init_good body))
  intro s e hgood i
  exact (s.step_tally e i).good (hgood i) (s.tally_nonNeg i) ((s.step e).tally_nonNeg i)

end ScBl
