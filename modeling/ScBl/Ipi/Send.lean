import ScBl.Ipi.Msg

/-!
# Sending an IPI command (`ipi_send_cmd`)

The sender serves its own bit at once, and walks the mask for the other harts.
It waits for each of them to be free, and asks once more before it posts: other
senders are not kept from filling the receiver between the two reads, and then
the command is not posted at all. So a call delivers what it should exactly when
no receiver is found free and then busy (`ipi_send_cmd_delivers_iff`).
-/

namespace ScBl

/-! ## The code -/

/-- What a read of `ipi_receiver_busy` answers. While the sender waits, it polls
its own mailbox; `busy` tells what it finds there. -/
inductive ReceiverAnswer
  | free
  | busy (mail : Option U64)
  deriving DecidableEq, Repr

/-- What a call of `ipi_send_cmd` does, in order. -/
inductive SendEvent
  /-- `atomic_add(1, msg_cnt)` -/
  | raise
  /-- `do_local_ipi_cmd(packed_msg)` for the own bit. -/
  | runLocal (msg : U64)
  /-- `do_local_ipi_cmd` on a word received while waiting. -/
  | received (msg : U64)
  /-- `ipi_send_data(slotn, packed_msg)` -/
  | post (slotn : ℕ) (msg : U64)
  deriving DecidableEq, Repr

/-- The data of a call: `num_harts`, the caller, the slots `hls.ipi_n`, the word
to send and whether it comes with a `msg_cnt`. -/
structure SendCall where
  numHarts : ℕ
  self : ℕ
  ipiN : ℕ → ℕ
  packedMsg : U64
  counted : Bool

namespace SendCall

variable (k : SendCall)

/-- `if (msg_cnt) atomic_add(1, msg_cnt)` -/
def raise : List SendEvent := if k.counted then [.raise] else []

/-- `ipi_check_local_cmd` -/
def ipiCheckLocalCmd (mail : Option U64) : List SendEvent :=
  match mail with
  | some msg => [.received msg]
  | none => []

/-- One target: the waiting loop, and the second read with the post. Returns the
events and the answers left, `none` if the answers end before the code is
through. -/
def sendTo (slotn : ℕ) : List ReceiverAnswer → Option (List SendEvent × List ReceiverAnswer)
  | [] => none
  | .busy mail :: answers =>
    (sendTo slotn answers).map fun (events, answers) =>
      (ipiCheckLocalCmd mail ++ events, answers)
  | [.free] => none
  | .free :: .busy _ :: answers => some ([], answers)
  | .free :: .free :: answers => some (k.raise ++ [.post slotn k.packedMsg], answers)

/-- The loop over the harts from `i` on, `n` of them being left. -/
def sendLoop : ℕ → ℕ → U64 → List ReceiverAnswer → Option (List SendEvent × List ReceiverAnswer)
  | 0, _, _, answers => some ([], answers)
  | n + 1, i, hartMask, answers =>
    if hartMask &&& 1#64 = 0#64 then sendLoop n (i + 1) (hartMask >>> 1) answers
    else
      match k.sendTo (k.ipiN i) answers with
      | none => none
      | some (events, answers) =>
        (sendLoop n (i + 1) (hartMask >>> 1) answers).map fun (events', answers) =>
          (events ++ events', answers)

/-- `ipi_send_cmd`: the events of the call and the answers it did not ask for,
`none` while it has not returned. -/
def ipiSendCmd (hartMask : U64) (answers : List ReceiverAnswer) :
    Option (List SendEvent × List ReceiverAnswer) :=
  let curHartMask := 1#64 <<< (k.self % 64)
  if hartMask &&& curHartMask ≠ 0#64 then
    (k.sendLoop k.numHarts 0 (hartMask &&& ~~~curHartMask) answers).map fun (events, answers) =>
      (k.raise ++ .runLocal k.packedMsg :: events, answers)
  else k.sendLoop k.numHarts 0 hartMask answers

end SendCall

/-! ## What a call has to deliver -/

/-- The posts among the events: slot and word. -/
def SendEvent.posts (events : List SendEvent) : List (ℕ × U64) :=
  events.filterMap fun
    | .post slotn msg => some (slotn, msg)
    | _ => none

/-- The words served locally for the own bit. -/
def SendEvent.localRuns (events : List SendEvent) : List U64 :=
  events.filterMap fun
    | .runLocal msg => some msg
    | _ => none

/-- How often `msg_cnt` was raised. -/
def SendEvent.raises (events : List SendEvent) : ℕ := events.count .raise

open SendEvent

/-- The other harts of the mask. -/
def SendCall.targets (k : SendCall) (hartMask : U64) : List ℕ :=
  (List.range k.numHarts).filter fun i => hartMask.getLsbD i && decide (i ≠ k.self)

/-- Every other hart of the mask gets the word once and nothing else is posted,
the own bit is served once, and every delivery is counted. -/
structure SendCall.Delivers (k : SendCall) (hartMask : U64) (events : List SendEvent) : Prop where
  posts : SendEvent.posts events =
    (k.targets hartMask).map fun i => (k.ipiN i, k.packedMsg)
  localRuns : SendEvent.localRuns events =
    if hartMask.getLsbD k.self then [k.packedMsg] else []
  raises : SendEvent.raises events =
    if k.counted then
      (SendEvent.posts events).length + (SendEvent.localRuns events).length
    else 0

/-- No receiver of `n` is found free and busy at the read after it. -/
def Undisturbed : ℕ → List ReceiverAnswer → Prop
  | 0, _ => True
  | _ + 1, [] => True
  | n + 1, .busy _ :: answers => Undisturbed (n + 1) answers
  | _ + 1, [.free] => True
  | _ + 1, .free :: .busy _ :: _ => False
  | n + 1, .free :: .free :: answers => Undisturbed n answers

/-! ## Views of the events -/

section Views

variable (events events' : List SendEvent) (mail : Option U64) (k : SendCall)

@[simp] theorem posts_append : posts (events ++ events') = posts events ++ posts events' :=
  List.filterMap_append

@[simp] theorem localRuns_append :
    localRuns (events ++ events') = localRuns events ++ localRuns events' :=
  List.filterMap_append

@[simp] theorem raises_append : raises (events ++ events') = raises events + raises events' :=
  List.count_append

@[simp] theorem posts_checkLocal : posts (SendCall.ipiCheckLocalCmd mail) = [] := by
  cases mail <;> rfl

@[simp] theorem localRuns_checkLocal : localRuns (SendCall.ipiCheckLocalCmd mail) = [] := by
  cases mail <;> rfl

@[simp] theorem raises_checkLocal : raises (SendCall.ipiCheckLocalCmd mail) = 0 := by
  cases mail <;> rfl

@[simp] theorem posts_raise : posts k.raise = [] := by
  rw [SendCall.raise]
  split_ifs <;> rfl

@[simp] theorem localRuns_raise : localRuns k.raise = [] := by
  rw [SendCall.raise]
  split_ifs <;> rfl

@[simp] theorem raises_raise : raises k.raise = if k.counted then 1 else 0 := by
  rw [SendCall.raise]
  split_ifs <;> rfl

end Views

/-! ## One target -/

variable {k : SendCall} {answers rest : List ReceiverAnswer} {events : List SendEvent}

/-- **One target.** It gets the word, counted, or nothing, according to the second
read. -/
theorem SendCall.sendTo_cases {slotn : ℕ} (h : k.sendTo slotn answers = some (events, rest)) :
    localRuns events = [] ∧ raises events = (if k.counted then (posts events).length else 0) ∧
      ((posts events = [(slotn, k.packedMsg)] ∧
          ∀ n, Undisturbed (n + 1) answers ↔ Undisturbed n rest) ∨
        (posts events = [] ∧ ∀ n, ¬ Undisturbed (n + 1) answers)) := by
  induction answers using SendCall.sendTo.induct generalizing events with
  | case1 => cases h
  | case2 mail answers ih =>
    rw [sendTo, Option.map_eq_some_iff] at h
    obtain ⟨⟨events', rest'⟩, hto, heq⟩ := h
    simp only [Prod.mk.injEq] at heq
    obtain ⟨rfl, rfl⟩ := heq
    obtain ⟨hruns, hraises, hcases⟩ := ih hto
    refine ⟨by simpa using hruns, by simpa using hraises, ?_⟩
    simpa [Undisturbed] using hcases
  | case3 => cases h
  | case4 mail answers =>
    simp only [sendTo, Option.some.injEq, Prod.mk.injEq] at h
    obtain ⟨rfl, rfl⟩ := h
    have hraises : raises [] = 0 := rfl
    exact ⟨rfl, by simp [hraises, posts], .inr ⟨rfl, fun n => id⟩⟩
  | case5 answers =>
    simp only [sendTo, Option.some.injEq, Prod.mk.injEq] at h
    obtain ⟨rfl, rfl⟩ := h
    have hpost : posts [.post slotn k.packedMsg] = [(slotn, k.packedMsg)] := rfl
    have hruns : localRuns [.post slotn k.packedMsg] = [] := rfl
    have hraises : raises [.post slotn k.packedMsg] = 0 := rfl
    exact ⟨by simp [hruns], by simp [hpost, hraises], .inl ⟨by simp [hpost], fun n => Iff.rfl⟩⟩

/-! ## The loop -/

/-- The targets of the loop over `n` harts from `i` on. -/
def loopTargets : ℕ → ℕ → U64 → List ℕ
  | 0, _, _ => []
  | n + 1, i, hartMask =>
    if hartMask &&& 1#64 = 0#64 then loopTargets n (i + 1) (hartMask >>> 1)
    else i :: loopTargets n (i + 1) (hartMask >>> 1)

theorem and_one_eq_zero_iff (x : U64) : x &&& 1#64 = 0#64 ↔ x.getLsbD 0 = false :=
  Words.and_oneBit_eq_zero (b := 0) (by decide)

/-- They are the set bits of the mask, in ascending order. The loop shifts the mask down and stops
at zero, with no bit left out. -/
theorem loopTargets_eq : ∀ (n i : ℕ) (hartMask : U64),
    loopTargets n i hartMask =
      (List.range' i n).filter fun j => hartMask.getLsbD (j - i) := by
  intro n
  induction n with
  | zero =>
    intro i hartMask
    rfl
  | succ n ih =>
    intro i hartMask
    have hshift : ∀ j ∈ List.range' (i + 1) n,
        (hartMask >>> 1).getLsbD (j - (i + 1)) = hartMask.getLsbD (j - i) := by
      intro j hj
      rw [List.mem_range'_1] at hj
      have heq : 1 + (j - (i + 1)) = j - i := by omega
      rw [BitVec.getLsbD_ushiftRight, heq]
    rw [loopTargets, ih, List.range'_succ, List.filter_congr hshift, List.filter_cons]
    simp only [and_one_eq_zero_iff, Nat.sub_self]
    rcases hartMask.getLsbD 0 with _ | _ <;> rfl

/-- **The loop** posts to all its targets as long as no receiver disturbs it, and
misses one otherwise. -/
theorem SendCall.sendLoop_cases : ∀ {n i : ℕ} {hartMask : U64} {answers : List ReceiverAnswer}
    {events : List SendEvent}, k.sendLoop n i hartMask answers = some (events, rest) →
    localRuns events = [] ∧ raises events = (if k.counted then (posts events).length else 0) ∧
      (posts events).length ≤ (loopTargets n i hartMask).length ∧
      (posts events = (loopTargets n i hartMask).map (fun j => (k.ipiN j, k.packedMsg)) ↔
        Undisturbed (loopTargets n i hartMask).length answers) := by
  intro n
  induction n with
  | zero =>
    intro i hartMask answers events h
    simp only [sendLoop, Option.some.injEq, Prod.mk.injEq] at h
    obtain ⟨rfl, rfl⟩ := h
    exact ⟨rfl, by simp [raises, posts], Nat.zero_le _, by simp [loopTargets, posts, Undisturbed]⟩
  | succ n ih =>
    intro i hartMask answers events h
    rw [sendLoop] at h
    rw [loopTargets]
    by_cases hskip : hartMask &&& 1#64 = 0#64
    · rw [if_pos hskip] at h ⊢
      exact ih h
    rw [if_neg hskip] at h ⊢
    rcases hto : k.sendTo (k.ipiN i) answers with _ | ⟨events₁, answers₁⟩
    · rw [hto] at h
      cases h
    rw [hto, Option.map_eq_some_iff] at h
    obtain ⟨⟨events₂, rest'⟩, hloop, heq⟩ := h
    simp only [Prod.mk.injEq] at heq
    obtain ⟨rfl, rfl⟩ := heq
    obtain ⟨hruns₁, hraises₁, hcases⟩ := sendTo_cases hto
    obtain ⟨hruns₂, hraises₂, hle, hposts⟩ := ih hloop
    refine ⟨by simp [hruns₁, hruns₂], ?_, ?_, ?_⟩
    · rw [raises_append, hraises₁, hraises₂, posts_append, List.length_append]
      split_ifs <;> rfl
    · rcases hcases with ⟨hpost, _⟩ | ⟨hnone, _⟩
      · simpa [hpost] using hle
      · simp only [posts_append, hnone, List.nil_append, List.length_cons]
        omega
    · rw [posts_append, List.map_cons, List.length_cons]
      rcases hcases with ⟨hpost, hsame⟩ | ⟨hnone, hdisturbed⟩
      · rw [hpost, List.singleton_append, List.cons.injEq, and_iff_right rfl, hposts, hsame]
      · -- a missed target cannot be made up for
        refine iff_of_false (fun hall => ?_) (hdisturbed _)
        have hlen := congrArg List.length hall
        rw [hnone, List.nil_append, List.length_cons, List.length_map] at hlen
        omega

/-! ## The call -/

/-- The loop has the same targets, the own bit having been taken out. -/
theorem SendCall.loopTargets_self {hartMask mask : U64}
    (hmask : ∀ i, mask.getLsbD i = (hartMask.getLsbD i && decide (i ≠ k.self))) :
    loopTargets k.numHarts 0 mask = k.targets hartMask := by
  rw [loopTargets_eq, targets, List.range_eq_range']
  exact List.filter_congr fun i _ => hmask i

/-- A call without a bit of its own delivers what its loop posts: the word to each hart of the mask,
unless another sender is first at a mailbox that has been seen free. -/
theorem SendCall.delivers_others_iff {hartMask : U64}
    (hloop : k.sendLoop k.numHarts 0 hartMask answers = some (events, rest))
    (hself : hartMask.getLsbD k.self = false) :
    k.Delivers hartMask events ↔ Undisturbed (k.targets hartMask).length answers := by
  have hmask : ∀ i, hartMask.getLsbD i = (hartMask.getLsbD i && decide (i ≠ k.self)) := by
    intro i
    by_cases hi : i = k.self
    · rw [hi, hself, Bool.false_and]
    · simp [hi]
  obtain ⟨hruns, hraises, _, hposts⟩ := sendLoop_cases hloop
  rw [loopTargets_self hmask] at hposts
  rw [← hposts]
  refine ⟨fun hd => hd.posts, fun hp => ⟨hp, by rw [hruns, hself]; rfl, ?_⟩⟩
  rw [hraises, hruns]
  rfl

section Own

variable {hartMask mask : U64}

theorem SendCall.posts_own :
    posts (k.raise ++ .runLocal k.packedMsg :: events) = posts events := by
  rw [posts_append, posts_raise]
  rfl

theorem SendCall.localRuns_own (hruns : localRuns events = []) :
    localRuns (k.raise ++ .runLocal k.packedMsg :: events) = [k.packedMsg] := by
  rw [localRuns_append, localRuns_raise]
  exact congrArg (k.packedMsg :: ·) hruns

theorem SendCall.raises_own :
    raises (k.raise ++ .runLocal k.packedMsg :: events) =
      (if k.counted then 1 else 0) + raises events := by
  have hcount : raises (.runLocal k.packedMsg :: events) = raises events :=
    List.count_cons_of_ne SendEvent.noConfusion
  rw [raises_append, raises_raise, hcount]

/-- A call with a bit of its own serves it, and delivers what its loop posts: to all its targets,
unless one of them is found busy at the second test. -/
theorem SendCall.delivers_own_iff
    (hloop : k.sendLoop k.numHarts 0 mask answers = some (events, rest))
    (hmask : ∀ i, mask.getLsbD i = (hartMask.getLsbD i && decide (i ≠ k.self)))
    (hown : hartMask.getLsbD k.self = true) :
    k.Delivers hartMask (k.raise ++ .runLocal k.packedMsg :: events) ↔
      Undisturbed (k.targets hartMask).length answers := by
  obtain ⟨hruns, hraises, _, hposts⟩ := sendLoop_cases hloop
  rw [loopTargets_self hmask] at hposts
  rw [← hposts]
  constructor
  · intro hd
    exact posts_own ▸ hd.posts
  · intro hp
    refine ⟨posts_own.trans hp, by rw [localRuns_own hruns, hown]; rfl, ?_⟩
    rw [localRuns_own hruns, posts_own, raises_own, hraises, List.length_singleton]
    split_ifs
    · exact Nat.add_comm _ _
    · rfl

/-- The bit of another hart, taken for its own, is served in its place. -/
theorem SendCall.not_delivers_wrapped
    (hloop : k.sendLoop k.numHarts 0 mask answers = some (events, rest)) (hwide : 64 ≤ k.self) :
    ¬ k.Delivers hartMask (k.raise ++ .runLocal k.packedMsg :: events) := by
  intro hd
  obtain ⟨hruns, _⟩ := sendLoop_cases hloop
  have hnone := hd.localRuns
  rw [localRuns_own hruns, BitVec.getLsbD_of_ge hartMask _ hwide] at hnone
  cases hnone

end Own

/-- **No IPI is lost** by a call that has returned exactly when no receiver was found free and busy
right after, and the caller has a bit of its own. In the one case the word is not posted, since the
code tests twice and has no branch for the second; in the other, from hart 64 on, the shift gives
the bit of another hart. -/
theorem ipi_send_cmd_delivers_iff (k : SendCall) (hartMask : U64)
    (answers rest : List ReceiverAnswer) (events : List SendEvent)
    (h : k.ipiSendCmd hartMask answers = some (events, rest)) :
    k.Delivers hartMask events ↔
      Undisturbed (k.targets hartMask).length answers ∧
        ¬ (64 ≤ k.self ∧ hartMask.getLsbD (k.self % 64) = true) := by
  have hlt : k.self % 64 < 64 := Nat.mod_lt _ (by decide)
  rw [SendCall.ipiSendCmd] at h
  simp only [ne_eq, ite_not, Words.and_oneBit_eq_zero hlt] at h
  by_cases hown : hartMask.getLsbD (k.self % 64) = false
  · -- no bit of its own
    rw [if_pos hown] at h
    have hself : hartMask.getLsbD k.self = false := by
      by_cases hs : k.self < 64
      · rwa [Nat.mod_eq_of_lt hs] at hown
      · exact BitVec.getLsbD_of_ge hartMask _ (Nat.le_of_not_lt hs)
    rw [SendCall.delivers_others_iff h hself, and_iff_left (by simp [hown])]
  · rw [if_neg hown, Option.map_eq_some_iff] at h
    obtain ⟨⟨events', rest'⟩, hloop, heq⟩ := h
    simp only [Prod.mk.injEq] at heq
    obtain ⟨rfl, rfl⟩ := heq
    have hown : hartMask.getLsbD (k.self % 64) = true := by simpa using hown
    by_cases hs : k.self < 64
    · rw [Nat.mod_eq_of_lt hs] at hloop hown ⊢
      have hmask := Words.getLsbD_and_not_oneBit hs hartMask
      rw [SendCall.delivers_own_iff hloop hmask hown, and_iff_left (by omega)]
    · have hwide := Nat.le_of_not_lt hs
      exact iff_of_false (SendCall.not_delivers_wrapped hloop hwide) fun hc => hc.2 ⟨hwide, hown⟩

/-- Hart 0 of two sends a counted message to both. -/
def SendCall.sample : SendCall where
  numHarts := 2
  self := 0
  ipiN := id
  packedMsg := (IpiCmd.msg 0).packed
  counted := true

/-- Hart 1 is busy once, and then free. -/
theorem ipi_send_cmd_delivers_sample :
    SendCall.sample.Delivers 0x3#64
      [.raise, .runLocal (IpiCmd.msg 0).packed, .raise, .post 1 (IpiCmd.msg 0).packed] := by
  have h : SendCall.sample.ipiSendCmd 0x3#64 [.busy none, .free, .free] = some
      ([.raise, .runLocal (IpiCmd.msg 0).packed, .raise, .post 1 (IpiCmd.msg 0).packed], []) := by
    decide
  refine (ipi_send_cmd_delivers_iff SendCall.sample 0x3#64 _ _ _ h).mpr ⟨?_, by decide⟩
  exact trivial

/-- Another sender fills hart 1 between the two reads: the call returns without
having posted anything. -/
theorem ipi_send_cmd_drops_command :
    ∃ events, SendCall.sample.ipiSendCmd 0x2#64 [.free, .busy none] = some (events, []) ∧
      ¬ SendCall.sample.Delivers 0x2#64 events := by
  refine ⟨[], by decide, fun hd => ?_⟩
  exact absurd hd.posts (by decide)

end ScBl
