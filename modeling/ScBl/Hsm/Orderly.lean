import ScBl.Hsm.Restart

/-!
# Calls that do not meet

A `HART_STOP` takes from the write of `hls->state` to the assertion of the reset on the
master hart, a `HART_START` from the armed entry to the answer. In a run where none of
them meets another one of the same hart (`Orderly`), every `HART_START` looks at the
reset bit in time, and a hart that is stopped is restarted (`restarts_of_orderly`).

What a step can do to places, states, reset bits and reports is said once (`Moves`); the
rest goes by cases on it.
-/

namespace ScBl

open Function Runs

/-- In a `HART_START`. -/
def HsmPc.isStart : HsmPc → Bool
  | .start _ _ => true
  | _ => false

/-- The number is one of a hart that `HART_START` may start. -/
def HsmConfig.accepts (cfg : HsmConfig) (hartid : U64) : Prop :=
  ¬ (hartid = 0#64 ∨ cfg.smpHartNum ≤ hartid.toNat)

namespace HsmSys

variable {cfg : HsmConfig} {s s' : HsmSys} {e : HsmEvent} {c d t : ℕ} {k : StartCall}
  {stage : StartStage}

/-! ## The moves -/

/-- What a step does to the places of the harts, to their states and reset bits and to
what is reported of them. -/
inductive Moves (cfg : HsmConfig) (s s' : HsmSys) (e : HsmEvent) : Prop
  | stay (hpc : s'.pc = s.pc) (hstate : s'.state = s.state) (hresetN : s'.resetN = s.resetN)
    (hreported : s'.reported = s.reported)
  /-- A hart goes on, and neither starts a hart nor begins to stop. -/
  | plain {c : ℕ} {p : HsmPc} (hpc : s'.pc = update s.pc c p)
    (hfrom : (s.pc c).isStart = false ∧ s.pc c ≠ .absent)
    (hto : p.isStart = false ∧ p.isStopping = (s.pc c).isStopping)
    (hstate : ∀ t, s'.state t = .stop → s.state t = .stop) (hresetN : s'.resetN = s.resetN)
    (hreported : ∀ t, s'.reported t = true →
      s.reported t = true ∨ s.resetN t = false ∨ s.state t = .stop)
  /-- A full startup sequence goes on. -/
  | stage {c : ℕ} {k : StartCall} {stage stage' : StartStage}
    (hc : s.pc c = .start k stage) (hpc : s'.pc = update s.pc c (.start k stage'))
    (hcheck : stage' ≠ .check)
    (honline : stage' = .waitOnline → s.state k.target = .start)
    (hstate : s'.state = s.state) (hresetN : s'.resetN = s.resetN)
    (hreported : s'.reported = s.reported)
  | activate {c : ℕ} {k : StartCall} (hc : s.pc c = .start k .activate)
    (hpc : s'.pc = update s.pc c (.start k .waitReset) ∨
      s.pc k.target = .reset ∧
        s'.pc = update (update s.pc c (.start k .waitReset)) k.target .resetWait)
    (hstate : s'.state = s.state) (hresetN : s'.resetN = update s.resetN k.target true)
    (hreported : s'.reported = s.reported)
  | startReturn {c : ℕ} {k : StartCall} {stage : StartStage} (hc : s.pc c = .start k stage)
    (hstage : stage = .check ∨ stage = .waitOnline) (hpc : s'.pc = update s.pc c .kernel)
    (hstate : s'.state = s.state) (hresetN : s'.resetN = s.resetN)
    (hreported : s'.reported = update s.reported k.target false)
  | call {c : ℕ} {hartid startAddr opaqueArg : U64} (he : e = .start c hartid startAddr opaqueArg)
    (hc : s.pc c = .kernel) (haccepts : cfg.accepts hartid)
    (hpc : s'.pc = update s.pc c (.start ⟨hartid.toNat, s.armed hartid.toNat + 1,
      s.reported hartid.toNat⟩ .check))
    (hstate : s'.state = s.state) (hresetN : s'.resetN = s.resetN)
    (hreported : s'.reported = s.reported)
  | stop {c : ℕ} (he : e = .stop c) (hc : s.pc c = .kernel)
    (hpc : s'.pc = update s.pc c .stopSend) (hstate : s'.state = update s.state c .stop)
    (hresetN : s'.resetN = s.resetN) (hreported : s'.reported = s.reported)
  | reset {c t : ℕ} (hc : s.pc c = .callbackReset t)
    (hpc : s'.pc = update (update s.pc t .reset) c .kernel) (hstate : s'.state = s.state)
    (hresetN : s'.resetN = update s.resetN t false) (hreported : s'.reported = s.reported)

/-- A call that does not start a hart returns. -/
theorem Moves.answer (hc : s.pc c = .kernel) (error : ℤ) (out : U64) :
    Moves cfg s (s.answer c error out) e :=
  .plain rfl (by rw [hc]; exact ⟨rfl, HsmPc.noConfusion⟩) (by rw [hc]; exact ⟨rfl, rfl⟩)
    (fun _ h => h) rfl fun _ h => .inl h

theorem moves_start (c : ℕ) (hartid startAddr opaqueArg : U64) :
    Moves cfg s (s.step cfg (.start c hartid startAddr opaqueArg))
      (.start c hartid startAddr opaqueArg) := by
  rw [step]
  split
  · rename_i hc
    rw [hartStart]
    split_ifs with hrefused
    · exact .answer hc ..
    · exact .call rfl hc hrefused rfl rfl rfl rfl
  · exact .stay rfl rfl rfl rfl

theorem moves_stop (c : ℕ) : Moves cfg s (s.step cfg (.stop c)) (.stop c) := by
  rw [step]
  split
  · rename_i hc
    rw [hartStop]
    split_ifs
    · exact .stop rfl hc rfl rfl rfl rfl
    · exact .answer hc ..
    · exact .answer hc ..
  · exact .stay rfl rfl rfl rfl

theorem of_update_true {f : ℕ → Bool} {P : Prop} (hP : P) {u : ℕ}
    (h : update f t true u = true) : f u = true ∨ u = t ∧ P := by
  obtain ⟨rfl, -⟩ | ⟨-, h⟩ := update_cases h
  · exact .inr ⟨rfl, hP⟩
  · exact .inl h

theorem moves_status (c : ℕ) (hartid : U64) :
    Moves cfg s (s.step cfg (.status c hartid)) (.status c hartid) := by
  rw [step]
  split
  · rename_i hc
    have hfrom : (s.pc c).isStart = false ∧ s.pc c ≠ .absent := by
      rw [hc]
      exact ⟨rfl, HsmPc.noConfusion⟩
    rw [hartStatus]
    split_ifs with _ _ hresetN
    · exact .plain rfl hfrom (by rw [hc]; exact ⟨rfl, rfl⟩) (fun _ h => h) rfl fun _ h => .inl h
    · refine .plain (c := c) (p := .kernel) rfl hfrom (by rw [hc]; exact ⟨rfl, rfl⟩)
        (fun _ h => h) rfl fun u h => ?_
      obtain h | ⟨rfl, -⟩ := of_update_true trivial h
      · exact .inl h
      · exact .inr (.inl (by simpa using hresetN))
    · exact .answer hc ..
    · exact .answer hc ..
  · exact .stay rfl rfl rfl rfl

theorem moves_callback : Moves cfg s (s.step cfg .callback) .callback := by
  rw [step]
  split
  · rename_i t stops hc _
    exact .plain (c := 0) (p := .callbackWait t) rfl (by rw [hc]; exact ⟨rfl, HsmPc.noConfusion⟩)
      (by rw [hc]; exact ⟨rfl, rfl⟩) (fun _ h => h) rfl fun _ h => .inl h
  · exact .stay rfl rfl rfl rfl

/-- The next stage of a full startup sequence. -/
theorem Moves.goOn (hc : s.pc c = .start k stage) (stage' : StartStage) (hcheck : stage' ≠ .check)
    (honline : stage' = .waitOnline → s.state k.target = .start) (inbox : ℕ → List BootCmd) :
    Moves cfg s { s.setPc c (.start k stage') with inbox := inbox } e :=
  .stage hc rfl hcheck honline rfl rfl rfl

/-- A stage of a `HART_START` goes on, waits or returns; the check and the last stage are those that
return. -/
theorem moves_goStart (hc : s.pc c = .start k stage) (answer : Bool) :
    Moves cfg s (s.goStart cfg c k answer stage) e := by
  have hwait : Moves cfg s s e := .stay rfl rfl rfl rfl
  cases stage <;> rw [goStart]
  case check =>
    split_ifs
    · exact .goOn hc .activate StartStage.noConfusion StartStage.noConfusion s.inbox
    · exact .startReturn hc (.inl rfl) rfl rfl rfl rfl
  case activate =>
    split
    · rename_i hin
      have htarget := eq_reset_of_inReset hin
      have hne : k.target ≠ c := by
        intro heq
        rw [heq, setPc_pc, update_self] at htarget
        cases htarget
      rw [setPc_pc, update_of_ne hne] at htarget
      exact .activate hc (.inr ⟨htarget, rfl⟩) rfl rfl rfl
    · exact .activate hc (.inl rfl) rfl rfl rfl
  case waitOnline =>
    split_ifs
    · exact .startReturn hc (.inr rfl) rfl rfl rfl rfl
    · exact hwait
  case waitStart =>
    split_ifs with hstate
    · exact .goOn hc .waitOnline StartStage.noConfusion (fun _ => hstate) s.inbox
    · exact hwait
  case sendSetup => exact .goOn hc .waitPending StartStage.noConfusion StartStage.noConfusion _
  case sendStart => exact .goOn hc .waitStart StartStage.noConfusion StartStage.noConfusion _
  case waitReset =>
    split_ifs
    · exact .goOn hc .waitWfi StartStage.noConfusion StartStage.noConfusion s.inbox
    · exact hwait
  case waitWfi =>
    split_ifs
    · exact .goOn hc .sendSetup StartStage.noConfusion StartStage.noConfusion s.inbox
    · exact hwait
  case waitPending =>
    split_ifs
    · exact .goOn hc .sendStart StartStage.noConfusion StartStage.noConfusion s.inbox
    · exact hwait

/-- A hart moves on that neither starts a hart nor begins to stop. -/
theorem Moves.goPlain {p : HsmPc} (hfrom : (s.pc c).isStart = false ∧ s.pc c ≠ .absent)
    (hto : p.isStart = false ∧ p.isStopping = (s.pc c).isStopping) (hpc : s'.pc = update s.pc c p)
    (hstate : s'.state = s.state) (hresetN : s'.resetN = s.resetN)
    (hreported : s'.reported = s.reported) : Moves cfg s s' e :=
  .plain hpc hfrom hto (fun _ h => by rwa [← hstate]) hresetN
    fun _ h => .inl (by rwa [← hreported])

theorem moves_waitCmd (hc : s.pc c = .resetWait ∨ s.pc c = .setUp) (cmd : BootCmd)
    (state : HartState) (hstate : state = .stop → s.state c = .stop) (p : HsmPc)
    (hto : p.isStart = false ∧ p.isStopping = false) :
    Moves cfg s (s.waitCmd c cmd state p) e := by
  have hfrom : (s.pc c).isStart = false ∧ s.pc c ≠ .absent ∧ (s.pc c).isStopping = false := by
    rcases hc with hc | hc <;> (rw [hc]; exact ⟨rfl, HsmPc.noConfusion, rfl⟩)
  rw [waitCmd]
  split
  · exact .stay rfl rfl rfl rfl
  · split_ifs
    · refine .plain (c := c) (p := p) rfl ⟨hfrom.1, hfrom.2.1⟩ (by rwa [hfrom.2.2]) (fun u h => ?_)
        rfl fun _ h => .inl h
      obtain ⟨rfl, hstop⟩ | ⟨-, hstop⟩ := update_cases h
      · exact hstate hstop
      · exact hstop
    · exact .stay rfl rfl rfl rfl

/-- A hart goes on, from wherever it is. -/
theorem moves_go (c : ℕ) (answer : Bool) : Moves cfg s (s.go cfg c answer) e := by
  have hwait : Moves cfg s s e := .stay rfl rfl rfl rfl
  cases hc : s.pc c <;> simp only [HsmSys.go, hc]
  case absent | reset | kernel | stopped => exact hwait
  case resetWait =>
    exact moves_waitCmd (.inl hc) _ .startPending HartState.noConfusion .setUp ⟨rfl, rfl⟩
  case setUp => exact moves_waitCmd (.inr hc) _ _ id .starting ⟨rfl, rfl⟩
  case starting =>
    refine .plain (c := c) (p := .entering) rfl (by rw [hc]; exact ⟨rfl, HsmPc.noConfusion⟩)
      (by rw [hc]; exact ⟨rfl, rfl⟩) (fun u h => ?_) rfl fun _ h => .inl h
    exact (of_update h HartState.noConfusion).2
  case entering =>
    split_ifs
    · exact .goPlain (c := c) (p := .taking _) (by rw [hc]; exact ⟨rfl, HsmPc.noConfusion⟩)
        (by rw [hc]; exact ⟨rfl, rfl⟩) rfl rfl rfl rfl
    · exact hwait
  case start k stage => exact moves_goStart hc answer
  case status t =>
    refine .plain (c := c) (p := .kernel) rfl (by rw [hc]; exact ⟨rfl, HsmPc.noConfusion⟩)
      (by rw [hc]; exact ⟨rfl, rfl⟩) (fun u h => h) rfl fun u h => ?_
    dsimp only at h
    split_ifs at h with hstop
    · obtain h | ⟨rfl, hstop⟩ := of_update_true hstop h
      · exact .inl h
      · exact .inr (.inr hstop)
    · exact .inl h
  case callbackWait t =>
    split_ifs
    · exact .goPlain (c := c) (p := .callbackReset t) (by rw [hc]; exact ⟨rfl, HsmPc.noConfusion⟩)
        (by rw [hc]; exact ⟨rfl, rfl⟩) rfl rfl rfl rfl
    · exact hwait
  case callbackReset t => exact .reset hc rfl rfl rfl rfl
  case taking | stopSend | stopPrepare =>
    exact .goPlain (c := c) (by rw [hc]; exact ⟨rfl, HsmPc.noConfusion⟩)
      (by rw [hc]; exact ⟨rfl, rfl⟩) rfl rfl rfl rfl

/-- **Every step is one of the moves.** From here on the code of the steps is not looked at again.
-/
theorem moves_step (cfg : HsmConfig) (s : HsmSys) (e : HsmEvent) :
    Moves cfg s (s.step cfg e) e := by
  cases e with
  | start c hartid startAddr opaqueArg => exact moves_start c hartid startAddr opaqueArg
  | stop c => exact moves_stop c
  | status c hartid => exact moves_status c hartid
  | callback => exact moves_callback
  | go c answer => exact moves_go c answer

/-! ## What a step does -/

/-- A hart in a `HART_START` was in it before, at a stage no later than now, or has just called it.
What it has been told about its target is from then. -/
theorem start_of_step (hd : (s.step cfg e).pc d = .start k stage) :
    (∃ stage₀, s.pc d = .start k stage₀ ∧ (stage = .check → stage₀ = .check) ∧
      (stage = .waitOnline → stage₀ = .waitOnline ∨ s.state k.target = .start)) ∨
    ∃ hartid startAddr opaqueArg, e = .start d hartid startAddr opaqueArg ∧
      s.pc d = .kernel ∧ cfg.accepts hartid ∧ k.target = hartid.toNat ∧
      k.sawStop = s.reported hartid.toNat := by
  have hold (h : s.pc d = .start k stage) : ∃ stage₀, s.pc d = .start k stage₀ ∧
      (stage = .check → stage₀ = .check) ∧
      (stage = .waitOnline → stage₀ = .waitOnline ∨ s.state k.target = .start) :=
    ⟨stage, h, id, .inl⟩
  cases moves_step cfg s e with
  | stay hpc => exact .inl (hold (by rwa [← hpc]))
  | plain hpc _ hto =>
    rw [hpc] at hd
    obtain ⟨-, rfl⟩ | ⟨-, hd⟩ := update_cases hd
    · cases hto.1
    · exact .inl (hold hd)
  | stage hc hpc hcheck honline =>
    rw [hpc] at hd
    obtain ⟨rfl, hp⟩ | ⟨-, hd⟩ := update_cases hd
    · obtain ⟨rfl, rfl⟩ := HsmPc.start.inj hp
      exact .inl ⟨_, hc, fun h => absurd h hcheck, fun h => .inr (honline h)⟩
    · exact .inl (hold hd)
  | activate hc hpc =>
    obtain hpc | ⟨-, hpc⟩ := hpc <;> rw [hpc] at hd
    · obtain ⟨rfl, hp⟩ | ⟨-, hd⟩ := update_cases hd
      · obtain ⟨rfl, rfl⟩ := HsmPc.start.inj hp
        exact .inl ⟨_, hc, StartStage.noConfusion, StartStage.noConfusion⟩
      · exact .inl (hold hd)
    · obtain ⟨rfl, hp⟩ | ⟨-, hd⟩ := update_cases (of_update hd HsmPc.noConfusion).2
      · obtain ⟨rfl, rfl⟩ := HsmPc.start.inj hp
        exact .inl ⟨_, hc, StartStage.noConfusion, StartStage.noConfusion⟩
      · exact .inl (hold hd)
  | startReturn _ _ hpc =>
    rw [hpc] at hd
    exact .inl (hold (of_update hd HsmPc.noConfusion).2)
  | call he hc haccepts hpc =>
    rw [hpc] at hd
    obtain ⟨rfl, hp⟩ | ⟨-, hd⟩ := update_cases hd
    · obtain ⟨rfl, rfl⟩ := HsmPc.start.inj hp
      exact .inr ⟨_, _, _, he, hc, haccepts, rfl, rfl⟩
    · exact .inl (hold hd)
  | stop _ _ hpc =>
    rw [hpc] at hd
    exact .inl (hold (of_update hd HsmPc.noConfusion).2)
  | reset _ hpc =>
    rw [hpc] at hd
    exact .inl (hold (of_update (of_update hd HsmPc.noConfusion).2 HsmPc.noConfusion).2)

/-- A hart stays in its `HART_START`, or the call returns, and its target has not been
reported stopped since. -/
theorem start_or_return (cfg : HsmConfig) (e : HsmEvent) (hd : s.pc d = .start k stage)
    (hs : s.Inv) :
    (∃ stage', (s.step cfg e).pc d = .start k stage') ∨
      (stage = .check ∨ stage = .waitOnline) ∧ (s.step cfg e).reported k.target = false := by
  have hne {c : ℕ} (hc : s.pc c = .kernel) : d ≠ c := by
    rintro rfl
    rw [hd] at hc
    cases hc
  cases moves_step cfg s e with
  | stay hpc => exact .inl ⟨stage, by rwa [hpc]⟩
  | @plain c p hpc hfrom =>
    have hdc : d ≠ c := by
      rintro rfl
      rw [hd] at hfrom
      cases hfrom.1
    exact .inl ⟨stage, by rwa [hpc, update_of_ne hdc]⟩
  | @stage c k' stage₀ stage' hc hpc =>
    by_cases hdc : d = c
    · subst hdc
      obtain ⟨rfl, -⟩ := HsmPc.start.inj (hd.symm.trans hc)
      exact .inl ⟨stage', by rw [hpc, update_self]⟩
    · exact .inl ⟨stage, by rwa [hpc, update_of_ne hdc]⟩
  | @activate c k' hc hpc =>
    by_cases hdc : d = c
    · subst hdc
      obtain ⟨rfl, -⟩ := HsmPc.start.inj (hd.symm.trans hc)
      refine .inl ⟨.waitReset, ?_⟩
      obtain hpc | ⟨htarget, hpc⟩ := hpc
      · rw [hpc, update_self]
      · rw [hpc, update_of_ne, update_self]
        rintro rfl
        rw [hd] at htarget
        cases htarget
    · refine .inl ⟨stage, ?_⟩
      obtain hpc | ⟨htarget, hpc⟩ := hpc
      · rwa [hpc, update_of_ne hdc]
      · rwa [hpc, update_of_ne, update_of_ne hdc]
        rintro rfl
        rw [hd] at htarget
        cases htarget
  | @startReturn c k' stage₀ hc hstage hpc _ _ hreported =>
    by_cases hdc : d = c
    · subst hdc
      obtain ⟨rfl, rfl⟩ := HsmPc.start.inj (hd.symm.trans hc)
      exact .inr ⟨hstage, by rw [hreported, update_self]⟩
    · exact .inl ⟨stage, by rwa [hpc, update_of_ne hdc]⟩
  | call _ hc _ hpc => exact .inl ⟨stage, by rwa [hpc, update_of_ne (hne hc)]⟩
  | stop _ hc hpc => exact .inl ⟨stage, by rwa [hpc, update_of_ne (hne hc)]⟩
  | @reset c t hc hpc =>
    refine .inl ⟨stage, ?_⟩
    rw [hpc, update_of_ne, update_of_ne]
    · exact hd
    · rintro rfl
      have hstopped := hs.callback c d hc
      rw [hd] at hstopped
      cases hstopped
    · rintro rfl
      rw [hd] at hc
      cases hc

/-- A hart begins to stop in a `HART_STOP` of its own, and no other hart can make it. By cases of
the step, and of the place that the hart is at. -/
theorem isStopping_of_step (h : ((s.step cfg e).pc t).isStopping = true) :
    (s.pc t).isStopping = true ∨ e = .stop t ∧ s.pc t = .kernel := by
  have hupdate {c : ℕ} {p : HsmPc} (hp : p.isStopping = false)
      (h : (update s.pc c p t).isStopping = true) : (s.pc t).isStopping = true := by
    by_cases htc : t = c
    · rw [htc, update_self, hp] at h
      cases h
    · rwa [update_of_ne htc] at h
  cases moves_step cfg s e with
  | stay hpc => exact .inl (by rwa [← hpc])
  | @plain c p hpc hfrom hto =>
    rw [hpc] at h
    by_cases htc : t = c
    · rw [htc, update_self, hto.2] at h
      exact .inl (htc ▸ h)
    · rw [update_of_ne htc] at h
      exact .inl h
  | stage _ hpc => exact .inl (hupdate rfl (hpc ▸ h))
  | @activate c k _ hpc =>
    obtain hpc | ⟨-, hpc⟩ := hpc <;> rw [hpc] at h
    · exact .inl (hupdate rfl h)
    · by_cases htc : t = k.target
      · rw [htc, update_self] at h
        cases h
      · rw [update_of_ne htc] at h
        exact .inl (hupdate rfl h)
  | startReturn _ _ hpc => exact .inl (hupdate rfl (hpc ▸ h))
  | call _ _ _ hpc => exact .inl (hupdate rfl (hpc ▸ h))
  | @stop c he hc hpc =>
    rw [hpc] at h
    by_cases htc : t = c
    · exact .inr (htc ▸ ⟨he, hc⟩)
    · rw [update_of_ne htc] at h
      exact .inl h
  | @reset c u _ hpc =>
    rw [hpc] at h
    by_cases htc : t = c
    · rw [htc, update_self] at h
      cases h
    · rw [update_of_ne htc] at h
      exact .inl (hupdate rfl h)

/-- In reset, on the way there, or not there at all. -/
def Down (s : HsmSys) (t : ℕ) : Prop :=
  s.resetN t = false ∨ (s.pc t).isStopping = true ∨ s.pc t = .absent

/-- A hart that is down stays down, as long as no full startup sequence reaches it. That is the only
way out of reset. -/
theorem Down.step (hdown : s.Down t)
    (hactivate : ∀ c k, s.pc c = .start k .activate → k.target ≠ t) : (s.step cfg e).Down t := by
  have hmove {c : ℕ} {p : HsmPc} (hpc : (s.step cfg e).pc = update s.pc c p)
      (hresetN : (s.step cfg e).resetN t = s.resetN t) (habsent : s.pc c ≠ .absent)
      (hp : (s.pc c).isStopping = true → p.isStopping = true) : (s.step cfg e).Down t := by
    rw [Down, hpc, hresetN]
    by_cases htc : t = c
    · subst htc
      rw [update_self]
      exact hdown.imp_right fun h => .inl (hp (h.resolve_right habsent))
    · rwa [update_of_ne htc]
  cases moves_step cfg s e with
  | stay hpc _ hresetN => rwa [Down, hpc, hresetN]
  | plain hpc hfrom hto _ hresetN => exact hmove hpc (by rw [hresetN]) hfrom.2 (hto.2.trans ·)
  | stage hc hpc _ _ _ hresetN | startReturn hc _ hpc _ hresetN | call _ hc _ hpc _ hresetN
  | stop _ hc hpc _ hresetN =>
    exact hmove hpc (by rw [hresetN]) (by rw [hc]; exact HsmPc.noConfusion)
      (by rw [hc]; exact Bool.noConfusion)
  | @activate c k hc hpc _ hresetN =>
    have hne := (hactivate c k hc).symm
    have hresetN' : (s.step cfg e).resetN t = s.resetN t := by rw [hresetN, update_of_ne hne]
    obtain hpc | ⟨-, hpc⟩ := hpc
    · exact hmove hpc hresetN' (by rw [hc]; exact HsmPc.noConfusion)
        (by rw [hc]; exact Bool.noConfusion)
    · rw [Down, hpc, hresetN', update_of_ne hne]
      by_cases htc : t = c
      · subst htc
        rw [Down, hc] at hdown
        exact .inl (hdown.resolve_right (by rintro (h | h) <;> cases h))
      · rwa [update_of_ne htc]
  | @reset c u hc hpc _ hresetN =>
    rw [Down, hpc, hresetN]
    by_cases htu : t = u
    · exact .inl (by rw [htu, update_self])
    · rw [update_of_ne htu]
      by_cases htc : t = c
      · subst htc
        rw [Down, hc] at hdown
        exact .inl (hdown.resolve_right (by rintro (h | h) <;> cases h))
      · rwa [update_of_ne htc, update_of_ne htu]

/-- The state of a hart becomes `STOP` as it begins to stop, and at no other step. -/
theorem state_of_step (h : (s.step cfg e).state t = .stop) :
    s.state t = .stop ∨ ((s.step cfg e).pc t).isStopping = true := by
  cases moves_step cfg s e with
  | stay _ hstate | stage _ _ _ _ hstate | activate _ _ hstate | startReturn _ _ _ hstate
  | call _ _ _ _ hstate | reset _ _ hstate =>
    exact .inl (by rwa [← hstate])
  | plain _ _ _ hstate => exact .inl (hstate t h)
  | @stop c _ _ hpc hstate =>
    rw [hstate] at h
    obtain ⟨rfl, -⟩ | ⟨-, h⟩ := update_cases h
    · exact .inr (by rw [hpc, update_self]; rfl)
    · exact .inl h

/-- A hart is reported stopped if its reset bit or its state says so. -/
theorem reported_of_step (h : (s.step cfg e).reported t = true) :
    s.reported t = true ∨ s.resetN t = false ∨ s.state t = .stop := by
  cases moves_step cfg s e with
  | stay _ _ _ hreported | stage _ _ _ _ _ _ hreported | activate _ _ _ _ hreported
  | call _ _ _ _ _ _ hreported | stop _ _ _ _ _ hreported | reset _ _ _ _ hreported =>
    exact .inl (by rwa [← hreported])
  | plain _ _ _ _ _ hreported => exact hreported t h
  | startReturn _ _ _ _ _ hreported =>
    rw [hreported] at h
    exact .inl (of_update h Bool.false_ne_true).2

/-! ## Calls that do not meet -/

/-- The hart is not the target of a `HART_START` under way. -/
def Unstarted (s : HsmSys) (t : ℕ) : Prop :=
  ∀ d k stage, s.pc d = .start k stage → k.target ≠ t

/-- **Calls in order.** A `HART_START` is called for a hart that is not stopping, from
the write of its state to the assertion of its reset, and that is not the target of
another `HART_START` under way; and no hart begins to stop between the call of a
`HART_START` of it and the read of its reset bit. -/
def Orderly (cfg : HsmConfig) (s : HsmSys) : HsmEvent → Prop
  | .start c hartid _ _ =>
    s.pc c = .kernel → cfg.accepts hartid →
      (s.pc hartid.toNat).isStopping = false ∧ s.Unstarted hartid.toNat
  | .stop c => s.pc c = .kernel → ∀ d k, s.pc d = .start k .check → k.target ≠ c
  | _ => True

/-- What calls in order keep true. -/
structure Ordered (s : HsmSys) : Prop where
  alone : ∀ c d k k' stage stage', s.pc c = .start k stage → s.pc d = .start k' stage' →
    k.target = k'.target → c = d
  awake : ∀ c k, s.pc c = .start k .check → (s.pc k.target).isStopping = false
  seen : ∀ c k, s.pc c = .start k .check → k.sawStop = true → s.Down k.target
  reported : ∀ t, s.reported t = true → s.Unstarted t → s.Down t
  /-- A full startup sequence writes the state of its target before it ends. -/
  state : ∀ t, s.state t = .stop → (∀ c k stage, s.pc c = .start k stage → k.target = t →
    stage = .check ∨ stage = .waitOnline) → s.Down t

/-- Two calls for one hart are the same call: the one that is called last would have met the other.
-/
theorem Ordered.alone_step (hs : s.Ordered) (he : s.Orderly cfg e) {c d : ℕ} {k k' : StartCall}
    {stage stage' : StartStage} (hc : (s.step cfg e).pc c = .start k stage)
    (hd : (s.step cfg e).pc d = .start k' stage') (htarget : k.target = k'.target) : c = d := by
  obtain ⟨_, hc₀, -⟩ | ⟨hartid, _, _, rfl, hc₀, haccepts, hk, -⟩ := start_of_step hc <;>
    obtain ⟨_, hd₀, -⟩ | ⟨hartid', _, _, he', hd₀, haccepts', hk', -⟩ := start_of_step hd
  · exact hs.alone c d k k' _ _ hc₀ hd₀ htarget
  · subst he'
    exact absurd (htarget.trans hk') ((he hd₀ haccepts').2 c k _ hc₀)
  · exact absurd (htarget.symm.trans hk) ((he hc₀ haccepts).2 d k' _ hd₀)
  · exact (HsmEvent.start.inj he').1

/-- The target of a call that has yet to look at its reset bit does not begin to stop. -/
theorem Ordered.awake_step (hs : s.Ordered) (he : s.Orderly cfg e)
    (hc : (s.step cfg e).pc c = .start k .check) :
    ((s.step cfg e).pc k.target).isStopping = false := by
  by_contra hstopping
  have hbegins := isStopping_of_step (by simpa using hstopping)
  obtain ⟨stage, hc₀, hcheck, -⟩ | ⟨hartid, _, _, rfl, hc₀, haccepts, hk, -⟩ := start_of_step hc
  · rw [hcheck rfl] at hc₀
    rcases hbegins with h | ⟨rfl, hkernel⟩
    · rw [hs.awake c k hc₀] at h
      cases h
    · exact he hkernel c k hc₀ rfl
  · rcases hbegins with h | ⟨hstop, -⟩
    · rw [hk, (he hc₀ haccepts).1] at h
      cases h
    · cases hstop

/-- A hart that was reported stopped to its caller is still down when the call looks at its reset
bit. -/
theorem Ordered.seen_step (hs : s.Ordered) (he : s.Orderly cfg e)
    (hc : (s.step cfg e).pc c = .start k .check) (hsaw : k.sawStop = true) :
    (s.step cfg e).Down k.target := by
  obtain ⟨stage, hc₀, hcheck, -⟩ | ⟨hartid, _, _, rfl, hc₀, haccepts, hk, hsaw'⟩ :=
    start_of_step hc
  · rw [hcheck rfl] at hc₀
    refine (hs.seen c k hc₀ hsaw).step fun d k' hd htarget => ?_
    rw [hs.alone c d k k' _ _ hc₀ hd htarget.symm, hd] at hc₀
    cases hc₀
  · obtain ⟨-, hunstarted⟩ := he hc₀ haccepts
    rw [hk]
    exact (hs.reported _ (hsaw'.symm.trans hsaw) hunstarted).step fun d k' hd =>
      hunstarted d k' _ hd

/-- A call for a hart that none is under way for after the step returns in it. -/
theorem Unstarted.returns (ht : (s.step cfg e).Unstarted t) (hs : s.Inv)
    (hc : s.pc c = .start k stage) (htarget : k.target = t) :
    (stage = .check ∨ stage = .waitOnline) ∧ (s.step cfg e).reported t = false := by
  obtain ⟨stage', hc'⟩ | h := start_or_return cfg e hc hs
  · exact absurd htarget (ht c k stage' hc')
  · rwa [htarget] at h

/-- A hart that is reported stopped stays down, as long as no `HART_START` of it is under way. -/
theorem Ordered.reported_step (hs : s.Ordered) (hinv : s.Inv)
    (hreported : (s.step cfg e).reported t = true) (ht : (s.step cfg e).Unstarted t) :
    (s.step cfg e).Down t := by
  have hunstarted : s.Unstarted t := fun d k stage hd htarget => by
    rw [(ht.returns hinv hd htarget).2] at hreported
    cases hreported
  have hdown : s.Down t := by
    rcases reported_of_step hreported with h | h | h
    · exact hs.reported t h hunstarted
    · exact .inl h
    · exact hs.state t h fun d k stage hd htarget => absurd htarget (hunstarted d k stage hd)
  exact hdown.step fun d k hd => hunstarted d k _ hd

/-- A hart whose state is `STOP` is down, but for the time of a full startup sequence, which writes
the state. -/
theorem Ordered.state_step (hs : s.Ordered) (hinv : s.Inv)
    (hstate : (s.step cfg e).state t = .stop)
    (hstages : ∀ c k stage, (s.step cfg e).pc c = .start k stage → k.target = t →
      stage = .check ∨ stage = .waitOnline) : (s.step cfg e).Down t := by
  rcases state_of_step hstate with hstop | hstopping
  · have hbefore : ∀ c k stage, s.pc c = .start k stage → k.target = t →
        stage = .check ∨ stage = .waitOnline := by
      intro c k stage hc htarget
      obtain ⟨stage', hc'⟩ | ⟨hstage, -⟩ := start_or_return cfg e hc hinv
      · obtain ⟨stage₀, hc₀, hcheck, honline⟩ | ⟨_, _, _, -, hc₀, -⟩ := start_of_step hc'
        · obtain ⟨-, rfl⟩ := HsmPc.start.inj (hc.symm.trans hc₀)
          -- the state is not `STOP` as the sequence ends
          rcases hstages c k stage' hc' htarget with h | h
          · exact .inl (hcheck h)
          · refine .inr ((honline h).resolve_right fun hstart => ?_)
            rw [htarget, hstop] at hstart
            cases hstart
        · rw [hc] at hc₀
          cases hc₀
      · exact hstage
    refine (hs.state t hstop hbefore).step fun c k hc htarget => ?_
    rcases hbefore c k _ hc htarget with h | h <;> cases h
  · exact .inr (.inl hstopping)

/-- **The order is kept** by each step that meets no other call. -/
theorem Ordered.step (hs : s.Ordered) (hinv : s.Inv) (he : s.Orderly cfg e) :
    (s.step cfg e).Ordered where
  alone _ _ _ _ _ _ hc hd := hs.alone_step he hc hd
  awake _ _ hc := hs.awake_step he hc
  seen _ _ hc := hs.seen_step he hc
  reported _ h ht := hs.reported_step hinv h ht
  state _ h hstages := hs.state_step hinv h hstages

/-- No call is under way after the boot, so that there is nothing to be in order. -/
theorem init_ordered (phase : ℕ → BootPhase) : (init phase).Ordered := by
  have hno (c : ℕ) (k : StartCall) (stage : StartStage) : (init phase).pc c ≠ .start k stage := by
    rw [init]
    cases h : phase c <;> (dsimp only; rw [h]; exact HsmPc.noConfusion)
  refine ⟨fun c _ k _ stage _ hc => absurd hc (hno c k stage), fun c k hc => absurd hc (hno c k _),
    fun c k hc => absurd hc (hno c k _), fun _ h => absurd h Bool.false_ne_true,
    fun t hstop _ => ?_⟩
  simp only [Down, init] at hstop ⊢
  cases h : phase t <;> rw [h] at hstop <;> try cases hstop
  · exact .inl rfl
  · exact .inr (.inr rfl)

/-- In calls that keep order, each `HART_START` looks at the reset bit in time: its target was not
stopping at the call, and has not begun to stop since. -/
theorem Ordered.inTime (hs : s.Ordered) (e : HsmEvent) : s.InTime e := by
  cases e with
  | go c answer =>
    cases hc : s.pc c with
    | start k stage =>
      cases stage with
      | check =>
        simp only [InTime, hc, InTimeAt]
        intro hresetN hlate
        refine ⟨hs.awake c k hc, ?_⟩
        by_contra hsaw
        rcases hs.seen c k hc (by simpa using hsaw) with h | h | h
        · rw [h] at hresetN
          cases hresetN
        · rw [hs.awake c k hc] at h
          cases h
        · have hpast := hlate.1
          rw [h] at hpast
          cases hpast
      | _ => simp only [InTime, hc, InTimeAt]
    | _ => simp only [InTime, hc, InTimeAt]
  | _ => trivial

/-- **A hart that is stopped can be started again**: for any number of harts and any
interleaving of their calls and of the callbacks in which no `HART_START` of a hart meets
a `HART_STOP` of that hart, or another `HART_START` of it. -/
theorem restarts_of_orderly (cfg : HsmConfig) (phase : ℕ → BootPhase) (events : List HsmEvent)
    (horderly : EachStep (step cfg) (Orderly cfg) (init phase) events) :
    EachStep (step cfg) Restarts (init phase) events := by
  refine (EachStep.of_inv (fun s => s.Inv ∧ s.Ordered) (fun s e hs he => ?_)
    ⟨init_inv phase, init_ordered phase⟩ horderly).1
  have hin := hs.2.inTime e
  exact ⟨hs.1.restarts hin, hs.1.step hin, hs.2.step hs.1 he⟩

end HsmSys

/-- Hart 1 stops, is put into reset, and is started again by hart 0. -/
def stopThenStart : List HsmEvent :=
  [.stop 1, .go 1 false, .go 1 false, .callback, .go 0 true, .go 0 false, .status 0 1,
    .start 0 1 0x80000000 0, .go 0 false, .go 0 false, .go 0 false, .go 0 true, .go 0 false,
    .go 1 false, .go 0 false, .go 0 false, .go 1 false, .go 1 false, .go 0 false, .go 1 false,
    .go 1 false, .go 0 true]

/-- No hart calls a `HART_START` before hart 0 does, with hart 1 in reset. -/
theorem stopThenStart_orderly :
    EachStep (HsmSys.step hotplugSample) (HsmSys.Orderly hotplugSample) (HsmSys.init threeUp)
      stopThenStart := by
  refine ⟨fun _ d k hd => ?_, trivial, trivial, trivial, trivial, trivial, trivial,
    fun _ _ => ⟨rfl, fun d k stage hd => ?_⟩, trivial, trivial, trivial, trivial, trivial, trivial,
    trivial, trivial, trivial, trivial, trivial, trivial, trivial, trivial, trivial⟩
  · match d with
    | 0 | 1 | 2 | _ + 3 => cases hd
  · match d with
    | 0 | 1 | 2 | _ + 3 => cases hd
theorem restarts_stop_then_start :
    EachStep (HsmSys.step hotplugSample) HsmSys.Restarts (HsmSys.init threeUp) stopThenStart :=
  HsmSys.restarts_of_orderly hotplugSample threeUp stopThenStart stopThenStart_orderly

end ScBl
