import ScBl.Hsm.Calls

/-!
# Stopping a hart and starting it again (`mtrap.c`, `mentry.S`)

`HART_STOP` marks a hart as stopped at once; its reset is asserted later, by the
master hart. `HART_START` looks at the reset bit alone, so that it does nothing but
arm the entry of a hart that is about to go into reset, or that runs: such a hart is
lost (`start_before_callback_loses_hart`). A `HART_START` that looks at the bit in time
keeps its promises (`Inv.restarts`).
-/

namespace ScBl

open Function Runs

/-- The hart has read an entry, and has not been put into reset since. -/
def HsmPc.isPast (pc : HsmPc) : Bool :=
  match pc with
  | .taking _ => true
  | _ => pc.isUp || pc.isStopping

/-- It has read an entry, and goes on. -/
def HsmPc.isMoving (pc : HsmPc) : Bool :=
  match pc with
  | .stopped => false
  | pc => pc.isPast

/-- Where the target of a `HART_START` can be, at this stage of its full startup
sequence, as long as it has not taken the entry. -/
def StartStage.early : StartStage → HsmPc → Bool
  | .check, _ => true
  | _, .absent => true
  | .activate, .reset => true
  | _, pc => pc.isBooting

/-- Outside of M-mode, or in a call that other harts do not wait for. -/
def HsmPc.isPlain : HsmPc → Bool
  | .kernel => true
  | .status _ => true
  | pc => pc.isStopping

namespace HsmSys

variable {cfg : HsmConfig} {s : HsmSys} {e : HsmEvent}

/-- The target of the call comes out of reset, and is on its way to the entry, or it has
taken that entry or a later one. -/
def OnItsWay (s : HsmSys) (k : StartCall) : Prop :=
  (s.pc k.target).isBooting = true ∨ k.entry ≤ s.taken k.target

/-- The target has read an earlier entry than the one the call has armed. -/
def Late (s : HsmSys) (k : StartCall) : Prop :=
  (s.pc k.target).isPast = true ∧ s.taken k.target < k.entry

/-- What a hart promises by going on from where it is. -/
def RestartsAt (s : HsmSys) (answer : Bool) : HsmPc → Prop
  | .start k .check =>
    s.pc k.target ≠ .absent →
      if s.resetN k.target then k.sawStop = true → s.OnItsWay k else s.pc k.target = .reset
  | .start k .waitOnline => answer = true → s.pc k.target ≠ .absent → s.OnItsWay k
  | .callbackReset t => s.promised t = false
  | _ => True

/-- What the calls promise about the harts that are there. A `HART_START` after a
`HART_STATUS` that has reported a stop activates a hart that is in reset, or returns with
the hart on its way to its new entry; and the callback puts no hart into reset for which
a `HART_START` has returned since the stop began, with the entry not taken. -/
def Restarts (s : HsmSys) : HsmEvent → Prop
  | .go c answer => s.RestartsAt answer (s.pc c)
  | _ => True

/-- The hart is about to look at a reset bit, and it is not too late for that. -/
def InTimeAt (s : HsmSys) : HsmPc → Prop
  | .start k .check =>
    s.resetN k.target = true → s.Late k →
      (s.pc k.target).isStopping = false ∧ k.sawStop = false
  | _ => True

/-- No `HART_START` finds the reset bit of a hart set that has read an earlier entry,
if the hart is stopping, or if a `HART_STATUS` had reported that it is stopped. -/
def InTime (s : HsmSys) : HsmEvent → Prop
  | .go c _ => s.InTimeAt (s.pc c)
  | _ => True

instance (s : HsmSys) (k : StartCall) : Decidable (s.OnItsWay k) :=
  inferInstanceAs (Decidable (_ ∨ _))

instance (s : HsmSys) (answer : Bool) (pc : HsmPc) : Decidable (s.RestartsAt answer pc) :=
  match pc with
  | .start _ .check => inferInstanceAs (Decidable (_ → ite _ (_ → _) _))
  | .start _ .waitOnline => inferInstanceAs (Decidable (_ → _ → _))
  | .callbackReset _ => inferInstanceAs (Decidable (_ = _))
  | .absent | .reset | .resetWait | .setUp | .starting | .entering | .taking _ | .kernel
  | .start _ .activate | .start _ .waitReset | .start _ .waitWfi | .start _ .sendSetup
  | .start _ .waitPending | .start _ .sendStart | .start _ .waitStart | .status _ | .stopSend
  | .stopPrepare | .stopped | .callbackWait _ => isTrue trivial

instance (s : HsmSys) (e : HsmEvent) : Decidable (s.Restarts e) :=
  match e with
  | .go c answer => inferInstanceAs (Decidable (s.RestartsAt answer (s.pc c)))
  | .start .. | .stop _ | .status .. | .callback => isTrue trivial

/-! ## The invariant -/

structure Inv (s : HsmSys) : Prop where
  armed : ∀ c k stage, s.pc c = .start k stage → k.entry ≤ s.armed k.target
  early : ∀ c k stage, s.pc c = .start k stage → s.taken k.target < k.entry →
    stage.early (s.pc k.target) = true
  reset : ∀ t, s.pc t = .reset → s.resetN t = false
  inReset : ∀ t, s.resetN t = false → s.pc t = .reset ∨ s.pc t = .absent
  /-- The master hart resets a hart that is in `wfi`. -/
  callback : ∀ c t, s.pc c = .callbackReset t → s.pc t = .stopped
  master : ∀ c t, s.pc c = .callbackWait t ∨ s.pc c = .callbackReset t → c = 0
  unpromised : ∀ t, s.promised t = false

/-- The invariant is about five parts of the state only. -/
theorem Inv.congr (hs : s.Inv) {s' : HsmSys} (hpc : s'.pc = s.pc) (harmed : s'.armed = s.armed)
    (htaken : s'.taken = s.taken) (hresetN : s'.resetN = s.resetN)
    (hpromised : s'.promised = s.promised) : s'.Inv := by
  refine ⟨?_, ?_, ?_, ?_, ?_, ?_, ?_⟩
  · rw [hpc, harmed]
    exact hs.armed
  · rw [hpc, htaken]
    exact hs.early
  · rw [hpc, hresetN]
    exact hs.reset
  · rw [hpc, hresetN]
    exact hs.inReset
  · rw [hpc]
    exact hs.callback
  · rw [hpc]
    exact hs.master
  · rw [hpromised]
    exact hs.unpromised

/-- A hart on its way up is early enough for any stage of a `HART_START`, since it has yet to read
its entry. -/
theorem StartStage.early_of_isBooting {pc : HsmPc} (hpc : pc.isBooting = true)
    (stage : StartStage) : stage.early pc = true := by
  cases pc <;> first | exact absurd hpc Bool.false_ne_true | (cases stage <;> rfl)

/-- A hart that a call waits for may be waited for at all later stages: the stages after the check
ask for less and less. -/
theorem StartStage.early_next {pc : HsmPc} {stage : StartStage} (hcheck : stage ≠ .check)
    (hactivate : stage = .activate → pc ≠ .reset) (hearly : stage.early pc = true)
    (stage' : StartStage) : stage'.early pc = true := by
  cases hpc : pc.isBooting with
  | true => exact early_of_isBooting hpc stage'
  | false =>
    cases pc with
    | absent => cases stage' <;> rfl
    | reset =>
      cases stage with
      | check => exact absurd rfl hcheck
      | activate => exact absurd rfl (hactivate rfl)
      | _ => cases hearly
    | resetWait | setUp | starting | entering => cases hpc
    | _ =>
      cases stage with
      | check => exact absurd rfl hcheck
      | _ => cases hearly

/-- A full startup sequence is done with a hart that has taken its entry. -/
theorem StartStage.eq_check {pc : HsmPc} {stage : StartStage} (hpast : pc.isPast = true)
    (hearly : stage.early pc = true) : stage = .check := by
  cases stage with
  | check => rfl
  | _ =>
    cases pc <;>
      first | exact absurd hearly Bool.false_ne_true | exact absurd hpast Bool.false_ne_true

/-- What a table with one changed entry holds, it holds there or held before. -/
theorem update_cases {α : Type} {f : ℕ → α} {a x : ℕ} {v y : α} (h : update f a v x = y) :
    x = a ∧ v = y ∨ x ≠ a ∧ f x = y := by
  by_cases hx : x = a
  · rw [hx, update_self] at h
    exact .inl ⟨hx, h⟩
  · rw [update_of_ne hx] at h
    exact .inr ⟨hx, h⟩

/-- A value that an update did not write was there before, at another place. -/
theorem of_update {α : Type} {f : ℕ → α} {a x : ℕ} {v y : α} (h : update f a v x = y)
    (hv : v ≠ y) : x ≠ a ∧ f x = y :=
  (update_cases h).resolve_left fun hnew => hv hnew.2

variable {c : ℕ} {p : HsmPc}

/-- **A hart moves.** It is not in reset or in `wfi`, and the calls find each other's
targets where they may. -/
theorem Inv.setPc (hs : s.Inv) (hfrom : s.pc c ≠ .reset ∧ s.pc c ≠ .absent ∧ s.pc c ≠ .stopped)
    (hto : p ≠ .reset)
    (htarget : ∀ d k stage, s.pc d = .start k stage → k.target = c → s.taken c < k.entry →
      stage.early p = true)
    (hcall : ∀ k stage, p = .start k stage → k.entry ≤ s.armed k.target ∧
      (s.taken k.target < k.entry → stage.early (update s.pc c p k.target) = true))
    (hmaster : ∀ t, p = .callbackWait t ∨ p = .callbackReset t → c = 0)
    (hcallback : ∀ t, p = .callbackReset t → s.pc t = .stopped) : (s.setPc c p).Inv := by
  refine ⟨?_, ?_, ?_, ?_, ?_, ?_, hs.unpromised⟩
  · intro d k stage hd
    obtain ⟨-, hp⟩ | ⟨-, hd⟩ := update_cases hd
    · exact (hcall k stage hp).1
    · exact hs.armed d k stage hd
  · intro d k stage hd hlt
    obtain ⟨-, hp⟩ | ⟨-, hd⟩ := update_cases hd
    · exact (hcall k stage hp).2 hlt
    · by_cases htc : k.target = c
      · rw [setPc_pc, htc, update_self]
        exact htarget d k stage hd htc (htc ▸ hlt)
      · rw [setPc_pc, update_of_ne htc]
        exact hs.early d k stage hd hlt
  · intro t ht
    exact hs.reset t (of_update ht hto).2
  · intro t ht
    have htc : t ≠ c := by
      rintro rfl
      rcases hs.inReset t ht with h | h
      · exact hfrom.1 h
      · exact hfrom.2.1 h
    rw [setPc_pc, update_of_ne htc]
    exact hs.inReset t ht
  · intro d t hd
    have hstopped : s.pc t = .stopped := by
      obtain ⟨-, hp⟩ | ⟨-, hd⟩ := update_cases hd
      · exact hcallback t hp
      · exact hs.callback d t hd
    have htc : t ≠ c := by
      rintro rfl
      exact hfrom.2.2 hstopped
    rwa [setPc_pc, update_of_ne htc]
  · intro d t hd
    by_cases hdc : d = c
    · rw [setPc_pc, hdc, update_self] at hd
      exact hdc.trans (hmaster t hd)
    · rw [setPc_pc, update_of_ne hdc] at hd
      exact hs.master d t hd

/-- A hart goes on with its boot. Calls that wait for it find it on its way up before and after. -/
theorem Inv.boot (hs : s.Inv) (hfrom : (s.pc c).isBooting = true) (hto : p.isBooting = true) :
    (s.setPc c p).Inv := by
  refine hs.setPc ?_ ?_ (fun _ _ stage _ _ _ => StartStage.early_of_isBooting hto stage)
    ?_ ?_ ?_
  · refine ⟨?_, ?_, ?_⟩ <;> (intro h; rw [h] at hfrom; cases hfrom)
  · rintro rfl
    cases hto
  · rintro k stage rfl
    cases hto
  · rintro t (rfl | rfl) <;> cases hto
  · rintro t rfl
    cases hto

theorem isPast_of_isMoving {pc : HsmPc} (hpc : pc.isMoving = true) : pc.isPast = true := by
  cases pc <;> first | exact hpc | exact absurd hpc Bool.false_ne_true

/-- A hart goes on in the kernel or in a call. It has read its entry, so that no call is left at a
stage where it waits for this hart. -/
theorem Inv.run (hs : s.Inv) (hfrom : (s.pc c).isMoving = true) (hto : p ≠ .reset)
    (hcall : ∀ k stage, p = .start k stage → k.entry ≤ s.armed k.target ∧
      (s.taken k.target < k.entry → stage.early (update s.pc c p k.target) = true))
    (hmaster : ∀ t, p = .callbackWait t ∨ p = .callbackReset t → c = 0)
    (hcallback : ∀ t, p = .callbackReset t → s.pc t = .stopped) : (s.setPc c p).Inv := by
  refine hs.setPc ?_ hto ?_ hcall hmaster hcallback
  · refine ⟨?_, ?_, ?_⟩ <;> (intro h; rw [h] at hfrom; cases hfrom)
  · rintro d k stage hd rfl hlt
    rw [StartStage.eq_check (isPast_of_isMoving hfrom) (hs.early d k stage hd hlt)]
    rfl

/-- A hart that goes on to a place no other hart waits for. -/
theorem Inv.toPlain (hs : s.Inv) (hfrom : (s.pc c).isMoving = true) (hto : p.isPlain = true) :
    (s.setPc c p).Inv := by
  refine hs.run hfrom ?_ ?_ ?_ ?_
  · rintro rfl
    cases hto
  · rintro k stage rfl
    cases hto
  · rintro t (rfl | rfl) <;> cases hto
  · rintro t rfl
    cases hto

/-- A hart that goes on to a stage of its own `HART_START`. The target must be early enough for that
stage, or have taken the entry. -/
theorem Inv.toStart (hs : s.Inv) (hfrom : (s.pc c).isMoving = true) {k : StartCall}
    {stage : StartStage} (harmed : k.entry ≤ s.armed k.target)
    (hearly : s.taken k.target < k.entry →
      stage.early (update s.pc c (.start k stage) k.target) = true) :
    (s.setPc c (.start k stage)).Inv := by
  refine hs.run hfrom HsmPc.noConfusion ?_ ?_ ?_
  · intro k' stage' hp
    obtain ⟨rfl, rfl⟩ := HsmPc.start.inj hp
    exact ⟨harmed, hearly⟩
  · rintro t (hp | hp) <;> cases hp
  · intro t hp
    cases hp

/-- A `HART_START` is called, and arms an entry. The entries that calls under way have armed are not
later than this one. -/
theorem Inv.arm (hs : s.Inv) (t : ℕ) :
    ({ s with armed := update s.armed t (s.armed t + 1) } : HsmSys).Inv := by
  refine ⟨fun c k stage hc => ?_, hs.early, hs.reset, hs.inReset, hs.callback, hs.master,
    hs.unpromised⟩
  have harmed := hs.armed c k stage hc
  by_cases htarget : k.target = t
  · simp only [htarget, update_self]
    rw [htarget] at harmed
    omega
  · simpa only [update_of_ne htarget] using harmed

/-- A hart reads the entry that is armed for it. It is not earlier than the one that any call has
armed, so that no call has a claim on the hart any more. -/
theorem Inv.take (hs : s.Inv) (t : ℕ) :
    ({ s with taken := update s.taken t (s.armed t) } : HsmSys).Inv := by
  refine ⟨hs.armed, fun c k stage hc hlt => ?_, hs.reset, hs.inReset, hs.callback, hs.master,
    hs.unpromised⟩
  by_cases htarget : k.target = t
  · have harmed := hs.armed c k stage hc
    simp only [htarget, update_self] at hlt
    rw [htarget] at harmed
    omega
  · exact hs.early c k stage hc (by simpa only [update_of_ne htarget] using hlt)

/-! ## The startup sequence and the reset -/

section Start

variable {k : StartCall} {stage : StartStage}

/-- A hart that is not taking part in its own startup. -/
theorem Inv.target_ne (hs : s.Inv) (hc : s.pc c = .start k stage) (hstage : stage ≠ .check)
    (hlt : s.taken k.target < k.entry) : k.target ≠ c := by
  intro htarget
  refine hstage (StartStage.eq_check ?_ (hs.early c k stage hc hlt))
  rw [htarget, hc]
  rfl

/-- A full startup sequence goes on. -/
theorem Inv.goOn (hs : s.Inv) (hc : s.pc c = .start k stage) (hstage : stage ≠ .check)
    (hactivate : stage = .activate → s.pc k.target ≠ .reset) (stage' : StartStage) :
    (s.setPc c (.start k stage')).Inv := by
  refine hs.toStart (by rw [hc]; rfl) (hs.armed c k stage hc) fun hlt => ?_
  rw [update_of_ne (hs.target_ne hc hstage hlt)]
  exact StartStage.early_next hstage hactivate (hs.early c k stage hc hlt) stage'

/-- The call returns, and its target is not stopping without the entry, which is what it would have
promised in vain. -/
theorem Inv.startReturn (hs : s.Inv) (hc : s.pc c = .start k stage) (hleaves : s.leaves k = false) :
    (s.startReturn c k).Inv := by
  have hkernel : (s.setPc c .kernel).Inv :=
    hs.toPlain (by rw [hc]; rfl) rfl
  refine hkernel.congr rfl rfl rfl rfl ?_
  rw [HsmSys.startReturn, hleaves]
  rfl

/-- A call finds its target in reset. So the target is there, or missing from the board, and in both
cases the call may activate it. -/
theorem Inv.startFull (hs : s.Inv) (hc : s.pc c = .start k .check)
    (hresetN : s.resetN k.target = false) : (s.setPc c (.start k .activate)).Inv := by
  refine hs.toStart (by rw [hc]; rfl) (hs.armed c k _ hc) fun _ => ?_
  have htarget := hs.inReset k.target hresetN
  have hne : k.target ≠ c := by
    intro heq
    rw [heq, hc] at htarget
    rcases htarget with h | h <;> cases h
  rw [update_of_ne hne]
  rcases htarget with h | h <;> (rw [h]; rfl)

end Start

/-- The reset of a hart is deasserted. It comes up from the start, with all its entries still to be
read. -/
theorem Inv.release (hs : s.Inv) {t : ℕ} (ht : s.pc t = .reset) :
    ({ s with
      resetN := update s.resetN t true
      pc := update s.pc t .resetWait
      inbox := update s.inbox t [] } : HsmSys).Inv := by
  refine ⟨?_, ?_, ?_, ?_, ?_, ?_, hs.unpromised⟩
  · intro d k stage hd
    exact hs.armed d k stage (of_update hd HsmPc.noConfusion).2
  · intro d k stage hd hlt
    dsimp only
    by_cases htarget : k.target = t
    · rw [htarget, update_self]
      exact StartStage.early_of_isBooting rfl stage
    · rw [update_of_ne htarget]
      exact hs.early d k stage (of_update hd HsmPc.noConfusion).2 hlt
  · intro u hu
    obtain ⟨hne, hpc⟩ := of_update hu HsmPc.noConfusion
    simpa only [update_of_ne hne] using hs.reset u hpc
  · intro u hu
    have hne : u ≠ t := by
      rintro rfl
      simp only [update_self] at hu
      cases hu
    simp only [update_of_ne hne] at hu ⊢
    exact hs.inReset u hu
  · intro d u hd
    have hstopped := hs.callback d u (of_update hd HsmPc.noConfusion).2
    have hne : u ≠ t := by
      rintro rfl
      rw [ht] at hstopped
      cases hstopped
    simpa only [update_of_ne hne] using hstopped
  · rintro d u (hd | hd)
    · exact hs.master d u (.inl (of_update hd HsmPc.noConfusion).2)
    · exact hs.master d u (.inr (of_update hd HsmPc.noConfusion).2)

/-- It was not asserted. -/
theorem Inv.released (hs : s.Inv) {t : ℕ} (ht : s.pc t ≠ .reset) :
    ({ s with resetN := update s.resetN t true } : HsmSys).Inv := by
  refine ⟨hs.armed, hs.early, fun u hu => ?_, fun u hu => ?_, hs.callback, hs.master,
    hs.unpromised⟩
  · have hne : u ≠ t := by
      rintro rfl
      exact ht hu
    simpa only [update_of_ne hne] using hs.reset u hu
  · have hne : u ≠ t := by
      rintro rfl
      simp only [update_self] at hu
      cases hu
    simp only [update_of_ne hne] at hu
    exact hs.inReset u hu

/-- The master hart asserts the reset of a hart. It has seen that hart in `wfi`, so that no call
waits for it, and the hart is in reset from here on. -/
theorem Inv.assertReset (hs : s.Inv) {t : ℕ} (hc : s.pc c = .callbackReset t) :
    ({ s with
      resetN := update s.resetN t false
      pc := update (update s.pc t .reset) c .kernel
      promised := update s.promised t false } : HsmSys).Inv := by
  have hstopped := hs.callback c t hc
  have htc : t ≠ c := by
    rintro rfl
    rw [hc] at hstopped
    cases hstopped
  have hother : ∀ d p, update (update s.pc t .reset) c .kernel d = p → .kernel ≠ p →
      .reset ≠ p → d ≠ c ∧ s.pc d = p := by
    intro d p hd hkernel hreset
    obtain ⟨hdc, hd⟩ := of_update hd hkernel
    exact ⟨hdc, (of_update hd hreset).2⟩
  refine ⟨?_, ?_, ?_, ?_, ?_, ?_, ?_⟩
  · intro d k stage hd
    exact hs.armed d k stage (hother d _ hd HsmPc.noConfusion HsmPc.noConfusion).2
  · intro d k stage hd hlt
    dsimp only
    have hearly := hs.early d k stage (hother d _ hd HsmPc.noConfusion HsmPc.noConfusion).2 hlt
    -- nobody waits for the hart that is reset, or for the master hart
    by_cases huc : k.target = c
    · rw [huc, hc] at hearly
      rw [StartStage.eq_check rfl hearly]
      rfl
    · rw [update_of_ne huc]
      by_cases hut : k.target = t
      · rw [hut, hstopped] at hearly
        rw [StartStage.eq_check rfl hearly]
        rfl
      · rwa [update_of_ne hut]
  · intro u hu
    dsimp only at hu ⊢
    by_cases hut : u = t
    · rw [hut, update_self]
    · have huc : u ≠ c := by
        rintro rfl
        rw [update_self] at hu
        cases hu
      rw [update_of_ne huc, update_of_ne hut] at hu
      rw [update_of_ne hut]
      exact hs.reset u hu
  · intro u hu
    dsimp only at hu ⊢
    by_cases hut : u = t
    · rw [hut, update_of_ne htc, update_self]
      exact .inl rfl
    · rw [update_of_ne hut] at hu
      have hpc := hs.inReset u hu
      have huc : u ≠ c := by
        rintro rfl
        rw [hc] at hpc
        rcases hpc with h | h <;> cases h
      rwa [update_of_ne huc, update_of_ne hut]
  · intro d u hd
    obtain ⟨hdc, hpc⟩ := hother d _ hd HsmPc.noConfusion HsmPc.noConfusion
    -- there is one master hart
    exact absurd ((hs.master d u (.inr hpc)).trans (hs.master c t (.inr hc)).symm) hdc
  · rintro d u (hd | hd)
    · exact hs.master d u (.inl (hother d _ hd HsmPc.noConfusion HsmPc.noConfusion).2)
    · exact hs.master d u (.inr (hother d _ hd HsmPc.noConfusion HsmPc.noConfusion).2)
  · intro u
    dsimp only
    by_cases hut : u = t
    · rw [hut, update_self]
    · rw [update_of_ne hut]
      exact hs.unpromised u

/-! ## Steps -/

section Start

variable {k : StartCall} {stage : StartStage}

/-- No call returns while its target is stopping without the entry. -/
theorem leaves_eq_false
    (h : (s.pc k.target).isStopping = true → s.taken k.target < k.entry → False) :
    s.leaves k = false := by
  rw [leaves, Bool.and_eq_false_imp]
  exact fun hstopping => decide_eq_false (h hstopping)

theorem isPast_of_isStopping {pc : HsmPc} (hpc : pc.isStopping = true) : pc.isPast = true := by
  cases pc <;> first | rfl | exact absurd hpc Bool.false_ne_true

theorem eq_reset_of_inReset {pc : HsmPc} (hpc : pc.inReset = true) : pc = .reset := by
  cases pc <;> first | rfl | exact absurd hpc Bool.false_ne_true

theorem eq_stopped_of_isStopped {pc : HsmPc} (hpc : pc.isStopped = true) : pc = .stopped := by
  cases pc <;> first | rfl | exact absurd hpc Bool.false_ne_true

/-- **At the reset bit.** This is where a start can come too late, and where the condition is used:
the target has not read an earlier entry, and so it will read this one. -/
theorem Inv.check (hs : s.Inv) (hc : s.pc c = .start k .check) {answer : Bool}
    (hin : s.InTime (.go c answer)) : (s.goStart cfg c k answer .check).Inv := by
  rw [HsmSys.goStart]
  split_ifs with hfull
  · exact hs.startFull hc (by simpa using (Bool.and_eq_true_iff.mp hfull).2)
  · refine hs.startReturn hc (leaves_eq_false fun hstopping hlt => ?_)
    have hpast := isPast_of_isStopping hstopping
    rcases hresetN : s.resetN k.target with _ | _
    · rcases hs.inReset _ hresetN with h | h <;> (rw [h] at hstopping; cases hstopping)
    · simp only [InTime, hc, InTimeAt] at hin
      rw [(hin hresetN ⟨hpast, hlt⟩).1] at hstopping
      cases hstopping

/-- The target is taken out of reset, and goes the whole way. By cases of where it is: a hart that
is missing never comes up. -/
theorem Inv.activate (hs : s.Inv) (hc : s.pc c = .start k .activate) (answer : Bool) :
    (s.goStart cfg c k answer .activate).Inv := by
  rw [HsmSys.goStart]
  by_cases ht : s.pc k.target = .reset
  · have hne : k.target ≠ c := by
      intro heq
      rw [heq, hc] at ht
      cases ht
    have hreleased := hs.release ht
    have hpc : update s.pc k.target .resetWait c = .start k .activate :=
      (update_of_ne hne.symm ..).trans hc
    have hon := hreleased.goOn hpc (by decide)
      (fun _ => by simp only [update_self]; exact HsmPc.noConfusion) .waitReset
    rw [if_pos (by rw [setPc_pc, update_of_ne hne, ht]; rfl)]
    exact hon.congr (update_comm hne ..).symm rfl rfl rfl rfl
  · have hon := (hs.released ht).goOn hc (by decide) (fun _ => ht) .waitReset
    rw [if_neg]
    · exact hon.congr rfl rfl rfl rfl rfl
    · intro hin
      rw [setPc_pc] at hin
      by_cases heq : k.target = c
      · rw [heq, update_self] at hin
        cases hin
      · rw [update_of_ne heq] at hin
        exact ht (eq_reset_of_inReset hin)

/-- All stages of a `HART_START`. -/
theorem Inv.goStart (hs : s.Inv) (hc : s.pc c = .start k stage) {answer : Bool}
    (hin : s.InTime (.go c answer)) : (s.goStart cfg c k answer stage).Inv := by
  have hnext : ∀ stage', stage ≠ .check → stage ≠ .activate →
      (s.setPc c (.start k stage')).Inv := fun stage' hcheck hactivate =>
    hs.goOn hc hcheck (fun h => absurd h hactivate) stage'
  cases stage with
  | check => exact hs.check hc hin
  | activate => exact hs.activate hc answer
  | sendSetup => exact (hnext _ (by decide) (by decide)).congr rfl rfl rfl rfl rfl
  | sendStart => exact (hnext _ (by decide) (by decide)).congr rfl rfl rfl rfl rfl
  | waitOnline =>
    rw [HsmSys.goStart]
    split_ifs
    · refine hs.startReturn hc (leaves_eq_false fun hstopping hlt => ?_)
      cases StartStage.eq_check (isPast_of_isStopping hstopping) (hs.early c k _ hc hlt)
    · exact hs
  | _ =>
    rw [HsmSys.goStart]
    split_ifs
    · exact hnext _ (by decide) (by decide)
    · exact hs

end Start

/-- A hart on its way up that waits for a word. -/
theorem Inv.waitCmd (hs : s.Inv) (cmd : BootCmd) (state : HartState)
    (hfrom : (s.pc c).isBooting = true) (hto : p.isBooting = true) :
    (s.waitCmd c cmd state p).Inv := by
  rw [HsmSys.waitCmd]
  split
  · exact hs
  · split_ifs
    · exact (hs.boot hfrom hto).congr rfl rfl rfl rfl rfl
    · exact hs.congr rfl rfl rfl rfl rfl

/-- A hart finds its entry armed: it takes the latest one, which is not before that of any call
under way. -/
theorem Inv.takeEntry (hs : s.Inv) (hc : s.pc c = .entering) (regs : HsmStartRegs) :
    ({ s with
      taken := update s.taken c (s.armed c)
      pc := update s.pc c (.taking regs) } : HsmSys).Inv := by
  refine (hs.take c).setPc (p := .taking regs) ?_ HsmPc.noConfusion ?_ ?_ ?_ ?_
  · dsimp only
    rw [hc]
    exact ⟨HsmPc.noConfusion, HsmPc.noConfusion, HsmPc.noConfusion⟩
  · intro d k stage hd htarget hlt
    have harmed := hs.armed d k stage hd
    simp only [update_self] at hlt
    rw [htarget] at harmed
    omega
  · intro k stage hp
    cases hp
  · rintro t (hp | hp) <;> cases hp
  · intro t hp
    cases hp

/-- A hart goes on, from wherever it is. By cases of the place, each with the lemma for the kind of
step that is made there. -/
theorem Inv.go (hs : s.Inv) {answer : Bool} (hin : s.InTime (.go c answer)) :
    (s.go cfg c answer).Inv := by
  have hplain : ∀ p : HsmPc, p.isPlain = true → (s.pc c).isMoving = true → (s.setPc c p).Inv :=
    fun p hto hfrom => hs.toPlain hfrom hto
  cases hpc : s.pc c with
  | absent | reset | kernel | stopped =>
    simp only [HsmSys.go, hpc]
    exact hs
  | resetWait =>
    simp only [HsmSys.go, hpc]
    exact hs.waitCmd _ _ (by rw [hpc]; rfl) rfl
  | setUp =>
    simp only [HsmSys.go, hpc]
    exact hs.waitCmd _ _ (by rw [hpc]; rfl) rfl
  | starting =>
    simp only [HsmSys.go, hpc]
    exact (hs.boot (by rw [hpc]; rfl) rfl).congr rfl rfl rfl rfl rfl
  | entering =>
    simp only [HsmSys.go, hpc]
    split_ifs
    · exact (hs.takeEntry hpc (s.startArr c)).congr rfl rfl rfl rfl rfl
    · exact hs
  | taking regs =>
    simp only [HsmSys.go, hpc]
    exact (hplain _ rfl (by rw [hpc]; rfl)).congr rfl rfl rfl rfl rfl
  | start k stage =>
    simp only [HsmSys.go, hpc]
    exact hs.goStart hpc hin
  | status t =>
    simp only [HsmSys.go, hpc]
    exact (hplain _ rfl (by rw [hpc]; rfl)).congr rfl rfl rfl rfl rfl
  | stopSend =>
    simp only [HsmSys.go, hpc]
    exact (hplain _ rfl (by rw [hpc]; rfl)).congr rfl rfl rfl rfl rfl
  | stopPrepare =>
    simp only [HsmSys.go, hpc]
    exact hplain _ rfl (by rw [hpc]; rfl)
  | callbackWait t =>
    simp only [HsmSys.go, hpc]
    split_ifs with hanswer
    · have hstopped := eq_stopped_of_isStopped (Bool.and_eq_true_iff.mp hanswer).1
      refine hs.run (by rw [hpc]; rfl) HsmPc.noConfusion ?_ ?_ ?_
      · intro k stage hp
        cases hp
      · exact fun _ _ => hs.master c t (.inl hpc)
      · intro u hp
        rwa [← HsmPc.callbackReset.inj hp]
    · exact hs
  | callbackReset t =>
    simp only [HsmSys.go, hpc]
    exact hs.assertReset hpc

/-- A hart outside of M-mode moves on. -/
theorem Inv.fromKernel (hs : s.Inv) (hc : s.pc c = .kernel) (hto : p.isPlain = true) :
    (s.setPc c p).Inv :=
  hs.toPlain (by rw [hc]; rfl) hto

/-- A call arms an entry that is later than all before it. -/
theorem Inv.hartStart (hs : s.Inv) (hc : s.pc c = .kernel) (hartid startAddr opaqueArg : U64) :
    (s.hartStart cfg c hartid startAddr opaqueArg).Inv := by
  rw [HsmSys.hartStart]
  split_ifs
  · exact (hs.fromKernel hc (p := .kernel) rfl).congr rfl rfl rfl rfl rfl
  · refine ((hs.arm hartid.toNat).toStart (c := c) ?_ ?_ fun _ => rfl).congr rfl rfl rfl rfl rfl
    · dsimp only
      rw [hc]
      rfl
    · dsimp only
      rw [update_self]

/-- **The invariant is preserved** by a step that comes in time. -/
theorem Inv.step (hs : s.Inv) (hin : s.InTime e) : (s.step cfg e).Inv := by
  cases e with
  | start c hartid startAddr opaqueArg =>
    rw [HsmSys.step]
    split
    · rename_i hc
      exact hs.hartStart hc hartid startAddr opaqueArg
    · exact hs
  | stop c =>
    rw [HsmSys.step]
    split
    · rename_i hc
      rw [hartStop]
      split_ifs
      · exact (hs.fromKernel hc (p := .stopSend) rfl).congr rfl rfl rfl rfl rfl
      · exact (hs.fromKernel hc (p := .kernel) rfl).congr rfl rfl rfl rfl rfl
      · exact (hs.fromKernel hc (p := .kernel) rfl).congr rfl rfl rfl rfl rfl
    · exact hs
  | status c hartid =>
    rw [HsmSys.step]
    split
    · rename_i hc
      rw [hartStatus]
      split_ifs
      · exact hs.fromKernel hc rfl
      · exact (hs.fromKernel hc (p := .kernel) rfl).congr rfl rfl rfl rfl rfl
      · exact (hs.fromKernel hc (p := .kernel) rfl).congr rfl rfl rfl rfl rfl
      · exact (hs.fromKernel hc (p := .kernel) rfl).congr rfl rfl rfl rfl rfl
    · exact hs
  | callback =>
    rw [HsmSys.step]
    split
    · rename_i t stops hc _
      refine (hs.run (c := 0) (p := .callbackWait t) (by rw [hc]; rfl) HsmPc.noConfusion
        ?_ ?_ ?_).congr rfl rfl rfl rfl rfl
      · intro k stage hp
        cases hp
      · exact fun _ _ => rfl
      · intro u hp
        cases hp
    · exact hs
  | go c answer => exact hs.go hin

/-- At boot no entry has been armed. -/
theorem init_inv (phase : ℕ → BootPhase) : (init phase).Inv := by
  refine ⟨?_, ?_, ?_, ?_, ?_, ?_, fun _ => rfl⟩ <;> simp only [init]
  · intro c k stage hc
    cases hphase : phase c <;> rw [hphase] at hc <;> cases hc
  · intro c k stage hc
    cases hphase : phase c <;> rw [hphase] at hc <;> cases hc
  · intro t ht
    cases hphase : phase t <;> rw [hphase] at ht <;> first | rfl | cases ht
  · intro t ht
    cases hphase : phase t with
    | inReset => exact .inl rfl
    | absent => exact .inr rfl
    | _ =>
      rw [hphase] at ht
      cases ht
  · intro c t hc
    cases hphase : phase c <;> rw [hphase] at hc <;> cases hc
  · rintro c t (hc | hc) <;> cases hphase : phase c <;> rw [hphase] at hc <;> cases hc

/-! ## Restarts -/

/-- A hart that is neither past its entry nor in reset is booting. -/
theorem isBooting_or_isPast {pc : HsmPc} (hreset : pc ≠ .reset) (habsent : pc ≠ .absent) :
    pc.isBooting = true ∨ pc.isPast = true := by
  cases pc with
  | absent => exact absurd rfl habsent
  | reset => exact absurd rfl hreset
  | resetWait | setUp | starting | entering => exact .inl rfl
  | _ => exact .inr rfl

/-- What the invariant says about the next step: each of the promises is a part of the invariant at
the place where it is made. -/
theorem Inv.restarts (hs : s.Inv) (hin : s.InTime e) : s.Restarts e := by
  cases e with
  | go c answer =>
    cases hpc : s.pc c with
    | start k stage =>
      cases stage with
      | check =>
        simp only [InTime, hpc, InTimeAt] at hin
        simp only [Restarts, hpc, RestartsAt]
        intro habsent
        split_ifs with hresetN
        · intro hsaw
          have hreset : s.pc k.target ≠ .reset := by
            intro h
            rw [hs.reset _ h] at hresetN
            cases hresetN
          rcases isBooting_or_isPast hreset habsent with hbooting | hpast
          · exact .inl hbooting
          · right
            by_contra hlt
            rw [(hin hresetN ⟨hpast, Nat.lt_of_not_le hlt⟩).2] at hsaw
            cases hsaw
        · exact (hs.inReset k.target (by simpa using hresetN)).resolve_right habsent
      | waitOnline =>
        simp only [Restarts, hpc, RestartsAt]
        intro _ habsent
        by_cases htaken : k.entry ≤ s.taken k.target
        · exact .inr htaken
        · have hearly := hs.early c k _ hpc (Nat.lt_of_not_le htaken)
          have hreset : s.pc k.target ≠ .reset := by
            intro h
            rw [h] at hearly
            cases hearly
          rcases isBooting_or_isPast hreset habsent with hbooting | hpast
          · exact .inl hbooting
          · cases StartStage.eq_check hpast hearly
      | _ =>
        simp only [Restarts, hpc, RestartsAt]
    | callbackReset t =>
      simp only [Restarts, hpc, RestartsAt]
      exact hs.unpromised t
    | _ => simp only [Restarts, hpc, RestartsAt]
  | _ => trivial

end HsmSys

/-- Hart 1 stops. Hart 2 asks for its status, and starts it, before hart 0 takes the stop
message and puts it into reset. -/
def startBeforeCallback : List HsmEvent :=
  [.stop 1, .go 1 false, .go 1 false, .status 2 1, .go 2 false, .start 2 1 0x80000000 0,
    .go 2 false, .callback, .go 0 true, .go 0 false]

/-- Three harts that run. -/
def threeUp (t : ℕ) : BootPhase := if t < 3 then .up else .absent false

def hotplugSample : HsmConfig where
  smpHartNum := 8
  hotplug := true
  numHarts := 3
  active := fun t => decide (t < 3)

/-- **A hart is lost**: `HART_START` returns for hart 1, which then goes into reset. -/
theorem start_before_callback_loses_hart :
    ¬ ∀ (cfg : HsmConfig) (phase : ℕ → BootPhase) (events : List HsmEvent),
      EachStep (HsmSys.step cfg) HsmSys.Restarts (HsmSys.init phase) events := by
  intro hall
  have hlost := hall hotplugSample threeUp startBeforeCallback
  revert hlost
  decide +kernel

end ScBl
