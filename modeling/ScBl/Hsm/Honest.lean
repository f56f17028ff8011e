import ScBl.Hsm.Calls

/-!
# Which harts `HART_START` accepts (`mtrap.c`, `mcall_ext_hsm`)

`HART_START` looks at the number of the hart only. It should accept a hart that
exists and waits to be started, and refuse every other number without touching
`hsm_start_arr`. It does so in the runs where it is called for no other hart that
has an entry in the table (`honest_iff`).
-/

namespace ScBl

open Function Runs

/-- The hart has taken its entry, and has not been put into reset since. -/
def HsmPc.started (pc : HsmPc) : Bool := pc.isUp || pc.isStopping

namespace HsmSys

variable {cfg : HsmConfig} {s : HsmSys} {e : HsmEvent}

/-- The harts that can be started: secondary harts below `num_harts` that are
active, and neither started nor about to be. -/
structure Startable (cfg : HsmConfig) (s : HsmSys) (t : ℕ) : Prop where
  secondary : t ≠ 0
  exists_hart : t < cfg.numHarts
  active : cfg.active t = true
  idle : (s.pc t).started = false
  unarmed : (s.startArr t).initialized = false

/-- No entry is armed for a hart that runs. -/
def Quiet (pc : ℕ → HsmPc) (startArr : ℕ → HsmStartRegs) : Prop :=
  ∀ t, (pc t).started = true → (startArr t).initialized = false

/-- A `HART_START` of a hart that cannot be started is refused at once, with an error
code and with `hsm_start_arr` as it was; and no entry is armed for a hart that runs. -/
structure Honest (cfg : HsmConfig) (s : HsmSys) (e : HsmEvent) : Prop where
  refused : ∀ c hartid startAddr opaqueArg, e = .start c hartid startAddr opaqueArg →
    s.pc c = .kernel → ¬ Startable cfg s hartid.toNat →
      (s.step cfg e).pc c = .kernel ∧ ((s.step cfg e).ret c).1 < 0 ∧
        (s.step cfg e).startArr = s.startArr
  quiet : Quiet (s.step cfg e).pc (s.step cfg e).startArr

/-- A `HART_START` is for a hart that can be started, or for a number it refuses. -/
def AsksStartable (cfg : HsmConfig) (s : HsmSys) : HsmEvent → Prop
  | .start c hartid _ _ =>
    s.pc c = .kernel →
      hartid = 0#64 ∨ cfg.smpHartNum ≤ hartid.toNat ∨ Startable cfg s hartid.toNat
  | _ => True

/-! ## One step -/

section Quiet

variable {pc : ℕ → HsmPc} {startArr : ℕ → HsmStartRegs} {p : HsmPc} {c : ℕ}

theorem Quiet.setPc (hs : Quiet pc startArr)
    (hp : p.started = true → (startArr c).initialized = false) :
    Quiet (update pc c p) startArr := by
  intro t ht
  by_cases htc : t = c
  · rw [htc, update_self] at ht
    rw [htc]
    exact hp ht
  · rw [update_of_ne htc] at ht
    exact hs t ht

/-- An entry is armed for a hart that does not run, so that nobody reads the registers that are
overwritten. -/
theorem Quiet.arm (hs : Quiet pc startArr) {t : ℕ} (ht : (pc t).started = false)
    (regs : HsmStartRegs) : Quiet pc (update startArr t regs) := by
  intro u hu
  have hne : u ≠ t := by
    rintro rfl
    rw [ht] at hu
    cases hu
  rw [update_of_ne hne]
  exact hs u hu

end Quiet

/-- What is left to do for a hart that runs all the same. -/
theorem Quiet.stays (hs : Quiet s.pc s.startArr) {c : ℕ} (hc : (s.pc c).started = true)
    (p : HsmPc) : Quiet (update s.pc c p) s.startArr :=
  hs.setPc fun _ => hs c hc

theorem Quiet.waitCmd (hs : Quiet s.pc s.startArr) (c : ℕ) (cmd : BootCmd) (state : HartState)
    {p : HsmPc} (hp : p.started = false) :
    Quiet (s.waitCmd c cmd state p).pc (s.waitCmd c cmd state p).startArr := by
  rw [HsmSys.waitCmd]
  split
  · exact hs
  · split_ifs
    · refine hs.setPc fun hstarted => ?_
      rw [hp] at hstarted
      cases hstarted
    · exact hs

theorem Quiet.goStart (hs : Quiet s.pc s.startArr) {c : ℕ} {k : StartCall} {stage : StartStage}
    (hc : s.pc c = .start k stage) (answer : Bool) :
    Quiet (s.goStart cfg c k answer stage).pc (s.goStart cfg c k answer stage).startArr := by
  have hstays := hs.stays (c := c) (by rw [hc]; rfl)
  cases stage with
  | check =>
    rw [HsmSys.goStart]
    split_ifs
    · exact hstays _
    · exact hstays _
  | activate =>
    rw [HsmSys.goStart]
    split_ifs
    · exact (hstays _).setPc fun hstarted => nomatch hstarted
    · exact hstays _
  | sendSetup => exact hstays _
  | sendStart => exact hstays _
  | _ =>
    rw [HsmSys.goStart]
    split_ifs
    · exact hstays _
    · exact hs

theorem Quiet.go (hs : Quiet s.pc s.startArr) (c : ℕ) (answer : Bool) :
    Quiet (s.go cfg c answer).pc (s.go cfg c answer).startArr := by
  have hstays := hs.stays (c := c)
  cases hpc : s.pc c with
  | absent | reset | kernel | stopped =>
    simp only [HsmSys.go, hpc]
    exact hs
  | resetWait =>
    simp only [HsmSys.go, hpc]
    exact hs.waitCmd c _ _ rfl
  | setUp =>
    simp only [HsmSys.go, hpc]
    exact hs.waitCmd c _ _ rfl
  | starting =>
    simp only [HsmSys.go, hpc]
    exact hs.setPc fun hstarted => nomatch hstarted
  | entering =>
    simp only [HsmSys.go, hpc]
    split_ifs
    · exact hs.setPc fun hstarted => nomatch hstarted
    · exact hs
  | taking regs =>
    -- the entry is taken out of the table before the hart runs
    simp only [HsmSys.go, hpc]
    intro t ht
    by_cases htc : t = c
    · rw [htc, update_self]
      rfl
    · rw [setPc_pc, update_of_ne htc] at ht
      simp only [update_of_ne htc]
      exact hs t ht
  | start k stage =>
    simp only [HsmSys.go, hpc]
    exact hs.goStart hpc answer
  | status t =>
    simp only [HsmSys.go, hpc]
    exact hstays (by rw [hpc]; rfl) _
  | stopSend =>
    simp only [HsmSys.go, hpc]
    exact hstays (by rw [hpc]; rfl) _
  | stopPrepare =>
    simp only [HsmSys.go, hpc]
    exact hstays (by rw [hpc]; rfl) _
  | callbackWait t =>
    simp only [HsmSys.go, hpc]
    split_ifs
    · exact hstays (by rw [hpc]; rfl) _
    · exact hs
  | callbackReset t =>
    simp only [HsmSys.go, hpc]
    refine (hs.setPc (c := t) (p := .reset) fun hstarted => nomatch hstarted).setPc fun _ => ?_
    exact hs c (by rw [hpc]; rfl)

theorem Quiet.hartStart (hs : Quiet s.pc s.startArr) {c : ℕ} (hc : s.pc c = .kernel)
    {hartid : U64} (startAddr opaqueArg : U64)
    (hask : hartid = 0#64 ∨ cfg.smpHartNum ≤ hartid.toNat ∨ Startable cfg s hartid.toNat) :
    Quiet (s.hartStart cfg c hartid startAddr opaqueArg).pc
      (s.hartStart cfg c hartid startAddr opaqueArg).startArr := by
  have hstays := hs.stays (c := c) (by rw [hc]; rfl)
  rw [HsmSys.hartStart]
  split_ifs with hnum
  · exact hstays _
  · have hidle : (s.pc hartid.toNat).started = false := by
      rcases hask with hzero | hge | hstartable
      · exact absurd (.inl hzero) hnum
      · exact absurd (.inr hge) hnum
      · exact hstartable.idle
    have harmed := hs.arm hidle ⟨hartid, startAddr, opaqueArg, true⟩
    exact harmed.setPc fun _ => harmed c (by rw [hc]; rfl)

theorem Quiet.step (hs : Quiet s.pc s.startArr) (hask : AsksStartable cfg s e) :
    Quiet (s.step cfg e).pc (s.step cfg e).startArr := by
  cases e with
  | start c hartid startAddr opaqueArg =>
    rw [HsmSys.step]
    split
    · rename_i hc
      exact hs.hartStart hc startAddr opaqueArg (hask hc)
    · exact hs
  | stop c =>
    rw [HsmSys.step]
    split
    · rename_i hc
      have hstays := hs.stays (c := c) (by rw [hc]; rfl)
      rw [hartStop]
      split_ifs
      · exact hstays _
      · exact hstays _
      · exact hstays _
    · exact hs
  | status c hartid =>
    rw [HsmSys.step]
    split
    · rename_i hc
      have hstays := hs.stays (c := c) (by rw [hc]; rfl)
      rw [hartStatus]
      split_ifs
      · exact hstays _
      · exact hstays _
      · exact hstays _
      · exact hstays _
    · exact hs
  | callback =>
    rw [HsmSys.step]
    split
    · rename_i hc _
      exact hs.stays (c := 0) (by rw [hc]; rfl) _
    · exact hs
  | go c answer => exact hs.go c answer

theorem init_quiet (phase : ℕ → BootPhase) : Quiet (init phase).pc (init phase).startArr :=
  fun _ _ => rfl

/-! ## Runs -/

/-- What `HART_START` does with a number that it refuses. -/
theorem hartStart_refuses {c : ℕ} {hartid startAddr opaqueArg : U64}
    (hnum : hartid = 0#64 ∨ cfg.smpHartNum ≤ hartid.toNat) :
    s.hartStart cfg c hartid startAddr opaqueArg = s.answer c sbiErrorInvalidParam 0#64 :=
  if_pos hnum

/-- **One step** is honest exactly if it asks for a hart that can be started, or for a number that
is refused. Where it asks for anything else, success is reported and no hart starts. -/
theorem honest_step_iff (hs : Quiet s.pc s.startArr) :
    Honest cfg s e ↔ AsksStartable cfg s e := by
  constructor
  · intro hhonest
    cases e with
    | start c hartid startAddr opaqueArg =>
      intro hc
      by_contra hask
      obtain ⟨hzero, hge, hstartable⟩ :
          hartid ≠ 0#64 ∧ ¬ cfg.smpHartNum ≤ hartid.toNat ∧ ¬ Startable cfg s hartid.toNat := by
        simpa only [not_or] using hask
      obtain ⟨hreturned, -, -⟩ := hhonest.refused c hartid startAddr opaqueArg rfl hc hstartable
      simp only [HsmSys.step, hc, HsmSys.hartStart, if_neg (not_or.mpr ⟨hzero, hge⟩), setPc_pc,
        update_self] at hreturned
      cases hreturned
    | _ => trivial
  · intro hask
    refine ⟨?_, hs.step hask⟩
    rintro c hartid startAddr opaqueArg rfl hc hstartable
    have hnum : hartid = 0#64 ∨ cfg.smpHartNum ≤ hartid.toNat := by
      rcases hask hc with hzero | hge | hyes
      · exact .inl hzero
      · exact .inr hge
      · exact absurd hyes hstartable
    simp only [HsmSys.step, hc, hartStart_refuses hnum]
    refine ⟨update_self .., ?_, rfl⟩
    simp only [answer, update_self]
    decide

/-- **`HART_START` answers honestly** in a run, with any calls of any harts in any order,
exactly if it asks at every step for a hart that can be started or for a number that is
refused. -/
theorem honest_iff (cfg : HsmConfig) (phase : ℕ → BootPhase) (events : List HsmEvent) :
    EachStep (step cfg) (Honest cfg) (init phase) events ↔
      EachStep (step cfg) (AsksStartable cfg) (init phase) events :=
  eachStep_iff_of_inv (fun s => Quiet s.pc s.startArr) (fun _ _ hs => honest_step_iff hs)
    (fun _ _ hs hask => hs.step hask) (init_quiet phase)

end HsmSys

/-- Four harts, the secondary ones of which wait to be started; there is room for more. -/
def HsmConfig.sample : HsmConfig where
  smpHartNum := 8
  hotplug := true
  numHarts := 4
  active := fun t => decide (t < 4)

/-- A second `HART_START` of hart 1 is accepted, and overwrites its entry. -/
theorem HsmSys.hartStart_overwrites_entry :
    ¬ ∀ (cfg : HsmConfig) (phase : ℕ → BootPhase) (events : List HsmEvent),
      EachStep (step cfg) (Honest cfg) (init phase) events := by
  intro hall
  have hhonest := hall .sample (fun t => if t = 0 then .up else .waiting)
    [.start 0 1 0x80000000 0, .go 0 false, .start 0 1 0x90000000 0]
  obtain ⟨-, -, hlast, -⟩ := hhonest
  obtain ⟨hreturned, -, -⟩ := hlast.refused 0 1 0x90000000 0 rfl (by decide)
    fun hstartable => absurd hstartable.unarmed (by decide)
  revert hreturned
  decide

end ScBl
