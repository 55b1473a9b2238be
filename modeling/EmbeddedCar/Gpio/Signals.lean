import EmbeddedCar.Gpio.Leds
import EmbeddedCar.Gpio.Skipping

/-!
# The LEDs and the command

The branches of `execute_car_command` switch LEDs on; only the stop switches any off. So the
LEDs show a command alone when the LEDs it does not use were off before it. A turn to the left
is never shown, since `blinkStart` rejects pin 27.
-/

namespace EmbeddedCar.Gpio

open EmbeddedCar.Concurrent EmbeddedCar.Text

/-! ### What a command leaves alone -/

section

variable {led : Int}

theorem sparesLed_gpioSet {pin : Int} (hne : pin ≠ led) (setting : PinSetting) :
    sparesLed led (.system (.gpioSet pin setting)) := by
  refine ⟨trivial, fun value heq => hne ?_⟩
  cases value <;> cases heq <;> rfl

theorem sparesLed_of_pwmOp {o : Op} (ho : pwmOp o) : sparesLed led o := by
  cases o with
  | system command =>
    refine ⟨trivial, fun value heq => ?_⟩
    cases value <;> cases heq <;> exact ho
  | _ => cases ho

theorem sparesLed_of_dutyOp {o : Op} (ho : dutyOp o) : sparesLed led o := by
  cases o with
  | storeSoftPwm i field value => exact ⟨ho, by simp⟩
  | lock m => exact ⟨trivial, by simp⟩
  | unlock m => exact ⟨trivial, by simp⟩
  | loadSoftPwm i field => exact ⟨trivial, by simp⟩
  | _ => cases ho

theorem spares_blinkStart {pin : Int} (hne : pin ≠ led) :
    (blinkStart pin 2 3).Uses (sparesLed led) := by
  apply uses_blinkStart _ (sparesLed_gpioSet hne)
  intro hpin
  have hnat : (pin.toNat : Int) = pin := Int.toNat_of_nonneg hpin.1
  have hslot : (pin.toNat : Int) ≠ led := by omega
  refine ⟨⟨⟨trivial, by simp⟩, ⟨trivial, by simp⟩, ⟨trivial, by simp⟩, ⟨⟨hslot, by simp⟩, by simp⟩,
    ⟨trivial, by simp⟩⟩, ⟨⟨hslot, fun _ => hnat.symm⟩, by simp⟩, ⟨⟨hslot, by simp⟩, by simp⟩,
    ⟨⟨hslot, by simp⟩, by simp⟩, ⟨⟨hslot, by simp⟩, by simp⟩, ⟨hslot, by simp⟩⟩

theorem spares_digitalWrite {pin : Int} (hne : pin ≠ led) (value : Level) :
    (digitalWrite pin value).Uses (sparesLed led) := by
  cases value <;> exact ⟨sparesLed_gpioSet hne _, fun _ => trivial⟩

theorem sparesSlot_digitalWrite (pin : Int) (value : Level) :
    (digitalWrite pin value).Uses (sparesSlot led) :=
  uses_digitalWrite (fun _ _ => trivial) pin value

/-- A branch that does not stop leaves the LEDs alone that its signal does not use. -/
theorem branch_sparesLed {sig : Signal} {body : MainProg Unit} (h : Branch sig body)
    (hoff : sig ≠ .off) (hblinking : led ∉ sig.blinking) (hlit : led ∉ sig.lit) :
    body.Uses (sparesLed led) := by
  have hduties : ∀ {rest : MainProg Unit}, rest.Uses dutyOp → rest.Uses (sparesLed led) :=
    fun hrest => Prog.uses_mono (fun _ => sparesLed_of_dutyOp) hrest
  cases h with
  | blinks hrest =>
    simp only [List.mem_cons, List.not_mem_nil, or_false, not_or] at hblinking
    exact Prog.uses_bind (spares_blinkStart (Ne.symm hblinking.1)) fun _ =>
      Prog.uses_bind (spares_blinkStart (Ne.symm hblinking.2)) fun _ => hduties hrest
  | blinksBack hrest =>
    simp only [List.mem_cons, List.not_mem_nil, or_false, not_or] at hblinking
    exact Prog.uses_bind (spares_blinkStart (Ne.symm hblinking.2)) fun _ =>
      Prog.uses_bind (spares_blinkStart (Ne.symm hblinking.1)) fun _ => hduties hrest
  | lights hrest =>
    simp only [List.mem_cons, List.not_mem_nil, or_false, not_or] at hlit
    exact Prog.uses_bind (spares_digitalWrite (Ne.symm hlit.1) _) fun _ =>
      Prog.uses_bind (spares_digitalWrite (Ne.symm hlit.2) _) fun _ => hduties hrest
  | stops => exact absurd rfl hoff

/-- A branch that does not stop leaves the slots alone that it does not let blink. -/
theorem branch_sparesSlot {sig : Signal} {body : MainProg Unit} (h : Branch sig body)
    (hoff : sig ≠ .off) (hblinking : led ∉ sig.blinking) : body.Uses (sparesSlot led) := by
  by_cases hlit : led ∈ sig.lit
  · cases h with
    | lights hrest =>
      exact Prog.uses_bind (sparesSlot_digitalWrite _ _) fun _ =>
        Prog.uses_bind (sparesSlot_digitalWrite _ _) fun _ =>
          Prog.uses_mono (fun _ ho => (sparesLed_of_dutyOp ho).1) hrest
    | blinks hrest => cases hlit
    | blinksBack hrest => cases hlit
    | stops => exact absurd rfl hoff
  · exact Prog.uses_mono (fun _ ho => ho.1) (branch_sparesLed h hoff hblinking hlit)

end

/-! ### A tick that executes a command -/

/-- `execute_car_command` and the assignment to `last_command`. -/
def executing (cmd : CarCommand) : MainProg Unit := do
  executeCarCommand cmd
  exec (.storeLastCommand cmd)

/-- A tick that executes a command does nothing else. -/
theorem executing_runs {lasting : Nat → Bool} {jc : JsonC} {run : WgetRun} {s t : State}
    {cmd : CarCommand} (hexec : Executes s.lastCommand (fetchCarCommand jc run) cmd)
    (h : (healthy lasting).Runs (timerCallback jc run) s () t) :
    (healthy lasting).Runs (executing cmd) s () t := by
  unfold timerCallback at h
  cases hfetch : fetchCarCommand jc run with
  | failed =>
    rw [hfetch] at h hexec
    obtain rfl : cmd = stopCommand := hexec
    exact h
  | nullPointer =>
    rw [hfetch] at hexec
    exact hexec.elim
  | command new =>
    rw [hfetch] at h hexec
    obtain ⟨rfl, hne⟩ := hexec
    simp only [Prog.call_bind] at h
    obtain ⟨u, found, w, henv, hload, hrest⟩ := Machine.runs_op h
    obtain ⟨hfound, rfl⟩ := exec_loadLastCommand ((healthy_within lasting).exec _ _ _ _ hload)
    have hlast : machine.Stable fun v => v.lastCommand = s.lastCommand :=
      fun _ _ hv hstep => (env_lastCommand hstep).trans hv
    have hu := Machine.stable_envSteps hlast rfl ((healthy_within lasting).envSteps henv)
    have hchanged : commandChanged found new = true := by
      rw [commandChanged_iff, hfound, hu]
      exact hne
    rw [if_pos hchanged] at hrest
    exact Machine.env_runs henv hrest

/-- A command with a branch that does not stop leaves alone what the branch leaves alone. -/
theorem uses_executing {allowed : Op → Prop} {cmd : CarCommand} {body : MainProg Unit}
    (heq : executeCarCommand cmd = (do setSteeringDirection cmd.direction.text; body))
    (hpwm : ∀ o, pwmOp o → allowed o) (hstore : allowed (.storeLastCommand cmd))
    (hbody : body.Uses allowed) : (executing cmd).Uses allowed := by
  unfold executing
  rw [heq]
  refine Prog.uses_bind (Prog.uses_bind ?_ fun _ => hbody) fun _ => ⟨hstore, fun _ => trivial⟩
  exact Prog.uses_mono hpwm (uses_setSteeringDirection_pwmOp _)

/-! ### The slots over a run of the controller -/

theorem aims_gpioSet (pin : Int) (setting : PinSetting) :
    aims (.system (.gpioSet pin setting)) := trivial

theorem aims_of_stopOp {o : Op} (ho : stopOp o) : aims o := by
  cases o with
  | storeBlink j field value =>
    intro hfield
    rw [ho.1] at hfield
    cases hfield
  | _ => trivial

theorem aims_blinkStart (pin : Int) : (blinkStart pin 2 3).Uses aims := by
  apply uses_blinkStart _ (aims_gpioSet pin)
  intro hpin
  have hnat : pin = (pin.toNat : Int) := (Int.toNat_of_nonneg hpin.1).symm
  exact ⟨⟨trivial, trivial, trivial, by simp [aims], trivial⟩, fun _ => hnat, by simp [aims],
    by simp [aims], by simp [aims], trivial⟩

theorem aims_executing (cmd : CarCommand) : (executing cmd).Uses aims := by
  obtain ⟨body, heq, hbranch⟩ := executeCarCommand_branch cmd
  have hduties : ∀ {rest : MainProg Unit}, rest.Uses dutyOp → rest.Uses aims :=
    fun hrest => Prog.uses_mono (fun _ ho => aims_of_stopOp
      (stopOp_of_driveOp (driveOp_of_dutyOp ho))) hrest
  generalize cmd.signal = sig at hbranch
  refine uses_executing heq ?_ trivial ?_
  · exact fun _ ho => aims_of_stopOp (stopOp_of_driveOp (driveOp_of_servoOp (servoOp_of_pwmOp ho)))
  cases hbranch with
  | blinks hrest | blinksBack hrest =>
    exact Prog.uses_bind (aims_blinkStart _) fun _ => Prog.uses_bind (aims_blinkStart _) fun _ =>
      hduties hrest
  | lights hrest =>
    exact Prog.uses_bind (uses_digitalWrite aims_gpioSet _ _) fun _ =>
      Prog.uses_bind (uses_digitalWrite aims_gpioSet _ _) fun _ => hduties hrest
  | stops => exact Prog.uses_mono (fun _ => aims_of_stopOp) uses_stopAll

theorem aims_controller (jc : JsonC) (runs : List WgetRun) : (controller jc runs).Uses aims := by
  refine Prog.uses_bind ?_ fun _ => ?_
  · apply Prog.uses_mono _ uses_initGpioPins
    intro o ho
    cases o with
    | storeBlink j field value => cases ho
    | _ => trivial
  unfold ticks
  induction runs with
  | nil => trivial
  | cons run runs ih =>
    refine Prog.uses_bind ?_ fun _ => ih
    unfold timerCallback
    split
    · refine ⟨trivial, fun last => ?_⟩
      show (if _ then executing _ else _ : MainProg Unit).Uses aims
      split
      · exact aims_executing _
      · trivial
    · exact aims_executing stopCommand
    · exact ⟨trivial, fun _ => trivial⟩

theorem aimed_controller {jc : JsonC} {runs : List WgetRun} {s : State}
    (h : machine.Runs (controller jc runs) boot () s) : Aimed s :=
  Machine.triple_runs (P := Aimed) (Q := fun _ => Aimed)
    (Machine.triple_uses (fun _ _ hs henv => aimed_env hs henv)
      (fun _ ho _ _ _ hs hexec => aimed_exec ho hs hexec) (aims_controller jc runs))
    (fun _ => .inr rfl) h

/-! ### The signals -/

section

variable {first second : Int} {rest : MainProg Unit}

/-- Two blinks run when their tick returns. -/
theorem triple_blinks (n : Nat) (cmd : CarCommand)
    (hfirst : first ∈ ledPins ∧ first ≤ 21) (hsecond : second ∈ ledPins ∧ second ≤ 21)
    (hne : first ≠ second) (hrest : rest.Uses dutyOp)
    (heq : executeCarCommand cmd = (do
      setSteeringDirection cmd.direction.text
      let _ ← blinkStart first 2 3
      let _ ← blinkStart second 2 3
      rest)) :
    (healthy (fromThread n)).Triple (fun s => Tended none s ∧ Grown n s) (executing cmd)
      fun _ s => Lasting (fromThread n) first s ∧ Lasting (fromThread n) second s := by
  have hwithin := healthy_within (fromThread n)
  have hpos₁ := ledPins_nonneg hfirst.1
  have hpos₂ := ledPins_nonneg hsecond.1
  have hkeep : ∀ {α : Type} {p : MainProg α},
      p.Uses (sparesSlot first) → p.Uses (sparesSlot second) →
      (healthy (fromThread n)).Triple
        (fun s => Lasting (fromThread n) first s ∧ Lasting (fromThread n) second s) p
        fun _ s => Lasting (fromThread n) first s ∧ Lasting (fromThread n) second s :=
    fun h₁ h₂ => Machine.triple_and (triple_lasting hpos₁ h₁) (triple_lasting hpos₂ h₂)
  have hduties : ∀ {led : Int}, rest.Uses (sparesSlot led) :=
    Prog.uses_mono (fun _ ho => (sparesLed_of_dutyOp ho).1) hrest
  unfold executing
  rw [heq]
  refine Machine.triple_bind (Machine.triple_bind (N := fun _ s => Tended none s ∧ Grown n s) ?_
    fun _ => Machine.triple_bind
      (N := fun _ s => Lasting (fromThread n) first s ∧ Tended none s ∧ Grown n s) ?_ fun _ =>
    Machine.triple_bind ?_ fun _ => hkeep hduties hduties) fun _ => ?_
  · refine hwithin.triple (Machine.triple_and (Machine.triple_uses (kept_tended none).stable
      (kept_tended none).keep ?_) (triple_grown n _))
    exact Prog.uses_mono (fun _ ho => leavesBlinks_of_driveOp (driveOp_of_servoOp ho))
      (uses_setSteeringDirection _)
  · refine Machine.triple_conseq (Machine.triple_and
      (triple_blinkStart_lasting n ⟨hpos₁, hfirst.2⟩)
      (hwithin.triple (Machine.triple_and (triple_blinkStart first 2 3 hfirst.1)
        (triple_grown n _)))) (fun _ hs => ⟨hs, hs⟩) fun _ _ h => h
  · refine Machine.triple_and (triple_lasting hpos₁ ?_)
      (triple_blinkStart_lasting n ⟨hpos₂, hsecond.2⟩)
    exact Prog.uses_mono (fun _ ho => ho.1) (spares_blinkStart (Ne.symm hne))
  · exact hkeep ⟨trivial, fun _ => trivial⟩ ⟨trivial, fun _ => trivial⟩

/-- Two LEDs at rest are lit when their tick returns. -/
theorem triple_lights (cmd : CarCommand) {level₁ level₂ : Option Level}
    (hfirst : first ∈ ledPins) (hsecond : second ∈ ledPins) (hne : first ≠ second)
    (hrest : rest.Uses dutyOp)
    (heq : executeCarCommand cmd = (do
      setSteeringDirection cmd.direction.text
      let _ ← digitalWrite first .high
      let _ ← digitalWrite second .high
      rest)) :
    machine.Triple (fun s => Steady first level₁ s ∧ Steady second level₂ s) (executing cmd)
      fun _ s => Steady first (some .high) s ∧ Steady second (some .high) s := by
  have hsteering : ∀ led, (setSteeringDirection cmd.direction.text).Uses (sparesLed led) :=
    fun led => Prog.uses_mono (fun _ => sparesLed_of_pwmOp) (uses_setSteeringDirection_pwmOp _)
  have hduties : ∀ led, rest.Uses (sparesLed led) :=
    fun led => Prog.uses_mono (fun _ => sparesLed_of_dutyOp) hrest
  have hstore : ∀ led, (exec (.storeLastCommand cmd)).Uses (sparesLed led) :=
    fun led => ⟨⟨trivial, by simp⟩, fun _ => trivial⟩
  unfold executing
  rw [heq]
  apply Machine.triple_and
  · refine Machine.triple_bind (Machine.triple_bind (triple_steady hfirst (hsteering first))
      fun _ => Machine.triple_bind (triple_write hfirst .high) fun _ => Machine.triple_bind
        (triple_steady hfirst (spares_digitalWrite (Ne.symm hne) .high)) fun _ =>
          triple_steady hfirst (hduties first)) fun _ => triple_steady hfirst (hstore first)
  · refine Machine.triple_bind (Machine.triple_bind (triple_steady hsecond (hsteering second))
      fun _ => Machine.triple_bind (triple_steady hsecond (spares_digitalWrite hne .high))
        fun _ => Machine.triple_bind (triple_write hsecond .high) fun _ =>
          triple_steady hsecond (hduties second)) fun _ => triple_steady hsecond (hstore second)

end

theorem inactive_exec {led : Int} {o : Op} (ho : stopOp o) {s t : State} {r : o.Res}
    (hs : Inactive led s) (h : machine.Exec o s r t) : Inactive led t := by
  have hsame : t.blinkPins = s.blinkPins → Inactive led t := by
    intro hpins
    unfold Inactive
    rw [hpins]
    exact hs
  cases o with
  | storeBlink j field value =>
    obtain ⟨rfl, rfl⟩ := ho
    unfold Inactive at hs ⊢
    rw [exec_storeBlink h]
    by_cases hj : led.toNat = j
    · simp [State.setBlink, Blink.set, hj]
    · simpa [State.setBlink, hj] using hs
  | createBlink j => cases ho
  | _ => exact hsame (exec_blinkPins (by trivial) h)

/-- `blinkStop` leaves one more slot inactive. -/
theorem triple_inactive_blinkStop (leds : List Int) {pin : Int} (hpin : 0 ≤ pin ∧ pin ≤ 21) :
    machine.Triple (fun s => ∀ led ∈ leds, Inactive led s) (blinkStop pin)
      fun _ s => ∀ led ∈ pin :: leds, Inactive led s := by
  have hothers : machine.Triple (fun s => ∀ led ∈ leds, Inactive led s) (blinkStop pin)
      fun _ s => ∀ led ∈ leds, Inactive led s := by
    refine Machine.triple_uses ?_ ?_ (uses_blinkStop_stopOp pin)
    · exact fun _ _ hs henv led hled => blink_inactive_env henv (hs led hled)
    · exact fun _ ho _ _ _ hs h led hled => inactive_exec ho (hs led hled) h
  have hanything : machine.Stable fun _ => True := fun _ _ _ _ => trivial
  have hstable : machine.Stable (Inactive pin) := fun _ _ hs henv => blink_inactive_env henv hs
  have hrest : ∀ {α : Type} {p : MainProg α}, p.Uses stopOp →
      machine.Triple (Inactive pin) p fun _ => Inactive pin :=
    fun hp => Machine.triple_uses hstable (fun _ ho _ _ _ hs h => inactive_exec ho hs h) hp
  have hown : machine.Triple (fun _ => True) (blinkStop pin) fun _ => Inactive pin := by
    unfold blinkStop
    rw [if_neg (by omega)]
    simp only [Prog.call_bind]
    refine Machine.triple_op (N := fun _ _ => True) hanything (fun _ _ _ _ _ => trivial)
      fun _ => ?_
    refine Machine.triple_op (N := fun active s => active = 0 → Inactive pin s) hanything ?_
      fun active => ?_
    · intro s active t _ h hzero
      obtain ⟨hactive, rfl⟩ := exec_loadBlink h
      exact hactive.symm.trans hzero
    split
    · next hzero =>
      refine Machine.triple_conseq (hrest ?_) (fun s hs => hs hzero) fun _ _ h => h
      exact ⟨trivial, fun _ => trivial⟩
    · refine Machine.triple_op (N := fun _ => Inactive pin) ?_ ?_ fun _ => hrest ?_
      · exact fun s t hs henv hzero => blink_inactive_env henv (hs hzero)
      · intro s r t _ h
        rw [exec_storeBlink h]
        simp [Inactive, State.setBlink, Blink.set]
      · exact ⟨trivial, fun _ => Prog.uses_bind (uses_digitalWrite (fun _ _ => trivial) _ _)
          fun _ => ⟨trivial, fun _ => trivial⟩⟩
  refine Machine.triple_conseq (Machine.triple_and hown hothers) (fun s hs => ⟨trivial, hs⟩) ?_
  exact fun _ t ht => List.forall_mem_cons.mpr ht

/-- The LEDs with a blink slot. -/
def slotLeds : List Int := [ledBackwardRight, ledBackwardLeft, ledForwardRight]

/-- The LEDs are dark and their slots not active. -/
def Off (s : State) : Prop := Dark ledPins.reverse s ∧ ∀ led ∈ slotLeds, Inactive led s

theorem triple_inactive_stopOp {α : Type} {p : MainProg α} (hp : p.Uses stopOp) :
    machine.Triple (fun s => ∀ led ∈ slotLeds, Inactive led s) p
      fun _ s => ∀ led ∈ slotLeds, Inactive led s := by
  refine Machine.triple_uses ?_ ?_ hp
  · exact fun _ _ hs henv led hled => blink_inactive_env henv (hs led hled)
  · exact fun _ ho _ _ _ hs h led hled => inactive_exec ho (hs led hled) h

theorem triple_off_stopAll : machine.Triple Idle stopAll fun _ => Off := by
  have hinactive : machine.Triple (fun _ => True) stopAll
      fun _ s => ∀ led ∈ slotLeds, Inactive led s := by
    unfold stopAll
    rw [blinkStop_ledForwardLeft, Prog.ret_bind]
    refine Machine.triple_conseq (P := fun s => ∀ led ∈ ([] : List Int), Inactive led s) ?_
      (by simp) fun _ _ h => h
    refine Machine.triple_bind (triple_inactive_blinkStop _ (by decide)) fun _ => ?_
    refine Machine.triple_bind (triple_inactive_blinkStop _ (by decide)) fun _ => ?_
    refine Machine.triple_bind (triple_inactive_blinkStop _ (by decide)) fun _ => ?_
    apply triple_inactive_stopOp
    iterate 4 refine Prog.uses_bind (uses_digitalWrite (fun _ _ => trivial) _ _) fun _ => ?_
    exact Prog.uses_mono (fun _ ho => stopOp_of_driveOp (driveOp_of_dutyOp ho))
      (uses_updateDuties 0 0 0 0)
  refine Machine.triple_conseq (Machine.triple_and triple_stopAll hinactive) ?_ fun _ _ h => h
  exact fun s hs => ⟨hs, trivial⟩

theorem triple_off_executing (cmd : CarCommand)
    (heq : executeCarCommand cmd = (do setSteeringDirection cmd.direction.text; stopAll)) :
    machine.Triple Idle (executing cmd) fun _ => Off := by
  unfold executing
  rw [heq]
  refine Machine.triple_bind (Machine.triple_keep_bind (triple_idle_driveOp ?_)
    fun _ => triple_off_stopAll) fun _ => Machine.triple_and ?_ ?_
  · exact Prog.uses_mono (fun _ => driveOp_of_servoOp) (uses_setSteeringDirection _)
  · refine Machine.triple_uses (dark_stable _) (fun o ho s r t hs h => dark_exec ho hs h) ?_
    exact ⟨⟨trivial, fun _ => rfl⟩, fun _ => trivial⟩
  · exact triple_inactive_stopOp ⟨trivial, fun _ => trivial⟩

theorem shows_of_off {s : State} (hs : Off s) : Shows .off s := by
  intro led hled
  constructor
  · refine ⟨fun hblinking => ?_, fun hmem => by cases hmem⟩
    have hslot : ∀ q ∈ ledPins, q ≤ 21 → q ∈ slotLeds := by decide
    exact absurd (hs.2 led (hslot led hled hblinking.1)) hblinking.2
  · refine fun _ => ⟨fun hlit => ?_, fun hmem => by cases hmem⟩
    have hlow := (hs.1.2 led (List.mem_reverse.mpr hled)).2
    rw [Lit, hlow] at hlit
    cases hlit

/-! ### The LEDs after a tick -/

/-- The invariant between two ticks. -/
structure Sound (s : State) : Prop where
  idle : Idle s
  aimed : Aimed s

theorem sound_controller {jc : JsonC} {runs : List WgetRun} {s : State}
    (h : machine.Runs (controller jc runs) boot () s) : Sound s :=
  ⟨idle_controller h, aimed_controller h⟩

section

variable {s t : State} {led : Int}

/-- A slot without a blink is quiet, and so is the pin without a slot. -/
theorem steady_of_sound (hs : Sound s) (hblinking : ¬ Blinking s led) :
    Steady led (lastLevel led s.log) s := by
  refine ⟨hs.idle.2, hs.aimed, ?_, rfl⟩
  by_cases hrange : led ≤ 21
  · apply quiet_of_inactive hs.idle.1
    by_contra hactive
    exact hblinking ⟨hrange, hactive⟩
  · intro tid htid
    have hslot := (hs.idle.1.led tid _ htid).2
    omega

theorem lasting_of_blinking (h : Blinking s led) : Lasting (fun _ => true) led s :=
  ⟨h.2, fun _ _ => rfl⟩

/-- An LED a command does not use, before and after it. -/
theorem unused_led {cmd : CarCommand} {body : MainProg Unit}
    (heq : executeCarCommand cmd = (do setSteeringDirection cmd.direction.text; body))
    (hbranch : Branch cmd.signal body) (hoff : cmd.signal ≠ .off) (hled : led ∈ ledPins)
    (hblinking : led ∉ cmd.signal.blinking) (hlit : led ∉ cmd.signal.lit) (hs : Sound s)
    (hnot : ¬ Blinking s led) (h : machine.Runs (executing cmd) s () t) :
    Lit t led ↔ Lit s led := by
  have huses : (executing cmd).Uses (sparesLed led) :=
    uses_executing heq (fun _ => sparesLed_of_pwmOp) ⟨trivial, by simp⟩
      (branch_sparesLed hbranch hoff hblinking hlit)
  have hsteady := Machine.triple_runs (triple_steady hled huses) (steady_of_sound hs hnot) h
  unfold Lit
  rw [hsteady.level]

/-- A slot a command does not use. -/
theorem unused_slot {cmd : CarCommand} {body : MainProg Unit}
    (heq : executeCarCommand cmd = (do setSteeringDirection cmd.direction.text; body))
    (hbranch : Branch cmd.signal body) (hoff : cmd.signal ≠ .off)
    (hblinking : led ∉ cmd.signal.blinking) : (executing cmd).Uses (sparesSlot led) :=
  uses_executing heq (fun _ ho => (sparesLed_of_pwmOp ho).1) trivial
    (branch_sparesSlot hbranch hoff hblinking)

theorem not_blinking_kept {p : MainProg Unit} (hled : 0 ≤ led) (hp : p.Uses (sparesSlot led))
    (hnot : ¬ Blinking s led) (h : machine.Runs p s () t) : ¬ Blinking t led := by
  rintro ⟨hrange, hactive⟩
  have hinactive : Inactive led s := by
    by_contra hne
    exact hnot ⟨hrange, hne⟩
  exact hactive (Machine.triple_runs (Q := fun _ => Inactive led) (triple_inactive hled hp)
    hinactive h)

/-- The blinks of a command run when its tick returns. -/
theorem blinks_shown {cmd : CarCommand} (hs : Sound s)
    (hslots : ∀ led ∈ cmd.signal.blinking, led ≤ 21)
    (h : (healthy (fromThread s.workers.length)).Runs (executing cmd) s () t) :
    ∀ led ∈ cmd.signal.blinking, Blinking t led := by
  obtain ⟨body, heq, hbranch⟩ := executeCarCommand_branch cmd
  have hproper := signal_proper cmd
  have hready : Tended none s ∧ Grown s.workers.length s := ⟨hs.idle.1, le_refl s.workers.length⟩
  generalize cmd.signal = sig at hbranch hproper hslots
  have hpair : ∀ {first second : Int}, sig.blinking = [first, second] →
      (first ∈ ledPins ∧ first ≤ 21) ∧ (second ∈ ledPins ∧ second ≤ 21) ∧ first ≠ second := by
    intro first second hblinking
    have hleds := hproper.leds
    have hnodup := (List.nodup_append.mp hproper.nodup).1
    rw [hblinking] at hnodup hslots hleds
    refine ⟨⟨hleds _ (by simp), hslots _ (by simp)⟩, ⟨hleds _ (by simp), hslots _ (by simp)⟩, ?_⟩
    rintro rfl
    simp at hnodup
  intro led hmem
  refine ⟨hslots led hmem, ?_⟩
  cases hbranch with
  | blinks hrest =>
    obtain ⟨hfirst, hsecond, hne⟩ := hpair rfl
    obtain ⟨h₁, h₂⟩ := Machine.triple_runs (triple_blinks _ cmd hfirst hsecond hne hrest heq)
      hready h
    rcases List.mem_pair.mp hmem with rfl | rfl
    · exact h₁.active
    · exact h₂.active
  | blinksBack hrest =>
    obtain ⟨hfirst, hsecond, hne⟩ := hpair rfl
    obtain ⟨h₂, h₁⟩ := Machine.triple_runs
      (triple_blinks _ cmd hsecond hfirst (Ne.symm hne) hrest heq) hready h
    rcases List.mem_pair.mp hmem with rfl | rfl
    · exact h₁.active
    · exact h₂.active
  | lights hrest => cases hmem
  | stops => cases hmem

/-- The lights of a command are lit when its tick returns. -/
theorem lights_shown {cmd : CarCommand} (hs : Sound s)
    (hrest : ∀ led ∈ cmd.signal.lit, ¬ Blinking s led)
    (h : machine.Runs (executing cmd) s () t) : ∀ led ∈ cmd.signal.lit, Lit t led := by
  obtain ⟨body, heq, hbranch⟩ := executeCarCommand_branch cmd
  have hproper := signal_proper cmd
  generalize cmd.signal = sig at hbranch hproper hrest
  intro led hmem
  cases hbranch with
  | @lights first second rest huses =>
    have hleds := hproper.leds
    have hne : first ≠ second := by
      rintro rfl
      simpa using hproper.nodup
    obtain ⟨h₁, h₂⟩ := Machine.triple_runs
      (triple_lights cmd (hleds first (by simp)) (hleds second (by simp)) hne huses heq)
      ⟨steady_of_sound hs (hrest first (by simp)), steady_of_sound hs (hrest second (by simp))⟩ h
    rcases List.mem_pair.mp hmem with rfl | rfl
    · exact h₁.level
    · exact h₂.level
  | blinks huses => cases hmem
  | blinksBack huses => cases hmem
  | stops => cases hmem

theorem stopAll_of_off {cmd : CarCommand} {body : MainProg Unit} (hbranch : Branch cmd.signal body)
    (hoff : cmd.signal = .off) : body = stopAll := by
  generalize cmd.signal = sig at hbranch hoff
  cases hbranch with
  | stops => rfl
  | _ => cases hoff

/-- A command the LEDs are ready for is shown. -/
theorem shows_of_ready {cmd : CarCommand} (hs : Sound s) (hready : Ready cmd.signal s)
    (h : (healthy (fromThread s.workers.length)).Runs (executing cmd) s () t) :
    Shows cmd.signal t := by
  have hruns := (healthy_within _).runs h
  obtain ⟨body, heq, hbranch⟩ := executeCarCommand_branch cmd
  by_cases hoff : cmd.signal = .off
  · rw [stopAll_of_off hbranch hoff] at heq
    rw [hoff]
    exact shows_of_off (Machine.triple_runs (Q := fun _ => Off) (triple_off_executing cmd heq)
      hs.idle hruns)
  obtain ⟨hslots, hothers⟩ := hready.resolve_left hoff
  have hlit : ∀ led ∈ cmd.signal.lit, led ∈ ledPins ∧ led ∉ cmd.signal.blinking := by
    intro led hmem
    have hproper := signal_proper cmd
    refine ⟨hproper.leds led (List.mem_append_right _ hmem), fun hblinking => ?_⟩
    exact (List.nodup_append.mp hproper.nodup).2.2 led hblinking led hmem rfl
  have hshown := lights_shown hs
    (fun led hmem => (hothers led (hlit led hmem).1 (hlit led hmem).2).1) hruns
  intro led hled
  by_cases hblinking : led ∈ cmd.signal.blinking
  · have hblinks := blinks_shown hs hslots h led hblinking
    exact ⟨iff_of_true hblinks hblinking, fun hnot => absurd hblinking hnot⟩
  · obtain ⟨hnot, hdark⟩ := hothers led hled hblinking
    have hslot := unused_slot heq hbranch hoff hblinking
    refine ⟨iff_of_false (not_blinking_kept (ledPins_nonneg hled) hslot hnot hruns) hblinking,
      fun _ => ?_⟩
    by_cases hmem : led ∈ cmd.signal.lit
    · exact iff_of_true (hshown led hmem) hmem
    · rw [unused_led heq hbranch hoff hled hblinking hmem hs hnot hruns]
      exact ⟨hdark, fun hlit => absurd hlit hmem⟩

/-- Where no blink runs out during the tick, only a command the LEDs are ready for is shown. -/
theorem ready_of_shows {cmd : CarCommand} (hs : Sound s) (hshows : Shows cmd.signal t)
    (h : (healthy fun _ => true).Runs (executing cmd) s () t) : Ready cmd.signal s := by
  have hruns := (healthy_within _).runs h
  obtain ⟨body, heq, hbranch⟩ := executeCarCommand_branch cmd
  by_cases hoff : cmd.signal = .off
  · exact .inl hoff
  right
  constructor
  · intro led hmem
    have hled := (signal_proper cmd).leds led (List.mem_append_left _ hmem)
    exact ((hshows led hled).1.mpr hmem).1
  · intro led hled hblinking
    have hslot := unused_slot heq hbranch hoff hblinking
    have hnot : ¬ Blinking s led := by
      intro hblinks
      have hlasting := Machine.triple_runs (triple_lasting (ledPins_nonneg hled) hslot)
        (lasting_of_blinking hblinks) h
      exact hblinking ((hshows led hled).1.mp ⟨hblinks.1, hlasting.active⟩)
    refine ⟨hnot, fun hlit => ?_⟩
    by_contra hmem
    have hkept := (unused_led heq hbranch hoff hled hblinking hmem hs hnot hruns).mpr hlit
    exact hmem (((hshows led hled).2 hblinking).mp hkept)

end

theorem healthy_mono {lasting lasting' : Nat → Bool}
    (h : ∀ tid, lasting' tid = true → lasting tid = true) :
    (healthy lasting).Within (healthy lasting') where
  exec := fun _ _ _ _ hexec => hexec
  env := by
    rintro s t ⟨tid, hturn⟩
    refine ⟨tid, ?_⟩
    simp only [healthy] at hturn ⊢
    split at hturn
    · cases hturn
    · next hnot =>
      rw [if_neg]
      · exact hturn
      · simp only [Bool.and_eq_true, not_and] at hnot ⊢
        exact fun hlasts => hnot (h tid hlasts)

/-- After any ticks, and one more that executes a command and in which the blinks it starts do
not run out: the LEDs show this command alone if they were ready for it; and only then, when no
other blink runs out during the tick either. -/
theorem leds_show_command (jc : JsonC) (runs : List WgetRun) (run : WgetRun) (cmd : CarCommand)
    (s : State) (hs : (healthy fun _ => false).Runs (controller jc runs) boot () s)
    (hexec : Executes s.lastCommand (fetchCarCommand jc run) cmd) :
    (∀ t, (healthy (fromThread s.workers.length)).Runs (timerCallback jc run) s () t →
      Ready cmd.signal s → Shows cmd.signal t) ∧
    ∀ t, (healthy fun _ => true).Runs (timerCallback jc run) s () t →
      (Shows cmd.signal t ↔ Ready cmd.signal s) := by
  have hsound := sound_controller ((healthy_within _).runs hs)
  have hforward : ∀ t, (healthy (fromThread s.workers.length)).Runs (timerCallback jc run) s () t →
      Ready cmd.signal s → Shows cmd.signal t :=
    fun t ht hready => shows_of_ready hsound hready (executing_runs hexec ht)
  refine ⟨hforward, fun t ht => ⟨fun hshows => ?_, fun hready => ?_⟩⟩
  · exact ready_of_shows hsound hshows (executing_runs hexec ht)
  · exact hforward t ((healthy_mono fun _ _ => rfl).runs ht) hready

/-- `n` operations in a row on the healthy machine. -/
def healthyMoves (n : Nat) : List (Unit ⊕ Nat) := List.replicate n (.inl ())

/-- A reply that drives straight on. -/
def straightReply : Bytes :=
  ascii "\x7b\"movement\":\"forward\",\"speed\":40,\"direction\":\"none\"\x7d"

/-- json-c, on `straightReply`. -/
def straightJsonC : JsonC :=
  JsonC.ofParser
    (fun text =>
      if text = straightReply then
        some (.object [(ascii "movement", .string (ascii "forward")), (ascii "speed", .int 40),
          (ascii "direction", .string (ascii "none"))])
      else none)
    fun _ => []

def straightCommand : CarCommand where
  movement := strncpy16 (ascii "forward")
  speed := 40
  direction := strncpy16 (ascii "none")

/-- The first command drives straight on: the two forward LEDs are lit. -/
theorem leds_show_command_straight :
    ∃ s t, (healthy fun _ => false).Runs (controller straightJsonC []) boot () s ∧
      (healthy (fromThread s.workers.length)).Runs
        (timerCallback straightJsonC ⟨true, straightReply, 0⟩) s () t ∧
      Shows .ahead t := by
  obtain ⟨_, s, hs, htest⟩ := (healthy fun _ => false).play_runs (healthyMoves 80)
    (controller straightJsonC []) boot
    (fun _ s => decide (Ready .ahead s) && decide (s.lastCommand = stopCommand) &&
      ((healthy (fromThread s.workers.length)).play (healthyMoves 40)
        (timerCallback straightJsonC ⟨true, straightReply, 0⟩) s).any
        fun c => c.1.returned.any fun _ => true) (by decide +kernel)
  simp only [Bool.and_eq_true, decide_eq_true_eq] at htest
  obtain ⟨⟨hready, hlast⟩, hplay⟩ := htest
  obtain ⟨_, t, ht, -⟩ := Machine.play_runs _ _ _ (fun _ _ => true) hplay
  have hexec : Executes s.lastCommand
      (fetchCarCommand straightJsonC ⟨true, straightReply, 0⟩) straightCommand := by
    rw [hlast]
    exact ⟨by decide, by decide⟩
  have hsignal : straightCommand.signal = .ahead := by decide
  have hshows := (leds_show_command straightJsonC [] ⟨true, straightReply, 0⟩ straightCommand s hs
    hexec).1 t ht
  rw [hsignal] at hshows
  exact ⟨s, t, hs, ht, hshows hready⟩

/-- `forwardRun` turns to the left: its forward LED has no blink slot. -/
theorem left_turn_not_shown :
    ∃ s t, (healthy fun _ => false).Runs (controller forwardJsonC []) boot () s ∧
      (healthy fun _ => true).Runs (timerCallback forwardJsonC forwardRun) s () t ∧
      t.lastCommand.signal = .left ∧ ¬ Shows t.lastCommand.signal t := by
  obtain ⟨_, s, hs, hplay⟩ := (healthy fun _ => false).play_runs (healthyMoves 80)
    (controller forwardJsonC []) boot
    (fun _ s => ((healthy fun _ => true).play (healthyMoves 40)
        (timerCallback forwardJsonC forwardRun) s).any
        fun c => c.1.returned.any fun _ => decide (c.2.lastCommand.signal = .left ∧
          ¬ Shows c.2.lastCommand.signal c.2)) (by decide +kernel)
  obtain ⟨_, t, ht, htest⟩ := (healthy fun _ => true).play_runs (healthyMoves 40)
    (timerCallback forwardJsonC forwardRun) s
    (fun _ t => decide (t.lastCommand.signal = .left ∧ ¬ Shows t.lastCommand.signal t)) hplay
  exact ⟨s, t, hs, ht, of_decide_eq_true htest⟩

end EmbeddedCar.Gpio
