import EmbeddedCar.Gpio.Actuators
import EmbeddedCar.Gpio.Footprint

/-!
# The state left by `init_gpio_pins`

However its commands and thread creations end, `init_gpio_pins` leaves every duty at 0 and
`last_command` as it is. When `servoInit` got past its two checks, the servo was last commanded to
90 degrees.
-/

namespace EmbeddedCar.Gpio

open EmbeddedCar.Concurrent EmbeddedCar.Text

/-! ### Duties -/

/-- Every duty is 0, no soft-PWM slot is for an LED, and no command has been executed. -/
structure AtRest (s : State) : Prop where
  duty : ∀ i, (s.softPwmPins i).dutyCycle = 0
  pin : ∀ i, (s.softPwmPins i).pin ∉ ledPins
  lastCommand : s.lastCommand = stopCommand

theorem atRest_boot : AtRest boot := ⟨fun _ => rfl, fun _ => (by decide : (0 : Int) ∉ ledPins), rfl⟩

theorem atRest_stable : machine.Stable AtRest := by
  intro s t hs henv
  refine ⟨?_, ?_, ?_⟩
  · rw [env_softPwmPins henv]
    exact hs.duty
  · rw [env_softPwmPins henv]
    exact hs.pin
  · rw [env_lastCommand henv]
    exact hs.lastCommand

/-- The operations that leave the process at rest. -/
def keepsRest : Op → Prop
  | .storeSoftPwm _ .dutyCycle value => value = 0
  | .storeSoftPwm _ .pin value => value ∉ ledPins
  | .storeLastCommand _ => False
  | _ => True

theorem atRest_exec {o : Op} (ho : keepsRest o) {s t : State} {r : o.Res} (hs : AtRest s)
    (h : machine.Exec o s r t) : AtRest t := by
  have hslot : ∀ (i : Nat) (slot : SoftPwm), slot.dutyCycle = 0 → slot.pin ∉ ledPins →
      AtRest (s.setSoftPwm i slot) := by
    intro i slot hduty hpin
    refine ⟨fun j => ?_, fun j => ?_, hs.lastCommand⟩
    · by_cases hj : j = i
      · simp [State.setSoftPwm, hj, hduty]
      · simpa [State.setSoftPwm, hj] using hs.duty j
    · by_cases hj : j = i
      · simpa [State.setSoftPwm, hj] using hpin
      · simpa [State.setSoftPwm, hj] using hs.pin j
  have hsame : t.softPwmPins = s.softPwmPins → t.lastCommand = s.lastCommand → AtRest t := by
    intro hpins hlast
    exact ⟨hpins ▸ hs.duty, hpins ▸ hs.pin, hlast.trans hs.lastCommand⟩
  cases o with
  | storeSoftPwm i field value =>
    rw [exec_storeSoftPwm h]
    cases field with
    | dutyCycle => exact hslot i _ ho (hs.pin i)
    | pin => exact hslot i _ (hs.duty i) ho
    | _ => exact hslot i _ (hs.duty i) (hs.pin i)
  | createSoftPwm i =>
    rcases exec_createSoftPwm h with ⟨-, rfl⟩ | ⟨-, rfl⟩
    · have hrest := hslot i { s.softPwmPins i with thread := s.workers.length } (hs.duty i)
        (hs.pin i)
      exact ⟨hrest.duty, hrest.pin, hrest.lastCommand⟩
    · exact hs
  | storeLastCommand command => cases ho
  | system command =>
    obtain rfl := exec_system h
    exact hsame rfl rfl
  | _ =>
    have hdrive := drive_of_quiet rfl h
    exact hsame (congrArg Drive.softPwm hdrive) (congrArg Drive.lastCommand hdrive)

theorem allowsStart_keepsRest {pin : Int} (hpin : pin ∈ motorPins) :
    AllowsStart keepsRest pin 0 := by
  have hled : ∀ p ∈ motorPins, p ∉ ledPins := by decide
  exact ⟨trivial, trivial, fun _ _ => trivial, fun _ => hled pin hpin, fun _ => rfl,
    fun _ _ => trivial, fun _ _ => trivial, fun _ => trivial, fun _ => trivial⟩

theorem atRest_init : machine.Triple AtRest initGpioPins fun _ => AtRest := by
  have hsystem : ∀ command, keepsRest (.system command) := fun _ => trivial
  have hstart : ∀ pin ∈ motorPins, (softPwmStart pin 0 500).Uses keepsRest :=
    fun pin hpin => uses_softPwmStart (allowsStart_keepsRest hpin) (fun _ _ => hsystem _) 500
  refine Machine.triple_uses atRest_stable (fun o ho s r t hs h => atRest_exec ho hs h) ?_
  unfold initGpioPins
  iterate 8 refine Prog.uses_bind (uses_pinMode (fun _ _ => hsystem _) _ _) fun _ => ?_
  refine Prog.uses_bind (uses_servoInit hsystem trivial _) fun _ => ?_
  iterate 4 refine Prog.uses_bind (uses_digitalWrite (fun _ _ => hsystem _) _ _) fun _ => ?_
  iterate 4 refine Prog.uses_bind (hstart _ (by decide)) fun _ => ?_
  trivial

/-! ### The servo -/

/-- The period of the servo's channel has been set. `servoInit` comes to this when its `pinMode`
succeeds, and centres the servo when this succeeds too. -/
def servoStarted (log : List LogEntry) : Bool :=
  log.any fun
    | ⟨none, .system (.pwmPeriod channel _) status⟩ => channel = pwmChannel pwmServo ∧ status = 0
    | _ => false

def Unstarted (s : State) : Prop := servoStarted s.log = false

/-- A servo that was started was last commanded to 90 degrees. -/
def Centered (s : State) : Prop :=
  servoStarted s.log = true → s.drive.servoNs = some (servoNs 90)

theorem centered_of_unstarted {s : State} (h : Unstarted s) : Centered s := by
  intro hstarted
  rw [h] at hstarted
  cases hstarted

theorem servoStarted_env {s t : State} (h : machine.Env s t) :
    servoStarted t.log = servoStarted s.log := by
  rcases env_log h with hlog | ⟨tid, us, hlog⟩ | ⟨tid, pin, value, status, hlog, -⟩ <;>
    simp [hlog, servoStarted]

theorem unstarted_stable : machine.Stable Unstarted := by
  intro s t hs henv
  exact (servoStarted_env henv).trans hs

theorem centered_stable : machine.Stable Centered := by
  intro s t hs henv
  unfold Centered
  rw [servoStarted_env henv, env_drive s t henv]
  exact hs

/-- The operations that neither start nor command the servo. -/
def keepsServo : Op → Prop
  | .system (.pwmPeriod channel _) => channel ≠ pwmChannel pwmServo
  | .system (.pwmDutyCycle channel _) => channel ≠ pwmChannel pwmServo
  | _ => True

theorem servoStarted_exec {o : Op} (ho : keepsServo o) {s t : State} {r : o.Res}
    (h : machine.Exec o s r t) : servoStarted t.log = servoStarted s.log := by
  rw [exec_log h]
  cases o with
  | system command =>
    cases command with
    | pwmPeriod channel ns =>
      have hne : channel ≠ pwmChannel pwmServo := ho
      simp [Op.calls, servoStarted, hne]
    | _ => rfl
  | _ => rfl

theorem unstarted_exec {o : Op} (ho : keepsServo o) {s t : State} {r : o.Res} (hs : Unstarted s)
    (h : machine.Exec o s r t) : Unstarted t :=
  (servoStarted_exec ho h).trans hs

theorem centered_exec {o : Op} (ho : keepsServo o) {s t : State} {r : o.Res}
    (hs : Centered s) (h : machine.Exec o s r t) : Centered t := by
  intro hstarted
  rw [servoStarted_exec ho h] at hstarted
  have hservo := hs hstarted
  unfold State.drive at hservo ⊢
  simp only [exec_log h]
  cases o with
  | system command =>
    cases command with
    | pwmDutyCycle channel ns =>
      have hne : channel ≠ pwmChannel pwmServo := ho
      simpa [Op.calls, lastDutyNs, hne] using hservo
    | _ => exact hservo
  | _ => exact hservo

/-- A program that does not start the servo. -/
theorem triple_unstarted {α : Type} {p : MainProg α} (h : p.Uses keepsServo) :
    machine.Triple Unstarted p fun _ => Unstarted :=
  Machine.triple_uses unstarted_stable (fun _ ho _ _ _ hs h => unstarted_exec ho hs h) h

/-- A frequency that could not be set has not started the servo. -/
theorem triple_pwmSetFrequency_unstarted {frequency : Int} (hfrequency : frequency ≠ 0) :
    machine.Triple Unstarted (pwmSetFrequency pwmServo frequency)
      fun status s => status ≠ 0 → Unstarted s := by
  unfold pwmSetFrequency Prog.when
  rw [if_neg hfrequency]
  simp only [Prog.ret_bind]
  refine Machine.triple_keep_bind (triple_unstarted ⟨trivial, fun _ => trivial⟩) fun _ => ?_
  refine Machine.triple_keep_bind (triple_unstarted ⟨trivial, fun _ => trivial⟩) fun _ => ?_
  refine Machine.triple_op (N := fun status s => status ≠ 0 → Unstarted s) unstarted_stable ?_
    fun status => ?_
  · intro s status t hs h hfailed
    have hlog : servoStarted t.log = servoStarted s.log := by
      rw [exec_system h]
      simp [State.record, servoStarted, hfailed]
    exact hlog.trans hs
  · exact Machine.triple_ret (fun s t hs henv hne => unstarted_stable s t (hs hne) henv)
      fun _ h => h

theorem triple_servoWrite_centered :
    machine.Triple (fun _ => True) (servoWrite pwmServo 90) fun _ => Centered := by
  have hanything : machine.Stable fun _ => True := fun _ _ _ _ => trivial
  unfold servoWrite pwmWrite
  rw [if_neg (by decide)]
  refine Machine.triple_bind (N := fun _ => Centered) ?_ fun status => ?_
  · iterate 2
      refine Machine.triple_op (N := fun _ _ => True) hanything (fun _ _ _ _ _ => trivial)
        fun _ => ?_
    refine Machine.triple_op (N := fun _ => Centered) hanything ?_ fun _ => ?_
    · intro s status t _ h _
      rw [exec_system h]
      rfl
    · exact Machine.triple_uses centered_stable (fun _ ho _ _ _ hs h => centered_exec ho hs h)
        ⟨trivial, fun _ => trivial⟩
  · split <;> exact Machine.triple_ret centered_stable fun _ h => h

theorem triple_servoInit_centered :
    machine.Triple Unstarted (servoInit pwmServo) fun _ => Centered := by
  have hsets : ∀ pin setting, keepsServo (.system (.gpioSet pin setting)) := fun _ _ => trivial
  unfold servoInit
  rw [if_neg (by decide)]
  refine Machine.triple_keep_bind (triple_unstarted (uses_pinMode hsets _ _)) fun status => ?_
  split
  · exact Machine.triple_ret unstarted_stable fun _ => centered_of_unstarted
  refine Machine.triple_bind (triple_pwmSetFrequency_unstarted (by decide)) fun status => ?_
  split
  · next hfailed =>
    refine Machine.triple_ret (fun s t hs henv hne => unstarted_stable s t (hs hne) henv) ?_
    exact fun _ h => centered_of_unstarted (h hfailed)
  · refine Machine.triple_conseq (R := fun s => status ≠ 0 → Unstarted s) ?_ (fun _ _ => trivial)
      fun _ _ h => h
    refine Machine.triple_bind triple_servoWrite_centered fun _ => ?_
    exact Machine.triple_ret centered_stable fun _ h => h

theorem centered_init : machine.Triple Unstarted initGpioPins fun _ => Centered := by
  have hsets : ∀ pin setting, keepsServo (.system (.gpioSet pin setting)) := fun _ _ => trivial
  have hstart : ∀ pin, (softPwmStart pin 0 500).Uses keepsServo := by
    intro pin
    refine uses_softPwmStart ?_ hsets 500
    exact ⟨trivial, trivial, fun _ _ => trivial, fun _ => trivial, fun _ => trivial,
      fun _ _ => trivial, fun _ _ => trivial, fun _ => trivial, fun _ => trivial⟩
  unfold initGpioPins
  iterate 8
    refine Machine.triple_keep_bind (triple_unstarted (uses_pinMode hsets _ _)) fun _ => ?_
  refine Machine.triple_bind triple_servoInit_centered fun _ => ?_
  refine Machine.triple_uses centered_stable (fun o ho s r t hs h => centered_exec ho hs h) ?_
  iterate 4 refine Prog.uses_bind (uses_digitalWrite hsets _ _) fun _ => ?_
  iterate 4 refine Prog.uses_bind (hstart _) fun _ => ?_
  trivial

/-- What `main` has when `init_gpio_pins` returns. -/
theorem init_atRest {s : State} (h : machine.Runs initGpioPins boot () s) : AtRest s :=
  Machine.triple_runs (Q := fun _ => AtRest) atRest_init atRest_boot h

theorem init_centered {s : State} (h : machine.Runs initGpioPins boot () s)
    (hservo : servoStarted s.log = true) : s.drive.servoNs = some (servoNs 90) :=
  Machine.triple_runs (Q := fun _ => Centered) centered_init (show Unstarted boot from rfl) h hservo

/-- `n` operations in a row, all successful, without a turn of the threads. -/
def calmMoves (n : Nat) : List (Int ⊕ (Nat × Int)) := List.replicate n (.inl 0)

/-- An initialisation on a chip whose channel is not exported yet: the channel cannot be disabled
before it has a period, and its second export fails. -/
def startMoves : List (Int ⊕ (Nat × Int)) :=
  calmMoves 10 ++ .inl 256 :: .inl 0 :: .inl 256 :: calmMoves 67

end EmbeddedCar.Gpio
