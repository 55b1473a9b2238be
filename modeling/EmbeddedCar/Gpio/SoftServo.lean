import EmbeddedCar.Gpio.PwmMap

/-!
# Servos with software PWM

The `servoSoft` functions are calls of the soft-PWM functions with duty cycles of 5 to 10 percent.
What they are for is a map of its own: from pins to the angle a servo was told to stand at. They
refine it over the map of the soft-PWM table, so nothing is said of threads here.
-/

namespace EmbeddedCar.Gpio

open EmbeddedCar.Concurrent EmbeddedCar.Reactive Prog

/-! ### The map -/

/-- A servo on a soft-PWM pin. -/
structure Servo where
  angle : Int
  frequency : Int
  range : 0 ≤ angle ∧ angle ≤ 180
  positive : 0 < frequency

abbrev ServoMap := Nat → Option Servo

/-- A call of the soft servo functions. -/
inductive ServoCall where
  | init (pin frequency : Int)
  | write (pin angle : Int)
  | writeLimited (pin angle minAngle maxAngle : Int)
  | stop (pin : Int)
  deriving DecidableEq, Repr

namespace ServoCall

def program : ServoCall → MainProg Int
  | .init pin frequency => servoSoftInit pin frequency
  | .write pin angle => servoSoftWrite pin angle
  | .writeLimited pin angle minAngle maxAngle => servoSoftWriteLimited pin angle minAngle maxAngle
  | .stop pin => servoSoftStop pin

/-- A pin of the table on which a servo stands. -/
def OnServo (m : ServoMap) (pin : Int) : Prop := (0 ≤ pin ∧ pin ≤ 27) ∧ m pin.toNat ≠ none

/-- The calls that do something. -/
def Accepted (m : ServoMap) : ServoCall → Prop
  | .init pin frequency => (0 ≤ pin ∧ pin ≤ 27) ∧ 0 < frequency
  | .write pin angle => OnServo m pin ∧ 0 ≤ angle ∧ angle ≤ 180
  | .writeLimited pin angle minAngle maxAngle =>
      (OnServo m pin ∧ 0 ≤ angle ∧ angle ≤ 180) ∧ minAngle ≤ angle ∧ angle ≤ maxAngle
  | .stop pin => OnServo m pin

/-- The pin and the angle of a call that moves a servo. -/
def target : ServoCall → Option (Int × Int)
  | .write pin angle => some (pin, angle)
  | .writeLimited pin angle _ _ => some (pin, angle)
  | _ => none

end ServoCall

namespace ServoMap

/-- A call, what it returned, and the map before and after it. -/
inductive Step : ServoMap → ServoCall × Int → ServoMap → Prop where
  | refused {m : ServoMap} {call : ServoCall} : ¬ call.Accepted m → Step m (call, -1) m
  /-- A servo begins in the middle. -/
  | initialised {m : ServoMap} {pin : Int} (servo : Servo) : 0 ≤ pin ∧ pin ≤ 27 →
      servo.angle = 90 →
      Step m (.init pin servo.frequency, 0) (Function.update m pin.toNat (some servo))
  /-- No thread could be created; a servo that stood there has been stopped. -/
  | notInitialised {m : ServoMap} {pin frequency : Int} :
      (ServoCall.init pin frequency).Accepted m →
      Step m (.init pin frequency, -1) (Function.update m pin.toNat none)
  | moved {m : ServoMap} {call : ServoCall} {pin : Int} {old : Servo} (new : Servo) :
      call.Accepted m → call.target = some (pin, new.angle) → m pin.toNat = some old →
      new.frequency = old.frequency →
      Step m (call, 0) (Function.update m pin.toNat (some new))
  | stopped {m : ServoMap} {pin : Int} : (ServoCall.stop pin).Accepted m →
      Step m (.stop pin, 0) (Function.update m pin.toNat none)

end ServoMap

/-! ### Duty cycles of angles -/

/-- The rounded `double`s of `servoSoftWrite` give the nearest percentage, halves upwards. -/
theorem servoSoftDuty_eq {angle : Int} (h : 0 ≤ angle ∧ angle ≤ 180) :
    servoSoftDuty angle = (198 + angle) / 36 := by
  have hall : ∀ angle : Fin 181, servoSoftDuty (angle : ℕ) = (198 + ((angle : ℕ) : Int)) / 36 := by
    decide +kernel
  obtain ⟨n, rfl⟩ := Int.eq_ofNat_of_zero_le h.1
  exact hall ⟨n, by omega⟩

/-- Servos use duty cycles of 5 to 10 percent. -/
theorem servoSoftDuty_bounds {angle : Int} (h : 0 ≤ angle ∧ angle ≤ 180) :
    5 ≤ servoSoftDuty angle ∧ servoSoftDuty angle ≤ 10 := by
  rw [servoSoftDuty_eq h]
  omega

/-! ### Servos as settings of the table -/

/-- What the pin of a servo plays. -/
def Servo.setting (servo : Servo) : Setting where
  dutyCycle := servoSoftDuty servo.angle
  frequency := servo.frequency
  duty := by
    have hbounds := servoSoftDuty_bounds servo.range
    omega
  positive := servo.positive

def ServoMap.settings (m : ServoMap) : PwmMap := fun i => (m i).map Servo.setting

section

variable {m : ServoMap}

theorem settings_update (m : ServoMap) (i : Nat) (servo : Option Servo) :
    ServoMap.settings (Function.update m i servo) =
      Function.update m.settings i (servo.map Servo.setting) := by
  funext j
  by_cases hj : j = i
  · subst hj
    simp [ServoMap.settings]
  · simp [ServoMap.settings, hj]

theorem settings_ne_none {i : Nat} : m.settings i ≠ none ↔ m i ≠ none := by
  simp [ServoMap.settings]

/-- The table shows the servos. -/
abbrev ShowsServos (m : ServoMap) (s : State) : Prop := Represents m.settings s.softPwmPins

/-- The call is one step of the map. -/
abbrev Moves (m : ServoMap) (call : ServoCall) (value : Int) (s : State) : Prop :=
  ∃ m', ServoMap.Step m (call, value) m' ∧ ShowsServos m' s

/-! ### The calls -/

theorem moves_servoSoftInit (pin frequency : Int) :
    FromTable (Represents m.settings) (servoSoftInit pin frequency)
      (Moves m (.init pin frequency)) := by
  unfold servoSoftInit
  refine fromTable_pinMode fun _ => ?_
  refine Machine.triple_conseq (refines_call m.settings (.start pin 8 frequency))
    (fun _ h => h) ?_
  rintro value t ⟨p, hstep, ht⟩
  obtain ⟨hrange, rfl, rfl⟩ | ⟨hrange, ⟨rfl, rfl⟩ | ⟨rfl, setting, hduty, hfrequency, rfl⟩⟩ :=
    PwmMap.step_start hstep
  · exact ⟨m, .refused fun h => hrange ⟨h.1, by decide, h.2⟩, ht⟩
  · refine ⟨_, .notInitialised ⟨hrange.1, hrange.2.2⟩, ?_⟩
    rw [ShowsServos, settings_update]
    exact ht
  · let servo : Servo := ⟨90, frequency, by decide, hrange.2.2⟩
    have hsetting : servo.setting = setting := by
      refine Setting.ext (Eq.trans ?_ hduty.symm) hfrequency.symm
      exact servoSoftDuty_eq servo.range
    refine ⟨_, .initialised servo hrange.1 rfl, ?_⟩
    rw [ShowsServos, settings_update, Option.map_some, hsetting]
    exact ht

/-- A write that is refused leaves the servos; any other moves its own. -/
theorem fromTable_servoSoftWrite (pin angle : Int) :
    FromTable (Represents m.settings) (servoSoftWrite pin angle) fun value s =>
      (value = -1 ∧ ¬ (ServoCall.write pin angle).Accepted m ∧ ShowsServos m s) ∨
      value = 0 ∧ (ServoCall.write pin angle).Accepted m ∧ ∃ old new : Servo,
        m pin.toNat = some old ∧ new.angle = angle ∧ new.frequency = old.frequency ∧
        ShowsServos (Function.update m pin.toNat (some new)) s := by
  unfold servoSoftWrite
  split
  · next hangle =>
    refine fromTable_ret _ fun s hs => .inl ⟨rfl, fun h => ?_, hs⟩
    have hrange : 0 ≤ angle ∧ angle ≤ 180 := h.2
    omega
  · next hangle =>
    have hrange : 0 ≤ angle ∧ angle ≤ 180 := by omega
    have hbounds := servoSoftDuty_bounds hrange
    refine Machine.triple_conseq
      (refines_call m.settings (.updateDuty pin (servoSoftDuty angle))) (fun _ h => h) ?_
    rintro value t ⟨p, hstep, ht⟩
    obtain ⟨rfl, rfl, hrefused⟩ | ⟨rfl, hpin, setting, setting', hold, hduty, hfrequency, rfl⟩ :=
      PwmMap.step_updateDuty hstep
    · refine .inl ⟨rfl, fun h => hrefused ⟨⟨h.1.1, by omega⟩, ?_⟩, ht⟩
      exact settings_ne_none.mpr h.1.2
    · obtain ⟨old, hm, rfl⟩ := Option.map_eq_some_iff.mp hold
      let new : Servo := ⟨angle, old.frequency, hrange, old.positive⟩
      have hsetting : new.setting = setting' := Setting.ext hduty.symm hfrequency.symm
      refine .inr ⟨rfl, ⟨⟨hpin, by simp [hm]⟩, hrange⟩, old, new, hm, rfl, rfl, ?_⟩
      rw [ShowsServos, settings_update, Option.map_some, hsetting]
      exact ht

/-- Both writes, of which the second may refuse more. -/
theorem moves_write {call : ServoCall} {pin angle : Int} (htarget : call.target = some (pin, angle))
    (haccepted : call.Accepted m ↔ (ServoCall.write pin angle).Accepted m) :
    FromTable (Represents m.settings) (servoSoftWrite pin angle) (Moves m call) := by
  refine Machine.triple_conseq (fromTable_servoSoftWrite pin angle) (fun _ h => h) ?_
  rintro value t (⟨rfl, hrefused, ht⟩ | ⟨rfl, hcall, old, new, hold, rfl, hfrequency, ht⟩)
  · exact ⟨m, .refused fun h => hrefused (haccepted.mp h), ht⟩
  · exact ⟨_, .moved new (haccepted.mpr hcall) htarget hold hfrequency, ht⟩

theorem moves_servoSoftWriteLimited (pin angle minAngle maxAngle : Int) :
    FromTable (Represents m.settings) (servoSoftWriteLimited pin angle minAngle maxAngle)
      (Moves m (.writeLimited pin angle minAngle maxAngle)) := by
  unfold servoSoftWriteLimited
  split
  · next houtside =>
    refine fromTable_ret _ fun s hs => ⟨m, .refused fun h => ?_, hs⟩
    have hlimits : minAngle ≤ angle ∧ angle ≤ maxAngle := h.2
    omega
  · next houtside =>
    refine moves_write rfl ⟨fun h => h.1, fun h => ⟨h, ?_⟩⟩
    omega

/-- A stop moves the servo to the middle first; where that is refused it stops nothing. -/
theorem moves_servoSoftStop (pin : Int) :
    FromTable (Represents m.settings) (servoSoftStop pin) (Moves m (.stop pin)) := by
  unfold servoSoftStop
  refine Machine.triple_bind (fromTable_servoSoftWrite pin 90) fun status => ?_
  rintro s (⟨rfl, hrefused, hs⟩ | ⟨rfl, hcall, old, new, hold, -, -, hs⟩)
  · rw [if_pos (by decide)]
    have hstop : ¬ (ServoCall.stop pin).Accepted m := fun h => hrefused ⟨h, by decide⟩
    exact fromTable_ret _ (fun t ht => ⟨m, .refused hstop, ht⟩) s hs
  · rw [if_neg (by decide)]
    refine fromTable_quiet rfl (fun _ => ?_) s hs
    refine Machine.triple_conseq (refines_call _ (.stop pin)) (fun _ h => h) ?_
    rintro value t ⟨p, hstep, ht⟩
    obtain ⟨rfl, rfl, hrefused⟩ | ⟨rfl, -, rfl⟩ := PwmMap.step_stop hstep
    · refine absurd ⟨hcall.1.1, ?_⟩ hrefused
      rw [settings_ne_none, Function.update_self]
      exact nofun
    · refine ⟨_, .stopped hcall.1, ?_⟩
      rw [settings_update, Function.update_idem] at ht
      rw [ShowsServos, settings_update]
      exact ht

theorem moves_call (m : ServoMap) (call : ServoCall) :
    FromTable (Represents m.settings) call.program (Moves m call) := by
  cases call with
  | init pin frequency => exact moves_servoSoftInit pin frequency
  | write pin angle => exact moves_write rfl Iff.rfl
  | writeLimited pin angle minAngle maxAngle =>
    exact moves_servoSoftWriteLimited pin angle minAngle maxAngle
  | stop pin => exact moves_servoSoftStop pin

end

/-! ### Where the servos stand -/

/-- The width in microseconds that `angle_to_duty_cycle` documents for an angle. -/
def pulseUs (angle : Int) : ℚ := 1000 + angle * 1000 / 180

/-- The slot of a servo: the documented pulse up to 100 us, at the 50 Hz the duty cycles are for. -/
structure Standing (servo : Servo) (slot : SoftPwm) : Prop where
  active : slot.active ≠ 0
  frequency : slot.frequency = servo.frequency
  duty : 5 ≤ slot.dutyCycle ∧ slot.dutyCycle ≤ 10
  pulse : servo.frequency = 50 → |(pwmTimes slot).highTimeUs - pulseUs servo.angle| ≤ 100

/-- Rounding to a percent is rounding to 200 us. -/
theorem standing_of_shows {servo : Servo} {slot : SoftPwm}
    (h : slot.Shows (some servo.setting)) : Standing servo slot := by
  obtain ⟨hactive, hduty, hfrequency⟩ := h
  have hslot : slot.dutyCycle = (198 + servo.angle) / 36 :=
    hduty.trans (servoSoftDuty_eq servo.range)
  refine ⟨hactive, hfrequency, ?_, fun h50 => ?_⟩
  · rw [hduty]
    exact servoSoftDuty_bounds servo.range
  · have hhigh : (pwmTimes slot).highTimeUs = 200 * slot.dutyCycle := by
      have hslot50 : slot.frequency = 50 := hfrequency.trans h50
      simp only [pwmTimes, hslot50]
      push_cast
      ring
    have hbelow : 36 * slot.dutyCycle ≤ 198 + servo.angle := by omega
    have habove : 198 + servo.angle ≤ 36 * slot.dutyCycle + 35 := by omega
    have hbelow' : (36 : ℚ) * slot.dutyCycle ≤ 198 + servo.angle := by exact_mod_cast hbelow
    have habove' : (198 : ℚ) + servo.angle ≤ 36 * slot.dutyCycle + 35 := by exact_mod_cast habove
    rw [hhigh, pulseUs, abs_le]
    constructor <;> linarith

/-- The soft servo functions refine the map: any sequence of calls, with any arguments, failures
and steps of the threads, is a run of the map on the calls and what they returned; every servo of
the map it ends in stands on its pin, and every other slot plays nothing. -/
theorem softServo_refines (calls : List ServoCall) (m : ServoMap) (s t : State) (values : List Int)
    (hs : ShowsServos m s) (h : machine.Runs (Prog.results ServoCall.program calls) s values t) :
    values.length = calls.length ∧ ∃ m', Path ServoMap.Step m (calls.zip values) m' ∧
      ∀ i, (m' i = none → (t.softPwmPins i).active = 0) ∧
        ∀ servo, m' i = some servo → Standing servo (t.softPwmPins i) := by
  have hstable : ∀ m, machine.Stable (ShowsServos m) :=
    fun m => fromTable_stable (Represents m.settings)
  have hcalls := Machine.triple_results hstable moves_call calls m
  obtain ⟨hlength, m', hpath, ht⟩ := Machine.wp_runs (hcalls s hs) h
  refine ⟨hlength, m', hpath, fun i => ⟨fun hnone => ?_, fun servo hsome => ?_⟩⟩
  · have hshown := ht i
    rw [ServoMap.settings, hnone] at hshown
    exact hshown
  · have hshown := ht i
    rw [ServoMap.settings, hsome] at hshown
    exact standing_of_shows hshown

/-- A servo that begins, moves and stops, and a write without one. -/
theorem softServo_refines_boot :
    ∃ t, machine.Runs (Prog.results ServoCall.program
        [.write 22 90, .init 22 50, .writeLimited 22 115 65 115, .write 22 181]) boot
        [-1, 0, 0, -1] t ∧
      ∃ m', Path ServoMap.Step (fun _ => none) [(.write 22 90, -1), (.init 22 50, 0),
        (.writeLimited 22 115 65 115, 0), (.write 22 181, -1)] m' ∧
        ∀ i, (m' i = none → (t.softPwmPins i).active = 0) ∧
          ∀ servo, m' i = some servo → Standing servo (t.softPwmPins i) := by
  obtain ⟨values, t, hruns, hvalues⟩ := machine.play_runs
    (List.replicate 20 (.inl 0)) (Prog.results ServoCall.program
      [.write 22 90, .init 22 50, .writeLimited 22 115 65 115, .write 22 181])
    boot (fun values _ => decide (values = [-1, 0, 0, -1])) (by decide +kernel)
  obtain rfl : values = [-1, 0, 0, -1] := of_decide_eq_true hvalues
  exact ⟨t, hruns, (softServo_refines _ (fun _ => none) _ _ _ represents_boot hruns).2⟩

end EmbeddedCar.Gpio
