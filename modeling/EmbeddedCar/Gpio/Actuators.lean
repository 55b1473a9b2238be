import EmbeddedCar.Gpio.Drive

/-!
# Duties and servo after a command

The four duties and the servo's pulse after the actions of one command. An update reaches its
slot when the slot is active and the value lies in 0..100; otherwise the old duty stays.
-/

namespace EmbeddedCar.Gpio

open EmbeddedCar.Concurrent EmbeddedCar.Text

namespace Drive

def active (v : Drive) (pin : Int) : Int := (v.softPwm pin.toNat).active

def MotorsActive (v : Drive) : Prop := ∀ pin ∈ motorPins, v.active pin ≠ 0

instance (v : Drive) : Decidable v.MotorsActive :=
  inferInstanceAs (Decidable (∀ pin ∈ motorPins, v.active pin ≠ 0))

/-- The duties of the four H-bridge inputs. -/
def duties (v : Drive) : Duties where
  left1 := v.dutyCycle pwmMotorLeft1
  left2 := v.dutyCycle pwmMotorLeft2
  right1 := v.dutyCycle pwmMotorRight1
  right2 := v.dutyCycle pwmMotorRight2

/-- The duty of a pin after `softPwmUpdateDuty(pin, value)`. -/
def updated (v : Drive) (pin value : Int) : Int :=
  if v.Accepts pin value then value else v.dutyCycle pin

theorem act_accepted {v : Drive} {pin value : Int} (h : v.Accepts pin value) :
    act (.duty pin value) v = v.setDuty pin value := if_pos h

theorem act_rejected {v : Drive} {pin value : Int} (h : ¬ v.Accepts pin value) :
    act (.duty pin value) v = v := if_neg h

@[simp] theorem active_act (a : DriveAction) (v : Drive) (pin : Int) :
    (act a v).active pin = v.active pin := by
  cases a with
  | duty target value =>
    by_cases hyes : v.Accepts target value
    · rw [act_accepted hyes]
      by_cases hpin : pin.toNat = target.toNat
      · simp [active, setDuty, hpin]
      · simp [active, setDuty, hpin]
    · rw [act_rejected hyes]
  | servo ns => rfl
  | remember cmd => rfl

theorem active_outcome (actions : List DriveAction) (v : Drive) (pin : Int) :
    (outcome act actions v).active pin = v.active pin := by
  induction actions generalizing v with
  | nil => rfl
  | cons a actions ih => rw [outcome_cons, ih, active_act]

theorem motorsActive_outcome (actions : List DriveAction) {v : Drive} (h : v.MotorsActive) :
    (outcome act actions v).MotorsActive := by
  intro pin hpin
  rw [active_outcome]
  exact h pin hpin

theorem accepts_iff (v : Drive) {pin : Int} (hpin : pin ∈ motorPins) (value : Int) :
    v.Accepts pin value ↔ 0 ≤ value ∧ value ≤ 100 ∧ v.active pin ≠ 0 := by
  have hrange : 0 ≤ pin ∧ pin ≤ 27 := by
    have hall : ∀ p ∈ motorPins, 0 ≤ p ∧ p ≤ 27 := by decide
    exact hall pin hpin
  unfold Accepts active
  constructor
  · rintro ⟨-, -, h⟩
    exact h
  · intro h
    exact ⟨hrange.1, hrange.2, h⟩

/-- The acceptance of an update does not depend on the duties. -/
theorem accepts_act (a : DriveAction) (v : Drive) (pin value : Int) :
    (act a v).Accepts pin value ↔ v.Accepts pin value := by
  have h := active_act a v pin
  unfold active at h
  unfold Accepts
  rw [h]

theorem dutyCycle_duty (v : Drive) (pin value : Int) :
    (act (.duty pin value) v).dutyCycle pin = v.updated pin value := by
  unfold updated
  by_cases hyes : v.Accepts pin value
  · rw [act_accepted hyes, if_pos hyes]
    simp [dutyCycle, setDuty]
  · rw [act_rejected hyes, if_neg hyes]

theorem dutyCycle_duty_other (v : Drive) {pin target : Int} (value : Int)
    (hne : pin.toNat ≠ target.toNat) :
    (act (.duty target value) v).dutyCycle pin = v.dutyCycle pin := by
  by_cases hyes : v.Accepts target value
  · rw [act_accepted hyes]
    simp [dutyCycle, setDuty, hne]
  · rw [act_rejected hyes]

/-- An update of another pin does not change what an update of this one does. -/
theorem updated_duty_other (v : Drive) {pin target : Int} (value value' : Int)
    (hne : pin.toNat ≠ target.toNat) :
    (act (.duty target value') v).updated pin value = v.updated pin value := by
  unfold updated
  simp only [accepts_act, dutyCycle_duty_other v value' hne]

@[simp] theorem updated_servo (ns : Int) (v : Drive) (pin value : Int) :
    (act (.servo ns) v).updated pin value = v.updated pin value := rfl

theorem servoNs_duty (v : Drive) (pin value : Int) :
    (act (.duty pin value) v).servoNs = v.servoNs := by
  by_cases hyes : v.Accepts pin value
  · rw [act_accepted hyes]
    rfl
  · rw [act_rejected hyes]

theorem lastCommand_duty (v : Drive) (pin value : Int) :
    (act (.duty pin value) v).lastCommand = v.lastCommand := by
  by_cases hyes : v.Accepts pin value
  · rw [act_accepted hyes]
    rfl
  · rw [act_rejected hyes]

/-- The duties after one update of each input. -/
def dutiesUpdated (v : Drive) (d : Duties) : Duties where
  left1 := v.updated pwmMotorLeft1 d.left1
  left2 := v.updated pwmMotorLeft2 d.left2
  right1 := v.updated pwmMotorRight1 d.right1
  right2 := v.updated pwmMotorRight2 d.right2

theorem duties_dutyActions (d : Duties) (v : Drive) :
    (outcome act (dutyActions d) v).duties = v.dutiesUpdated d := by
  simp only [dutyActions, outcome_cons, outcome_nil, duties, dutiesUpdated, Duties.mk.injEq]
  refine ⟨?_, ?_, ?_, ?_⟩
  · iterate 3 rw [dutyCycle_duty_other _ _ (by decide)]
    rw [dutyCycle_duty]
  · iterate 2 rw [dutyCycle_duty_other _ _ (by decide)]
    rw [dutyCycle_duty, updated_duty_other _ _ _ (by decide)]
  · rw [dutyCycle_duty_other _ _ (by decide), dutyCycle_duty]
    iterate 2 rw [updated_duty_other _ _ _ (by decide)]
  · rw [dutyCycle_duty]
    iterate 3 rw [updated_duty_other _ _ _ (by decide)]

theorem servoNs_dutyActions (d : Duties) (v : Drive) :
    (outcome act (dutyActions d) v).servoNs = v.servoNs := by
  simp only [dutyActions, outcome_cons, outcome_nil, servoNs_duty]

/-- The duties after a command. -/
theorem duties_execute (cmd : CarCommand) (v : Drive) :
    (outcome act (executeActions cmd) v).duties =
      cmd.duties.elim v.duties v.dutiesUpdated := by
  unfold executeActions
  rw [outcome_cons]
  cases cmd.duties with
  | none => rfl
  | some d =>
    simp only [Option.elim_some]
    rw [duties_dutyActions]
    rfl

/-- The servo after a command. -/
theorem servoNs_execute (cmd : CarCommand) (v : Drive) :
    (outcome act (executeActions cmd) v).servoNs =
      some (Gpio.servoNs (steeringAngle cmd.direction.text)) := by
  unfold executeActions
  rw [outcome_cons]
  cases cmd.duties with
  | none => rfl
  | some d =>
    simp only [Option.elim_some]
    rw [servoNs_dutyActions]
    rfl

theorem duties_remember (actions : List DriveAction) (cmd : CarCommand) (v : Drive) :
    (outcome act (actions ++ [.remember cmd]) v).duties = (outcome act actions v).duties := by
  unfold outcome
  rw [List.foldl_append]
  rfl

theorem servoNs_remember (actions : List DriveAction) (cmd : CarCommand) (v : Drive) :
    (outcome act (actions ++ [.remember cmd]) v).servoNs = (outcome act actions v).servoNs := by
  unfold outcome
  rw [List.foldl_append]
  rfl

theorem lastCommand_remember (actions : List DriveAction) (cmd : CarCommand) (v : Drive) :
    (outcome act (actions ++ [.remember cmd]) v).lastCommand = cmd := by
  unfold outcome
  rw [List.foldl_append]
  rfl

/-- With the slots active, duties within 0..100 are taken over. -/
theorem dutiesUpdated_of_active {v : Drive} (hactive : v.MotorsActive) {d : Duties}
    (hd : ∀ x ∈ [d.left1, d.left2, d.right1, d.right2], 0 ≤ x ∧ x ≤ 100) :
    v.dutiesUpdated d = d := by
  have hupdated : ∀ pin ∈ motorPins, ∀ x, 0 ≤ x ∧ x ≤ 100 → v.updated pin x = x := by
    intro pin hpin x hx
    unfold updated
    rw [if_pos]
    rw [accepts_iff v hpin]
    exact ⟨hx.1, hx.2, hactive pin hpin⟩
  unfold dutiesUpdated
  rw [hupdated _ (by decide) _ (hd _ (by simp)), hupdated _ (by decide) _ (hd _ (by simp)),
    hupdated _ (by decide) _ (hd _ (by simp)), hupdated _ (by decide) _ (hd _ (by simp))]

end Drive

/-- Every duty a command asks for is 0 or its speed. -/
theorem duties_zero_or_speed {movement direction : Bytes} {speed : Int} {d : Duties}
    (h : movementDuties movement direction speed = some d) :
    ∀ x ∈ [d.left1, d.left2, d.right1, d.right2], x = 0 ∨ x = speed := by
  unfold movementDuties at h
  split at h
  · split at h
    · cases h; simp
    split at h <;> (cases h; simp)
  split at h
  · split at h
    · cases h; simp
    split at h <;> (cases h; simp)
  split at h
  · cases h
  · cases h; simp

/-- Copying into a `char[16]` keeps every comparison with a literal. -/
theorem char16_eq_iff (src lit : Bytes) (hlit : lit.length < 15) :
    (strncpy16 src).text = lit ↔ cstring src = lit :=
  strncpy_text_eq_iff (Nat.succ_lt_succ hlit)

/-- Truncation to 15 characters does not change the duties asked for. -/
theorem movementDuties_char16 (movement direction : Bytes) (speed : Int) :
    movementDuties (strncpy16 movement).text
        (strncpy16 direction).text speed =
      movementDuties (cstring movement) (cstring direction) speed := by
  unfold movementDuties
  simp only [char16_eq_iff _ (ascii "forward") (by decide),
    char16_eq_iff _ (ascii "backward") (by decide), char16_eq_iff _ (ascii "left") (by decide),
    char16_eq_iff _ (ascii "right") (by decide)]

theorem steeringAngle_char16 (direction : Bytes) :
    steeringAngle (strncpy16 direction).text = steeringAngle (cstring direction) := by
  unfold steeringAngle
  simp only [char16_eq_iff _ (ascii "left") (by decide),
    char16_eq_iff _ (ascii "right") (by decide)]

end EmbeddedCar.Gpio
