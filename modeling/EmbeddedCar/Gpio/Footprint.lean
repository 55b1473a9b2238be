import EmbeddedCar.Gpio.Controller

/-!
# Footprints

Which operations each function of the controller can perform. An assertion kept by these
operations and by the threads is kept by the function.
-/

namespace EmbeddedCar.Gpio

open EmbeddedCar.Concurrent EmbeddedCar.Text Prog

/-- The operations that set pins and the servo. -/
def servoOp : Op → Prop
  | .system _ | .usleep _ => True
  | _ => False

/-- The operations that set the servo alone. -/
def pwmOp : Op → Prop
  | .system (.gpioSet ..) => False
  | .system _ => True
  | _ => False

/-- The operations that set the duties. -/
def dutyOp : Op → Prop
  | .lock _ | .unlock _ | .loadSoftPwm .. => True
  | .storeSoftPwm _ field _ => field = .dutyCycle
  | _ => False

/-- The operations of a driving branch without blinking. -/
def driveOp : Op → Prop
  | .system _ | .usleep _ => True
  | o => dutyOp o

/-- The operations of `stop_all`, and those around it. -/
def stopOp : Op → Prop
  | .loadBlink .. | .joinBlink _ | .loadLastCommand | .storeLastCommand _ => True
  | .storeBlink _ field value => field = .active ∧ value = 0
  | o => driveOp o

/-- The operations of a tick. -/
def tickOp : Op → Prop
  | .storeBlink .. | .createBlink _ | .undefinedBehaviour => True
  | o => stopOp o

theorem servoOp_of_pwmOp {o : Op} (h : pwmOp o) : servoOp o := by
  cases o <;> first | exact h | trivial

theorem driveOp_of_servoOp {o : Op} (h : servoOp o) : driveOp o := by
  cases o <;> trivial

theorem driveOp_of_dutyOp {o : Op} (h : dutyOp o) : driveOp o := by
  cases o <;> first | exact h | trivial

theorem stopOp_of_driveOp {o : Op} (h : driveOp o) : stopOp o := by
  cases o <;> first | exact h | trivial

theorem tickOp_of_stopOp {o : Op} (h : stopOp o) : tickOp o := by
  cases o <;> first | exact h | trivial

section

variable {allowed : Op → Prop}

theorem uses_pinMode (h : ∀ pin setting, allowed (.system (.gpioSet pin setting))) (pin : Int)
    (mode : Mode) : (pinMode pin mode).Uses allowed := by
  cases mode <;> exact ⟨h _ _, fun _ => trivial⟩

theorem uses_digitalWrite (h : ∀ pin setting, allowed (.system (.gpioSet pin setting)))
    (pin : Int) (value : Level) : (digitalWrite pin value).Uses allowed := by
  cases value <;> exact ⟨h _ _, fun _ => trivial⟩

theorem uses_servoWrite (pin angle : Int) : (servoWrite pin angle).Uses pwmOp := by
  unfold servoWrite
  split
  · trivial
  refine uses_bind ?_ fun status => ?_
  · exact ⟨trivial, fun _ => ⟨trivial, fun _ => ⟨trivial, fun _ => ⟨trivial, fun _ => trivial⟩⟩⟩⟩
  · split <;> trivial

theorem uses_servoInit (h : ∀ command, allowed (.system command))
    (hundefined : allowed .undefinedBehaviour) (pin : Int) :
    (servoInit pin).Uses allowed := by
  unfold servoInit
  split
  · trivial
  refine uses_bind (uses_pinMode (fun _ _ => h _) _ _) fun status => ?_
  split
  · trivial
  refine uses_bind ?_ fun status => ?_
  · unfold pwmSetFrequency Prog.when
    split
    · exact ⟨hundefined, fun _ => ⟨h _, fun _ => ⟨h _, fun _ => ⟨h _, fun _ => trivial⟩⟩⟩⟩
    · exact ⟨h _, fun _ => ⟨h _, fun _ => ⟨h _, fun _ => trivial⟩⟩⟩
  split
  · trivial
  · refine uses_bind (uses_mono ?_ (uses_servoWrite _ _)) fun _ => trivial
    intro o ho
    cases o with
    | system command => exact h command
    | _ => cases ho

/-- The operations of `softPwmStart` on a pin, apart from its shell command. -/
structure AllowsStart (allowed : Op → Prop) (pin dutyCycle : Int) : Prop where
  lock : allowed (.lock .softPwm)
  unlock : allowed (.unlock .softPwm)
  load : ∀ i field, allowed (.loadSoftPwm i field)
  storePin : ∀ i, allowed (.storeSoftPwm i .pin pin)
  storeDuty : ∀ i, allowed (.storeSoftPwm i .dutyCycle dutyCycle)
  storeFrequency : ∀ i value, allowed (.storeSoftPwm i .frequency value)
  storeActive : ∀ i value, allowed (.storeSoftPwm i .active value)
  join : ∀ i, allowed (.joinSoftPwm i)
  create : ∀ i, allowed (.createSoftPwm i)

theorem uses_softPwmStart {pin dutyCycle : Int} (ha : AllowsStart allowed pin dutyCycle)
    (h : ∀ pin setting, allowed (.system (.gpioSet pin setting))) (frequency : Int) :
    (softPwmStart pin dutyCycle frequency).Uses allowed := by
  unfold softPwmStart
  split
  · trivial
  split
  · trivial
  split
  · trivial
  simp only [call_bind]
  refine ⟨ha.lock, fun _ => ⟨ha.load _ _, fun active => uses_bind ?_ fun _ => ?_⟩⟩
  · unfold Prog.when
    split
    · exact ⟨ha.storeActive _ _, fun _ => ⟨ha.join _, fun _ => trivial⟩⟩
    · trivial
  · refine ⟨ha.storePin _, fun _ => ⟨ha.storeDuty _, fun _ => ⟨ha.storeFrequency _ _, fun _ =>
      ⟨ha.storeActive _ _, fun _ => ?_⟩⟩⟩⟩
    refine uses_bind (uses_pinMode h _ _) fun _ => ⟨ha.create _, fun result => ?_⟩
    beta_reduce
    split
    · exact ⟨ha.storeActive _ _, fun _ => ⟨ha.unlock, fun _ => trivial⟩⟩
    · exact ⟨ha.unlock, fun _ => trivial⟩

end

/-! ### The functions of a tick -/

theorem uses_setSteeringDirection_pwmOp (direction : Bytes) :
    (setSteeringDirection direction).Uses pwmOp := by
  have hwrite : ∀ angle, (servoWriteLimited pwmServo angle 65 115).Uses pwmOp := by
    intro angle
    unfold servoWriteLimited
    split
    · trivial
    split
    · trivial
    · exact uses_servoWrite _ _
  unfold setSteeringDirection
  split
  · exact uses_bind (hwrite _) fun _ => trivial
  split
  · exact uses_bind (hwrite _) fun _ => trivial
  · exact uses_bind (hwrite _) fun _ => trivial

theorem uses_setSteeringDirection (direction : Bytes) :
    (setSteeringDirection direction).Uses servoOp :=
  uses_mono (fun _ => servoOp_of_pwmOp) (uses_setSteeringDirection_pwmOp direction)

theorem uses_servoStop (pin : Int) : (servoStop pin).Uses servoOp := by
  refine uses_bind (uses_mono (fun _ => servoOp_of_pwmOp) (uses_servoWrite _ _)) fun status => ?_
  split
  · trivial
  · exact ⟨trivial, fun _ => ⟨trivial, fun _ => ⟨trivial, fun _ => trivial⟩⟩⟩

theorem uses_softPwmUpdateDuty (pin value : Int) :
    (softPwmUpdateDuty pin value).Uses dutyOp := by
  unfold softPwmUpdateDuty
  split
  · trivial
  split
  · trivial
  simp only [call_bind]
  refine ⟨trivial, fun _ => ⟨trivial, fun active => ?_⟩⟩
  beta_reduce
  split
  · exact ⟨trivial, fun _ => trivial⟩
  · exact ⟨rfl, fun _ => ⟨trivial, fun _ => trivial⟩⟩

theorem uses_updateDuties (left1 left2 right1 right2 : Int) :
    (updateDuties left1 left2 right1 right2).Uses dutyOp := by
  unfold updateDuties
  iterate 4 refine uses_bind (uses_softPwmUpdateDuty _ _) fun _ => ?_
  trivial

/-- The operations of `blinkStop` on a pin. -/
structure AllowsBlinkStop (allowed : Op → Prop) (pin : Int) : Prop where
  lock : allowed (.lock .blink)
  unlock : allowed (.unlock .blink)
  load : allowed (.loadBlink pin.toNat .active)
  clear : allowed (.storeBlink pin.toNat .active 0)
  join : allowed (.joinBlink pin.toNat)

/-- The operations of `blinkStart` on a pin. -/
structure AllowsBlinkStart (allowed : Op → Prop) (pin freq duration : Int) : Prop
    extends AllowsBlinkStop allowed pin where
  storePin : allowed (.storeBlink pin.toNat .pin pin)
  storeFreq : allowed (.storeBlink pin.toNat .freq freq)
  storeDuration : allowed (.storeBlink pin.toNat .duration duration)
  storeActive : allowed (.storeBlink pin.toNat .active 1)
  create : allowed (.createBlink pin.toNat)

section

variable {allowed : Op → Prop} {pin freq duration : Int}

theorem uses_blinkStop (ha : 0 ≤ pin ∧ pin ≤ 21 → AllowsBlinkStop allowed pin)
    (hset : ∀ setting, allowed (.system (.gpioSet pin setting))) :
    (blinkStop pin).Uses allowed := by
  unfold blinkStop
  split
  · trivial
  next hpin =>
  have ha := ha (by omega)
  simp only [call_bind]
  refine ⟨ha.lock, fun _ => ⟨ha.load, fun active => ?_⟩⟩
  beta_reduce
  split
  · exact ⟨ha.unlock, fun _ => trivial⟩
  · refine ⟨ha.clear, fun _ => ⟨ha.join, fun _ => ?_⟩⟩
    refine uses_bind ?_ fun _ => ⟨ha.unlock, fun _ => trivial⟩
    exact ⟨hset _, fun _ => trivial⟩

theorem uses_blinkStart (ha : 0 ≤ pin ∧ pin ≤ 21 → AllowsBlinkStart allowed pin freq duration)
    (hset : ∀ setting, allowed (.system (.gpioSet pin setting))) :
    (blinkStart pin freq duration).Uses allowed := by
  unfold blinkStart
  split
  · trivial
  split
  · trivial
  next hpin _ =>
  have ha := ha (by omega)
  simp only [call_bind]
  refine ⟨ha.lock, fun _ => ⟨ha.load, fun active => uses_bind ?_ fun _ => ?_⟩⟩
  · unfold Prog.when
    split
    · exact ⟨ha.clear, fun _ => ⟨ha.join, fun _ => trivial⟩⟩
    · trivial
  · refine ⟨ha.storePin, fun _ => ⟨ha.storeFreq, fun _ => ⟨ha.storeDuration, fun _ =>
      ⟨ha.storeActive, fun _ => ?_⟩⟩⟩⟩
    refine uses_bind ⟨hset _, fun _ => trivial⟩ fun _ => ⟨ha.create, fun result => ?_⟩
    beta_reduce
    split
    · exact ⟨ha.clear, fun _ => ⟨ha.unlock, fun _ => trivial⟩⟩
    · exact ⟨ha.unlock, fun _ => trivial⟩

end

theorem uses_blinkStop_stopOp (pin : Int) : (blinkStop pin).Uses stopOp := by
  apply uses_blinkStop
  · exact fun _ => ⟨trivial, trivial, trivial, ⟨rfl, rfl⟩, trivial⟩
  · exact fun _ => trivial

theorem uses_blinkStart_tickOp (pin freq duration : Int) :
    (blinkStart pin freq duration).Uses tickOp := by
  apply uses_blinkStart
  · exact fun _ => ⟨⟨trivial, trivial, trivial, trivial, trivial⟩, trivial, trivial, trivial,
      trivial, trivial⟩
  · exact fun _ => trivial

theorem uses_stopAll : stopAll.Uses stopOp := by
  unfold stopAll
  iterate 4 refine uses_bind (uses_blinkStop_stopOp _) fun _ => ?_
  iterate 4 refine uses_bind (uses_digitalWrite (fun _ _ => trivial) _ _) fun _ => ?_
  exact uses_mono (fun _ ho => stopOp_of_driveOp (driveOp_of_dutyOp ho)) (uses_updateDuties 0 0 0 0)

/-! ### The branches of a command -/

/-- The LEDs a command lets blink and those it lights. -/
structure Signal where
  blinking : List Int
  lit : List Int
  deriving DecidableEq, Repr

namespace Signal

def left : Signal := ⟨[ledForwardLeft, ledBackwardLeft], []⟩
def right : Signal := ⟨[ledForwardRight, ledBackwardRight], []⟩
def ahead : Signal := ⟨[], [ledForwardLeft, ledForwardRight]⟩
def back : Signal := ⟨[], [ledBackwardLeft, ledBackwardRight]⟩
def off : Signal := ⟨[], []⟩

end Signal

def CarCommand.signal (cmd : CarCommand) : Signal :=
  if cmd.movement.text = ascii "forward" ∨ cmd.movement.text = ascii "backward" then
    if cmd.direction.text = ascii "left" then .left
    else if cmd.direction.text = ascii "right" then .right
    else if cmd.movement.text = ascii "forward" then .ahead
    else .back
  else if cmd.movement.text = ascii "left" then .left
  else if cmd.movement.text = ascii "right" then .right
  else .off

/-- The signal uses LEDs, each in one way. -/
structure Signal.Proper (sig : Signal) : Prop where
  leds : ∀ led ∈ sig.blinking ++ sig.lit, led ∈ ledPins
  nodup : (sig.blinking ++ sig.lit).Nodup

theorem signal_proper (cmd : CarCommand) : cmd.signal.Proper := by
  unfold CarCommand.signal
  split
  · split
    · exact ⟨by decide, by decide⟩
    split
    · exact ⟨by decide, by decide⟩
    split <;> exact ⟨by decide, by decide⟩
  split
  · exact ⟨by decide, by decide⟩
  split <;> exact ⟨by decide, by decide⟩

/-- The programs of the branches that show a signal: two blinks in either order or two LEDs and
then the duties, or the stop. -/
inductive Branch : Signal → MainProg Unit → Prop where
  | blinks {first second : Int} {rest : MainProg Unit} : rest.Uses dutyOp →
      Branch ⟨[first, second], []⟩
        (do let _ ← blinkStart first 2 3; let _ ← blinkStart second 2 3; rest)
  | blinksBack {first second : Int} {rest : MainProg Unit} : rest.Uses dutyOp →
      Branch ⟨[first, second], []⟩
        (do let _ ← blinkStart second 2 3; let _ ← blinkStart first 2 3; rest)
  | lights {first second : Int} {rest : MainProg Unit} : rest.Uses dutyOp →
      Branch ⟨[], [first, second]⟩
        (do let _ ← digitalWrite first .high; let _ ← digitalWrite second .high; rest)
  | stops : Branch .off stopAll

/-- A command steers and takes the branch of its signal. -/
theorem executeCarCommand_branch (cmd : CarCommand) :
    ∃ body, executeCarCommand cmd = (do setSteeringDirection cmd.direction.text; body) ∧
      Branch cmd.signal body := by
  refine ⟨_, rfl, ?_⟩
  have hduties := uses_updateDuties
  have hret : (.ret () : MainProg Unit).Uses dutyOp := trivial
  simp only [strcmpEq, decide_eq_true_eq, CarCommand.signal]
  by_cases hforward : cmd.movement.text = ascii "forward"
  · rw [if_pos hforward, if_pos (.inl hforward), if_pos hforward]
    split
    · exact .blinks (hduties _ _ _ _)
    split
    · exact .blinks (hduties _ _ _ _)
    · exact .lights (hduties _ _ _ _)
  rw [if_neg hforward]
  by_cases hbackward : cmd.movement.text = ascii "backward"
  · rw [if_pos hbackward, if_pos (.inr hbackward), if_neg hforward]
    split
    · exact .blinksBack (hduties _ _ _ _)
    split
    · exact .blinksBack (hduties _ _ _ _)
    · exact .lights (hduties _ _ _ _)
  rw [if_neg hbackward, if_neg (not_or.mpr ⟨hforward, hbackward⟩)]
  split
  · exact .blinks hret
  split
  · exact .blinks hret
  · exact .stops

/-- The movement of `stop_cmd` reaches the last branch. -/
theorem executeCarCommand_stopCommand :
    executeCarCommand stopCommand = (do setSteeringDirection (ascii "center"); stopAll) := by
  unfold executeCarCommand
  rw [if_neg (by decide), if_neg (by decide), if_neg (by decide), if_neg (by decide)]
  rfl

theorem timerCallback_failed {jc : JsonC} {run : WgetRun}
    (h : fetchCarCommand jc run = .failed) :
    timerCallback jc run =
      (do executeCarCommand stopCommand; exec (.storeLastCommand stopCommand)) := by
  unfold timerCallback
  rw [h]

theorem uses_timerCallback_failed {jc : JsonC} {run : WgetRun}
    (h : fetchCarCommand jc run = .failed) : (timerCallback jc run).Uses stopOp := by
  rw [timerCallback_failed h, executeCarCommand_stopCommand]
  refine uses_bind (uses_bind ?_ fun _ => uses_stopAll) fun _ => ⟨trivial, fun _ => trivial⟩
  exact uses_mono (fun _ ho => stopOp_of_driveOp (driveOp_of_servoOp ho))
    (uses_setSteeringDirection _)

end EmbeddedCar.Gpio
