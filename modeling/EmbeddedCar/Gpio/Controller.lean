import EmbeddedCar.Gpio.Lib
import EmbeddedCar.Gpio.Command

/-!
# The controller

The functions of `gpio_controller.c`, as programs of the main thread. `fetch_car_command` does
not touch the shared state, so a tick takes the finished `wget` run as an argument.
-/

namespace EmbeddedCar.Gpio

open EmbeddedCar.Concurrent EmbeddedCar.Text

def ledForwardRight : Int := 17
def ledForwardLeft : Int := 27
def ledBackwardLeft : Int := 6
def ledBackwardRight : Int := 5
def pwmMotorLeft1 : Int := 22
def pwmMotorLeft2 : Int := 23
def pwmMotorRight1 : Int := 26
def pwmMotorRight2 : Int := 16
def pwmServo : Int := 12

/-- The LED pins. -/
def ledPins : List Int := [ledForwardLeft, ledForwardRight, ledBackwardLeft, ledBackwardRight]

/-- The H-bridge inputs. -/
def motorPins : List Int := [pwmMotorLeft1, pwmMotorLeft2, pwmMotorRight1, pwmMotorRight2]

/-- `gpio_controller.c:138-166`. -/
def initGpioPins : MainProg Unit := do
  let _ ← pinMode ledForwardLeft .output
  let _ ← pinMode ledForwardRight .output
  let _ ← pinMode ledBackwardLeft .output
  let _ ← pinMode ledBackwardRight .output
  let _ ← pinMode pwmMotorLeft1 .output
  let _ ← pinMode pwmMotorLeft2 .output
  let _ ← pinMode pwmMotorRight1 .output
  let _ ← pinMode pwmMotorRight2 .output
  let _ ← servoInit pwmServo
  let _ ← digitalWrite ledForwardLeft .low
  let _ ← digitalWrite ledForwardRight .low
  let _ ← digitalWrite ledBackwardLeft .low
  let _ ← digitalWrite ledBackwardRight .low
  let _ ← softPwmStart pwmMotorLeft1 0 500
  let _ ← softPwmStart pwmMotorLeft2 0 500
  let _ ← softPwmStart pwmMotorRight1 0 500
  let _ ← softPwmStart pwmMotorRight2 0 500
  return ()

/-- `gpio_controller.c:171-186`. -/
def setMotorFrequency (freq : Int) : MainProg Unit := do
  let _ ← softPwmStop pwmMotorLeft1
  let _ ← softPwmStop pwmMotorLeft2
  let _ ← softPwmStop pwmMotorRight1
  let _ ← softPwmStop pwmMotorRight2
  let _ ← softPwmStart pwmMotorLeft1 0 freq
  let _ ← softPwmStart pwmMotorLeft2 0 freq
  let _ ← softPwmStart pwmMotorRight1 0 freq
  let _ ← softPwmStart pwmMotorRight2 0 freq
  return ()

/-- `gpio_controller.c:189-207`. -/
def stopAll : MainProg Unit := do
  let _ ← blinkStop ledForwardLeft
  let _ ← blinkStop ledForwardRight
  let _ ← blinkStop ledBackwardLeft
  let _ ← blinkStop ledBackwardRight
  let _ ← digitalWrite ledForwardLeft .low
  let _ ← digitalWrite ledForwardRight .low
  let _ ← digitalWrite ledBackwardLeft .low
  let _ ← digitalWrite ledBackwardRight .low
  let _ ← softPwmUpdateDuty pwmMotorLeft1 0
  let _ ← softPwmUpdateDuty pwmMotorLeft2 0
  let _ ← softPwmUpdateDuty pwmMotorRight1 0
  let _ ← softPwmUpdateDuty pwmMotorRight2 0
  return ()

/-- `gpio_controller.c:210-221`. -/
def setSteeringDirection (direction : Bytes) : MainProg Unit := do
  if strcmpEq direction (ascii "left") then
    let _ ← servoWriteLimited pwmServo 65 65 115
  else if strcmpEq direction (ascii "right") then
    let _ ← servoWriteLimited pwmServo 115 65 115
  else
    let _ ← servoWriteLimited pwmServo 90 65 115

/-- The four updates that end every driving branch of `execute_car_command`. -/
def updateDuties (left1 left2 right1 right2 : Int) : MainProg Unit := do
  let _ ← softPwmUpdateDuty pwmMotorLeft1 left1
  let _ ← softPwmUpdateDuty pwmMotorLeft2 left2
  let _ ← softPwmUpdateDuty pwmMotorRight1 right1
  let _ ← softPwmUpdateDuty pwmMotorRight2 right2
  return ()

/-- `gpio_controller.c:224-307`. -/
def executeCarCommand (cmd : CarCommand) : MainProg Unit := do
  setSteeringDirection cmd.direction.text
  if strcmpEq cmd.movement.text (ascii "forward") then
    if strcmpEq cmd.direction.text (ascii "left") then
      let _ ← blinkStart ledForwardLeft 2 3
      let _ ← blinkStart ledBackwardLeft 2 3
      updateDuties 0 cmd.speed cmd.speed 0
    else if strcmpEq cmd.direction.text (ascii "right") then
      let _ ← blinkStart ledForwardRight 2 3
      let _ ← blinkStart ledBackwardRight 2 3
      updateDuties cmd.speed 0 0 cmd.speed
    else
      let _ ← digitalWrite ledForwardLeft .high
      let _ ← digitalWrite ledForwardRight .high
      updateDuties cmd.speed 0 cmd.speed 0
  else if strcmpEq cmd.movement.text (ascii "backward") then
    if strcmpEq cmd.direction.text (ascii "left") then
      let _ ← blinkStart ledBackwardLeft 2 3
      let _ ← blinkStart ledForwardLeft 2 3
      updateDuties cmd.speed 0 0 cmd.speed
    else if strcmpEq cmd.direction.text (ascii "right") then
      let _ ← blinkStart ledBackwardRight 2 3
      let _ ← blinkStart ledForwardRight 2 3
      updateDuties 0 cmd.speed cmd.speed 0
    else
      let _ ← digitalWrite ledBackwardLeft .high
      let _ ← digitalWrite ledBackwardRight .high
      updateDuties 0 cmd.speed 0 cmd.speed
  else if strcmpEq cmd.movement.text (ascii "left") then
    let _ ← blinkStart ledForwardLeft 2 3
    let _ ← blinkStart ledBackwardLeft 2 3
  else if strcmpEq cmd.movement.text (ascii "right") then
    let _ ← blinkStart ledForwardRight 2 3
    let _ ← blinkStart ledBackwardRight 2 3
  else
    stopAll

/-- The test of `timer_callback` (`gpio_controller.c:316-318`). -/
def commandChanged (last new : CarCommand) : Bool :=
  !strcmpEq last.movement.text new.movement.text || last.speed != new.speed ||
    !strcmpEq last.direction.text new.direction.text

/-- `gpio_controller.c:310-330`. -/
def timerCallback (jc : JsonC) (run : WgetRun) : MainProg Unit :=
  match fetchCarCommand jc run with
  | .command newCommand => do
      let lastCommand ← exec .loadLastCommand
      if commandChanged lastCommand newCommand then
        executeCarCommand newCommand
        exec (.storeLastCommand newCommand)
  | .failed => do
      executeCarCommand stopCommand
      exec (.storeLastCommand stopCommand)
  | .nullPointer => exec .undefinedBehaviour

/-- The ticks of the timer, one after another. -/
def ticks (jc : JsonC) (runs : List WgetRun) : MainProg Unit :=
  Prog.sequence (runs.map (timerCallback jc))

end EmbeddedCar.Gpio
