import EmbeddedCar.Gpio.Process
import EmbeddedCar.JavaScript.Number

/-!
# The functions of `gpio_lib.c`

The library functions the controller calls, statement by statement. The diagnostics they print
are left out. Array accesses come after the range checks, so an index is the pin as a `Nat`.
-/

namespace EmbeddedCar.Gpio

open EmbeddedCar.Concurrent Prog

def system (command : ShellCommand) : MainProg Int := exec (.system command)

/-- `gpio_lib.c:33-56`. The branches on the pin of a PWM pin all give `a0`. -/
def pinMode (pin : Int) : Mode → MainProg Int
  | .input => system (.gpioSet pin .ip)
  | .pwm => system (.gpioSet pin .a0)
  | .softPwm => system (.gpioSet pin .op)
  | .output => system (.gpioSet pin .op)

/-- `gpio_lib.c:58-66`. -/
def digitalWrite (pin : Int) (value : Level) : MainProg Int :=
  system (digitalWriteCommand pin value)

/-- `gpio_lib.c:124-157`. -/
def blinkStart (pin freq duration : Int) : MainProg Int :=
  if pin < 0 ∨ pin > 21 then return -1
  else if freq ≤ 0 ∨ duration ≤ 0 then return -1
  else do
    let i := pin.toNat
    exec (.lock .blink)
    let active ← exec (.loadBlink i .active)
    when (active ≠ 0) do
      exec (.storeBlink i .active 0)
      exec (.joinBlink i)
    exec (.storeBlink i .pin pin)
    exec (.storeBlink i .freq freq)
    exec (.storeBlink i .duration duration)
    exec (.storeBlink i .active 1)
    let _ ← pinMode pin .output
    let result ← exec (.createBlink i)
    if result ≠ 0 then do
      exec (.storeBlink i .active 0)
      exec (.unlock .blink)
      return -1
    else do
      exec (.unlock .blink)
      return 0

/-- `gpio_lib.c:160-179`. -/
def blinkStop (pin : Int) : MainProg Int :=
  if pin < 0 ∨ pin > 21 then return -1
  else do
    let i := pin.toNat
    exec (.lock .blink)
    let active ← exec (.loadBlink i .active)
    if active = 0 then do
      exec (.unlock .blink)
      return -1
    else do
      exec (.storeBlink i .active 0)
      exec (.joinBlink i)
      let _ ← digitalWrite pin .low
      exec (.unlock .blink)
      return 0

/-- The channel of a hardware PWM pin, as `pwmWrite`, `pwmSetFrequency` and `pwmStop` choose
it: 1 for the pins 13 and 19, 0 for every other pin. -/
def pwmChannel (pin : Int) : Int :=
  if pin = 12 ∨ pin = 18 then 0 else if pin = 13 ∨ pin = 19 then 1 else 0

/-- The clamped duty cycle of `pwmWrite` in nanoseconds (`gpio_lib.c:186-188, 210`). -/
def pwmDutyNs (dutyCycle : Int) : Int :=
  Int.tdiv (int32 (max 0 (min 1024 dutyCycle) * 20000000)) 1024

/-- `gpio_lib.c:182-217`. -/
def pwmWrite (pin dutyCycle : Int) : MainProg Int := do
  let channel := pwmChannel pin
  let _ ← system (.pwmExport channel)
  let _ ← system (.pwmPeriod channel 20000000)
  let _ ← system (.pwmDutyCycle channel (pwmDutyNs dutyCycle))
  system (.pwmEnable channel 1)

/-- `gpio_lib.c:220-245`. -/
def pwmSetFrequency (pin frequency : Int) : MainProg Int := do
  let channel := pwmChannel pin
  when (frequency = 0) (exec .undefinedBehaviour)
  let periodNs := Int.tdiv 1000000000 frequency
  let _ ← system (.pwmExport channel)
  let _ ← system (.pwmEnable channel 0)
  system (.pwmPeriod channel periodNs)

/-- `gpio_lib.c:248-266`. -/
def pwmStop (pin : Int) : MainProg Int := do
  let channel := pwmChannel pin
  let _ ← system (.pwmEnable channel 0)
  system (.pwmDutyCycle channel 0)

/-- `gpio_lib.c:358-392`. -/
def softPwmStart (pin dutyCycle frequency : Int) : MainProg Int :=
  if pin < 0 ∨ pin > 27 then return -1
  else if dutyCycle < 0 ∨ dutyCycle > 100 then return -1
  else if frequency ≤ 0 then return -1
  else do
    let i := pin.toNat
    exec (.lock .softPwm)
    let active ← exec (.loadSoftPwm i .active)
    when (active ≠ 0) do
      exec (.storeSoftPwm i .active 0)
      exec (.joinSoftPwm i)
    exec (.storeSoftPwm i .pin pin)
    exec (.storeSoftPwm i .dutyCycle dutyCycle)
    exec (.storeSoftPwm i .frequency frequency)
    exec (.storeSoftPwm i .active 1)
    let _ ← pinMode pin .output
    let result ← exec (.createSoftPwm i)
    if result ≠ 0 then do
      exec (.storeSoftPwm i .active 0)
      exec (.unlock .softPwm)
      return -1
    else do
      exec (.unlock .softPwm)
      return 0

/-- `gpio_lib.c:395-420`. -/
def softPwmUpdateDuty (pin dutyCycle : Int) : MainProg Int :=
  if pin < 0 ∨ pin > 27 then return -1
  else if dutyCycle < 0 ∨ dutyCycle > 100 then return -1
  else do
    let i := pin.toNat
    exec (.lock .softPwm)
    let active ← exec (.loadSoftPwm i .active)
    if active = 0 then do
      exec (.unlock .softPwm)
      return -1
    else do
      exec (.storeSoftPwm i .dutyCycle dutyCycle)
      exec (.unlock .softPwm)
      return 0

/-- `gpio_lib.c:423-442`. -/
def softPwmStop (pin : Int) : MainProg Int :=
  if pin < 0 ∨ pin > 27 then return -1
  else do
    let i := pin.toNat
    exec (.lock .softPwm)
    let active ← exec (.loadSoftPwm i .active)
    if active = 0 then do
      exec (.unlock .softPwm)
      return -1
    else do
      exec (.storeSoftPwm i .active 0)
      exec (.joinSoftPwm i)
      let _ ← digitalWrite pin .low
      exec (.unlock .softPwm)
      return 0

/-- `gpio_lib.c:453-467`. -/
def angleToDutyCycle (angle : Int) : Int :=
  let angle := max 0 (min 180 angle)
  let pulseWidthUs := 1000 + Int.tdiv (angle * 1000) 180
  Int.tdiv (pulseWidthUs * 1024) 20000

/-- The pins `servoInit` and `servoWrite` accept. -/
def isPwmPin (pin : Int) : Prop := pin = 12 ∨ pin = 13 ∨ pin = 18 ∨ pin = 19

instance (pin : Int) : Decidable (isPwmPin pin) :=
  inferInstanceAs (Decidable (pin = 12 ∨ pin = 13 ∨ pin = 18 ∨ pin = 19))

/-- `gpio_lib.c:498-517`. -/
def servoWrite (pin angle : Int) : MainProg Int :=
  if ¬ isPwmPin pin then return -1
  else do
    let status ← pwmWrite pin (angleToDutyCycle angle)
    if status ≠ 0 then return -1
    else return 0

/-- `gpio_lib.c:470-495`. -/
def servoInit (pin : Int) : MainProg Int :=
  if ¬ isPwmPin pin then return -1
  else do
    let status ← pinMode pin .pwm
    if status ≠ 0 then return -1
    else do
      let status ← pwmSetFrequency pin 50
      if status ≠ 0 then return -1
      else do
        let _ ← servoWrite pin 90
        return 0

/-- `gpio_lib.c:520-536`. -/
def servoWriteLimited (pin angle minAngle maxAngle : Int) : MainProg Int :=
  if minAngle > maxAngle then return -1
  else if angle < minAngle ∨ angle > maxAngle then return -1
  else servoWrite pin angle

/-- `gpio_lib.c:539-550`. -/
def servoStop (pin : Int) : MainProg Int := do
  let status ← servoWrite pin 90
  if status ≠ 0 then return -1
  else do
    exec (.usleep 500000)
    pwmStop pin

/-! ### Servos with software PWM -/

/-- `gpio_lib.c:555-562`. -/
def servoSoftInit (pin frequency : Int) : MainProg Int := do
  let _ ← pinMode pin .output
  softPwmStart pin 8 frequency

/-- A `double` that is the result of one operation; those of `servoSoftWrite` are finite. -/
def doubleOf (exact : ℚ) : ℚ :=
  match JavaScript.roundDouble exact with
  | .fin value => value
  | _ => 0

/-- The duty cycle of an angle (`gpio_lib.c:578-579`). `angle * 5.0` needs no rounding, and the
cast truncates a value that is not negative. -/
def servoSoftDuty (angle : Int) : Int :=
  let dutyCyclePercent := doubleOf (5 + doubleOf (angle * 5 / 180))
  ⌊doubleOf (dutyCyclePercent + 1 / 2)⌋

/-- `gpio_lib.c:565-583`. -/
def servoSoftWrite (pin angle : Int) : MainProg Int :=
  if angle < 0 ∨ angle > 180 then return -1
  else softPwmUpdateDuty pin (servoSoftDuty angle)

/-- `gpio_lib.c:586-596`. -/
def servoSoftWriteLimited (pin angle minAngle maxAngle : Int) : MainProg Int :=
  if angle < minAngle ∨ angle > maxAngle then return -1
  else servoSoftWrite pin angle

/-- `gpio_lib.c:599-610`. -/
def servoSoftStop (pin : Int) : MainProg Int := do
  let status ← servoSoftWrite pin 90
  if status ≠ 0 then return -1
  else do
    exec (.usleep 500000)
    softPwmStop pin

end EmbeddedCar.Gpio
