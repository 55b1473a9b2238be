import Mathlib.Algebra.Order.Floor.Defs
import Mathlib.Data.Rat.Floor

/-!
# The worker threads

The shell commands `gpio_lib.c` runs and its two kinds of worker thread, `blink_thread`
(`gpio_lib.c:88-106`) and `soft_pwm_thread` (`gpio_lib.c:280-316`). A thread is a program
counter with the values of its local variables; one step executes one access to its slot, one
shell command or one sleep.
-/

namespace EmbeddedCar.Gpio

/-- `state_t` (`gpio_lib.h`). -/
inductive Level where
  | low
  | high
  deriving DecidableEq, Repr

/-- `Mode_t` (`gpio_lib.h`). -/
inductive Mode where
  | output
  | input
  | pwm
  | softPwm
  deriving DecidableEq, Repr

/-- The last word of `raspi-gpio set <pin> ...`. -/
inductive PinSetting where
  | ip
  | op
  | a0
  | dl
  | dh
  deriving DecidableEq, Repr

/-- The commands given to `system`. -/
inductive ShellCommand where
  /-- `raspi-gpio set <pin> <setting>` -/
  | gpioSet (pin : Int) (setting : PinSetting)
  /-- `echo <channel> > /sys/class/pwm/pwmchip0/export` -/
  | pwmExport (channel : Int)
  /-- `echo <ns> > /sys/class/pwm/pwmchip0/pwm<channel>/period` -/
  | pwmPeriod (channel ns : Int)
  /-- `echo <ns> > /sys/class/pwm/pwmchip0/pwm<channel>/duty_cycle` -/
  | pwmDutyCycle (channel ns : Int)
  /-- `echo <value> > /sys/class/pwm/pwmchip0/pwm<channel>/enable` -/
  | pwmEnable (channel value : Int)
  deriving DecidableEq, Repr

/-- What the process does outside its own memory. -/
inductive HostCall where
  | system (command : ShellCommand) (status : Int)
  | usleep (us : Int)
  deriving DecidableEq, Repr

/-- `soft_pwm_t` (`gpio_lib.c:7-13`). -/
structure SoftPwm where
  pin : Int := 0
  dutyCycle : Int := 0
  frequency : Int := 0
  active : Int := 0
  thread : Nat := 0
  deriving DecidableEq, Repr

/-- `blink_t` (`gpio_lib.c:16-22`). -/
structure Blink where
  pin : Int := 0
  freq : Int := 0
  duration : Int := 0
  active : Int := 0
  thread : Nat := 0
  deriving DecidableEq, Repr

/-- The value of an `int` expression computed in 32 bits. -/
def int32 (n : Int) : Int := n.bmod (2 ^ 32)

/-- The effect of one step of a thread. -/
inductive ThreadEffect where
  | silent
  | system (command : ShellCommand)
  | usleep (us : Int)
  /-- `slot->active = 0` -/
  | deactivate
  deriving DecidableEq, Repr

/-- The command of `digitalWrite` (`gpio_lib.c:58-66`). -/
def digitalWriteCommand (pin : Int) (value : Level) : ShellCommand :=
  if value = .high then .gpioSet pin .dh else .gpioSet pin .dl

/-- Where `blink_thread` is, with its locals `delayTime`, `cycles` and `i`. -/
inductive BlinkPc where
  | delayTime
  | cycles (delayTime : Int)
  | loop (delayTime cycles i : Int)
  | writeHigh (delayTime cycles i : Int)
  | sleepHigh (delayTime cycles i : Int)
  | check (delayTime cycles i : Int)
  | writeLow (delayTime cycles i : Int)
  | sleepLow (delayTime cycles i : Int)
  | lastLow
  | deactivate
  | finished
  deriving DecidableEq, Repr

/-- One step of `blink_thread` on its slot; `none` once it has returned. -/
def blinkThread (blinkData : Blink) : BlinkPc → Option (BlinkPc × ThreadEffect)
  | .delayTime => some (.cycles (int32 (Int.tdiv 500000 blinkData.freq)), .silent)
  | .cycles delayTime =>
      some (.loop delayTime (int32 (blinkData.freq * blinkData.duration)) 0, .silent)
  | .loop delayTime cycles i =>
      if i < cycles ∧ blinkData.active ≠ 0 then some (.writeHigh delayTime cycles i, .silent)
      else some (.lastLow, .silent)
  | .writeHigh delayTime cycles i =>
      some (.sleepHigh delayTime cycles i, .system (digitalWriteCommand blinkData.pin .high))
  | .sleepHigh delayTime cycles i => some (.check delayTime cycles i, .usleep delayTime)
  | .check delayTime cycles i =>
      if blinkData.active = 0 then some (.lastLow, .silent)
      else some (.writeLow delayTime cycles i, .silent)
  | .writeLow delayTime cycles i =>
      some (.sleepLow delayTime cycles i, .system (digitalWriteCommand blinkData.pin .low))
  | .sleepLow delayTime cycles i =>
      some (.loop delayTime cycles (int32 (i + 1)), .usleep delayTime)
  | .lastLow => some (.deactivate, .system (digitalWriteCommand blinkData.pin .low))
  | .deactivate => some (.finished, .deactivate)
  | .finished => none

/-- The times of one iteration of `soft_pwm_thread`, in microseconds. The `double`s of the
source are exact rationals here. -/
structure PwmTimes where
  periodUs : ℚ
  highTimeUs : ℚ
  lowTimeUs : ℚ
  deriving DecidableEq, Repr

/-- `gpio_lib.c:285-287`. -/
def pwmTimes (pwm : SoftPwm) : PwmTimes :=
  let periodUs : ℚ := 1000000 / pwm.frequency
  let highTimeUs := periodUs * pwm.dutyCycle / 100
  { periodUs, highTimeUs, lowTimeUs := periodUs - highTimeUs }

/-- Where `soft_pwm_thread` is, with its locals. -/
inductive SoftPwmPc where
  | loop
  | times
  | testHigh (t : PwmTimes)
  | writeHigh (t : PwmTimes)
  | sleepHigh (t : PwmTimes)
  | testLow (t : PwmTimes)
  | writeLow (t : PwmTimes)
  | sleepLow (t : PwmTimes)
  | testZero (t : PwmTimes)
  | writeZero (t : PwmTimes)
  | sleepZero (t : PwmTimes)
  | testFull (t : PwmTimes)
  | writeFull (t : PwmTimes)
  | sleepFull (t : PwmTimes)
  | lastLow
  | finished
  deriving DecidableEq, Repr

/-- One step of `soft_pwm_thread` on its slot; `none` once it has returned. -/
def softPwmThread (pwm : SoftPwm) : SoftPwmPc → Option (SoftPwmPc × ThreadEffect)
  | .loop => if pwm.active ≠ 0 then some (.times, .silent) else some (.lastLow, .silent)
  | .times => some (.testHigh (pwmTimes pwm), .silent)
  | .testHigh t =>
      if t.highTimeUs > 1 then some (.writeHigh t, .silent) else some (.testLow t, .silent)
  | .writeHigh t => some (.sleepHigh t, .system (digitalWriteCommand pwm.pin .high))
  | .sleepHigh t => some (.testLow t, .usleep ⌊t.highTimeUs⌋)
  | .testLow t =>
      if t.lowTimeUs > 1 ∧ pwm.active ≠ 0 then some (.writeLow t, .silent)
      else some (.testZero t, .silent)
  | .writeLow t => some (.sleepLow t, .system (digitalWriteCommand pwm.pin .low))
  | .sleepLow t => some (.testZero t, .usleep ⌊t.lowTimeUs⌋)
  | .testZero t =>
      if pwm.dutyCycle = 0 then some (.writeZero t, .silent) else some (.testFull t, .silent)
  | .writeZero t => some (.sleepZero t, .system (digitalWriteCommand pwm.pin .low))
  | .sleepZero t => some (.loop, .usleep ⌊t.periodUs⌋)
  | .testFull t =>
      if pwm.dutyCycle = 100 then some (.writeFull t, .silent) else some (.loop, .silent)
  | .writeFull t => some (.sleepFull t, .system (digitalWriteCommand pwm.pin .high))
  | .sleepFull t => some (.loop, .usleep ⌊t.periodUs⌋)
  | .lastLow => some (.finished, .system (digitalWriteCommand pwm.pin .low))
  | .finished => none

/-- A thread of the process, on the slot it was created for. -/
inductive Task where
  | blink (slot : Nat) (pc : BlinkPc)
  | softPwm (slot : Nat) (pc : SoftPwmPc)
  deriving DecidableEq, Repr

/-- The thread has returned. -/
def Task.finished : Task → Bool
  | .blink _ pc => pc = .finished
  | .softPwm _ pc => pc = .finished

structure Worker where
  task : Task
  joined : Bool
  deriving DecidableEq, Repr

end EmbeddedCar.Gpio
