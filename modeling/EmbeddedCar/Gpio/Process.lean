import EmbeddedCar.Concurrent.Follows
import EmbeddedCar.Gpio.Threads
import EmbeddedCar.Text.CString
import Mathlib.Logic.Function.Basic

/-!
# The process of the controller

The memory `gpio_lib.c` and `gpio_controller.c` share with the worker threads, the atomic
operations of the main thread on it, and the machine made of the two. Every statement of the C
functions that touches the slots, a mutex, a thread or the shell is one operation; the choice
of the outside world is the status of the command or of `pthread_create`.
-/

namespace EmbeddedCar.Gpio

open EmbeddedCar.Concurrent EmbeddedCar.Text

/-- `CarCommand` (`gpio_controller.c:21-25`). -/
structure CarCommand where
  movement : CharArray 16
  speed : Int
  direction : CharArray 16
  deriving DecidableEq

/-- `strcpy` of a literal into a `char[16]`. -/
def literal (s : String) (h : 0 ∉ ascii s ∧ (ascii s).length < 16) : CharArray 16 :=
  ⟨ascii s, h.1, h.2⟩

/-- `strncpy` of a string into a `char[16]`, with the NUL that follows. -/
def strncpy16 (src : Bytes) : CharArray 16 := strncpy 16 src (by decide)

/-- `{"stop", 0, "center"}`, the initial `last_command` and the `stop_cmd` of a failed poll. -/
def stopCommand : CarCommand where
  movement := literal "stop" (by decide)
  speed := 0
  direction := literal "center" (by decide)

inductive Mutex where
  | softPwm
  | blink
  deriving DecidableEq, Repr

/-- A command or sleep, with the thread it comes from; `none` is the main thread. -/
structure LogEntry where
  author : Option Nat
  call : HostCall
  deriving DecidableEq, Repr

/-- The state of the process. `log` has the latest call first. -/
structure State where
  softPwmPins : Nat → SoftPwm := fun _ => {}
  blinkPins : Nat → Blink := fun _ => {}
  workers : List Worker := []
  locked : Mutex → Bool := fun _ => false
  log : List LogEntry := []
  lastCommand : CarCommand := stopCommand

/-- The state at the entry of `main`. -/
def boot : State := {}

inductive SoftPwmField where
  | pin
  | dutyCycle
  | frequency
  | active
  deriving DecidableEq, Repr

inductive BlinkField where
  | pin
  | freq
  | duration
  | active
  deriving DecidableEq, Repr

def SoftPwm.get (slot : SoftPwm) : SoftPwmField → Int
  | .pin => slot.pin
  | .dutyCycle => slot.dutyCycle
  | .frequency => slot.frequency
  | .active => slot.active

def SoftPwm.set (slot : SoftPwm) (value : Int) : SoftPwmField → SoftPwm
  | .pin => { slot with pin := value }
  | .dutyCycle => { slot with dutyCycle := value }
  | .frequency => { slot with frequency := value }
  | .active => { slot with active := value }

def Blink.get (slot : Blink) : BlinkField → Int
  | .pin => slot.pin
  | .freq => slot.freq
  | .duration => slot.duration
  | .active => slot.active

def Blink.set (slot : Blink) (value : Int) : BlinkField → Blink
  | .pin => { slot with pin := value }
  | .freq => { slot with freq := value }
  | .duration => { slot with duration := value }
  | .active => { slot with active := value }

/-- The operations of the main thread. -/
inductive Op where
  | lock (m : Mutex)
  | unlock (m : Mutex)
  | system (command : ShellCommand)
  | usleep (us : Int)
  | loadSoftPwm (i : Nat) (field : SoftPwmField)
  | storeSoftPwm (i : Nat) (field : SoftPwmField) (value : Int)
  | loadBlink (i : Nat) (field : BlinkField)
  | storeBlink (i : Nat) (field : BlinkField) (value : Int)
  /-- `pthread_create(&soft_pwm_pins[i].thread, NULL, soft_pwm_thread, &soft_pwm_pins[i])` -/
  | createSoftPwm (i : Nat)
  /-- `pthread_create(&blink_pins[i].thread, NULL, blink_thread, &blink_pins[i])` -/
  | createBlink (i : Nat)
  /-- `pthread_join(soft_pwm_pins[i].thread, NULL)` -/
  | joinSoftPwm (i : Nat)
  /-- `pthread_join(blink_pins[i].thread, NULL)` -/
  | joinBlink (i : Nat)
  | loadLastCommand
  | storeLastCommand (command : CarCommand)
  /-- A step without defined behaviour: nothing can be said about what follows. -/
  | undefinedBehaviour

/-- The type of an operation's result. -/
@[reducible] def Op.Res : Op → Type
  | .system _ | .loadSoftPwm _ _ | .loadBlink _ _ | .createSoftPwm _ | .createBlink _ => Int
  | .loadLastCommand => CarCommand
  | _ => Unit

/-- The programs of the main thread. -/
abbrev MainProg := Prog Op Op.Res

/-- The program of one operation. -/
abbrev exec (o : Op) : MainProg o.Res := Prog.call o

namespace State

def record (s : State) (author : Option Nat) (call : HostCall) : State :=
  { s with log := ⟨author, call⟩ :: s.log }

def setSoftPwm (s : State) (i : Nat) (slot : SoftPwm) : State :=
  { s with softPwmPins := Function.update s.softPwmPins i slot }

def setBlink (s : State) (i : Nat) (slot : Blink) : State :=
  { s with blinkPins := Function.update s.blinkPins i slot }

/-- `pthread_join` on thread `tid`: it waits for a thread that has not returned. Joining a
thread twice has no defined behaviour. -/
def join (s : State) (tid : Nat) : Option State :=
  match s.workers[tid]? with
  | none => none
  | some w =>
      if w.task.finished ∧ ¬ w.joined then
        some { s with workers := s.workers.set tid { w with joined := true } }
      else none

/-- The effect of a thread's step on the process. -/
def apply (s : State) (tid : Nat) (status : Int) : Task → ThreadEffect → State
  | _, .silent => s
  | _, .system command => s.record (some tid) (.system command status)
  | _, .usleep us => s.record (some tid) (.usleep us)
  | .blink i _, .deactivate => s.setBlink i { s.blinkPins i with active := 0 }
  | .softPwm i _, .deactivate => s.setSoftPwm i { s.softPwmPins i with active := 0 }

/-- One step of a task on the slots of `s`. -/
def advance (s : State) : Task → Option (Task × ThreadEffect)
  | .blink i pc => (blinkThread (s.blinkPins i) pc).map fun (pc', e) => (.blink i pc', e)
  | .softPwm i pc => (softPwmThread (s.softPwmPins i) pc).map fun (pc', e) => (.softPwm i pc', e)

/-- One step of thread `tid`. -/
def turn (s : State) (tid : Nat) (status : Int) : Option State :=
  match s.workers[tid]? with
  | none => none
  | some w =>
      match s.advance w.task with
      | none => none
      | some (task, e) =>
          some { s.apply tid status w.task e with
            workers := s.workers.set tid { w with task := task } }

end State

/-- What an operation does. -/
def perform : (o : Op) → Int → State → Option (o.Res × State)
  | .lock m, _, s =>
      if s.locked m then none
      else some ((), { s with locked := Function.update s.locked m true })
  | .unlock m, _, s => some ((), { s with locked := Function.update s.locked m false })
  | .system command, status, s => some (status, s.record none (.system command status))
  | .usleep us, _, s => some ((), s.record none (.usleep us))
  | .loadSoftPwm i field, _, s => some ((s.softPwmPins i).get field, s)
  | .storeSoftPwm i field value, _, s =>
      some ((), s.setSoftPwm i ((s.softPwmPins i).set value field))
  | .loadBlink i field, _, s => some ((s.blinkPins i).get field, s)
  | .storeBlink i field value, _, s =>
      some ((), s.setBlink i ((s.blinkPins i).set value field))
  | .createSoftPwm i, status, s =>
      if status = 0 then
        some (0, { s.setSoftPwm i { s.softPwmPins i with thread := s.workers.length } with
          workers := s.workers ++ [⟨.softPwm i .loop, false⟩] })
      else some (status, s)
  | .createBlink i, status, s =>
      if status = 0 then
        some (0, { s.setBlink i { s.blinkPins i with thread := s.workers.length } with
          workers := s.workers ++ [⟨.blink i .delayTime, false⟩] })
      else some (status, s)
  | .joinSoftPwm i, _, s => (s.join (s.softPwmPins i).thread).map fun t => ((), t)
  | .joinBlink i, _, s => (s.join (s.blinkPins i).thread).map fun t => ((), t)
  | .loadLastCommand, _, s => some (s.lastCommand, s)
  | .storeLastCommand command, _, s => some ((), { s with lastCommand := command })
  | .undefinedBehaviour, _, _ => none

/-- The main thread together with its worker threads. -/
def machine : Machine Op Op.Res State Int (Nat × Int) where
  perform := perform
  interfere := fun (tid, status) s => s.turn tid status

end EmbeddedCar.Gpio
