import EmbeddedCar.Gpio.Steps

/-!
# The drive

What the motors and the servo see of the process: the soft-PWM slots, the pulse last commanded
on the servo's channel, and `last_command`. The worker threads do not change it, and every
function of the controller performs a list of actions on it, so a tick is a function of the
drive and of what was fetched.
-/

namespace EmbeddedCar.Gpio

open EmbeddedCar.Concurrent EmbeddedCar.Text

/-- The `duty_cycle` last written to a hardware PWM channel, in nanoseconds. -/
def lastDutyNs (channel : Int) : List LogEntry → Option Int
  | [] => none
  | ⟨_, .system (.pwmDutyCycle c ns) _⟩ :: log =>
      if c = channel then some ns else lastDutyNs channel log
  | _ :: log => lastDutyNs channel log

structure Drive where
  softPwm : Nat → SoftPwm
  servoNs : Option Int
  lastCommand : CarCommand

def State.drive (s : State) : Drive where
  softPwm := s.softPwmPins
  servoNs := lastDutyNs (pwmChannel pwmServo) s.log
  lastCommand := s.lastCommand

@[simp] theorem lastDutyNs_digitalWrite (channel pin status : Int) (value : Level)
    (author : Option Nat) (log : List LogEntry) :
    lastDutyNs channel (⟨author, .system (digitalWriteCommand pin value) status⟩ :: log) =
      lastDutyNs channel log := by
  cases value <;> rfl

theorem env_drive (s t : State) (h : machine.Env s t) : t.drive = s.drive := by
  unfold State.drive
  rw [env_softPwmPins h, env_lastCommand h]
  congr 1
  rcases env_log h with hlog | ⟨tid, us, hlog⟩ | ⟨tid, pin, value, status, hlog, -⟩
  · rw [hlog]
  · rw [hlog]
    rfl
  · rw [hlog, lastDutyNs_digitalWrite]

def driveLens : Lens machine Drive where
  view := State.drive
  quiet := env_drive

inductive DriveAction where
  /-- `softPwmUpdateDuty(pin, value)` -/
  | duty (pin value : Int)
  /-- A pulse on the servo's channel. -/
  | servo (ns : Int)
  /-- `last_command = cmd` -/
  | remember (cmd : CarCommand)

namespace Drive

def dutyCycle (v : Drive) (pin : Int) : Int := (v.softPwm pin.toNat).dutyCycle

/-- What `softPwmUpdateDuty` checks before it writes. -/
def Accepts (v : Drive) (pin value : Int) : Prop :=
  0 ≤ pin ∧ pin ≤ 27 ∧ 0 ≤ value ∧ value ≤ 100 ∧ (v.softPwm pin.toNat).active ≠ 0

instance (v : Drive) (pin value : Int) : Decidable (v.Accepts pin value) :=
  inferInstanceAs (Decidable (_ ∧ _ ∧ _ ∧ _ ∧ _))

def setDuty (v : Drive) (pin value : Int) : Drive :=
  let slot := { v.softPwm pin.toNat with dutyCycle := value }
  { v with softPwm := Function.update v.softPwm pin.toNat slot }

def act : DriveAction → Drive → Drive
  | .duty pin value, v => if v.Accepts pin value then v.setDuty pin value else v
  | .servo ns, v => { v with servoNs := some ns }
  | .remember cmd, v => { v with lastCommand := cmd }

end Drive

/-- The program performs the actions on the drive, whatever the threads do meanwhile. -/
abbrev Drives {α : Type} (p : MainProg α) (actions : List DriveAction) : Prop :=
  Performs driveLens Drive.act p actions

/-- The operations the drive does not notice. -/
def driveQuiet : Op → Bool
  | .system (.pwmDutyCycle channel _) => channel ≠ pwmChannel pwmServo
  | .storeSoftPwm .. | .createSoftPwm .. | .storeLastCommand .. => false
  | _ => true

theorem drive_of_quiet {o : Op} (ho : driveQuiet o = true) {s t : State} {r : o.Res}
    (h : machine.Exec o s r t) : t.drive = s.drive := by
  cases o with
  | lock m => rw [exec_lock h]; rfl
  | unlock m => rw [exec_unlock h]; rfl
  | usleep us => rw [exec_usleep h]; rfl
  | loadSoftPwm i field => rw [(exec_loadSoftPwm h).2]
  | loadBlink i field => rw [(exec_loadBlink h).2]
  | storeBlink i field value => rw [exec_storeBlink h]; rfl
  | joinSoftPwm i =>
    obtain ⟨w, -, -, -, rfl⟩ := join_some (exec_joinSoftPwm h)
    rfl
  | joinBlink i =>
    obtain ⟨w, -, -, -, rfl⟩ := join_some (exec_joinBlink h)
    rfl
  | createBlink i =>
    rcases exec_createBlink h with ⟨-, rfl⟩ | ⟨-, rfl⟩ <;> rfl
  | loadLastCommand => rw [(exec_loadLastCommand h).2]
  | undefinedBehaviour => exact absurd h not_exec_undefinedBehaviour
  | storeSoftPwm i field value => cases ho
  | createSoftPwm i => cases ho
  | storeLastCommand cmd => cases ho
  | system command =>
    rw [exec_system h]
    cases command with
    | pwmDutyCycle channel ns =>
      have hne : channel ≠ pwmChannel pwmServo := by simpa [driveQuiet] using ho
      simp [State.drive, State.record, lastDutyNs, hne]
    | _ => rfl

/-! ### The functions of `gpio_lib.c` -/

section

variable {α : Type} {actions : List DriveAction}

theorem drives_quiet {o : Op} {next : o.Res → MainProg α} (ho : driveQuiet o = true)
    (hnext : ∀ result, Drives (next result) actions) : Drives (.op o next) actions :=
  performs_quiet (fun _ _ _ h => drive_of_quiet ho h) hnext

theorem drives_quiet_bind {β : Type} {p : MainProg β} {f : β → MainProg α}
    (hp : Drives p []) (hf : ∀ value, Drives (f value) actions) : Drives (p >>= f) actions :=
  show Drives (p >>= f) ([] ++ actions) from performs_bind hp hf

end

theorem drives_exec {o : Op} (ho : driveQuiet o = true) : Drives (exec o) [] :=
  drives_quiet ho fun result => performs_ret result

theorem drives_pinMode (pin : Int) (mode : Mode) : Drives (pinMode pin mode) [] := by
  cases mode <;> exact drives_exec rfl

theorem drives_digitalWrite (pin : Int) (value : Level) :
    Drives (digitalWrite pin value) [] := by
  cases value <;> exact drives_exec rfl

theorem drives_blinkStart (pin freq duration : Int) :
    Drives (blinkStart pin freq duration) [] := by
  unfold blinkStart
  split
  · exact performs_ret _
  split
  · exact performs_ret _
  simp only [Prog.call_bind]
  refine drives_quiet rfl fun _ => drives_quiet rfl fun active => ?_
  refine drives_quiet_bind ?_ fun _ => ?_
  · unfold Prog.when
    split
    · exact drives_quiet rfl fun _ => drives_exec rfl
    · exact performs_ret _
  refine drives_quiet rfl fun _ => drives_quiet rfl fun _ => drives_quiet rfl fun _ =>
    drives_quiet rfl fun _ => drives_quiet_bind (drives_pinMode _ _) fun _ =>
      drives_quiet rfl fun result => ?_
  split
  · exact drives_quiet rfl fun _ => drives_quiet rfl fun _ => performs_ret _
  · exact drives_quiet rfl fun _ => performs_ret _

theorem drives_blinkStop (pin : Int) : Drives (blinkStop pin) [] := by
  unfold blinkStop
  split
  · exact performs_ret _
  simp only [Prog.call_bind]
  refine drives_quiet rfl fun _ => drives_quiet rfl fun active => ?_
  split
  · exact drives_quiet rfl fun _ => performs_ret _
  · exact drives_quiet rfl fun _ => drives_quiet rfl fun _ =>
      drives_quiet_bind (drives_digitalWrite _ _) fun _ =>
        drives_quiet rfl fun _ => performs_ret _

/-- `softPwmUpdateDuty` is one action: it stores the duty, or rejects it and does nothing. -/
theorem drives_softPwmUpdateDuty (pin value : Int) :
    Drives (softPwmUpdateDuty pin value) [.duty pin value] := by
  intro v
  unfold softPwmUpdateDuty
  have hreject : ∀ r : Int, ¬ v.Accepts pin value →
      Follows driveLens (.ret r) v (trail Drive.act [.duty pin value] v) := by
    intro r hno
    have hsame : trail Drive.act [.duty pin value] v = [v] := by
      simp [trail, Drive.act, hno]
    rw [hsame]
    exact follows_stutter (follows_ret r v)
  split
  · next hpin => exact hreject _ fun h => by unfold Drive.Accepts at h; omega
  split
  · next hvalue => exact hreject _ fun h => by unfold Drive.Accepts at h; omega
  simp only [Prog.call_bind]
  refine follows_quiet fun s _ t hs h => ⟨(drive_of_quiet rfl h).trans hs, ?_⟩
  refine follows_quiet fun s active t hs h => ⟨(drive_of_quiet rfl h).trans hs, ?_⟩
  have hactive : active = (v.softPwm pin.toNat).active := by
    rw [(exec_loadSoftPwm h).1, ← hs]
    rfl
  split
  · next hzero =>
    refine follows_quiet fun s _ t hs h => ⟨(drive_of_quiet rfl h).trans hs, ?_⟩
    exact hreject _ fun hno => hno.2.2.2.2 (hactive ▸ hzero)
  · next hne =>
    have hyes : v.Accepts pin value := by
      refine ⟨?_, ?_, ?_, ?_, hactive ▸ hne⟩ <;> omega
    have hpath : trail Drive.act [.duty pin value] v = [v.setDuty pin value] := by
      simp [trail, Drive.act, hyes]
    rw [hpath]
    refine follows_write fun s _ t hs h => ⟨?_, ?_⟩
    · rw [exec_storeSoftPwm h, ← hs]
      rfl
    · refine follows_quiet fun s _ t hs h => ⟨(drive_of_quiet rfl h).trans hs, ?_⟩
      exact follows_ret _ _

/-- The pulse for an angle of the servo. -/
def servoNs (angle : Int) : Int := pwmDutyNs (angleToDutyCycle angle)

theorem drives_pwmWrite (dutyCycle : Int) :
    Drives (pwmWrite pwmServo dutyCycle) [.servo (pwmDutyNs dutyCycle)] := by
  unfold pwmWrite
  refine drives_quiet rfl fun _ => drives_quiet rfl fun _ => ?_
  refine performs_write ?_ fun _ => drives_exec rfl
  intro s status t h
  rw [exec_system h]
  rfl

theorem drives_servoWrite (angle : Int) :
    Drives (servoWrite pwmServo angle) [.servo (servoNs angle)] := by
  unfold servoWrite
  rw [if_neg (by decide)]
  refine performs_bind (drives_pwmWrite _) (fun status => ?_)
  split <;> exact performs_ret _

/-! ### The functions of `gpio_controller.c` -/

/-- The angle `set_steering_direction` chooses. -/
def steeringAngle (direction : Bytes) : Int :=
  if direction = ascii "left" then 65 else if direction = ascii "right" then 115 else 90

theorem drives_setSteeringDirection (direction : Bytes) :
    Drives (setSteeringDirection direction) [.servo (servoNs (steeringAngle direction))] := by
  have hangle : ∀ angle : Int, 65 ≤ angle → angle ≤ 115 →
      Drives (do let _ ← servoWriteLimited pwmServo angle 65 115; pure ())
        [.servo (servoNs angle)] := by
    intro angle hlow hhigh
    unfold servoWriteLimited
    rw [if_neg (by decide), if_neg (by omega)]
    exact performs_bind (drives_servoWrite angle) fun _ => performs_ret ()
  unfold setSteeringDirection steeringAngle
  simp only [strcmpEq, decide_eq_true_eq]
  split
  · exact hangle 65 (by decide) (by decide)
  split
  · exact hangle 115 (by decide) (by decide)
  · exact hangle 90 (by decide) (by decide)

/-- A duty for each of the four H-bridge inputs. -/
structure Duties where
  left1 : Int
  left2 : Int
  right1 : Int
  right2 : Int
  deriving DecidableEq

/-- The updates of the four inputs, in the order of the source. -/
def dutyActions (d : Duties) : List DriveAction :=
  [.duty pwmMotorLeft1 d.left1, .duty pwmMotorLeft2 d.left2, .duty pwmMotorRight1 d.right1,
    .duty pwmMotorRight2 d.right2]

theorem drives_updateDuties (left1 left2 right1 right2 : Int) :
    Drives (updateDuties left1 left2 right1 right2)
      (dutyActions ⟨left1, left2, right1, right2⟩) := by
  refine performs_bind (drives_softPwmUpdateDuty _ _) fun _ => ?_
  refine performs_bind (drives_softPwmUpdateDuty _ _) fun _ => ?_
  refine performs_bind (drives_softPwmUpdateDuty _ _) fun _ => ?_
  exact performs_bind (drives_softPwmUpdateDuty _ _) fun _ => performs_ret ()

theorem drives_stopAll : Drives stopAll (dutyActions ⟨0, 0, 0, 0⟩) := by
  refine drives_quiet_bind (drives_blinkStop _) fun _ => ?_
  refine drives_quiet_bind (drives_blinkStop _) fun _ => ?_
  refine drives_quiet_bind (drives_blinkStop _) fun _ => ?_
  refine drives_quiet_bind (drives_blinkStop _) fun _ => ?_
  refine drives_quiet_bind (drives_digitalWrite _ _) fun _ => ?_
  refine drives_quiet_bind (drives_digitalWrite _ _) fun _ => ?_
  refine drives_quiet_bind (drives_digitalWrite _ _) fun _ => ?_
  refine drives_quiet_bind (drives_digitalWrite _ _) fun _ => ?_
  exact drives_updateDuties 0 0 0 0

/-- The duties the branches of `execute_car_command` ask for; the branches for the movements
`left` and `right` ask for none. -/
def movementDuties (movement direction : Bytes) (speed : Int) : Option Duties :=
  if movement = ascii "forward" then
    if direction = ascii "left" then some ⟨0, speed, speed, 0⟩
    else if direction = ascii "right" then some ⟨speed, 0, 0, speed⟩
    else some ⟨speed, 0, speed, 0⟩
  else if movement = ascii "backward" then
    if direction = ascii "left" then some ⟨speed, 0, 0, speed⟩
    else if direction = ascii "right" then some ⟨0, speed, speed, 0⟩
    else some ⟨0, speed, 0, speed⟩
  else if movement = ascii "left" ∨ movement = ascii "right" then none
  else some ⟨0, 0, 0, 0⟩

def CarCommand.duties (cmd : CarCommand) : Option Duties :=
  movementDuties cmd.movement.text cmd.direction.text cmd.speed

def executeActions (cmd : CarCommand) : List DriveAction :=
  .servo (servoNs (steeringAngle cmd.direction.text)) :: cmd.duties.elim [] dutyActions

theorem drives_executeCarCommand (cmd : CarCommand) :
    Drives (executeCarCommand cmd) (executeActions cmd) := by
  have hleds : ∀ {pin pin' : Int} {p : MainProg Unit} {actions : List DriveAction},
      Drives p actions → Drives (do let _ ← blinkStart pin 2 3; let _ ← blinkStart pin' 2 3; p)
        actions :=
    fun hp => drives_quiet_bind (drives_blinkStart _ _ _) fun _ =>
      drives_quiet_bind (drives_blinkStart _ _ _) fun _ => hp
  have hlights : ∀ {pin pin' : Int} {p : MainProg Unit} {actions : List DriveAction},
      Drives p actions →
        Drives (do let _ ← digitalWrite pin .high; let _ ← digitalWrite pin' .high; p)
          actions :=
    fun hp => drives_quiet_bind (drives_digitalWrite _ _) fun _ =>
      drives_quiet_bind (drives_digitalWrite _ _) fun _ => hp
  show Drives (executeCarCommand cmd) ([.servo (servoNs (steeringAngle cmd.direction.text))] ++
    cmd.duties.elim [] dutyActions)
  refine performs_bind (drives_setSteeringDirection _) fun _ => ?_
  unfold CarCommand.duties movementDuties
  simp only [strcmpEq, decide_eq_true_eq]
  by_cases hforward : cmd.movement.text = ascii "forward"
  · rw [if_pos hforward, if_pos hforward]
    by_cases hleft : cmd.direction.text = ascii "left"
    · rw [if_pos hleft, if_pos hleft]
      exact hleds (drives_updateDuties _ _ _ _)
    rw [if_neg hleft, if_neg hleft]
    by_cases hright : cmd.direction.text = ascii "right"
    · rw [if_pos hright, if_pos hright]
      exact hleds (drives_updateDuties _ _ _ _)
    · rw [if_neg hright, if_neg hright]
      exact hlights (drives_updateDuties _ _ _ _)
  rw [if_neg hforward, if_neg hforward]
  by_cases hbackward : cmd.movement.text = ascii "backward"
  · rw [if_pos hbackward, if_pos hbackward]
    by_cases hleft : cmd.direction.text = ascii "left"
    · rw [if_pos hleft, if_pos hleft]
      exact hleds (drives_updateDuties _ _ _ _)
    rw [if_neg hleft, if_neg hleft]
    by_cases hright : cmd.direction.text = ascii "right"
    · rw [if_pos hright, if_pos hright]
      exact hleds (drives_updateDuties _ _ _ _)
    · rw [if_neg hright, if_neg hright]
      exact hlights (drives_updateDuties _ _ _ _)
  rw [if_neg hbackward, if_neg hbackward]
  by_cases hleft : cmd.movement.text = ascii "left"
  · rw [if_pos hleft, if_pos (.inl hleft)]
    exact hleds (performs_ret ())
  rw [if_neg hleft]
  by_cases hright : cmd.movement.text = ascii "right"
  · rw [if_pos hright, if_pos (.inr hright)]
    exact hleds (performs_ret ())
  · rw [if_neg hright, if_neg (by simp [hleft, hright])]
    exact drives_stopAll

theorem commandChanged_iff (last new : CarCommand) :
    commandChanged last new = true ↔ last ≠ new := by
  unfold commandChanged strcmpEq
  constructor
  · rintro h rfl
    simp at h
  · intro hne
    by_contra hsame
    apply hne
    simp only [Bool.not_eq_true, Bool.or_eq_false_iff, bne_eq_false_iff_eq, Bool.not_eq_false',
      decide_eq_true_eq] at hsame
    obtain ⟨⟨hmovement, hspeed⟩, hdirection⟩ := hsame
    cases last
    cases new
    simp only [CarCommand.mk.injEq]
    exact ⟨CharArray.ext_text hmovement, hspeed, CharArray.ext_text hdirection⟩

/-- What one tick does to the drive, given what it fetched. -/
def tickActions (fetched : Fetch) (v : Drive) : List DriveAction :=
  match fetched with
  | .command new =>
      if v.lastCommand = new then [] else executeActions new ++ [.remember new]
  | .failed => executeActions stopCommand ++ [.remember stopCommand]
  | .nullPointer => []

theorem follows_timerCallback (jc : JsonC) (run : WgetRun) (v : Drive) :
    Follows driveLens (timerCallback jc run) v
      (trail Drive.act (tickActions (fetchCarCommand jc run) v) v) := by
  have hexecute : ∀ cmd : CarCommand,
      Drives (do executeCarCommand cmd; exec (.storeLastCommand cmd))
        (executeActions cmd ++ [.remember cmd]) := by
    intro cmd
    refine performs_bind (drives_executeCarCommand cmd) fun _ => ?_
    refine performs_write ?_ fun _ => performs_ret ()
    intro s _ t h
    rw [exec_storeLastCommand h]
    rfl
  unfold timerCallback
  cases fetchCarCommand jc run with
  | failed => exact hexecute stopCommand v
  | nullPointer =>
    exact follows_quiet fun _ _ _ _ h => absurd h not_exec_undefinedBehaviour
  | command new =>
    simp only [Prog.call_bind, tickActions]
    refine follows_quiet fun s last t hs h => ⟨(drive_of_quiet rfl h).trans hs, ?_⟩
    have hlast : last = v.lastCommand := by
      rw [(exec_loadLastCommand h).1, ← hs]
      rfl
    rw [hlast]
    by_cases hsame : v.lastCommand = new
    · rw [if_neg (by simp [commandChanged_iff, hsame]), if_pos hsame]
      exact follows_ret () v
    · rw [if_pos ((commandChanged_iff _ _).mpr hsame), if_neg hsame]
      exact hexecute new v

namespace Drive

/-- One tick, as a function of the drive. -/
def tick (fetched : Fetch) (v : Drive) : Drive := outcome act (tickActions fetched v) v

end Drive

/-- A completed tick takes the drive where `Drive.tick` says. -/
theorem timerCallback_drive {jc : JsonC} {run : WgetRun} {s t : State}
    (h : machine.Runs (timerCallback jc run) s () t) :
    t.drive = s.drive.tick (fetchCarCommand jc run) := by
  have hview := follows_runs (follows_timerCallback jc run s.drive) rfl h
  rw [getLastD_trail] at hview
  exact hview

theorem ticks_drive {jc : JsonC} {runs : List WgetRun} {s t : State}
    (h : machine.Runs (ticks jc runs) s () t) :
    t.drive = (runs.map (fetchCarCommand jc)).foldl (fun v f => v.tick f) s.drive := by
  induction runs generalizing s with
  | nil => exact follows_runs (L := driveLens) (follows_ret () s.drive) rfl h
  | cons run runs ih =>
    obtain ⟨_, u, htick, hrest⟩ := Machine.runs_bind h
    rw [ih hrest, timerCallback_drive htick]
    rfl

end EmbeddedCar.Gpio
