import EmbeddedCar.Gpio.Interlock
import EmbeddedCar.Gpio.Tracking

/-!
# Shutdown

`main` stops the motors when `running` becomes 0, but the timer stays armed until it returns.
A tick after `stop_all` that executes a driving command starts them again.
-/

namespace EmbeddedCar.Gpio

open EmbeddedCar.Concurrent EmbeddedCar.Text

/-- Where the ticks land: before `stop_all`, and after each statement that follows. -/
structure Ticks where
  before : List WgetRun
  afterStopAll : List WgetRun
  afterSteering : List WgetRun
  afterSleep : List WgetRun
  afterServoStop : List WgetRun

/-- The ticks that follow `stop_all`. -/
def Ticks.late (w : Ticks) : List WgetRun :=
  w.afterStopAll ++ w.afterSteering ++ w.afterSleep ++ w.afterServoStop

/-- `main` (`gpio_controller.c:352-396`) from `init_gpio_pins` on, with its ticks. The main loop
only sleeps. -/
def main (jc : JsonC) (w : Ticks) : MainProg Unit := do
  initGpioPins
  ticks jc w.before
  stopAll
  ticks jc w.afterStopAll
  setSteeringDirection (ascii "center")
  ticks jc w.afterSteering
  exec (.usleep 500000)
  ticks jc w.afterSleep
  let _ ← servoStop pwmServo
  ticks jc w.afterServoStop

/-- `last_command` after a tick. -/
def remembered (last : CarCommand) : Fetch → CarCommand
  | .command cmd => cmd
  | .failed => stopCommand
  | .nullPointer => last

/-- The command runs the motors. -/
def CarCommand.Starts (cmd : CarCommand) : Prop :=
  (cmd.movement.text = ascii "forward" ∨ cmd.movement.text = ascii "backward") ∧
    1 ≤ cmd.speed ∧ cmd.speed ≤ 100

/-- A tick that does not start the motors: it fails, or is skipped, or its command does not. -/
def Harmless (last : CarCommand) : Fetch → Prop
  | .command cmd => cmd = last ∨ ¬ cmd.Starts
  | _ => True

/-- Every tick is harmless, given the `last_command` it finds. -/
def Still : CarCommand → List Fetch → Prop
  | _, [] => True
  | last, f :: fs => Harmless last f ∧ Still (remembered last f) fs

/-! ### One tick -/

/-- An update outside 1..100 leaves a duty of 0. -/
theorem Drive.updated_off {v : Drive} {pin x : Int} (hold : v.dutyCycle pin = 0)
    (hx : ¬ (1 ≤ x ∧ x ≤ 100)) : v.updated pin x = 0 := by
  unfold updated
  split
  · next hyes =>
    obtain ⟨-, -, hlow, hhigh, -⟩ := hyes
    omega
  · exact hold

/-- All duties are 0. -/
def Drive.Off (v : Drive) : Prop := v.duties = ⟨0, 0, 0, 0⟩

theorem Drive.off_iff {v : Drive} : v.Off ↔ ∀ pin ∈ motorPins, v.dutyCycle pin = 0 := by
  simp [Off, duties, motorPins]

theorem not_starts_duties {cmd : CarCommand} (h : ¬ cmd.Starts) {d : Duties}
    (hd : cmd.duties = some d) :
    ∀ x ∈ [d.left1, d.left2, d.right1, d.right2], ¬ (1 ≤ x ∧ x ≤ 100) := by
  intro x hx hrange
  by_cases hspeed : 1 ≤ cmd.speed ∧ cmd.speed ≤ 100
  · unfold CarCommand.duties movementDuties at hd
    have hmovement : ¬ (cmd.movement.text = ascii "forward" ∨
        cmd.movement.text = ascii "backward") := fun hor => h ⟨hor, hspeed⟩
    rw [not_or] at hmovement
    rw [if_neg hmovement.1, if_neg hmovement.2] at hd
    split at hd
    · cases hd
    · cases hd
      have hzero : x = 0 := by simpa using hx
      omega
  · rcases duties_zero_or_speed hd x hx with rfl | rfl
    · omega
    · exact hspeed hrange

theorem starts_duties {cmd : CarCommand} (h : cmd.Starts) :
    ∃ d, cmd.duties = some d ∧ d ≠ ⟨0, 0, 0, 0⟩ ∧
      ∀ x ∈ [d.left1, d.left2, d.right1, d.right2], 0 ≤ x ∧ x ≤ 100 := by
  obtain ⟨hmovement, hlow, hhigh⟩ := h
  have hne : cmd.speed ≠ 0 := by omega
  have hsome : ∃ d, cmd.duties = some d ∧ d ≠ ⟨0, 0, 0, 0⟩ := by
    unfold CarCommand.duties movementDuties
    rcases hmovement with hforward | hbackward
    · rw [if_pos hforward]
      split_ifs <;> exact ⟨_, rfl, by simp [hne]⟩
    · rw [if_neg (by rw [hbackward]; decide), if_pos hbackward]
      split_ifs <;> exact ⟨_, rfl, by simp [hne]⟩
  obtain ⟨d, hd, hnonzero⟩ := hsome
  refine ⟨d, hd, hnonzero, fun x hx => ?_⟩
  rcases duties_zero_or_speed hd x hx with rfl | rfl <;> omega

theorem off_execute {cmd : CarCommand} (h : ¬ cmd.Starts) {v : Drive} (hv : v.Off) :
    (outcome Drive.act (executeActions cmd) v).Off := by
  unfold Drive.Off
  rw [Drive.duties_execute]
  cases hd : cmd.duties with
  | none => exact hv
  | some d =>
    have hold := Drive.off_iff.mp hv
    have hx := not_starts_duties h hd
    rw [Option.elim_some]
    unfold Drive.dutiesUpdated
    rw [Drive.updated_off (hold _ (by decide)) (hx _ (by simp)),
      Drive.updated_off (hold _ (by decide)) (hx _ (by simp)),
      Drive.updated_off (hold _ (by decide)) (hx _ (by simp)),
      Drive.updated_off (hold _ (by decide)) (hx _ (by simp))]

theorem not_off_execute {cmd : CarCommand} (h : cmd.Starts) {v : Drive}
    (hactive : v.MotorsActive) : ¬ (outcome Drive.act (executeActions cmd) v).Off := by
  obtain ⟨d, hd, hne, hrange⟩ := starts_duties h
  unfold Drive.Off
  rw [Drive.duties_execute, hd, Option.elim_some, Drive.dutiesUpdated_of_active hactive hrange]
  exact hne

theorem not_starts_stopCommand : ¬ stopCommand.Starts := by
  rintro ⟨-, hlow, -⟩
  exact absurd hlow (by decide)

theorem lastCommand_tick (v : Drive) (f : Fetch) :
    (v.tick f).lastCommand = remembered v.lastCommand f := by
  unfold Drive.tick tickActions remembered
  cases f with
  | failed => exact Drive.lastCommand_remember _ _ v
  | nullPointer => rfl
  | command cmd =>
    by_cases hsame : v.lastCommand = cmd
    · simp only [hsame, if_true, outcome_nil]
    · simp only [if_neg hsame]
      exact Drive.lastCommand_remember _ _ v

theorem lastCommand_ticks (v : Drive) (fs : List Fetch) :
    (fs.foldl (fun v f => v.tick f) v).lastCommand = fs.foldl remembered v.lastCommand := by
  induction fs generalizing v with
  | nil => rfl
  | cons f fs ih => rw [List.foldl_cons, List.foldl_cons, ih, lastCommand_tick]

/-- A tick keeps stopped motors off when it is harmless. -/
theorem off_tick {v : Drive} (hv : v.Off) {f : Fetch} (hf : Harmless v.lastCommand f) :
    (v.tick f).Off := by
  have hexecute : ∀ cmd : CarCommand, ¬ cmd.Starts →
      (outcome Drive.act (executeActions cmd ++ [.remember cmd]) v).Off := by
    intro cmd hcmd
    unfold Drive.Off
    rw [Drive.duties_remember]
    exact off_execute hcmd hv
  cases f with
  | failed => exact hexecute stopCommand not_starts_stopCommand
  | nullPointer => exact hv
  | command cmd =>
    unfold Drive.tick tickActions
    by_cases hsame : v.lastCommand = cmd
    · simp only [hsame, if_true, outcome_nil]
      exact hv
    · simp only [if_neg hsame]
      exact hexecute cmd (hf.resolve_left (Ne.symm hsame))

/-- With the slots active, only then. -/
theorem harmless_of_off_tick {v : Drive} (hactive : v.MotorsActive) {f : Fetch}
    (h : (v.tick f).Off) : Harmless v.lastCommand f := by
  cases f with
  | failed => trivial
  | nullPointer => trivial
  | command cmd =>
    by_cases hsame : v.lastCommand = cmd
    · exact .inl hsame.symm
    · right
      intro hstarts
      unfold Drive.tick tickActions at h
      simp only [if_neg hsame] at h
      unfold Drive.Off at h
      rw [Drive.duties_remember] at h
      exact not_off_execute hstarts hactive h

theorem off_ticks {v : Drive} (hv : v.Off) {fs : List Fetch} (hfs : Still v.lastCommand fs) :
    (fs.foldl (fun v f => v.tick f) v).Off := by
  induction fs generalizing v with
  | nil => exact hv
  | cons f fs ih =>
    rw [List.foldl_cons]
    apply ih (off_tick hv hfs.1)
    rw [lastCommand_tick]
    exact hfs.2

/-! ### The statements between the ticks

They command the servo but leave the slots and `last_command` alone, and a tick does not look at
the servo. -/

namespace Drive

/-- The part of the drive that decides about the motors. -/
def motors (v : Drive) : (Nat → SoftPwm) × CarCommand := (v.softPwm, v.lastCommand)

variable {v w : Drive}

theorem motors_act (h : v.motors = w.motors) (a : DriveAction) :
    (act a v).motors = (act a w).motors := by
  obtain ⟨hsoftPwm, hlast⟩ := Prod.mk.inj h
  cases a with
  | duty pin value =>
    have haccepts : v.Accepts pin value ↔ w.Accepts pin value := by
      unfold Accepts
      rw [hsoftPwm]
    by_cases hyes : v.Accepts pin value
    · rw [act_accepted hyes, act_accepted (haccepts.mp hyes)]
      simp only [motors, setDuty, hsoftPwm, hlast]
    · rw [act_rejected hyes, act_rejected (mt haccepts.mpr hyes)]
      exact h
  | servo ns => exact h
  | remember cmd => simp only [motors, act, hsoftPwm]

theorem motors_outcome (h : v.motors = w.motors) (actions : List DriveAction) :
    (outcome act actions v).motors = (outcome act actions w).motors := by
  induction actions generalizing v w with
  | nil => exact h
  | cons a actions ih => exact ih (motors_act h a)

theorem motors_tick (h : v.motors = w.motors) (f : Fetch) :
    (v.tick f).motors = (w.tick f).motors := by
  have hactions : tickActions f v = tickActions f w := by
    unfold tickActions
    rw [(Prod.mk.inj h).2]
  unfold tick
  rw [hactions]
  exact motors_outcome h _

theorem motors_ticks (h : v.motors = w.motors) (fs : List Fetch) :
    (fs.foldl (fun v f => v.tick f) v).motors = (fs.foldl (fun v f => v.tick f) w).motors := by
  induction fs generalizing v w with
  | nil => exact h
  | cons f fs ih => exact ih (motors_tick h f)

theorem off_congr (h : v.motors = w.motors) : v.Off ↔ w.Off := by
  unfold Off duties dutyCycle
  rw [(Prod.mk.inj h).1]

end Drive

/-- From `s` to `t` the motors saw the ticks `fs` and nothing else. -/
def Late (fs : List Fetch) (s t : State) : Prop :=
  t.drive.motors = (fs.foldl (fun v f => v.tick f) s.drive).motors

theorem late_trans {fs gs : List Fetch} {s t u : State} (h : Late fs s t) (h' : Late gs t u) :
    Late (fs ++ gs) s u := by
  unfold Late
  rw [h', List.foldl_append]
  exact Drive.motors_ticks h gs

theorem late_ticks {jc : JsonC} {runs : List WgetRun} {s t : State}
    (h : machine.Runs (ticks jc runs) s () t) : Late (runs.map (fetchCarCommand jc)) s t := by
  unfold Late
  rw [ticks_drive h]

theorem late_of_uses {α : Type} {p : MainProg α} (hp : p.Uses servoOp) {s t : State}
    {value : α} (h : machine.Runs p s value t) : Late [] s t := by
  let P : State → Prop := fun u => u.drive.motors = s.drive.motors
  have hstable : machine.Stable P := by
    intro u w hu henv
    change w.drive.motors = _
    rw [env_drive u w henv]
    exact hu
  have hkeep : ∀ o, servoOp o → ∀ u r w, P u → machine.Exec o u r w → P w := by
    intro o ho u r w hu hexec
    have hsame : w.drive.motors = u.drive.motors := by
      cases o with
      | system command => rw [exec_system hexec]; rfl
      | usleep us => rw [exec_usleep hexec]; rfl
      | _ => cases ho
    exact hsame.trans hu
  exact Machine.triple_runs (P := P) (Q := fun _ => P)
    (Machine.triple_uses hstable hkeep hp) rfl h

/-- `stop_all` turns the motors off in every state the ticks can leave. -/
theorem off_stopAll {v : Drive} (hv : v.Guarded) :
    (outcome Drive.act (dutyActions ⟨0, 0, 0, 0⟩) v).Off := by
  unfold Drive.Off
  rw [Drive.duties_dutyActions]
  unfold Drive.dutiesUpdated
  rw [Drive.updated_zero hv (by decide), Drive.updated_zero hv (by decide),
    Drive.updated_zero hv (by decide), Drive.updated_zero hv (by decide)]

theorem lastCommand_dutyActions (d : Duties) (v : Drive) :
    (outcome Drive.act (dutyActions d) v).lastCommand = v.lastCommand := by
  simp only [dutyActions, outcome_cons, outcome_nil, Drive.lastCommand_duty]

theorem guarded_ticks {v : Drive} (hv : v.Guarded) (fs : List Fetch) :
    (fs.foldl (fun v f => v.tick f) v).Guarded := by
  induction fs generalizing v with
  | nil => exact hv
  | cons f fs ih => exact ih (Drive.guarded_outcome _ hv)

/-- After `stop_all` the motors are off and see only the late ticks. -/
theorem main_runs {jc : JsonC} {w : Ticks} {t : State}
    (h : machine.Runs (main jc w) boot () t) :
    ∃ u, u.drive.Off ∧
      u.lastCommand = (w.before.map (fetchCarCommand jc)).foldl remembered stopCommand ∧
      Late (w.late.map (fetchCarCommand jc)) u t := by
  obtain ⟨_, s, hinit, h⟩ := Machine.runs_bind h
  obtain ⟨_, r, hbefore, h⟩ := Machine.runs_bind h
  obtain ⟨_, u, hstop, h⟩ := Machine.runs_bind h
  obtain ⟨_, u₁, hticks₁, h⟩ := Machine.runs_bind h
  obtain ⟨_, u₂, hsteering, h⟩ := Machine.runs_bind h
  obtain ⟨_, u₃, hticks₂, h⟩ := Machine.runs_bind h
  obtain ⟨_, u₄, hsleep, h⟩ := Machine.runs_bind h
  obtain ⟨_, u₅, hticks₃, h⟩ := Machine.runs_bind h
  obtain ⟨_, u₆, hservo, hticks₄⟩ := Machine.runs_bind h
  have hrest := init_atRest hinit
  have hr := ticks_drive hbefore
  have hu : u.drive = outcome Drive.act (dutyActions ⟨0, 0, 0, 0⟩) r.drive :=
    performs_runs drives_stopAll hstop
  refine ⟨u, ?_, ?_, ?_⟩
  · rw [hu, hr]
    exact off_stopAll (guarded_ticks (guarded_of_atRest hrest) _)
  · have hlast : u.lastCommand = r.drive.lastCommand := by
      have h := lastCommand_dutyActions ⟨0, 0, 0, 0⟩ r.drive
      rw [← hu] at h
      exact h
    rw [hlast, hr, lastCommand_ticks]
    rw [show s.drive.lastCommand = stopCommand from hrest.lastCommand]
  · have huses : (exec (.usleep 500000)).Uses servoOp := ⟨trivial, fun _ => trivial⟩
    have h₁ := late_ticks hticks₁
    have h₂ := late_trans h₁ (late_of_uses (uses_setSteeringDirection _) hsteering)
    have h₃ := late_trans h₂ (late_ticks hticks₂)
    have h₄ := late_trans h₃ (late_of_uses huses hsleep)
    have h₅ := late_trans h₄ (late_ticks hticks₃)
    have h₆ := late_trans h₅ (late_of_uses (uses_servoStop _) hservo)
    have h₇ := late_trans h₆ (late_ticks hticks₄)
    simpa [Ticks.late] using h₇

/-- When every tick after `stop_all` is harmless, all duties are 0 when `main` returns; and when
all of them but the last are, with the slots active, only if the last is harmless too. -/
theorem shutdown_off (jc : JsonC) (w : Ticks) (t : State)
    (h : machine.Runs (main jc w) boot () t) :
    let last := (w.before.map (fetchCarCommand jc)).foldl remembered stopCommand
    (Still last (w.late.map (fetchCarCommand jc)) → t.drive.duties = ⟨0, 0, 0, 0⟩) ∧
    ∀ fs f, w.late.map (fetchCarCommand jc) = fs ++ [f] → Still last fs →
      t.drive.MotorsActive → t.drive.duties = ⟨0, 0, 0, 0⟩ →
      Harmless (fs.foldl remembered last) f := by
  obtain ⟨u, hoff, hlast, hlate⟩ := main_runs h
  intro last
  have hcommand : u.drive.lastCommand = last := hlast
  refine ⟨fun hstill => ?_, fun fs f heq hstill hactive hzero => ?_⟩
  · rw [← hcommand] at hstill
    exact (Drive.off_congr hlate).mpr (off_ticks hoff hstill)
  · rw [heq] at hlate
    have hend : t.drive.motors = ((fs.foldl (fun v f => v.tick f) u.drive).tick f).motors := by
      unfold Late at hlate
      rw [hlate, List.foldl_append]
      rfl
    have hactive' : (fs.foldl (fun v f => v.tick f) u.drive).MotorsActive := by
      intro pin hpin
      have hpin' := hactive pin hpin
      unfold Drive.active at hpin'
      rw [show t.drive.softPwm = _ from (Prod.mk.inj hend).1] at hpin'
      have hsame := Drive.active_outcome (tickActions f (fs.foldl (fun v f => v.tick f) u.drive))
        (fs.foldl (fun v f => v.tick f) u.drive) pin
      rw [← hsame]
      exact hpin'
    have hharmless := harmless_of_off_tick hactive' ((Drive.off_congr hend).mp hzero)
    rw [lastCommand_ticks, hcommand] at hharmless
    exact hharmless

/-- One tick, right after `stop_all`. -/
def tickAfterStopAll (run : WgetRun) : Ticks := ⟨[], [run], [], [], []⟩

/-- A reply that arrives right after `stop_all` leaves the motors running. -/
theorem shutdown_leaves_motors_on :
    ∃ t, machine.Runs (main forwardJsonC (tickAfterStopAll forwardRun)) boot () t ∧
      t.drive.duties = ⟨0, 40, 40, 0⟩ := by
  obtain ⟨_, t, hruns, hduties⟩ := machine.play_runs (calmMoves 180)
    (main forwardJsonC (tickAfterStopAll forwardRun)) boot
    (fun _ t => decide (t.drive.duties = ⟨0, 40, 40, 0⟩)) (by decide +kernel)
  exact ⟨t, hruns, of_decide_eq_true hduties⟩

/-- A failed poll at the same place does not. -/
theorem shutdown_off_failed :
    ∃ t, machine.Runs (main forwardJsonC (tickAfterStopAll ⟨true, [], 4⟩)) boot () t ∧
      t.drive.duties = ⟨0, 0, 0, 0⟩ := by
  obtain ⟨_, t, hruns, -⟩ := machine.play_runs (calmMoves 180)
    (main forwardJsonC (tickAfterStopAll ⟨true, [], 4⟩)) boot
    (fun _ _ => true) (by decide +kernel)
  have hstill : Still stopCommand [.failed] := ⟨trivial, trivial⟩
  exact ⟨t, hruns, (shutdown_off forwardJsonC _ t hruns).1 hstill⟩

end EmbeddedCar.Gpio
