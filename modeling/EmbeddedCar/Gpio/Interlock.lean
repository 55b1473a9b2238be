import EmbeddedCar.Gpio.Startup

/-!
# The H-bridge interlock

Between commands one of the two inputs of each H-bridge has duty 0. Inside a command the inputs
are updated one after the other, and a command that turns a side from backward to forward
raises the first input before it clears the second.
-/

namespace EmbeddedCar.Gpio

open EmbeddedCar.Concurrent EmbeddedCar.Text

inductive Side where
  | left
  | right
  deriving DecidableEq, Repr

namespace Side

def input1 : Side → Int
  | .left => pwmMotorLeft1
  | .right => pwmMotorRight1

def input2 : Side → Int
  | .left => pwmMotorLeft2
  | .right => pwmMotorRight2

theorem input1_mem (side : Side) : side.input1 ∈ motorPins := by cases side <;> decide

theorem input2_mem (side : Side) : side.input2 ∈ motorPins := by cases side <;> decide

end Side

namespace Duties

def input1 (d : Duties) : Side → Int
  | .left => d.left1
  | .right => d.right1

def input2 (d : Duties) : Side → Int
  | .left => d.left2
  | .right => d.right2

end Duties

/-- No command asks for both inputs of a side. -/
theorem movementDuties_input {movement direction : Bytes} {speed : Int} {d : Duties}
    (h : movementDuties movement direction speed = some d) (side : Side) :
    d.input1 side = 0 ∨ d.input2 side = 0 := by
  unfold movementDuties at h
  split at h
  · split at h
    · cases h; cases side <;> simp [Duties.input1, Duties.input2]
    split at h <;> (cases h; cases side <;> simp [Duties.input1, Duties.input2])
  split at h
  · split at h
    · cases h; cases side <;> simp [Duties.input1, Duties.input2]
    split at h <;> (cases h; cases side <;> simp [Duties.input1, Duties.input2])
  split at h
  · cases h
  · cases h; cases side <;> simp [Duties.input1, Duties.input2]

namespace Drive

/-- One of the two inputs of the side has duty 0. -/
def Interlocked (v : Drive) (side : Side) : Prop :=
  v.dutyCycle side.input1 = 0 ∨ v.dutyCycle side.input2 = 0

/-- A slot that was never started has duty 0. -/
def Guarded (v : Drive) : Prop := ∀ pin ∈ motorPins, v.active pin = 0 → v.dutyCycle pin = 0

theorem updated_inactive {v : Drive} {pin : Int} (hpin : pin ∈ motorPins)
    (h : v.active pin = 0) (value : Int) : v.updated pin value = v.dutyCycle pin := by
  unfold updated
  rw [if_neg]
  rw [accepts_iff v hpin]
  exact fun hyes => hyes.2.2 h

/-- An update to 0 always arrives. -/
theorem updated_zero {v : Drive} (hv : v.Guarded) {pin : Int} (hpin : pin ∈ motorPins) :
    v.updated pin 0 = 0 := by
  by_cases hactive : v.active pin = 0
  · rw [updated_inactive hpin hactive]
    exact hv pin hpin hactive
  · unfold updated
    rw [if_pos]
    rw [accepts_iff v hpin]
    exact ⟨le_refl 0, by decide, hactive⟩

theorem guarded_act (a : DriveAction) {v : Drive} (hv : v.Guarded) : (act a v).Guarded := by
  intro pin hpin hactive
  rw [active_act] at hactive
  cases a with
  | duty target value =>
    by_cases hsame : pin.toNat = target.toNat
    · have htarget : v.updated target value = v.dutyCycle target := by
        unfold updated
        rw [if_neg]
        intro hyes
        apply hyes.2.2.2.2
        rw [← hsame]
        exact hactive
      have hpins : ∀ w : Drive, w.dutyCycle pin = w.dutyCycle target := by
        intro w
        unfold dutyCycle
        rw [hsame]
      rw [hpins, dutyCycle_duty, htarget, ← hpins]
      exact hv pin hpin hactive
    · rw [dutyCycle_duty_other v value hsame]
      exact hv pin hpin hactive
  | servo ns => exact hv pin hpin hactive
  | remember cmd => exact hv pin hpin hactive

theorem guarded_outcome (actions : List DriveAction) {v : Drive} (hv : v.Guarded) :
    (outcome act actions v).Guarded := by
  induction actions generalizing v with
  | nil => exact hv
  | cons a actions ih => exact ih (guarded_act a hv)

theorem dutyCycle_servo (v : Drive) (ns pin : Int) :
    (act (.servo ns) v).dutyCycle pin = v.dutyCycle pin := rfl

/-- What the two inputs of a side can show while a command asks for `d`: both as before, the
first updated, or both updated. -/
theorem trail_side {cmd : CarCommand} {d : Duties} (hd : cmd.duties = some d) {v w : Drive}
    (hw : w ∈ v :: trail act (executeActions cmd) v) (side : Side) :
    (w.dutyCycle side.input1 = v.dutyCycle side.input1 ∧
      w.dutyCycle side.input2 = v.dutyCycle side.input2) ∨
    (w.dutyCycle side.input1 = v.updated side.input1 (d.input1 side) ∧
      (w.dutyCycle side.input2 = v.dutyCycle side.input2 ∨
        w.dutyCycle side.input2 = v.updated side.input2 (d.input2 side))) := by
  simp only [executeActions, hd, Option.elim_some, dutyActions, trail, List.mem_cons,
    List.not_mem_nil, or_false] at hw
  -- One case for each update, and the two sides in each.
  rcases hw with rfl | rfl | rfl | rfl | rfl | rfl <;> cases side <;>
    simp (disch := decide) [Side.input1, Side.input2, Duties.input1, Duties.input2,
      dutyCycle_duty, dutyCycle_duty_other, updated_duty_other, dutyCycle_servo]

theorem duties_input1 (v : Drive) (side : Side) :
    v.duties.input1 side = v.dutyCycle side.input1 := by cases side <;> rfl

theorem duties_input2 (v : Drive) (side : Side) :
    v.duties.input2 side = v.dutyCycle side.input2 := by cases side <;> rfl

/-- In `w`, on the way of a command that started in `v`, both inputs of the side have a duty:
the first the new one, the second still the old one. -/
def Reversing (v : Drive) (cmd : CarCommand) (w : Drive) (side : Side) : Prop :=
  ∃ d, cmd.duties = some d ∧ 1 ≤ d.input1 side ∧ d.input1 side ≤ 100 ∧
    v.dutyCycle side.input2 ≠ 0 ∧ w.dutyCycle side.input1 = d.input1 side ∧
    w.dutyCycle side.input2 = v.dutyCycle side.input2

/-- The instants of one command. -/
theorem interlocked_trail {v w : Drive} (hv : v.Guarded) {side : Side}
    (hside : v.Interlocked side) {cmd : CarCommand}
    (hw : w ∈ v :: trail act (executeActions cmd) v) :
    w.Interlocked side ∨ v.Reversing cmd w side := by
  cases hd : cmd.duties with
  | none =>
    left
    simp only [executeActions, hd, Option.elim_none, trail, List.mem_cons, List.not_mem_nil,
      or_false] at hw
    rcases hw with rfl | rfl
    · exact hside
    · exact hside
  | some d =>
    have hzero1 : d.input1 side = 0 → v.updated side.input1 (d.input1 side) = 0 := by
      intro h
      rw [h]
      exact updated_zero hv side.input1_mem
    have hzero2 : d.input2 side = 0 → v.updated side.input2 (d.input2 side) = 0 := by
      intro h
      rw [h]
      exact updated_zero hv side.input2_mem
    rcases trail_side hd hw side with ⟨h1, h2⟩ | ⟨h1, h2 | h2⟩
    · left
      unfold Interlocked
      rw [h1, h2]
      exact hside
    · by_cases hyes : v.Accepts side.input1 (d.input1 side)
      · have hupdated : v.updated side.input1 (d.input1 side) = d.input1 side := if_pos hyes
        by_cases hnone : d.input1 side = 0
        · exact .inl (.inl (h1.trans (hzero1 hnone)))
        by_cases hold : v.dutyCycle side.input2 = 0
        · exact .inl (.inr (h2.trans hold))
        · right
          obtain ⟨-, -, hlow, hhigh, -⟩ := hyes
          exact ⟨d, hd, by omega, hhigh, hold, h1.trans hupdated, h2⟩
      · have hupdated : v.updated side.input1 (d.input1 side) = v.dutyCycle side.input1 :=
          if_neg hyes
        left
        unfold Interlocked
        rw [h1, h2, hupdated]
        exact hside
    · left
      rcases movementDuties_input hd side with hnone | hnone
      · exact .inl (h1.trans (hzero1 hnone))
      · exact .inr (h2.trans (hzero2 hnone))

/-- A complete command. -/
theorem interlocked_execute {v : Drive} (hv : v.Guarded) {side : Side}
    (hside : v.Interlocked side) (cmd : CarCommand) :
    (outcome act (executeActions cmd) v).Interlocked side := by
  have hduties := duties_execute cmd v
  have hinput1 := duties_input1 (outcome act (executeActions cmd) v) side
  have hinput2 := duties_input2 (outcome act (executeActions cmd) v) side
  unfold Interlocked
  rw [← hinput1, ← hinput2, hduties]
  cases hd : cmd.duties with
  | none =>
    simp only [Option.elim_none, duties_input1, duties_input2]
    exact hside
  | some d =>
    rw [Option.elim_some]
    have hupdated1 : (v.dutiesUpdated d).input1 side = v.updated side.input1 (d.input1 side) := by
      cases side <;> rfl
    have hupdated2 : (v.dutiesUpdated d).input2 side = v.updated side.input2 (d.input2 side) := by
      cases side <;> rfl
    rw [hupdated1, hupdated2]
    rcases movementDuties_input hd side with hnone | hnone
    · left
      rw [hnone]
      exact updated_zero hv side.input1_mem
    · right
      rw [hnone]
      exact updated_zero hv side.input2_mem

end Drive

theorem guarded_of_atRest {s : State} (h : AtRest s) : s.drive.Guarded :=
  fun pin _ _ => h.duty pin.toNat

theorem interlocked_of_atRest {s : State} (h : AtRest s) (side : Side) :
    s.drive.Interlocked side := .inl (h.duty _)

/-- Commands executed one after another. -/
def executeAll (cmds : List CarCommand) : MainProg Unit :=
  Prog.sequence (cmds.map executeCarCommand)

theorem execute_drive {cmd : CarCommand} {s t : State}
    (h : machine.Runs (executeCarCommand cmd) s () t) :
    t.drive = outcome Drive.act (executeActions cmd) s.drive :=
  performs_runs (drives_executeCarCommand cmd) h

theorem interlocked_executeAll {cmds : List CarCommand} {s t : State} {side : Side}
    (hs : s.drive.Guarded) (hside : s.drive.Interlocked side)
    (h : machine.Runs (executeAll cmds) s () t) : t.drive.Interlocked side := by
  induction cmds generalizing s with
  | nil =>
    have hdrive := follows_runs (L := driveLens) (follows_ret () s.drive) rfl h
    rw [show t.drive = s.drive from hdrive]
    exact hside
  | cons cmd cmds ih =>
    obtain ⟨_, u, hcmd, hrest⟩ := Machine.runs_bind h
    have hu := execute_drive hcmd
    apply ih _ _ hrest
    · rw [hu]
      exact Drive.guarded_outcome _ hs
    · rw [hu]
      exact Drive.interlocked_execute hs hside cmd

/-- Every instant of a sequence lies inside one of its commands. -/
theorem interlocked_visited {cmds : List CarCommand} {s t : State} {side : Side}
    {q : MainProg Unit} (hs : s.drive.Guarded) (hside : s.drive.Interlocked side)
    (h : machine.Steps (executeAll cmds, s) (q, t)) :
    t.drive.Interlocked side ∨ ∃ before cmd after u, cmds = before ++ cmd :: after ∧
      machine.Runs (executeAll before) s () u ∧ u.drive.Reversing cmd t.drive side := by
  induction cmds generalizing s with
  | nil =>
    left
    have hdrive := follows_visited (L := driveLens) (follows_ret () s.drive) rfl h
    rw [show t.drive = s.drive from List.mem_singleton.mp hdrive]
    exact hside
  | cons cmd cmds ih =>
    rcases Machine.steps_bind h with ⟨p', -, hcmd⟩ | ⟨_, u, hcmd, hrest⟩
    · have hmem := performs_visited (drives_executeCarCommand cmd) hcmd
      rcases Drive.interlocked_trail hs hside hmem with hdone | hreversing
      · exact .inl hdone
      · exact .inr ⟨[], cmd, cmds, s, rfl, .refl, hreversing⟩
    · have hu := execute_drive hcmd
      have hguarded : u.drive.Guarded := hu ▸ Drive.guarded_outcome _ hs
      have hinterlocked : u.drive.Interlocked side := hu ▸ Drive.interlocked_execute hs hside cmd
      rcases ih hguarded hinterlocked hrest with hdone |
        ⟨before, next, after, w, rfl, hruns, hreversing⟩
      · exact .inl hdone
      · exact .inr ⟨cmd :: before, next, after, w, rfl, Machine.runs_append hcmd hruns,
          hreversing⟩

/-- Each side is interlocked after every command, and inside a command except while it turns the
side from backward to forward: there, between the updates of the first and of the second input,
the first has its new duty and the second its old one. -/
theorem interlock_except_reversing (s : State) (hinit : machine.Runs initGpioPins boot () s)
    (cmds : List CarCommand) (side : Side) :
    (∀ t, machine.Runs (executeAll cmds) s () t → t.drive.Interlocked side) ∧
    ∀ q t, machine.Steps (executeAll cmds, s) (q, t) →
      t.drive.Interlocked side ∨ ∃ before cmd after u, cmds = before ++ cmd :: after ∧
        machine.Runs (executeAll before) s () u ∧ u.drive.Reversing cmd t.drive side := by
  have hrest := init_atRest hinit
  refine ⟨fun t h => ?_, fun q t h => ?_⟩
  · exact interlocked_executeAll (guarded_of_atRest hrest) (interlocked_of_atRest hrest side) h
  · exact interlocked_visited (guarded_of_atRest hrest) (interlocked_of_atRest hrest side) h

/-- Backward at half speed, then forward at half speed. -/
def reversal : List CarCommand :=
  [⟨literal "backward" (by decide), 50, literal "none" (by decide)⟩,
    ⟨literal "forward" (by decide), 50, literal "none" (by decide)⟩]

/-- Right after the first update of the second command both inputs of the left side are at 50. -/
theorem reversal_breaks_interlock :
    ∃ s q t, machine.Runs initGpioPins boot () s ∧
      machine.Steps (executeAll reversal, s) (q, t) ∧
      t.drive.dutyCycle pwmMotorLeft1 = 50 ∧ t.drive.dutyCycle pwmMotorLeft2 = 50 := by
  obtain ⟨_, s, hinit, htest⟩ := machine.play_runs (calmMoves 80)
    initGpioPins boot
    (fun _ s => (machine.play (calmMoves 31) (executeAll reversal) s).any
      fun c : MainProg Unit × State => decide (c.2.drive.dutyCycle pwmMotorLeft1 = 50 ∧
        c.2.drive.dutyCycle pwmMotorLeft2 = 50))
    (by decide +kernel)
  obtain ⟨q, t, hsteps, hduties⟩ := machine.play_visits
    (fun _ t => decide (t.drive.dutyCycle pwmMotorLeft1 = 50 ∧
      t.drive.dutyCycle pwmMotorLeft2 = 50)) htest
  exact ⟨s, q, t, hinit, hsteps, of_decide_eq_true hduties⟩

/-- The reversal itself: interlocked when it is done. -/
theorem interlock_except_reversing_reversal :
    ∃ s t, machine.Runs initGpioPins boot () s ∧ machine.Runs (executeAll reversal) s () t ∧
      t.drive.Interlocked .left := by
  obtain ⟨_, s, hinit, htest⟩ := machine.play_runs (calmMoves 80)
    initGpioPins boot
    (fun _ s => (machine.play (calmMoves 50) (executeAll reversal) s).any fun c =>
      c.1.returned.any fun _ => true) (by decide +kernel)
  obtain ⟨_, t, hruns, -⟩ := machine.play_runs _ _ _ (fun _ _ => true) htest
  exact ⟨s, t, hinit, hruns, (interlock_except_reversing s hinit reversal .left).1 t hruns⟩

end EmbeddedCar.Gpio
