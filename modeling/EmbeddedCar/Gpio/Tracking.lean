import EmbeddedCar.Gpio.Startup

/-!
# The controller tracks the server

A command is executed only when it differs from `last_command`, and each branch updates the four
inputs one by one. The actuators are nevertheless a function of the latest poll: `Tracks` links
them to `last_command`, and every tick keeps the link.
-/

namespace EmbeddedCar.Gpio

open EmbeddedCar.Concurrent EmbeddedCar.Text

/-- The outcome of a poll: a failed fetch, or the strings and the number of the reply. -/
inductive Poll where
  | failed
  | fetched (movement direction : Bytes) (speed : Int)
  deriving DecidableEq

namespace Poll

/-- The duties an outcome asks for. -/
def duties : Poll → Duties
  | .failed => ⟨0, 0, 0, 0⟩
  | .fetched movement direction speed =>
      if cstring movement = ascii "forward" then
        if cstring direction = ascii "left" then ⟨0, speed, speed, 0⟩
        else if cstring direction = ascii "right" then ⟨speed, 0, 0, speed⟩
        else ⟨speed, 0, speed, 0⟩
      else if cstring movement = ascii "backward" then
        if cstring direction = ascii "left" then ⟨speed, 0, 0, speed⟩
        else if cstring direction = ascii "right" then ⟨0, speed, speed, 0⟩
        else ⟨0, speed, 0, speed⟩
      else ⟨0, 0, 0, 0⟩

/-- The angle an outcome asks for. -/
def angle : Poll → Int
  | .failed => 90
  | .fetched _ direction _ =>
      if cstring direction = ascii "left" then 65
      else if cstring direction = ascii "right" then 115
      else 90

/-- The three angles have different pulses. -/
example : servoNs 65 < servoNs 90 ∧ servoNs 90 < servoNs 115 := by decide

/-- The movement is none of the two that only blink, and the speed is a percentage. -/
def Admissible : Poll → Prop
  | .failed => True
  | .fetched movement _ speed =>
      cstring movement ≠ ascii "left" ∧ cstring movement ≠ ascii "right" ∧
        0 ≤ speed ∧ speed ≤ 100

instance : DecidablePred Admissible
  | .failed => inferInstanceAs (Decidable True)
  | .fetched _ _ _ => inferInstanceAs (Decidable (_ ∧ _ ∧ _ ∧ _))

/-- The `wget` run that brings the outcome about. -/
def Delivered (jc : JsonC) (run : WgetRun) : Poll → Prop
  | .failed => fetchCarCommand jc run = .failed
  | .fetched movement direction speed =>
      run.started = true ∧ run.output ≠ [] ∧ run.status = 0 ∧
        ∃ fields, jc.tokenerParse (fgetsLine 1024 run.output) = some (.object fields) ∧
          fields.lookup (ascii "movement") = some (.string movement) ∧
          fields.lookup (ascii "direction") = some (.string direction) ∧
          fields.lookup (ascii "speed") = some (.int speed)

/-- The command `timer_callback` makes of the outcome. -/
def command : Poll → CarCommand
  | .failed => stopCommand
  | .fetched movement direction speed =>
      ⟨strncpy16 movement, speed, strncpy16 direction⟩

theorem duties_command {p : Poll} (h : p.Admissible) : p.command.duties = some p.duties := by
  cases p with
  | failed => decide
  | fetched movement direction speed =>
    obtain ⟨hleft, hright, -⟩ := h
    have hcopy := movementDuties_char16 movement direction speed
    refine hcopy.trans ?_
    simp only [movementDuties, duties, if_neg (not_or.mpr ⟨hleft, hright⟩)]
    split_ifs <;> rfl

theorem angle_command (p : Poll) : steeringAngle p.command.direction.text = p.angle := by
  cases p with
  | failed => decide
  | fetched movement direction speed => exact steeringAngle_char16 direction

/-- An outcome asks for percentages. -/
theorem duties_range {p : Poll} (h : p.Admissible) :
    ∀ x ∈ [p.duties.left1, p.duties.left2, p.duties.right1, p.duties.right2],
      0 ≤ x ∧ x ≤ 100 := by
  intro x hx
  cases p with
  | failed =>
    have hzero : x = 0 := by simpa [duties] using hx
    omega
  | fetched movement direction speed =>
    have hduties := duties_command h
    rcases duties_zero_or_speed hduties x hx with hzero | hspeed
    · omega
    · rw [hspeed]
      exact h.2.2

/-- What the controller makes of a delivered outcome. -/
theorem fetch_command {jc : JsonC} (hjc : jc.ReadsRecords) {run : WgetRun} {p : Poll}
    (hp : p.Admissible) (h : p.Delivered jc run) :
    fetchCarCommand jc run = .failed ∧ p = .failed ∨
      fetchCarCommand jc run = .command p.command := by
  cases p with
  | failed => exact .inl ⟨h, rfl⟩
  | fetched movement direction speed =>
    right
    obtain ⟨hstarted, houtput, hstatus, fields, hparse, hmovement, hdirection, hspeed⟩ := h
    have hclamp : clampInt speed = speed := by
      obtain ⟨-, -, hlow, hhigh⟩ := hp
      unfold clampInt
      omega
    simp [fetchCarCommand, hstarted, houtput, hstatus, parseCarCommand, hparse, parseString,
      parseSpeed, Json.objectGetEx, hmovement, hdirection, hspeed, hjc.getString_string,
      hjc.getInt_int, hclamp, command]

end Poll

/-- The actuators do what `last_command` says, and the slots are active. -/
structure Tracks (v : Drive) (p : Poll) : Prop where
  active : v.MotorsActive
  duties : v.duties = p.duties
  servo : v.servoNs = some (servoNs p.angle)
  lastCommand : v.lastCommand = p.command

/-- Executing a command brings the actuators up to date. -/
theorem tracks_execute {v : Drive} (hactive : v.MotorsActive) {p : Poll} (hp : p.Admissible) :
    Tracks (outcome Drive.act (executeActions p.command ++ [.remember p.command]) v) p := by
  refine ⟨Drive.motorsActive_outcome _ hactive, ?_, ?_, Drive.lastCommand_remember _ _ v⟩
  · rw [Drive.duties_remember, Drive.duties_execute, Poll.duties_command hp, Option.elim_some]
    exact Drive.dutiesUpdated_of_active hactive (Poll.duties_range hp)
  · rw [Drive.servoNs_remember, Drive.servoNs_execute, Poll.angle_command]

/-- A tick, from any earlier outcome to the one it fetches. -/
theorem tracks_tick {jc : JsonC} (hjc : jc.ReadsRecords) {v : Drive} {before p : Poll}
    (hv : Tracks v before) (hbefore : before.Admissible) (hp : p.Admissible) {run : WgetRun}
    (hrun : p.Delivered jc run) : Tracks (v.tick (fetchCarCommand jc run)) p := by
  rcases Poll.fetch_command hjc hp hrun with ⟨hfetch, rfl⟩ | hfetch
  · rw [hfetch]
    have hstop : Poll.failed.command = stopCommand := rfl
    have hexecute := tracks_execute hv.active hp
    rw [hstop] at hexecute
    exact hexecute
  · rw [hfetch]
    unfold Drive.tick tickActions
    by_cases hsame : v.lastCommand = p.command
    · -- The command is skipped: equal commands ask for the same duties and the same angle.
      have hcommand : before.command = p.command := hv.lastCommand.symm.trans hsame
      have hduties : before.duties = p.duties := by
        have h := Poll.duties_command hbefore
        rw [hcommand, Poll.duties_command hp] at h
        exact (Option.some.inj h).symm
      have hangle : before.angle = p.angle := by
        rw [← Poll.angle_command, hcommand, Poll.angle_command]
      simp only [hsame, if_true, outcome_nil]
      exact ⟨hv.active, hv.duties.trans hduties, hangle ▸ hv.servo, hsame⟩
    · simp only [if_neg hsame]
      exact tracks_execute hv.active hp

/-- A whole sequence of ticks. -/
theorem tracks_ticks {jc : JsonC} (hjc : jc.ReadsRecords) {v : Drive} {before : Poll}
    (hv : Tracks v before) (hbefore : before.Admissible) {runs : List WgetRun}
    {polls : List Poll} (hpolls : ∀ p ∈ polls, p.Admissible)
    (hruns : List.Forall₂ (fun run p => p.Delivered jc run) runs polls) :
    Tracks ((runs.map (fetchCarCommand jc)).foldl (fun v f => v.tick f) v)
      (polls.getLastD before) := by
  induction hruns generalizing v before with
  | nil => exact hv
  | @cons run p runs polls hrun _ ih =>
    rw [List.map_cons, List.foldl_cons, List.getLastD_cons]
    have hp := hpolls p List.mem_cons_self
    exact ih (tracks_tick hjc hv hbefore hp hrun) hp
      fun q hq => hpolls q (List.mem_cons_of_mem p hq)

/-- The state after an initialisation that started the motors and the servo is that of a failed
poll. -/
theorem tracks_init {s : State} (hinit : machine.Runs initGpioPins boot () s)
    (hactive : s.drive.MotorsActive) (hservo : servoStarted s.log = true) :
    Tracks s.drive .failed := by
  have hrest := init_atRest hinit
  refine ⟨hactive, ?_, init_centered hinit hservo, hrest.lastCommand⟩
  unfold Drive.duties Drive.dutyCycle State.drive Poll.duties
  simp only [hrest.duty]

/-- From an initialisation that started the motors and the servo, after every tick the duties and
the servo are those of the latest outcome. -/
theorem controller_tracks_server (jc : JsonC) (hjc : jc.ReadsRecords) (s t : State)
    (hinit : machine.Runs initGpioPins boot () s) (hactive : s.drive.MotorsActive)
    (hservo : servoStarted s.log = true) (runs : List WgetRun) (polls : List Poll) (last : Poll)
    (hpolls : ∀ p ∈ polls ++ [last], p.Admissible)
    (hruns : List.Forall₂ (fun run p => p.Delivered jc run) runs (polls ++ [last]))
    (hticks : machine.Runs (ticks jc runs) s () t) :
    t.drive.duties = last.duties ∧ t.drive.servoNs = some (servoNs last.angle) := by
  have htracks := tracks_ticks hjc (tracks_init hinit hactive hservo) trivial hpolls hruns
  rw [← ticks_drive hticks, List.getLastD_concat] at htracks
  exact ⟨htracks.duties, htracks.servo⟩

/-- A reply of the server. -/
def forwardReply : Bytes :=
  ascii "\x7b\"movement\":\"forward\",\"speed\":40,\"direction\":\"left\"\x7d"

/-- json-c, on `forwardReply`. -/
def forwardJsonC : JsonC :=
  JsonC.ofParser
    (fun text =>
      if text = forwardReply then
        some (.object [(ascii "movement", .string (ascii "forward")), (ascii "speed", .int 40),
          (ascii "direction", .string (ascii "left"))])
      else none)
    fun _ => []

def forwardRun : WgetRun := ⟨true, forwardReply, 0⟩

/-- The reply drives the car forward and to the left. -/
theorem controller_tracks_server_forward :
    ∃ s t, machine.Runs initGpioPins boot () s ∧
      machine.Runs (ticks forwardJsonC [forwardRun]) s () t ∧
      t.drive.duties = ⟨0, 40, 40, 0⟩ ∧ t.drive.servoNs = some (servoNs 65) := by
  obtain ⟨_, s, hinit, htest⟩ := machine.play_runs startMoves
    initGpioPins boot
    (fun _ s => decide s.drive.MotorsActive && servoStarted s.log &&
      (machine.play (calmMoves 40) (ticks forwardJsonC [forwardRun]) s).any
        fun c => c.1.returned.any fun _ => true) (by decide +kernel)
  simp only [Bool.and_eq_true, decide_eq_true_eq] at htest
  obtain ⟨⟨hactive, hservo⟩, hplay⟩ := htest
  obtain ⟨_, t, hticks, -⟩ := machine.play_runs _ _ _ (fun _ _ => true) hplay
  let last : Poll := .fetched (ascii "forward") (ascii "left") 40
  have hadmissible : last.Admissible := by decide
  have hdelivered : last.Delivered forwardJsonC forwardRun := by
    refine ⟨rfl, by decide, rfl, _, rfl, rfl, rfl, rfl⟩
  have hresult := controller_tracks_server forwardJsonC ⟨fun _ => rfl, fun _ => rfl⟩ s t hinit
    hactive hservo [forwardRun] [] last (by simpa using hadmissible)
    (.cons hdelivered .nil) hticks
  exact ⟨s, t, hinit, hticks, hresult⟩

end EmbeddedCar.Gpio
