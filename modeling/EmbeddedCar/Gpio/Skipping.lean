import EmbeddedCar.Gpio.Shutdown

/-!
# Skipped commands

A tick that fetches the command remembered in `last_command` executes nothing. It was remembered
by the tick that executed it, whatever the commands and updates of that tick returned: no
function of `gpio_controller.c` looks at their results.
-/

namespace EmbeddedCar.Gpio

open EmbeddedCar.Concurrent EmbeddedCar.Text

/-- A tick that finds `last` remembered and executes `cmd`. -/
def Executes (last : CarCommand) (fetched : Fetch) (cmd : CarCommand) : Prop :=
  match fetched with
  | .command new => new = cmd ∧ last ≠ cmd
  | .failed => cmd = stopCommand
  | .nullPointer => False

/-- What the tick that executes a command does to the drive. -/
def Drive.executed (cmd : CarCommand) (v : Drive) : Drive :=
  outcome Drive.act (executeActions cmd ++ [.remember cmd]) v

namespace Drive

theorem executed_servoNs (cmd : CarCommand) (v : Drive) :
    (v.executed cmd).servoNs = some (Gpio.servoNs (steeringAngle cmd.direction.text)) := by
  unfold executed
  rw [servoNs_remember, servoNs_execute]

theorem executed_duties (cmd : CarCommand) (v : Drive) :
    (v.executed cmd).duties = cmd.duties.elim v.duties v.dutiesUpdated := by
  unfold executed
  rw [duties_remember, duties_execute]

theorem executed_lastCommand (cmd : CarCommand) (v : Drive) :
    (v.executed cmd).lastCommand = cmd := lastCommand_remember _ cmd v

end Drive

theorem not_runs_nullPointer {jc : JsonC} {run : WgetRun} {s t : State}
    (hfetch : fetchCarCommand jc run = .nullPointer)
    (h : machine.Runs (timerCallback jc run) s () t) : False := by
  have hundefined : machine.Triple (fun _ => True) (timerCallback jc run) fun _ _ => False := by
    unfold timerCallback
    rw [hfetch]
    refine Machine.triple_op (N := fun _ _ => False) ?_ ?_ ?_
    · exact fun _ _ _ _ => trivial
    · exact fun _ _ _ _ hexec => not_exec_undefinedBehaviour hexec
    · exact fun _ _ hfalse => hfalse.elim
  exact Machine.triple_runs hundefined trivial h

/-- A step of a thread neither creates nor joins one. -/
theorem env_joined {s t : State} (h : machine.Env s t) :
    t.workers.map Worker.joined = s.workers.map Worker.joined := by
  obtain ⟨tid, status, w, task, e, hw, -, rfl⟩ := env_iff.mp h
  obtain ⟨hlen, rfl⟩ := List.getElem?_eq_some_iff.mp hw
  refine List.ext_getElem? fun k => ?_
  by_cases hk : tid = k
  · subst hk
    simp [hlen]
  · simp [hk]

/-- The calls that the threads add to the log are their own. -/
theorem envSteps_log {s t : State} (h : machine.EnvSteps s t) :
    ∃ added, t.log = added ++ s.log ∧ ∀ e ∈ added, e.author ≠ none := by
  induction h with
  | refl => exact ⟨[], rfl, by simp⟩
  | tail _ henv ih =>
    obtain ⟨added, hlog, hauthors⟩ := ih
    rcases env_log henv with hsame | ⟨tid, us, hcons⟩ | ⟨tid, pin, value, status, hcons, -⟩
    · exact ⟨added, hsame.trans hlog, hauthors⟩
    · refine ⟨⟨some tid, .usleep us⟩ :: added, ?_, ?_⟩
      · rw [hcons, hlog, List.cons_append]
      · simpa using hauthors
    · refine ⟨⟨some tid, .system (digitalWriteCommand pin value) status⟩ :: added, ?_, ?_⟩
      · rw [hcons, hlog, List.cons_append]
      · simpa using hauthors

/-- A blink slot is left alone, or its thread has ended. -/
theorem envSteps_blinkPins {s t : State} (h : machine.EnvSteps s t) (i : Nat) :
    t.blinkPins i = s.blinkPins i ∨ t.blinkPins i = { s.blinkPins i with active := 0 } := by
  induction h with
  | refl => exact .inl rfl
  | tail _ henv ih =>
    rcases env_blinkPins henv with hsame | ⟨tid, j, -, -, hended⟩
    · rw [hsame]
      exact ih
    · rw [hended]
      by_cases hij : i = j
      · subst hij
        right
        rw [Function.update_self]
        rcases ih with h | h <;> rw [h]
      · rw [Function.update_of_ne hij]
        exact ih

/-- From `s` to `t` only the threads have taken steps: what was called is theirs, and no slot has
been started, updated or stopped. -/
structure OnlyThreads (s t : State) : Prop where
  steps : machine.EnvSteps s t
  log : ∃ added, t.log = added ++ s.log ∧ ∀ e ∈ added, e.author ≠ none
  softPwmPins : t.softPwmPins = s.softPwmPins
  blinkPins : ∀ i,
    t.blinkPins i = s.blinkPins i ∨ t.blinkPins i = { s.blinkPins i with active := 0 }
  joined : t.workers.map Worker.joined = s.workers.map Worker.joined

theorem onlyThreads_of_envSteps {s t : State} (h : machine.EnvSteps s t) : OnlyThreads s t where
  steps := h
  log := envSteps_log h
  softPwmPins := Machine.envSteps_eq (fun _ _ => env_softPwmPins) h
  blinkPins := envSteps_blinkPins h
  joined := Machine.envSteps_eq (fun _ _ => env_joined) h

/-- A tick that fetches the remembered command reads it and returns. -/
theorem skipped_tick {jc : JsonC} {run : WgetRun} {s t : State}
    (hskip : fetchCarCommand jc run = .command s.lastCommand)
    (h : machine.Runs (timerCallback jc run) s () t) : OnlyThreads s t := by
  unfold timerCallback at h
  rw [hskip] at h
  simp only [Prog.call_bind] at h
  obtain ⟨u, last, w, hbefore, hload, hafter⟩ := Machine.runs_op h
  obtain ⟨hlast, rfl⟩ := exec_loadLastCommand hload
  have hsame : last = s.lastCommand :=
    hlast.trans (Machine.envSteps_eq (fun _ _ => env_lastCommand) hbefore)
  rw [if_neg (by simp [commandChanged_iff, hsame])] at hafter
  exact onlyThreads_of_envSteps (hbefore.trans (Machine.ret_runs_env hafter))

/-- One tick: it skips the remembered command, or executes one. -/
theorem tick_cases {jc : JsonC} {run : WgetRun} {s t : State}
    (h : machine.Runs (timerCallback jc run) s () t) :
    (fetchCarCommand jc run = .command s.lastCommand ∧ t.drive = s.drive) ∨
      ∃ cmd, Executes s.lastCommand (fetchCarCommand jc run) cmd ∧
        t.drive = s.drive.executed cmd := by
  have hdrive := timerCallback_drive h
  cases hfetch : fetchCarCommand jc run with
  | failed =>
    rw [hfetch] at hdrive
    exact .inr ⟨stopCommand, rfl, hdrive⟩
  | nullPointer => exact (not_runs_nullPointer hfetch h).elim
  | command new =>
    rw [hfetch] at hdrive
    by_cases hsame : s.lastCommand = new
    · left
      subst hsame
      refine ⟨rfl, ?_⟩
      rw [hdrive]
      simp [Drive.tick, tickActions, State.drive]
    · right
      refine ⟨new, ⟨rfl, hsame⟩, ?_⟩
      rw [hdrive]
      simp [Drive.tick, tickActions, State.drive, hsame, Drive.executed]

/-- The ticks since the last one that executed a command; `last` is what they find remembered. -/
structure Since (jc : JsonC) (runs : List WgetRun) (s : State) (last : CarCommand) (t : State) :
    Prop where
  lastCommand : t.lastCommand = last
  executed : ∃ earlier exec later u, runs = earlier ++ exec :: later ∧
    machine.Runs (ticks jc earlier) s () u ∧
    Executes u.lastCommand (fetchCarCommand jc exec) last ∧
    (∀ r ∈ later, fetchCarCommand jc r = .command last) ∧ t.drive = u.drive.executed last

/-- A whole sequence of ticks: all of them skipped, or the last execution is followed by skips
of the executed command. -/
theorem ticks_since {jc : JsonC} {runs : List WgetRun} {s t : State}
    (h : machine.Runs (ticks jc runs) s () t) :
    ((∀ r ∈ runs, fetchCarCommand jc r = .command s.lastCommand) ∧ t.drive = s.drive) ∨
      ∃ last, Since jc runs s last t := by
  induction runs generalizing s with
  | nil =>
    left
    exact ⟨by simp, follows_runs (L := driveLens) (follows_ret () s.drive) rfl h⟩
  | cons run runs ih =>
    obtain ⟨_, v, htick, hrest⟩ := Machine.runs_bind h
    rcases ih hrest with ⟨hskipped, hdrive⟩ |
      ⟨last, hlast, earlier, exec, later, u, hruns, hu, hafter⟩
    · rcases tick_cases htick with ⟨hfetch, hsame⟩ | ⟨cmd, hexecutes, hexecuted⟩
      · left
        have hcommand : v.lastCommand = s.lastCommand := congrArg Drive.lastCommand hsame
        rw [hcommand] at hskipped
        refine ⟨?_, hdrive.trans hsame⟩
        intro r hr
        rcases List.mem_cons.mp hr with rfl | hr
        · exact hfetch
        · exact hskipped r hr
      · right
        have hcommand : v.lastCommand = cmd := by
          have hv := congrArg Drive.lastCommand hexecuted
          rw [Drive.executed_lastCommand] at hv
          exact hv
        rw [hcommand] at hskipped
        have ht : t.lastCommand = cmd := (congrArg Drive.lastCommand hdrive).trans hcommand
        exact ⟨cmd, ht, [], run, runs, s, rfl, .refl, hexecutes, hskipped,
          hdrive.trans hexecuted⟩
    · right
      refine ⟨last, hlast, run :: earlier, exec, later, u, ?_, ?_, hafter⟩
      · rw [hruns, List.cons_append]
      · exact Machine.runs_append htick hu

/-- A tick that skips: no command has been executed since `init_gpio_pins` and it is the initial
one; or the last execution was of this command, commanded its steering pulse and updated its
duties, and every tick since has skipped it. During the skipping tick only the threads take steps:
it gives no command, and leaves the motors, the servo and `last_command` as they are. -/
theorem skipped_command_was_issued (jc : JsonC) (s t t' : State) (runs : List WgetRun)
    (run : WgetRun) (hinit : machine.Runs initGpioPins boot () s)
    (hticks : machine.Runs (ticks jc runs) s () t)
    (hskip : fetchCarCommand jc run = .command t.lastCommand)
    (htick : machine.Runs (timerCallback jc run) t () t') :
    OnlyThreads t t' ∧ t'.drive = t.drive ∧
    ((t.lastCommand = stopCommand ∧ t.drive = s.drive ∧
        ∀ r ∈ runs, fetchCarCommand jc r = .command stopCommand) ∨
      ∃ earlier exec later u, runs = earlier ++ exec :: later ∧
        machine.Runs (ticks jc earlier) s () u ∧
        Executes u.lastCommand (fetchCarCommand jc exec) t.lastCommand ∧
        (∀ r ∈ later, fetchCarCommand jc r = .command t.lastCommand) ∧
        t.drive.servoNs = some (servoNs (steeringAngle t.lastCommand.direction.text)) ∧
        t.drive.duties = t.lastCommand.duties.elim u.drive.duties u.drive.dutiesUpdated) := by
  refine ⟨skipped_tick hskip htick, ?_, ?_⟩
  · rcases tick_cases htick with ⟨-, hsame⟩ | ⟨cmd, hexecutes, -⟩
    · exact hsame
    · rw [hskip] at hexecutes
      exact absurd hexecutes.1 hexecutes.2
  · have hstop : s.lastCommand = stopCommand := (init_atRest hinit).lastCommand
    rcases ticks_since hticks with ⟨hskipped, hdrive⟩ | ⟨last, hlast, hsince⟩
    · left
      have ht : t.lastCommand = s.lastCommand := congrArg Drive.lastCommand hdrive
      rw [hstop] at ht hskipped
      exact ⟨ht, hdrive, hskipped⟩
    · right
      subst hlast
      obtain ⟨earlier, exec, later, u, hruns, hu, hexecutes, hlater, hdrive⟩ := hsince
      refine ⟨earlier, exec, later, u, hruns, hu, hexecutes, hlater, ?_, ?_⟩
      · rw [hdrive, Drive.executed_servoNs]
      · rw [hdrive, Drive.executed_duties]

/-- The entry is a command of the main thread that failed. -/
def LogEntry.failed : LogEntry → Bool
  | ⟨none, .system _ status⟩ => status != 0
  | _ => false

/-- Forward and left with all shell commands failing, then the same command again: it is skipped,
although its steering pulse never got through. -/
theorem failed_command_is_skipped :
    ∃ s t t', machine.Runs initGpioPins boot () s ∧
      machine.Runs (ticks forwardJsonC [forwardRun]) s () t ∧
      fetchCarCommand forwardJsonC forwardRun = .command t.lastCommand ∧
      machine.Runs (timerCallback forwardJsonC forwardRun) t () t' ∧ t'.log = t.log ∧
      ∃ added, t.log = added ++ s.log ∧ added ≠ [] ∧ ∀ e ∈ added, e.failed = true := by
  obtain ⟨_, s, hinit, hplay⟩ := machine.play_runs (calmMoves 80) initGpioPins boot
    (fun _ s => (machine.play (List.replicate 40 (.inl 1)) (ticks forwardJsonC [forwardRun]) s).any
      fun c => c.1.returned.any fun _ => decide ((fetchCarCommand forwardJsonC forwardRun =
          .command c.2.lastCommand) ∧ c.2.log.drop (c.2.log.length - s.log.length) = s.log ∧
          s.log.length < c.2.log.length) &&
        ((c.2.log.take (c.2.log.length - s.log.length)).all LogEntry.failed &&
        (machine.play [.inl 0] (timerCallback forwardJsonC forwardRun) c.2).any
          fun d => d.1.returned.any fun _ => decide (d.2.log = c.2.log))) (by decide +kernel)
  obtain ⟨_, t, hticks, htest⟩ := machine.play_runs _ _ _ (fun _ t => decide
    ((fetchCarCommand forwardJsonC forwardRun = .command t.lastCommand) ∧
      t.log.drop (t.log.length - s.log.length) = s.log ∧ s.log.length < t.log.length) &&
    ((t.log.take (t.log.length - s.log.length)).all LogEntry.failed &&
      (machine.play [.inl 0] (timerCallback forwardJsonC forwardRun) t).any
        fun d => d.1.returned.any fun _ => decide (d.2.log = t.log))) hplay
  simp only [Bool.and_eq_true, decide_eq_true_eq] at htest
  obtain ⟨⟨hfetch, hdrop, hlength⟩, hfailed, hskip⟩ := htest
  obtain ⟨_, t', htick, hlog⟩ := machine.play_runs _ _ _
    (fun _ u => decide (u.log = t.log)) hskip
  have hsplit : t.log = t.log.take (t.log.length - s.log.length) ++ s.log := by
    nth_rewrite 1 [← List.take_append_drop (t.log.length - s.log.length) t.log]
    rw [hdrop]
  refine ⟨s, t, t', hinit, hticks, hfetch, htick, of_decide_eq_true hlog, _, hsplit, ?_,
    List.all_eq_true.mp hfailed⟩
  intro hnil
  rw [hnil] at hsplit
  rw [hsplit] at hlength
  exact absurd hlength (lt_irrefl _)

/-- Forward and left, executed and then skipped. -/
theorem skipped_command_was_issued_forward :
    ∃ s t t', machine.Runs initGpioPins boot () s ∧
      machine.Runs (ticks forwardJsonC [forwardRun]) s () t ∧
      machine.Runs (timerCallback forwardJsonC forwardRun) t () t' ∧ OnlyThreads t t' ∧
      t'.drive = t.drive := by
  obtain ⟨_, s, hinit, hplay⟩ := machine.play_runs (calmMoves 80) initGpioPins boot
    (fun _ s => (machine.play (calmMoves 40) (ticks forwardJsonC [forwardRun]) s).any
      fun c => c.1.returned.any fun _ =>
        decide (fetchCarCommand forwardJsonC forwardRun = .command c.2.lastCommand) &&
        (machine.play [.inl 0] (timerCallback forwardJsonC forwardRun) c.2).any
          fun d => d.1.returned.any fun _ => true) (by decide +kernel)
  obtain ⟨_, t, hticks, htest⟩ := machine.play_runs _ _ _ (fun _ t =>
    decide (fetchCarCommand forwardJsonC forwardRun = .command t.lastCommand) &&
      (machine.play [.inl 0] (timerCallback forwardJsonC forwardRun) t).any
        fun d => d.1.returned.any fun _ => true) hplay
  obtain ⟨hfetch, hskip⟩ := (Bool.and_eq_true _ _).mp htest
  obtain ⟨_, t', htick, -⟩ := machine.play_runs _ _ _ (fun _ _ => true) hskip
  have hissued := skipped_command_was_issued forwardJsonC s t t' [forwardRun] forwardRun hinit
    hticks (of_decide_eq_true hfetch) htick
  exact ⟨s, t, t', hinit, hticks, htick, hissued.1, hissued.2.1⟩

end EmbeddedCar.Gpio
