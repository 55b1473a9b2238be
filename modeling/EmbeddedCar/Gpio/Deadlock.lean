import EmbeddedCar.Concurrent.Interrupt
import EmbeddedCar.Gpio.Shutdown

/-!
# The signal handler and the mutexes

`timer_callback` runs in the main thread, wherever `SIGALRM` finds it. The main loop holds no
mutex, but the timer is still armed while `main` cleans up, and `blinkStop` and
`softPwmUpdateDuty` hold one each. A tick that needs a mutex the main thread holds waits for it
for ever, since the main thread does not go on before the handler has returned.
-/

namespace EmbeddedCar.Gpio

open EmbeddedCar.Concurrent EmbeddedCar.Text Prog

/-- `main` from the return of `setup_timer` on (`gpio_controller.c:381-396`), with a main loop
that sleeps `n` times. -/
def afterSetup (n : Nat) : MainProg Unit := do
  Prog.sequence (List.replicate n (exec (.usleep 1000000)))
  stopAll
  setSteeringDirection (ascii "center")
  exec (.usleep 500000)
  let _ ← servoStop pwmServo
  return ()

/-- The mutexes the branch of `execute_car_command` for a command locks. -/
def CarCommand.locks (cmd : CarCommand) (m : Mutex) : Prop :=
  if cmd.movement.text = ascii "forward" ∨ cmd.movement.text = ascii "backward" then
    m = .softPwm ∨ cmd.direction.text = ascii "left" ∨ cmd.direction.text = ascii "right"
  else if cmd.movement.text = ascii "left" ∨ cmd.movement.text = ascii "right" then m = .blink
  else True

/-- The mutexes a tick locks, given what it fetches and the command it finds remembered. -/
def tickLocks (fetched : Fetch) (last : CarCommand) (m : Mutex) : Prop :=
  match fetched with
  | .command new => new ≠ last ∧ new.locks m
  | .failed => stopCommand.locks m
  | .nullPointer => False

/-! ### The mutexes a tick locks -/

/-- The operations that touch no other mutex. -/
def locksOnly (allowed : Mutex → Prop) : Op → Prop
  | .lock m | .unlock m => allowed m
  | _ => True

section

variable {allowed : Mutex → Prop}

theorem locksOnly_gpioSet (pin : Int) (setting : PinSetting) :
    locksOnly allowed (.system (.gpioSet pin setting)) := trivial

theorem locksOnly_of_servoOp {o : Op} (h : servoOp o) : locksOnly allowed o := by
  cases o <;> trivial

theorem allowsBlinkStop_locks (h : allowed .blink) (pin : Int) :
    AllowsBlinkStop (locksOnly allowed) pin :=
  ⟨h, h, trivial, trivial, trivial⟩

theorem uses_blinkStart_locks (h : allowed .blink) (pin freq duration : Int) :
    (blinkStart pin freq duration).Uses (locksOnly allowed) := by
  apply uses_blinkStart _ (locksOnly_gpioSet pin)
  intro _
  exact ⟨allowsBlinkStop_locks h pin, trivial, trivial, trivial, trivial, trivial⟩

theorem uses_blinkStop_locks (h : allowed .blink) (pin : Int) :
    (blinkStop pin).Uses (locksOnly allowed) :=
  uses_blinkStop (fun _ => allowsBlinkStop_locks h pin) (locksOnly_gpioSet pin)

theorem uses_updateDuties_locks (h : allowed .softPwm) (left1 left2 right1 right2 : Int) :
    (updateDuties left1 left2 right1 right2).Uses (locksOnly allowed) := by
  have hupdate : ∀ pin value, (softPwmUpdateDuty pin value).Uses (locksOnly allowed) := by
    intro pin value
    unfold softPwmUpdateDuty
    split
    · trivial
    split
    · trivial
    simp only [call_bind]
    refine ⟨h, fun _ => ⟨trivial, fun active => ?_⟩⟩
    beta_reduce
    split
    · exact ⟨h, fun _ => trivial⟩
    · exact ⟨trivial, fun _ => ⟨h, fun _ => trivial⟩⟩
  unfold updateDuties
  iterate 4 refine uses_bind (hupdate _ _) fun _ => ?_
  trivial

theorem uses_stopAll_locks (hsoft : allowed .softPwm) (hblink : allowed .blink) :
    stopAll.Uses (locksOnly allowed) := by
  unfold stopAll
  iterate 4 refine uses_bind (uses_blinkStop_locks hblink _) fun _ => ?_
  iterate 4 refine uses_bind (uses_digitalWrite locksOnly_gpioSet _ _) fun _ => ?_
  exact uses_updateDuties_locks hsoft 0 0 0 0

end

/-- What follows the LEDs in a branch: the four updates, of which one of the first two is to 0,
or nothing. -/
inductive LockingDuties (cmd : CarCommand) : MainProg Unit → Prop where
  | updates {left1 left2 : Int} (right1 right2 : Int) : left1 = 0 ∨ left2 = 0 →
      cmd.locks .softPwm → LockingDuties cmd (updateDuties left1 left2 right1 right2)
  | nothing : ¬ cmd.locks .softPwm → LockingDuties cmd (.ret ())

/-- The branches of a command, by the mutexes they lock. One of the two blinks of a turn is on a
pin in the range of `blinkStart`. -/
inductive LockingBranch (cmd : CarCommand) : MainProg Unit → Prop where
  | blinks {pin pin' : Int} {rest : MainProg Unit} : pin ∈ ledPins →
      pin ≠ ledForwardLeft ∨ pin = ledForwardLeft ∧ pin' = ledBackwardLeft →
      cmd.locks .blink → LockingDuties cmd rest →
      LockingBranch cmd (do let _ ← blinkStart pin 2 3; let _ ← blinkStart pin' 2 3; rest)
  | lights {pin pin' : Int} {rest : MainProg Unit} : ¬ cmd.locks .blink →
      LockingDuties cmd rest →
      LockingBranch cmd (do let _ ← digitalWrite pin .high; let _ ← digitalWrite pin' .high; rest)
  | stops : (∀ m, cmd.locks m) → LockingBranch cmd stopAll

theorem executeCarCommand_locking (cmd : CarCommand) :
    ∃ body, executeCarCommand cmd = (do setSteeringDirection cmd.direction.text; body) ∧
      LockingBranch cmd body := by
  refine ⟨_, rfl, ?_⟩
  simp only [strcmpEq, decide_eq_true_eq]
  by_cases hdrives : cmd.movement.text = ascii "forward" ∨ cmd.movement.text = ascii "backward"
  · have hduties : ∀ {left1 left2 : Int} (right1 right2 : Int), left1 = 0 ∨ left2 = 0 →
        LockingDuties cmd (updateDuties left1 left2 right1 right2) :=
      fun right1 right2 hzero => .updates right1 right2 hzero (by simp [CarCommand.locks, hdrives])
    have hturn : cmd.direction.text = ascii "left" ∨ cmd.direction.text = ascii "right" →
        cmd.locks .blink := by
      intro hdirection
      simp [CarCommand.locks, hdrives, hdirection]
    have hstraight : ¬ cmd.direction.text = ascii "left" → ¬ cmd.direction.text = ascii "right" →
        ¬ cmd.locks .blink := by
      intro hleft hright
      simp [CarCommand.locks, hdrives, hleft, hright]
    split
    · split
      · next hleft =>
        exact .blinks (by decide) (.inr ⟨rfl, rfl⟩) (hturn (.inl hleft)) (hduties _ _ (.inl rfl))
      split
      · next hright =>
        exact .blinks (by decide) (.inl (by decide)) (hturn (.inr hright)) (hduties _ _ (.inr rfl))
      · next hleft hright => exact .lights (hstraight hleft hright) (hduties _ _ (.inr rfl))
    next hforward =>
    rw [if_pos (hdrives.resolve_left hforward)]
    split
    · next hleft =>
      exact .blinks (by decide) (.inl (by decide)) (hturn (.inl hleft)) (hduties _ _ (.inr rfl))
    split
    · next hright =>
      exact .blinks (by decide) (.inl (by decide)) (hturn (.inr hright)) (hduties _ _ (.inl rfl))
    · next hleft hright => exact .lights (hstraight hleft hright) (hduties _ _ (.inl rfl))
  · have hno := not_or.mp hdrives
    rw [if_neg hno.1, if_neg hno.2]
    by_cases hturns : cmd.movement.text = ascii "left" ∨ cmd.movement.text = ascii "right"
    · have hblink : cmd.locks .blink := by simp [CarCommand.locks, hno, hturns]
      have hnothing : LockingDuties cmd (.ret ()) :=
        .nothing (by simp [CarCommand.locks, hno, hturns])
      split
      · exact .blinks (by decide) (.inr ⟨rfl, rfl⟩) hblink hnothing
      next hleft =>
      rw [if_pos (hturns.resolve_left hleft)]
      exact .blinks (by decide) (.inl (by decide)) hblink hnothing
    · have hstop := not_or.mp hturns
      rw [if_neg hstop.1, if_neg hstop.2]
      exact .stops fun m => by simp [CarCommand.locks, hno, hstop]

theorem uses_execute_locks (cmd : CarCommand) :
    (executeCarCommand cmd).Uses (locksOnly cmd.locks) := by
  have hduties : ∀ {rest : MainProg Unit}, LockingDuties cmd rest →
      rest.Uses (locksOnly cmd.locks) := by
    intro rest hrest
    cases hrest with
    | updates right1 right2 _ hsoft => exact uses_updateDuties_locks hsoft _ _ right1 right2
    | nothing => trivial
  obtain ⟨body, heq, hbranch⟩ := executeCarCommand_locking cmd
  rw [heq]
  apply uses_bind
  · exact uses_mono (fun _ => locksOnly_of_servoOp) (uses_setSteeringDirection _)
  intro _
  cases hbranch with
  | blinks _ _ hblink hrest =>
    apply uses_bind (uses_blinkStart_locks hblink _ _ _)
    intro _
    apply uses_bind (uses_blinkStart_locks hblink _ _ _)
    exact fun _ => hduties hrest
  | lights _ hrest =>
    apply uses_bind (uses_digitalWrite locksOnly_gpioSet _ _)
    intro _
    apply uses_bind (uses_digitalWrite locksOnly_gpioSet _ _)
    exact fun _ => hduties hrest
  | stops hall => exact uses_stopAll_locks (hall .softPwm) (hall .blink)

/-- What `timer_callback` locks when it finds `last` remembered. -/
theorem contract_timerCallback (jc : JsonC) (run : WgetRun) (last : CarCommand) :
    machine.Contract .none (fun o _ => locksOnly (tickLocks (fetchCarCommand jc run) last) o)
      (fun s => s.lastCommand = last) (timerCallback jc run) fun _ _ => True := by
  have hstable : machine.Stable fun s => s.lastCommand = last :=
    fun _ _ hs henv => (env_lastCommand henv).trans hs
  have huses : ∀ {allowed : Mutex → Prop} {p : MainProg Unit} {P : State → Prop},
      p.Uses (locksOnly allowed) →
      machine.Contract .none (fun o _ => locksOnly allowed o) P p fun _ _ => True := by
    intro allowed p P hp
    refine Machine.contract_conseq (P := fun _ => True) ?_ (fun _ _ => trivial) fun _ _ h => h
    exact Machine.contract_uses (fun _ _ _ _ => trivial) (fun _ ho _ _ => ho)
      (fun _ _ _ _ _ _ _ => trivial) hp
  unfold timerCallback
  cases fetchCarCommand jc run with
  | failed =>
    exact huses (uses_bind (uses_execute_locks stopCommand) fun _ => ⟨trivial, fun _ => trivial⟩)
  | nullPointer => exact huses ⟨trivial, fun _ => trivial⟩
  | command new =>
    simp only [call_bind]
    refine Machine.contract_op (N := fun found _ => found = last) hstable
      (fun _ _ _ => trivial) ?_ fun found => ?_
    · intro s found t hs _ h
      exact (exec_loadLastCommand h).1.trans hs
    by_cases hfound : found = last
    · subst hfound
      split
      · next hchanged =>
        have hne : new ≠ found := Ne.symm ((commandChanged_iff _ _).mp hchanged)
        refine huses (uses_bind (uses_mono ?_ (uses_execute_locks new)) fun _ =>
          ⟨trivial, fun _ => trivial⟩)
        intro o ho
        cases o with
        | lock m => exact ⟨hne, ho⟩
        | unlock m => exact ⟨hne, ho⟩
        | _ => trivial
      · exact huses trivial
    · exact fun s hs => absurd hs hfound

/-! ### A tick that waits for the main thread -/

theorem env_locked {s t : State} (h : machine.Env s t) : t.locked = s.locked := by
  obtain ⟨tid, status, w, task, e, -, -, rfl⟩ := env_iff.mp h
  cases htask : w.task <;> cases e <;> rfl

theorem exec_lock_free {m : Mutex} {s t : State} {r : Unit}
    (h : machine.Exec (.lock m) s r t) : s.locked m = false := by
  obtain ⟨status, h⟩ := h
  simp only [machine, perform] at h
  split at h
  · cases h
  · next hfree => simpa using hfree

/-- The mutex is locked. -/
def Locked (m : Mutex) (s : State) : Prop := s.locked m = true

theorem locked_stable (m : Mutex) : machine.Stable (Locked m) := by
  intro s t hs henv
  unfold Locked
  rw [env_locked henv]
  exact hs

theorem locked_exec {m : Mutex} {o : Op} (ho : o ≠ .unlock m) {s t : State} {r : o.Res}
    (hs : Locked m s) (h : machine.Exec o s r t) : Locked m t := by
  unfold Locked at hs ⊢
  cases o with
  | lock m' =>
    rw [exec_lock h]
    by_cases hm : m = m'
    · simp [hm]
    · simp [hm, hs]
  | unlock m' =>
    rw [exec_unlock h]
    have hm : m ≠ m' := fun heq => ho (by rw [heq])
    simp [hm, hs]
  | system command => rw [exec_system h]; exact hs
  | usleep us => rw [exec_usleep h]; exact hs
  | loadSoftPwm i field => rw [(exec_loadSoftPwm h).2]; exact hs
  | storeSoftPwm i field value => rw [exec_storeSoftPwm h]; exact hs
  | loadBlink i field => rw [(exec_loadBlink h).2]; exact hs
  | storeBlink i field value => rw [exec_storeBlink h]; exact hs
  | createSoftPwm i => rcases exec_createSoftPwm h with ⟨-, rfl⟩ | ⟨-, rfl⟩ <;> exact hs
  | createBlink i => rcases exec_createBlink h with ⟨-, rfl⟩ | ⟨-, rfl⟩ <;> exact hs
  | joinSoftPwm i =>
    obtain ⟨w, -, -, -, rfl⟩ := join_some (exec_joinSoftPwm h)
    exact hs
  | joinBlink i =>
    obtain ⟨w, -, -, -, rfl⟩ := join_some (exec_joinBlink h)
    exact hs
  | loadLastCommand => rw [(exec_loadLastCommand h).2]; exact hs
  | storeLastCommand command => rw [exec_storeLastCommand h]; exact hs
  | undefinedBehaviour => exact absurd h not_exec_undefinedBehaviour

section

variable {α β : Type} {m : Mutex}

/-- With the mutex locked by someone else, no run of the program returns. -/
def Blocks (m : Mutex) (p : MainProg α) : Prop :=
  machine.Triple (Locked m) p fun _ _ => False

/-- The program leaves the mutex to others. -/
def LeavesMutex (m : Mutex) (p : MainProg α) : Prop := p.Uses fun o => o ≠ .unlock m

theorem blocks_lock (next : Unit → MainProg α) : Blocks m (.op (.lock m) next) := by
  refine Machine.triple_op (N := fun _ _ => False) (locked_stable m) ?_ ?_
  · intro s r t hs h
    have hfree := exec_lock_free h
    rw [hs] at hfree
    cases hfree
  · exact fun _ _ hfalse => hfalse.elim

theorem blocks_bind {p : MainProg β} (hp : Blocks m p) (f : β → MainProg α) :
    Blocks m (p >>= f) :=
  Machine.triple_bind hp fun _ _ hfalse => hfalse.elim

theorem blocks_after {p : MainProg β} {f : β → MainProg α} (hp : LeavesMutex m p)
    (hf : ∀ value, Blocks m (f value)) : Blocks m (p >>= f) := by
  refine Machine.triple_keep_bind ?_ hf
  exact Machine.triple_uses (locked_stable m) (fun _ ho _ _ _ hs h => locked_exec ho hs h) hp

theorem leavesMutex_of_servoOp {p : MainProg α} (hp : p.Uses servoOp) : LeavesMutex m p := by
  refine uses_mono ?_ hp
  rintro o ho rfl
  exact ho

theorem leavesMutex_digitalWrite (pin : Int) (value : Level) :
    LeavesMutex m (digitalWrite pin value) :=
  uses_digitalWrite (fun _ _ => by simp) pin value

theorem leavesSoftPwm_of_locks {p : MainProg α} (hp : p.Uses (locksOnly fun m => m = .blink)) :
    LeavesMutex .softPwm p := by
  refine uses_mono ?_ hp
  rintro o ho rfl
  cases ho

end

theorem blocks_blinkStart {pin : Int} (hpin : 0 ≤ pin ∧ pin ≤ 21) :
    Blocks .blink (blinkStart pin 2 3) := by
  unfold blinkStart
  rw [if_neg (by omega), if_neg (by omega)]
  exact blocks_lock _

theorem blocks_blinkStop {pin : Int} (hpin : 0 ≤ pin ∧ pin ≤ 21) :
    Blocks .blink (blinkStop pin) := by
  unfold blinkStop
  rw [if_neg (by omega)]
  exact blocks_lock _

theorem blocks_softPwmUpdateDuty {pin value : Int} (hpin : 0 ≤ pin ∧ pin ≤ 27)
    (hvalue : 0 ≤ value ∧ value ≤ 100) : Blocks .softPwm (softPwmUpdateDuty pin value) := by
  unfold softPwmUpdateDuty
  rw [if_neg (by omega), if_neg (by omega)]
  exact blocks_lock _

/-- One of the first two updates of a command is to 0, and an update out of range locks
nothing. -/
theorem blocks_updateDuties {left1 left2 : Int} (right1 right2 : Int)
    (h : left1 = 0 ∨ left2 = 0) : Blocks .softPwm (updateDuties left1 left2 right1 right2) := by
  unfold updateDuties
  by_cases hleft1 : 0 ≤ left1 ∧ left1 ≤ 100
  · exact blocks_bind (blocks_softPwmUpdateDuty (by decide) hleft1) _
  · have hrejected : softPwmUpdateDuty pwmMotorLeft1 left1 = .ret (-1) := by
      unfold softPwmUpdateDuty
      rw [if_neg (by decide), if_pos (by omega)]
      rfl
    have hleft2 : left2 = 0 := by omega
    rw [hrejected, hleft2, ret_bind]
    exact blocks_bind (blocks_softPwmUpdateDuty (by decide) (by decide)) _

theorem blocks_stopAll (m : Mutex) : Blocks m stopAll := by
  cases m with
  | softPwm =>
    have hstop : ∀ pin, LeavesMutex .softPwm (blinkStop pin) :=
      fun pin => leavesSoftPwm_of_locks (uses_blinkStop_locks (by rfl) pin)
    unfold stopAll
    iterate 4 refine blocks_after (hstop _) fun _ => ?_
    iterate 4 refine blocks_after (leavesMutex_digitalWrite _ _) fun _ => ?_
    exact blocks_updateDuties 0 0 (.inl rfl)
  | blink =>
    -- Pin 27 is out of the range of `blinkStop`; pin 17 is the first one it locks for.
    have hrejected : blinkStop ledForwardLeft = .ret (-1) := by
      unfold blinkStop
      rw [if_pos (by decide)]
      rfl
    unfold stopAll
    rw [hrejected, ret_bind]
    exact blocks_bind (blocks_blinkStop (by decide)) _

theorem blocks_duties {cmd : CarCommand} {rest : MainProg Unit} (h : LockingDuties cmd rest)
    (hsoft : cmd.locks .softPwm) : Blocks .softPwm rest := by
  cases h with
  | updates right1 right2 hzero => exact blocks_updateDuties right1 right2 hzero
  | nothing hnot => exact absurd hsoft hnot

/-- A command waits for each mutex its branch locks. -/
theorem blocks_execute {cmd : CarCommand} {m : Mutex} (h : cmd.locks m) :
    Blocks m (executeCarCommand cmd) := by
  have hblink : ∀ pin, LeavesMutex .softPwm (blinkStart pin 2 3) :=
    fun pin => leavesSoftPwm_of_locks (uses_blinkStart_locks (by rfl) pin 2 3)
  obtain ⟨body, heq, hbranch⟩ := executeCarCommand_locking cmd
  rw [heq]
  apply blocks_after (leavesMutex_of_servoOp (uses_setSteeringDirection _))
  intro _
  cases hbranch with
  | blinks hled hpins hlocks hrest =>
    cases m with
    | softPwm =>
      apply blocks_after (hblink _)
      intro _
      apply blocks_after (hblink _)
      exact fun _ => blocks_duties hrest h
    | blink =>
      rcases hpins with hne | ⟨rfl, rfl⟩
      · have hall : ∀ q ∈ ledPins, q ≠ ledForwardLeft → 0 ≤ q ∧ q ≤ 21 := by decide
        exact blocks_bind (blocks_blinkStart (hall _ hled hne)) _
      · -- Pin 27 is out of the range of `blinkStart`; the blink of pin 6 waits.
        have hrejected : blinkStart ledForwardLeft 2 3 = .ret (-1) := by
          unfold blinkStart
          rw [if_pos (by decide)]
          rfl
        rw [hrejected, ret_bind]
        exact blocks_bind (blocks_blinkStart (by decide)) _
  | lights hnot hrest =>
    cases m with
    | softPwm =>
      apply blocks_after (leavesMutex_digitalWrite _ _)
      intro _
      apply blocks_after (leavesMutex_digitalWrite _ _)
      exact fun _ => blocks_duties hrest h
    | blink => exact absurd h hnot
  | stops => exact blocks_stopAll m

/-- A tick that arrives while the main thread holds a mutex it needs never returns. -/
theorem not_runs_timerCallback {jc : JsonC} {run : WgetRun} {m : Mutex} {s t : State}
    (hheld : Locked m s) (hneeds : tickLocks (fetchCarCommand jc run) s.lastCommand m) :
    ¬ machine.Runs (timerCallback jc run) s () t := by
  intro h
  unfold timerCallback at h
  cases hfetch : fetchCarCommand jc run with
  | failed =>
    rw [hfetch] at h hneeds
    exact Machine.triple_runs (blocks_bind (blocks_execute hneeds) _) hheld h
  | nullPointer =>
    rw [hfetch] at hneeds
    exact hneeds
  | command new =>
    rw [hfetch] at h hneeds
    obtain ⟨hne, hlocks⟩ := hneeds
    have hchanged := (commandChanged_iff s.lastCommand new).mpr (Ne.symm hne)
    have hblocked : machine.Triple (fun u => Locked m u ∧ u.lastCommand = s.lastCommand)
        (do let lastCommand ← exec .loadLastCommand
            if commandChanged lastCommand new then
              executeCarCommand new
              exec (.storeLastCommand new)) fun _ _ => False := by
      simp only [call_bind]
      refine Machine.triple_op (N := fun found u => Locked m u ∧ found = s.lastCommand) ?_ ?_
        fun found => ?_
      · exact fun u w hu henv =>
          ⟨locked_stable m u w hu.1 henv, (env_lastCommand henv).trans hu.2⟩
      · rintro u found w ⟨hlocked, hlast⟩ hexec
        obtain ⟨hfound, rfl⟩ := exec_loadLastCommand hexec
        exact ⟨hlocked, hfound.trans hlast⟩
      by_cases hfound : found = s.lastCommand
      · rw [hfound, if_pos hchanged]
        refine Machine.triple_conseq (blocks_bind (blocks_execute hlocks) _) ?_ fun _ _ h => h
        exact fun u hu => hu.1
      · exact fun u hu => absurd hu.2 hfound
    exact Machine.triple_runs hblocked ⟨hheld, rfl⟩ h

/-! ### The main thread with its ticks -/

/-- A tick finds no mutex locked that it needs. -/
def TickFits (jc : JsonC) (run : WgetRun) (s : State) : Prop :=
  ∀ m, Locked m s → ¬ tickLocks (fetchCarCommand jc run) s.lastCommand m

/-- In every run whose ticks arrive where they find no mutex locked that they need, the handler
never tries to lock a mutex the interrupted main thread holds. A tick that arrives anywhere else
never returns. -/
theorem handler_never_deadlocks (jc : JsonC) (n : Nat) (s : State) :
    (∀ c, machine.SignalSteps (timerCallback jc) (TickFits jc) ⟨afterSetup n, none, s⟩ c →
      ∀ h m next, c.handler = some h → h.rest = .op (.lock m) next → ¬ Locked m h.entry) ∧
    ∀ c, machine.SignalSteps (timerCallback jc) (fun _ _ => True) ⟨afterSetup n, none, s⟩ c →
      ∀ run, ¬ TickFits jc run c.state →
        ∀ t, ¬ machine.Runs (timerCallback jc run) c.state () t := by
  constructor
  · intro c hc h m next hhandler hrest hlocked
    obtain ⟨hfits, hsteps⟩ := Machine.signalSteps_handler hc hhandler
    rw [hrest] at hsteps
    have hneeds := Machine.contract_demand
      (contract_timerCallback jc h.signal h.entry.lastCommand) rfl
      (Machine.steps_stepsUnder hsteps) trivial
    exact hfits m hlocked hneeds
  · intro c _ run hunfit t
    simp only [TickFits, not_forall, not_not] at hunfit
    obtain ⟨m, hlocked, hneeds⟩ := hunfit
    exact not_runs_timerCallback hlocked hneeds

/-- The program is about to lock the mutex. -/
def aboutToLock {α : Type} (m : Mutex) : MainProg α → Bool
  | .op (.lock m') _ => m = m'
  | _ => false

theorem aboutToLock_eq {α : Type} {m : Mutex} {p : MainProg α} (h : aboutToLock m p = true) :
    ∃ next, p = .op (.lock m) next := by
  unfold aboutToLock at h
  split at h
  · next m' next =>
    rw [of_decide_eq_true h]
    exact ⟨next, rfl⟩
  · cases h

/-- A reply that arrives in the main loop finds no mutex locked. -/
theorem handler_never_deadlocks_forward :
    ∃ s, machine.Runs initGpioPins boot () s ∧
      ∃ q e r t, machine.SignalSteps (timerCallback forwardJsonC) (TickFits forwardJsonC)
        ⟨afterSetup 1, none, s⟩ ⟨q, some ⟨forwardRun, e, r⟩, t⟩ ∧
        (∃ next, r = .op (.lock .softPwm) next) ∧ ¬ Locked .softPwm e := by
  let test : MainProg Unit → State → State → Bool := fun r e _ =>
    aboutToLock .softPwm r && !e.locked .softPwm && !e.locked .blink
  have hfits : ∀ r e t, test r e t = true → TickFits forwardJsonC forwardRun e := by
    intro r e t htest m hlocked
    simp only [test, Bool.and_eq_true, Bool.not_eq_true'] at htest
    unfold Locked at hlocked
    cases m <;> simp_all
  obtain ⟨_, s, hinit, hplay⟩ := machine.play_runs (calmMoves 80) initGpioPins boot
    (fun _ s => (machine.play [] (afterSetup 1) s).any fun c =>
      (machine.play (calmMoves 14) (timerCallback forwardJsonC forwardRun) c.2).any fun d =>
        test d.1 c.2 d.2) (by decide +kernel)
  obtain ⟨q, e, r, t, hsteps, htest⟩ :=
    Machine.play_interrupted [] (calmMoves 14) test hfits hplay
  have hlock := htest
  simp only [test, Bool.and_eq_true] at hlock
  obtain ⟨next, rfl⟩ := aboutToLock_eq hlock.1.1
  refine ⟨s, hinit, q, e, _, t, hsteps, ⟨next, rfl⟩, ?_⟩
  exact (handler_never_deadlocks forwardJsonC 1 s).1 _ hsteps _ .softPwm next rfl rfl

/-- A failed poll that arrives when the first `blinkStop` of the cleanup has locked
`blink_mutex`. -/
theorem failed_poll_deadlocks_cleanup :
    ∃ s, machine.Runs initGpioPins boot () s ∧
      ∃ q e r t, machine.SignalSteps (timerCallback forwardJsonC) (fun _ _ => True)
        ⟨afterSetup 0, none, s⟩ ⟨q, some ⟨⟨true, [], 4⟩, e, r⟩, t⟩ ∧
        (∃ next, r = .op (.lock .blink) next) ∧ Locked .blink e := by
  let test : MainProg Unit → State → State → Bool := fun r e _ =>
    aboutToLock .blink r && e.locked .blink
  obtain ⟨_, s, hinit, hplay⟩ := machine.play_runs (calmMoves 80) initGpioPins boot
    (fun _ s => (machine.play (calmMoves 1) (afterSetup 0) s).any fun c =>
      (machine.play (calmMoves 4) (timerCallback forwardJsonC ⟨true, [], 4⟩) c.2).any fun d =>
        test d.1 c.2 d.2) (by decide +kernel)
  have hvisit : ∃ q e r t, machine.SignalSteps (timerCallback forwardJsonC) (fun _ _ => True)
      ⟨afterSetup 0, none, s⟩ ⟨q, some ⟨⟨true, [], 4⟩, e, r⟩, t⟩ ∧ test r e t = true :=
    Machine.play_interrupted (calmMoves 1) (calmMoves 4) test (fun _ _ _ _ => trivial) hplay
  obtain ⟨q, e, r, t, hsteps, htest⟩ := hvisit
  simp only [test, Bool.and_eq_true] at htest
  obtain ⟨next, rfl⟩ := aboutToLock_eq htest.1
  exact ⟨s, hinit, q, e, _, t, hsteps, ⟨next, rfl⟩, htest.2⟩

end EmbeddedCar.Gpio
