import EmbeddedCar.Gpio.Blinking
import EmbeddedCar.Gpio.Tracking

/-!
# The fail-safe stop

A tick whose fetch fails executes `stop_cmd`: it ends the blink threads, writes the LEDs low,
sets the duties to 0 and centres the servo. What no thread undoes afterwards rests on the two
facts of `Calm`: no blink thread is left, and no soft-PWM thread has an LED for its pin.
-/

namespace EmbeddedCar.Gpio

open EmbeddedCar.Concurrent EmbeddedCar.Text

/-- The writes of a pin by worker threads. -/
def threadWrites (pin : Int) (log : List LogEntry) : List LogEntry :=
  log.filter fun e => e.author.isSome && e.call.writes pin

/-! ### Calm -/

/-- No soft-PWM slot is for an LED. -/
def ApartFromLeds (s : State) : Prop := ∀ i, (s.softPwmPins i).pin ∉ ledPins

/-- No thread will write an LED pin any more. -/
structure Calm (s : State) : Prop where
  noBlink : ∀ tid i, ¬ s.Blinks tid i
  apart : ApartFromLeds s

theorem apart_stable : machine.Stable ApartFromLeds := by
  intro s t hs henv
  unfold ApartFromLeds
  rw [env_softPwmPins henv]
  exact hs

theorem apart_exec {o : Op} (ho : tickOp o) {s t : State} {r : o.Res} (hs : ApartFromLeds s)
    (h : machine.Exec o s r t) : ApartFromLeds t := by
  cases o with
  | storeSoftPwm i field value =>
    have hfield : field = .dutyCycle := ho
    subst hfield
    rw [exec_storeSoftPwm h]
    intro j
    by_cases hj : j = i
    · simpa [State.setSoftPwm, SoftPwm.set, hj] using hs i
    · simpa [State.setSoftPwm, hj] using hs j
  | createSoftPwm i => cases ho
  | system command => rw [exec_system h]; exact hs
  | storeLastCommand cmd => rw [exec_storeLastCommand h]; exact hs
  | _ =>
    have hpins : t.softPwmPins = s.softPwmPins :=
      congrArg Drive.softPwm (drive_of_quiet rfl h)
    unfold ApartFromLeds
    rw [hpins]
    exact hs

theorem startsNoBlink_of_stopOp {o : Op} (ho : stopOp o) : startsNoBlink o := by
  cases o <;> trivial

theorem calm_stable : machine.Stable Calm := fun s t hs henv =>
  ⟨fun tid i ht => hs.noBlink tid i (env_blinks henv ht), apart_stable s t hs.apart henv⟩

theorem calm_exec {o : Op} (ho : stopOp o) {s t : State} {r : o.Res} (hs : Calm s)
    (h : machine.Exec o s r t) : Calm t :=
  ⟨fun tid i ht => hs.noBlink tid i (exec_blinks (startsNoBlink_of_stopOp ho) h ht),
    apart_exec (tickOp_of_stopOp ho) hs.apart h⟩

/-- In a calm state the threads leave the LEDs alone. -/
theorem calm_env {s t : State} (hs : Calm s) (henv : machine.Env s t) {pin : Int}
    (hpin : pin ∈ ledPins) :
    lastLevel pin t.log = lastLevel pin s.log ∧
      threadWrites pin t.log = threadWrites pin s.log := by
  rcases env_log henv with hlog | ⟨tid, us, hlog⟩ | ⟨tid, p, value, status, hlog, hwriter⟩
  · rw [hlog]
    exact ⟨rfl, rfl⟩
  · rw [hlog]
    exact ⟨rfl, rfl⟩
  · have hne : p ≠ pin := by
      rintro rfl
      rcases hwriter with ⟨i, hblinks, -⟩ | ⟨i, hsoft⟩
      · exact hs.noBlink tid i hblinks
      · exact hs.apart i (hsoft ▸ hpin)
    rw [hlog]
    refine ⟨?_, ?_⟩
    · rw [lastLevel_digitalWrite, if_neg hne]
    · simp [threadWrites, hne]

/-- The main thread's calls are not the threads' writes. -/
theorem threadWrites_exec {o : Op} {s t : State} {r : o.Res} (h : machine.Exec o s r t)
    (pin : Int) : threadWrites pin t.log = threadWrites pin s.log := by
  rw [exec_log h]
  unfold threadWrites
  rw [List.filter_append]
  cases o <;> rfl

/-! ### The LEDs during the stop -/

/-- Calm, with the given LEDs low. -/
def Dark (pins : List Int) (s : State) : Prop :=
  Calm s ∧ ∀ pin ∈ pins, pin ∈ ledPins ∧ lastLevel pin s.log = some .low

theorem dark_stable (pins : List Int) : machine.Stable (Dark pins) := by
  rintro s t ⟨hcalm, hlow⟩ henv
  refine ⟨calm_stable s t hcalm henv, fun pin hpin => ?_⟩
  obtain ⟨hled, hlevel⟩ := hlow pin hpin
  exact ⟨hled, (calm_env hcalm henv hled).1.trans hlevel⟩

/-- An operation of the stop that makes no call. -/
def silentOp (o : Op) : Prop := stopOp o ∧ ∀ r, o.calls r = []

theorem dark_exec {pins : List Int} {o : Op} (ho : silentOp o) {s t : State} {r : o.Res}
    (hs : Dark pins s) (h : machine.Exec o s r t) : Dark pins t := by
  refine ⟨calm_exec ho.1 hs.1 h, ?_⟩
  rw [exec_log h, ho.2 r]
  exact hs.2

theorem silentOp_of_dutyOp {o : Op} (ho : dutyOp o) : silentOp o := by
  refine ⟨stopOp_of_driveOp (driveOp_of_dutyOp ho), fun r => ?_⟩
  cases o <;> first | rfl | cases ho

theorem triple_dark_digitalWrite (pins : List Int) {pin : Int} (hpin : pin ∈ ledPins) :
    machine.Triple (Dark pins) (digitalWrite pin .low) fun _ => Dark (pin :: pins) := by
  refine Machine.triple_op (N := fun _ => Dark (pin :: pins)) (dark_stable pins) ?_ fun _ =>
    Machine.triple_ret (dark_stable _) fun _ h => h
  intro s r t hs h
  refine ⟨calm_exec (o := .system (digitalWriteCommand pin .low)) (by trivial) hs.1 h, ?_⟩
  intro p hp
  rw [exec_system h]
  rcases List.mem_cons.mp hp with rfl | hold
  · refine ⟨hpin, ?_⟩
    simp [State.record]
  · obtain ⟨hled, hlevel⟩ := hs.2 p hold
    refine ⟨hled, ?_⟩
    simp only [State.record, lastLevel_digitalWrite, hlevel, ite_self]

/-! ### The blink threads during the stop -/

/-- The invariant between two ticks. -/
def Idle (s : State) : Prop := Tended none s ∧ ApartFromLeds s

/-- Idle, with the given slots quiet. -/
def Stopped (slots : List Nat) (s : State) : Prop := Idle s ∧ ∀ i ∈ slots, Quiet i s

/-- One more slot is quiet. -/
theorem triple_stopped_blinkStop (slots : List Nat) (pin : Int) (hpin : 0 ≤ pin ∧ pin ≤ 21) :
    machine.Triple (Stopped slots) (blinkStop pin) fun _ => Stopped (pin.toNat :: slots) := by
  have hothers : machine.Triple (fun s => ApartFromLeds s ∧ ∀ i ∈ slots, Quiet i s)
      (blinkStop pin) fun _ s => ApartFromLeds s ∧ ∀ i ∈ slots, Quiet i s := by
    refine Machine.triple_uses ?_ ?_ (uses_blinkStop_stopOp pin)
    · rintro s t ⟨hapart, hquiet⟩ henv
      exact ⟨apart_stable s t hapart henv,
        fun i hi => (kept_quiet i).stable s t (hquiet i hi) henv⟩
    · rintro o ho s r t ⟨hapart, hquiet⟩ h
      exact ⟨apart_exec (tickOp_of_stopOp ho) hapart h,
        fun i hi tid ht => hquiet i hi tid (exec_blinks (startsNoBlink_of_stopOp ho) h ht)⟩
  refine Machine.triple_conseq (Machine.triple_and (triple_blinkStop pin hpin) hothers) ?_ ?_
  · rintro s ⟨⟨htended, hapart⟩, hquiet⟩
    exact ⟨htended, hapart, hquiet⟩
  · rintro _ t ⟨⟨htended, hslot⟩, hapart, hquiet⟩
    exact ⟨⟨htended, hapart⟩, List.forall_mem_cons.mpr ⟨hslot, hquiet⟩⟩

/-- Pin 27 has no blink slot. -/
theorem blinkStop_ledForwardLeft : blinkStop ledForwardLeft = .ret (-1) := by
  unfold blinkStop
  rw [if_pos (by decide)]
  rfl

/-- With the slots of the LEDs quiet no blink thread is left. -/
theorem calm_of_stopped {s : State}
    (h : Stopped [ledBackwardRight.toNat, ledBackwardLeft.toNat, ledForwardRight.toNat] s) :
    Calm s := by
  obtain ⟨⟨htended, hapart⟩, hquiet⟩ := h
  refine ⟨fun tid i hi => ?_, hapart⟩
  obtain ⟨hled, hrange⟩ := htended.led tid i hi
  refine hquiet i ?_ tid hi
  simp only [ledPins, ledForwardLeft, ledForwardRight, ledBackwardLeft, ledBackwardRight,
    List.mem_cons, List.not_mem_nil, or_false] at hled ⊢
  omega

/-- After `stop_all` the LEDs are dark. -/
theorem triple_stopAll : machine.Triple Idle stopAll fun _ => Dark ledPins.reverse := by
  unfold stopAll
  rw [blinkStop_ledForwardLeft, Prog.ret_bind]
  refine Machine.triple_conseq (P := Stopped []) ?_ (fun s hs => ⟨hs, by simp⟩) fun _ _ h => h
  refine Machine.triple_bind (triple_stopped_blinkStop _ ledForwardRight (by decide)) fun _ => ?_
  refine Machine.triple_bind (triple_stopped_blinkStop _ ledBackwardLeft (by decide)) fun _ => ?_
  refine Machine.triple_bind (triple_stopped_blinkStop _ ledBackwardRight (by decide)) fun _ => ?_
  refine Machine.triple_conseq (P := Dark []) ?_
    (fun s hs => ⟨calm_of_stopped hs, by simp⟩) fun _ _ h => h
  refine Machine.triple_bind (triple_dark_digitalWrite _ (by decide)) fun _ => ?_
  refine Machine.triple_bind (triple_dark_digitalWrite _ (by decide)) fun _ => ?_
  refine Machine.triple_bind (triple_dark_digitalWrite _ (by decide)) fun _ => ?_
  refine Machine.triple_bind (triple_dark_digitalWrite _ (by decide)) fun _ => ?_
  exact Machine.triple_uses (dark_stable _) (fun o ho s r t hs h => dark_exec ho hs h)
    (Prog.uses_mono (fun _ => silentOp_of_dutyOp) (uses_updateDuties 0 0 0 0))

/-! ### Ticks -/

theorem idle_stable : machine.Stable Idle := fun s t hs henv =>
  ⟨(kept_tended none).stable s t hs.1 henv, apart_stable s t hs.2 henv⟩

theorem triple_idle_driveOp {α : Type} {p : MainProg α} (hp : p.Uses driveOp) :
    machine.Triple Idle p fun _ => Idle :=
  Machine.triple_uses idle_stable (fun o ho s r t hs h =>
    ⟨(kept_tended none).keep o (leavesBlinks_of_driveOp ho) s r t hs.1 h,
      apart_exec (tickOp_of_stopOp (stopOp_of_driveOp ho)) hs.2 h⟩) hp

theorem triple_idle_blinkStart {pin : Int} (hpin : pin ∈ ledPins) :
    machine.Triple Idle (blinkStart pin 2 3) fun _ => Idle :=
  Machine.triple_and (triple_blinkStart pin 2 3 hpin)
    (Machine.triple_uses apart_stable (fun _ ho _ _ _ hs h => apart_exec ho hs h)
      (uses_blinkStart_tickOp pin 2 3))

theorem idle_of_dark {pins : List Int} {s : State} (hs : Dark pins s) : Idle s :=
  ⟨⟨fun tid i h => absurd h (hs.1.noBlink tid i), fun tid i h => absurd h (hs.1.noBlink tid i),
    fun tid i h => absurd h (hs.1.noBlink tid i)⟩, hs.1.apart⟩

/-- Every command keeps the invariant. -/
theorem triple_idle_executeCarCommand (cmd : CarCommand) :
    machine.Triple Idle (executeCarCommand cmd) fun _ => Idle := by
  obtain ⟨body, heq, hbranch⟩ := executeCarCommand_branch cmd
  have hleds := (signal_proper cmd).leds
  generalize cmd.signal = sig at hbranch hleds
  have hduties : ∀ {rest : MainProg Unit}, rest.Uses dutyOp →
      machine.Triple Idle rest fun _ => Idle :=
    fun hrest => triple_idle_driveOp (Prog.uses_mono (fun _ => driveOp_of_dutyOp) hrest)
  have hlight : ∀ pin, machine.Triple Idle (digitalWrite pin .high) fun _ => Idle :=
    fun pin => triple_idle_driveOp (uses_digitalWrite (fun _ _ => trivial) pin .high)
  rw [heq]
  refine Machine.triple_keep_bind (triple_idle_driveOp
    (Prog.uses_mono (fun _ => driveOp_of_servoOp) (uses_setSteeringDirection _))) fun _ => ?_
  cases hbranch with
  | blinks hrest =>
    exact Machine.triple_keep_bind (triple_idle_blinkStart (hleds _ (by simp))) fun _ =>
      Machine.triple_keep_bind (triple_idle_blinkStart (hleds _ (by simp))) fun _ => hduties hrest
  | blinksBack hrest =>
    exact Machine.triple_keep_bind (triple_idle_blinkStart (hleds _ (by simp))) fun _ =>
      Machine.triple_keep_bind (triple_idle_blinkStart (hleds _ (by simp))) fun _ => hduties hrest
  | lights hrest =>
    exact Machine.triple_keep_bind (hlight _) fun _ =>
      Machine.triple_keep_bind (hlight _) fun _ => hduties hrest
  | stops => exact Machine.triple_conseq triple_stopAll (fun _ h => h) fun _ _ h => idle_of_dark h

theorem idle_storeLastCommand {s t : State} {cmd : CarCommand} {r : Unit} (hs : Idle s)
    (h : machine.Exec (.storeLastCommand cmd) s r t) : Idle t :=
  ⟨(kept_tended none).keep (.storeLastCommand cmd) trivial s r t hs.1 h,
    apart_exec (o := .storeLastCommand cmd) (by trivial) hs.2 h⟩

theorem triple_idle_timerCallback (jc : JsonC) (run : WgetRun) :
    machine.Triple Idle (timerCallback jc run) fun _ => Idle := by
  have hret : machine.Triple Idle (.ret ()) fun _ => Idle :=
    Machine.triple_ret idle_stable fun _ h => h
  have hexecute : ∀ cmd, machine.Triple Idle
      (do executeCarCommand cmd; exec (.storeLastCommand cmd)) fun _ => Idle :=
    fun cmd => Machine.triple_keep_bind (triple_idle_executeCarCommand cmd) fun _ =>
      Machine.triple_op (N := fun _ => Idle) idle_stable
        (fun _ _ _ hs h => idle_storeLastCommand hs h) fun _ => hret
  unfold timerCallback
  split
  · simp only [Prog.call_bind]
    refine Machine.triple_op (N := fun _ => Idle) idle_stable ?_ fun last => ?_
    · intro s r t hs h
      rw [(exec_loadLastCommand h).2]
      exact hs
    · split
      · exact hexecute _
      · exact hret
  · exact hexecute stopCommand
  · exact Machine.triple_op (N := fun _ => Idle) idle_stable
      (fun _ _ _ _ h => absurd h not_exec_undefinedBehaviour) fun _ => hret

/-- A tick whose fetch fails. -/
theorem triple_timerCallback_failed {jc : JsonC} {run : WgetRun}
    (h : fetchCarCommand jc run = .failed) :
    machine.Triple Idle (timerCallback jc run) fun _ => Dark ledPins.reverse := by
  have hsteering : (setSteeringDirection (ascii "center")).Uses driveOp :=
    Prog.uses_mono (fun _ => driveOp_of_servoOp) (uses_setSteeringDirection _)
  have hsilent : silentOp (.storeLastCommand stopCommand) := ⟨trivial, fun _ => rfl⟩
  rw [timerCallback_failed h, executeCarCommand_stopCommand]
  refine Machine.triple_bind (Machine.triple_keep_bind (triple_idle_driveOp hsteering)
    fun _ => triple_stopAll) fun _ => ?_
  exact Machine.triple_uses (dark_stable _) (fun o ho s r t hs h => dark_exec ho hs h)
    ⟨hsilent, fun _ => trivial⟩

theorem idle_ticks (jc : JsonC) (runs : List WgetRun) :
    machine.Triple Idle (ticks jc runs) fun _ => Idle := by
  refine Machine.triple_sequence idle_stable fun p hp => ?_
  obtain ⟨run, -, rfl⟩ := List.mem_map.mp hp
  exact triple_idle_timerCallback jc run

theorem idle_boot : Idle boot := by
  have hnone : ∀ tid i, ¬ boot.Blinks tid i := by
    rintro tid i ⟨pc, joined, hget, -⟩
    simp [boot] at hget
  exact ⟨⟨fun tid i h => absurd h (hnone tid i), fun tid i h => absurd h (hnone tid i),
    fun tid i h => absurd h (hnone tid i)⟩, atRest_boot.pin⟩

/-- `init_gpio_pins` starts no blink thread. -/
theorem uses_initGpioPins : initGpioPins.Uses leavesBlinks := by
  have hstart : ∀ pin, (softPwmStart pin 0 500).Uses leavesBlinks := by
    intro pin
    refine uses_softPwmStart ?_ leavesBlinks_gpioSet 500
    exact ⟨trivial, trivial, fun _ _ => trivial, fun _ => trivial, fun _ => trivial,
      fun _ _ => trivial, fun _ _ => trivial, fun _ => trivial, fun _ => trivial⟩
  unfold initGpioPins
  iterate 8 refine Prog.uses_bind (uses_pinMode leavesBlinks_gpioSet _ _) fun _ => ?_
  refine Prog.uses_bind (uses_servoInit (fun _ => trivial) trivial _) fun _ => ?_
  iterate 4 refine Prog.uses_bind (uses_digitalWrite leavesBlinks_gpioSet _ _) fun _ => ?_
  iterate 4 refine Prog.uses_bind (hstart _) fun _ => ?_
  trivial

theorem init_idle {s : State} (h : machine.Runs initGpioPins boot () s) : Idle s := by
  have hkept := kept_tended none
  have htended : Tended none s :=
    Machine.triple_runs (P := Tended none) (Q := fun _ => Tended none)
      (Machine.triple_uses hkept.stable hkept.keep uses_initGpioPins) idle_boot.1 h
  exact ⟨htended, (init_atRest h).pin⟩

/-- The controller from `init_gpio_pins` to the end of a tick. -/
def controller (jc : JsonC) (runs : List WgetRun) : MainProg Unit := do
  initGpioPins
  ticks jc runs

theorem idle_controller {jc : JsonC} {runs : List WgetRun} {s : State}
    (h : machine.Runs (controller jc runs) boot () s) : Idle s := by
  obtain ⟨_, r, hinit, hticks⟩ := Machine.runs_bind h
  exact Machine.triple_runs (P := Idle) (Q := fun _ => Idle) (idle_ticks jc runs)
    (init_idle hinit) hticks

/-- Failed ticks, at least one. -/
theorem dark_failed {jc : JsonC} {failures : List WgetRun} (hne : failures ≠ [])
    (hfail : ∀ run ∈ failures, fetchCarCommand jc run = .failed) {s t : State} (hs : Idle s)
    (h : machine.Runs (ticks jc failures) s () t) : Dark ledPins.reverse t := by
  induction failures generalizing s with
  | nil => exact absurd rfl hne
  | cons run failures ih =>
    obtain ⟨_, u, htick, hrest⟩ := Machine.runs_bind h
    have hu : Dark ledPins.reverse u :=
      Machine.triple_runs (P := Idle) (Q := fun _ => Dark ledPins.reverse)
        (triple_timerCallback_failed (hfail run List.mem_cons_self)) hs htick
    by_cases hlast : failures = []
    · subst hlast
      exact Machine.triple_runs (P := Dark ledPins.reverse) (Q := fun _ => Dark ledPins.reverse)
        (Machine.triple_ret (dark_stable _) fun _ h => h) hu hrest
    · exact ih hlast (fun r hr => hfail r (List.mem_cons_of_mem run hr)) (idle_of_dark hu) hrest

/-- From a calm state, failed ticks bring no thread to write an LED. -/
theorem threadWrites_failed {jc : JsonC} {more : List WgetRun}
    (hmore : ∀ run ∈ more, fetchCarCommand jc run = .failed) {t u : State} {q : MainProg Unit}
    (ht : Calm t) (h : machine.Steps (ticks jc more, t) (q, u)) {pin : Int}
    (hpin : pin ∈ ledPins) : threadWrites pin u.log = threadWrites pin t.log := by
  have huses : (ticks jc more).Uses stopOp := by
    clear h
    induction more with
    | nil => trivial
    | cons run more ih =>
      refine Prog.uses_bind (uses_timerCallback_failed (hmore run List.mem_cons_self)) fun _ => ?_
      exact ih fun r hr => hmore r (List.mem_cons_of_mem run hr)
  let P : State → Prop := fun r => Calm r ∧ threadWrites pin r.log = threadWrites pin t.log
  have hstable : machine.Stable P := fun r r' hr henv =>
    ⟨calm_stable r r' hr.1 henv, (calm_env hr.1 henv hpin).2.trans hr.2⟩
  have hkeep : ∀ o, stopOp o → ∀ r result r', P r → machine.Exec o r result r' → P r' :=
    fun o ho r result r' hr hexec =>
      ⟨calm_exec ho hr.1 hexec, (threadWrites_exec hexec pin).trans hr.2⟩
  exact (Machine.uses_steps hstable hkeep huses ⟨ht, rfl⟩ h).2.2

/-- What the failed ticks leave of the drive. -/
theorem drive_failed {jc : JsonC} {failures : List WgetRun} (hne : failures ≠ [])
    (hfail : ∀ run ∈ failures, fetchCarCommand jc run = .failed) {s t : State}
    (hactive : s.drive.MotorsActive) (h : machine.Runs (ticks jc failures) s () t) :
    t.drive.duties = ⟨0, 0, 0, 0⟩ ∧ t.drive.servoNs = some (servoNs 90) ∧
      t.drive.lastCommand = stopCommand := by
  have hzero : stopCommand.duties = some ⟨0, 0, 0, 0⟩ := by decide
  have htick : ∀ v : Drive, v.MotorsActive → (v.tick .failed).MotorsActive ∧
      (v.tick .failed).duties = ⟨0, 0, 0, 0⟩ ∧ (v.tick .failed).servoNs = some (servoNs 90) ∧
      (v.tick .failed).lastCommand = stopCommand := by
    intro v hv
    unfold Drive.tick tickActions
    refine ⟨Drive.motorsActive_outcome _ hv, ?_, ?_, Drive.lastCommand_remember _ _ v⟩
    · rw [Drive.duties_remember, Drive.duties_execute, hzero, Option.elim_some]
      exact Drive.dutiesUpdated_of_active hv (by simp)
    · rw [Drive.servoNs_remember, Drive.servoNs_execute]
      rfl
  have hall : ∀ f ∈ failures.map (fetchCarCommand jc), f = .failed := by
    intro f hf
    obtain ⟨run, hrun, rfl⟩ := List.mem_map.mp hf
    exact hfail run hrun
  rw [ticks_drive h, ← List.dropLast_append_getLast (l := failures.map (fetchCarCommand jc))
    (by simpa using hne), List.foldl_append, List.foldl_cons, List.foldl_nil,
    hall _ (List.getLast_mem _)]
  refine (htick _ ?_).2
  generalize hfs : (failures.map (fetchCarCommand jc)).dropLast = fs
  generalize s.drive = v at hactive
  clear hfs
  induction fs generalizing v with
  | nil => exact hactive
  | cons f fs ih => exact ih _ (Drive.motorsActive_outcome _ hactive)

/-- After a failed tick, and after any number of further ones: the duties are 0, the LEDs are
low and no thread writes them again, not even during later failed ticks, the servo is at 90
degrees and `last_command` is `stop`. -/
theorem failed_poll_stops_car (jc : JsonC) (runs failures : List WgetRun)
    (hne : failures ≠ []) (hfail : ∀ run ∈ failures, fetchCarCommand jc run = .failed)
    (s t : State) (hs : machine.Runs (controller jc runs) boot () s)
    (hactive : s.drive.MotorsActive) (ht : machine.Runs (ticks jc failures) s () t) :
    t.drive.duties = ⟨0, 0, 0, 0⟩ ∧ t.drive.servoNs = some (servoNs 90) ∧
      t.lastCommand = stopCommand ∧
      (∀ pin ∈ ledPins, lastLevel pin t.log = some .low) ∧
      ∀ more, (∀ run ∈ more, fetchCarCommand jc run = .failed) → ∀ q u,
        machine.Steps (ticks jc more, t) (q, u) → ∀ pin ∈ ledPins,
          threadWrites pin u.log = threadWrites pin t.log := by
  have hdark := dark_failed hne hfail (idle_controller hs) ht
  obtain ⟨hduties, hservo, hlast⟩ := drive_failed hne hfail hactive ht
  refine ⟨hduties, hservo, hlast, fun pin hpin => ?_, fun more hmore q u hsteps pin hpin => ?_⟩
  · exact (hdark.2 pin (List.mem_reverse.mpr hpin)).2
  · exact threadWrites_failed hmore hdark.1 hsteps hpin

/-- The poll that follows `forwardRun` fails: `stop_all` joins the blink thread of pin 6. -/
theorem failed_poll_stops_car_turning :
    ∃ s t, machine.Runs (controller forwardJsonC [forwardRun]) boot () s ∧
      machine.Runs (ticks forwardJsonC [⟨true, [], 4⟩]) s () t ∧
      t.drive.duties = ⟨0, 0, 0, 0⟩ ∧ ∀ pin ∈ ledPins, lastLevel pin t.log = some .low := by
  obtain ⟨_, s, hs, htest⟩ := machine.play_runs (calmMoves 110)
    (controller forwardJsonC [forwardRun]) boot
    (fun _ s => decide s.drive.MotorsActive &&
      (machine.play (calmMoves 10 ++ List.replicate 5 (.inr (4, 0)) ++ calmMoves 40)
        (ticks forwardJsonC [⟨true, [], 4⟩]) s).any
        fun c => c.1.returned.any fun _ => true) (by decide +kernel)
  simp only [Bool.and_eq_true, decide_eq_true_eq] at htest
  obtain ⟨hactive, hplay⟩ := htest
  obtain ⟨_, t, ht, -⟩ := machine.play_runs _ _ _ (fun _ _ => true) hplay
  have hfail : ∀ run ∈ [(⟨true, [], 4⟩ : WgetRun)],
      fetchCarCommand forwardJsonC run = .failed := by
    simp [fetchCarCommand]
  have hresult := failed_poll_stops_car forwardJsonC [forwardRun] [⟨true, [], 4⟩] (by simp) hfail
    s t hs hactive ht
  exact ⟨s, t, hs, ht, hresult.1, hresult.2.2.2.1⟩

end EmbeddedCar.Gpio
