import EmbeddedCar.Gpio.PwmMap
import EmbeddedCar.Gpio.Stopping
import EmbeddedCar.Gpio.Tracking

/-!
# The motor pins

The H-bridge inputs belong to their soft-PWM slots: the controller writes them low or configures
them as outputs, and only the thread of an active slot writes them high. So a motor whose slot is
not active is left at a last write that is not high, whatever is commanded. `set_motor_frequency`,
which checks none of its calls, leaves all four motors like this for a frequency that is not
positive.
-/

namespace EmbeddedCar.Gpio

open EmbeddedCar.Concurrent EmbeddedCar.Reactive EmbeddedCar.Text Prog

/-! ### Programs made of calls -/

/-- The programs made of calls of the two families and of operations that leave the tables
alone. -/
inductive MadeOf (calls : PinCall → Prop) (ops : Op → Prop) {α : Type} : MainProg α → Prop where
  | ret (value : α) : MadeOf calls ops (.ret value)
  | op {o : Op} {next : o.Res → MainProg α} : leavesTables o → ops o →
      (∀ result, MadeOf calls ops (next result)) → MadeOf calls ops (.op o next)
  | call {c : PinCall} {f : Int → MainProg α} : calls c →
      (∀ value, MadeOf calls ops (f value)) → MadeOf calls ops (c.program >>= f)

namespace MadeOf

variable {α β : Type} {calls calls' : PinCall → Prop} {ops ops' : Op → Prop}

theorem bind {p : MainProg β} {f : β → MainProg α} (hp : MadeOf calls ops p)
    (hf : ∀ value, MadeOf calls ops (f value)) : MadeOf calls ops (p >>= f) := by
  induction hp with
  | ret value => exact hf value
  | op hleaves ho _ ih => exact .op hleaves ho ih
  | call hc _ ih =>
    rw [Prog.bind_assoc]
    exact .call hc ih

theorem of_call {c : PinCall} (hc : calls c) : MadeOf calls ops c.program := by
  rw [← Prog.bind_ret c.program]
  exact .call hc fun value => .ret value

theorem of_uses {p : MainProg α} (h : p.Uses fun o => leavesTables o ∧ ops o) :
    MadeOf calls ops p := by
  induction p with
  | ret value => exact .ret value
  | op o next ih => exact .op h.1.1 h.1.2 fun result => ih result (h.2 result)

theorem sequence {ps : List (MainProg Unit)} (h : ∀ p ∈ ps, MadeOf calls ops p) :
    MadeOf calls ops (Prog.sequence ps) := by
  induction ps with
  | nil => exact .ret ()
  | cons p ps ih =>
    refine bind (h p List.mem_cons_self) fun _ => ?_
    exact ih fun q hq => h q (List.mem_cons_of_mem _ hq)

/-- The running threads are minded. -/
theorem minds {p : MainProg α} (h : MadeOf calls ops p) :
    Minds (Watched none) p fun _ => Watched none := by
  induction h with
  | ret value => exact minds_ret (watched_stable none) fun _ h => h
  | op hleaves _ _ ih => exact minds_leaves (tabular_watched none) hleaves ih
  | call _ _ ih => exact Machine.contract_bind (minds_program _) ih

theorem uses {allowed : Op → Prop} {p : MainProg α} (h : MadeOf calls ops p)
    (hcalls : ∀ c, calls c → c.program.Uses allowed)
    (hops : ∀ o, leavesTables o → ops o → allowed o) : p.Uses allowed := by
  induction h with
  | ret value => trivial
  | op hleaves ho _ ih => exact ⟨hops _ hleaves ho, ih⟩
  | call hc _ ih => exact uses_bind (hcalls _ hc) ih

end MadeOf

/-- The table shows some map: the fields of its active slots are in range. -/
def Representable (pins : Nat → SoftPwm) : Prop := ∃ m, Represents m pins

/-- A program made of calls takes a table that shows a map to another. -/
theorem MadeOf.representable {α : Type} {calls : PinCall → Prop} {ops : Op → Prop}
    {p : MainProg α} (h : MadeOf calls ops p) :
    FromTable Representable p fun _ s => Representable s.softPwmPins := by
  induction h with
  | ret value => exact fromTable_ret _ fun _ hs => hs
  | op hleaves _ _ ih =>
    refine Machine.triple_op (fromTable_stable _) ?_ ih
    intro s result t hs h
    rw [(exec_leavesTables hleaves h).1]
    exact hs
  | @call c f _ _ ih =>
    refine Machine.triple_bind ?_ ih
    cases c with
    | softPwm call =>
      rintro s ⟨m, hm⟩
      refine Machine.wp_mono (fun _ h => h) ?_ (refines_call m call s hm)
      rintro value t ⟨m', -, hm'⟩
      exact ⟨m', hm'⟩
    | blink call =>
      -- the blink functions do not touch the soft-PWM table
      have hdrives : Drives call.program [] := by
        cases call with
        | start pin freq duration => exact drives_blinkStart pin freq duration
        | stop pin => exact drives_blinkStop pin
      intro s hs
      refine Machine.wp_mono (fun _ _ => trivial) ?_ (hdrives s.drive s rfl)
      intro value t ht
      have hpins : t.softPwmPins = s.softPwmPins := congrArg Drive.softPwm ht
      rw [hpins]
      exact hs

/-! ### The controller is made of calls -/

/-- The calls of a tick. -/
inductive TickCall : PinCall → Prop where
  | blinkStart {pin : Int} : pin ∈ ledPins → TickCall (.blink (.start pin 2 3))
  | blinkStop {pin : Int} : pin ∈ ledPins → TickCall (.blink (.stop pin))
  | updateDuty (pin dutyCycle : Int) : TickCall (.softPwm (.updateDuty pin dutyCycle))

/-- The calls of the whole controller. -/
inductive ControllerCall : PinCall → Prop where
  | tick {c : PinCall} : TickCall c → ControllerCall c
  | start (pin dutyCycle frequency : Int) :
      ControllerCall (.softPwm (.start pin dutyCycle frequency))
  | stop (pin : Int) : ControllerCall (.softPwm (.stop pin))

/-- The other operations of a tick set the servo and the LEDs. -/
def setsLeds : Op → Prop
  | .system (.gpioSet pin _) => pin ∈ ledPins
  | _ => True

/-- The other operations of the controller write only LEDs high. -/
def highOnLeds : Op → Prop
  | .system (.gpioSet pin setting) => setting = .dh → pin ∈ ledPins
  | _ => True

section

variable {calls : PinCall → Prop} {ops : Op → Prop}

theorem madeOf_mono {α : Type} {calls' : PinCall → Prop} {ops' : Op → Prop} {p : MainProg α}
    (hcalls : ∀ c, calls c → calls' c) (hops : ∀ o, ops o → ops' o) (h : MadeOf calls ops p) :
    MadeOf calls' ops' p := by
  induction h with
  | ret value => exact .ret value
  | op hleaves ho _ ih => exact .op hleaves (hops _ ho) ih
  | call hc _ ih => exact .call (hcalls _ hc) ih

theorem madeOf_updateDuties (left1 left2 right1 right2 : Int) :
    MadeOf TickCall ops (updateDuties left1 left2 right1 right2) := by
  have hcall : ∀ pin value, MadeOf TickCall ops (softPwmUpdateDuty pin value) := fun pin value =>
    .of_call (c := .softPwm (.updateDuty pin value)) (.updateDuty pin value)
  unfold updateDuties
  exact (hcall _ _).bind fun _ => (hcall _ _).bind fun _ => (hcall _ _).bind fun _ =>
    (hcall _ _).bind fun _ => .ret ()

theorem madeOf_led {pin : Int} (hpin : pin ∈ ledPins) (value : Level) :
    MadeOf TickCall setsLeds (digitalWrite pin value) := by
  cases value <;> exact .op trivial hpin fun _ => .ret _

theorem madeOf_stopAll : MadeOf TickCall setsLeds stopAll := by
  have hstop : ∀ pin ∈ ledPins, MadeOf TickCall setsLeds (blinkStop pin) := fun pin hpin =>
    .of_call (c := .blink (.stop pin)) (.blinkStop hpin)
  have hlow : ∀ pin ∈ ledPins, MadeOf TickCall setsLeds (digitalWrite pin .low) := fun pin hpin =>
    madeOf_led hpin .low
  unfold stopAll
  refine (hstop _ (by decide)).bind fun _ => (hstop _ (by decide)).bind fun _ => ?_
  refine (hstop _ (by decide)).bind fun _ => (hstop _ (by decide)).bind fun _ => ?_
  refine (hlow _ (by decide)).bind fun _ => (hlow _ (by decide)).bind fun _ => ?_
  refine (hlow _ (by decide)).bind fun _ => (hlow _ (by decide)).bind fun _ => ?_
  exact madeOf_updateDuties 0 0 0 0

theorem madeOf_pwmOp {α : Type} {p : MainProg α} (h : p.Uses pwmOp) :
    MadeOf calls setsLeds p := by
  apply MadeOf.of_uses
  refine uses_mono ?_ h
  intro o ho
  cases o with
  | system command =>
    cases command with
    | gpioSet pin setting => cases ho
    | _ => exact ⟨trivial, trivial⟩
  | _ => cases ho

theorem madeOf_executeCarCommand (cmd : CarCommand) :
    MadeOf TickCall setsLeds (executeCarCommand cmd) := by
  have hblink : ∀ pin ∈ ledPins, MadeOf TickCall setsLeds (blinkStart pin 2 3) := fun pin hpin =>
    .of_call (c := .blink (.start pin 2 3)) (.blinkStart hpin)
  have hlight : ∀ pin ∈ ledPins, MadeOf TickCall setsLeds (digitalWrite pin .high) :=
    fun pin hpin => madeOf_led hpin .high
  unfold executeCarCommand
  refine (madeOf_pwmOp (uses_setSteeringDirection_pwmOp _)).bind fun _ => ?_
  split
  · split
    · exact (hblink _ (by decide)).bind fun _ => (hblink _ (by decide)).bind fun _ =>
        madeOf_updateDuties _ _ _ _
    split
    · exact (hblink _ (by decide)).bind fun _ => (hblink _ (by decide)).bind fun _ =>
        madeOf_updateDuties _ _ _ _
    · exact (hlight _ (by decide)).bind fun _ => (hlight _ (by decide)).bind fun _ =>
        madeOf_updateDuties _ _ _ _
  split
  · split
    · exact (hblink _ (by decide)).bind fun _ => (hblink _ (by decide)).bind fun _ =>
        madeOf_updateDuties _ _ _ _
    split
    · exact (hblink _ (by decide)).bind fun _ => (hblink _ (by decide)).bind fun _ =>
        madeOf_updateDuties _ _ _ _
    · exact (hlight _ (by decide)).bind fun _ => (hlight _ (by decide)).bind fun _ =>
        madeOf_updateDuties _ _ _ _
  split
  · exact (hblink _ (by decide)).bind fun _ => (hblink _ (by decide)).bind fun _ => .ret ()
  split
  · exact (hblink _ (by decide)).bind fun _ => (hblink _ (by decide)).bind fun _ => .ret ()
  · exact madeOf_stopAll

theorem madeOf_timerCallback (jc : JsonC) (run : WgetRun) :
    MadeOf TickCall setsLeds (timerCallback jc run) := by
  have hexecute : ∀ cmd, MadeOf TickCall setsLeds
      (do executeCarCommand cmd; exec (.storeLastCommand cmd)) := fun cmd =>
    (madeOf_executeCarCommand cmd).bind fun _ => .op trivial trivial fun _ => .ret ()
  unfold timerCallback
  split
  · simp only [Prog.call_bind]
    refine .op trivial trivial fun last => ?_
    split
    · exact hexecute _
    · exact .ret ()
  · exact hexecute stopCommand
  · exact .op trivial trivial fun _ => .ret ()

theorem madeOf_ticks (jc : JsonC) (runs : List WgetRun) :
    MadeOf TickCall setsLeds (ticks jc runs) := by
  refine MadeOf.sequence fun p hp => ?_
  obtain ⟨run, -, rfl⟩ := List.mem_map.mp hp
  exact madeOf_timerCallback jc run

theorem madeOf_pinMode (pin : Int) (mode : Mode) : MadeOf calls highOnLeds (pinMode pin mode) := by
  cases mode <;> exact .op trivial nofun fun _ => .ret _

theorem madeOf_low (pin : Int) : MadeOf calls highOnLeds (digitalWrite pin .low) :=
  .op trivial nofun fun _ => .ret _

theorem madeOf_servoInit (pin : Int) : MadeOf calls highOnLeds (servoInit pin) := by
  have hservo : ∀ {α : Type} {p : MainProg α}, p.Uses pwmOp → MadeOf calls highOnLeds p := by
    intro α p h
    refine madeOf_mono (fun _ h => h) ?_ (madeOf_pwmOp h)
    intro o ho
    cases o with
    | system command =>
      cases command with
      | gpioSet pin setting => exact fun _ => ho
      | _ => trivial
    | _ => trivial
  unfold servoInit
  split
  · exact .ret _
  refine (madeOf_pinMode _ _).bind fun status => ?_
  split
  · exact .ret _
  refine MadeOf.bind (hservo ?_) fun status => ?_
  · unfold pwmSetFrequency Prog.when
    rw [if_neg (by decide)]
    exact ⟨trivial, fun _ => ⟨trivial, fun _ => ⟨trivial, fun _ => trivial⟩⟩⟩
  split
  · exact .ret _
  · exact (hservo (uses_servoWrite _ _)).bind fun _ => .ret _

theorem madeOf_initGpioPins : MadeOf ControllerCall highOnLeds initGpioPins := by
  have hstart : ∀ pin, MadeOf ControllerCall highOnLeds (softPwmStart pin 0 500) := fun pin =>
    .of_call (c := .softPwm (.start pin 0 500)) (.start pin 0 500)
  unfold initGpioPins
  iterate 8 refine (madeOf_pinMode _ _).bind fun _ => ?_
  refine (madeOf_servoInit _).bind fun _ => ?_
  iterate 4 refine (madeOf_low _).bind fun _ => ?_
  iterate 4 refine (hstart _).bind fun _ => ?_
  exact .ret ()

theorem madeOf_setMotorFrequency (freq : Int) :
    MadeOf ControllerCall highOnLeds (setMotorFrequency freq) := by
  have hstop : ∀ pin, MadeOf ControllerCall highOnLeds (softPwmStop pin) := fun pin =>
    .of_call (c := .softPwm (.stop pin)) (.stop pin)
  have hstart : ∀ pin, MadeOf ControllerCall highOnLeds (softPwmStart pin 0 freq) := fun pin =>
    .of_call (c := .softPwm (.start pin 0 freq)) (.start pin 0 freq)
  unfold setMotorFrequency
  iterate 4 refine (hstop _).bind fun _ => ?_
  iterate 4 refine (hstart _).bind fun _ => ?_
  exact .ret ()

end

/-! ### A motor pin belongs to its slot -/

/-- The operations that write pin `i` low at most and start no blink thread on it. -/
def ownsMotor (i : Nat) : Op → Prop
  | .system (.gpioSet pin setting) => setting = .dh → pin ≠ i
  | .createBlink j => j ≠ i
  | _ => True

/-- The operations that do nothing to pin `i` while its slot is not active. -/
def sparesMotor (i : Nat) : Op → Prop
  | .system (.gpioSet pin _) => pin ≠ i
  | .storeSoftPwm _ field _ => field = .dutyCycle
  | .createSoftPwm _ => False
  | .createBlink j => j ≠ i
  | _ => True

/-- Only a thread of its slot writes pin `i` high, and it writes it low before it ends. -/
structure MotorOwned (i : Nat) (s : State) : Prop where
  pins : PinsNamed s
  unused : Unused (.blink i) s
  low : Resting (.softPwm i) s → lastLevel i s.log ≠ some .high

/-- Since the log was `before`, pin `i` has not been written, and its slot is not active. -/
structure Unmoved (i : Nat) (before : List LogEntry) (s : State) : Prop where
  owned : MotorOwned i s
  inactive : (s.softPwmPins i).active = 0
  resting : Resting (.softPwm i) s
  log : ∃ new, s.log = new ++ before ∧ ∀ e ∈ new, e.call.writes i = false

section

variable {i : Nat} {before : List LogEntry} {s t : State}

/-- An entry on a pin comes from a thread of one of its two slots. -/
theorem slot_of_entry (hs : PinsNamed s) (hunused : Unused (.blink i) s) {e : LogEntry}
    (he : EntryOf s e) (hwrites : e.call.writes i = true) : ∃ tid, s.Live (.softPwm i) tid := by
  obtain ⟨tid, c, -, hlive, hpin⟩ := he
  obtain ⟨setting, status, hcall⟩ := writes_iff.mp hwrites
  have hindex : c.index = i := by
    have hname := hs c tid hlive
    have hentry := hpin _ _ _ hcall
    omega
  cases c with
  | softPwm j =>
    cases hindex
    exact ⟨tid, hlive⟩
  | blink j =>
    cases hindex
    exact absurd hlive (resting_of_unused hunused tid)

/-- The last write of a thread that ends is low. -/
theorem low_of_ended (hs : PinsNamed s) (henv : machine.Env s t) {tid : Nat}
    (hlive : s.Live (.softPwm i) tid) (hended : ¬ t.Live (.softPwm i) tid) :
    lastLevel i t.log = some .low := by
  have hpin := hs (.softPwm i) tid hlive
  obtain ⟨w, hw, hslot, hfinished⟩ := hlive
  obtain ⟨turn, status, w', task, e, hw', hadvance, rfl⟩ := env_iff.mp henv
  have hlen : tid < s.workers.length := (List.getElem?_eq_some_iff.mp hw).1
  by_cases hsame : turn = tid
  · subst hsame
    obtain rfl : w' = w := Option.some.inj (hw'.symm.trans hw)
    obtain ⟨taskOf, joined⟩ := w'
    cases taskOf with
    | blink j pc => cases hslot
    | softPwm j pc =>
      cases hslot
      obtain ⟨pc', rfl, hthread⟩ := advance_softPwm hadvance
      have hpc' : pc' = .finished := by
        by_contra hne
        exact hended ⟨_, List.getElem?_set_self hlen, rfl, decide_eq_false hne⟩
      subst hpc'
      have heffect : e = .system (digitalWriteCommand (s.softPwmPins i).pin .low) := by
        unfold softPwmThread at hthread
        split at hthread <;> (try split at hthread) <;> cases hthread
        rfl
      subst heffect
      change lastLevel _ (⟨some turn, .system (digitalWriteCommand (s.softPwmPins i).pin .low)
        status⟩ :: s.log) = _
      rw [lastLevel_digitalWrite]
      exact if_pos hpin
  · exact absurd ⟨w, (List.getElem?_set_ne hsame).trans hw, hslot, hfinished⟩ hended

theorem motorOwned_stable (i : Nat) : machine.Stable (MotorOwned i) := by
  intro s t hs henv
  refine ⟨?_, (tabular_unused _).stable s t hs.unused henv, fun hresting => ?_⟩
  · intro c tid ht
    rw [pinOf_env henv]
    exact hs.pins c tid (live_env henv ht)
  · by_cases hbefore : Resting (.softPwm i) s
    · rcases log_env henv with hsame | ⟨e, hlog, hentry⟩
      · rw [hsame]
        exact hs.low hbefore
      · have hnone : e.call.writes i ≠ true := by
          intro hwrites
          obtain ⟨tid, hlive⟩ := slot_of_entry hs.pins hs.unused hentry hwrites
          exact hbefore tid hlive
        rw [hlog, lastLevel_cons_of_not_writes hnone]
        exact hs.low hbefore
    · obtain ⟨tid, hlive⟩ := not_forall_not.mp hbefore
      rw [low_of_ended hs.pins henv hlive (hresting tid)]
      exact nofun

/-- An operation that does not write a pin high leaves its level or writes it low. -/
theorem lastLevel_exec {o : Op} {r : o.Res} (ho : ownsMotor i o) (h : machine.Exec o s r t)
    (hs : lastLevel i s.log ≠ some .high) : lastLevel i t.log ≠ some .high := by
  rw [exec_log h]
  cases o with
  | system command =>
    cases command with
    | gpioSet pin setting =>
      change lastLevel i (⟨none, .system (.gpioSet pin setting) r⟩ :: s.log) ≠ _
      cases setting with
      | dl =>
        simp only [lastLevel]
        split
        · exact nofun
        · exact hs
      | dh =>
        simp only [lastLevel]
        rw [if_neg (ho rfl)]
        exact hs
      | _ => exact hs
    | _ => exact hs
  | _ => exact hs

theorem motorOwned_exec {o : Op} {r : o.Res} (hs : MotorOwned i s) (ho : ownsMotor i o)
    (hminds : minds o s) (h : machine.Exec o s r t) : MotorOwned i t := by
  refine ⟨pinsNamed_exec hs.pins hminds h, unused_exec ?_ hs.unused h, fun hresting => ?_⟩
  · cases o with
    | createBlink j =>
      intro hcreates
      cases hcreates
      exact ho rfl
    | createSoftPwm j => exact nofun
    | _ => exact nofun
  · refine lastLevel_exec ho h (hs.low ?_)
    rintro tid ⟨w, hw, hslot, hfinished⟩
    obtain ⟨w', hw', htask⟩ := exec_task h hw
    exact hresting tid ⟨w', hw', htask ▸ hslot, htask ▸ hfinished⟩

theorem motorOwned_boot (i : Nat) : MotorOwned i boot := by
  refine ⟨?_, ?_, fun _ => nofun⟩
  · rintro c tid ⟨w, hw, -⟩
    cases hw
  · intro tid w hw
    cases hw

theorem unmoved_stable (i : Nat) (before : List LogEntry) : machine.Stable (Unmoved i before) := by
  intro s t hs henv
  refine ⟨motorOwned_stable i s t hs.owned henv, ?_, resting_stable _ s t hs.resting henv, ?_⟩
  · rw [env_softPwmPins henv]
    exact hs.inactive
  · obtain ⟨new, hlog, hnew⟩ := hs.log
    rcases log_env henv with hsame | ⟨e, heq, hentry⟩
    · exact ⟨new, hsame.trans hlog, hnew⟩
    · refine ⟨e :: new, by rw [heq, hlog]; rfl, ?_⟩
      refine List.forall_mem_cons.mpr ⟨?_, hnew⟩
      by_contra hwrites
      obtain ⟨tid, hlive⟩ := slot_of_entry hs.owned.pins hs.owned.unused hentry
        (Bool.eq_true_of_not_eq_false hwrites)
      exact hs.resting tid hlive

theorem ownsMotor_of_sparesMotor {o : Op} (ho : sparesMotor i o) : ownsMotor i o := by
  cases o with
  | system command =>
    cases command with
    | gpioSet pin setting => exact fun _ => ho
    | _ => trivial
  | createBlink j => exact ho
  | _ => trivial

theorem unmoved_exec {o : Op} {r : o.Res} (hs : Unmoved i before s) (ho : sparesMotor i o)
    (hminds : minds o s) (h : machine.Exec o s r t) : Unmoved i before t := by
  refine ⟨motorOwned_exec hs.owned (ownsMotor_of_sparesMotor ho) hminds h, ?_, ?_, ?_⟩
  · have hinactive := hs.inactive
    cases o with
    | storeSoftPwm j field value =>
      obtain rfl : field = .dutyCycle := ho
      rw [exec_storeSoftPwm h]
      by_cases hj : i = j
      · subst hj
        simpa [State.setSoftPwm, SoftPwm.set] using hinactive
      · simpa [State.setSoftPwm, hj] using hinactive
    | createSoftPwm j => cases ho
    | joinSoftPwm j =>
      obtain ⟨w, -, -, -, rfl⟩ := join_some (exec_joinSoftPwm h)
      exact hinactive
    | joinBlink j =>
      obtain ⟨w, -, -, -, rfl⟩ := join_some (exec_joinBlink h)
      exact hinactive
    | storeBlink j field value =>
      rw [exec_storeBlink h]
      exact hinactive
    | createBlink j =>
      rcases exec_createBlink h with ⟨-, rfl⟩ | ⟨-, rfl⟩
      · exact hinactive
      · exact hinactive
    | _ =>
      rw [(exec_leavesTables (by trivial) h).1]
      exact hinactive
  · intro tid ht
    rcases live_exec h ht with hlive | ⟨-, hcreates⟩
    · exact hs.resting tid hlive
    · cases o with
      | createSoftPwm j => cases ho
      | createBlink j => cases hcreates
      | _ => cases hcreates
  · obtain ⟨new, hlog, hnew⟩ := hs.log
    refine ⟨o.calls r ++ new, by rw [exec_log h, hlog, List.append_assoc], ?_⟩
    intro e he
    rcases List.mem_append.mp he with hcalls | hold
    · cases o with
      | system command =>
        rw [List.mem_singleton.mp hcalls]
        cases command with
        | gpioSet pin setting => exact decide_eq_false ho
        | _ => rfl
      | usleep us =>
        rw [List.mem_singleton.mp hcalls]
        rfl
      | _ => cases hcalls
    · exact hnew e hold

end

/-! ### What the controller does to a motor pin -/

/-- A motor pin is no LED. -/
theorem led_ne_motor {i : Nat} (hi : (i : Int) ∈ motorPins) {pin : Int} (hpin : pin ∈ ledPins) :
    pin ≠ i := by
  rintro rfl
  have hdisjoint : ∀ pin ∈ ledPins, pin ∉ motorPins := by decide
  exact hdisjoint _ hpin hi

section

variable {i : Nat}

theorem uses_tickCall (hi : (i : Int) ∈ motorPins) {c : PinCall} (hc : TickCall c) :
    c.program.Uses (sparesMotor i) := by
  have hset : ∀ {pin}, pin ∈ ledPins → ∀ setting, sparesMotor i (.system (.gpioSet pin setting)) :=
    fun hpin _ => led_ne_motor hi hpin
  cases hc with
  | @blinkStart pin hpin =>
    apply uses_blinkStart
    · refine fun hrange =>
        ⟨⟨trivial, trivial, trivial, trivial, trivial⟩, trivial, trivial, trivial, trivial, ?_⟩
      have hne := led_ne_motor hi hpin
      change pin.toNat ≠ i
      omega
    · exact hset hpin
  | blinkStop hpin =>
    apply uses_blinkStop
    · exact fun _ => ⟨trivial, trivial, trivial, trivial, trivial⟩
    · exact hset hpin
  | updateDuty pin dutyCycle =>
    refine uses_mono ?_ (uses_softPwmUpdateDuty pin dutyCycle)
    intro o ho
    cases o with
    | storeSoftPwm j field value => exact ho
    | system command => cases ho
    | createSoftPwm j => cases ho
    | createBlink j => cases ho
    | _ => trivial

theorem ownsMotor_pinMode (pin : Int) : (pinMode pin .output).Uses (ownsMotor i) :=
  ⟨nofun, fun _ => trivial⟩

theorem uses_controllerCall (hi : (i : Int) ∈ motorPins) {c : PinCall} (hc : ControllerCall c) :
    c.program.Uses (ownsMotor i) := by
  cases hc with
  | tick hc => exact uses_mono (fun _ => ownsMotor_of_sparesMotor) (uses_tickCall hi hc)
  | start pin dutyCycle frequency =>
    change (softPwmStart pin dutyCycle frequency).Uses _
    unfold softPwmStart
    split
    · trivial
    split
    · trivial
    split
    · trivial
    simp only [call_bind]
    refine ⟨trivial, fun _ => ⟨trivial, fun active => uses_bind ?_ fun _ => ?_⟩⟩
    · unfold Prog.when
      split
      · exact ⟨trivial, fun _ => ⟨trivial, fun _ => trivial⟩⟩
      · trivial
    · refine ⟨trivial, fun _ => ⟨trivial, fun _ => ⟨trivial, fun _ => ⟨trivial, fun _ => ?_⟩⟩⟩⟩
      refine uses_bind (ownsMotor_pinMode _) fun _ => ⟨trivial, fun result => ?_⟩
      beta_reduce
      split
      · exact ⟨trivial, fun _ => ⟨trivial, fun _ => trivial⟩⟩
      · exact ⟨trivial, fun _ => trivial⟩
  | stop pin =>
    change (softPwmStop pin).Uses _
    unfold softPwmStop
    split
    · trivial
    simp only [call_bind]
    refine ⟨trivial, fun _ => ⟨trivial, fun active => ?_⟩⟩
    beta_reduce
    split
    · exact ⟨trivial, fun _ => trivial⟩
    · refine ⟨trivial, fun _ => ⟨trivial, fun _ => ?_⟩⟩
      have hlow : PinSetting.dl ≠ .dh := by decide
      exact uses_bind ⟨fun hdl => absurd hdl hlow, fun _ => trivial⟩ fun _ =>
        ⟨trivial, fun _ => trivial⟩

theorem uses_ticks_sparesMotor (hi : (i : Int) ∈ motorPins) (jc : JsonC) (runs : List WgetRun) :
    (ticks jc runs).Uses (sparesMotor i) := by
  refine (madeOf_ticks jc runs).uses (fun _ => uses_tickCall hi) ?_
  intro o hleaves ho
  cases o with
  | system command =>
    cases command with
    | gpioSet pin setting => exact led_ne_motor hi ho
    | _ => trivial
  | storeSoftPwm j field value => cases hleaves
  | createSoftPwm j => cases hleaves
  | createBlink j => cases hleaves
  | _ => trivial

theorem uses_controller (hi : (i : Int) ∈ motorPins) {p : MainProg Unit}
    (hp : MadeOf ControllerCall highOnLeds p) : p.Uses (ownsMotor i) := by
  refine hp.uses (fun _ => uses_controllerCall hi) ?_
  intro o hleaves ho
  cases o with
  | system command =>
    cases command with
    | gpioSet pin setting => exact fun hhigh => led_ne_motor hi (ho hhigh)
    | _ => trivial
  | createBlink j => cases hleaves
  | _ => trivial

end

/-! ### `set_motor_frequency` -/

/-- What a controller does once its pins are initialised. -/
inductive ControllerStep where
  | tick (run : WgetRun)
  | motorFrequency (freq : Int)

def ControllerStep.program (jc : JsonC) : ControllerStep → MainProg Unit
  | .tick run => timerCallback jc run
  | .motorFrequency freq => setMotorFrequency freq

/-- The initialisation and the steps after it. -/
def controllerSteps (jc : JsonC) (steps : List ControllerStep) : MainProg Unit := do
  initGpioPins
  Prog.sequence (steps.map (ControllerStep.program jc))

theorem madeOf_controllerSteps (jc : JsonC) (steps : List ControllerStep) :
    MadeOf ControllerCall highOnLeds (controllerSteps jc steps) := by
  refine madeOf_initGpioPins.bind fun _ => MadeOf.sequence fun p hp => ?_
  obtain ⟨step, -, rfl⟩ := List.mem_map.mp hp
  cases step with
  | tick run =>
    refine madeOf_mono (fun _ => .tick) ?_ (madeOf_timerCallback jc run)
    intro o ho
    cases o with
    | system command =>
      cases command with
      | gpioSet pin setting => exact fun _ => ho
      | _ => trivial
    | _ => trivial
  | motorFrequency freq => exact madeOf_setMotorFrequency freq

/-- A pin that is stopped and then started, as the map sees it. -/
theorem path_restart {m m' : PwmMap} {path : List (SoftPwmCall × Int)}
    (h : Path PwmMap.Step m path m') {first second third : List SoftPwmCall}
    {pin dutyCycle frequency : Int} (hpin : 0 ≤ pin ∧ pin ≤ 27)
    (hcalls : path.map Prod.fst =
      first ++ .stop pin :: (second ++ .start pin dutyCycle frequency :: third))
    (hsecond : ∀ call ∈ second, call.pin ≠ pin) (hthird : ∀ call ∈ third, call.pin ≠ pin) :
    m' pin.toNat = none ∨
      ∃ setting, m' pin.toNat = some setting ∧ setting.dutyCycle = dutyCycle ∧
        setting.frequency = frequency := by
  have hother : ∀ {m m' : PwmMap} {path : List (SoftPwmCall × Int)} {calls : List SoftPwmCall},
      Path PwmMap.Step m path m' → path.map Prod.fst = calls →
      (∀ call ∈ calls, call.pin ≠ pin) → m' pin.toNat = m pin.toNat := by
    intro m m' path calls hpath hmap hcalls
    refine PwmMap.path_other hpath fun p hp => ?_
    have hne := hcalls p.1 (hmap ▸ List.mem_map_of_mem hp)
    omega
  obtain ⟨path₁, rest, rfl, -, hrest⟩ := List.map_eq_append_iff.mp hcalls
  obtain ⟨⟨call, value⟩, rest, rfl, hstop, hrest⟩ := List.map_eq_cons_iff.mp hrest
  obtain ⟨path₂, rest, rfl, hpath₂, hrest⟩ := List.map_eq_append_iff.mp hrest
  obtain ⟨⟨call', value'⟩, path₃, rfl, hstart, hpath₃⟩ := List.map_eq_cons_iff.mp hrest
  obtain ⟨m₁, -, h⟩ := path_append.mp h
  cases h with
  | @cons _ m₂ _ _ _ hstep h =>
    obtain ⟨m₃, h₂, h⟩ := path_append.mp h
    cases h with
    | @cons _ m₄ _ _ _ hstep' h₃ =>
      rw [hother h₃ hpath₃ hthird]
      have hstopped : m₃ pin.toNat = none := by
        rw [hother h₂ hpath₂ hsecond]
        obtain rfl : call = .stop pin := hstop
        cases hstep with
        | rejected hrange => exact absurd hpin hrange
        | stopped => exact Function.update_self _ _ _
        | notStopped _ hnone => exact hnone
      obtain rfl : call' = .start pin dutyCycle frequency := hstart
      cases hstep' with
      | rejected => exact .inl hstopped
      | started setting => exact .inr ⟨setting, Function.update_self _ _ _, rfl, rfl⟩
      | notStarted => exact .inl (Function.update_self _ _ _)

/-- The calls of `set_motor_frequency`. -/
def frequencyCalls (freq : Int) : List SoftPwmCall :=
  motorPins.map .stop ++ motorPins.map fun pin => .start pin 0 freq

theorem setMotorFrequency_eq (freq : Int) :
    setMotorFrequency freq =
      Prog.results SoftPwmCall.program (frequencyCalls freq) >>= fun _ => .ret () := by
  simp only [frequencyCalls, motorPins, List.map_cons, List.map_nil, List.cons_append,
    List.nil_append, Prog.results, Prog.bind_assoc, Prog.pure_eq, Prog.ret_bind]
  rfl

/-- A motor slot that has been restarted, or could not be. -/
def Restarted (freq : Int) (slot : SoftPwm) : Prop :=
  slot.active = 0 ∨
    slot.active ≠ 0 ∧ 0 < freq ∧ slot.dutyCycle = 0 ∧ slot.frequency = freq

/-- Every motor is stopped, and started later; no other call in between or after names it. -/
theorem frequencyCalls_split (freq : Int) {pin : Int} (hpin : pin ∈ motorPins) :
    ∃ first second third,
      frequencyCalls freq = first ++ .stop pin :: (second ++ .start pin 0 freq :: third) ∧
      (∀ call ∈ second, call.pin ≠ pin) ∧ ∀ call ∈ third, call.pin ≠ pin := by
  obtain ⟨before, after, hsplit⟩ := List.append_of_mem hpin
  have hnodup : (before ++ pin :: after).Nodup := by
    rw [← hsplit]
    decide
  have hne : ∀ other, other ∈ before ∨ other ∈ after → other ≠ pin := by
    rintro other hother rfl
    simp only [List.nodup_append, List.nodup_cons, List.mem_cons] at hnodup
    rcases hother with hbefore | hafter
    · exact hnodup.2.2 _ hbefore _ (.inl rfl) rfl
    · exact hnodup.2.1.1 hafter
  refine ⟨before.map .stop, after.map .stop ++ before.map fun pin => .start pin 0 freq,
    after.map fun pin => .start pin 0 freq, ?_, ?_, ?_⟩
  · simp [frequencyCalls, hsplit]
  · intro call hcall
    rcases List.mem_append.mp hcall with hstop | hstart
    · obtain ⟨other, hother, rfl⟩ := List.mem_map.mp hstop
      exact hne other (.inr hother)
    · obtain ⟨other, hother, rfl⟩ := List.mem_map.mp hstart
      exact hne other (.inl hother)
  · intro call hcall
    obtain ⟨other, hother, rfl⟩ := List.mem_map.mp hcall
    exact hne other (.inr hother)

theorem fromTable_setMotorFrequency (freq : Int) :
    FromTable Representable (setMotorFrequency freq) fun _ s =>
      ∀ pin ∈ motorPins, Restarted freq (s.softPwmPins pin.toNat) := by
  rw [setMotorFrequency_eq]
  rintro s ⟨m, hm⟩
  refine Machine.triple_bind (refines_calls (frequencyCalls freq) m) (fun values => ?_) s hm
  have hplayed : machine.Stable (Played m (frequencyCalls freq) values) :=
    Machine.simulated_stable fun m => fromTable_stable (Represents m)
  refine Machine.triple_ret hplayed ?_
  rintro t ⟨hlength, m', hpath, ht⟩ pin hpin
  have hrange : ∀ pin ∈ motorPins, 0 ≤ pin ∧ pin ≤ 27 := by decide
  have hmap : ((frequencyCalls freq).zip values).map Prod.fst = frequencyCalls freq :=
    List.map_fst_zip hlength.ge
  obtain ⟨first, second, third, hsplit, hsecond, hthird⟩ := frequencyCalls_split freq hpin
  have hshown := ht pin.toNat
  rcases path_restart hpath (hrange pin hpin) (hmap.trans hsplit) hsecond hthird with
    hnone | ⟨setting, hsome, hduty, hfrequency⟩
  · rw [hnone] at hshown
    exact .inl hshown
  · rw [hsome] at hshown
    exact .inr ⟨hshown.1, hfrequency ▸ setting.positive, hshown.2.1.trans hduty,
      hshown.2.2.trans hfrequency⟩

/-! ### A motor whose slot is not active -/

/-- A state between two functions of the controller. -/
structure Managed (s : State) : Prop where
  authored : Authored s
  watched : Watched none s
  owned : ∀ i : Nat, (i : Int) ∈ motorPins → MotorOwned i s
  representable : Representable s.softPwmPins

theorem managed_boot : Managed boot :=
  ⟨authored_boot, watched_boot, fun i _ => motorOwned_boot i, _, represents_boot⟩

theorem managed_runs {p : MainProg Unit} (hp : MadeOf ControllerCall highOnLeds p) {s t : State}
    {value : Unit} (hs : Managed s) (h : machine.Runs p s value t) : Managed t := by
  obtain ⟨hunder, hauthored⟩ := authored_steps hs.authored h
  refine ⟨hauthored, Machine.contract_runs (Q := fun _ => Watched none) hp.minds hs.watched hunder,
    fun i hi => ?_, ?_⟩
  · exact Machine.contract_invariant (motorOwned_stable i)
      (fun o s r t hs hdemand h => motorOwned_exec hs hdemand.1 hdemand.2 h)
      (Machine.contract_uses_demand hp.minds (uses_controller hi hp)) hs.watched (hs.owned i hi)
      hunder
  · exact Machine.wp_runs (Q := fun _ s => Representable s.softPwmPins)
      (hp.representable s hs.representable) h

/-- During any ticks a motor whose slot is not active is still. -/
theorem still_ticks {s u : State} (hs : Managed s) {i : Nat} (hi : (i : Int) ∈ motorPins)
    (hinactive : (s.softPwmPins i).active = 0) {jc : JsonC} {runs : List WgetRun}
    {q : MainProg Unit} (h : machine.Steps (ticks jc runs, s) (q, u)) :
    lastLevel i s.log ≠ some .high ∧ Unmoved i s.log u := by
  have hresting : Resting (.softPwm i) s := fun tid hlive =>
    hs.watched.active _ tid hlive nofun hinactive
  have hstill : Unmoved i s.log s :=
    ⟨hs.owned i hi, hinactive, hresting, [], rfl, fun e he => by cases he⟩
  refine ⟨(hs.owned i hi).low hresting, ?_⟩
  exact Machine.contract_invariant (unmoved_stable i s.log)
    (fun o s r t hs hdemand h => unmoved_exec hs hdemand.1 hdemand.2 h)
    (Machine.contract_uses_demand (madeOf_ticks jc runs).minds (uses_ticks_sparesMotor hi jc runs))
    hs.watched hstill (authored_steps hs.authored h).1

/-- After any run of the controller, `set_motor_frequency` leaves every motor either started anew,
with duty 0 and a frequency that is positive, or with a slot that is not active; all of them are
of the second kind for a frequency that is not positive. No later command drives a motor of the
second kind: its pin was not last written high, whether or not that write got through, and during
any further ticks it is not written. -/
theorem motors_after_frequency (jc : JsonC) (steps : List ControllerStep) (freq : Int)
    (runs : List WgetRun) (s t u : State) (q : MainProg Unit)
    (hsteps : machine.Runs (controllerSteps jc steps) boot () s)
    (hset : machine.Runs (setMotorFrequency freq) s () t)
    (hticks : machine.Steps (ticks jc runs, t) (q, u)) (pin : Int) (hpin : pin ∈ motorPins) :
    let slot := t.softPwmPins pin.toNat
    (slot.active ≠ 0 ∧ 0 < freq ∧ slot.dutyCycle = 0 ∧ slot.frequency = freq) ∨
      (slot.active = 0 ∧ lastLevel pin t.log ≠ some .high ∧
        (u.softPwmPins pin.toNat).active = 0 ∧
        ∃ new, u.log = new ++ t.log ∧ ∀ e ∈ new, e.call.writes pin = false) := by
  have hmanaged := managed_runs (madeOf_controllerSteps jc steps) managed_boot hsteps
  have hafter := managed_runs (madeOf_setMotorFrequency freq) hmanaged hset
  have hrestarted := Machine.wp_runs
    (Q := fun _ s => ∀ pin ∈ motorPins, Restarted freq (s.softPwmPins pin.toNat))
    (fromTable_setMotorFrequency freq s hmanaged.representable) hset pin hpin
  have hnat : (pin.toNat : Int) = pin := by
    have hnonneg : ∀ pin ∈ motorPins, (pin.toNat : Int) = pin := by decide
    exact hnonneg pin hpin
  intro slot
  rcases hrestarted with hinactive | hactive
  · obtain ⟨hlow, hstill⟩ := still_ticks hafter (hnat.symm ▸ hpin) hinactive hticks
    rw [hnat] at hlow
    refine .inr ⟨hinactive, hlow, hstill.inactive, ?_⟩
    obtain ⟨new, hlog, hnew⟩ := hstill.log
    rw [hnat] at hnew
    exact ⟨new, hlog, hnew⟩
  · exact .inl hactive

/-- The frequency 0, and then the command to drive forward. -/
theorem motors_after_frequency_zero :
    ∃ t u, machine.Runs (ticks forwardJsonC [forwardRun]) t () u ∧
      ∀ pin ∈ motorPins, (t.softPwmPins pin.toNat).active = 0 ∧
        ∃ new, u.log = new ++ t.log ∧ ∀ e ∈ new, e.call.writes pin = false := by
  obtain ⟨_, t, hruns, htest⟩ := machine.play_runs
    (calmMoves 56 ++ [0, 1, 2, 3].flatMap (fun tid =>
      calmMoves 3 ++ List.replicate 2 (.inr (tid, 0)) ++ calmMoves 3))
    (controllerSteps forwardJsonC [] >>= fun _ => setMotorFrequency 0) boot
    (fun _ s => (machine.play (calmMoves 40) (ticks forwardJsonC [forwardRun]) s).any
      fun c => c.1.returned.any fun _ => true) (by decide +kernel)
  obtain ⟨_, u, hticks, -⟩ := machine.play_runs _ _ _ (fun _ _ => true) htest
  obtain ⟨_, s, hsteps, hset⟩ := Machine.runs_bind hruns
  refine ⟨t, u, hticks, fun pin hpin => ?_⟩
  rcases motors_after_frequency forwardJsonC [] 0 [forwardRun] s t u _ hsteps hset hticks pin
    hpin with ⟨-, hpositive, -⟩ | ⟨hinactive, -, -, hlog⟩
  · exact absurd hpositive (by decide)
  · exact ⟨hinactive, hlog⟩

end EmbeddedCar.Gpio
