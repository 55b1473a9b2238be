import EmbeddedCar.Gpio.Deadlock
import EmbeddedCar.Gpio.MotorFrequency
import EmbeddedCar.Gpio.PwmDoubles

/-!
# The controller in doubles

The frequencies of the controller divide ten thousand, so every time that one of its soft-PWM
threads computes is a whole number of microseconds, and the doubles of the source are exact. The
machine whose threads compute in doubles has the runs of the one whose threads compute in
rationals.
-/

namespace EmbeddedCar.Gpio

open EmbeddedCar.Concurrent EmbeddedCar.Text Prog

/-! ### The machine in doubles -/

namespace State

/-- One step of a task, with the doubles of `soft_pwm_thread`. -/
def advanceDouble (s : State) : Task → Option (Task × ThreadEffect)
  | .blink i pc => (blinkThread (s.blinkPins i) pc).map fun (pc', e) => (.blink i pc', e)
  | .softPwm i pc =>
      (softPwmThreadDouble (s.softPwmPins i) pc).map fun (pc', e) => (.softPwm i pc', e)

/-- One step of thread `tid`. -/
def turnDouble (s : State) (tid : Nat) (status : Int) : Option State :=
  match s.workers[tid]? with
  | none => none
  | some w =>
      match s.advanceDouble w.task with
      | none => none
      | some (task, e) =>
          some { s.apply tid status w.task e with
            workers := s.workers.set tid { w with task := task } }

end State

/-- The main thread together with worker threads that compute in doubles. -/
def machineDouble : Machine Op Op.Res State Int (Nat × Int) where
  perform := perform
  interfere := fun (tid, status) s => s.turnDouble tid status

/-! ### Whole times -/

/-- A frequency at which every duty cycle takes a whole number of microseconds. -/
def ExactFrequency (frequency : Int) : Prop := 0 < frequency ∧ frequency ∣ 10000

theorem pwmTimesDouble_exact {slot : SoftPwm}
    (hduty : 0 ≤ slot.dutyCycle ∧ slot.dutyCycle ≤ 100) (hexact : ExactFrequency slot.frequency) :
    pwmTimesDouble slot = pwmTimes slot := by
  obtain ⟨hpositive, part, hfactor⟩ := hexact
  have hvalid : SoftPwm.Valid { slot with pin := 0 } 0 := ⟨rfl, hduty, hpositive⟩
  have hwhole : slot.frequency ∣ 1000000 := Dvd.dvd.trans ⟨part, hfactor⟩ (by norm_num)
  have hfrequency : (0 : ℚ) < slot.frequency := by exact_mod_cast hpositive
  have hperiod : (pwmTimes slot).periodUs = 100 * part := by
    have hcast : (10000 : ℚ) = slot.frequency * part := by exact_mod_cast hfactor
    have hmillion : (1000000 : ℚ) = slot.frequency * (100 * part) := by linarith
    change 1000000 / (slot.frequency : ℚ) = 100 * part
    rw [hmillion, mul_div_cancel_left₀ _ hfrequency.ne']
  have hhigh : (pwmTimes slot).highTimeUs = ((part * slot.dutyCycle : ℤ) : ℚ) := by
    change (pwmTimes slot).periodUs * slot.dutyCycle / 100 = _
    rw [hperiod]
    push_cast
    ring
  have hlow : (pwmTimes slot).lowTimeUs = ((100 * part - part * slot.dutyCycle : ℤ) : ℚ) := by
    change (pwmTimes slot).periodUs - (pwmTimes slot).highTimeUs = _
    rw [hperiod, hhigh]
    push_cast
    ring
  obtain ⟨hperiod', hhigh', hlow'⟩ := pwmTimesDouble_whole hvalid hwhole
  have heq : ∀ t t' : PwmTimes, t.periodUs = t'.periodUs → t.highTimeUs = t'.highTimeUs →
      t.lowTimeUs = t'.lowTimeUs → t = t' := by
    rintro ⟨⟩ ⟨⟩ rfl rfl rfl
    rfl
  exact heq _ _ hperiod' (hhigh' _ hhigh) (hlow' _ hlow)

/-- The duty cycles are in range, and the threads have exact frequencies. -/
structure ExactTimes (s : State) : Prop where
  duty : ∀ i, 0 ≤ (s.softPwmPins i).dutyCycle ∧ (s.softPwmPins i).dutyCycle ≤ 100
  threads : ∀ (tid : Nat) (w : Worker), s.workers[tid]? = some w →
    ∀ i, w.task.slot = .softPwm i → ExactFrequency (s.softPwmPins i).frequency

section

variable {s t : State}

/-- There the two machines do the same. -/
theorem turnDouble_eq (hs : ExactTimes s) (tid : Nat) (status : Int) :
    s.turnDouble tid status = s.turn tid status := by
  unfold State.turnDouble State.turn
  cases hw : s.workers[tid]? with
  | none => rfl
  | some w =>
    have hadvance : s.advanceDouble w.task = s.advance w.task := by
      cases htask : w.task with
      | blink i pc => rfl
      | softPwm i pc =>
        have hexact := hs.threads tid w hw i (by rw [htask]; rfl)
        have hthread : softPwmThreadDouble (s.softPwmPins i) pc =
            softPwmThread (s.softPwmPins i) pc := by
          cases pc with
          | times =>
            rw [softPwmThreadDouble, pwmTimesDouble_exact (hs.duty i) hexact]
            rfl
          | _ => rfl
        rw [State.advanceDouble, hthread]
        rfl
    cases hresult : s.advance w.task with
    | none => simp only [hadvance, hresult]
    | some result => simp only [hadvance, hresult]

theorem exactTimes_agreeOn : Machine.AgreeOn ExactTimes machineDouble machine :=
  ⟨fun _ _ _ _ => rfl, fun turn _ hs => turnDouble_eq hs turn.1 turn.2⟩

theorem exactTimes_stable : machine.Stable ExactTimes := by
  intro s t hs henv
  have hpins := env_softPwmPins henv
  refine ⟨fun i => ?_, fun tid w' hw' i hslot => ?_⟩
  · rw [hpins]
    exact hs.duty i
  · obtain ⟨w, hw, -, hmoved⟩ := env_worker henv hw'
    rw [hpins]
    exact hs.threads tid w hw i ((slot_eq_of_moved hmoved).symm.trans hslot)

/-- What the operations have to observe. -/
def exactly : Op → State → Prop
  | .storeSoftPwm _ .dutyCycle value, _ => 0 ≤ value ∧ value ≤ 100
  | .storeSoftPwm _ .frequency value, _ => ExactFrequency value
  | .createSoftPwm i, s => ExactFrequency (s.softPwmPins i).frequency
  | _, _ => True

variable {o : Op} {r : o.Res}

/-- The slots after an operation. -/
theorem slots_exactly (ho : exactly o s) (h : machine.Exec o s r t) (i : Nat) :
    (0 ≤ (s.softPwmPins i).dutyCycle ∧ (s.softPwmPins i).dutyCycle ≤ 100 →
      0 ≤ (t.softPwmPins i).dutyCycle ∧ (t.softPwmPins i).dutyCycle ≤ 100) ∧
    (ExactFrequency (s.softPwmPins i).frequency → ExactFrequency (t.softPwmPins i).frequency) := by
  cases o with
  | storeSoftPwm j field value =>
    rw [exec_storeSoftPwm h]
    simp only [State.setSoftPwm, Function.update_apply]
    split
    · next hij =>
      subst hij
      cases field with
      | dutyCycle => exact ⟨fun _ => ho, id⟩
      | frequency => exact ⟨id, fun _ => ho⟩
      | _ => exact ⟨id, id⟩
    · exact ⟨id, id⟩
  | createSoftPwm j =>
    rcases exec_createSoftPwm h with ⟨-, rfl⟩ | ⟨-, rfl⟩
    · simp only [State.setSoftPwm, Function.update_apply]
      split
      · next hij =>
        subst hij
        exact ⟨id, id⟩
      · exact ⟨id, id⟩
    · exact ⟨id, id⟩
  | storeBlink j field value =>
    rw [exec_storeBlink h]
    exact ⟨id, id⟩
  | createBlink j =>
    rcases exec_createBlink h with ⟨-, rfl⟩ | ⟨-, rfl⟩
    · exact ⟨id, id⟩
    · exact ⟨id, id⟩
  | joinSoftPwm j =>
    obtain ⟨w, -, -, -, rfl⟩ := join_some (exec_joinSoftPwm h)
    exact ⟨id, id⟩
  | joinBlink j =>
    obtain ⟨w, -, -, -, rfl⟩ := join_some (exec_joinBlink h)
    exact ⟨id, id⟩
  | _ =>
    rw [(exec_leavesTables (by trivial) h).1]
    exact ⟨id, id⟩

theorem exactTimes_exec (ho : exactly o s) (hs : ExactTimes s) (h : machine.Exec o s r t) :
    ExactTimes t := by
  refine ⟨fun i => (slots_exactly ho h i).1 (hs.duty i), fun tid w' hw' i hslot => ?_⟩
  apply (slots_exactly ho h i).2
  rcases exec_worker h hw' with ⟨w, hw, htask⟩ | ⟨-, hcreates⟩
  · rw [htask] at hslot
    exact hs.threads tid w hw i hslot
  · rw [hslot] at hcreates
    cases o with
    | createSoftPwm j =>
      cases hcreates
      exact ho
    | _ => cases hcreates

end

/-! ### The controller is exact -/

/-- The operations that observe it in every state. -/
def keepsExact (o : Op) : Prop := ∀ s, exactly o s

theorem exactTimes_boot : ExactTimes boot :=
  ⟨fun _ => (by decide : (0 : Int) ≤ 0 ∧ (0 : Int) ≤ 100), nofun⟩

theorem uses_softPwmUpdateDuty_exact (pin value : Int) :
    (softPwmUpdateDuty pin value).Uses keepsExact := by
  unfold softPwmUpdateDuty
  split
  · trivial
  split
  · trivial
  next hduty =>
  simp only [call_bind]
  refine ⟨fun _ => trivial, fun _ => ⟨fun _ => trivial, fun active => ?_⟩⟩
  beta_reduce
  split
  · exact ⟨fun _ => trivial, fun _ => trivial⟩
  · have hrange : 0 ≤ value ∧ value ≤ 100 := by omega
    exact ⟨fun _ => hrange, fun _ => ⟨fun _ => trivial, fun _ => trivial⟩⟩

theorem uses_tickCall_exact (c : PinCall) (hc : TickCall c) : c.program.Uses keepsExact := by
  cases hc with
  | blinkStart _ =>
    apply uses_blinkStart
    · exact fun _ => ⟨⟨fun _ => trivial, fun _ => trivial, fun _ => trivial, fun _ => trivial,
        fun _ => trivial⟩, fun _ => trivial, fun _ => trivial, fun _ => trivial, fun _ => trivial,
        fun _ => trivial⟩
    · exact fun _ _ => trivial
  | blinkStop _ =>
    apply uses_blinkStop
    · exact fun _ => ⟨fun _ => trivial, fun _ => trivial, fun _ => trivial, fun _ => trivial,
        fun _ => trivial⟩
    · exact fun _ _ => trivial
  | updateDuty pin value => exact uses_softPwmUpdateDuty_exact pin value

/-- What leaves the tables observes it. -/
theorem keepsExact_of_leavesTables {o : Op} (ho : leavesTables o) : keepsExact o := by
  intro s
  cases o with
  | storeSoftPwm i field value => cases ho
  | createSoftPwm i => cases ho
  | _ => trivial

theorem uses_timerCallback_exact (jc : JsonC) (run : WgetRun) :
    (timerCallback jc run).Uses keepsExact :=
  (madeOf_timerCallback jc run).uses uses_tickCall_exact
    fun _ ho _ => keepsExact_of_leavesTables ho

theorem keepsExact_of_servoOp {o : Op} (ho : servoOp o) : keepsExact o := by
  intro s
  cases o with
  | system command => trivial
  | usleep us => trivial
  | _ => cases ho

theorem uses_afterSetup_exact (n : Nat) : (afterSetup n).Uses keepsExact := by
  have hsleep : (Prog.sequence (List.replicate n (exec (.usleep 1000000)))).Uses keepsExact := by
    induction n with
    | zero => trivial
    | succ n ih => exact ⟨fun _ => trivial, fun _ => ih⟩
  have hstop : stopAll.Uses keepsExact :=
    madeOf_stopAll.uses uses_tickCall_exact fun _ ho _ => keepsExact_of_leavesTables ho
  unfold afterSetup
  refine uses_bind hsleep fun _ => uses_bind hstop fun _ => ?_
  refine uses_bind ?_ fun _ => uses_bind ⟨fun _ => trivial, fun _ => trivial⟩ fun _ => ?_
  · exact uses_mono (fun _ => keepsExact_of_servoOp) (uses_setSteeringDirection _)
  · exact uses_bind (uses_mono (fun _ => keepsExact_of_servoOp) (uses_servoStop _)) fun _ => trivial

/-! ### Setting up -/

/-- The program observes it, and goes from `P` to `Q`. -/
abbrev Observes {α : Type} (P : State → Prop) (p : MainProg α) (Q : State → Prop) : Prop :=
  machine.Contract .none exactly P p fun _ => Q

/-- The slot has its frequency. -/
def Timed (i : Nat) (s : State) : Prop := ExactFrequency (s.softPwmPins i).frequency

theorem timed_stable (i : Nat) : machine.Stable (Timed i) := by
  intro s t hs henv
  unfold Timed
  rw [env_softPwmPins henv]
  exact hs

section

variable {α : Type} {i : Nat} {Q : State → Prop}

theorem observes_uses {p : MainProg α} (h : p.Uses keepsExact) :
    Observes (fun _ => True) p fun _ => True :=
  Machine.contract_uses (fun _ _ _ _ => trivial) (fun _ ho s _ => ho s)
    (fun _ _ _ _ _ _ _ => trivial) h

theorem observes_op {o : Op} (ho : keepsExact o) {next : o.Res → MainProg α}
    (hnext : ∀ r, Observes (fun _ => True) (next r) Q) :
    Observes (fun _ => True) (.op o next) Q :=
  Machine.contract_op (fun _ _ _ _ => trivial) (fun s _ _ => ho s) (fun _ _ _ _ _ _ => trivial)
    hnext

theorem observes_timed {o : Op} (ho : keepsExact o) {next : o.Res → MainProg α}
    (hnext : ∀ r, Observes (Timed i) (next r) Q) : Observes (Timed i) (.op o next) Q :=
  Machine.contract_op (timed_stable i) (fun s _ _ => ho s)
    (fun s _ _ hs _ h => (slots_exactly (ho s) h i).2 hs) hnext

/-- A start stores the frequency before it creates the thread. -/
theorem observes_softPwmStart (pin : Int) {dutyCycle frequency : Int}
    (hexact : ExactFrequency frequency) :
    Observes (fun _ => True) (softPwmStart pin dutyCycle frequency) fun _ => True := by
  unfold softPwmStart
  split
  · exact observes_uses trivial
  split
  · exact observes_uses trivial
  next hduty =>
  split
  · exact observes_uses trivial
  simp only [call_bind]
  refine observes_op ?_ fun _ => observes_op ?_ fun active => ?_
  · exact fun _ => trivial
  · exact fun _ => trivial
  refine Machine.contract_bind (N := fun _ _ => True) (observes_uses ?_) fun _ => ?_
  · unfold Prog.when
    split
    · exact ⟨fun _ => trivial, fun _ => ⟨fun _ => trivial, fun _ => trivial⟩⟩
    · trivial
  have hrange : 0 ≤ dutyCycle ∧ dutyCycle ≤ 100 := by omega
  refine observes_op ?_ fun _ => observes_op ?_ fun _ => ?_
  · exact fun _ => trivial
  · exact fun _ => hrange
  refine Machine.contract_op (N := fun _ => Timed pin.toNat) (fun _ _ _ _ => trivial)
    (fun _ _ _ => hexact) (fun s r t _ _ h => ?_) fun _ => ?_
  · rw [exec_storeSoftPwm h]
    change ExactFrequency (Function.update s.softPwmPins pin.toNat _ pin.toNat).frequency
    rw [Function.update_self]
    exact hexact
  refine observes_timed ?_ fun _ => observes_timed ?_ fun _ => ?_
  · exact fun _ => trivial
  · exact fun _ => trivial
  refine Machine.contract_op (N := fun _ _ => True) (timed_stable _) (fun _ hs _ => hs)
    (fun _ _ _ _ _ _ => trivial) fun result => observes_uses ?_
  split
  · exact ⟨fun _ => trivial, fun _ => ⟨fun _ => trivial, fun _ => trivial⟩⟩
  · exact ⟨fun _ => trivial, fun _ => trivial⟩

end

theorem observes_initGpioPins : Observes (fun _ => True) initGpioPins fun _ => True := by
  have hpin : ∀ pin setting, keepsExact (.system (.gpioSet pin setting)) := fun _ _ _ => trivial
  have hbind : ∀ {p : MainProg Int} {f : Int → MainProg Unit},
      (Observes (fun _ => True) p fun _ => True) →
      (∀ value, Observes (fun _ => True) (f value) fun _ => True) →
      Observes (fun _ => True) (p >>= f) fun _ => True := fun hp hf => Machine.contract_bind hp hf
  unfold initGpioPins
  iterate 8 refine hbind (observes_uses (uses_pinMode hpin _ _)) fun _ => ?_
  have hservo : (servoInit pwmServo).Uses keepsExact :=
    uses_servoInit (fun _ _ => trivial) (fun _ => trivial) _
  refine hbind (observes_uses hservo) fun _ => ?_
  iterate 4 refine hbind (observes_uses (uses_digitalWrite hpin _ _)) fun _ => ?_
  iterate 4 refine hbind (observes_softPwmStart _ ⟨by decide, by decide⟩) fun _ => ?_
  exact observes_uses trivial

/-! ### Whole runs -/

theorem exactTimes_init {q : MainProg Unit} {s : State}
    (h : machine.Steps (initGpioPins, boot) (q, s)) : ExactTimes s :=
  Machine.contract_invariant exactTimes_stable (fun _ _ _ _ hs ho h => exactTimes_exec ho hs h)
    observes_initGpioPins trivial exactTimes_boot (Machine.steps_stepsUnder h)

theorem exactTimes_afterSetup {jc : JsonC} {s : State} {n : Nat}
    (hinit : machine.Runs initGpioPins boot () s) {c : Interruptible Op Op.Res State WgetRun Unit}
    (h : machine.SignalSteps (timerCallback jc) (fun _ _ => True) ⟨afterSetup n, none, s⟩ c) :
    ExactTimes c.state := by
  have hkeep : ∀ o, keepsExact o → ∀ s r t, ExactTimes s → machine.Exec o s r t → ExactTimes t :=
    fun _ ho s _ _ hs h => exactTimes_exec (ho s) hs h
  exact Machine.signalSteps_guarantee exactTimes_stable (fun _ hs => hs) hkeep
    (fun run s hs => Machine.wp_uses exactTimes_stable (fun _ hs => hs) hkeep
      (uses_timerCallback_exact jc run) hs)
    (uses_afterSetup_exact n) (exactTimes_init hinit) h

/-- Every soft-PWM thread that was created has a slot with a frequency. -/
def ThreadsTimed (s : State) : Prop :=
  ∀ (tid : Nat) (w : Worker), s.workers[tid]? = some w →
    ∀ i, w.task.slot = .softPwm i → 0 < (s.softPwmPins i).frequency

theorem ExactTimes.threadsTimed {s : State} (h : ExactTimes s) : ThreadsTimed s :=
  fun tid w hw i hslot => (h.threads tid w hw i hslot).1

/-- The controller whose threads compute in doubles has exactly the runs of the controller whose
threads compute in rationals, whatever the server sends, whatever fails and wherever a tick
interrupts it; and at no moment of them is there a thread on a slot without a frequency. -/
theorem controller_doubles (jc : JsonC) :
    (∀ c, (machineDouble.Steps (initGpioPins, boot) c ↔ machine.Steps (initGpioPins, boot) c) ∧
      (machine.Steps (initGpioPins, boot) c → ThreadsTimed c.2)) ∧
    ∀ s n c, machine.Runs initGpioPins boot () s →
      (machineDouble.SignalSteps (timerCallback jc) (fun _ _ => True) ⟨afterSetup n, none, s⟩ c ↔
        machine.SignalSteps (timerCallback jc) (fun _ _ => True) ⟨afterSetup n, none, s⟩ c) ∧
      (machine.SignalSteps (timerCallback jc) (fun _ _ => True) ⟨afterSetup n, none, s⟩ c →
        ThreadsTimed c.state) := by
  refine ⟨fun c => ⟨?_, ?_⟩, fun s n c hinit => ⟨?_, ?_⟩⟩
  · exact exactTimes_agreeOn.steps fun c' h => exactTimes_init h
  · exact fun h => (exactTimes_init h).threadsTimed
  · exact exactTimes_agreeOn.signalSteps fun c' h => exactTimes_afterSetup hinit h
  · exact fun h => (exactTimes_afterSetup hinit h).threadsTimed

/-- The thread of the first motor pin sleeps its period, as the doubles give it. -/
theorem controller_doubles_sleeps :
    ∃ s q t, machine.Runs initGpioPins boot () s ∧
      machineDouble.SignalSteps (timerCallback forwardJsonC) (fun _ _ => True)
        ⟨afterSetup 0, none, s⟩ ⟨q, none, t⟩ ∧ ⟨some 0, .usleep 2000⟩ ∈ t.log := by
  let test : MainProg Unit → State → Bool := fun _ t =>
    decide ((⟨some 0, .usleep 2000⟩ : LogEntry) ∈ t.log)
  obtain ⟨_, s, hinit, hplay⟩ := machine.play_runs (calmMoves 80) initGpioPins boot
    (fun _ s => (machine.play (List.replicate 6 (.inr (0, 0))) (afterSetup 0) s).any fun c =>
      test c.1 c.2) (by decide +kernel)
  obtain ⟨q, t, hsteps, htest⟩ := Machine.play_visits test hplay
  have hrun : machine.SignalSteps (timerCallback forwardJsonC) (fun _ _ => True)
      ⟨afterSetup 0, none, s⟩ ⟨q, none, t⟩ := Machine.signalSteps_main hsteps
  exact ⟨s, q, t, hinit, ((controller_doubles forwardJsonC).2 s 0 _ hinit).1.mpr hrun,
    of_decide_eq_true htest⟩

end EmbeddedCar.Gpio
