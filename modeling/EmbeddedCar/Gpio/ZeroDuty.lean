import EmbeddedCar.Gpio.SoftPwmTable

/-!
# A duty of zero

What a soft-PWM thread does after `softPwmUpdateDuty(pin, 0)`. One iteration of its loop reads
the duty up to three times, so an update may fall between a test and the write the test led to.
What the thread still owes is at most that one write of HIGH; from the next start of its loop on
it owes none, and it cannot come back to the start without a write of LOW.
-/

namespace EmbeddedCar.Gpio

open EmbeddedCar.Concurrent EmbeddedCar.Text

/-- Thread `tid` of soft-PWM slot `i` is at `pc`. -/
def State.At (s : State) (i tid : Nat) (pc : SoftPwmPc) : Prop :=
  ∃ joined, s.workers[tid]? = some ⟨.softPwm i pc, joined⟩

/-- What a step of a thread adds to the log. -/
def ThreadEffect.entries (tid : Nat) (status : Int) : ThreadEffect → List LogEntry
  | .system command => [⟨some tid, .system command status⟩]
  | .usleep us => [⟨some tid, .usleep us⟩]
  | _ => []

/-- The entry is a write of HIGH by thread `tid`. -/
def LogEntry.raises (tid : Nat) : LogEntry → Bool
  | ⟨some author, .system (.gpioSet _ .dh) _⟩ => author = tid
  | _ => false

/-- How often thread `tid` has written HIGH. -/
def highWrites (tid : Nat) (log : List LogEntry) : Nat := log.countP (LogEntry.raises tid)

theorem highWrites_append (tid : Nat) (added log : List LogEntry) :
    highWrites tid (added ++ log) = highWrites tid added + highWrites tid log :=
  List.countP_append

theorem highWrites_others {tid : Nat} {added : List LogEntry}
    (h : ∀ e ∈ added, e.author ≠ some tid) : highWrites tid added = 0 := by
  refine List.countP_eq_zero.mpr fun e he hraises => ?_
  have hne := h e he
  obtain ⟨author, call⟩ := e
  unfold LogEntry.raises at hraises
  split at hraises
  · next author' pin status heq =>
    cases heq
    exact hne (congrArg some (of_decide_eq_true hraises))
  · cases hraises

/-! ### One step -/

/-- What one step can do to thread `tid`: leave it where it is, or be the thread's own. -/
inductive ThreadStep (i tid : Nat) (s : State) (pc pc' : SoftPwmPc) (added : List LogEntry) :
    Prop where
  | other : pc' = pc → (∀ e ∈ added, e.author ≠ some tid) → ThreadStep i tid s pc pc' added
  | own (e : ThreadEffect) (status : Int) : softPwmThread (s.softPwmPins i) pc = some (pc', e) →
      added = e.entries tid status → ThreadStep i tid s pc pc' added

theorem env_thread {s t : State} (h : machine.Env s t) {i tid : Nat} {pc : SoftPwmPc}
    (hs : s.At i tid pc) :
    ∃ pc' added, t.At i tid pc' ∧ t.log = added ++ s.log ∧
      ThreadStep i tid s pc pc' added := by
  obtain ⟨joined, hget⟩ := hs
  obtain ⟨turn, status, w, task, e, hw, hadvance, rfl⟩ := env_iff.mp h
  have hlog : (s.apply turn status w.task e).log = e.entries turn status ++ s.log := by
    cases e with
    | deactivate => cases w.task <;> rfl
    | _ => rfl
  by_cases hsame : turn = tid
  · subst hsame
    obtain rfl : w = ⟨.softPwm i pc, joined⟩ := Option.some.inj (hw.symm.trans hget)
    obtain ⟨pc', rfl, hthread⟩ := advance_softPwm hadvance
    have hlen : turn < s.workers.length := (List.getElem?_eq_some_iff.mp hw).1
    exact ⟨pc', e.entries turn status, ⟨joined, List.getElem?_set_self hlen⟩, hlog,
      .own e status hthread rfl⟩
  · refine ⟨pc, e.entries turn status, ⟨joined, ?_⟩, hlog, .other rfl ?_⟩
    · exact (List.getElem?_set_ne hsame).trans hget
    · intro entry hentry
      have hauthor : entry.author = some turn := by
        cases e with
        | system command => rw [List.mem_singleton.mp hentry]
        | usleep us => rw [List.mem_singleton.mp hentry]
        | silent => cases hentry
        | deactivate => cases hentry
      rw [hauthor]
      simpa using hsame

theorem exec_thread {o : Op} {s t : State} {r : o.Res} (h : machine.Exec o s r t) {i tid : Nat}
    {pc : SoftPwmPc} (hs : s.At i tid pc) :
    ∃ pc' added, t.At i tid pc' ∧ t.log = added ++ s.log ∧
      ThreadStep i tid s pc pc' added := by
  obtain ⟨joined, hget⟩ := hs
  obtain ⟨⟨task, joined'⟩, hget', htask⟩ := exec_task h hget
  have hauthor : ∀ e ∈ o.calls r, e.author ≠ some tid := by
    intro e he
    cases o with
    | system command => rw [List.mem_singleton.mp he]; nofun
    | usleep us => rw [List.mem_singleton.mp he]; nofun
    | _ => cases he
  cases htask
  exact ⟨pc, o.calls r, ⟨joined', hget'⟩, exec_log h, .other rfl hauthor⟩

theorem step_thread {α : Type} {p q : MainProg α} {s t : State}
    (h : machine.Step (p, s) (q, t)) {i tid : Nat} {pc : SoftPwmPc} (hs : s.At i tid pc) :
    ∃ pc' added, t.At i tid pc' ∧ t.log = added ++ s.log ∧
      ThreadStep i tid s pc pc' added := by
  cases h with
  | op hexec => exact exec_thread hexec hs
  | env henv => exact env_thread henv hs

/-! ### The thread with a duty of zero -/

/-- The writes of HIGH a thread at `pc` may still make when it reads a duty of 0 from now on. -/
def SoftPwmPc.owes : SoftPwmPc → Nat
  | .testHigh t => if t.highTimeUs > 1 then 1 else 0
  | .writeHigh _ => 1
  | .writeFull _ => 1
  | _ => 0

theorem SoftPwmPc.owes_le (pc : SoftPwmPc) : pc.owes ≤ 1 := by
  cases pc with
  | testHigh t =>
    by_cases hlong : t.highTimeUs > 1
    · simp [SoftPwmPc.owes, hlong]
    · simp [SoftPwmPc.owes, hlong]
  | writeHigh t => exact le_refl 1
  | writeFull t => exact le_refl 1
  | _ => exact Nat.zero_le 1

/-- With a duty of 0 the high phase has no length. -/
theorem highTimeUs_zero {p : SoftPwm} (h : p.dutyCycle = 0) : (pwmTimes p).highTimeUs = 0 := by
  simp [pwmTimes, h]

/-- A step pays for each write of HIGH with what the thread owes. -/
theorem owes_step {p : SoftPwm} (hduty : p.dutyCycle = 0) {pc pc' : SoftPwmPc} {e : ThreadEffect}
    (h : softPwmThread p pc = some (pc', e)) (tid : Nat) (status : Int) :
    highWrites tid (e.entries tid status) + pc'.owes ≤ pc.owes := by
  cases pc with
  | loop =>
    simp only [softPwmThread] at h
    split at h <;> (cases h; exact le_refl 0)
  | times =>
    cases h
    have hhigh := highTimeUs_zero hduty
    simp [SoftPwmPc.owes, hhigh, ThreadEffect.entries, highWrites]
  | testHigh t =>
    simp only [softPwmThread] at h
    split at h
    · next hlong =>
      cases h
      simp [SoftPwmPc.owes, hlong, ThreadEffect.entries, highWrites]
    · cases h
      exact Nat.zero_le _
  | writeHigh t =>
    cases h
    simp [SoftPwmPc.owes, ThreadEffect.entries, highWrites, digitalWriteCommand, LogEntry.raises]
  | testLow t =>
    simp only [softPwmThread] at h
    split at h <;> (cases h; exact le_refl 0)
  | writeLow t => cases h; exact le_refl 0
  | testZero t =>
    simp only [softPwmThread, if_pos hduty] at h
    cases h
    exact le_refl 0
  | writeZero t => cases h; exact le_refl 0
  | testFull t =>
    have hfull : p.dutyCycle ≠ 100 := by omega
    simp only [softPwmThread, if_neg hfull] at h
    cases h
    exact le_refl 0
  | writeFull t =>
    cases h
    simp [SoftPwmPc.owes, ThreadEffect.entries, highWrites, digitalWriteCommand, LogEntry.raises]
  | lastLow => cases h; exact le_refl 0
  | finished => cases h
  | _ => cases h; exact le_refl 0

/-- The thread has started an iteration and not yet written LOW in it. -/
def SoftPwmPc.beforeLow : SoftPwmPc → Bool
  | .times | .testHigh _ | .writeHigh _ | .sleepHigh _ | .testLow _ | .writeLow _ | .testZero _
  | .writeZero _ | .lastLow => true
  | _ => false

/-- With a duty of 0 the thread leaves this part of its loop by a write of LOW only. -/
theorem beforeLow_step {p : SoftPwm} (hduty : p.dutyCycle = 0) {pc pc' : SoftPwmPc}
    {e : ThreadEffect} (h : softPwmThread p pc = some (pc', e))
    (hpc : pc = .loop ∨ pc.beforeLow = true) :
    pc'.beforeLow = true ∨ e = .system (digitalWriteCommand p.pin .low) := by
  cases pc with
  | loop =>
    simp only [softPwmThread] at h
    split at h <;> (cases h; exact .inl rfl)
  | times => cases h; exact .inl rfl
  | testHigh t =>
    simp only [softPwmThread] at h
    split at h <;> (cases h; exact .inl rfl)
  | writeHigh t => cases h; exact .inl rfl
  | sleepHigh t => cases h; exact .inl rfl
  | testLow t =>
    simp only [softPwmThread] at h
    split at h <;> (cases h; exact .inl rfl)
  | writeLow t => cases h; exact .inr rfl
  | testZero t =>
    simp only [softPwmThread, if_pos hduty] at h
    cases h
    exact .inl rfl
  | writeZero t => cases h; exact .inr rfl
  | lastLow => cases h; exact .inr rfl
  | _ => rcases hpc with hpc | hpc <;> cases hpc

/-! ### Runs with a duty of zero -/

/-- Steps all of which start with a duty of 0 on slot `i`. -/
abbrev ZeroSteps {α : Type} (i : Nat) : MainProg α × State → MainProg α × State → Prop :=
  machine.StepsUnder (.ofState fun s => (s.softPwmPins i).dutyCycle = 0)

section

variable {α : Type} {i tid : Nat} {p q : MainProg α} {s t : State}

theorem at_unique {pc pc' : SoftPwmPc} (h : s.At i tid pc) (h' : s.At i tid pc') : pc = pc' := by
  obtain ⟨joined, hget⟩ := h
  obtain ⟨joined', hget'⟩ := h'
  have heq := hget.symm.trans hget'
  cases heq
  rfl

/-- The writes of HIGH of a run are paid for by what the thread owes at its start. -/
theorem owes_run (h : ZeroSteps i (p, s) (q, t)) {pc : SoftPwmPc} (hs : s.At i tid pc) :
    ∃ pc' added, t.At i tid pc' ∧ t.log = added ++ s.log ∧
      highWrites tid added + pc'.owes ≤ pc.owes := by
  generalize hc : (p, s) = c at h
  generalize hd : (q, t) = d at h
  induction h generalizing q t with
  | refl =>
    obtain ⟨rfl, rfl⟩ := Prod.mk.inj (hc.trans hd.symm)
    exact ⟨pc, [], hs, rfl, (Nat.zero_add _).le⟩
  | @tail c' d' _ hstep ih =>
    obtain ⟨q', t'⟩ := c'
    obtain ⟨hduty, hstep⟩ := hstep
    subst hd
    obtain ⟨pc', added, hat, hlog, howes⟩ := ih rfl
    obtain ⟨pc'', added', hat', hlog', hthread⟩ := step_thread hstep hat
    refine ⟨pc'', added' ++ added, hat', by rw [hlog', hlog, List.append_assoc], ?_⟩
    rw [highWrites_append]
    cases hthread with
    | other hpc hauthor =>
      rw [hpc, highWrites_others hauthor]
      omega
    | own e status hthread hadded =>
      have hpaid := owes_step hduty hthread tid status
      rw [hadded]
      omega

/-- A part of the loop that is left by a write of LOW only. -/
theorem low_run (part : SoftPwmPc → Prop)
    (hpart : ∀ (slot : SoftPwm) pc pc' e, slot.dutyCycle = 0 → part pc →
      softPwmThread slot pc = some (pc', e) →
      part pc' ∨ e = .system (digitalWriteCommand slot.pin .low))
    (hpin : ∀ r u, machine.Steps (p, s) (r, u) → (u.softPwmPins i).pin = i)
    (h : ZeroSteps i (p, s) (q, t)) {pc : SoftPwmPc} (hs : s.At i tid pc) (hpc : part pc) :
    ∃ pc' added, t.At i tid pc' ∧ t.log = added ++ s.log ∧
      (part pc' ∨ ∃ status, ⟨some tid, .system (digitalWriteCommand i .low) status⟩ ∈ added) := by
  generalize hc : (p, s) = c at h
  generalize hd : (q, t) = d at h
  induction h generalizing q t with
  | refl =>
    obtain ⟨rfl, rfl⟩ := Prod.mk.inj (hc.trans hd.symm)
    exact ⟨pc, [], hs, rfl, .inl hpc⟩
  | @tail c' d' hrun hstep ih =>
    obtain ⟨q', t'⟩ := c'
    obtain ⟨hduty, hstep⟩ := hstep
    subst hd
    obtain ⟨pc', added, hat, hlog, hlow⟩ := ih rfl
    obtain ⟨pc'', added', hat', hlog', hthread⟩ := step_thread hstep hat
    refine ⟨pc'', added' ++ added, hat', by rw [hlog', hlog, List.append_assoc], ?_⟩
    rcases hlow with hpart' | ⟨status, hmem⟩
    · cases hthread with
      | other hpc' hauthor =>
        rw [hpc']
        exact .inl hpart'
      | own e status hthread hadded =>
        rcases hpart _ _ _ _ hduty hpart' hthread with hnext | rfl
        · exact .inl hnext
        · right
          rw [hpin q' t' (Machine.stepsUnder_steps (hc ▸ hrun))] at hadded
          refine ⟨status, List.mem_append_left _ ?_⟩
          rw [hadded]
          exact List.mem_singleton.mpr rfl
    · exact .inr ⟨status, List.mem_append_right _ hmem⟩

end

/-! ### The calls -/

/-- The operations that store no pin but its own in a slot. -/
def keepsPins : Op → Prop
  | .storeSoftPwm i .pin value => value = i
  | _ => True

theorem keepsPins_gpioSet (pin : Int) (setting : PinSetting) :
    keepsPins (.system (.gpioSet pin setting)) := trivial

theorem uses_call_keepsPins (call : SoftPwmCall) : call.program.Uses keepsPins := by
  by_cases hcall : call.InRange
  · cases call with
    | start pin dutyCycle frequency =>
      have hnat : pin = pin.toNat := (Int.toNat_of_nonneg hcall.1.1).symm
      change (softPwmStart pin dutyCycle frequency).Uses keepsPins
      unfold softPwmStart
      obtain ⟨hpin, hduty, hfrequency⟩ := hcall
      rw [if_neg (by omega), if_neg (by omega), if_neg (by omega)]
      simp only [Prog.call_bind]
      refine ⟨trivial, fun _ => ⟨trivial, fun active => Prog.uses_bind ?_ fun _ => ?_⟩⟩
      · unfold Prog.when
        split
        · exact ⟨trivial, fun _ => ⟨trivial, fun _ => trivial⟩⟩
        · trivial
      · refine ⟨hnat, fun _ => ⟨trivial, fun _ => ⟨trivial, fun _ => ⟨trivial, fun _ => ?_⟩⟩⟩⟩
        refine Prog.uses_bind (uses_pinMode keepsPins_gpioSet _ _) fun _ =>
          ⟨trivial, fun result => ?_⟩
        beta_reduce
        split
        · exact ⟨trivial, fun _ => ⟨trivial, fun _ => trivial⟩⟩
        · exact ⟨trivial, fun _ => trivial⟩
    | updateDuty pin dutyCycle =>
      refine Prog.uses_mono ?_ (uses_softPwmUpdateDuty pin dutyCycle)
      intro o ho
      cases o with
      | storeSoftPwm i field value =>
        cases ho
        trivial
      | _ => trivial
    | stop pin =>
      change (softPwmStop pin).Uses keepsPins
      unfold softPwmStop
      rw [if_neg (by have := hcall.1; have := hcall.2; omega)]
      simp only [Prog.call_bind]
      refine ⟨trivial, fun _ => ⟨trivial, fun active => ?_⟩⟩
      beta_reduce
      split
      · exact ⟨trivial, fun _ => trivial⟩
      · refine ⟨trivial, fun _ => ⟨trivial, fun _ => ?_⟩⟩
        exact Prog.uses_bind (uses_digitalWrite keepsPins_gpioSet _ _) fun _ =>
          ⟨trivial, fun _ => trivial⟩
  · rw [SoftPwmCall.program_of_not_inRange hcall]
    trivial

theorem uses_softPwmCalls_keepsPins (calls : List SoftPwmCall) :
    (softPwmCalls calls).Uses keepsPins := by
  induction calls with
  | nil => trivial
  | cons call calls ih =>
    refine Prog.uses_bind ?_ fun _ => ih
    exact Prog.uses_bind (uses_call_keepsPins call) fun _ => trivial

theorem pin_exec {i : Nat} {o : Op} (ho : keepsPins o) {s t : State} {r : o.Res}
    (hs : (s.softPwmPins i).pin = i) (h : machine.Exec o s r t) :
    (t.softPwmPins i).pin = i := by
  cases o with
  | storeSoftPwm j field value =>
    rw [exec_storeSoftPwm h]
    by_cases hj : i = j
    · subst hj
      cases field with
      | pin =>
        have hvalue : value = i := ho
        simpa [State.setSoftPwm, SoftPwm.set] using hvalue
      | _ => simpa [State.setSoftPwm, SoftPwm.set] using hs
    · simpa [State.setSoftPwm, hj] using hs
  | createSoftPwm j =>
    rcases exec_createSoftPwm h with ⟨-, rfl⟩ | ⟨-, rfl⟩
    · by_cases hj : i = j
      · subst hj
        simpa [State.setSoftPwm] using hs
      · simpa [State.setSoftPwm, hj] using hs
    · exact hs
  | storeBlink j field value =>
    rw [exec_storeBlink h]
    exact hs
  | createBlink j => rcases exec_createBlink h with ⟨-, rfl⟩ | ⟨-, rfl⟩ <;> exact hs
  | joinSoftPwm j =>
    obtain ⟨w, -, -, -, rfl⟩ := join_some (exec_joinSoftPwm h)
    exact hs
  | joinBlink j =>
    obtain ⟨w, -, -, -, rfl⟩ := join_some (exec_joinBlink h)
    exact hs
  | _ =>
    rw [(exec_leavesTables (by trivial) h).1]
    exact hs

/-- The pin of a slot that has its own stays so during any calls. -/
theorem pin_steps {i : Nat} {calls : List SoftPwmCall} {q : MainProg Unit} {s t : State}
    (hs : (s.softPwmPins i).pin = i) (h : machine.Steps (softPwmCalls calls, s) (q, t)) :
    q.Uses keepsPins ∧ (t.softPwmPins i).pin = i := by
  refine Machine.uses_steps (tabular_slot i fun slot => slot.pin = i).stable ?_
    (uses_softPwmCalls_keepsPins calls) hs h
  exact fun o ho s r t hs h => pin_exec ho hs h

/-- An update that returns 0 has found a running slot and stored the duty. -/
theorem triple_softPwmUpdateDuty (pin dutyCycle : Int) :
    machine.Triple (Row pin.toNat) (softPwmUpdateDuty pin dutyCycle) fun value s => value = 0 →
      (pin.toNat : Int) = pin ∧ Running pin.toNat s ∧
        (s.softPwmPins pin.toNat).dutyCycle = dutyCycle := by
  have hfail : ∀ {P : State → Prop}, machine.Stable P → machine.Triple P (.ret (-1 : Int))
      fun value s => value = 0 → (pin.toNat : Int) = pin ∧ Running pin.toNat s ∧
        (s.softPwmPins pin.toNat).dutyCycle = dutyCycle :=
    fun hP => Machine.triple_ret hP fun _ _ hzero => absurd hzero (by decide)
  unfold softPwmUpdateDuty
  split
  · exact hfail (row_stable _)
  split
  · exact hfail (row_stable _)
  next hpin hduty =>
  have hnat : (pin.toNat : Int) = pin := Int.toNat_of_nonneg (by omega)
  have hrow := tabular_row pin.toNat
  simp only [Prog.call_bind]
  refine Machine.triple_op (N := fun _ => Row pin.toNat) hrow.stable ?_ fun _ => ?_
  · exact fun s r t hs h => tabular_exec hrow (by trivial) hs h
  refine Machine.triple_op
    (N := fun active s => Row pin.toNat s ∧ active = (s.softPwmPins pin.toNat).active)
    hrow.stable ?_ fun active => ?_
  · intro s active t hs h
    obtain ⟨hactive, rfl⟩ := exec_loadSoftPwm h
    exact ⟨hs, hactive⟩
  have hloaded : machine.Stable fun s =>
      Row pin.toNat s ∧ active = (s.softPwmPins pin.toNat).active :=
    (tabular_and hrow (tabular_slot pin.toNat fun slot => active = slot.active)).stable
  split
  · exact Machine.triple_op (N := fun _ _ => True) hloaded (fun _ _ _ _ _ => trivial) fun _ =>
      hfail fun _ _ _ _ => trivial
  · next hactive =>
    let stored : State → Prop := fun s =>
      Running pin.toNat s ∧ (s.softPwmPins pin.toNat).dutyCycle = dutyCycle
    have hduty : Tabular fun s => (s.softPwmPins pin.toNat).dutyCycle = dutyCycle :=
      tabular_slot pin.toNat fun slot => slot.dutyCycle = dutyCycle
    have hstored : Tabular stored := tabular_and (tabular_running _) hduty
    refine Machine.triple_op (N := fun _ => stored) hloaded ?_ fun _ => ?_
    · rintro s r t ⟨hrunning | ⟨hinactive, -⟩, hvalue⟩ h
      · refine ⟨running_duty (by omega) hrunning h, ?_⟩
        rw [slot_store h]
        rfl
      · exact absurd (hvalue.trans hinactive) hactive
    refine Machine.triple_op (N := fun _ => stored) hstored.stable ?_ fun _ => ?_
    · exact fun s r t hs h => tabular_exec hstored (by trivial) hs h
    · exact Machine.triple_ret hstored.stable fun s hs _ => ⟨hnat, hs⟩

/-- After `softPwmUpdateDuty(pin, 0)` has returned 0, and as long as the duty stays 0, the thread
of the slot writes HIGH at most once more. When it has gone once around its loop, from a start to
the next or to its end, it has written LOW to the pin, and it writes HIGH never again. -/
theorem zero_duty_turns_off (before after : List SoftPwmCall) (pin : Int) (s₀ s : State)
    (hbefore : machine.Runs (softPwmCalls before) boot () s₀)
    (hupdate : machine.Runs (softPwmUpdateDuty pin 0) s₀ 0 s) :
    (s.softPwmPins pin.toNat).dutyCycle = 0 ∧ ∃ tid, s.Looping pin.toNat tid ∧
      (∀ tid', s.Pending (.softPwm pin.toNat) tid' ↔ tid' = tid) ∧
      (∀ c, ZeroSteps pin.toNat (softPwmCalls after, s) c →
        highWrites tid c.2.log ≤ highWrites tid s.log + 1) ∧
      ∀ c₁ c₂ c₃, ZeroSteps pin.toNat (softPwmCalls after, s) c₁ →
        ZeroSteps pin.toNat c₁ c₂ → ZeroSteps pin.toNat c₂ c₃ →
        c₁.2.At pin.toNat tid .loop → ¬ c₂.2.At pin.toNat tid .loop →
        c₃.2.At pin.toNat tid .loop ∨ c₃.2.At pin.toNat tid .finished →
        (∃ added, c₃.2.log = added ++ c₁.2.log ∧
          ∃ status, ⟨some tid, .system (digitalWriteCommand pin .low) status⟩ ∈ added) ∧
        ∀ c, ZeroSteps pin.toNat c₁ c → highWrites tid c.2.log = highWrites tid c₁.2.log := by
  have htable : Table s₀ := Machine.contract_runs (joins_softPwmCalls before) table_boot
    (Machine.steps_stepsUnder hbefore)
  obtain ⟨hnat, hrunning, hduty⟩ :=
    Machine.triple_runs (triple_softPwmUpdateDuty pin 0) (htable pin.toNat) hupdate rfl
  obtain ⟨pc, hget, -⟩ := hrunning.looping
  refine ⟨hduty, _, hrunning.looping, hrunning.held, ?_, ?_⟩
  · intro c hc
    obtain ⟨pc', added, -, hlog, howes⟩ := owes_run hc ⟨false, hget⟩
    have hone := pc.owes_le
    rw [hlog, highWrites_append]
    omega
  · rintro ⟨q₁, s₁⟩ ⟨q₂, s₂⟩ ⟨q₃, s₃⟩ h₁ h₂ h₃ hstart hleft hend
    have hpin : ∀ r u, machine.Steps (q₁, s₁) (r, u) → (u.softPwmPins pin.toNat).pin = pin.toNat :=
      fun r u hr => (pin_steps hrunning.valid.pin ((Machine.stepsUnder_steps h₁).trans hr)).2
    constructor
    · -- The thread has left the start of its loop before the second configuration.
      obtain ⟨pc₂, added₂, hat₂, hlog₂, hlow₂⟩ :=
        low_run (fun pc => pc = .loop ∨ pc.beforeLow = true)
          (fun slot pc pc' e hzero hpc h => (beforeLow_step hzero h hpc).imp_left .inr)
          hpin h₂ hstart (.inl rfl)
      obtain ⟨pc₃, added₃, hat₃, hlog₃, hlow₃⟩ :
          ∃ pc₃ added, s₃.At pin.toNat (s.softPwmPins pin.toNat).thread pc₃ ∧
            s₃.log = added ++ s₂.log ∧ (pc₂.beforeLow = true → pc₃.beforeLow = true ∨
              ∃ status, ⟨some (s.softPwmPins pin.toNat).thread,
                .system (digitalWriteCommand pin.toNat .low) status⟩ ∈ added) := by
        by_cases hbefore₂ : pc₂.beforeLow = true
        · obtain ⟨pc₃, added, hat, hlog, hlow⟩ := low_run (fun pc => pc.beforeLow = true)
            (fun slot pc pc' e hzero hpc h => beforeLow_step hzero h (.inr hpc))
            (fun r u hr => hpin r u ((Machine.stepsUnder_steps h₂).trans hr)) h₃ hat₂ hbefore₂
          exact ⟨pc₃, added, hat, hlog, fun _ => hlow⟩
        · obtain ⟨pc₃, added, hat, hlog, -⟩ := owes_run h₃ hat₂
          exact ⟨pc₃, added, hat, hlog, fun hyes => absurd hyes hbefore₂⟩
      refine ⟨added₃ ++ added₂, by rw [hlog₃, hlog₂, List.append_assoc], ?_⟩
      rw [hnat] at hlow₂ hlow₃
      rcases hlow₂ with hpart | ⟨status, hmem⟩
      · have hbefore₂ : pc₂.beforeLow = true := by
          rcases hpart with rfl | hpart
          · exact absurd hat₂ hleft
          · exact hpart
        rcases hlow₃ hbefore₂ with hpart₃ | ⟨status, hmem⟩
        · rcases hend with hloop | hfinished
          · rw [at_unique hat₃ hloop] at hpart₃
            cases hpart₃
          · rw [at_unique hat₃ hfinished] at hpart₃
            cases hpart₃
        · exact ⟨status, List.mem_append_left _ hmem⟩
      · exact ⟨status, List.mem_append_right _ hmem⟩
    · rintro ⟨q, t⟩ hc
      obtain ⟨pc', added, -, hlog, howes⟩ := owes_run hc hstart
      have hzero : SoftPwmPc.owes .loop = 0 := rfl
      change highWrites _ t.log = highWrites _ s₁.log
      rw [hlog, highWrites_append]
      omega

/-- The update comes between the test of the high phase and its write: HIGH is written once. -/
theorem zero_duty_turns_off_late :
    ∃ s₀ s t, machine.Runs (softPwmCalls [.start 22 50 500]) boot () s₀ ∧
      machine.Runs (softPwmUpdateDuty 22 0) s₀ 0 s ∧
      ZeroSteps 22 (softPwmCalls [], s) (softPwmCalls [], t) ∧
      highWrites 0 s.log = 0 ∧ highWrites 0 t.log = 1 ∧
      ∃ tid, s.Pending (.softPwm 22) tid ∧ ∀ c, ZeroSteps 22 (softPwmCalls [], s) c →
        highWrites tid c.2.log ≤ highWrites tid s.log + 1 := by
  obtain ⟨_, s₀, hbefore, hplay⟩ := machine.play_runs
    (List.replicate 9 (.inl 0) ++ List.replicate 3 (.inr (0, 0)))
    (softPwmCalls [.start 22 50 500]) boot
    (fun _ s₀ => (machine.play (List.replicate 4 (.inl 0)) (softPwmUpdateDuty 22 0) s₀).any
      fun c => c.1.returned.any fun value => value == 0 && highWrites 0 c.2.log == 0 &&
        (c.2.turn 0 0).any fun t => highWrites 0 t.log == 1) (by decide +kernel)
  obtain ⟨value, s, hupdate, htest⟩ := machine.play_runs _ _ _ (fun value s =>
    value == 0 && highWrites 0 s.log == 0 &&
      (s.turn 0 0).any fun t => highWrites 0 t.log == 1) hplay
  simp only [Bool.and_eq_true, beq_iff_eq, Option.any_eq_true] at htest
  obtain ⟨⟨rfl, hnone⟩, t, hturn, hone⟩ := htest
  obtain ⟨hduty, tid, -, hpending, hbound, -⟩ :=
    zero_duty_turns_off [.start 22 50 500] [] 22 s₀ s hbefore hupdate
  refine ⟨s₀, s, t, hbefore, hupdate, ?_, hnone, hone, tid, (hpending tid).mpr rfl, hbound⟩
  exact .single ⟨hduty, .env ⟨(0, 0), hturn⟩⟩

end EmbeddedCar.Gpio
