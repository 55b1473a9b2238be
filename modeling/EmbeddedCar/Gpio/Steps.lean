import EmbeddedCar.Gpio.Controller

/-!
# What a step can do

One inversion lemma for the steps of the worker threads, one for each operation of the main
thread, and the parts of the state that the threads leave alone.
-/

namespace EmbeddedCar.Gpio

open EmbeddedCar.Concurrent

/-! ### The worker threads -/

/-- The shell commands of a thread write its own pin. -/
theorem blinkThread_system {b : Blink} {pc pc' : BlinkPc} {command : ShellCommand}
    (h : blinkThread b pc = some (pc', .system command)) :
    ∃ value, command = digitalWriteCommand b.pin value := by
  unfold blinkThread at h
  split at h <;> (try split at h) <;> cases h <;> exact ⟨_, rfl⟩

theorem softPwmThread_system {p : SoftPwm} {pc pc' : SoftPwmPc} {command : ShellCommand}
    (h : softPwmThread p pc = some (pc', .system command)) :
    ∃ value, command = digitalWriteCommand p.pin value := by
  unfold softPwmThread at h
  split at h <;> (try split at h) <;> cases h <;> exact ⟨_, rfl⟩

/-- `soft_pwm_thread` never writes its slot. -/
theorem softPwmThread_ne_deactivate {p : SoftPwm} {pc pc' : SoftPwmPc} :
    softPwmThread p pc ≠ some (pc', .deactivate) := by
  intro h
  unfold softPwmThread at h
  split at h <;> (try split at h) <;> cases h

/-- `blink_thread` clears `active` in its last step only. -/
theorem blinkThread_deactivate {b : Blink} {pc pc' : BlinkPc}
    (h : blinkThread b pc = some (pc', .deactivate)) : pc' = .finished := by
  unfold blinkThread at h
  split at h <;> (try split at h) <;> cases h
  rfl

theorem blinkThread_finished {b : Blink} {pc pc' : BlinkPc} {e : ThreadEffect}
    (h : blinkThread b pc = some (pc', e)) : pc ≠ .finished := by
  rintro rfl
  cases h

/-- A task keeps its kind and its slot. -/
theorem advance_blink {s : State} {i : Nat} {pc : BlinkPc} {task : Task} {e : ThreadEffect}
    (h : s.advance (.blink i pc) = some (task, e)) :
    ∃ pc', task = .blink i pc' ∧ blinkThread (s.blinkPins i) pc = some (pc', e) := by
  obtain ⟨⟨pc', e'⟩, hthread, heq⟩ := Option.map_eq_some_iff.mp h
  obtain ⟨rfl, rfl⟩ := Prod.mk.inj heq
  exact ⟨pc', rfl, hthread⟩

theorem advance_softPwm {s : State} {i : Nat} {pc : SoftPwmPc} {task : Task}
    {e : ThreadEffect} (h : s.advance (.softPwm i pc) = some (task, e)) :
    ∃ pc', task = .softPwm i pc' ∧ softPwmThread (s.softPwmPins i) pc = some (pc', e) := by
  obtain ⟨⟨pc', e'⟩, hthread, heq⟩ := Option.map_eq_some_iff.mp h
  obtain ⟨rfl, rfl⟩ := Prod.mk.inj heq
  exact ⟨pc', rfl, hthread⟩

theorem turn_some {s t : State} {tid : Nat} {status : Int} (h : s.turn tid status = some t) :
    ∃ w task e, s.workers[tid]? = some w ∧ s.advance w.task = some (task, e) ∧
      t = { s.apply tid status w.task e with
        workers := s.workers.set tid { w with task := task } } := by
  unfold State.turn at h
  split at h
  · cases h
  · next w hw =>
    split at h
    · cases h
    · next task e hadvance =>
      cases h
      exact ⟨w, task, e, hw, hadvance, rfl⟩

/-- A step of the environment is a step of one thread. -/
theorem env_iff {s t : State} :
    machine.Env s t ↔ ∃ tid status w task e, s.workers[tid]? = some w ∧
      s.advance w.task = some (task, e) ∧
      t = { s.apply tid status w.task e with
        workers := s.workers.set tid { w with task := task } } := by
  constructor
  · rintro ⟨⟨tid, status⟩, h⟩
    obtain ⟨w, task, e, hw, hadvance, ht⟩ := turn_some h
    exact ⟨tid, status, w, task, e, hw, hadvance, ht⟩
  · rintro ⟨tid, status, w, task, e, hw, hadvance, rfl⟩
    refine ⟨(tid, status), ?_⟩
    change s.turn tid status = _
    simp only [State.turn, hw, hadvance]

/-- The threads leave the soft-PWM slots alone. -/
theorem env_softPwmPins {s t : State} (h : machine.Env s t) :
    t.softPwmPins = s.softPwmPins := by
  obtain ⟨tid, status, w, task, e, -, hadvance, rfl⟩ := env_iff.mp h
  cases htask : w.task with
  | blink i pc => cases e <;> rfl
  | softPwm i pc =>
    cases e with
    | deactivate =>
      rw [htask] at hadvance
      obtain ⟨pc', -, hthread⟩ := advance_softPwm hadvance
      exact absurd hthread softPwmThread_ne_deactivate
    | _ => rfl

theorem env_lastCommand {s t : State} (h : machine.Env s t) :
    t.lastCommand = s.lastCommand := by
  obtain ⟨tid, status, w, task, e, -, -, rfl⟩ := env_iff.mp h
  cases htask : w.task <;> cases e <;> rfl

/-- Thread `tid` is a blink thread on slot `i` that has not returned. -/
def State.Blinks (s : State) (tid i : Nat) : Prop :=
  ∃ pc joined, s.workers[tid]? = some ⟨.blink i pc, joined⟩ ∧ pc ≠ .finished

/-- A thread adds at most one call to the log, a sleep or a write of the pin of its slot. -/
theorem env_log {s t : State} (h : machine.Env s t) :
    t.log = s.log ∨ (∃ tid us, t.log = ⟨some tid, .usleep us⟩ :: s.log) ∨
      ∃ tid pin value status,
        t.log = ⟨some tid, .system (digitalWriteCommand pin value) status⟩ :: s.log ∧
          ((∃ i, s.Blinks tid i ∧ pin = (s.blinkPins i).pin) ∨
            ∃ i, pin = (s.softPwmPins i).pin) := by
  obtain ⟨tid, status, w, task, e, hw, hadvance, rfl⟩ := env_iff.mp h
  cases e with
  | silent => exact .inl (by cases w.task <;> rfl)
  | usleep us => exact .inr (.inl ⟨tid, us, by cases w.task <;> rfl⟩)
  | deactivate => exact .inl (by cases w.task <;> rfl)
  | system command =>
    right; right
    obtain ⟨taskOf, joined⟩ := w
    cases taskOf with
    | blink i pc =>
      obtain ⟨pc', -, hthread⟩ := advance_blink hadvance
      obtain ⟨value, rfl⟩ := blinkThread_system hthread
      exact ⟨tid, _, value, status, rfl,
        .inl ⟨i, ⟨pc, joined, hw, blinkThread_finished hthread⟩, rfl⟩⟩
    | softPwm i pc =>
      obtain ⟨pc', -, hthread⟩ := advance_softPwm hadvance
      obtain ⟨value, rfl⟩ := softPwmThread_system hthread
      exact ⟨tid, _, value, status, rfl, .inr ⟨i, rfl⟩⟩

/-- Only the end of a blink thread changes a blink slot: it clears `active`. -/
theorem env_blinkPins {s t : State} (h : machine.Env s t) :
    t.blinkPins = s.blinkPins ∨ ∃ tid i, s.Blinks tid i ∧ ¬ t.Blinks tid i ∧
      t.blinkPins = Function.update s.blinkPins i { s.blinkPins i with active := 0 } := by
  obtain ⟨tid, status, w, task, e, hw, hadvance, rfl⟩ := env_iff.mp h
  obtain ⟨taskOf, joined⟩ := w
  cases taskOf with
  | softPwm i pc => exact .inl (by cases e <;> rfl)
  | blink i pc =>
    cases e with
    | deactivate =>
      right
      obtain ⟨pc', rfl, hthread⟩ := advance_blink hadvance
      refine ⟨tid, i, ⟨pc, joined, hw, blinkThread_finished hthread⟩, ?_, rfl⟩
      rintro ⟨pc'', joined', hget, hlive⟩
      have hlen : tid < s.workers.length := (List.getElem?_eq_some_iff.mp hw).1
      rw [List.getElem?_set_self hlen] at hget
      cases hget
      exact hlive (blinkThread_deactivate hthread)
    | _ => exact .inl rfl

/-- A thread can only clear `active`. -/
theorem blink_inactive_env {s t : State} (h : machine.Env s t) {i : Nat}
    (hs : (s.blinkPins i).active = 0) : (t.blinkPins i).active = 0 := by
  rcases env_blinkPins h with hsame | ⟨tid, j, -, -, hpins⟩
  · rw [hsame]
    exact hs
  · rw [hpins]
    by_cases hij : i = j
    · simp [hij]
    · simpa [hij] using hs

/-- The threads start no blink thread. -/
theorem env_blinks {s t : State} (h : machine.Env s t) {tid i : Nat} (ht : t.Blinks tid i) :
    s.Blinks tid i := by
  obtain ⟨turn, status, w, task, e, hw, hadvance, rfl⟩ := env_iff.mp h
  obtain ⟨pc, joined, hget, hlive⟩ := ht
  by_cases hsame : turn = tid
  · have hlen : turn < s.workers.length := (List.getElem?_eq_some_iff.mp hw).1
    rw [← hsame, List.getElem?_set_self hlen] at hget
    obtain ⟨taskOf, joinedOf⟩ := w
    cases taskOf with
    | softPwm j pcOf =>
      obtain ⟨pc', rfl, -⟩ := advance_softPwm hadvance
      cases hget
    | blink j pcOf =>
      obtain ⟨pc', rfl, hthread⟩ := advance_blink hadvance
      cases hget
      exact ⟨pcOf, joinedOf, hsame ▸ hw, blinkThread_finished hthread⟩
  · rw [List.getElem?_set_ne hsame] at hget
    exact ⟨pc, joined, hget, hlive⟩

/-! ### Writes of a pin -/

/-- The level last written to a pin, by any thread. -/
def lastLevel (pin : Int) : List LogEntry → Option Level
  | [] => none
  | ⟨_, .system (.gpioSet p .dl) _⟩ :: log => if p = pin then some .low else lastLevel pin log
  | ⟨_, .system (.gpioSet p .dh) _⟩ :: log => if p = pin then some .high else lastLevel pin log
  | _ :: log => lastLevel pin log

def HostCall.writes (pin : Int) : HostCall → Bool
  | .system (.gpioSet p _) _ => p = pin
  | _ => false

@[simp] theorem lastLevel_digitalWrite (pin p status : Int) (value : Level)
    (author : Option Nat) (log : List LogEntry) :
    lastLevel pin (⟨author, .system (digitalWriteCommand p value) status⟩ :: log) =
      if p = pin then some value else lastLevel pin log := by
  cases value <;> rfl

@[simp] theorem writes_digitalWrite (pin p status : Int) (value : Level) :
    HostCall.writes pin (.system (digitalWriteCommand p value) status) = decide (p = pin) := by
  cases value <;> rfl

theorem writes_iff {pin : Int} {call : HostCall} :
    call.writes pin = true ↔ ∃ setting status, call = .system (.gpioSet pin setting) status := by
  constructor
  · intro h
    unfold HostCall.writes at h
    split at h
    · next p setting status =>
      obtain rfl : p = pin := of_decide_eq_true h
      exact ⟨setting, status, rfl⟩
    · cases h
  · rintro ⟨setting, status, rfl⟩
    exact decide_eq_true rfl

theorem lastLevel_cons_of_not_writes {pin : Int} {e : LogEntry} {log : List LogEntry}
    (h : e.call.writes pin ≠ true) : lastLevel pin (e :: log) = lastLevel pin log := by
  obtain ⟨author, call⟩ := e
  cases call with
  | usleep us => rfl
  | system command status =>
    cases command with
    | gpioSet p setting =>
      have hne : p ≠ pin := fun heq => h (decide_eq_true heq)
      cases setting with
      | dl => exact if_neg hne
      | dh => exact if_neg hne
      | _ => rfl
    | _ => rfl

/-! ### The operations of the main thread -/

section

variable {s t : State}

theorem exec_lock {m : Mutex} {r : Unit} (h : machine.Exec (.lock m) s r t) :
    t = { s with locked := Function.update s.locked m true } := by
  obtain ⟨status, h⟩ := h
  simp only [machine, perform] at h
  split at h
  · cases h
  · cases h
    rfl

theorem exec_unlock {m : Mutex} {r : Unit} (h : machine.Exec (.unlock m) s r t) :
    t = { s with locked := Function.update s.locked m false } := by
  obtain ⟨status, h⟩ := h
  cases h
  rfl

theorem exec_system {command : ShellCommand} {r : Int}
    (h : machine.Exec (.system command) s r t) : t = s.record none (.system command r) := by
  obtain ⟨status, h⟩ := h
  cases h
  rfl

theorem exec_usleep {us : Int} {r : Unit} (h : machine.Exec (.usleep us) s r t) :
    t = s.record none (.usleep us) := by
  obtain ⟨status, h⟩ := h
  cases h
  rfl

theorem exec_loadSoftPwm {i : Nat} {field : SoftPwmField} {r : Int}
    (h : machine.Exec (.loadSoftPwm i field) s r t) :
    r = (s.softPwmPins i).get field ∧ t = s := by
  obtain ⟨status, h⟩ := h
  cases h
  exact ⟨rfl, rfl⟩

theorem exec_storeSoftPwm {i : Nat} {field : SoftPwmField} {value : Int} {r : Unit}
    (h : machine.Exec (.storeSoftPwm i field value) s r t) :
    t = s.setSoftPwm i ((s.softPwmPins i).set value field) := by
  obtain ⟨status, h⟩ := h
  cases h
  rfl

theorem exec_loadBlink {i : Nat} {field : BlinkField} {r : Int}
    (h : machine.Exec (.loadBlink i field) s r t) :
    r = (s.blinkPins i).get field ∧ t = s := by
  obtain ⟨status, h⟩ := h
  cases h
  exact ⟨rfl, rfl⟩

theorem exec_storeBlink {i : Nat} {field : BlinkField} {value : Int} {r : Unit}
    (h : machine.Exec (.storeBlink i field value) s r t) :
    t = s.setBlink i ((s.blinkPins i).set value field) := by
  obtain ⟨status, h⟩ := h
  cases h
  rfl

theorem exec_createSoftPwm {i : Nat} {r : Int} (h : machine.Exec (.createSoftPwm i) s r t) :
    (r = 0 ∧ t = { s.setSoftPwm i { s.softPwmPins i with thread := s.workers.length } with
      workers := s.workers ++ [⟨.softPwm i .loop, false⟩] }) ∨ (r ≠ 0 ∧ t = s) := by
  obtain ⟨status, h⟩ := h
  simp only [machine, perform] at h
  split at h
  · cases h
    exact .inl ⟨rfl, rfl⟩
  · next hstatus =>
    cases h
    exact .inr ⟨hstatus, rfl⟩

theorem exec_createBlink {i : Nat} {r : Int} (h : machine.Exec (.createBlink i) s r t) :
    (r = 0 ∧ t = { s.setBlink i { s.blinkPins i with thread := s.workers.length } with
      workers := s.workers ++ [⟨.blink i .delayTime, false⟩] }) ∨ (r ≠ 0 ∧ t = s) := by
  obtain ⟨status, h⟩ := h
  simp only [machine, perform] at h
  split at h
  · cases h
    exact .inl ⟨rfl, rfl⟩
  · next hstatus =>
    cases h
    exact .inr ⟨hstatus, rfl⟩

/-- A join waits for the thread to return. -/
theorem join_some {tid : Nat} (h : s.join tid = some t) :
    ∃ w, s.workers[tid]? = some w ∧ w.task.finished = true ∧ w.joined = false ∧
      t = { s with workers := s.workers.set tid { w with joined := true } } := by
  unfold State.join at h
  split at h
  · cases h
  · next w hw =>
    split at h
    · next hready =>
      cases h
      exact ⟨w, hw, hready.1, by simpa using hready.2, rfl⟩
    · cases h

theorem exec_joinSoftPwm {i : Nat} {r : Unit} (h : machine.Exec (.joinSoftPwm i) s r t) :
    s.join (s.softPwmPins i).thread = some t := by
  obtain ⟨status, h⟩ := h
  obtain ⟨u, hjoin, heq⟩ := Option.map_eq_some_iff.mp h
  cases heq
  exact hjoin

theorem exec_joinBlink {i : Nat} {r : Unit} (h : machine.Exec (.joinBlink i) s r t) :
    s.join (s.blinkPins i).thread = some t := by
  obtain ⟨status, h⟩ := h
  obtain ⟨u, hjoin, heq⟩ := Option.map_eq_some_iff.mp h
  cases heq
  exact hjoin

theorem exec_loadLastCommand {r : CarCommand} (h : machine.Exec .loadLastCommand s r t) :
    r = s.lastCommand ∧ t = s := by
  obtain ⟨status, h⟩ := h
  cases h
  exact ⟨rfl, rfl⟩

theorem exec_storeLastCommand {command : CarCommand} {r : Unit}
    (h : machine.Exec (.storeLastCommand command) s r t) :
    t = { s with lastCommand := command } := by
  obtain ⟨status, h⟩ := h
  cases h
  rfl

theorem not_exec_undefinedBehaviour {r : Unit} :
    ¬ machine.Exec .undefinedBehaviour s r t := by
  rintro ⟨status, h⟩
  cases h

/-- What an operation adds to the log. -/
def Op.calls : (o : Op) → o.Res → List LogEntry
  | .system command, status => [⟨none, .system command status⟩]
  | .usleep us, _ => [⟨none, .usleep us⟩]
  | _, _ => []

theorem exec_log {o : Op} {r : o.Res} (h : machine.Exec o s r t) :
    t.log = o.calls r ++ s.log := by
  cases o with
  | lock m => rw [exec_lock h]; rfl
  | unlock m => rw [exec_unlock h]; rfl
  | system command => rw [exec_system h]; rfl
  | usleep us => rw [exec_usleep h]; rfl
  | loadSoftPwm i field => rw [(exec_loadSoftPwm h).2]; rfl
  | storeSoftPwm i field value => rw [exec_storeSoftPwm h]; rfl
  | loadBlink i field => rw [(exec_loadBlink h).2]; rfl
  | storeBlink i field value => rw [exec_storeBlink h]; rfl
  | createSoftPwm i => rcases exec_createSoftPwm h with ⟨-, rfl⟩ | ⟨-, rfl⟩ <;> rfl
  | createBlink i => rcases exec_createBlink h with ⟨-, rfl⟩ | ⟨-, rfl⟩ <;> rfl
  | joinSoftPwm i =>
    obtain ⟨w, -, -, -, rfl⟩ := join_some (exec_joinSoftPwm h)
    rfl
  | joinBlink i =>
    obtain ⟨w, -, -, -, rfl⟩ := join_some (exec_joinBlink h)
    rfl
  | loadLastCommand => rw [(exec_loadLastCommand h).2]; rfl
  | storeLastCommand command => rw [exec_storeLastCommand h]; rfl
  | undefinedBehaviour => exact absurd h not_exec_undefinedBehaviour

/-- The operations that leave the tables and the threads as they are. -/
def leavesTables : Op → Prop
  | .storeSoftPwm .. | .createSoftPwm _ | .joinSoftPwm _ => False
  | .storeBlink .. | .createBlink _ | .joinBlink _ => False
  | _ => True

theorem exec_leavesTables {o : Op} (ho : leavesTables o) {r : o.Res}
    (h : machine.Exec o s r t) :
    t.softPwmPins = s.softPwmPins ∧ t.blinkPins = s.blinkPins ∧ t.workers = s.workers := by
  cases o with
  | lock m => simp [exec_lock h]
  | unlock m => simp [exec_unlock h]
  | system command => simp [exec_system h, State.record]
  | usleep us => simp [exec_usleep h, State.record]
  | loadSoftPwm i field => simp [(exec_loadSoftPwm h).2]
  | loadBlink i field => simp [(exec_loadBlink h).2]
  | loadLastCommand => simp [(exec_loadLastCommand h).2]
  | storeLastCommand command => simp [exec_storeLastCommand h]
  | undefinedBehaviour => exact absurd h not_exec_undefinedBehaviour
  | storeSoftPwm i field value => cases ho
  | createSoftPwm i => cases ho
  | joinSoftPwm i => cases ho
  | storeBlink i field value => cases ho
  | createBlink i => cases ho
  | joinBlink i => cases ho

/-- The operations that leave the blink slots alone and start no blink thread. -/
def leavesBlinks : Op → Prop
  | .storeBlink .. | .createBlink .. => False
  | _ => True

theorem exec_blinkPins {o : Op} (ho : leavesBlinks o) {r : o.Res} (h : machine.Exec o s r t) :
    t.blinkPins = s.blinkPins := by
  cases o with
  | storeBlink i field value => cases ho
  | createBlink i => cases ho
  | storeSoftPwm i field value => rw [exec_storeSoftPwm h]; rfl
  | createSoftPwm i => rcases exec_createSoftPwm h with ⟨-, rfl⟩ | ⟨-, rfl⟩ <;> rfl
  | joinSoftPwm i =>
    obtain ⟨w, -, -, -, rfl⟩ := join_some (exec_joinSoftPwm h)
    rfl
  | joinBlink i =>
    obtain ⟨w, -, -, -, rfl⟩ := join_some (exec_joinBlink h)
    rfl
  | _ => exact (exec_leavesTables (by trivial) h).2.1

/-- A thread of a grown list is an old one or the new one. -/
theorem getElem?_concat_some {workers : List Worker} {new w : Worker} {tid : Nat}
    (h : (workers ++ [new])[tid]? = some w) :
    workers[tid]? = some w ∨ tid = workers.length ∧ w = new := by
  rw [List.getElem?_append] at h
  split at h
  · exact .inl h
  · next hlen =>
    right
    obtain ⟨hindex, hw⟩ := List.getElem?_eq_some_iff.mp h
    have hzero : tid - workers.length = 0 := by simpa using hindex
    refine ⟨by omega, ?_⟩
    rw [← hw]
    simp [hzero]

/-- A join only marks a thread that has returned. -/
theorem join_blinks {tid : Nat} (h : s.join tid = some t) {tid' i : Nat}
    (ht : t.Blinks tid' i) : s.Blinks tid' i ∧ tid' ≠ tid := by
  obtain ⟨w, hw, hfinished, -, rfl⟩ := join_some h
  obtain ⟨pc, joined, hget, hlive⟩ := ht
  by_cases hsame : tid = tid'
  · have hlen : tid < s.workers.length := (List.getElem?_eq_some_iff.mp hw).1
    rw [← hsame, List.getElem?_set_self hlen] at hget
    have htask : w.task = .blink i pc := congrArg Worker.task (Option.some.inj hget)
    rw [htask] at hfinished
    exact absurd (of_decide_eq_true hfinished) hlive
  · rw [List.getElem?_set_ne hsame] at hget
    exact ⟨⟨pc, joined, hget, hlive⟩, Ne.symm hsame⟩

/-- The operations that start no blink thread. -/
def startsNoBlink : Op → Prop
  | .createBlink _ => False
  | _ => True

theorem startsNoBlink_of_leavesBlinks {o : Op} (ho : leavesBlinks o) : startsNoBlink o := by
  cases o <;> trivial

theorem exec_blinks {o : Op} (ho : startsNoBlink o) {r : o.Res} (h : machine.Exec o s r t)
    {tid i : Nat} (ht : t.Blinks tid i) : s.Blinks tid i := by
  have hsame : t.workers = s.workers → s.Blinks tid i := by
    intro heq
    unfold State.Blinks at ht
    rw [heq] at ht
    exact ht
  cases o with
  | createBlink i => cases ho
  | createSoftPwm j =>
    rcases exec_createSoftPwm h with ⟨-, rfl⟩ | ⟨-, rfl⟩
    · obtain ⟨pc, joined, hget, hlive⟩ := ht
      rcases getElem?_concat_some hget with hold | ⟨-, hnew⟩
      · exact ⟨pc, joined, hold, hlive⟩
      · cases hnew
    · exact ht
  | joinSoftPwm i => exact (join_blinks (exec_joinSoftPwm h) ht).1
  | joinBlink i => exact (join_blinks (exec_joinBlink h) ht).1
  | storeSoftPwm i field value => exact hsame (by rw [exec_storeSoftPwm h]; rfl)
  | storeBlink i field value => exact hsame (by rw [exec_storeBlink h]; rfl)
  | _ => exact hsame (exec_leavesTables (by trivial) h).2.2

end

end EmbeddedCar.Gpio
