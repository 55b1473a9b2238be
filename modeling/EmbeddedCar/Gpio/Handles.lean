import EmbeddedCar.Concurrent.Contract
import EmbeddedCar.Gpio.Steps

/-!
# Thread handles

A slot of either table holds the handle of the thread last created for it. A thread is pending
until it has been joined; the handle is the only way to join it, so a slot must not be given a
new thread while an old one is pending.
-/

namespace EmbeddedCar.Gpio

open EmbeddedCar.Concurrent

/-- A slot of `soft_pwm_pins` or of `blink_pins`. -/
inductive Slot where
  | softPwm (i : Nat)
  | blink (i : Nat)
  deriving DecidableEq, Repr

/-- The slot a thread was created for. -/
def Task.slot : Task → Slot
  | .blink i _ => .blink i
  | .softPwm i _ => .softPwm i

namespace State

/-- The thread whose handle the slot holds. -/
def handle (s : State) : Slot → Nat
  | .softPwm i => (s.softPwmPins i).thread
  | .blink i => (s.blinkPins i).thread

/-- Thread `tid` was created for the slot and has not been joined. -/
def Pending (s : State) (c : Slot) (tid : Nat) : Prop :=
  ∃ task, s.workers[tid]? = some ⟨task, false⟩ ∧ task.slot = c

end State

/-- Every thread of the slot has been joined. -/
def Vacant (c : Slot) (s : State) : Prop := ∀ tid, ¬ s.Pending c tid

/-- The slot has one pending thread, and holds its handle. -/
def Held (c : Slot) (s : State) : Prop := ∀ tid, s.Pending c tid ↔ tid = s.handle c

/-- What has to hold when a thread is joined or created: a join is the first one of a thread of
its slot, and a creation finds every thread of its slot joined. -/
def joinsOnce : Op → State → Prop
  | .joinSoftPwm i, s => s.Pending (.softPwm i) (s.handle (.softPwm i))
  | .joinBlink i, s => s.Pending (.blink i) (s.handle (.blink i))
  | .createSoftPwm i, s => Vacant (.softPwm i) s
  | .createBlink i, s => Vacant (.blink i) s
  | _, _ => True

/-! ### Steps of the threads -/

theorem advance_slot {s : State} {task task' : Task} {e : ThreadEffect}
    (h : s.advance task = some (task', e)) : task'.slot = task.slot := by
  cases task with
  | blink i pc =>
    obtain ⟨pc', rfl, -⟩ := advance_blink h
    rfl
  | softPwm i pc =>
    obtain ⟨pc', rfl, -⟩ := advance_softPwm h
    rfl

/-- A thread after a step of the environment. -/
theorem env_worker {s t : State} (h : machine.Env s t) {tid : Nat} {w' : Worker}
    (hw' : t.workers[tid]? = some w') :
    ∃ w, s.workers[tid]? = some w ∧ w'.joined = w.joined ∧
      (w' = w ∨ ∃ e, s.advance w.task = some (w'.task, e)) := by
  obtain ⟨turn, status, w, task, e, hw, hadvance, rfl⟩ := env_iff.mp h
  by_cases hsame : turn = tid
  · subst hsame
    have hlen : turn < s.workers.length := (List.getElem?_eq_some_iff.mp hw).1
    rw [List.getElem?_set_self hlen] at hw'
    cases hw'
    exact ⟨w, hw, rfl, .inr ⟨e, hadvance⟩⟩
  · rw [List.getElem?_set_ne hsame] at hw'
    exact ⟨w', hw', rfl, .inl rfl⟩

/-- A thread before a step of the environment. -/
theorem env_worker_next {s t : State} (h : machine.Env s t) {tid : Nat} {w : Worker}
    (hw : s.workers[tid]? = some w) :
    ∃ w', t.workers[tid]? = some w' ∧ w'.joined = w.joined ∧
      (w' = w ∨ ∃ e, s.advance w.task = some (w'.task, e)) := by
  obtain ⟨turn, status, w₀, task, e, hw₀, hadvance, rfl⟩ := env_iff.mp h
  by_cases hsame : turn = tid
  · subst hsame
    obtain rfl : w₀ = w := Option.some.inj (hw₀.symm.trans hw)
    have hlen : turn < s.workers.length := (List.getElem?_eq_some_iff.mp hw).1
    exact ⟨_, List.getElem?_set_self hlen, rfl, .inr ⟨e, hadvance⟩⟩
  · exact ⟨w, by rw [List.getElem?_set_ne hsame, hw], rfl, .inl rfl⟩

theorem slot_eq_of_moved {s : State} {w w' : Worker}
    (h : w' = w ∨ ∃ e, s.advance w.task = some (w'.task, e)) : w'.task.slot = w.task.slot := by
  rcases h with rfl | ⟨e, hadvance⟩
  · rfl
  · exact advance_slot hadvance

theorem pending_env {s t : State} (h : machine.Env s t) (c : Slot) (tid : Nat) :
    t.Pending c tid ↔ s.Pending c tid := by
  constructor
  · rintro ⟨task', hw', hslot⟩
    obtain ⟨⟨task, joined⟩, hw, hjoined, hmoved⟩ := env_worker h hw'
    cases hjoined
    exact ⟨task, hw, (slot_eq_of_moved hmoved).symm.trans hslot⟩
  · rintro ⟨task, hw, hslot⟩
    obtain ⟨⟨task', joined⟩, hw', hjoined, hmoved⟩ := env_worker_next h hw
    cases hjoined
    exact ⟨task', hw', (slot_eq_of_moved hmoved).trans hslot⟩

theorem handle_env {s t : State} (h : machine.Env s t) (c : Slot) : t.handle c = s.handle c := by
  cases c with
  | softPwm i =>
    unfold State.handle
    rw [env_softPwmPins h]
  | blink i =>
    rcases env_blinkPins h with hsame | ⟨tid, j, -, -, hpins⟩
    · unfold State.handle
      rw [hsame]
    · unfold State.handle
      rw [hpins]
      by_cases hij : i = j
      · simp [hij]
      · simp [hij]

theorem vacant_stable (c : Slot) : machine.Stable (Vacant c) :=
  fun _ _ hs henv tid ht => hs tid ((pending_env henv c tid).mp ht)

theorem held_stable (c : Slot) : machine.Stable (Held c) := by
  intro s t hs henv tid
  rw [pending_env henv, handle_env henv]
  exact hs tid

/-! ### Operations of the main thread -/

section

variable {s t : State}

/-- The pending threads depend on the list of threads alone. -/
theorem pending_congr (h : t.workers = s.workers) (c : Slot) (tid : Nat) :
    t.Pending c tid ↔ s.Pending c tid := by
  unfold State.Pending
  rw [h]

/-- A new thread. -/
theorem pending_append {task : Task} (h : t.workers = s.workers ++ [⟨task, false⟩]) (c : Slot)
    (tid : Nat) :
    t.Pending c tid ↔ s.Pending c tid ∨ tid = s.workers.length ∧ task.slot = c := by
  unfold State.Pending
  rw [h]
  constructor
  · rintro ⟨task', hw, hslot⟩
    rcases getElem?_concat_some hw with hold | ⟨hlen, hnew⟩
    · exact .inl ⟨task', hold, hslot⟩
    · cases hnew
      exact .inr ⟨hlen, hslot⟩
  · rintro (⟨task', hw, hslot⟩ | ⟨rfl, hslot⟩)
    · have hlen : tid < s.workers.length := (List.getElem?_eq_some_iff.mp hw).1
      exact ⟨task', by rw [List.getElem?_append_left hlen, hw], hslot⟩
    · exact ⟨task, by simp, hslot⟩

/-- A join. -/
theorem pending_join {joined : Nat} (h : s.join joined = some t) (c : Slot) (tid : Nat) :
    t.Pending c tid ↔ s.Pending c tid ∧ tid ≠ joined := by
  obtain ⟨w, hw, -, -, rfl⟩ := join_some h
  have hlen : joined < s.workers.length := (List.getElem?_eq_some_iff.mp hw).1
  by_cases hsame : joined = tid
  · subst hsame
    constructor
    · rintro ⟨task, hget, -⟩
      rw [List.getElem?_set_self hlen] at hget
      cases hget
    · rintro ⟨-, hne⟩
      exact absurd rfl hne
  · unfold State.Pending
    rw [List.getElem?_set_ne hsame]
    constructor
    · exact fun hold => ⟨hold, Ne.symm hsame⟩
    · exact fun hold => hold.1

/-- An operation moves no thread. -/
theorem exec_task {o : Op} {r : o.Res} (h : machine.Exec o s r t) {tid : Nat} {w : Worker}
    (hw : s.workers[tid]? = some w) : ∃ w', t.workers[tid]? = some w' ∧ w'.task = w.task := by
  have hlen : tid < s.workers.length := (List.getElem?_eq_some_iff.mp hw).1
  have happend : ∀ new, (s.workers ++ [new])[tid]? = some w := fun new => by
    rw [List.getElem?_append_left hlen, hw]
  have hjoin : ∀ joined, s.join joined = some t →
      ∃ w', t.workers[tid]? = some w' ∧ w'.task = w.task := by
    intro joined hjoined
    obtain ⟨w₀, hw₀, -, -, rfl⟩ := join_some hjoined
    by_cases hsame : joined = tid
    · subst hsame
      obtain rfl : w₀ = w := Option.some.inj (hw₀.symm.trans hw)
      exact ⟨_, List.getElem?_set_self hlen, rfl⟩
    · exact ⟨w, by rw [List.getElem?_set_ne hsame, hw], rfl⟩
  have hsame : t.workers = s.workers → ∃ w', t.workers[tid]? = some w' ∧ w'.task = w.task := by
    intro heq
    exact ⟨w, by rw [heq, hw], rfl⟩
  cases o with
  | createSoftPwm i =>
    rcases exec_createSoftPwm h with ⟨-, rfl⟩ | ⟨-, rfl⟩
    · exact ⟨w, happend _, rfl⟩
    · exact ⟨w, hw, rfl⟩
  | createBlink i =>
    rcases exec_createBlink h with ⟨-, rfl⟩ | ⟨-, rfl⟩
    · exact ⟨w, happend _, rfl⟩
    · exact ⟨w, hw, rfl⟩
  | joinSoftPwm i => exact hjoin _ (exec_joinSoftPwm h)
  | joinBlink i => exact hjoin _ (exec_joinBlink h)
  | storeSoftPwm i field value => exact hsame (by rw [exec_storeSoftPwm h]; rfl)
  | storeBlink i field value => exact hsame (by rw [exec_storeBlink h]; rfl)
  | _ => exact hsame (exec_leavesTables (by trivial) h).2.2

/-- Joining the thread of a slot leaves the slot vacant. -/
theorem vacant_of_join {c : Slot} (hs : Held c s) (h : s.join (s.handle c) = some t) :
    Vacant c t := by
  intro tid ht
  obtain ⟨hold, hne⟩ := (pending_join h c tid).mp ht
  exact hne ((hs tid).mp hold)

/-- A pending thread belongs to one slot. -/
theorem pending_slot {c c' : Slot} {tid : Nat} (h : s.Pending c tid) (h' : s.Pending c' tid) :
    c = c' := by
  obtain ⟨task, hw, hslot⟩ := h
  obtain ⟨task', hw', hslot'⟩ := h'
  cases hw.symm.trans hw'
  exact hslot.symm.trans hslot'

/-- Joining the thread of a slot leaves the other slots alone. -/
theorem pending_join_other {c c' : Slot} (hs : Held c s) (h : s.join (s.handle c) = some t)
    (hne : c' ≠ c) (tid : Nat) : t.Pending c' tid ↔ s.Pending c' tid := by
  rw [pending_join h]
  constructor
  · exact fun hold => hold.1
  · intro hold
    refine ⟨hold, ?_⟩
    intro htid
    exact hne (pending_slot hold ((hs tid).mpr htid))

/-- A thread created for one slot leaves the others alone. -/
theorem pending_append_other {c : Slot} {task : Task}
    (h : t.workers = s.workers ++ [⟨task, false⟩]) (hne : c ≠ task.slot) (tid : Nat) :
    t.Pending c tid ↔ s.Pending c tid := by
  rw [pending_append h]
  constructor
  · intro hnew
    rcases hnew with hold | ⟨-, hslot⟩
    · exact hold
    · exact absurd hslot.symm hne
  · exact .inl

/-- A thread created for a vacant slot. -/
theorem held_of_append {c : Slot} {task : Task} (hs : Vacant c s)
    (h : t.workers = s.workers ++ [⟨task, false⟩]) (hslot : task.slot = c)
    (hhandle : t.handle c = s.workers.length) : Held c t := by
  intro tid
  rw [pending_append h, hhandle]
  constructor
  · rintro (hold | ⟨hlen, -⟩)
    · exact absurd hold (hs tid)
    · exact hlen
  · exact fun hlen => .inr ⟨hlen, hslot⟩

/-- What happens to another slot does not matter. -/
theorem held_congr {c : Slot} (hpending : ∀ tid, t.Pending c tid ↔ s.Pending c tid)
    (hhandle : t.handle c = s.handle c) : Held c t ↔ Held c s := by
  unfold Held
  rw [hhandle]
  simp only [hpending]

theorem vacant_congr {c : Slot} (hpending : ∀ tid, t.Pending c tid ↔ s.Pending c tid) :
    Vacant c t ↔ Vacant c s := by
  unfold Vacant
  simp only [hpending]

end

/-! ### Assertions about the tables -/

/-- An assertion about the two tables and the threads, which the threads themselves keep. -/
structure Tabular (P : State → Prop) : Prop where
  stable : machine.Stable P
  congr : ∀ s t, t.softPwmPins = s.softPwmPins → t.blinkPins = s.blinkPins →
    t.workers = s.workers → P s → P t

theorem tabular_and {P R : State → Prop} (hP : Tabular P) (hR : Tabular R) :
    Tabular fun s => P s ∧ R s where
  stable := fun s t hs henv => ⟨hP.stable s t hs.1 henv, hR.stable s t hs.2 henv⟩
  congr := fun s t hsoft hblink hworkers hs =>
    ⟨hP.congr s t hsoft hblink hworkers hs.1, hR.congr s t hsoft hblink hworkers hs.2⟩

theorem tabular_vacant (c : Slot) : Tabular (Vacant c) where
  stable := vacant_stable c
  congr := fun _ _ _ _ hworkers hs => (vacant_congr (pending_congr hworkers _)).mpr hs

theorem handle_congr {s t : State} (hsoft : t.softPwmPins = s.softPwmPins)
    (hblink : t.blinkPins = s.blinkPins) (c : Slot) : t.handle c = s.handle c := by
  cases c <;> simp [State.handle, hsoft, hblink]

theorem tabular_held (c : Slot) : Tabular (Held c) where
  stable := held_stable c
  congr := fun _ _ hsoft hblink hworkers hs =>
    (held_congr (pending_congr hworkers _) (handle_congr hsoft hblink _)).mpr hs

theorem leavesTables_gpioSet (pin : Int) (setting : PinSetting) :
    leavesTables (.system (.gpioSet pin setting)) := trivial

theorem tabular_exec {P : State → Prop} (hP : Tabular P) {o : Op} (ho : leavesTables o)
    {s t : State} {r : o.Res} (hs : P s) (h : machine.Exec o s r t) : P t := by
  obtain ⟨hsoft, hblink, hworkers⟩ := exec_leavesTables ho h
  exact hP.congr s t hsoft hblink hworkers hs

theorem joinsOnce_of_leavesTables {o : Op} (ho : leavesTables o) (s : State) :
    joinsOnce o s := by
  cases o <;> trivial

/-- Every run of the program under the proviso joins each thread once, and leads from `P` to
`Q`. -/
abbrev JoinsOnce {α : Type} (A : Proviso Op Op.Res State) (P : State → Prop) (p : MainProg α)
    (Q : α → State → Prop) : Prop :=
  machine.Contract A joinsOnce P p Q

section

variable {α : Type} {A : Proviso Op Op.Res State} {P : State → Prop} {Q : α → State → Prop}

theorem joins_leaves (hP : Tabular P) {o : Op} (ho : leavesTables o) {next : o.Res → MainProg α}
    (hnext : ∀ r, JoinsOnce A P (next r) Q) : JoinsOnce A P (.op o next) Q := by
  apply Machine.contract_op (N := fun _ => P) hP.stable
  · exact fun s _ _ => joinsOnce_of_leavesTables ho s
  · exact fun s r t hs _ h => tabular_exec hP ho hs h
  · exact hnext

theorem joins_leaves_bind {β : Type} (hP : Tabular P) {p : MainProg β} (hp : p.Uses leavesTables)
    {f : β → MainProg α} (hf : ∀ value, JoinsOnce A P (f value) Q) :
    JoinsOnce A P (p >>= f) Q := by
  apply Machine.contract_bind (N := fun _ => P)
  · apply Machine.contract_uses hP.stable
    · exact fun o ho s _ => joinsOnce_of_leavesTables ho s
    · exact fun o ho s r t hs h => tabular_exec hP ho hs h
    · exact hp
  · exact hf

theorem joins_ret (hP : Tabular P) {value : α} (hQ : ∀ s, P s → Q value s) :
    JoinsOnce A P (.ret value) Q :=
  Machine.contract_ret hP.stable hQ

end

end EmbeddedCar.Gpio
