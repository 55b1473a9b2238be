import EmbeddedCar.Gpio.Footprint
import EmbeddedCar.Gpio.Handles

/-!
# The soft-PWM table

Sequences of `softPwmStart`, `softPwmUpdateDuty` and `softPwmStop`, with any arguments, any
failures and any interleaving with the threads. A slot is active exactly while one pending thread
runs on it; `soft_pwm_thread` never changes its slot, so between calls the table says which
threads there are.
-/

namespace EmbeddedCar.Gpio

open EmbeddedCar.Concurrent EmbeddedCar.Text Prog

/-- A call of the soft-PWM functions. -/
inductive SoftPwmCall where
  | start (pin dutyCycle frequency : Int)
  | updateDuty (pin dutyCycle : Int)
  | stop (pin : Int)
  deriving DecidableEq, Repr

namespace SoftPwmCall

def pin : SoftPwmCall → Int
  | .start pin _ _ => pin
  | .updateDuty pin _ => pin
  | .stop pin => pin

def program : SoftPwmCall → MainProg Int
  | .start pin dutyCycle frequency => softPwmStart pin dutyCycle frequency
  | .updateDuty pin dutyCycle => softPwmUpdateDuty pin dutyCycle
  | .stop pin => softPwmStop pin

/-- The range checks of the call. -/
def InRange : SoftPwmCall → Prop
  | .start pin dutyCycle frequency =>
      (0 ≤ pin ∧ pin ≤ 27) ∧ (0 ≤ dutyCycle ∧ dutyCycle ≤ 100) ∧ 0 < frequency
  | .updateDuty pin dutyCycle => (0 ≤ pin ∧ pin ≤ 27) ∧ 0 ≤ dutyCycle ∧ dutyCycle ≤ 100
  | .stop pin => 0 ≤ pin ∧ pin ≤ 27

/-- The call, its result ignored. -/
def statement (call : SoftPwmCall) : MainProg Unit := do
  let _ ← call.program
  return ()

end SoftPwmCall

/-- The calls of a program one after another. -/
def softPwmCalls (calls : List SoftPwmCall) : MainProg Unit :=
  Prog.sequence (calls.map SoftPwmCall.statement)

/-- A thread of soft-PWM slot `i` that is in its loop. -/
def State.Looping (s : State) (i tid : Nat) : Prop :=
  ∃ pc, s.workers[tid]? = some ⟨.softPwm i pc, false⟩ ∧ pc ≠ .lastLow ∧ pc ≠ .finished

/-- The values `softPwmStart` accepts. -/
structure SoftPwm.Valid (slot : SoftPwm) (i : Nat) : Prop where
  pin : slot.pin = i
  duty : 0 ≤ slot.dutyCycle ∧ slot.dutyCycle ≤ 100
  frequency : 0 < slot.frequency

/-- An active slot: its handle is its one pending thread, and this thread is in its loop. -/
structure Running (i : Nat) (s : State) : Prop where
  held : Held (.softPwm i) s
  active : (s.softPwmPins i).active ≠ 0
  looping : s.Looping i (s.softPwmPins i).thread
  valid : (s.softPwmPins i).Valid i

/-- A slot between calls. -/
def Row (i : Nat) (s : State) : Prop :=
  Running i s ∨ (s.softPwmPins i).active = 0 ∧ Vacant (.softPwm i) s

/-- The table between calls. -/
def Table (s : State) : Prop := ∀ i, Row i s

theorem table_boot : Table boot := by
  refine fun i => .inr ⟨rfl, ?_⟩
  rintro tid ⟨task, hw, -⟩
  cases hw

/-! ### Steps of the threads -/

/-- A thread leaves its loop only when its slot is not active. -/
theorem softPwmThread_looping {p : SoftPwm} {pc pc' : SoftPwmPc} {e : ThreadEffect}
    (h : softPwmThread p pc = some (pc', e)) (hactive : p.active ≠ 0) (hpc : pc ≠ .lastLow) :
    pc' ≠ .lastLow ∧ pc' ≠ .finished := by
  cases pc with
  | loop =>
    simp only [softPwmThread, if_pos hactive] at h
    cases h
    exact ⟨nofun, nofun⟩
  | lastLow => exact absurd rfl hpc
  | finished => cases h
  | times => cases h; exact ⟨nofun, nofun⟩
  | testHigh t =>
    simp only [softPwmThread] at h
    split at h <;> (cases h; exact ⟨nofun, nofun⟩)
  | testLow t =>
    simp only [softPwmThread] at h
    split at h <;> (cases h; exact ⟨nofun, nofun⟩)
  | testZero t =>
    simp only [softPwmThread] at h
    split at h <;> (cases h; exact ⟨nofun, nofun⟩)
  | testFull t =>
    simp only [softPwmThread] at h
    split at h <;> (cases h; exact ⟨nofun, nofun⟩)
  | _ => cases h; exact ⟨nofun, nofun⟩

theorem looping_env {s t : State} (h : machine.Env s t) {i tid : Nat}
    (hactive : (s.softPwmPins i).active ≠ 0) (hs : s.Looping i tid) : t.Looping i tid := by
  obtain ⟨pc, hw, hlow, hfinished⟩ := hs
  obtain ⟨⟨task', joined⟩, hw', hjoined, hmoved⟩ := env_worker_next h hw
  cases hjoined
  rcases hmoved with heq | ⟨e, hadvance⟩
  · cases heq
    exact ⟨pc, hw', hlow, hfinished⟩
  · obtain ⟨pc', rfl, hthread⟩ := advance_softPwm hadvance
    exact ⟨pc', hw', softPwmThread_looping hthread hactive hlow⟩

theorem running_stable (i : Nat) : machine.Stable (Running i) := by
  intro s t hs henv
  have hpins := env_softPwmPins henv
  refine ⟨held_stable _ s t hs.held henv, ?_, ?_, ?_⟩
  · rw [hpins]
    exact hs.active
  · rw [hpins]
    exact looping_env henv hs.active hs.looping
  · rw [hpins]
    exact hs.valid

theorem row_stable (i : Nat) : machine.Stable (Row i) := by
  rintro s t (hrunning | ⟨hactive, hvacant⟩) henv
  · exact .inl (running_stable i s t hrunning henv)
  · refine .inr ⟨?_, vacant_stable _ s t hvacant henv⟩
    rw [env_softPwmPins henv]
    exact hactive

/-! ### What a call leaves alone -/

/-- A row depends on its slot, on the pending threads of the slot, and on the thread of its
handle. -/
theorem row_congr {s t : State} {i : Nat} (hpins : t.softPwmPins i = s.softPwmPins i)
    (hpending : ∀ tid, t.Pending (.softPwm i) tid ↔ s.Pending (.softPwm i) tid)
    (hlooping : ∀ tid, s.Looping i tid → t.Looping i tid) (hs : Row i s) : Row i t := by
  have hhandle : t.handle (.softPwm i) = s.handle (.softPwm i) := congrArg SoftPwm.thread hpins
  rcases hs with hrunning | ⟨hactive, hvacant⟩
  · left
    refine ⟨(held_congr hpending hhandle).mpr hrunning.held, ?_, ?_, ?_⟩
    · rw [hpins]
      exact hrunning.active
    · rw [hpins]
      exact hlooping _ hrunning.looping
    · rw [hpins]
      exact hrunning.valid
  · exact .inr ⟨hpins ▸ hactive, (vacant_congr hpending).mpr hvacant⟩

/-- The slots other than `i` are as in `pins`, each with its threads. -/
def Others (i : Nat) (pins : Nat → SoftPwm) (s : State) : Prop :=
  ∀ j, j ≠ i → s.softPwmPins j = pins j ∧ Row j s

theorem others_stable (i : Nat) (pins : Nat → SoftPwm) : machine.Stable (Others i pins) := by
  intro s t hs henv j hj
  refine ⟨?_, row_stable j s t (hs j hj).2 henv⟩
  rw [env_softPwmPins henv]
  exact (hs j hj).1

theorem others_congr {i : Nat} {pins : Nat → SoftPwm} {s t : State} (hs : Others i pins s)
    (hpins : ∀ j, j ≠ i → t.softPwmPins j = s.softPwmPins j)
    (hpending : ∀ j, j ≠ i → ∀ tid, t.Pending (.softPwm j) tid ↔ s.Pending (.softPwm j) tid)
    (hlooping : ∀ j, j ≠ i → ∀ tid, s.Looping j tid → t.Looping j tid) : Others i pins t := by
  intro j hj
  exact ⟨(hpins j hj).trans (hs j hj).1,
    row_congr (hpins j hj) (hpending j hj) (hlooping j hj) (hs j hj).2⟩

theorem looping_congr {s t : State} (h : t.workers = s.workers) {i tid : Nat}
    (hs : s.Looping i tid) : t.Looping i tid := by
  unfold State.Looping
  rw [h]
  exact hs

theorem tabular_row (i : Nat) : Tabular (Row i) where
  stable := row_stable i
  congr := fun _ _ hpins _ hworkers hs =>
    row_congr (congrFun hpins i) (pending_congr hworkers _) (fun _ => looping_congr hworkers) hs

theorem tabular_running (i : Nat) : Tabular (Running i) where
  stable := running_stable i
  congr := by
    intro s t hpins hblink hworkers hs
    rcases (tabular_row i).congr s t hpins hblink hworkers (.inl hs) with hrunning | ⟨hinactive, -⟩
    · exact hrunning
    · rw [hpins] at hinactive
      exact absurd hinactive hs.active

theorem tabular_others (i : Nat) (pins : Nat → SoftPwm) : Tabular (Others i pins) where
  stable := others_stable i pins
  congr := fun _ _ hpins _ hworkers hs =>
    others_congr hs (fun j _ => congrFun hpins j) (fun _ _ => pending_congr hworkers _)
      fun _ _ _ => looping_congr hworkers

theorem tabular_slot (i : Nat) (φ : SoftPwm → Prop) :
    Tabular fun s => φ (s.softPwmPins i) where
  stable := by
    intro s t hs henv
    rw [env_softPwmPins henv]
    exact hs
  congr := by
    intro s t hpins _ _ hs
    rw [hpins]
    exact hs

theorem tabular_pins (pins : Nat → SoftPwm) : Tabular fun s => s.softPwmPins = pins where
  stable := fun _ _ hs henv => (env_softPwmPins henv).trans hs
  congr := fun _ _ hpins _ _ hs => hpins.trans hs

/-! ### The slot of one call -/

section

variable {i : Nat} {pins : Nat → SoftPwm} {s t : State}

@[simp] theorem SoftPwm.set_thread (slot : SoftPwm) (value : Int) (field : SoftPwmField) :
    (slot.set value field).thread = slot.thread := by
  cases field <;> rfl

theorem others_store (hs : Others i pins s) {field : SoftPwmField} {value : Int} {r : Unit}
    (h : machine.Exec (.storeSoftPwm i field value) s r t) : Others i pins t := by
  rw [exec_storeSoftPwm h]
  refine others_congr hs ?_ ?_ ?_
  · intro j hj
    simp [State.setSoftPwm, hj]
  · exact fun j _ => pending_congr (s := s) rfl _
  · exact fun j _ tid hlooping => hlooping

theorem held_store (hs : Held (.softPwm i) s) {field : SoftPwmField} {value : Int} {r : Unit}
    (h : machine.Exec (.storeSoftPwm i field value) s r t) : Held (.softPwm i) t := by
  rw [exec_storeSoftPwm h]
  refine (held_congr (pending_congr ?_ _) ?_).mpr hs
  · rfl
  · simp [State.handle, State.setSoftPwm]

theorem vacant_store (hs : Vacant (.softPwm i) s) {field : SoftPwmField} {value : Int} {r : Unit}
    (h : machine.Exec (.storeSoftPwm i field value) s r t) : Vacant (.softPwm i) t := by
  rw [exec_storeSoftPwm h]
  refine (vacant_congr (pending_congr ?_ _)).mpr hs
  rfl

theorem slot_store {field : SoftPwmField} {value : Int} {r : Unit}
    (h : machine.Exec (.storeSoftPwm i field value) s r t) :
    t.softPwmPins i = (s.softPwmPins i).set value field := by
  rw [exec_storeSoftPwm h]
  simp [State.setSoftPwm]

/-- A join touches the threads of its slot alone. -/
theorem others_join (hs : Others i pins s) (hheld : Held (.softPwm i) s) {r : Unit}
    (h : machine.Exec (.joinSoftPwm i) s r t) : Others i pins t := by
  have hjoin := exec_joinSoftPwm h
  have hpending : ∀ j, j ≠ i → ∀ tid,
      t.Pending (.softPwm j) tid ↔ s.Pending (.softPwm j) tid := fun j hj =>
    pending_join_other hheld hjoin (by simpa using hj)
  obtain ⟨w, -, -, -, ht⟩ := join_some hjoin
  apply others_congr hs _ hpending
  · intro j hj tid hlooping
    obtain ⟨pc, hold, hpc⟩ := hlooping
    have hne : tid ≠ (s.softPwmPins i).thread := by
      intro htid
      have hslot := pending_slot ⟨_, hold, rfl⟩ ((hheld tid).mpr htid)
      cases hslot
      exact hj rfl
    refine ⟨pc, ?_, hpc⟩
    rw [ht, List.getElem?_set_ne (Ne.symm hne)]
    exact hold
  · intro j _
    rw [ht]

theorem vacant_join (hheld : Held (.softPwm i) s) {r : Unit}
    (h : machine.Exec (.joinSoftPwm i) s r t) : Vacant (.softPwm i) t :=
  vacant_of_join hheld (exec_joinSoftPwm h)

theorem others_create (hs : Others i pins s) {r : Int}
    (h : machine.Exec (.createSoftPwm i) s r t) : Others i pins t := by
  rcases exec_createSoftPwm h with ⟨-, rfl⟩ | ⟨-, rfl⟩
  · refine others_congr hs ?_ ?_ ?_
    · intro j hj
      simp [State.setSoftPwm, hj]
    · intro j hj tid
      exact pending_append_other (s := s) rfl (by simpa [Task.slot] using hj) tid
    · rintro j - tid ⟨pc, hget, hpc⟩
      have hlen : tid < s.workers.length := (List.getElem?_eq_some_iff.mp hget).1
      exact ⟨pc, (List.getElem?_append_left hlen).trans hget, hpc⟩
  · exact hs

/-- A thread created for a vacant slot whose fields are set runs on it. -/
theorem running_create (hvacant : Vacant (.softPwm i) s) (hactive : (s.softPwmPins i).active ≠ 0)
    (hvalid : (s.softPwmPins i).Valid i) {r : Int} (h : machine.Exec (.createSoftPwm i) s r t) :
    (r = 0 → Running i t) ∧ (r ≠ 0 → Vacant (.softPwm i) t) := by
  rcases exec_createSoftPwm h with ⟨rfl, rfl⟩ | ⟨hr, rfl⟩
  · refine ⟨fun _ => ⟨?_, ?_, ?_, ?_⟩, fun hne => absurd rfl hne⟩
    · refine held_of_append hvacant rfl rfl ?_
      simp [State.handle, State.setSoftPwm]
    · simpa [State.setSoftPwm] using hactive
    · refine ⟨.loop, ?_, by simp, by simp⟩
      simp [State.setSoftPwm]
    · have hsame : (s.setSoftPwm i { s.softPwmPins i with
          thread := s.workers.length }).softPwmPins i =
          { s.softPwmPins i with thread := s.workers.length } := by
        simp [State.setSoftPwm]
      change SoftPwm.Valid ((s.setSoftPwm i { s.softPwmPins i with
          thread := s.workers.length }).softPwmPins i) i
      rw [hsame]
      exact ⟨hvalid.pin, hvalid.duty, hvalid.frequency⟩
  · exact ⟨fun hzero => absurd hzero hr, fun _ => hvacant⟩

end

/-! ### The calls -/

section

variable {α : Type} {Q : α → State → Prop} {i : Nat} {pins : Nat → SoftPwm}

/-- The first test of every call: a slot that is not active is vacant. -/
theorem joins_load {next : Int → MainProg α}
    (hinactive : JoinsOnce .none (fun s => Others i pins s ∧ Vacant (.softPwm i) s ∧
      (s.softPwmPins i).active = 0) (next 0) Q)
    (hactive : ∀ value, value ≠ 0 →
      JoinsOnce .none (fun s => Others i pins s ∧ Running i s) (next value) Q) :
    JoinsOnce .none (fun s => Others i pins s ∧ Row i s) (.op (.loadSoftPwm i .active) next) Q := by
  refine Machine.contract_op
    (N := fun value s => Others i pins s ∧ Row i s ∧ value = (s.softPwmPins i).active)
    (tabular_and (tabular_others i pins) (tabular_row i)).stable (fun _ _ _ => trivial) ?_ ?_
  · rintro s value t ⟨hothers, hrow⟩ - h
    obtain ⟨hvalue, rfl⟩ := exec_loadSoftPwm h
    exact ⟨hothers, hrow, hvalue⟩
  · intro value
    by_cases hzero : value = 0
    · subst hzero
      refine Machine.contract_conseq hinactive ?_ fun _ _ h => h
      rintro s ⟨hothers, hrunning | ⟨hinactive, hvacant⟩, hvalue⟩
      · exact absurd hvalue.symm hrunning.active
      · exact ⟨hothers, hvacant, hinactive⟩
    · refine Machine.contract_conseq (hactive value hzero) ?_ fun _ _ h => h
      rintro s ⟨hothers, hrunning | ⟨hinactive, -⟩, hvalue⟩
      · exact ⟨hothers, hrunning⟩
      · exact absurd (hvalue.trans hinactive) hzero

/-- Clearing `active` and joining leaves the slot vacant and not active. -/
theorem joins_stop {next : MainProg α}
    (hnext : JoinsOnce .none (fun s => Others i pins s ∧ Vacant (.softPwm i) s ∧
      (s.softPwmPins i).active = 0) next Q) :
    JoinsOnce .none (fun s => Others i pins s ∧ Running i s)
      (.op (.storeSoftPwm i .active 0) fun _ => .op (.joinSoftPwm i) fun _ => next) Q := by
  have hothers := tabular_others i pins
  have hinactive := tabular_slot i fun slot => slot.active = 0
  refine Machine.contract_op
    (N := fun _ s => Others i pins s ∧ Held (.softPwm i) s ∧ (s.softPwmPins i).active = 0)
    ?_ (fun _ _ _ => trivial) ?_ fun _ => ?_
  · exact fun s t hs henv => ⟨hothers.stable s t hs.1 henv, running_stable i s t hs.2 henv⟩
  · rintro s r t ⟨hs, hrunning⟩ - h
    refine ⟨others_store hs h, held_store hrunning.held h, ?_⟩
    rw [slot_store h]
    rfl
  refine Machine.contract_op
    (N := fun _ s => Others i pins s ∧ Vacant (.softPwm i) s ∧ (s.softPwmPins i).active = 0)
    (tabular_and hothers (tabular_and (tabular_held _) hinactive)).stable ?_ ?_ fun _ => hnext
  · rintro s ⟨-, hheld, -⟩ -
    exact (hheld _).mpr rfl
  · rintro s r t ⟨hs, hheld, hclear⟩ - h
    refine ⟨others_join hs hheld h, vacant_join hheld h, ?_⟩
    obtain ⟨w, -, -, -, rfl⟩ := join_some (exec_joinSoftPwm h)
    exact hclear

/-- A store to the slot of the call while it is vacant. -/
theorem joins_store (φ φ' : SoftPwm → Prop) {field : SoftPwmField} {value : Int}
    {next : MainProg α} (hφ : ∀ slot, φ slot → φ' (slot.set value field))
    (hnext : JoinsOnce .none
      (fun s => Others i pins s ∧ Vacant (.softPwm i) s ∧ φ' (s.softPwmPins i)) next Q) :
    JoinsOnce .none (fun s => Others i pins s ∧ Vacant (.softPwm i) s ∧ φ (s.softPwmPins i))
      (.op (.storeSoftPwm i field value) fun _ => next) Q := by
  refine Machine.contract_op
    (N := fun _ s => Others i pins s ∧ Vacant (.softPwm i) s ∧ φ' (s.softPwmPins i))
    ?_ (fun _ _ _ => trivial) ?_ fun _ => hnext
  · exact (tabular_and (tabular_others i pins)
      (tabular_and (tabular_vacant _) (tabular_slot i φ))).stable
  · rintro s r t ⟨hs, hvacant, hslot⟩ - h
    refine ⟨others_store hs h, vacant_store hvacant h, ?_⟩
    rw [slot_store h]
    exact hφ _ hslot

/-- The last statements of a call, after which the table is as it is between calls. -/
theorem joins_unlock (value : Int) :
    JoinsOnce .none (fun s => Others i pins s ∧ Row i s)
      (do exec (.unlock .softPwm); return value) fun _ s => Others i pins s ∧ Row i s := by
  have hrow := tabular_and (tabular_others i pins) (tabular_row i)
  simp only [Prog.call_bind]
  refine joins_leaves hrow (by trivial) fun _ => ?_
  exact Machine.contract_ret hrow.stable fun _ h => h

theorem row_of_inactive {s : State} (h : Others i pins s ∧ Vacant (.softPwm i) s ∧
    (s.softPwmPins i).active = 0) : Others i pins s ∧ Row i s :=
  ⟨h.1, .inr ⟨h.2.2, h.2.1⟩⟩

/-- The end of a call that has left its slot vacant and not active. -/
theorem joins_unlock_inactive (value : Int) :
    JoinsOnce .none
      (fun s => Others i pins s ∧ Vacant (.softPwm i) s ∧ (s.softPwmPins i).active = 0)
      (do exec (.unlock .softPwm); return value) fun _ s => Others i pins s ∧ Row i s :=
  Machine.contract_conseq (joins_unlock value) (fun _ h => row_of_inactive h) fun _ _ h => h

end

/-- `softPwmStart` from the configuration of its slot on. -/
def configureSoftPwm (pin dutyCycle frequency : Int) : MainProg Int := do
  exec (.storeSoftPwm pin.toNat .pin pin)
  exec (.storeSoftPwm pin.toNat .dutyCycle dutyCycle)
  exec (.storeSoftPwm pin.toNat .frequency frequency)
  exec (.storeSoftPwm pin.toNat .active 1)
  let _ ← pinMode pin .output
  let result ← exec (.createSoftPwm pin.toNat)
  if result ≠ 0 then do
    exec (.storeSoftPwm pin.toNat .active 0)
    exec (.unlock .softPwm)
    return -1
  else do
    exec (.unlock .softPwm)
    return 0

theorem joins_configureSoftPwm {pin dutyCycle frequency : Int} (pins : Nat → SoftPwm)
    (hcall : (SoftPwmCall.start pin dutyCycle frequency).InRange) :
    JoinsOnce .none (fun s => Others pin.toNat pins s ∧ Vacant (.softPwm pin.toNat) s ∧
        (s.softPwmPins pin.toNat).active = 0)
      (configureSoftPwm pin dutyCycle frequency)
      fun _ s => Others pin.toNat pins s ∧ Row pin.toNat s := by
  obtain ⟨hpin, hduty, hfrequency⟩ := hcall
  have hnat : (pin.toNat : Int) = pin := Int.toNat_of_nonneg hpin.1
  let configured : SoftPwm → Prop := fun slot => slot.Valid pin.toNat ∧ slot.active ≠ 0
  unfold configureSoftPwm
  simp only [Prog.call_bind]
  refine joins_store (fun slot => slot.active = 0) (fun slot => slot.pin = pin) ?_ ?_
  · exact fun _ _ => rfl
  refine joins_store (fun slot => slot.pin = pin)
    (fun slot => slot.pin = pin ∧ slot.dutyCycle = dutyCycle) ?_ ?_
  · exact fun _ h => ⟨h, rfl⟩
  refine joins_store (fun slot => slot.pin = pin ∧ slot.dutyCycle = dutyCycle)
    (fun slot => slot.Valid pin.toNat) ?_ ?_
  · exact fun slot h => ⟨h.1.trans hnat.symm, h.2 ▸ hduty, hfrequency⟩
  refine joins_store (fun slot => slot.Valid pin.toNat) configured ?_ ?_
  · exact fun slot h => ⟨⟨h.pin, h.duty, h.frequency⟩, one_ne_zero⟩
  refine joins_leaves_bind ?_ (uses_pinMode leavesTables_gpioSet _ _) fun _ => ?_
  · exact tabular_and (tabular_others _ pins)
      (tabular_and (tabular_vacant _) (tabular_slot _ configured))
  refine Machine.contract_op
    (N := fun result s => Others pin.toNat pins s ∧ (result = 0 → Running pin.toNat s) ∧
      (result ≠ 0 → Vacant (.softPwm pin.toNat) s)) ?_ ?_ ?_ fun result => ?_
  · exact (tabular_and (tabular_others _ pins)
      (tabular_and (tabular_vacant _) (tabular_slot _ configured))).stable
  · exact fun s hs _ => hs.2.1
  · rintro s result t ⟨hs, hvacant, hvalid, hactive⟩ - h
    exact ⟨others_create hs h, running_create hvacant hactive hvalid h⟩
  by_cases hresult : result = 0
  · rw [if_neg (by simpa using hresult)]
    refine Machine.contract_conseq (joins_unlock 0) ?_ fun _ _ h => h
    exact fun s hs => ⟨hs.1, .inl (hs.2.1 hresult)⟩
  · rw [if_pos hresult]
    refine Machine.contract_conseq
      (joins_store (fun _ => True) (fun slot => slot.active = 0) (fun _ _ => rfl)
        (joins_unlock_inactive (-1))) ?_ fun _ _ h => h
    exact fun s hs => ⟨hs.1, hs.2.2 hresult, trivial⟩

/-- A call with an argument out of range returns -1 at once. -/
theorem SoftPwmCall.program_of_not_inRange {call : SoftPwmCall} (h : ¬ call.InRange) :
    call.program = .ret (-1) := by
  cases call with
  | start pin dutyCycle frequency =>
    change softPwmStart pin dutyCycle frequency = _
    unfold softPwmStart
    split
    · rfl
    split
    · rfl
    split
    · rfl
    · exact absurd ⟨by omega, by omega, by omega⟩ h
  | updateDuty pin dutyCycle =>
    change softPwmUpdateDuty pin dutyCycle = _
    unfold softPwmUpdateDuty
    split
    · rfl
    split
    · rfl
    · exact absurd ⟨by omega, by omega⟩ h
  | stop pin =>
    change softPwmStop pin = _
    unfold softPwmStop
    split
    · rfl
    · exact absurd ⟨by omega, by omega⟩ h

theorem joins_softPwmStart {pin dutyCycle frequency : Int} (pins : Nat → SoftPwm)
    (hcall : (SoftPwmCall.start pin dutyCycle frequency).InRange) :
    JoinsOnce .none (fun s => Others pin.toNat pins s ∧ Row pin.toNat s)
      (softPwmStart pin dutyCycle frequency)
      fun _ s => Others pin.toNat pins s ∧ Row pin.toNat s := by
  have hconfigure := joins_configureSoftPwm pins hcall
  obtain ⟨hpin, hduty, hfrequency⟩ := hcall
  unfold softPwmStart
  rw [if_neg (by omega), if_neg (by omega), if_neg (by omega)]
  simp only [Prog.call_bind]
  refine joins_leaves (tabular_and (tabular_others _ pins) (tabular_row _)) (by trivial) fun _ => ?_
  refine joins_load ?_ fun active hactive => ?_
  · unfold Prog.when
    rw [if_neg (by simp)]
    exact hconfigure
  · unfold Prog.when
    rw [if_pos hactive]
    exact joins_stop hconfigure

/-- An update changes the duty of a running slot. -/
theorem running_duty {i : Nat} {dutyCycle : Int} (hduty : 0 ≤ dutyCycle ∧ dutyCycle ≤ 100)
    {s t : State} {r : Unit} (hs : Running i s)
    (h : machine.Exec (.storeSoftPwm i .dutyCycle dutyCycle) s r t) : Running i t := by
  have hslot := slot_store h
  refine ⟨held_store hs.held h, ?_, ?_, ?_⟩
  · rw [hslot]
    exact hs.active
  · rw [hslot, exec_storeSoftPwm h]
    exact hs.looping
  · rw [hslot]
    exact ⟨hs.valid.pin, hduty, hs.valid.frequency⟩

theorem joins_softPwmUpdateDuty {pin dutyCycle : Int} (pins : Nat → SoftPwm)
    (hcall : (SoftPwmCall.updateDuty pin dutyCycle).InRange) :
    JoinsOnce .none (fun s => Others pin.toNat pins s ∧ Row pin.toNat s)
      (softPwmUpdateDuty pin dutyCycle)
      fun _ s => Others pin.toNat pins s ∧ Row pin.toNat s := by
  obtain ⟨hpin, hduty⟩ := hcall
  unfold softPwmUpdateDuty
  rw [if_neg (by omega), if_neg (by omega)]
  simp only [Prog.call_bind]
  refine joins_leaves (tabular_and (tabular_others _ pins) (tabular_row _)) (by trivial) fun _ => ?_
  refine joins_load ?_ fun active hactive => ?_
  · rw [if_pos rfl]
    exact joins_unlock_inactive (-1)
  · rw [if_neg hactive]
    refine Machine.contract_op
      (N := fun _ s => Others pin.toNat pins s ∧ Row pin.toNat s) ?_ (fun _ _ _ => trivial) ?_
      fun _ => joins_unlock 0
    · exact fun s t hs henv =>
        ⟨others_stable _ _ s t hs.1 henv, running_stable _ s t hs.2 henv⟩
    · rintro s r t ⟨hs, hrunning⟩ - h
      exact ⟨others_store hs h, .inl (running_duty hduty hrunning h)⟩

theorem joins_softPwmStop {pin : Int} (pins : Nat → SoftPwm)
    (hcall : (SoftPwmCall.stop pin).InRange) :
    JoinsOnce .none (fun s => Others pin.toNat pins s ∧ Row pin.toNat s) (softPwmStop pin)
      fun _ s => Others pin.toNat pins s ∧ Row pin.toNat s := by
  have hvacant : Tabular fun s => Others pin.toNat pins s ∧ Vacant (.softPwm pin.toNat) s ∧
      (s.softPwmPins pin.toNat).active = 0 :=
    tabular_and (tabular_others _ pins)
      (tabular_and (tabular_vacant _) (tabular_slot _ fun slot => slot.active = 0))
  obtain ⟨hlow, hhigh⟩ := hcall
  unfold softPwmStop
  rw [if_neg (by omega)]
  simp only [Prog.call_bind]
  refine joins_leaves (tabular_and (tabular_others _ pins) (tabular_row _)) (by trivial) fun _ => ?_
  refine joins_load ?_ fun active hactive => ?_
  · rw [if_pos rfl]
    exact joins_unlock_inactive (-1)
  · rw [if_neg hactive]
    refine joins_stop ?_
    exact joins_leaves_bind hvacant (uses_digitalWrite leavesTables_gpioSet _ _) fun _ =>
      joins_unlock_inactive 0

/-! ### Sequences of calls -/

theorem tabular_table : Tabular Table where
  stable := fun s t hs henv i => row_stable i s t (hs i) henv
  congr := fun s t hpins hblink hworkers hs i =>
    (tabular_row i).congr s t hpins hblink hworkers (hs i)

/-- The slots other than that of the call, and for a rejected call all of them, are left as they
are. -/
structure Spares (call : SoftPwmCall) (pins : Nat → SoftPwm) (value : Int) (s : State) : Prop where
  others : ∀ j : Nat, (j : Int) ≠ call.pin → s.softPwmPins j = pins j
  rejected : ¬ call.InRange → value = -1 ∧ s.softPwmPins = pins

theorem joins_call_inRange {call : SoftPwmCall} (h : call.InRange) (pins : Nat → SoftPwm) :
    JoinsOnce .none (fun s => Others call.pin.toNat pins s ∧ Row call.pin.toNat s) call.program
      fun _ s => Others call.pin.toNat pins s ∧ Row call.pin.toNat s := by
  cases call with
  | start pin dutyCycle frequency => exact joins_softPwmStart pins h
  | updateDuty pin dutyCycle => exact joins_softPwmUpdateDuty pins h
  | stop pin => exact joins_softPwmStop pins h

/-- One call. -/
theorem joins_call (call : SoftPwmCall) (pins : Nat → SoftPwm) :
    JoinsOnce .none (fun s => Table s ∧ s.softPwmPins = pins) call.program
      fun value s => Table s ∧ Spares call pins value s := by
  by_cases hcall : call.InRange
  · have hpin : 0 ≤ call.pin := by
      cases call with
      | start pin dutyCycle frequency => exact hcall.1.1
      | updateDuty pin dutyCycle => exact hcall.1.1
      | stop pin => exact hcall.1
    refine Machine.contract_conseq (joins_call_inRange hcall pins) ?_ ?_
    · rintro s ⟨htable, rfl⟩
      exact ⟨fun j _ => ⟨rfl, htable j⟩, htable _⟩
    · rintro value s ⟨hothers, hrow⟩
      refine ⟨fun j => ?_, fun j hj => (hothers j (by omega)).1, fun hno => absurd hcall hno⟩
      by_cases hj : j = call.pin.toNat
      · rw [hj]
        exact hrow
      · exact (hothers j hj).2
  · rw [SoftPwmCall.program_of_not_inRange hcall]
    refine Machine.contract_ret
      (tabular_and tabular_table (tabular_pins pins)).stable ?_
    rintro s ⟨htable, rfl⟩
    exact ⟨htable, fun _ _ => rfl, fun _ => ⟨rfl, rfl⟩⟩

theorem joins_softPwmCalls (calls : List SoftPwmCall) :
    JoinsOnce .none Table (softPwmCalls calls) fun _ => Table := by
  refine Machine.contract_sequence tabular_table.stable ?_
  intro p hp
  obtain ⟨call, -, rfl⟩ := List.mem_map.mp hp
  intro s hs
  refine Machine.contract_bind (joins_call call s.softPwmPins) ?_ s ⟨hs, rfl⟩
  intro value
  refine Machine.contract_conseq ?_ (fun _ h => h.1) fun _ _ h => h
  exact Machine.contract_ret tabular_table.stable fun _ h => h

theorem looping_of_pending {s : State} {i tid : Nat} (hs : Row i s)
    (h : s.Pending (.softPwm i) tid) : Running i s ∧ s.Looping i tid := by
  rcases hs with hrunning | ⟨-, hvacant⟩
  · obtain rfl := (hrunning.held tid).mp h
    exact ⟨hrunning, hrunning.looping⟩
  · exact absurd h (hvacant tid)

/-- Between calls a slot is active exactly when a thread runs on it, this thread is the only one
not joined, and the fields of an active slot are valid; at every instant a thread is joined at
most once and created only when the threads of its slot have been joined; and a call leaves the
slots of the other pins, when rejected all slots, as they are. -/
theorem softPwm_table (calls : List SoftPwmCall) :
    (∀ s, machine.Runs (softPwmCalls calls) boot () s → ∀ i,
      ((s.softPwmPins i).active ≠ 0 ↔ ∃ tid, s.Looping i tid) ∧
      (∀ tid tid', s.Pending (.softPwm i) tid → s.Pending (.softPwm i) tid' → tid = tid') ∧
      (∀ tid, s.Pending (.softPwm i) tid → s.Looping i tid) ∧
      ((s.softPwmPins i).active ≠ 0 → (s.softPwmPins i).Valid i)) ∧
    (∀ o next s, machine.Steps (softPwmCalls calls, boot) (.op o next, s) → joinsOnce o s) ∧
    ∀ s call value t, machine.Runs (softPwmCalls calls) boot () s →
      machine.Runs (SoftPwmCall.program call) s value t →
      Spares call s.softPwmPins value t := by
  have hcalls := joins_softPwmCalls calls
  have htable : ∀ s, machine.Runs (softPwmCalls calls) boot () s → Table s := fun s hs =>
    Machine.contract_runs hcalls table_boot (Machine.steps_stepsUnder hs)
  refine ⟨?_, ?_, ?_⟩
  · intro s hs i
    have hrow := htable s hs i
    refine ⟨⟨?_, ?_⟩, ?_, ?_, ?_⟩
    · intro hactive
      rcases hrow with hrunning | ⟨hinactive, -⟩
      · exact ⟨_, hrunning.looping⟩
      · exact absurd hinactive hactive
    · rintro ⟨tid, pc, hw, -⟩
      exact (looping_of_pending hrow ⟨_, hw, rfl⟩).1.active
    · intro tid tid' h h'
      have hheld := (looping_of_pending hrow h).1.held
      exact ((hheld tid).mp h).trans ((hheld tid').mp h').symm
    · exact fun tid h => (looping_of_pending hrow h).2
    · intro hactive
      rcases hrow with hrunning | ⟨hinactive, -⟩
      · exact hrunning.valid
      · exact absurd hinactive hactive
  · intro o next s hsteps
    exact Machine.contract_demand hcalls table_boot (Machine.steps_stepsUnder hsteps) trivial
  · intro s call value t hs hrun
    exact (Machine.contract_runs (joins_call call s.softPwmPins) ⟨htable s hs, rfl⟩
      (Machine.steps_stepsUnder hrun)).2

end EmbeddedCar.Gpio
