import EmbeddedCar.Concurrent.Calls
import EmbeddedCar.Gpio.Drive
import EmbeddedCar.Gpio.SoftPwmTable

/-!
# The soft-PWM table as a map

What the soft-PWM functions are for: a map from pins to what they play. A call and what it
returned are one step of the map; the table, its mutex, the threads and the fields of a slot that
plays nothing are not seen. The functions refine it, whatever the threads do meanwhile and
whichever of them cannot be created.
-/

namespace EmbeddedCar.Gpio

open EmbeddedCar.Concurrent EmbeddedCar.Reactive Prog

/-! ### The map -/

/-- What a pin plays: a duty cycle in percent at a frequency. -/
@[ext] structure Setting where
  dutyCycle : Int
  frequency : Int
  duty : 0 ≤ dutyCycle ∧ dutyCycle ≤ 100
  positive : 0 < frequency

abbrev PwmMap := Nat → Option Setting

namespace PwmMap

/-- A call, what it returned, and the map before and after it. -/
inductive Step : PwmMap → SoftPwmCall × Int → PwmMap → Prop where
  | rejected {m : PwmMap} {call : SoftPwmCall} : ¬ call.InRange → Step m (call, -1) m
  | started {m : PwmMap} {pin : Int} (setting : Setting) : 0 ≤ pin ∧ pin ≤ 27 →
      Step m (.start pin setting.dutyCycle setting.frequency, 0)
        (Function.update m pin.toNat (some setting))
  /-- No thread could be created; what the pin played before has been stopped. -/
  | notStarted {m : PwmMap} {pin dutyCycle frequency : Int} :
      (SoftPwmCall.start pin dutyCycle frequency).InRange →
      Step m (.start pin dutyCycle frequency, -1) (Function.update m pin.toNat none)
  | updated {m : PwmMap} {pin : Int} {old : Setting} (new : Setting) : 0 ≤ pin ∧ pin ≤ 27 →
      m pin.toNat = some old → new.frequency = old.frequency →
      Step m (.updateDuty pin new.dutyCycle, 0) (Function.update m pin.toNat (some new))
  | notUpdated {m : PwmMap} {pin dutyCycle : Int} :
      (SoftPwmCall.updateDuty pin dutyCycle).InRange → m pin.toNat = none →
      Step m (.updateDuty pin dutyCycle, -1) m
  | stopped {m : PwmMap} {pin : Int} {old : Setting} : 0 ≤ pin ∧ pin ≤ 27 →
      m pin.toNat = some old →
      Step m (.stop pin, 0) (Function.update m pin.toNat none)
  | notStopped {m : PwmMap} {pin : Int} : 0 ≤ pin ∧ pin ≤ 27 → m pin.toNat = none →
      Step m (.stop pin, -1) m

/-- What a start does. -/
theorem step_start {m m' : PwmMap} {pin dutyCycle frequency value : Int}
    (h : Step m (.start pin dutyCycle frequency, value) m') :
    (¬ (SoftPwmCall.start pin dutyCycle frequency).InRange ∧ value = -1 ∧ m' = m) ∨
      (SoftPwmCall.start pin dutyCycle frequency).InRange ∧
        (value = -1 ∧ m' = Function.update m pin.toNat none ∨
          value = 0 ∧ ∃ setting : Setting, setting.dutyCycle = dutyCycle ∧
            setting.frequency = frequency ∧
            m' = Function.update m pin.toNat (some setting)) := by
  cases h with
  | rejected hrange => exact .inl ⟨hrange, rfl, rfl⟩
  | started setting hpin =>
    exact .inr ⟨⟨hpin, setting.duty, setting.positive⟩, .inr ⟨rfl, setting, rfl, rfl, rfl⟩⟩
  | notStarted hrange => exact .inr ⟨hrange, .inl ⟨rfl, rfl⟩⟩

/-- What an update does. -/
theorem step_updateDuty {m m' : PwmMap} {pin dutyCycle value : Int}
    (h : Step m (.updateDuty pin dutyCycle, value) m') :
    (value = -1 ∧ m' = m ∧
        ¬ ((SoftPwmCall.updateDuty pin dutyCycle).InRange ∧ m pin.toNat ≠ none)) ∨
      value = 0 ∧ (0 ≤ pin ∧ pin ≤ 27) ∧ ∃ old new : Setting, m pin.toNat = some old ∧
        new.dutyCycle = dutyCycle ∧ new.frequency = old.frequency ∧
        m' = Function.update m pin.toNat (some new) := by
  cases h with
  | rejected hrange => exact .inl ⟨rfl, rfl, fun h => hrange h.1⟩
  | updated new hpin hold hfrequency =>
    exact .inr ⟨rfl, hpin, _, new, hold, rfl, hfrequency, rfl⟩
  | notUpdated hrange hnone => exact .inl ⟨rfl, rfl, fun h => h.2 hnone⟩

/-- What a stop does. -/
theorem step_stop {m m' : PwmMap} {pin value : Int} (h : Step m (.stop pin, value) m') :
    (value = -1 ∧ m' = m ∧ ¬ ((0 ≤ pin ∧ pin ≤ 27) ∧ m pin.toNat ≠ none)) ∨
      value = 0 ∧ ((0 ≤ pin ∧ pin ≤ 27) ∧ m pin.toNat ≠ none) ∧
        m' = Function.update m pin.toNat none := by
  cases h with
  | rejected hrange => exact .inl ⟨rfl, rfl, fun h => hrange h.1⟩
  | stopped hpin hold => exact .inr ⟨rfl, ⟨hpin, by simp [hold]⟩, rfl⟩
  | notStopped hpin hnone => exact .inl ⟨rfl, rfl, fun h => h.2 hnone⟩

/-- A call leaves the other pins alone. -/
theorem step_other {m m' : PwmMap} {call : SoftPwmCall} {value : Int} {i : Nat}
    (h : Step m (call, value) m') (hi : call.pin ≠ i) : m' i = m i := by
  have hupdate : ∀ {pin : Int} {setting : Option Setting}, pin = call.pin →
      0 ≤ pin ∧ pin ≤ 27 → Function.update m pin.toNat setting i = m i := by
    intro pin setting hpin hrange
    rw [Function.update_of_ne]
    omega
  cases h with
  | rejected => rfl
  | started setting hpin => exact hupdate rfl hpin
  | notStarted hcall => exact hupdate rfl hcall.1
  | updated new hpin => exact hupdate rfl hpin
  | notUpdated => rfl
  | stopped hpin => exact hupdate rfl hpin
  | notStopped => rfl

/-- Calls that do not name a pin leave it alone. -/
theorem path_other {m m' : PwmMap} {calls : List (SoftPwmCall × Int)} {i : Nat}
    (h : Path Step m calls m') (hi : ∀ p ∈ calls, p.1.pin ≠ i) : m' i = m i := by
  induction h with
  | nil m => rfl
  | cons hstep _ ih =>
    rw [ih fun p hp => hi p (List.mem_cons_of_mem _ hp)]
    exact step_other hstep (hi _ List.mem_cons_self)

end PwmMap

/-! ### The table shows the map -/

/-- A slot plays nothing when it is not active, whatever its fields are. -/
def SoftPwm.Shows (slot : SoftPwm) : Option Setting → Prop
  | none => slot.active = 0
  | some setting =>
      slot.active ≠ 0 ∧ slot.dutyCycle = setting.dutyCycle ∧ slot.frequency = setting.frequency

def Represents (m : PwmMap) (pins : Nat → SoftPwm) : Prop := ∀ i, (pins i).Shows (m i)

theorem represents_boot : Represents (fun _ => none) boot.softPwmPins := fun _ => rfl

/-- A table in which the other slots show the map, and slot `i` is as said. -/
def Elsewhere (i : Nat) (m : PwmMap) (φ : SoftPwm → Prop) (pins : Nat → SoftPwm) : Prop :=
  (∀ j, j ≠ i → (pins j).Shows (m j)) ∧ φ (pins i)

theorem elsewhere_iff {i : Nat} {m : PwmMap} {setting : Option Setting} {pins : Nat → SoftPwm} :
    Elsewhere i m (fun slot => slot.Shows setting) pins ↔
      Represents (Function.update m i setting) pins := by
  constructor
  · rintro ⟨hothers, hslot⟩ j
    by_cases hj : j = i
    · subst hj
      rw [Function.update_self]
      exact hslot
    · rw [Function.update_of_ne hj]
      exact hothers j hj
  · intro h
    refine ⟨fun j hj => ?_, ?_⟩
    · have hshown := h j
      rw [Function.update_of_ne hj] at hshown
      exact hshown
    · have hshown := h i
      rw [Function.update_self] at hshown
      exact hshown

theorem elsewhere_of_represents {i : Nat} {m : PwmMap} {pins : Nat → SoftPwm}
    (h : Represents m pins) : Elsewhere i m (fun slot => slot.Shows (m i)) pins :=
  ⟨fun j _ => h j, h i⟩

/-! ### Triples about the table -/

section

variable {α : Type} {ψ ψ' : (Nat → SoftPwm) → Prop} {Q : α → State → Prop}

/-- From a table that satisfies `ψ`, every run ends in `Q`. -/
abbrev FromTable (ψ : (Nat → SoftPwm) → Prop) (p : MainProg α) (Q : α → State → Prop) : Prop :=
  machine.Triple (fun s => ψ s.softPwmPins) p Q

theorem fromTable_stable (ψ : (Nat → SoftPwm) → Prop) :
    machine.Stable fun s => ψ s.softPwmPins := by
  intro s t hs henv
  rw [env_softPwmPins henv]
  exact hs

theorem fromTable_ret (ψ : (Nat → SoftPwm) → Prop) {value : α}
    (h : ∀ s : State, ψ s.softPwmPins → Q value s) :
    FromTable ψ (.ret value) Q :=
  Machine.triple_ret (fromTable_stable ψ) h

theorem fromTable_quiet {o : Op} {next : o.Res → MainProg α} (ho : driveQuiet o = true)
    (hnext : ∀ result, FromTable ψ (next result) Q) : FromTable ψ (.op o next) Q := by
  refine Machine.triple_op (fromTable_stable ψ) ?_ hnext
  intro s result t hs h
  have hpins : t.softPwmPins = s.softPwmPins := congrArg Drive.softPwm (drive_of_quiet ho h)
  rw [hpins]
  exact hs

theorem fromTable_load {i : Nat} {field : SoftPwmField} {next : Int → MainProg α}
    (hnext : ∀ value, FromTable (fun pins => ψ pins ∧ value = (pins i).get field) (next value) Q) :
    FromTable ψ (.op (.loadSoftPwm i field) next) Q := by
  refine Machine.triple_op (fromTable_stable ψ) ?_ hnext
  intro s value t hs h
  obtain ⟨hvalue, rfl⟩ := exec_loadSoftPwm h
  exact ⟨hs, hvalue⟩

theorem fromTable_store {i : Nat} {m : PwmMap} {φ : SoftPwm → Prop} (φ' : SoftPwm → Prop)
    {field : SoftPwmField} {value : Int} {next : Unit → MainProg α}
    (hφ : ∀ slot, φ slot → φ' (slot.set value field))
    (hnext : FromTable (Elsewhere i m φ') (next ()) Q) :
    FromTable (Elsewhere i m φ) (.op (.storeSoftPwm i field value) next) Q := by
  refine Machine.triple_op (N := fun _ s => Elsewhere i m φ' s.softPwmPins)
    (fromTable_stable _) ?_ fun _ => hnext
  intro s r t hs h
  rw [exec_storeSoftPwm h]
  refine ⟨fun j hj => ?_, ?_⟩
  · simpa [State.setSoftPwm, hj] using hs.1 j hj
  · simpa [State.setSoftPwm] using hφ _ hs.2

/-- `pthread_create` writes the handle alone. -/
theorem fromTable_create {i : Nat} {m : PwmMap} {φ : SoftPwm → Prop} {next : Int → MainProg α}
    (hφ : ∀ (slot : SoftPwm) tid, φ slot → φ { slot with thread := tid })
    (hnext : ∀ result, FromTable (Elsewhere i m φ) (next result) Q) :
    FromTable (Elsewhere i m φ) (.op (.createSoftPwm i) next) Q := by
  refine Machine.triple_op (N := fun _ s => Elsewhere i m φ s.softPwmPins)
    (fromTable_stable _) ?_ hnext
  intro s result t hs h
  rcases exec_createSoftPwm h with ⟨-, rfl⟩ | ⟨-, rfl⟩
  · refine ⟨fun j hj => ?_, ?_⟩
    · simpa [State.setSoftPwm, hj] using hs.1 j hj
    · simpa [State.setSoftPwm] using hφ _ _ hs.2
  · exact hs

theorem fromTable_pinMode {pin : Int} {mode : Mode} {f : Int → MainProg α}
    (hnext : ∀ result, FromTable ψ (f result) Q) : FromTable ψ (pinMode pin mode >>= f) Q := by
  cases mode <;> exact fromTable_quiet rfl hnext

theorem fromTable_digitalWrite {pin : Int} {value : Level} {f : Int → MainProg α}
    (hnext : ∀ result, FromTable ψ (f result) Q) :
    FromTable ψ (digitalWrite pin value >>= f) Q := by
  cases value <;> exact fromTable_quiet rfl hnext

end

/-! ### The calls -/

/-- The call is one step of the map. -/
abbrev Refines (m : PwmMap) (call : SoftPwmCall) (value : Int) (s : State) : Prop :=
  ∃ m', PwmMap.Step m (call, value) m' ∧ Represents m' s.softPwmPins

section

variable {m : PwmMap} {call : SoftPwmCall}

theorem refines_ret {value : Int} {ψ : (Nat → SoftPwm) → Prop} (m' : PwmMap)
    (hstep : PwmMap.Step m (call, value) m') (hψ : ∀ pins, ψ pins → Represents m' pins) :
    FromTable ψ (.ret value) fun value s => Refines m call value s :=
  fromTable_ret ψ fun _ hs => ⟨m', hstep, hψ _ hs⟩

/-- The mutex is released before a call returns. -/
theorem refines_unlock {value : Int} {ψ : (Nat → SoftPwm) → Prop} (m' : PwmMap)
    (hstep : PwmMap.Step m (call, value) m') (hψ : ∀ pins, ψ pins → Represents m' pins) :
    FromTable ψ (do exec (.unlock .softPwm); return value) fun value s => Refines m call value s :=
  fromTable_quiet rfl fun _ => refines_ret m' hstep hψ

/-- `softPwmStart` from the configuration of its slot on. -/
theorem refines_configure {pin dutyCycle frequency : Int}
    (hcall : (SoftPwmCall.start pin dutyCycle frequency).InRange) (φ : SoftPwm → Prop) :
    FromTable (Elsewhere pin.toNat m φ) (configureSoftPwm pin dutyCycle frequency)
      fun value s => Refines m (.start pin dutyCycle frequency) value s := by
  obtain ⟨hpin, hduty, hfrequency⟩ := hcall
  let setting : Setting := ⟨dutyCycle, frequency, hduty, hfrequency⟩
  unfold configureSoftPwm
  simp only [Prog.call_bind]
  refine fromTable_store (fun _ => True) (fun _ _ => trivial) ?_
  refine fromTable_store (fun slot => slot.dutyCycle = dutyCycle) (fun _ _ => rfl) ?_
  refine fromTable_store
    (fun slot => slot.dutyCycle = dutyCycle ∧ slot.frequency = frequency)
    (fun _ h => ⟨h, rfl⟩) ?_
  refine fromTable_store (fun slot => slot.Shows (some setting))
    (fun _ h => ⟨one_ne_zero, h⟩) ?_
  refine fromTable_pinMode fun _ => fromTable_create (fun _ _ h => h) fun result => ?_
  by_cases hresult : result = 0
  · rw [if_neg (by simpa using hresult)]
    exact refines_unlock _ (.started setting hpin) fun _ => elsewhere_iff.mp
  · rw [if_pos hresult]
    refine fromTable_store (fun slot => slot.Shows none) (fun _ _ => rfl) ?_
    exact refines_unlock _ (.notStarted ⟨hpin, hduty, hfrequency⟩) fun _ => elsewhere_iff.mp

theorem refines_softPwmStart {pin dutyCycle frequency : Int}
    (hcall : (SoftPwmCall.start pin dutyCycle frequency).InRange) :
    FromTable (Represents m) (softPwmStart pin dutyCycle frequency)
      fun value s => Refines m (.start pin dutyCycle frequency) value s := by
  have hconfigure := refines_configure (m := m) hcall
  obtain ⟨hpin, hduty, hfrequency⟩ := hcall
  unfold softPwmStart
  rw [if_neg (by omega), if_neg (by omega), if_neg (by omega)]
  simp only [Prog.call_bind]
  refine Machine.triple_conseq ?_ (fun _ => elsewhere_of_represents (i := pin.toNat))
    fun _ _ h => h
  refine fromTable_quiet rfl fun _ => fromTable_quiet rfl fun active => ?_
  unfold Prog.when
  split
  · refine fromTable_store (fun _ => True) (fun _ _ => trivial) ?_
    exact fromTable_quiet rfl fun _ => hconfigure _
  · exact hconfigure _

/-- The first test of an update and of a stop. -/
theorem refines_load {pin : Int} {next : Int → MainProg Int}
    (hnone : m pin.toNat = none → FromTable (Represents m) (next 0) (Refines m call))
    (hsome : ∀ active old, active ≠ 0 → m pin.toNat = some old →
      FromTable (Represents m) (next active) (Refines m call)) :
    FromTable (Represents m) (.op (.loadSoftPwm pin.toNat .active) next) (Refines m call) := by
  refine fromTable_load fun active => ?_
  cases hsetting : m pin.toNat with
  | none =>
    by_cases hactive : active = 0
    · subst hactive
      exact Machine.triple_conseq (hnone hsetting) (fun _ h => h.1) fun _ _ h => h
    · rintro s ⟨hs, hvalue⟩
      have hshown := hs pin.toNat
      rw [hsetting] at hshown
      exact absurd (hvalue.trans hshown) hactive
  | some old =>
    by_cases hactive : active = 0
    · rintro s ⟨hs, hvalue⟩
      have hshown := hs pin.toNat
      rw [hsetting] at hshown
      exact absurd (hvalue.symm.trans hactive) hshown.1
    · exact Machine.triple_conseq (hsome active old hactive hsetting) (fun _ h => h.1)
        fun _ _ h => h

theorem refines_softPwmUpdateDuty {pin dutyCycle : Int}
    (hcall : (SoftPwmCall.updateDuty pin dutyCycle).InRange) :
    FromTable (Represents m) (softPwmUpdateDuty pin dutyCycle)
      fun value s => Refines m (.updateDuty pin dutyCycle) value s := by
  obtain ⟨hpin, hduty⟩ := hcall
  unfold softPwmUpdateDuty
  rw [if_neg (by omega), if_neg (by omega)]
  simp only [Prog.call_bind]
  refine fromTable_quiet rfl fun _ => refines_load ?_ ?_
  · intro hnone
    rw [if_pos rfl]
    exact refines_unlock _ (.notUpdated ⟨hpin, hduty⟩ hnone) fun _ h => h
  · intro active old hactive hold
    rw [if_neg hactive]
    let new : Setting := ⟨dutyCycle, old.frequency, hduty, old.positive⟩
    refine Machine.triple_conseq ?_ (fun _ => elsewhere_of_represents (i := pin.toNat))
      fun _ _ h => h
    rw [hold]
    refine fromTable_store (fun slot => slot.Shows (some new))
      (fun _ h => ⟨h.1, rfl, h.2.2⟩) ?_
    exact refines_unlock _ (.updated new hpin hold rfl) fun _ => elsewhere_iff.mp

theorem refines_softPwmStop {pin : Int} (hpin : (SoftPwmCall.stop pin).InRange) :
    FromTable (Represents m) (softPwmStop pin) fun value s => Refines m (.stop pin) value s := by
  have hrange : 0 ≤ pin ∧ pin ≤ 27 := hpin
  unfold softPwmStop
  rw [if_neg (by omega)]
  simp only [Prog.call_bind]
  refine fromTable_quiet rfl fun _ => refines_load ?_ ?_
  · intro hnone
    rw [if_pos rfl]
    exact refines_unlock _ (.notStopped hpin hnone) fun _ h => h
  · intro active old hactive hold
    rw [if_neg hactive]
    refine Machine.triple_conseq ?_ (fun _ => elsewhere_of_represents (i := pin.toNat))
      fun _ _ h => h
    refine fromTable_store (fun slot => slot.Shows none) (fun _ _ => rfl) ?_
    refine fromTable_quiet rfl fun _ => fromTable_digitalWrite fun _ => ?_
    exact refines_unlock _ (.stopped hpin hold) fun _ => elsewhere_iff.mp

/-- One call. -/
theorem refines_call (m : PwmMap) (call : SoftPwmCall) :
    FromTable (Represents m) call.program fun value s => Refines m call value s := by
  by_cases hcall : call.InRange
  · cases call with
    | start pin dutyCycle frequency => exact refines_softPwmStart hcall
    | updateDuty pin dutyCycle => exact refines_softPwmUpdateDuty hcall
    | stop pin => exact refines_softPwmStop hcall
  · rw [SoftPwmCall.program_of_not_inRange hcall]
    exact refines_ret m (.rejected hcall) fun _ h => h

end

/-- The table shows the map that the calls and what they returned lead to. -/
abbrev Played (m : PwmMap) (calls : List SoftPwmCall) (values : List Int) (s : State) : Prop :=
  Simulated PwmMap.Step (fun m s => Represents m s.softPwmPins) m calls values s

theorem refines_calls (calls : List SoftPwmCall) (m : PwmMap) :
    FromTable (Represents m) (Prog.results SoftPwmCall.program calls) (Played m calls) :=
  Machine.triple_results (fun m => fromTable_stable (Represents m)) refines_call calls m

/-- The soft-PWM functions refine the map: any sequence of calls, with any arguments, any failures
of `pthread_create` and any steps of the threads in between, is a run of the map on the calls and
what they returned, and the table shows the map it ends in. -/
theorem softPwm_refines (calls : List SoftPwmCall) (m : PwmMap) (s t : State) (values : List Int)
    (hs : Represents m s.softPwmPins)
    (h : machine.Runs (Prog.results SoftPwmCall.program calls) s values t) :
    Played m calls values t :=
  Machine.wp_runs (refines_calls calls m s hs) h

/-- A start, an update whose thread has moved, and an update of another pin. -/
theorem softPwm_refines_boot :
    ∃ t, machine.Runs (Prog.results SoftPwmCall.program
        [.start 22 10 500, .updateDuty 22 75, .updateDuty 23 75]) boot [0, 0, -1] t ∧
      Played (fun _ => none) [.start 22 10 500, .updateDuty 22 75, .updateDuty 23 75] [0, 0, -1]
        t := by
  obtain ⟨values, t, hruns, hvalues⟩ := machine.play_runs
    (List.replicate 9 (.inl 0) ++ List.replicate 3 (.inr (0, 0)) ++ List.replicate 10 (.inl 0))
    (Prog.results SoftPwmCall.program [.start 22 10 500, .updateDuty 22 75, .updateDuty 23 75])
    boot (fun values _ => decide (values = [0, 0, -1])) (by decide +kernel)
  obtain rfl : values = [0, 0, -1] := of_decide_eq_true hvalues
  exact ⟨t, hruns, softPwm_refines _ _ _ _ _ represents_boot hruns⟩

end EmbeddedCar.Gpio
