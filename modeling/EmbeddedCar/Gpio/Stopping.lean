import EmbeddedCar.Gpio.BlinkTable
import EmbeddedCar.Gpio.SlotThreads
import EmbeddedCar.Gpio.SoftPwmTable

/-!
# Stopping a background pin

Sequences of calls of both families, with any failures of `pthread_create` and any interleaving
with the threads. A stop that returns leaves no running thread on its pin, so the level it wrote
stays, and no thread of before writes the pin again.
-/

namespace EmbeddedCar.Gpio

open EmbeddedCar.Concurrent Prog

/-! ### The calls -/

/-- A call of either family. -/
inductive PinCall where
  | blink (call : BlinkCall)
  | softPwm (call : SoftPwmCall)

def BlinkCall.pin : BlinkCall → Int
  | .start pin _ _ => pin
  | .stop pin => pin

namespace PinCall

def program : PinCall → MainProg Int
  | .blink call => call.program
  | .softPwm call => call.program

/-- The call, its result ignored. -/
def statement (call : PinCall) : MainProg Unit := do
  let _ ← call.program
  return ()

/-- The call is about this slot. -/
def On (call : PinCall) (c : Slot) : Prop :=
  match call, c with
  | .blink call, .blink i => call.pin = i
  | .softPwm call, .softPwm i => call.pin = i
  | _, _ => False

end PinCall

/-- The calls of a program one after another. -/
def pinCalls (calls : List PinCall) : MainProg Unit :=
  Prog.sequence (calls.map PinCall.statement)

namespace Slot

/-- The slot of the other family with the same pin. -/
def other : Slot → Slot
  | .softPwm i => .blink i
  | .blink i => .softPwm i

/-- The pins of the tables. -/
def Exists : Slot → Prop
  | .softPwm i => i ≤ 27
  | .blink i => i ≤ 21

/-- The call that stops the slot. -/
def stop : Slot → PinCall
  | .softPwm i => .softPwm (.stop i)
  | .blink i => .blink (.stop i)

end Slot

/-! ### Each call minds the running threads -/

section

variable {i : Nat} {α : Type} {Q : α → State → Prop}

/-- What a slot says besides `active`, which a blink thread clears. -/
theorem tabular_blinkFields (i : Nat) {φ : Blink → Prop}
    (hφ : ∀ slot, φ slot → φ { slot with active := 0 }) : Tabular fun s => φ (s.blinkPins i) where
  stable := by
    intro s t hs henv
    rcases env_blinkPins henv with hsame | ⟨tid, j, -, -, hpins⟩
    · rw [hsame]
      exact hs
    · rw [hpins]
      by_cases hij : i = j
      · subst hij
        simpa using hφ _ hs
      · simpa [hij] using hs
  congr := by
    intro s t _ hblink _ hs
    rw [hblink]
    exact hs

/-- A store to a blink slot without a running thread. -/
theorem minds_storeBlink (φ φ' : Blink → Prop) {field : BlinkField} {value : Int}
    {next : MainProg α} (hφ : ∀ slot, φ slot → φ { slot with active := 0 })
    (hset : ∀ slot, φ slot → φ' (slot.set value field))
    (hnext : Minds (fun s => Watched none s ∧ Resting (.blink i) s ∧ φ' (s.blinkPins i)) next Q) :
    Minds (fun s => Watched none s ∧ Resting (.blink i) s ∧ φ (s.blinkPins i))
      (.op (.storeBlink i field value) fun _ => next) Q := by
  refine Machine.contract_op
    (N := fun _ s => Watched none s ∧ Resting (.blink i) s ∧ φ' (s.blinkPins i)) ?_ ?_ ?_
    fun _ => hnext
  · exact (tabular_and (tabular_watched none)
      (tabular_and (tabular_resting _) (tabular_blinkFields i hφ))).stable
  · intro s hs _
    cases field with
    | pin => exact hs.2.1
    | _ => trivial
  · intro s r t hs _ h
    have hstored := stored_blink h
    refine ⟨watched_stored hs.1 hs.2.1 hstored, resting_stored hstored hs.2.1, ?_⟩
    rw [exec_storeBlink h]
    simpa [State.setBlink] using hset _ hs.2.2

/-- A store to a soft-PWM slot without a running thread. -/
theorem minds_storeSoftPwm (φ φ' : SoftPwm → Prop) {field : SoftPwmField} {value : Int}
    {next : MainProg α} (hset : ∀ slot, φ slot → φ' (slot.set value field))
    (hnext : Minds (fun s => Watched none s ∧ Resting (.softPwm i) s ∧ φ' (s.softPwmPins i)) next
      Q) :
    Minds (fun s => Watched none s ∧ Resting (.softPwm i) s ∧ φ (s.softPwmPins i))
      (.op (.storeSoftPwm i field value) fun _ => next) Q := by
  refine Machine.contract_op
    (N := fun _ s => Watched none s ∧ Resting (.softPwm i) s ∧ φ' (s.softPwmPins i)) ?_ ?_ ?_
    fun _ => hnext
  · exact (tabular_and (tabular_watched none)
      (tabular_and (tabular_resting _) (tabular_slot i φ))).stable
  · intro s hs _
    cases field with
    | pin => exact hs.2.1
    | _ => trivial
  · intro s r t hs _ h
    have hstored := stored_softPwm h
    refine ⟨watched_stored hs.1 hs.2.1 hstored, resting_stored hstored hs.2.1, ?_⟩
    rw [exec_storeSoftPwm h]
    simpa [State.setSoftPwm] using hset _ hs.2.2

end

/-- The fields that `blinkStart` stores. -/
def Blink.Configured (pin freq duration : Int) (slot : Blink) : Prop :=
  slot.pin = pin ∧ slot.freq = freq ∧ slot.duration = duration

theorem minds_storeBlinkFields (pin freq duration : Int) :
    Minds (fun s => Watched none s ∧ Resting (.blink pin.toNat) s)
      (storeBlinkFields pin freq duration)
      fun _ s => Watched none s ∧ Resting (.blink pin.toNat) s ∧
        (s.blinkPins pin.toNat).Configured pin freq duration := by
  unfold storeBlinkFields
  simp only [Prog.call_bind]
  refine Machine.contract_conseq
    (P := fun s => Watched none s ∧ Resting (.blink pin.toNat) s ∧ True) ?_
    (fun s hs => ⟨hs.1, hs.2, trivial⟩) fun _ _ h => h
  let named : Blink → Prop := fun slot => slot.pin = pin
  let paced : Blink → Prop := fun slot => slot.pin = pin ∧ slot.freq = freq
  refine minds_storeBlink (fun _ => True) named (fun _ h => h) ?_ ?_
  · exact fun _ _ => rfl
  refine minds_storeBlink named paced (fun _ h => h) ?_ ?_
  · exact fun _ h => ⟨h, rfl⟩
  change Minds _ (.op (.storeBlink pin.toNat .duration duration) fun _ => .ret ()) _
  refine minds_storeBlink paced (Blink.Configured pin freq duration) (fun _ h => h) ?_ ?_
  · exact fun _ h => ⟨h.1, h.2, rfl⟩
  refine minds_ret ?_ fun _ h => h
  exact (tabular_and (tabular_watched none)
    (tabular_and (tabular_resting _) (tabular_blinkFields _ fun _ h => h))).stable

theorem minds_storeSoftPwmFields (pin dutyCycle frequency : Int) :
    Minds (fun s => Watched none s ∧ Resting (.softPwm pin.toNat) s)
      (storeSoftPwmFields pin dutyCycle frequency)
      fun _ s => Watched none s ∧ Resting (.softPwm pin.toNat) s ∧
        (s.softPwmPins pin.toNat).pin = pin := by
  unfold storeSoftPwmFields
  simp only [Prog.call_bind]
  refine Machine.contract_conseq
    (P := fun s => Watched none s ∧ Resting (.softPwm pin.toNat) s ∧ True) ?_
    (fun s hs => ⟨hs.1, hs.2, trivial⟩) fun _ _ h => h
  let named : SoftPwm → Prop := fun slot => slot.pin = pin
  refine minds_storeSoftPwm (fun _ => True) named ?_ ?_
  · exact fun _ _ => rfl
  refine minds_storeSoftPwm named named ?_ ?_
  · exact fun _ h => h
  change Minds _ (.op (.storeSoftPwm pin.toNat .frequency frequency) fun _ => .ret ()) _
  refine minds_storeSoftPwm named named ?_ ?_
  · exact fun _ h => h
  refine minds_ret ?_ fun _ h => h
  exact (tabular_and (tabular_watched none)
    (tabular_and (tabular_resting _) (tabular_slot _ _))).stable

theorem minds_blinkStart (pin freq duration : Int) :
    Minds (Watched none) (blinkStart pin freq duration) fun _ => Watched none := by
  by_cases hcall : (0 ≤ pin ∧ pin ≤ 21) ∧ 0 < freq ∧ 0 < duration
  · obtain ⟨hpin, hfreq, hduration⟩ := hcall
    have hnat : (pin.toNat : Int) = pin := Int.toNat_of_nonneg hpin.1
    rw [blinkStart_eq_startSlot hpin hfreq hduration]
    refine Machine.contract_conseq (minds_startSlot (R := fun _ => True)
      (tabular_blinkFields pin.toNat (φ := Blink.Configured pin freq duration) fun _ h => h) ?_ ?_
      (minds_storeBlinkFields pin freq duration) (fun _ _ _ _ _ => trivial)
      (fun _ _ _ _ _ => trivial) fun _ _ _ _ _ _ _ _ => trivial) (fun _ h => h) fun _ _ h => h.1
    · exact fun s hs => hs.1.trans hnat.symm
    · intro s t hs h
      rw [exec_storeBlink h]
      simpa [State.setBlink, Blink.set, Blink.Configured] using hs
  · rw [blinkStart_rejected hcall]
    exact minds_ret (watched_stable none) fun _ h => h

theorem minds_softPwmStart (pin dutyCycle frequency : Int) :
    Minds (Watched none) (softPwmStart pin dutyCycle frequency) fun _ => Watched none := by
  by_cases hcall : (SoftPwmCall.start pin dutyCycle frequency).InRange
  · obtain ⟨hpin, hduty, hfrequency⟩ := hcall
    have hnat : (pin.toNat : Int) = pin := Int.toNat_of_nonneg hpin.1
    rw [softPwmStart_eq_startSlot hpin hduty hfrequency]
    refine Machine.contract_conseq (minds_startSlot (R := fun _ => True)
      (tabular_slot pin.toNat fun slot => slot.pin = pin) ?_ ?_
      (minds_storeSoftPwmFields pin dutyCycle frequency) (fun _ _ _ _ _ => trivial)
      (fun _ _ _ _ _ => trivial) fun _ _ _ _ _ _ _ _ => trivial) (fun _ h => h) fun _ _ h => h.1
    · exact fun s hs => hs.trans hnat.symm
    · intro s t hs h
      rw [exec_storeSoftPwm h]
      simpa [State.setSoftPwm, SoftPwm.set] using hs
  · have hrejected : softPwmStart pin dutyCycle frequency = .ret (-1) :=
      SoftPwmCall.program_of_not_inRange hcall
    rw [hrejected]
    exact minds_ret (watched_stable none) fun _ h => h

theorem minds_softPwmUpdateDuty (pin dutyCycle : Int) :
    Minds (Watched none) (softPwmUpdateDuty pin dutyCycle) fun _ => Watched none := by
  have hwatched := tabular_watched none
  have hret : ∀ value : Int, Minds (Watched none) (.ret value) fun _ => Watched none :=
    fun value => minds_ret hwatched.stable fun _ h => h
  unfold softPwmUpdateDuty
  split
  · exact hret _
  split
  · exact hret _
  simp only [Prog.call_bind]
  refine minds_leaves hwatched (by trivial) fun _ => ?_
  refine minds_leaves hwatched (by trivial) fun active => ?_
  split
  · exact minds_leaves hwatched (by trivial) fun _ => hret _
  · refine Machine.contract_op (N := fun _ => Watched none) hwatched.stable
      (fun _ _ _ => trivial) ?_ fun _ => minds_leaves hwatched (by trivial) fun _ => hret _
    intro s r t hs _ h
    refine watched_field hs (stored_softPwm h) ?_ ?_
    · rw [exec_storeSoftPwm h]
      simp [State.active, State.setSoftPwm, SoftPwm.set]
    · rw [exec_storeSoftPwm h]
      simp [State.pinOf, State.setSoftPwm, SoftPwm.set]

/-- A stop, where only its watch matters. -/
theorem minds_stopSlot_watched (c : Slot) (pin : Int) :
    Minds (Watched none) (stopSlot c pin) fun _ => Watched none := by
  refine Machine.contract_conseq (minds_stopSlot (R := fun _ => True) (L := fun _ => True)
    tabular_true ?_ ?_ ?_ ?_ ?_) (fun s hs => ⟨hs, trivial⟩) fun _ _ h => h.1
  · exact fun _ _ _ _ => trivial
  · exact fun _ _ _ _ _ => trivial
  · exact fun _ _ _ _ => trivial
  · exact fun _ _ _ _ _ _ _ => trivial
  · exact fun _ _ _ _ => trivial

theorem minds_program (call : PinCall) :
    Minds (Watched none) call.program fun _ => Watched none := by
  have hret : Minds (Watched none) (.ret (-1) : MainProg Int) fun _ => Watched none :=
    minds_ret (watched_stable none) fun _ h => h
  cases call with
  | blink call =>
    cases call with
    | start pin freq duration => exact minds_blinkStart pin freq duration
    | stop pin =>
      change Minds _ (blinkStop pin) _
      by_cases hpin : 0 ≤ pin ∧ pin ≤ 21
      · rw [blinkStop_eq hpin]
        exact minds_stopSlot_watched _ _
      · unfold blinkStop
        rw [if_pos (by omega)]
        exact hret
  | softPwm call =>
    cases call with
    | start pin dutyCycle frequency => exact minds_softPwmStart pin dutyCycle frequency
    | updateDuty pin dutyCycle => exact minds_softPwmUpdateDuty pin dutyCycle
    | stop pin =>
      change Minds _ (softPwmStop pin) _
      by_cases hpin : 0 ≤ pin ∧ pin ≤ 27
      · rw [softPwmStop_eq hpin]
        exact minds_stopSlot_watched _ _
      · unfold softPwmStop
        rw [if_pos (by omega)]
        exact hret

theorem minds_pinCalls (calls : List PinCall) :
    Minds (Watched none) (pinCalls calls) fun _ => Watched none := by
  apply Machine.contract_sequence (watched_stable none)
  intro p hp
  obtain ⟨call, -, rfl⟩ := List.mem_map.mp hp
  apply Machine.contract_bind (minds_program call)
  exact fun _ => minds_ret (watched_stable none) fun _ h => h

theorem watched_boot : Watched none boot := by
  have hnone : ∀ c tid, ¬ boot.Live c tid := by
    rintro c tid ⟨w, hw, -⟩
    cases hw
  exact ⟨fun c tid h => absurd h (hnone c tid), fun c tid h => absurd h (hnone c tid),
    fun c tid h => absurd h (hnone c tid)⟩

/-! ### The last level of a pin -/

theorem lastLevel_low {pin : Int} {s t : State} {r : Int}
    (h : machine.Exec (.system (digitalWriteCommand pin .low)) s r t) :
    lastLevel pin t.log = some .low := by
  rw [exec_system h]
  exact (lastLevel_digitalWrite pin pin r .low none s.log).trans (if_pos rfl)

/-- A slot with the same pin is the slot or that of the other family. -/
theorem eq_or_other {c c' : Slot} (h : c'.index = c.index) : c' = c ∨ c' = c.other := by
  cases c <;> cases c' <;> simp_all [Slot.index, Slot.other]

/-- A thread writes the pin of its slot only. -/
theorem index_of_entry {s : State} (hs : Watched none s) {e : LogEntry} (he : EntryOf s e)
    {pin : Nat} (hwrites : e.call.writes pin = true) :
    ∃ tid c, e.author = some tid ∧ s.Live c tid ∧ c.index = pin := by
  obtain ⟨tid, c, hauthor, hlive, hpin⟩ := he
  obtain ⟨setting, status, hcall⟩ := writes_iff.mp hwrites
  refine ⟨tid, c, hauthor, hlive, ?_⟩
  have hname := hs.pin c tid hlive
  have hentry := hpin _ _ _ hcall
  omega

/-- The level of a pin without a running thread stays. -/
theorem lastLevel_stable {c : Slot} {value : Option Level} {s t : State} (hs : Watched none s)
    (hresting : Resting c s) (hother : Resting c.other s)
    (hlevel : lastLevel c.index s.log = value) (henv : machine.Env s t) :
    lastLevel c.index t.log = value := by
  rcases log_env henv with hsame | ⟨e, hlog, hentry⟩
  · rw [hsame]
    exact hlevel
  · have hnone : e.call.writes c.index ≠ true := by
      intro hwrites
      obtain ⟨tid, c', -, hlive, hindex⟩ := index_of_entry hs hentry hwrites
      rcases eq_or_other hindex with rfl | rfl
      · exact hresting tid hlive
      · exact hother tid hlive
    rw [hlog, lastLevel_cons_of_not_writes hnone]
    exact hlevel

/-! ### Slots without calls -/

/-- The operations that create no thread for the slot. -/
def createsOther (d : Slot) (o : Op) : Prop := o.creates ≠ some d

theorem createsOther_of_none {d : Slot} {o : Op} (h : o.creates = none) : createsOther d o := by
  simp [createsOther, h]

section

variable (c d : Slot)

theorem uses_loadActive : (loadActive c).Uses (createsOther d) := by
  cases c <;> exact ⟨createsOther_of_none rfl, fun _ => trivial⟩

theorem uses_storeActive (value : Int) : (storeActive value c).Uses (createsOther d) := by
  cases c <;> exact ⟨createsOther_of_none rfl, fun _ => trivial⟩

theorem uses_joinThread : (joinThread c).Uses (createsOther d) := by
  cases c <;> exact ⟨createsOther_of_none rfl, fun _ => trivial⟩

theorem uses_createThread {c d : Slot} (hne : c ≠ d) : (createThread c).Uses (createsOther d) := by
  cases c with
  | softPwm i => exact ⟨fun h => hne (Option.some.inj h), fun _ => trivial⟩
  | blink i => exact ⟨fun h => hne (Option.some.inj h), fun _ => trivial⟩

theorem uses_unlock (m : Mutex) (value : Int) :
    (do exec (.unlock m); return value : MainProg Int).Uses (createsOther d) :=
  ⟨createsOther_of_none rfl, fun _ => trivial⟩

theorem uses_stopSlot (pin : Int) : (stopSlot c pin).Uses (createsOther d) := by
  refine uses_bind ⟨createsOther_of_none rfl, fun _ => trivial⟩ fun _ => ?_
  refine uses_bind (uses_loadActive c d) fun active => ?_
  split
  · exact uses_unlock d _ _
  · refine uses_bind (uses_storeActive c d 0) fun _ => uses_bind (uses_joinThread c d) fun _ => ?_
    refine uses_bind ?_ fun _ => uses_unlock d _ _
    exact uses_digitalWrite (fun _ _ => createsOther_of_none rfl) _ _

end

theorem uses_startSlot {c d : Slot} (hne : c ≠ d) (pin : Int) {configure : MainProg Unit}
    (hconfigure : configure.Uses (createsOther d)) :
    (startSlot c pin configure).Uses (createsOther d) := by
  refine uses_bind ⟨createsOther_of_none rfl, fun _ => trivial⟩ fun _ => ?_
  refine uses_bind (uses_loadActive c d) fun active => uses_bind ?_ fun _ => ?_
  · unfold Prog.when
    split
    · exact uses_bind (uses_storeActive c d 0) fun _ => uses_joinThread c d
    · trivial
  unfold launchSlot
  refine uses_bind hconfigure fun _ => uses_bind (uses_storeActive c d 1) fun _ => ?_
  refine uses_bind (uses_pinMode (fun _ _ => createsOther_of_none rfl) _ _) fun _ => ?_
  refine uses_bind (uses_createThread hne) fun result => ?_
  split
  · exact uses_bind (uses_storeActive c d 0) fun _ => uses_unlock d _ _
  · exact uses_unlock d _ _

/-- A call that is not about a slot creates no thread for it. -/
theorem uses_program_createsOther {call : PinCall} {d : Slot} (hcall : ¬ call.On d) :
    call.program.Uses (createsOther d) := by
  have hrejected : (.ret (-1) : MainProg Int).Uses (createsOther d) := trivial
  cases call with
  | blink call =>
    cases call with
    | start pin freq duration =>
      change (blinkStart pin freq duration).Uses _
      by_cases hin : (0 ≤ pin ∧ pin ≤ 21) ∧ 0 < freq ∧ 0 < duration
      · rw [blinkStart_eq_startSlot hin.1 hin.2.1 hin.2.2]
        refine uses_startSlot ?_ pin ?_
        · rintro rfl
          exact hcall (Int.toNat_of_nonneg hin.1.1).symm
        · exact ⟨createsOther_of_none rfl, fun _ => ⟨createsOther_of_none rfl, fun _ =>
            ⟨createsOther_of_none rfl, fun _ => trivial⟩⟩⟩
      · rw [blinkStart_rejected hin]
        exact hrejected
    | stop pin =>
      change (blinkStop pin).Uses _
      by_cases hpin : 0 ≤ pin ∧ pin ≤ 21
      · rw [blinkStop_eq hpin]
        exact uses_stopSlot _ _ _
      · unfold blinkStop
        rw [if_pos (by omega)]
        exact hrejected
  | softPwm call =>
    by_cases hin : call.InRange
    · cases call with
      | start pin dutyCycle frequency =>
        change (softPwmStart pin dutyCycle frequency).Uses _
        rw [softPwmStart_eq_startSlot hin.1 hin.2.1 hin.2.2]
        refine uses_startSlot ?_ pin ?_
        · rintro rfl
          exact hcall (Int.toNat_of_nonneg hin.1.1).symm
        · exact ⟨createsOther_of_none rfl, fun _ => ⟨createsOther_of_none rfl, fun _ =>
            ⟨createsOther_of_none rfl, fun _ => trivial⟩⟩⟩
      | updateDuty pin dutyCycle =>
        refine uses_mono ?_ (uses_softPwmUpdateDuty pin dutyCycle)
        intro o ho
        cases o with
        | createSoftPwm i => cases ho
        | createBlink i => cases ho
        | _ => exact createsOther_of_none rfl
      | stop pin =>
        change (softPwmStop pin).Uses _
        rw [softPwmStop_eq hin]
        exact uses_stopSlot _ _ _
    · change call.program.Uses _
      rw [SoftPwmCall.program_of_not_inRange hin]
      exact hrejected

theorem uses_pinCalls {calls : List PinCall} {d : Slot} (h : ∀ call ∈ calls, ¬ call.On d) :
    (pinCalls calls).Uses (createsOther d) := by
  induction calls with
  | nil => trivial
  | cons call calls ih =>
    refine uses_bind ?_ fun _ => ih fun c hc => h c (List.mem_cons_of_mem _ hc)
    exact uses_bind (uses_program_createsOther (h call List.mem_cons_self)) fun _ => trivial

/-! ### Threads of before -/

/-- The slot of every running thread names its pin. -/
def PinsNamed (s : State) : Prop := ∀ c tid, s.Live c tid → s.pinOf c = c.index

/-- Since the log was `before`: the first `n` threads have ended on the pin, and have not written
it. -/
structure Retired (pin n : Nat) (before : List LogEntry) (s : State) : Prop where
  created : n ≤ s.workers.length
  pins : PinsNamed s
  ended : ∀ c tid, s.Live c tid → c.index = pin → n ≤ tid
  log : ∃ new, s.log = new ++ before ∧
    ∀ e ∈ new, ∀ tid, e.author = some tid → e.call.writes pin = true → n ≤ tid

section

variable {s t : State} (hs : PinsNamed s)
include hs

theorem pinsNamed_stored {c : Slot} (h : Stored c s t)
    (hpin : t.pinOf c = s.pinOf c ∨ Resting c s) : PinsNamed t := by
  intro c' tid ht
  have hold := (live_congr h.workers c' tid).mp ht
  by_cases heq : c' = c
  · subst heq
    rcases hpin with hsame | hresting
    · rw [hsame]
      exact hs c' tid hold
    · exact absurd hold (hresting tid)
  · rw [h.pin c' heq]
    exact hs c' tid hold

theorem pinsNamed_created {c : Slot} {r : Int} (h : Creates c s r t) (hpin : s.pinOf c = c.index) :
    PinsNamed t := by
  intro c' tid ht
  rcases creates_cases h with ⟨-, ⟨task, hslot, hworkers⟩, -, -, -, hpins⟩ | ⟨-, rfl⟩
  · rw [hpins]
    rcases live_append hworkers ht with hold | ⟨-, hnew⟩
    · exact hs c' tid hold
    · rw [← hnew, hslot]
      exact hpin
  · exact hs c' tid ht

theorem pinsNamed_joined {joined : Nat} (h : s.join joined = some t) : PinsNamed t := by
  intro c' tid ht
  have hold := (live_join h ht).1
  obtain ⟨w, -, -, -, rfl⟩ := join_some h
  exact hs c' tid hold

/-- A slot of a running thread keeps its pin. -/
theorem pinsNamed_exec {o : Op} {r : o.Res} (hminds : minds o s) (h : machine.Exec o s r t) :
    PinsNamed t := by
  cases o with
  | storeSoftPwm i field value =>
    refine pinsNamed_stored hs (stored_softPwm h) ?_
    cases field with
    | pin => exact .inr hminds
    | _ =>
      left
      rw [exec_storeSoftPwm h, pinOf_setSoftPwm, if_pos rfl]
      rfl
  | storeBlink i field value =>
    refine pinsNamed_stored hs (stored_blink h) ?_
    cases field with
    | pin => exact .inr hminds
    | _ =>
      left
      rw [exec_storeBlink h, pinOf_setBlink, if_pos rfl]
      rfl
  | createSoftPwm i => exact pinsNamed_created (c := .softPwm i) hs h hminds
  | createBlink i => exact pinsNamed_created (c := .blink i) hs h hminds
  | joinSoftPwm i => exact pinsNamed_joined hs (exec_joinSoftPwm h)
  | joinBlink i => exact pinsNamed_joined hs (exec_joinBlink h)
  | _ =>
    intro c' tid ht
    obtain ⟨hsoft, hblink, hworkers⟩ := exec_leavesTables (by trivial) h
    rw [pinOf_congr hsoft hblink]
    exact hs c' tid ((live_congr hworkers c' tid).mp ht)

end

section

variable {pin n : Nat} {before : List LogEntry} {s t : State}

theorem retired_stable : machine.Stable (Retired pin n before) := by
  intro s t hs henv
  refine ⟨hs.created.trans (length_env henv), ?_, ?_, ?_⟩
  · intro c tid ht
    rw [pinOf_env henv]
    exact hs.pins c tid (live_env henv ht)
  · exact fun c tid ht => hs.ended c tid (live_env henv ht)
  · obtain ⟨new, hlog, hnew⟩ := hs.log
    rcases log_env henv with hsame | ⟨e, heq, tid, c, hauthor, hlive, hpin⟩
    · exact ⟨new, hsame.trans hlog, hnew⟩
    · refine ⟨e :: new, by rw [heq, hlog]; rfl, ?_⟩
      intro e' he' tid' hauthor' hwrites
      rcases List.mem_cons.mp he' with rfl | hold
      · obtain ⟨setting, status, hcall⟩ := writes_iff.mp hwrites
        have hname := hs.pins c tid hlive
        have hentry := hpin _ _ _ hcall
        obtain rfl : tid = tid' := Option.some.inj (hauthor.symm.trans hauthor')
        exact hs.ended c tid hlive (by omega)
      · exact hnew e' hold tid' hauthor' hwrites

theorem retired_exec {o : Op} {r : o.Res} (hs : Retired pin n before s) (hminds : minds o s)
    (h : machine.Exec o s r t) : Retired pin n before t := by
  refine ⟨hs.created.trans (length_exec h), pinsNamed_exec hs.pins hminds h, ?_, ?_⟩
  · intro c tid ht hindex
    rcases live_exec h ht with hold | ⟨hlen, -⟩
    · exact hs.ended c tid hold hindex
    · rw [hlen]
      exact hs.created
  · obtain ⟨new, hlog, hnew⟩ := hs.log
    refine ⟨o.calls r ++ new, by rw [exec_log h, hlog, List.append_assoc], ?_⟩
    intro e he tid hauthor hwrites
    rcases List.mem_append.mp he with hcalls | hold
    · rw [author_of_calls hcalls] at hauthor
      cases hauthor
    · exact hnew e hold tid hauthor hwrites

end

/-! ### The stop -/

theorem stop_program {c : Slot} (hc : c.Exists) : c.stop.program = stopSlot c c.index := by
  cases c with
  | softPwm i =>
    have hi : i ≤ 27 := hc
    change softPwmStop (i : Int) = _
    rw [softPwmStop_eq ⟨by omega, by omega⟩, Int.toNat_natCast]
    rfl
  | blink i =>
    have hi : i ≤ 21 := hc
    change blinkStop (i : Int) = _
    rw [blinkStop_eq ⟨by omega, by omega⟩, Int.toNat_natCast]
    rfl

/-- A stop leaves no running thread on its pin, and the level it wrote if it returns 0. -/
theorem minds_stop {c : Slot} (hc : c.Exists) :
    Minds (fun s => Watched none s ∧ Unused c.other s) c.stop.program
      fun value s => Watched none s ∧ Resting c s ∧ Unused c.other s ∧
        (value = 0 → lastLevel c.index s.log = some .low) := by
  rw [stop_program hc]
  apply minds_stopSlot (tabular_unused c.other)
  · intro s t hs h
    unfold Unused
    rw [h.workers]
    exact hs
  · intro s tid t hs h
    obtain ⟨w, hw, -, -, rfl⟩ := join_some h
    intro tid' w' hw'
    by_cases hsame : tid = tid'
    · subst hsame
      have hlen : tid < s.workers.length := (List.getElem?_eq_some_iff.mp hw).1
      rw [List.getElem?_set_self hlen] at hw'
      cases hw'
      exact hs tid w hw
    · rw [List.getElem?_set_ne hsame] at hw'
      exact hs tid' w' hw'
  · exact fun s r t h => lastLevel_low h
  · exact fun s t hs hresting hunused hlevel henv =>
      lastLevel_stable hs hresting (resting_of_unused hunused) hlevel henv
  · intro s t hlog hlevel
    rw [hlog]
    exact hlevel

/-- For any calls of both families, none of which is of the other family on the pin: when a stop
returns 0 the last level written to the pin is low; and when it returns at all (0, or -1 because
the slot is not active), no thread created before writes the pin any more, whatever is called
next. -/
theorem stopped_pin_silent (c : Slot) (hc : c.Exists) (calls : List PinCall)
    (honly : ∀ call ∈ calls, ¬ call.On c.other) (s t : State) (value : Int)
    (hs : machine.Runs (pinCalls calls) boot () s)
    (hstop : machine.Runs c.stop.program s value t) :
    (value = 0 → lastLevel c.index t.log = some .low) ∧
    ∀ later q u, machine.Steps (pinCalls later, t) (q, u) →
      ∃ new, u.log = new ++ t.log ∧ ∀ e ∈ new, ∀ tid, e.author = some tid →
        e.call.writes c.index = true → t.workers.length ≤ tid := by
  obtain ⟨hunder, hauthored⟩ := authored_steps authored_boot hs
  obtain ⟨hstopping, hauthored⟩ := authored_steps hauthored hstop
  have hwatched : Watched none s :=
    Machine.contract_runs (Q := fun _ => Watched none) (minds_pinCalls calls) watched_boot hunder
  have hboot : Unused c.other boot := by
    intro tid w hw
    cases hw
  have hunused : Unused c.other s :=
    (Machine.uses_steps (tabular_unused c.other).stable
      (fun o ho s r t hs h => unused_exec ho hs h) (uses_pinCalls honly) hboot hs).2
  obtain ⟨hwatch, hresting, hother, hlevel⟩ := Machine.contract_runs (minds_stop hc)
    ⟨hwatched, hunused⟩ hstopping
  refine ⟨hlevel, fun later q u hsteps => ?_⟩
  have hretired : Retired c.index t.workers.length t.log t := by
    refine ⟨Nat.le_refl _, hwatch.pin, ?_, [], rfl, fun e he => absurd he List.not_mem_nil⟩
    intro c' tid hlive hindex
    rcases eq_or_other hindex with rfl | rfl
    · exact absurd hlive (hresting tid)
    · exact absurd hlive (resting_of_unused hother tid)
  have hend := Machine.contract_invariant retired_stable
    (fun o s r t hs hminds h => retired_exec hs hminds h) (minds_pinCalls later) hwatch hretired
    (authored_steps hauthored hsteps).1
  exact hend.log

/-- A blink of pin 5 that is stopped while its thread is between the two levels. -/
theorem stopped_pin_silent_blink :
    ∃ s t, machine.Runs (pinCalls [.blink (.start 5 1 1)]) boot () s ∧
      machine.Runs (Slot.blink 5).stop.program s 0 t ∧ lastLevel 5 t.log = some .low := by
  obtain ⟨value, t, hruns, hvalue⟩ := machine.play_runs
    (List.replicate 9 (.inl 0) ++ List.replicate 4 (.inr (0, 0)) ++ List.replicate 3 (.inl 0) ++
      List.replicate 4 (.inr (0, 0)) ++ List.replicate 3 (.inl 0))
    (pinCalls [.blink (.start 5 1 1)] >>= fun _ => (Slot.blink 5).stop.program) boot
    (fun value _ => decide (value = 0)) (by decide +kernel)
  obtain rfl : value = 0 := of_decide_eq_true hvalue
  obtain ⟨_, s, hs, hstop⟩ := Machine.runs_bind hruns
  exact ⟨s, t, hs, hstop,
    (stopped_pin_silent (.blink 5) (by decide : 5 ≤ 21) _ (by simp [PinCall.On, Slot.other]) s t 0
      hs hstop).1 rfl⟩

end EmbeddedCar.Gpio
