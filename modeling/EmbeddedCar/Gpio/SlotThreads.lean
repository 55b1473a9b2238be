import EmbeddedCar.Gpio.Footprint
import EmbeddedCar.Gpio.Handles

/-!
# Slots and their running threads

Both families of `gpio_lib.c` treat their slots alike: a start stops the thread of an active slot
before it changes the slot, and a stop clears `active` and joins. `stopSlot` and `startSlot` are
the two functions with the slot as a parameter. `Watched` is what they keep: a thread that has
not returned is the one whose handle its slot holds, it writes the pin of its slot, and the slot
is active.
-/

namespace EmbeddedCar.Gpio

open EmbeddedCar.Concurrent Prog

namespace Slot

/-- The index of the slot in its table, which is its pin. -/
def index : Slot → Nat
  | .softPwm i => i
  | .blink i => i

def mutex : Slot → Mutex
  | .softPwm _ => .softPwm
  | .blink _ => .blink

end Slot

namespace State

def active (s : State) : Slot → Int
  | .softPwm i => (s.softPwmPins i).active
  | .blink i => (s.blinkPins i).active

/-- The field `pin` of a slot. -/
def pinOf (s : State) : Slot → Int
  | .softPwm i => (s.softPwmPins i).pin
  | .blink i => (s.blinkPins i).pin

/-- Thread `tid` was created for the slot and has not returned. -/
def Live (s : State) (c : Slot) (tid : Nat) : Prop :=
  ∃ w, s.workers[tid]? = some w ∧ w.task.slot = c ∧ w.task.finished = false

end State

/-- No thread of the slot is running. -/
def Resting (c : Slot) (s : State) : Prop := ∀ tid, ¬ s.Live c tid

/-- Every running thread is the one whose handle its slot holds, its slot names its pin, and its
slot is active, except for the slot that is being stopped. -/
structure Watched (stopping : Option Slot) (s : State) : Prop where
  handle : ∀ c tid, s.Live c tid → s.handle c = tid
  active : ∀ c tid, s.Live c tid → stopping ≠ some c → s.active c ≠ 0
  pin : ∀ c tid, s.Live c tid → s.pinOf c = c.index

/-! ### Steps of the threads -/

theorem unfinished_of_advance {s : State} {task task' : Task} {e : ThreadEffect}
    (h : s.advance task = some (task', e)) : task.finished = false := by
  cases task with
  | blink i pc =>
    obtain ⟨pc', -, hthread⟩ := advance_blink h
    exact decide_eq_false (blinkThread_finished hthread)
  | softPwm i pc =>
    obtain ⟨pc', -, hthread⟩ := advance_softPwm h
    apply decide_eq_false
    rintro rfl
    cases hthread

theorem blinks_iff_live {s : State} {tid i : Nat} : s.Blinks tid i ↔ s.Live (.blink i) tid := by
  constructor
  · rintro ⟨pc, joined, hw, hlive⟩
    exact ⟨_, hw, rfl, decide_eq_false hlive⟩
  · rintro ⟨⟨task, joined⟩, hw, hslot, hlive⟩
    cases task with
    | softPwm j pc => cases hslot
    | blink j pc =>
      cases hslot
      exact ⟨pc, joined, hw, of_decide_eq_false hlive⟩

/-- The threads start no thread. -/
theorem live_env {s t : State} (h : machine.Env s t) {c : Slot} {tid : Nat} (ht : t.Live c tid) :
    s.Live c tid := by
  obtain ⟨w', hw', hslot, hlive⟩ := ht
  obtain ⟨w, hw, -, hmoved⟩ := env_worker h hw'
  refine ⟨w, hw, (slot_eq_of_moved hmoved).symm.trans hslot, ?_⟩
  rcases hmoved with rfl | ⟨e, hadvance⟩
  · exact hlive
  · exact unfinished_of_advance hadvance

theorem pinOf_env {s t : State} (h : machine.Env s t) (c : Slot) : t.pinOf c = s.pinOf c := by
  cases c with
  | softPwm i =>
    unfold State.pinOf
    rw [env_softPwmPins h]
  | blink i =>
    rcases env_blinkPins h with hsame | ⟨tid, j, -, -, hpins⟩
    · unfold State.pinOf
      rw [hsame]
    · unfold State.pinOf
      rw [hpins]
      by_cases hij : i = j
      · simp [hij]
      · simp [hij]

/-- A thread clears `active` of its own slot only, and then it has returned. -/
theorem active_env {s t : State} (h : machine.Env s t) (c : Slot) :
    t.active c = s.active c ∨ ∃ tid, s.Live c tid ∧ ¬ t.Live c tid := by
  cases c with
  | softPwm i =>
    left
    unfold State.active
    rw [env_softPwmPins h]
  | blink i =>
    rcases env_blinkPins h with hsame | ⟨tid, j, hj, hended, hpins⟩
    · left
      unfold State.active
      rw [hsame]
    · by_cases hij : i = j
      · subst hij
        exact .inr ⟨tid, blinks_iff_live.mp hj, fun hlive => hended (blinks_iff_live.mpr hlive)⟩
      · left
        unfold State.active
        rw [hpins]
        simp [hij]

/-- The entry a running thread adds to the log: its own, and a pin it writes is that of its
slot. -/
def EntryOf (s : State) (e : LogEntry) : Prop :=
  ∃ tid c, e.author = some tid ∧ s.Live c tid ∧
    ∀ pin setting status, e.call = .system (.gpioSet pin setting) status → pin = s.pinOf c

theorem log_env {s t : State} (h : machine.Env s t) :
    t.log = s.log ∨ ∃ e, t.log = e :: s.log ∧ EntryOf s e := by
  obtain ⟨tid, status, w, task, e, hw, hadvance, rfl⟩ := env_iff.mp h
  have hlive : s.Live w.task.slot tid := ⟨w, hw, rfl, unfinished_of_advance hadvance⟩
  cases e with
  | silent => exact .inl (by cases w.task <;> rfl)
  | deactivate => exact .inl (by cases w.task <;> rfl)
  | usleep us =>
    refine .inr ⟨⟨some tid, .usleep us⟩, by cases w.task <;> rfl, tid, _, rfl, hlive, ?_⟩
    intro pin setting status' hcall
    cases hcall
  | system command =>
    refine .inr ⟨⟨some tid, .system command status⟩, by cases w.task <;> rfl, tid, _, rfl, hlive,
      ?_⟩
    rintro pin setting status' hcall
    cases hcall
    have hpin : ∀ {p value}, ShellCommand.gpioSet pin setting = digitalWriteCommand p value →
        pin = p := by
      intro p value hcommand
      cases value <;> exact (ShellCommand.gpioSet.inj hcommand).1
    obtain ⟨taskOf, joined⟩ := w
    cases taskOf with
    | blink i pc =>
      obtain ⟨pc', -, hthread⟩ := advance_blink hadvance
      obtain ⟨value, hcommand⟩ := blinkThread_system hthread
      exact hpin hcommand
    | softPwm i pc =>
      obtain ⟨pc', -, hthread⟩ := advance_softPwm hadvance
      obtain ⟨value, hcommand⟩ := softPwmThread_system hthread
      exact hpin hcommand

theorem resting_stable (c : Slot) : machine.Stable (Resting c) :=
  fun _ _ hs henv tid ht => hs tid (live_env henv ht)

theorem watched_stable (stopping : Option Slot) : machine.Stable (Watched stopping) := by
  intro s t hs henv
  refine ⟨fun c tid ht => ?_, fun c tid ht hne => ?_, fun c tid ht => ?_⟩
  · rw [handle_env henv]
    exact hs.handle c tid (live_env henv ht)
  · rcases active_env henv c with hsame | ⟨tid', hlive, hended⟩
    · rw [hsame]
      exact hs.active c tid (live_env henv ht) hne
    · -- The slot has one running thread, and that one has returned.
      have hold := hs.handle c tid (live_env henv ht)
      rw [hs.handle c tid' hlive] at hold
      subst hold
      exact absurd ht hended
  · rw [pinOf_env henv]
    exact hs.pin c tid (live_env henv ht)

/-! ### What depends on the tables -/

section

variable {s t : State}

theorem live_congr (h : t.workers = s.workers) (c : Slot) (tid : Nat) :
    t.Live c tid ↔ s.Live c tid := by
  unfold State.Live
  rw [h]

theorem active_congr (hsoft : t.softPwmPins = s.softPwmPins) (hblink : t.blinkPins = s.blinkPins)
    (c : Slot) : t.active c = s.active c := by
  cases c <;> simp [State.active, hsoft, hblink]

theorem pinOf_congr (hsoft : t.softPwmPins = s.softPwmPins) (hblink : t.blinkPins = s.blinkPins)
    (c : Slot) : t.pinOf c = s.pinOf c := by
  cases c <;> simp [State.pinOf, hsoft, hblink]

end

theorem tabular_resting (c : Slot) : Tabular (Resting c) where
  stable := resting_stable c
  congr := fun _ _ _ _ hworkers hs tid ht => hs tid ((live_congr hworkers c tid).mp ht)

theorem tabular_watched (stopping : Option Slot) : Tabular (Watched stopping) where
  stable := watched_stable stopping
  congr := by
    intro s t hsoft hblink hworkers hs
    have hlive := fun c tid => (live_congr hworkers c tid).mp
    refine ⟨fun c tid ht => ?_, fun c tid ht hne => ?_, fun c tid ht => ?_⟩
    · rw [handle_congr hsoft hblink]
      exact hs.handle c tid (hlive c tid ht)
    · rw [active_congr hsoft hblink]
      exact hs.active c tid (hlive c tid ht) hne
    · rw [pinOf_congr hsoft hblink]
      exact hs.pin c tid (hlive c tid ht)

theorem tabular_true : Tabular fun _ => True where
  stable := fun _ _ _ _ => trivial
  congr := fun _ _ _ _ _ _ => trivial

/-- `active` of a slot without a running thread belongs to the main thread. -/
theorem tabular_restingActive (c : Slot) (value : Int) :
    Tabular fun s => Resting c s ∧ s.active c = value where
  stable := by
    rintro s t ⟨hresting, hactive⟩ henv
    refine ⟨resting_stable c s t hresting henv, ?_⟩
    rcases active_env henv c with hsame | ⟨tid, hlive, -⟩
    · exact hsame.trans hactive
    · exact absurd hlive (hresting tid)
  congr := by
    rintro s t hsoft hblink hworkers ⟨hresting, hactive⟩
    refine ⟨(tabular_resting c).congr s t hsoft hblink hworkers hresting, ?_⟩
    rw [active_congr hsoft hblink]
    exact hactive

/-! ### Stores, joins and creations -/

section

variable (s : State) (i : Nat) (c : Slot)

theorem handle_setSoftPwm (slot : SoftPwm) :
    (s.setSoftPwm i slot).handle c = if c = .softPwm i then slot.thread else s.handle c := by
  cases c with
  | blink j => rfl
  | softPwm j => by_cases hj : j = i <;> simp [State.handle, State.setSoftPwm, hj]

theorem active_setSoftPwm (slot : SoftPwm) :
    (s.setSoftPwm i slot).active c = if c = .softPwm i then slot.active else s.active c := by
  cases c with
  | blink j => rfl
  | softPwm j => by_cases hj : j = i <;> simp [State.active, State.setSoftPwm, hj]

theorem pinOf_setSoftPwm (slot : SoftPwm) :
    (s.setSoftPwm i slot).pinOf c = if c = .softPwm i then slot.pin else s.pinOf c := by
  cases c with
  | blink j => rfl
  | softPwm j => by_cases hj : j = i <;> simp [State.pinOf, State.setSoftPwm, hj]

theorem handle_setBlink (slot : Blink) :
    (s.setBlink i slot).handle c = if c = .blink i then slot.thread else s.handle c := by
  cases c with
  | softPwm j => rfl
  | blink j => by_cases hj : j = i <;> simp [State.handle, State.setBlink, hj]

theorem active_setBlink (slot : Blink) :
    (s.setBlink i slot).active c = if c = .blink i then slot.active else s.active c := by
  cases c with
  | softPwm j => rfl
  | blink j => by_cases hj : j = i <;> simp [State.active, State.setBlink, hj]

theorem pinOf_setBlink (slot : Blink) :
    (s.setBlink i slot).pinOf c = if c = .blink i then slot.pin else s.pinOf c := by
  cases c with
  | softPwm j => rfl
  | blink j => by_cases hj : j = i <;> simp [State.pinOf, State.setBlink, hj]

end

section

variable {c : Slot} {s t : State}

/-- A store to a slot: what it leaves alone. -/
structure Stored (c : Slot) (s t : State) : Prop where
  workers : t.workers = s.workers
  handle : ∀ c', t.handle c' = s.handle c'
  active : ∀ c', c' ≠ c → t.active c' = s.active c'
  pin : ∀ c', c' ≠ c → t.pinOf c' = s.pinOf c'

theorem stored_softPwm {i : Nat} {field : SoftPwmField} {value : Int} {r : Unit}
    (h : machine.Exec (.storeSoftPwm i field value) s r t) : Stored (.softPwm i) s t := by
  rw [exec_storeSoftPwm h]
  refine ⟨rfl, fun c' => ?_, fun c' hne => ?_, fun c' hne => ?_⟩
  · rw [handle_setSoftPwm]
    split
    · next heq =>
      subst heq
      cases field <;> rfl
    · rfl
  · rw [active_setSoftPwm, if_neg hne]
  · rw [pinOf_setSoftPwm, if_neg hne]

theorem stored_blink {i : Nat} {field : BlinkField} {value : Int} {r : Unit}
    (h : machine.Exec (.storeBlink i field value) s r t) : Stored (.blink i) s t := by
  rw [exec_storeBlink h]
  refine ⟨rfl, fun c' => ?_, fun c' hne => ?_, fun c' hne => ?_⟩
  · rw [handle_setBlink]
    split
    · next heq =>
      subst heq
      cases field <;> rfl
    · rfl
  · rw [active_setBlink, if_neg hne]
  · rw [pinOf_setBlink, if_neg hne]

/-- A store to `active` of the slot. -/
def StoresActive (value : Int) (c : Slot) (s t : State) : Prop :=
  match c with
  | .softPwm i => machine.Exec (.storeSoftPwm i .active value) s () t
  | .blink i => machine.Exec (.storeBlink i .active value) s () t

theorem stored_active {value : Int} (h : StoresActive value c s t) :
    Stored c s t ∧ t.active c = value ∧ t.pinOf c = s.pinOf c := by
  cases c with
  | softPwm i =>
    refine ⟨stored_softPwm h, ?_, ?_⟩
    · rw [exec_storeSoftPwm h]
      simp [State.active, State.setSoftPwm, SoftPwm.set]
    · rw [exec_storeSoftPwm h]
      simp [State.pinOf, State.setSoftPwm, SoftPwm.set]
  | blink i =>
    refine ⟨stored_blink h, ?_, ?_⟩
    · rw [exec_storeBlink h]
      simp [State.active, State.setBlink, Blink.set]
    · rw [exec_storeBlink h]
      simp [State.pinOf, State.setBlink, Blink.set]

theorem resting_stored (h : Stored c s t) {c' : Slot} (hs : Resting c' s) : Resting c' t :=
  fun tid ht => hs tid ((live_congr h.workers c' tid).mp ht)

/-- Any store to a slot without a running thread. -/
theorem watched_stored (hs : Watched none s) (hresting : Resting c s) (h : Stored c s t) :
    Watched none t := by
  have hold : ∀ c' tid, t.Live c' tid → s.Live c' tid ∧ c' ≠ c := by
    intro c' tid ht
    have hlive := (live_congr h.workers c' tid).mp ht
    refine ⟨hlive, ?_⟩
    rintro rfl
    exact hresting tid hlive
  refine ⟨fun c' tid ht => ?_, fun c' tid ht _ => ?_, fun c' tid ht => ?_⟩
  · rw [h.handle]
    exact hs.handle c' tid (hold c' tid ht).1
  · rw [h.active c' (hold c' tid ht).2]
    exact hs.active c' tid (hold c' tid ht).1 (by simp)
  · rw [h.pin c' (hold c' tid ht).2]
    exact hs.pin c' tid (hold c' tid ht).1

/-- A store to a field that is neither `pin` nor `active`. -/
theorem watched_field {stopping : Option Slot} (hs : Watched stopping s) (h : Stored c s t)
    (hactive : t.active c = s.active c) (hpin : t.pinOf c = s.pinOf c) : Watched stopping t := by
  have hold : ∀ c' tid, t.Live c' tid → s.Live c' tid :=
    fun c' tid => (live_congr h.workers c' tid).mp
  have hactives : ∀ c', t.active c' = s.active c' := by
    intro c'
    by_cases heq : c' = c
    · rw [heq, hactive]
    · exact h.active c' heq
  have hpins : ∀ c', t.pinOf c' = s.pinOf c' := by
    intro c'
    by_cases heq : c' = c
    · rw [heq, hpin]
    · exact h.pin c' heq
  refine ⟨fun c' tid ht => ?_, fun c' tid ht hne => ?_, fun c' tid ht => ?_⟩
  · rw [h.handle]
    exact hs.handle c' tid (hold c' tid ht)
  · rw [hactives]
    exact hs.active c' tid (hold c' tid ht) hne
  · rw [hpins]
    exact hs.pin c' tid (hold c' tid ht)

/-- Clearing `active` of the slot that is being stopped. -/
theorem watched_cleared (hs : Watched none s) (h : Stored c s t) (hpin : t.pinOf c = s.pinOf c) :
    Watched (some c) t := by
  have hold : ∀ c' tid, t.Live c' tid → s.Live c' tid :=
    fun c' tid => (live_congr h.workers c' tid).mp
  refine ⟨fun c' tid ht => ?_, fun c' tid ht hne => ?_, fun c' tid ht => ?_⟩
  · rw [h.handle]
    exact hs.handle c' tid (hold c' tid ht)
  · rw [h.active c' fun heq => hne (by rw [heq])]
    exact hs.active c' tid (hold c' tid ht) (by simp)
  · by_cases heq : c' = c
    · subst heq
      rw [hpin]
      exact hs.pin c' tid (hold c' tid ht)
    · rw [h.pin c' heq]
      exact hs.pin c' tid (hold c' tid ht)

theorem live_join {tid : Nat} (h : s.join tid = some t) {c : Slot} {tid' : Nat}
    (ht : t.Live c tid') : s.Live c tid' ∧ tid' ≠ tid := by
  obtain ⟨w, hw, hfinished, -, rfl⟩ := join_some h
  obtain ⟨w', hget, hslot, hlive⟩ := ht
  by_cases hsame : tid = tid'
  · have hlen : tid < s.workers.length := (List.getElem?_eq_some_iff.mp hw).1
    rw [← hsame, List.getElem?_set_self hlen] at hget
    cases hget
    rw [hfinished] at hlive
    cases hlive
  · rw [List.getElem?_set_ne hsame] at hget
    exact ⟨⟨w', hget, hslot, hlive⟩, Ne.symm hsame⟩

/-- `pthread_join` returns when the thread of the slot has. -/
theorem watched_joined (hs : Watched (some c) s) (h : s.join (s.handle c) = some t) :
    Watched none t ∧ Resting c t := by
  have hlive := fun c' tid => @live_join s t (s.handle c) h c' tid
  obtain ⟨w, -, -, -, ht⟩ := join_some h
  have hsoft : t.softPwmPins = s.softPwmPins := by rw [ht]
  have hblink : t.blinkPins = s.blinkPins := by rw [ht]
  have hresting : Resting c t := by
    intro tid hlivet
    obtain ⟨hold, hne⟩ := hlive c tid hlivet
    exact hne (hs.handle c tid hold).symm
  refine ⟨⟨fun c' tid ht => ?_, fun c' tid ht _ => ?_, fun c' tid ht => ?_⟩, hresting⟩
  · rw [handle_congr hsoft hblink]
    exact hs.handle c' tid (hlive c' tid ht).1
  · rw [active_congr hsoft hblink]
    refine hs.active c' tid (hlive c' tid ht).1 ?_
    rintro heq
    cases heq
    exact hresting tid ht
  · rw [pinOf_congr hsoft hblink]
    exact hs.pin c' tid (hlive c' tid ht).1

/-- `pthread_create` for the slot. -/
def Creates (c : Slot) (s : State) (result : Int) (t : State) : Prop :=
  match c with
  | .softPwm i => machine.Exec (.createSoftPwm i) s result t
  | .blink i => machine.Exec (.createBlink i) s result t

/-- A creation adds one running thread, whose handle the slot holds, or fails. -/
theorem creates_cases {r : Int} (h : Creates c s r t) :
    (r = 0 ∧ (∃ task, task.slot = c ∧ t.workers = s.workers ++ [⟨task, false⟩]) ∧
      t.handle c = s.workers.length ∧ (∀ c', c' ≠ c → t.handle c' = s.handle c') ∧
      (∀ c', t.active c' = s.active c') ∧ ∀ c', t.pinOf c' = s.pinOf c') ∨
    (r ≠ 0 ∧ t = s) := by
  cases c with
  | softPwm i =>
    rcases exec_createSoftPwm h with ⟨hr, rfl⟩ | hfailed
    · refine .inl ⟨hr, ⟨_, rfl, rfl⟩, ?_, fun c' hne => ?_, fun c' => ?_, fun c' => ?_⟩
      · exact (handle_setSoftPwm s i _ _).trans (if_pos rfl)
      · exact (handle_setSoftPwm s i c' _).trans (if_neg hne)
      · refine (active_setSoftPwm s i c' _).trans (ite_eq_right_iff.mpr ?_)
        rintro rfl
        rfl
      · refine (pinOf_setSoftPwm s i c' _).trans (ite_eq_right_iff.mpr ?_)
        rintro rfl
        rfl
    · exact .inr hfailed
  | blink i =>
    rcases exec_createBlink h with ⟨hr, rfl⟩ | hfailed
    · refine .inl ⟨hr, ⟨_, rfl, rfl⟩, ?_, fun c' hne => ?_, fun c' => ?_, fun c' => ?_⟩
      · exact (handle_setBlink s i _ _).trans (if_pos rfl)
      · exact (handle_setBlink s i c' _).trans (if_neg hne)
      · refine (active_setBlink s i c' _).trans (ite_eq_right_iff.mpr ?_)
        rintro rfl
        rfl
      · refine (pinOf_setBlink s i c' _).trans (ite_eq_right_iff.mpr ?_)
        rintro rfl
        rfl
    · exact .inr hfailed

/-- A running thread of a grown list is an old one or the new one. -/
theorem live_append {task : Task} (h : t.workers = s.workers ++ [⟨task, false⟩]) {c : Slot}
    {tid : Nat} (ht : t.Live c tid) :
    s.Live c tid ∨ tid = s.workers.length ∧ task.slot = c := by
  obtain ⟨w, hw, hslot, hlive⟩ := ht
  rw [h] at hw
  rcases getElem?_concat_some hw with hold | ⟨hlen, rfl⟩
  · exact .inl ⟨w, hold, hslot, hlive⟩
  · exact .inr ⟨hlen, hslot⟩

/-- A thread created for an active slot that has none and names its pin. -/
theorem watched_created (hs : Watched none s) (hresting : Resting c s) (hactive : s.active c ≠ 0)
    (hpin : s.pinOf c = c.index) {r : Int} (h : Creates c s r t) :
    Watched none t ∧ (r ≠ 0 → Resting c t) := by
  rcases creates_cases h with ⟨rfl, ⟨task, hslot, hworkers⟩, hhandle, hothers, hactives, hpins⟩ |
    ⟨hr, rfl⟩
  · refine ⟨?_, fun hne => absurd rfl hne⟩
    have hcases : ∀ c' tid, t.Live c' tid →
        (s.Live c' tid ∧ c' ≠ c) ∨ (tid = s.workers.length ∧ c' = c) := by
      intro c' tid ht
      rcases live_append hworkers ht with hold | ⟨hlen, hnew⟩
      · refine .inl ⟨hold, ?_⟩
        rintro rfl
        exact hresting tid hold
      · exact .inr ⟨hlen, hnew.symm.trans hslot⟩
    refine ⟨fun c' tid ht => ?_, fun c' tid ht _ => ?_, fun c' tid ht => ?_⟩
    · rcases hcases c' tid ht with ⟨hold, hne⟩ | ⟨rfl, rfl⟩
      · rw [hothers c' hne]
        exact hs.handle c' tid hold
      · exact hhandle
    · rw [hactives]
      rcases hcases c' tid ht with ⟨hold, -⟩ | ⟨-, rfl⟩
      · exact hs.active c' tid hold (by simp)
      · exact hactive
    · rw [hpins]
      rcases hcases c' tid ht with ⟨hold, -⟩ | ⟨-, rfl⟩
      · exact hs.pin c' tid hold
      · exact hpin
  · exact ⟨hs, fun _ => hresting⟩

end

/-! ### The threads of a slot -/

/-- The slot that an operation creates a thread for. -/
def Op.creates : Op → Option Slot
  | .createSoftPwm i => some (.softPwm i)
  | .createBlink i => some (.blink i)
  | _ => none

/-- A thread after an operation was there before, with the same task, or has just been created. -/
theorem exec_worker {o : Op} {s t : State} {r : o.Res} (h : machine.Exec o s r t) {tid : Nat}
    {w' : Worker} (hw' : t.workers[tid]? = some w') :
    (∃ w, s.workers[tid]? = some w ∧ w'.task = w.task) ∨
      tid = s.workers.length ∧ o.creates = some w'.task.slot := by
  have hsame : t.workers = s.workers → ∃ w, s.workers[tid]? = some w ∧ w'.task = w.task := by
    intro heq
    exact ⟨w', by rw [← heq, hw'], rfl⟩
  have hjoin : ∀ joined, s.join joined = some t →
      ∃ w, s.workers[tid]? = some w ∧ w'.task = w.task := by
    intro joined hjoined
    obtain ⟨w, hw, -, -, rfl⟩ := join_some hjoined
    by_cases hsame : joined = tid
    · subst hsame
      have hlen : joined < s.workers.length := (List.getElem?_eq_some_iff.mp hw).1
      rw [List.getElem?_set_self hlen] at hw'
      cases hw'
      exact ⟨w, hw, rfl⟩
    · rw [List.getElem?_set_ne hsame] at hw'
      exact ⟨w', hw', rfl⟩
  cases o with
  | createSoftPwm i =>
    rcases exec_createSoftPwm h with ⟨-, rfl⟩ | ⟨-, rfl⟩
    · rcases getElem?_concat_some hw' with hold | ⟨hlen, rfl⟩
      · exact .inl ⟨w', hold, rfl⟩
      · exact .inr ⟨hlen, rfl⟩
    · exact .inl ⟨w', hw', rfl⟩
  | createBlink i =>
    rcases exec_createBlink h with ⟨-, rfl⟩ | ⟨-, rfl⟩
    · rcases getElem?_concat_some hw' with hold | ⟨hlen, rfl⟩
      · exact .inl ⟨w', hold, rfl⟩
      · exact .inr ⟨hlen, rfl⟩
    · exact .inl ⟨w', hw', rfl⟩
  | joinSoftPwm i => exact .inl (hjoin _ (exec_joinSoftPwm h))
  | joinBlink i => exact .inl (hjoin _ (exec_joinBlink h))
  | storeSoftPwm i field value => exact .inl (hsame (stored_softPwm h).workers)
  | storeBlink i field value => exact .inl (hsame (stored_blink h).workers)
  | _ => exact .inl (hsame (exec_leavesTables (by trivial) h).2.2)

theorem live_exec {o : Op} {s t : State} {r : o.Res} (h : machine.Exec o s r t) {c : Slot}
    {tid : Nat} (ht : t.Live c tid) :
    s.Live c tid ∨ tid = s.workers.length ∧ o.creates = some c := by
  obtain ⟨w', hw', rfl, hlive⟩ := ht
  rcases exec_worker h hw' with ⟨w, hw, htask⟩ | hnew
  · left
    rw [htask] at hlive ⊢
    exact ⟨w, hw, rfl, hlive⟩
  · exact .inr hnew

/-- No thread has been created for the slot. -/
def Unused (c : Slot) (s : State) : Prop :=
  ∀ (tid : Nat) (w : Worker), s.workers[tid]? = some w → w.task.slot ≠ c

theorem resting_of_unused {c : Slot} {s : State} (hs : Unused c s) : Resting c s := by
  rintro tid ⟨w, hw, hslot, -⟩
  exact hs tid w hw hslot

theorem tabular_unused (c : Slot) : Tabular (Unused c) where
  stable := by
    intro s t hs henv tid w' hw'
    obtain ⟨w, hw, -, hmoved⟩ := env_worker henv hw'
    rw [slot_eq_of_moved hmoved]
    exact hs tid w hw
  congr := by
    intro s t _ _ hworkers hs
    unfold Unused
    rw [hworkers]
    exact hs

theorem unused_exec {o : Op} {c : Slot} (ho : o.creates ≠ some c) {s t : State} {r : o.Res}
    (hs : Unused c s) (h : machine.Exec o s r t) : Unused c t := by
  intro tid w' hw'
  rcases exec_worker h hw' with ⟨w, hw, htask⟩ | ⟨-, hnew⟩
  · rw [htask]
    exact hs tid w hw
  · rintro rfl
    exact ho hnew

/-! ### Entries of threads -/

theorem length_env {s t : State} (h : machine.Env s t) : s.workers.length ≤ t.workers.length := by
  apply Nat.le_of_not_lt
  intro hlt
  obtain ⟨w', hw', -⟩ := env_worker_next h (List.getElem?_eq_getElem hlt)
  have hlen := (List.getElem?_eq_some_iff.mp hw').1
  omega

theorem length_exec {o : Op} {s t : State} {r : o.Res} (h : machine.Exec o s r t) :
    s.workers.length ≤ t.workers.length := by
  apply Nat.le_of_not_lt
  intro hlt
  obtain ⟨w', hw', -⟩ := exec_task h (List.getElem?_eq_getElem hlt)
  have hlen := (List.getElem?_eq_some_iff.mp hw').1
  omega

theorem author_of_calls {o : Op} {r : o.Res} {e : LogEntry} (h : e ∈ o.calls r) :
    e.author = none := by
  cases o with
  | system command => rw [List.mem_singleton.mp h]
  | usleep us => rw [List.mem_singleton.mp h]
  | _ => cases h

/-- An entry of a thread comes from a thread that has been created. -/
def Authored (s : State) : Prop :=
  ∀ e ∈ s.log, ∀ tid, e.author = some tid → tid < s.workers.length

theorem authored_boot : Authored boot := fun _ he => absurd he List.not_mem_nil

theorem authored_stable : machine.Stable Authored := by
  intro s t hs henv
  have hlength := length_env henv
  rcases log_env henv with hsame | ⟨e, hlog, tid, c, hauthor, hlive, -⟩
  · intro e he tid hauthor
    rw [hsame] at he
    exact Nat.lt_of_lt_of_le (hs e he tid hauthor) hlength
  · intro e' he' tid' hauthor'
    rw [hlog] at he'
    rcases List.mem_cons.mp he' with rfl | hold
    · obtain ⟨w, hw, -⟩ := hlive
      obtain rfl : tid = tid' := Option.some.inj (hauthor.symm.trans hauthor')
      exact Nat.lt_of_lt_of_le (List.getElem?_eq_some_iff.mp hw).1 hlength
    · exact Nat.lt_of_lt_of_le (hs e' hold tid' hauthor') hlength

theorem authored_exec {o : Op} {s t : State} {r : o.Res} (hs : Authored s)
    (h : machine.Exec o s r t) : Authored t := by
  intro e he tid hauthor
  rw [exec_log h] at he
  rcases List.mem_append.mp he with hcalls | hold
  · rw [author_of_calls hcalls] at hauthor
    cases hauthor
  · exact Nat.lt_of_lt_of_le (hs e hold tid hauthor) (length_exec h)

/-! ### The functions of a slot -/

/-- What has to hold when a slot is given a pin or a thread: no thread runs on it, and it names
its pin when the thread comes. -/
def minds : Op → State → Prop
  | .storeSoftPwm i .pin _, s => Resting (.softPwm i) s
  | .storeBlink i .pin _, s => Resting (.blink i) s
  | .createSoftPwm i, s => s.pinOf (.softPwm i) = i
  | .createBlink i, s => s.pinOf (.blink i) = i
  | _, _ => True

/-- Every run of the program minds the running threads, and leads from `P` to `Q`. -/
abbrev Minds {α : Type} (P : State → Prop) (p : MainProg α) (Q : α → State → Prop) : Prop :=
  machine.Contract (.ofState Authored) minds P p Q

theorem authored_steps {α : Type} {p q : MainProg α} {s t : State} (hs : Authored s)
    (h : machine.Steps (p, s) (q, t)) :
    machine.StepsUnder (.ofState Authored) (p, s) (q, t) ∧ Authored t :=
  Machine.stepsUnder_ofState authored_stable (fun _ _ _ _ hs h => authored_exec hs h) hs h

def loadActive : Slot → MainProg Int
  | .softPwm i => exec (.loadSoftPwm i .active)
  | .blink i => exec (.loadBlink i .active)

def storeActive (value : Int) : Slot → MainProg Unit
  | .softPwm i => exec (.storeSoftPwm i .active value)
  | .blink i => exec (.storeBlink i .active value)

def joinThread : Slot → MainProg Unit
  | .softPwm i => exec (.joinSoftPwm i)
  | .blink i => exec (.joinBlink i)

def createThread : Slot → MainProg Int
  | .softPwm i => exec (.createSoftPwm i)
  | .blink i => exec (.createBlink i)

/-- `blinkStop` and `softPwmStop` behind their range check. -/
def stopSlot (c : Slot) (pin : Int) : MainProg Int := do
  exec (.lock c.mutex)
  let active ← loadActive c
  if active = 0 then do
    exec (.unlock c.mutex)
    return -1
  else do
    storeActive 0 c
    joinThread c
    let _ ← digitalWrite pin .low
    exec (.unlock c.mutex)
    return 0

/-- What a start does to a slot without a thread, with the stores of the configuration as a
parameter. -/
def launchSlot (c : Slot) (pin : Int) (configure : MainProg Unit) : MainProg Int := do
  configure
  storeActive 1 c
  let _ ← pinMode pin .output
  let result ← createThread c
  if result ≠ 0 then do
    storeActive 0 c
    exec (.unlock c.mutex)
    return -1
  else do
    exec (.unlock c.mutex)
    return 0

/-- `blinkStart` and `softPwmStart` behind their range checks. -/
def startSlot (c : Slot) (pin : Int) (configure : MainProg Unit) : MainProg Int := do
  exec (.lock c.mutex)
  let active ← loadActive c
  when (active ≠ 0) do
    storeActive 0 c
    joinThread c
  launchSlot c pin configure

theorem blinkStop_eq {pin : Int} (hpin : 0 ≤ pin ∧ pin ≤ 21) :
    blinkStop pin = stopSlot (.blink pin.toNat) pin := by
  unfold blinkStop
  rw [if_neg (by omega)]
  rfl

theorem softPwmStop_eq {pin : Int} (hpin : 0 ≤ pin ∧ pin ≤ 27) :
    softPwmStop pin = stopSlot (.softPwm pin.toNat) pin := by
  unfold softPwmStop
  rw [if_neg (by omega)]
  rfl

/-- The stores of `blinkStart` (`gpio_lib.c:137-139`). -/
def storeBlinkFields (pin freq duration : Int) : MainProg Unit := do
  exec (.storeBlink pin.toNat .pin pin)
  exec (.storeBlink pin.toNat .freq freq)
  exec (.storeBlink pin.toNat .duration duration)

/-- The stores of `softPwmStart` (`gpio_lib.c:372-374`). -/
def storeSoftPwmFields (pin dutyCycle frequency : Int) : MainProg Unit := do
  exec (.storeSoftPwm pin.toNat .pin pin)
  exec (.storeSoftPwm pin.toNat .dutyCycle dutyCycle)
  exec (.storeSoftPwm pin.toNat .frequency frequency)

theorem blinkStart_eq_startSlot {pin freq duration : Int} (hpin : 0 ≤ pin ∧ pin ≤ 21)
    (hfreq : 0 < freq) (hduration : 0 < duration) :
    blinkStart pin freq duration =
      startSlot (.blink pin.toNat) pin (storeBlinkFields pin freq duration) := by
  unfold blinkStart
  rw [if_neg (by omega), if_neg (by omega)]
  rfl

theorem softPwmStart_eq_startSlot {pin dutyCycle frequency : Int} (hpin : 0 ≤ pin ∧ pin ≤ 27)
    (hduty : 0 ≤ dutyCycle ∧ dutyCycle ≤ 100) (hfrequency : 0 < frequency) :
    softPwmStart pin dutyCycle frequency =
      startSlot (.softPwm pin.toNat) pin (storeSoftPwmFields pin dutyCycle frequency) := by
  unfold softPwmStart
  rw [if_neg (by omega), if_neg (by omega), if_neg (by omega)]
  rfl

section

variable {α : Type} {c : Slot} {P F R : State → Prop} {Q : α → State → Prop}

theorem minds_of_leavesTables {o : Op} (ho : leavesTables o) (s : State) : minds o s := by
  cases o <;> trivial

theorem minds_leaves (hP : Tabular P) {o : Op} (ho : leavesTables o) {next : o.Res → MainProg α}
    (hnext : ∀ r, Minds P (next r) Q) : Minds P (.op o next) Q := by
  apply Machine.contract_op (N := fun _ => P) hP.stable
  · exact fun s _ _ => minds_of_leavesTables ho s
  · exact fun s r t hs _ h => tabular_exec hP ho hs h
  · exact hnext

theorem minds_leaves_bind {β : Type} (hP : Tabular P) {p : MainProg β} (hp : p.Uses leavesTables)
    {f : β → MainProg α} (hf : ∀ value, Minds P (f value) Q) : Minds P (p >>= f) Q := by
  apply Machine.contract_bind (N := fun _ => P)
  · apply Machine.contract_uses hP.stable
    · exact fun o ho s _ => minds_of_leavesTables ho s
    · exact fun o ho s r t hs h => tabular_exec hP ho hs h
    · exact hp
  · exact hf

theorem minds_ret (hP : machine.Stable P) {value : α} (hQ : ∀ s, P s → Q value s) :
    Minds P (.ret value) Q :=
  Machine.contract_ret hP hQ

/-- The last statements of a call. -/
theorem minds_unlock (hP : Tabular P) (m : Mutex) {value : Int} {Q : Int → State → Prop}
    (hQ : ∀ s, P s → Q value s) :
    Minds P (do exec (.unlock m); return value) Q := by
  simp only [Prog.call_bind]
  exact minds_leaves hP (by trivial) fun _ => minds_ret hP.stable hQ

/-- The first test of a call: no thread runs on a slot that is not active. -/
theorem minds_loadActive {f : Int → MainProg α} (hR : Tabular R)
    (hinactive : Minds (fun s => Watched none s ∧ Resting c s ∧ R s) (f 0) Q)
    (hactive : ∀ value, value ≠ 0 → Minds (fun s => Watched none s ∧ R s) (f value) Q) :
    Minds (fun s => Watched none s ∧ R s) (loadActive c >>= f) Q := by
  have htabular := tabular_and (tabular_watched none) hR
  have hload : Minds (fun s => Watched none s ∧ R s) (loadActive c)
      fun value s => (Watched none s ∧ R s) ∧ (value = 0 → Resting c s) := by
    have hresting : ∀ s, Watched none s → s.active c = 0 → Resting c s :=
      fun s hs hzero tid ht => hs.active c tid ht (by simp) hzero
    cases c with
    | softPwm i =>
      refine Machine.contract_op (N := fun value s => (Watched none s ∧ R s) ∧
        (value = 0 → Resting (.softPwm i) s)) htabular.stable (fun _ _ _ => trivial) ?_
        fun value => ?_
      · intro s value t hs _ h
        obtain ⟨hvalue, rfl⟩ := exec_loadSoftPwm h
        exact ⟨hs, fun hzero => hresting t hs.1 (hvalue.symm.trans hzero)⟩
      · refine minds_ret ?_ fun _ h => h
        exact fun s t hs henv => ⟨htabular.stable s t hs.1 henv,
          fun hzero => resting_stable _ s t (hs.2 hzero) henv⟩
    | blink i =>
      refine Machine.contract_op (N := fun value s => (Watched none s ∧ R s) ∧
        (value = 0 → Resting (.blink i) s)) htabular.stable (fun _ _ _ => trivial) ?_
        fun value => ?_
      · intro s value t hs _ h
        obtain ⟨hvalue, rfl⟩ := exec_loadBlink h
        exact ⟨hs, fun hzero => hresting t hs.1 (hvalue.symm.trans hzero)⟩
      · refine minds_ret ?_ fun _ h => h
        exact fun s t hs henv => ⟨htabular.stable s t hs.1 henv,
          fun hzero => resting_stable _ s t (hs.2 hzero) henv⟩
  apply Machine.contract_bind hload
  intro value
  by_cases hzero : value = 0
  · subst hzero
    exact Machine.contract_conseq hinactive (fun s hs => ⟨hs.1.1, hs.2 rfl, hs.1.2⟩) fun _ _ h => h
  · exact Machine.contract_conseq (hactive value hzero) (fun s hs => hs.1) fun _ _ h => h

/-- A store to `active`. -/
theorem minds_storeActive {value : Int} {f : Unit → MainProg α} (hP : machine.Stable P)
    (hR : machine.Stable R) (hstep : ∀ s t, P s → StoresActive value c s t → R t)
    (hnext : Minds R (f ()) Q) : Minds P (storeActive value c >>= f) Q := by
  have hstore : Minds P (storeActive value c) fun _ => R := by
    cases c with
    | softPwm i =>
      refine Machine.contract_op (N := fun _ => R) hP (fun _ _ _ => trivial) ?_ fun _ => ?_
      · exact fun s r t hs _ h => hstep s t hs h
      · exact minds_ret hR fun _ h => h
    | blink i =>
      refine Machine.contract_op (N := fun _ => R) hP (fun _ _ _ => trivial) ?_ fun _ => ?_
      · exact fun s r t hs _ h => hstep s t hs h
      · exact minds_ret hR fun _ h => h
  exact Machine.contract_bind hstore fun _ => hnext

theorem minds_joinThread {f : Unit → MainProg α} (hP : machine.Stable P) (hR : machine.Stable R)
    (hstep : ∀ s t, P s → s.join (s.handle c) = some t → R t) (hnext : Minds R (f ()) Q) :
    Minds P (joinThread c >>= f) Q := by
  have hjoin : Minds P (joinThread c) fun _ => R := by
    cases c with
    | softPwm i =>
      refine Machine.contract_op (N := fun _ => R) hP (fun _ _ _ => trivial) ?_ fun _ => ?_
      · exact fun s r t hs _ h => hstep s t hs (exec_joinSoftPwm h)
      · exact minds_ret hR fun _ h => h
    | blink i =>
      refine Machine.contract_op (N := fun _ => R) hP (fun _ _ _ => trivial) ?_ fun _ => ?_
      · exact fun s r t hs _ h => hstep s t hs (exec_joinBlink h)
      · exact minds_ret hR fun _ h => h
  exact Machine.contract_bind hjoin fun _ => hnext

theorem minds_createThread {f : Int → MainProg α} {N : Int → State → Prop}
    (hP : machine.Stable P) (hN : ∀ r, machine.Stable (N r))
    (hpin : ∀ s, P s → s.pinOf c = c.index)
    (hstep : ∀ s r t, P s → Authored s → Creates c s r t → N r t)
    (hnext : ∀ r, Minds (N r) (f r) Q) :
    Minds P (createThread c >>= f) Q := by
  have hcreate : Minds P (createThread c) N := by
    cases c with
    | softPwm i =>
      refine Machine.contract_op (N := N) hP ?_ ?_ fun r => ?_
      · exact fun s hs _ => hpin s hs
      · exact fun s r t hs hauthored h => hstep s r t hs hauthored h
      · exact minds_ret (hN r) fun _ h => h
    | blink i =>
      refine Machine.contract_op (N := N) hP ?_ ?_ fun r => ?_
      · exact fun s hs _ => hpin s hs
      · exact fun s r t hs hauthored h => hstep s r t hs hauthored h
      · exact minds_ret (hN r) fun _ h => h
  exact Machine.contract_bind hcreate hnext

/-- Clearing `active` and joining leaves no running thread. `R` is about other things. -/
theorem minds_stopThread {f : Unit → MainProg α} (hR : Tabular R)
    (hstored : ∀ s t, R s → Stored c s t → R t)
    (hjoined : ∀ s tid t, R s → s.join tid = some t → R t)
    (hnext : Minds (fun s => Watched none s ∧ Resting c s ∧ R s) (f ()) Q) :
    Minds (fun s => Watched none s ∧ R s)
      (do storeActive 0 c; joinThread c; f ()) Q := by
  have hwatched := tabular_and (tabular_watched none) hR
  have hstopping := tabular_and (tabular_watched (some c)) hR
  have hstopped := tabular_and (tabular_watched none) (tabular_and (tabular_resting c) hR)
  refine minds_storeActive (R := fun s => Watched (some c) s ∧ R s) hwatched.stable
    hstopping.stable ?_ ?_
  · intro s t hs hstore
    obtain ⟨hstored', -, hpin⟩ := stored_active hstore
    exact ⟨watched_cleared hs.1 hstored' hpin, hstored s t hs.2 hstored'⟩
  refine minds_joinThread (f := f) (R := fun s => Watched none s ∧ Resting c s ∧ R s)
    hstopping.stable hstopped.stable ?_ hnext
  intro s t hs hjoin
  obtain ⟨hwatch, hresting⟩ := watched_joined hs.1 hjoin
  exact ⟨hwatch, hresting, hjoined s _ t hs.2 hjoin⟩

end

section

variable {c : Slot} {pin : Int} {F R L : State → Prop}

/-- A stop: `R` is about other slots, and `L` about the log. -/
theorem minds_stopSlot (hR : Tabular R) (hstored : ∀ s t, R s → Stored c s t → R t)
    (hjoined : ∀ s tid t, R s → s.join tid = some t → R t)
    (hwrite : ∀ s r t, machine.Exec (.system (digitalWriteCommand pin .low)) s r t → L t)
    (hstable : ∀ s t, Watched none s → Resting c s → R s → L s → machine.Env s t → L t)
    (hlog : ∀ s t, t.log = s.log → L s → L t) :
    Minds (fun s => Watched none s ∧ R s) (stopSlot c pin)
      fun value s => Watched none s ∧ Resting c s ∧ R s ∧ (value = 0 → L s) := by
  have hresting := tabular_and (tabular_watched none) (tabular_and (tabular_resting c) hR)
  have hlow : machine.Stable fun s => (Watched none s ∧ Resting c s ∧ R s) ∧ L s :=
    fun s t hs henv => ⟨hresting.stable s t hs.1 henv,
      hstable s t hs.1.1 hs.1.2.1 hs.1.2.2 hs.2 henv⟩
  unfold stopSlot
  simp only [Prog.call_bind]
  refine minds_leaves (tabular_and (tabular_watched none) hR) (by trivial) fun _ => ?_
  refine minds_loadActive hR ?_ fun active hactive => ?_
  · rw [if_pos rfl]
    refine minds_unlock hresting _ ?_
    exact fun s hs => ⟨hs.1, hs.2.1, hs.2.2, by simp⟩
  · rw [if_neg hactive]
    refine minds_stopThread (f := fun _ => digitalWrite pin .low >>= fun _ => _) hR hstored
      hjoined ?_
    refine Machine.contract_op (N := fun _ s => (Watched none s ∧ Resting c s ∧ R s) ∧ L s)
      hresting.stable (fun _ _ _ => trivial) ?_ fun _ => ?_
    · exact fun s r t hs _ h => ⟨tabular_exec hresting (by trivial) hs h, hwrite s r t h⟩
    refine Machine.contract_op (N := fun _ s => (Watched none s ∧ Resting c s ∧ R s) ∧ L s)
      hlow (fun _ _ _ => trivial) ?_ fun _ => ?_
    · intro s r t hs _ h
      refine ⟨tabular_exec hresting (by trivial) hs.1 h, hlog s t ?_ hs.2⟩
      rw [exec_unlock h]
    · exact minds_ret hlow fun s hs => ⟨hs.1.1, hs.1.2.1, hs.1.2.2, fun _ => hs.2⟩

section

variable {configure : MainProg Unit} (hF : Tabular F) (hpin : ∀ s, F s → s.pinOf c = c.index)
  (hactive : ∀ s t, F s → StoresActive 1 c s t → F t)
  (hconfigure : Minds (fun s => Watched none s ∧ Resting c s) configure
    fun _ s => Watched none s ∧ Resting c s ∧ F s)
  (hR : ∀ s t, Watched none s → R s → machine.Env s t → R t)
  (hunlock : ∀ s r t, R s → machine.Exec (.unlock c.mutex) s r t → R t)
  (hcreate : ∀ s t, Watched none s → Resting c s → F s → s.active c = 1 → Authored s →
    Creates c s 0 t → R t)
include hF hpin hactive hconfigure hR hunlock hcreate

/-- A start of a slot without a thread: `F` says how it is configured, and `R` what is known of
the new thread. -/
theorem minds_launchSlot :
    Minds (fun s => Watched none s ∧ Resting c s) (launchSlot c pin configure)
      fun value s => Watched none s ∧ (value = 0 → R s) := by
  have hwatched := tabular_watched none
  have hresting := tabular_and hwatched (tabular_resting c)
  have hready : Tabular fun s => Watched none s ∧ (Resting c s ∧ s.active c = 1) ∧ F s :=
    tabular_and hwatched (tabular_and (tabular_restingActive c 1) hF)
  have hdone : machine.Stable fun s => Watched none s ∧ R s := fun s t hs henv =>
    ⟨hwatched.stable s t hs.1 henv, hR s t hs.1 hs.2 henv⟩
  refine Machine.contract_bind hconfigure fun _ => ?_
  refine minds_storeActive (tabular_and hwatched (tabular_and (tabular_resting c) hF)).stable
    hready.stable ?_ ?_
  · intro s t hs h
    obtain ⟨hstored, hone, -⟩ := stored_active h
    exact ⟨watched_stored hs.1 hs.2.1 hstored, ⟨resting_stored hstored hs.2.1, hone⟩,
      hactive s t hs.2.2 h⟩
  -- From here to `pthread_create` the slot is active without a thread.
  refine minds_leaves_bind hready (uses_pinMode leavesTables_gpioSet _ _) fun _ => ?_
  refine minds_createThread (N := fun r s => (r = 0 → Watched none s ∧ R s) ∧
    (r ≠ 0 → Watched none s ∧ Resting c s)) hready.stable ?_ ?_ ?_ fun result => ?_
  · exact fun r s t hs henv => ⟨fun hr => hdone s t (hs.1 hr) henv,
      fun hr => hresting.stable s t (hs.2 hr) henv⟩
  · exact fun s hs => hpin s hs.2.2
  · intro s r t hs hauthored h
    obtain ⟨hwatch, hfailed⟩ := watched_created hs.1 hs.2.1.1 (by rw [hs.2.1.2]; decide)
      (hpin s hs.2.2) h
    refine ⟨?_, fun hr => ⟨hwatch, hfailed hr⟩⟩
    rintro rfl
    exact ⟨hwatch, hcreate s t hs.1 hs.2.1.1 hs.2.2 hs.2.1.2 hauthored h⟩
  by_cases hresult : result = 0
  · rw [if_neg (by simpa using hresult)]
    refine Machine.contract_conseq (P := fun s => Watched none s ∧ R s) ?_
      (fun s hs => hs.1 hresult) fun _ _ h => h
    refine Machine.contract_op (N := fun _ s => Watched none s ∧ R s) hdone
      (fun _ _ _ => trivial) ?_ fun _ => ?_
    · exact fun s r t hs _ h =>
        ⟨tabular_exec hwatched (by trivial) hs.1 h, hunlock s r t hs.2 h⟩
    · exact minds_ret hdone fun _ hs => ⟨hs.1, fun _ => hs.2⟩
  · rw [if_pos hresult]
    refine Machine.contract_conseq (P := fun s => Watched none s ∧ Resting c s) ?_
      (fun s hs => hs.2 hresult) fun _ _ h => h
    refine minds_storeActive hresting.stable hwatched.stable ?_ ?_
    · exact fun s t hs h => watched_stored hs.1 hs.2 (stored_active h).1
    · exact minds_unlock hwatched _ fun s hs => ⟨hs, by simp⟩

/-- A start stops the thread of an active slot first. -/
theorem minds_startSlot :
    Minds (Watched none) (startSlot c pin configure)
      fun value s => Watched none s ∧ (value = 0 → R s) := by
  have hlaunch : Minds (fun s => Watched none s ∧ Resting c s) (launchSlot c pin configure)
      fun value s => Watched none s ∧ (value = 0 → R s) :=
    minds_launchSlot hF hpin hactive hconfigure hR hunlock hcreate
  have hnothing : ∀ s, Watched none s → Watched none s ∧ True := fun s hs => ⟨hs, trivial⟩
  unfold startSlot
  simp only [Prog.call_bind]
  refine minds_leaves (tabular_watched none) (by trivial) fun _ => ?_
  refine Machine.contract_conseq ?_ hnothing fun _ _ h => h
  refine minds_loadActive tabular_true ?_ fun active hne => ?_
  · unfold Prog.when
    rw [if_neg (by simp)]
    exact Machine.contract_conseq hlaunch (fun s hs => ⟨hs.1, hs.2.1⟩) fun _ _ h => h
  · unfold Prog.when
    rw [if_pos hne, Prog.bind_assoc]
    refine minds_stopThread (f := fun _ => _) tabular_true (fun _ _ _ _ => trivial)
      (fun _ _ _ _ _ => trivial) ?_
    exact Machine.contract_conseq hlaunch (fun s hs => ⟨hs.1, hs.2.1⟩) fun _ _ h => h

end

end

end EmbeddedCar.Gpio
