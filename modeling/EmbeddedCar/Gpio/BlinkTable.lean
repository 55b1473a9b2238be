import EmbeddedCar.Gpio.Blinking
import EmbeddedCar.Gpio.Handles
import Mathlib.Data.Finset.Card

/-!
# The blink table

Sequences of `blinkStart` and `blinkStop`. A blink thread clears `active` of its slot itself when
its time is over, and a slot that is not active is given a new thread without a join. So a thread
that ran out is lost when `blinkStart` comes before anyone has joined it. As long as no
`blinkStart` tests a slot in that state, a slot has at most one pending thread.
-/

namespace EmbeddedCar.Gpio

open EmbeddedCar.Concurrent EmbeddedCar.Text Prog

/-- A call of the blink functions. -/
inductive BlinkCall where
  | start (pin freq duration : Int)
  | stop (pin : Int)
  deriving DecidableEq, Repr

namespace BlinkCall

def program : BlinkCall → MainProg Int
  | .start pin freq duration => blinkStart pin freq duration
  | .stop pin => blinkStop pin

/-- The call, its result ignored. -/
def statement (call : BlinkCall) : MainProg Unit := do
  let _ ← call.program
  return ()

end BlinkCall

/-- The calls of a program one after another. -/
def blinkCalls (calls : List BlinkCall) : MainProg Unit :=
  Prog.sequence (calls.map BlinkCall.statement)

/-- The slot is not active, and its last thread has not been joined: the blink ran out. -/
def Expired (i : Nat) (s : State) : Prop :=
  (s.blinkPins i).active = 0 ∧ ∃ tid, s.Pending (.blink i) tid

/-- `blinkStart` from the test of its slot on. -/
def testBlink (pin freq duration : Int) : MainProg Int := do
  let active ← exec (.loadBlink pin.toNat .active)
  when (active ≠ 0) do
    exec (.storeBlink pin.toNat .active 0)
    exec (.joinBlink pin.toNat)
  configureBlink pin freq duration

theorem blinkStart_eq {pin freq duration : Int} (hpin : 0 ≤ pin ∧ pin ≤ 21)
    (hfreq : 0 < freq) (hduration : 0 < duration) :
    blinkStart pin freq duration =
      (do exec (.lock .blink); testBlink pin freq duration) := by
  unfold blinkStart
  rw [if_neg (by omega), if_neg (by omega)]
  rfl

/-- A call with an argument out of range returns -1 at once. -/
theorem blinkStart_rejected {pin freq duration : Int}
    (h : ¬ ((0 ≤ pin ∧ pin ≤ 21) ∧ 0 < freq ∧ 0 < duration)) :
    blinkStart pin freq duration = .ret (-1) := by
  unfold blinkStart
  split
  · rfl
  split
  · rfl
  · exact absurd ⟨by omega, by omega, by omega⟩ h

/-- No `blinkStart` is about to test a slot whose blink ran out. -/
def unexpired : Proviso Op Op.Res State where
  holds := fun {α} p s => ∀ pin freq duration (rest : Int → MainProg α),
    p = testBlink pin freq duration >>= rest → ¬ Expired pin.toNat s
  of_bind := by
    intro α β p f s h pin freq duration rest heq
    apply h pin freq duration fun value => rest value >>= f
    rw [heq, Prog.bind_assoc]

/-- The proviso speaks about loads only. -/
theorem unexpired_holds {α : Type} {o : Op} {next : o.Res → MainProg α} {s : State}
    (ho : ∀ i, o ≠ .loadBlink i .active) : unexpired.holds (.op o next) s := by
  intro pin freq duration rest heq
  cases heq
  exact absurd rfl (ho pin.toNat)

/-! ### Slots between calls -/

/-- The pending thread of the slot, if any, is the one whose handle it holds; there is one when
the slot is active. -/
structure BlinkRow (i : Nat) (s : State) : Prop where
  owned : ∀ tid, s.Pending (.blink i) tid → tid = s.handle (.blink i)
  active : (s.blinkPins i).active ≠ 0 → s.Pending (.blink i) (s.handle (.blink i))

def BlinkTable (s : State) : Prop := ∀ i, BlinkRow i s

theorem blinkTable_boot : BlinkTable boot := by
  intro i
  constructor
  · rintro tid ⟨task, hw, -⟩
    cases hw
  · intro hactive
    exact absurd rfl hactive

theorem blinkRow_of_held {i : Nat} {s : State} (hs : Held (.blink i) s) : BlinkRow i s :=
  ⟨fun tid h => (hs tid).mp h, fun _ => (hs _).mpr rfl⟩

theorem blinkRow_of_vacant {i : Nat} {s : State} (hs : Vacant (.blink i) s)
    (hactive : (s.blinkPins i).active = 0) : BlinkRow i s :=
  ⟨fun tid h => absurd h (hs tid), fun h => absurd hactive h⟩

theorem held_of_blinkRow {i : Nat} {s : State} (hs : BlinkRow i s)
    (hactive : (s.blinkPins i).active ≠ 0) : Held (.blink i) s := by
  intro tid
  constructor
  · exact hs.owned tid
  · intro htid
    rw [htid]
    exact hs.active hactive

theorem tabular_inactive (i : Nat) : Tabular fun s => (s.blinkPins i).active = 0 where
  stable := fun _ _ hs henv => blink_inactive_env henv hs
  congr := by
    intro s t _ hpins _ hs
    rw [hpins]
    exact hs

theorem blinkRow_congr {i : Nat} {s t : State}
    (hpending : ∀ tid, t.Pending (.blink i) tid ↔ s.Pending (.blink i) tid)
    (hhandle : t.handle (.blink i) = s.handle (.blink i))
    (hactive : (t.blinkPins i).active ≠ 0 → (s.blinkPins i).active ≠ 0) (hs : BlinkRow i s) :
    BlinkRow i t := by
  constructor
  · intro tid h
    rw [hhandle]
    exact hs.owned tid ((hpending tid).mp h)
  · intro h
    rw [hhandle, hpending]
    exact hs.active (hactive h)

theorem tabular_blinkRow (i : Nat) : Tabular (BlinkRow i) where
  stable := fun _ _ hs henv => blinkRow_congr (pending_env henv _) (handle_env henv _)
    (mt (blink_inactive_env henv)) hs
  congr := by
    intro s t hsoft hblink hworkers hs
    refine blinkRow_congr (pending_congr hworkers _) (handle_congr hsoft hblink _) ?_ hs
    rw [hblink]
    exact id

/-- The slots other than `i`. -/
def BlinkOthers (i : Nat) (s : State) : Prop := ∀ j, j ≠ i → BlinkRow j s

theorem tabular_blinkOthers (i : Nat) : Tabular (BlinkOthers i) where
  stable := fun s t hs henv j hj => (tabular_blinkRow j).stable s t (hs j hj) henv
  congr := fun s t hsoft hblink hworkers hs j hj =>
    (tabular_blinkRow j).congr s t hsoft hblink hworkers (hs j hj)

/-! ### The slot of one call -/

section

variable {i : Nat} {s t : State}

@[simp] theorem Blink.set_thread (slot : Blink) (value : Int) (field : BlinkField) :
    (slot.set value field).thread = slot.thread := by
  cases field <;> rfl

theorem blinkOthers_store (hs : BlinkOthers i s) {field : BlinkField} {value : Int} {r : Unit}
    (h : machine.Exec (.storeBlink i field value) s r t) : BlinkOthers i t := by
  rw [exec_storeBlink h]
  intro j hj
  apply blinkRow_congr (s := s) _ _ _ (hs j hj)
  · exact pending_congr rfl _
  · simp [State.handle, State.setBlink, hj]
  · simp [State.setBlink, hj]

theorem held_storeBlink (hs : Held (.blink i) s) {field : BlinkField} {value : Int} {r : Unit}
    (h : machine.Exec (.storeBlink i field value) s r t) : Held (.blink i) t := by
  rw [exec_storeBlink h]
  refine (held_congr (pending_congr ?_ _) ?_).mpr hs
  · rfl
  · simp [State.handle, State.setBlink]

theorem vacant_storeBlink (hs : Vacant (.blink i) s) {field : BlinkField} {value : Int}
    {r : Unit} (h : machine.Exec (.storeBlink i field value) s r t) : Vacant (.blink i) t := by
  rw [exec_storeBlink h]
  refine (vacant_congr (pending_congr ?_ _)).mpr hs
  rfl

theorem inactive_storeBlink {r : Unit} (h : machine.Exec (.storeBlink i .active 0) s r t) :
    (t.blinkPins i).active = 0 := by
  simp [exec_storeBlink h, State.setBlink, Blink.set]

theorem blinkOthers_join (hs : BlinkOthers i s) (hheld : Held (.blink i) s) {r : Unit}
    (h : machine.Exec (.joinBlink i) s r t) : BlinkOthers i t := by
  have hjoin := exec_joinBlink h
  obtain ⟨w, -, -, -, ht⟩ := join_some hjoin
  intro j hj
  apply blinkRow_congr _ _ _ (hs j hj)
  · exact pending_join_other hheld hjoin (by simpa using hj)
  · simp [State.handle, ht]
  · simp [ht]

theorem blinkOthers_create (hs : BlinkOthers i s) {r : Int}
    (h : machine.Exec (.createBlink i) s r t) : BlinkOthers i t := by
  rcases exec_createBlink h with ⟨-, rfl⟩ | ⟨-, rfl⟩
  · intro j hj
    apply blinkRow_congr _ _ _ (hs j hj)
    · exact pending_append_other rfl (by simpa [Task.slot] using hj)
    · simp [State.handle, State.setBlink, hj]
    · simp [State.setBlink, hj]
  · exact hs

theorem held_createBlink (hs : Vacant (.blink i) s) {r : Int}
    (h : machine.Exec (.createBlink i) s r t) :
    (r = 0 → Held (.blink i) t) ∧ (r ≠ 0 → Vacant (.blink i) t) := by
  rcases exec_createBlink h with ⟨rfl, rfl⟩ | ⟨hr, rfl⟩
  · refine ⟨fun _ => ?_, fun hne => absurd rfl hne⟩
    apply held_of_append hs rfl rfl
    simp [State.handle, State.setBlink]
  · exact ⟨fun hzero => absurd hzero hr, fun _ => hs⟩

end

/-! ### The calls -/

section

variable {α : Type} {Q : α → State → Prop} {i : Nat}

/-- A slot between two statements of a call: vacant, with the other slots in order. -/
theorem tabular_vacantBlink (i : Nat) :
    Tabular fun s => BlinkOthers i s ∧ Vacant (.blink i) s :=
  tabular_and (tabular_blinkOthers i) (tabular_vacant _)

/-- A slot that has been stopped. -/
theorem tabular_stoppedBlink (i : Nat) :
    Tabular fun s => BlinkOthers i s ∧ Vacant (.blink i) s ∧ (s.blinkPins i).active = 0 :=
  tabular_and (tabular_blinkOthers i) (tabular_and (tabular_vacant _) (tabular_inactive i))

/-- Clearing `active` and joining leaves the slot vacant and not active. -/
theorem joins_stopBlink {next : MainProg α}
    (hnext : JoinsOnce unexpired (fun s => BlinkOthers i s ∧ Vacant (.blink i) s ∧
      (s.blinkPins i).active = 0) next Q) :
    JoinsOnce unexpired (fun s => BlinkOthers i s ∧ Held (.blink i) s)
      (.op (.storeBlink i .active 0) fun _ => .op (.joinBlink i) fun _ => next) Q := by
  have hothers := tabular_blinkOthers i
  have hheld := tabular_held (.blink i)
  refine Machine.contract_op
    (N := fun _ s => BlinkOthers i s ∧ Held (.blink i) s ∧ (s.blinkPins i).active = 0)
    ?_ ?_ ?_ fun _ => ?_
  · exact (tabular_and hothers hheld).stable
  · exact fun _ _ _ => trivial
  · intro s r t hs _ h
    exact ⟨blinkOthers_store hs.1 h, held_storeBlink hs.2 h, inactive_storeBlink h⟩
  refine Machine.contract_op
    (N := fun _ s => BlinkOthers i s ∧ Vacant (.blink i) s ∧ (s.blinkPins i).active = 0)
    ?_ ?_ ?_ fun _ => hnext
  · exact (tabular_and hothers (tabular_and hheld (tabular_inactive i))).stable
  · exact fun s hs _ => (hs.2.1 _).mpr rfl
  · intro s r t hs _ h
    refine ⟨blinkOthers_join hs.1 hs.2.1 h, vacant_of_join hs.2.1 (exec_joinBlink h), ?_⟩
    obtain ⟨w, -, -, -, rfl⟩ := join_some (exec_joinBlink h)
    exact hs.2.2

/-- A store to the slot of the call while it is vacant. -/
theorem joins_storeBlink {field : BlinkField} {value : Int} {next : MainProg α}
    (hnext : JoinsOnce unexpired (fun s => BlinkOthers i s ∧ Vacant (.blink i) s) next Q) :
    JoinsOnce unexpired (fun s => BlinkOthers i s ∧ Vacant (.blink i) s)
      (.op (.storeBlink i field value) fun _ => next) Q := by
  refine Machine.contract_op (N := fun _ s => BlinkOthers i s ∧ Vacant (.blink i) s)
    ?_ ?_ ?_ fun _ => hnext
  · exact (tabular_vacantBlink i).stable
  · exact fun _ _ _ => trivial
  · exact fun s r t hs _ h => ⟨blinkOthers_store hs.1 h, vacant_storeBlink hs.2 h⟩

/-- The last statements of a call. -/
theorem joins_unlockBlink (i : Nat) (value : Int) :
    JoinsOnce unexpired (fun s => BlinkOthers i s ∧ BlinkRow i s)
      (do exec (.unlock .blink); return value) fun _ => BlinkTable := by
  have hrow := tabular_and (tabular_blinkOthers i) (tabular_blinkRow i)
  simp only [Prog.call_bind]
  refine joins_leaves hrow (by trivial) fun _ => ?_
  refine joins_ret hrow ?_
  intro s hs j
  by_cases hj : j = i
  · rw [hj]
    exact hs.2
  · exact hs.1 j hj

/-- The last statements of a call that has stopped its slot. -/
theorem joins_unlockStopped (i : Nat) (value : Int) :
    JoinsOnce unexpired
      (fun s => BlinkOthers i s ∧ Vacant (.blink i) s ∧ (s.blinkPins i).active = 0)
      (do exec (.unlock .blink); return value) fun _ => BlinkTable :=
  Machine.contract_conseq (joins_unlockBlink i value)
    (fun _ hs => ⟨hs.1, blinkRow_of_vacant hs.2.1 hs.2.2⟩) fun _ _ h => h

end

theorem joins_configureBlink (pin freq duration : Int) :
    JoinsOnce unexpired (fun s => BlinkOthers pin.toNat s ∧ Vacant (.blink pin.toNat) s)
      (configureBlink pin freq duration) fun _ => BlinkTable := by
  have hvacant := tabular_vacantBlink pin.toNat
  unfold configureBlink
  simp only [Prog.call_bind]
  iterate 4 apply joins_storeBlink
  refine joins_leaves_bind hvacant (uses_pinMode leavesTables_gpioSet _ _) fun _ => ?_
  refine Machine.contract_op (N := fun result s => BlinkOthers pin.toNat s ∧
    (result = 0 → Held (.blink pin.toNat) s) ∧ (result ≠ 0 → Vacant (.blink pin.toNat) s))
    ?_ ?_ ?_ fun result => ?_
  · exact hvacant.stable
  · exact fun s hs _ => hs.2
  · exact fun s r t hs _ h => ⟨blinkOthers_create hs.1 h, held_createBlink hs.2 h⟩
  by_cases hresult : result = 0
  · rw [if_neg (by simpa using hresult)]
    refine Machine.contract_conseq (joins_unlockBlink pin.toNat 0) ?_ fun _ _ h => h
    exact fun s hs => ⟨hs.1, blinkRow_of_held (hs.2.1 hresult)⟩
  · rw [if_pos hresult]
    refine Machine.contract_conseq (P := fun s =>
      BlinkOthers pin.toNat s ∧ Vacant (.blink pin.toNat) s) ?_
      (fun s hs => ⟨hs.1, hs.2.2 hresult⟩) fun _ _ h => h
    refine Machine.contract_op (N := fun _ s => BlinkOthers pin.toNat s ∧
      Vacant (.blink pin.toNat) s ∧ (s.blinkPins pin.toNat).active = 0)
      ?_ ?_ ?_ fun _ => joins_unlockStopped pin.toNat (-1)
    · exact hvacant.stable
    · exact fun _ _ _ => trivial
    · exact fun s r t hs _ h =>
        ⟨blinkOthers_store hs.1 h, vacant_storeBlink hs.2 h, inactive_storeBlink h⟩

/-- The test of `blinkStart`, under the proviso. -/
theorem joins_testBlink (pin freq duration : Int) :
    JoinsOnce unexpired (fun s => BlinkOthers pin.toNat s ∧ BlinkRow pin.toNat s)
      (testBlink pin freq duration) fun _ => BlinkTable := by
  have hconfigure := joins_configureBlink pin freq duration
  refine Machine.contract_op (N := fun active s => BlinkOthers pin.toNat s ∧
    (active = 0 → Vacant (.blink pin.toNat) s) ∧ (active ≠ 0 → Held (.blink pin.toNat) s))
    ?_ ?_ ?_ fun active => ?_
  · exact (tabular_and (tabular_blinkOthers _) (tabular_blinkRow _)).stable
  · exact fun _ _ _ => trivial
  · intro s active t hs hproviso h
    obtain ⟨hactive, rfl⟩ := exec_loadBlink h
    have hnot : ¬ Expired pin.toNat t := hproviso pin freq duration .ret (Prog.bind_ret _).symm
    refine ⟨hs.1, ?_, ?_⟩
    · intro hzero tid hpending
      exact hnot ⟨hactive.symm.trans hzero, tid, hpending⟩
    · intro hne
      apply held_of_blinkRow hs.2
      rw [hactive] at hne
      exact hne
  by_cases hactive : active = 0
  · subst hactive
    refine Machine.contract_conseq hconfigure ?_ fun _ _ h => h
    exact fun s hs => ⟨hs.1, hs.2.1 rfl⟩
  · show JoinsOnce unexpired _ (when (active ≠ 0) _ >>= fun _ => _) _
    unfold Prog.when
    rw [if_pos hactive]
    refine Machine.contract_conseq (P := fun s => BlinkOthers pin.toNat s ∧
      Held (.blink pin.toNat) s) ?_ (fun s hs => ⟨hs.1, hs.2.2 hactive⟩) fun _ _ h => h
    apply joins_stopBlink
    exact Machine.contract_conseq hconfigure (fun s hs => ⟨hs.1, hs.2.1⟩) fun _ _ h => h

theorem tabular_blinkTable : Tabular BlinkTable where
  stable := fun s t hs henv i => (tabular_blinkRow i).stable s t (hs i) henv
  congr := fun s t hsoft hblink hworkers hs i =>
    (tabular_blinkRow i).congr s t hsoft hblink hworkers (hs i)

theorem joins_blinkStart (pin freq duration : Int) :
    JoinsOnce unexpired BlinkTable (blinkStart pin freq duration) fun _ => BlinkTable := by
  by_cases hcall : (0 ≤ pin ∧ pin ≤ 21) ∧ 0 < freq ∧ 0 < duration
  · rw [blinkStart_eq hcall.1 hcall.2.1 hcall.2.2]
    simp only [Prog.call_bind]
    refine joins_leaves tabular_blinkTable (by trivial) fun _ => ?_
    refine Machine.contract_conseq (joins_testBlink pin freq duration) ?_ fun _ _ h => h
    exact fun s hs => ⟨fun j _ => hs j, hs _⟩
  · rw [blinkStart_rejected hcall]
    exact joins_ret tabular_blinkTable fun _ hs => hs

theorem joins_blinkStop (pin : Int) :
    JoinsOnce unexpired BlinkTable (blinkStop pin) fun _ => BlinkTable := by
  unfold blinkStop
  split
  · exact joins_ret tabular_blinkTable fun _ hs => hs
  simp only [Prog.call_bind]
  refine joins_leaves tabular_blinkTable (by trivial) fun _ => ?_
  refine Machine.contract_op (N := fun active s => BlinkTable s ∧
    (active ≠ 0 → Held (.blink pin.toNat) s)) ?_ ?_ ?_ fun active => ?_
  · exact tabular_blinkTable.stable
  · exact fun _ _ _ => trivial
  · intro s active t hs _ h
    obtain ⟨hactive, rfl⟩ := exec_loadBlink h
    refine ⟨hs, fun hne => held_of_blinkRow (hs _) ?_⟩
    rw [hactive] at hne
    exact hne
  split
  · refine Machine.contract_conseq (joins_unlockBlink pin.toNat (-1)) ?_ fun _ _ h => h
    exact fun s hs => ⟨fun j _ => hs.1 j, hs.1 _⟩
  · next hactive =>
    refine Machine.contract_conseq (P := fun s => BlinkOthers pin.toNat s ∧
      Held (.blink pin.toNat) s) ?_ (fun s hs => ⟨fun j _ => hs.1 j, hs.2 hactive⟩) fun _ _ h => h
    apply joins_stopBlink
    exact joins_leaves_bind (tabular_stoppedBlink _) (uses_digitalWrite leavesTables_gpioSet _ _)
      fun _ => joins_unlockStopped pin.toNat 0

theorem joins_blinkCalls (calls : List BlinkCall) :
    JoinsOnce unexpired BlinkTable (blinkCalls calls) fun _ => BlinkTable := by
  apply Machine.contract_sequence tabular_blinkTable.stable
  intro p hp
  obtain ⟨call, -, rfl⟩ := List.mem_map.mp hp
  apply Machine.contract_bind (N := fun _ => BlinkTable)
  · cases call with
    | start pin freq duration => exact joins_blinkStart pin freq duration
    | stop pin => exact joins_blinkStop pin
  · exact fun _ => joins_ret tabular_blinkTable fun _ hs => hs

/-! ### The number of pending threads -/

/-- The operations of the blink functions. -/
def blinkOp : Op → Prop
  | .createBlink i => i < 22
  | .createSoftPwm _ => False
  | _ => True

theorem blinkOp_gpioSet (pin : Int) (setting : PinSetting) :
    blinkOp (.system (.gpioSet pin setting)) := trivial

theorem uses_blinkCalls (calls : List BlinkCall) : (blinkCalls calls).Uses blinkOp := by
  have hstop : ∀ pin, AllowsBlinkStop blinkOp pin :=
    fun pin => ⟨trivial, trivial, trivial, trivial, trivial⟩
  induction calls with
  | nil => trivial
  | cons call calls ih =>
    refine uses_bind ?_ fun _ => ih
    refine uses_bind ?_ fun _ => trivial
    cases call with
    | start pin freq duration =>
      apply uses_blinkStart _ (blinkOp_gpioSet pin)
      intro hpin
      have hslot : pin.toNat < 22 := by omega
      exact ⟨hstop pin, trivial, trivial, trivial, trivial, hslot⟩
    | stop pin => exact uses_blinkStop (fun _ => hstop pin) (blinkOp_gpioSet pin)

/-- Every thread belongs to one of the 22 blink slots, and a pending one is the thread whose
handle its slot holds. -/
structure Counted (s : State) : Prop where
  slot : ∀ c tid, s.Pending c tid → ∃ i, i < 22 ∧ c = .blink i
  owned : ∀ i tid, s.Pending (.blink i) tid → tid = s.handle (.blink i)

theorem counted_congr {s t : State} (hs : Counted s)
    (hpending : ∀ c tid, t.Pending c tid → s.Pending c tid)
    (hhandle : ∀ i, t.handle (.blink i) = s.handle (.blink i)) : Counted t where
  slot := fun c tid h => hs.slot c tid (hpending c tid h)
  owned := by
    intro i tid h
    rw [hhandle]
    exact hs.owned i tid (hpending _ tid h)

theorem counted_boot : Counted boot := by
  constructor
  · rintro c tid ⟨task, hw, -⟩
    cases hw
  · rintro i tid ⟨task, hw, -⟩
    cases hw

theorem counted_exec {o : Op} (ho : blinkOp o) {s t : State} {r : o.Res} (hs : Counted s)
    (hdemand : joinsOnce o s) (h : machine.Exec o s r t) : Counted t := by
  have htables : leavesTables o → Counted t := by
    intro hleaves
    obtain ⟨hsoft, hblink, hworkers⟩ := exec_leavesTables hleaves h
    exact counted_congr hs (fun c tid => (pending_congr hworkers c tid).mp)
      fun i => handle_congr hsoft hblink _
  cases o with
  | createBlink i =>
    rcases exec_createBlink h with ⟨rfl, rfl⟩ | ⟨hr, rfl⟩
    · have hheld := (held_createBlink hdemand h).1 rfl
      constructor
      · intro c tid hpending
        rcases (pending_append (s := s) rfl c tid).mp hpending with hold | ⟨-, hslot⟩
        · exact hs.slot c tid hold
        · exact ⟨i, ho, hslot.symm⟩
      · intro j tid hpending
        by_cases hj : j = i
        · subst hj
          exact (hheld tid).mp hpending
        · have hold := (pending_append_other (s := s) rfl (by simpa [Task.slot] using hj) tid).mp
            hpending
          rw [hs.owned j tid hold]
          simp [State.handle, State.setBlink, hj]
    · exact hs
  | createSoftPwm i => cases ho
  | storeSoftPwm i field value =>
    rw [exec_storeSoftPwm h]
    exact counted_congr hs (fun _ _ => id) fun _ => rfl
  | storeBlink i field value =>
    rw [exec_storeBlink h]
    refine counted_congr hs (fun _ _ => (pending_congr rfl _ _).mp) fun j => ?_
    by_cases hj : j = i
    · simp [State.handle, State.setBlink, hj]
    · simp [State.handle, State.setBlink, hj]
  | joinSoftPwm i =>
    have hjoin := exec_joinSoftPwm h
    obtain ⟨w, -, -, -, ht⟩ := join_some hjoin
    apply counted_congr hs (fun c tid hpending => ((pending_join hjoin c tid).mp hpending).1)
    simp [State.handle, ht]
  | joinBlink i =>
    have hjoin := exec_joinBlink h
    obtain ⟨w, -, -, -, ht⟩ := join_some hjoin
    apply counted_congr hs (fun c tid hpending => ((pending_join hjoin c tid).mp hpending).1)
    simp [State.handle, ht]
  | _ => exact htables trivial

/-- The threads created and not yet joined. -/
def pendingThreads (s : State) : Finset Nat :=
  (Finset.range s.workers.length).filter fun tid =>
    (s.workers[tid]?).any (fun w => !w.joined) = true

theorem card_pendingThreads {s : State} (hs : Counted s) : (pendingThreads s).card ≤ 22 := by
  have hsubset : pendingThreads s ⊆ (Finset.range 22).image fun i => s.handle (.blink i) := by
    intro tid htid
    obtain ⟨w, hw, hjoined⟩ := (Option.any_eq_true _ _).mp (Finset.mem_filter.mp htid).2
    obtain ⟨task, joined⟩ := w
    obtain rfl : joined = false := by simpa using hjoined
    obtain ⟨i, hi, hslot⟩ := hs.slot task.slot tid ⟨task, hw, rfl⟩
    apply Finset.mem_image.mpr
    exact ⟨i, Finset.mem_range.mpr hi, (hs.owned i tid ⟨task, hw, hslot⟩).symm⟩
  calc (pendingThreads s).card
      ≤ ((Finset.range 22).image fun i => s.handle (.blink i)).card :=
        Finset.card_le_card hsubset
    _ ≤ (Finset.range 22).card := Finset.card_image_le
    _ = 22 := Finset.card_range 22

/-- The run lemma: what is left of the calls joins each thread once, and the state is counted. -/
theorem blinkCalls_steps {calls : List BlinkCall} {q : MainProg Unit} {s : State}
    (h : machine.StepsUnder unexpired (blinkCalls calls, boot) (q, s)) :
    machine.meets unexpired joinsOnce q (fun _ => BlinkTable) s ∧ q.Uses blinkOp ∧ Counted s := by
  generalize hc : (blinkCalls calls, boot) = c at h
  generalize hd : (q, s) = d at h
  induction h generalizing q s with
  | refl =>
    obtain ⟨rfl, rfl⟩ := Prod.mk.inj (hc.trans hd.symm)
    exact ⟨joins_blinkCalls calls boot blinkTable_boot, uses_blinkCalls calls, counted_boot⟩
  | tail _ hstep ih =>
    obtain ⟨hproviso, hstep⟩ := hstep
    cases hstep with
    | op hexec =>
      obtain ⟨rfl, rfl⟩ := Prod.mk.inj hd
      obtain ⟨hmeets, ⟨ho, huses⟩, hcounted⟩ := ih rfl
      obtain ⟨hdemand, hnext⟩ := hmeets _ .refl hproviso
      exact ⟨hnext _ _ hexec, huses _, counted_exec ho hcounted hdemand hexec⟩
    | env henv =>
      obtain ⟨rfl, rfl⟩ := Prod.mk.inj hd
      obtain ⟨hmeets, huses, hcounted⟩ := ih rfl
      refine ⟨Machine.meets_env hmeets (.single henv), huses, ?_⟩
      exact counted_congr hcounted (fun c tid => (pending_env henv c tid).mp)
        fun i => handle_env henv _

/-- In every run in which no `blinkStart` tests a slot whose blink ran out: a thread is joined at
most once, a handle is overwritten only when the threads of its slot have been joined, and at
most 22 threads are pending. -/
theorem blink_threads_joined (calls : List BlinkCall) (q : MainProg Unit) (s : State)
    (h : machine.StepsUnder unexpired (blinkCalls calls, boot) (q, s)) :
    (∀ i next, q = .op (.joinBlink i) next → s.Pending (.blink i) (s.handle (.blink i))) ∧
    (∀ i next, q = .op (.createBlink i) next → Vacant (.blink i) s) ∧
    (pendingThreads s).card ≤ 22 := by
  obtain ⟨hmeets, -, hcounted⟩ := blinkCalls_steps h
  refine ⟨?_, ?_, card_pendingThreads hcounted⟩
  · intro i next hq
    subst hq
    exact (hmeets s .refl (unexpired_holds nofun)).1
  · intro i next hq
    subst hq
    exact (hmeets s .refl (unexpired_holds nofun)).1

/-- No slot with a pending thread is about to be tested when it is not active. -/
def noneExpired (p : MainProg Unit) (s : State) : Bool :=
  match p with
  | .op (.loadBlink i .active) _ =>
      (s.blinkPins i).active != 0 || s.workers.all fun w => w.joined || w.task.slot != .blink i
  | _ => true

theorem unexpired_of_noneExpired {p : MainProg Unit} {s : State} (h : noneExpired p s = true) :
    unexpired.holds p s := by
  rintro pin freq duration rest rfl ⟨hactive, tid, task, hw, hslot⟩
  have hall : (s.workers.all fun w => w.joined || w.task.slot != .blink pin.toNat) = true := by
    simpa [noneExpired, testBlink, hactive] using h
  have hpending := List.all_eq_true.mp hall _ (List.mem_of_getElem? hw)
  simp [hslot] at hpending

/-- A blink that is replaced before it runs out, and a stop. -/
theorem blink_threads_joined_replaced :
    ∃ q s, machine.StepsUnder unexpired
        (blinkCalls [.start 5 1 1, .start 5 2 3, .stop 5], boot) (q, s) ∧
      s.workers.length = 2 ∧ (pendingThreads s).card ≤ 22 := by
  obtain ⟨⟨q, s⟩, hplay, hlength⟩ := (Option.any_eq_true _ _).mp
    (by decide +kernel : (machine.playWhile noneExpired
      (List.replicate 12 (.inl 0) ++ List.replicate 5 (.inr (0, 0)) ++ List.replicate 8 (.inl 0) ++
        List.replicate 3 (.inl 0) ++ List.replicate 5 (.inr (1, 0)) ++ List.replicate 3 (.inl 0))
      (blinkCalls [.start 5 1 1, .start 5 2 3, .stop 5]) boot).any
        (fun c => decide (c.2.workers.length = 2)) = true)
  have hsteps := Machine.playWhile_stepsUnder (A := unexpired)
    (fun p s => unexpired_of_noneExpired) hplay
  exact ⟨q, s, hsteps, of_decide_eq_true hlength, (blink_threads_joined _ q s hsteps).2.2⟩

/-- A blink of one cycle that runs out, as moves of the main thread and of thread `tid`. -/
def expiringBlink (tid : Nat) : List (Int ⊕ (Nat × Int)) :=
  List.replicate 9 (.inl 0) ++ List.replicate 11 (.inr (tid, 0))

/-- After 23 blinks of one pin that ran out, 23 threads are pending. -/
theorem expired_blinks_accumulate :
    ∃ s, machine.Runs (blinkCalls (List.replicate 23 (.start 5 1 1))) boot () s ∧
      (pendingThreads s).card = 23 := by
  obtain ⟨_, s, hruns, hcard⟩ := machine.play_runs ((List.range 23).flatMap expiringBlink)
    (blinkCalls (List.replicate 23 (.start 5 1 1))) boot
    (fun _ s => decide ((pendingThreads s).card = 23)) (by decide +kernel)
  exact ⟨s, hruns, of_decide_eq_true hcard⟩

end EmbeddedCar.Gpio
