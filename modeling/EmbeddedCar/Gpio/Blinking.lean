import EmbeddedCar.Gpio.Footprint
import EmbeddedCar.Gpio.Steps

/-!
# The life of the blink threads

A blink thread ends because its time is over or because `active` was cleared; in both cases it
clears `active` itself, right before it returns. `blinkStart` and `blinkStop` join a thread only
when they find `active` set. `Tended` is the invariant that makes this enough: a slot with a
running blink thread is active and holds the handle of that thread.
-/

namespace EmbeddedCar.Gpio

open EmbeddedCar.Concurrent EmbeddedCar.Text

/-- Every running blink thread is on an LED, its slot holds its handle, and its slot is active,
except for the slot that is being stopped. -/
structure Tended (stopping : Option Nat) (s : State) : Prop where
  led : ∀ tid i, s.Blinks tid i → (i : Int) ∈ ledPins ∧ (i : Int) ≤ 21
  handle : ∀ tid i, s.Blinks tid i → (s.blinkPins i).thread = tid
  active : ∀ tid i, s.Blinks tid i → stopping ≠ some i → (s.blinkPins i).active ≠ 0

/-- No blink thread runs on the slot. -/
def Quiet (i : Nat) (s : State) : Prop := ∀ tid, ¬ s.Blinks tid i

/-- An assertion about blink threads: the threads keep it, and so do the operations that have
nothing to do with them. -/
structure Kept (P : State → Prop) : Prop where
  stable : machine.Stable P
  keep : ∀ o, leavesBlinks o → ∀ s (r : o.Res) t, P s → machine.Exec o s r t → P t

theorem kept_quiet (i : Nat) : Kept (Quiet i) where
  stable := fun _ _ hs henv tid ht => hs tid (env_blinks henv ht)
  keep := fun _ ho _ _ _ hs h tid ht =>
    hs tid (exec_blinks (startsNoBlink_of_leavesBlinks ho) h ht)

theorem kept_and {P R : State → Prop} (hP : Kept P) (hR : Kept R) :
    Kept fun s => P s ∧ R s where
  stable := fun s t hs henv => ⟨hP.stable s t hs.1 henv, hR.stable s t hs.2 henv⟩
  keep := fun o ho s r t hs h => ⟨hP.keep o ho s r t hs.1 h, hR.keep o ho s r t hs.2 h⟩

/-- When a blink thread ends, its slot has no other thread. -/
theorem kept_tended (stopping : Option Nat) : Kept (Tended stopping) where
  stable := by
    intro s t hs henv
    have hslot : ∀ tid i, t.Blinks tid i → t.blinkPins i = s.blinkPins i := by
      intro tid i ht
      rcases env_blinkPins henv with hsame | ⟨tid', j, hj, hended, hpins⟩
      · rw [hsame]
      · by_cases hij : i = j
        · -- Both threads are the one whose handle the slot holds, and that one has ended.
          subst hij
          have hold := hs.handle tid i (env_blinks henv ht)
          have hnew := hs.handle tid' i hj
          rw [hold] at hnew
          subst hnew
          exact absurd ht hended
        · rw [hpins, Function.update_of_ne hij]
    refine ⟨fun tid i ht => hs.led tid i (env_blinks henv ht), fun tid i ht => ?_,
      fun tid i ht hne => ?_⟩
    · rw [hslot tid i ht]
      exact hs.handle tid i (env_blinks henv ht)
    · rw [hslot tid i ht]
      exact hs.active tid i (env_blinks henv ht) hne
  keep := by
    intro o ho s r t hs h
    have hold : ∀ tid i, t.Blinks tid i → s.Blinks tid i :=
      fun tid i ht => exec_blinks (startsNoBlink_of_leavesBlinks ho) h ht
    refine ⟨fun tid i ht => hs.led tid i (hold tid i ht), ?_, ?_⟩
    · rw [exec_blinkPins ho h]
      exact fun tid i ht => hs.handle tid i (hold tid i ht)
    · rw [exec_blinkPins ho h]
      exact fun tid i ht hne => hs.active tid i (hold tid i ht) hne

/-- While a slot is quiet its fields belong to the main thread. -/
theorem kept_active (i : Nat) (value : Int) :
    Kept fun s => Quiet i s ∧ (s.blinkPins i).active = value where
  stable := by
    rintro s t ⟨hquiet, hactive⟩ henv
    refine ⟨(kept_quiet i).stable s t hquiet henv, ?_⟩
    rcases env_blinkPins henv with hsame | ⟨tid, j, hj, -, hpins⟩
    · rw [hsame]
      exact hactive
    · have hij : i ≠ j := by
        rintro rfl
        exact hquiet tid hj
      rw [hpins, Function.update_of_ne hij]
      exact hactive
  keep := by
    rintro o ho s r t ⟨hquiet, hactive⟩ h
    refine ⟨(kept_quiet i).keep o ho s r t hquiet h, ?_⟩
    rw [exec_blinkPins ho h]
    exact hactive

section

variable {α : Type} {P : State → Prop} {Q : α → State → Prop}

theorem triple_leaves (hP : Kept P) {o : Op} (ho : leavesBlinks o) {next : o.Res → MainProg α}
    (hnext : ∀ r, machine.Triple P (next r) Q) : machine.Triple P (.op o next) Q :=
  Machine.triple_op (N := fun _ => P) hP.stable (fun s r t hs h => hP.keep o ho s r t hs h) hnext

theorem triple_leaves_bind {β : Type} (hP : Kept P) {p : MainProg β} (hp : p.Uses leavesBlinks)
    {f : β → MainProg α} (hf : ∀ value, machine.Triple P (f value) Q) :
    machine.Triple P (p >>= f) Q :=
  Machine.triple_keep_bind (Machine.triple_uses hP.stable hP.keep hp) hf

end

theorem leavesBlinks_of_driveOp {o : Op} (h : driveOp o) : leavesBlinks o := by
  cases o <;> trivial

theorem leavesBlinks_gpioSet (pin : Int) (setting : PinSetting) :
    leavesBlinks (.system (.gpioSet pin setting)) := trivial

/-! ### The slot of one call -/

section

variable {s t : State} {i : Nat}

/-- A slot that is not active has no running thread. -/
theorem quiet_of_inactive (hs : Tended none s) (h : (s.blinkPins i).active = 0) : Quiet i s :=
  fun tid htid => hs.active tid i htid (by simp) h

theorem blinks_storeBlink {field : BlinkField} {value : Int} {r : Unit}
    (h : machine.Exec (.storeBlink i field value) s r t) {tid j : Nat} :
    t.Blinks tid j ↔ s.Blinks tid j := by
  rw [exec_storeBlink h]
  exact Iff.rfl

/-- Clearing `active` of the slot that is being stopped. -/
theorem tended_clear (hs : Tended none s) {r : Unit}
    (h : machine.Exec (.storeBlink i .active 0) s r t) : Tended (some i) t := by
  have hold : ∀ tid j, t.Blinks tid j → s.Blinks tid j :=
    fun tid j ht => (blinks_storeBlink h).mp ht
  have hpins := exec_storeBlink h
  refine ⟨fun tid j ht => hs.led tid j (hold tid j ht), fun tid j ht => ?_,
    fun tid j ht hne => ?_⟩
  · have hhandle := hs.handle tid j (hold tid j ht)
    rw [hpins]
    by_cases hj : j = i
    · subst hj
      simpa [State.setBlink, Blink.set] using hhandle
    · simpa [State.setBlink, hj] using hhandle
  · have hj : j ≠ i := fun heq => hne (by rw [heq])
    have hactive := hs.active tid j (hold tid j ht) (by simp)
    rw [hpins]
    simpa [State.setBlink, hj] using hactive

/-- Storing a field of a slot without a thread. -/
theorem tended_store (hs : Tended none s) (hquiet : Quiet i s) {field : BlinkField}
    {value : Int} {r : Unit} (h : machine.Exec (.storeBlink i field value) s r t) :
    Tended none t ∧ Quiet i t := by
  have hold : ∀ tid j, t.Blinks tid j → s.Blinks tid j :=
    fun tid j ht => (blinks_storeBlink h).mp ht
  have hslot : ∀ tid j, t.Blinks tid j → t.blinkPins j = s.blinkPins j := by
    intro tid j ht
    have hj : j ≠ i := by
      rintro rfl
      exact hquiet tid (hold tid j ht)
    rw [exec_storeBlink h]
    simp [State.setBlink, hj]
  refine ⟨⟨fun tid j ht => hs.led tid j (hold tid j ht), fun tid j ht => ?_,
    fun tid j ht hne => ?_⟩, fun tid ht => hquiet tid (hold tid i ht)⟩
  · rw [hslot tid j ht]
    exact hs.handle tid j (hold tid j ht)
  · rw [hslot tid j ht]
    exact hs.active tid j (hold tid j ht) hne

/-- `pthread_join` returns when the thread of the slot has ended. -/
theorem tended_join (hs : Tended (some i) s) {r : Unit}
    (h : machine.Exec (.joinBlink i) s r t) : Tended none t ∧ Quiet i t := by
  have hjoin := exec_joinBlink h
  have hpins : t.blinkPins = s.blinkPins := exec_blinkPins (o := .joinBlink i) trivial h
  have hquiet : Quiet i t := by
    intro tid ht
    obtain ⟨hold, hne⟩ := join_blinks hjoin ht
    exact hne (hs.handle tid i hold).symm
  refine ⟨⟨fun tid j ht => hs.led tid j (join_blinks hjoin ht).1, fun tid j ht => ?_,
    fun tid j ht _ => ?_⟩, hquiet⟩
  · rw [hpins]
    exact hs.handle tid j (join_blinks hjoin ht).1
  · have hj : some i ≠ some j := by
      rintro heq
      cases heq
      exact hquiet tid ht
    rw [hpins]
    exact hs.active tid j (join_blinks hjoin ht).1 hj

/-- A new thread on a quiet, active slot. -/
theorem tended_create (hs : Tended none s) (hquiet : Quiet i s)
    (hactive : (s.blinkPins i).active = 1) (hled : (i : Int) ∈ ledPins ∧ (i : Int) ≤ 21) {r : Int}
    (h : machine.Exec (.createBlink i) s r t) : Tended none t ∧ (r ≠ 0 → Quiet i t) := by
  rcases exec_createBlink h with ⟨rfl, rfl⟩ | ⟨hr, rfl⟩
  · refine ⟨?_, fun hne => absurd rfl hne⟩
    have hnew : ∀ tid j,
        State.Blinks { s.setBlink i { s.blinkPins i with thread := s.workers.length } with
          workers := s.workers ++ [⟨.blink i .delayTime, false⟩] } tid j →
        (s.Blinks tid j ∧ j ≠ i) ∨ (tid = s.workers.length ∧ j = i) := by
      rintro tid j ⟨pc, joined, hget, hlive⟩
      rcases getElem?_concat_some hget with hold | ⟨hlen, hnew⟩
      · have hblinks : s.Blinks tid j := ⟨pc, joined, hold, hlive⟩
        refine .inl ⟨hblinks, ?_⟩
        rintro rfl
        exact hquiet tid hblinks
      · cases hnew
        exact .inr ⟨hlen, rfl⟩
    refine ⟨fun tid j ht => ?_, fun tid j ht => ?_, fun tid j ht _ => ?_⟩
    · rcases hnew tid j ht with ⟨hold, -⟩ | ⟨-, rfl⟩
      · exact hs.led tid j hold
      · exact hled
    · rcases hnew tid j ht with ⟨hold, hj⟩ | ⟨hlen, rfl⟩
      · simpa [State.setBlink, hj] using hs.handle tid j hold
      · simp [State.setBlink, hlen]
    · rcases hnew tid j ht with ⟨hold, hj⟩ | ⟨-, rfl⟩
      · simpa [State.setBlink, hj] using hs.active tid j hold (by simp)
      · simp [State.setBlink, hactive]
  · exact ⟨hs, fun _ => hquiet⟩

end

/-! ### `blinkStart` and `blinkStop` -/

/-- `Tended` between two statements, with a quiet slot. -/
theorem kept_tended_quiet (i : Nat) : Kept fun s => Tended none s ∧ Quiet i s :=
  kept_and (kept_tended none) (kept_quiet i)

/-- The first test of both functions: a slot that is not active is quiet. -/
theorem triple_load {α : Type} {i : Nat} {next : Int → MainProg α} {Q : α → State → Prop}
    (hinactive : machine.Triple (fun s => Tended none s ∧ Quiet i s) (next 0) Q)
    (hactive : ∀ value, value ≠ 0 → machine.Triple (Tended none) (next value) Q) :
    machine.Triple (Tended none) (.op (.loadBlink i .active) next) Q := by
  refine Machine.triple_op
    (N := fun value s => Tended none s ∧ (value = 0 → Quiet i s)) (kept_tended none).stable ?_ ?_
  · intro s value t hs h
    obtain ⟨hvalue, rfl⟩ := exec_loadBlink h
    refine ⟨hs, fun hzero => quiet_of_inactive hs ?_⟩
    rw [← hzero, hvalue]
    rfl
  · intro value
    by_cases hzero : value = 0
    · subst hzero
      exact Machine.triple_conseq hinactive (fun s hs => ⟨hs.1, hs.2 rfl⟩) fun _ _ h => h
    · exact Machine.triple_conseq (hactive value hzero) (fun s hs => hs.1) fun _ _ h => h

/-- Clearing `active` and joining leaves the slot quiet. -/
theorem triple_stop {α : Type} {i : Nat} {next : MainProg α} {Q : α → State → Prop}
    (hnext : machine.Triple (fun s => Tended none s ∧ Quiet i s) next Q) :
    machine.Triple (Tended none)
      (.op (.storeBlink i .active 0) fun _ => .op (.joinBlink i) fun _ => next) Q :=
  Machine.triple_op (N := fun _ => Tended (some i)) (kept_tended none).stable
    (fun _ _ _ hs h => tended_clear hs h) fun _ =>
      Machine.triple_op (N := fun _ s => Tended none s ∧ Quiet i s) (kept_tended (some i)).stable
        (fun _ _ _ hs h => tended_join hs h) fun _ => hnext

/-- `blinkStop` ends the thread of its slot. -/
theorem triple_blinkStop (pin : Int) (hpin : 0 ≤ pin ∧ pin ≤ 21) :
    machine.Triple (Tended none) (blinkStop pin) fun _ s => Tended none s ∧ Quiet pin.toNat s := by
  have hkept := kept_tended_quiet pin.toNat
  have hret : ∀ value : Int, machine.Triple (fun s => Tended none s ∧ Quiet pin.toNat s)
      (.ret value) fun _ s => Tended none s ∧ Quiet pin.toNat s :=
    fun value => Machine.triple_ret hkept.stable fun _ h => h
  unfold blinkStop
  rw [if_neg (by omega)]
  simp only [Prog.call_bind]
  refine triple_leaves (kept_tended none) (by trivial) fun _ => ?_
  refine triple_load ?_ fun active hactive => ?_
  · rw [if_pos rfl]
    exact triple_leaves hkept (by trivial) fun _ => hret _
  · rw [if_neg hactive]
    refine triple_stop ?_
    refine triple_leaves_bind hkept (uses_digitalWrite leavesBlinks_gpioSet _ _) fun _ => ?_
    exact triple_leaves hkept (by trivial) fun _ => hret _

/-- `blinkStart` from the configuration of its slot on. -/
def configureBlink (pin freq duration : Int) : MainProg Int := do
  exec (.storeBlink pin.toNat .pin pin)
  exec (.storeBlink pin.toNat .freq freq)
  exec (.storeBlink pin.toNat .duration duration)
  exec (.storeBlink pin.toNat .active 1)
  let _ ← pinMode pin .output
  let result ← exec (.createBlink pin.toNat)
  if result ≠ 0 then do
    exec (.storeBlink pin.toNat .active 0)
    exec (.unlock .blink)
    return -1
  else do
    exec (.unlock .blink)
    return 0

/-- A store to a quiet slot. -/
theorem triple_store {α : Type} {i : Nat} {field : BlinkField} {value : Int}
    {next : MainProg α} {Q : α → State → Prop}
    (hnext : machine.Triple (fun s => Tended none s ∧ Quiet i s) next Q) :
    machine.Triple (fun s => Tended none s ∧ Quiet i s)
      (.op (.storeBlink i field value) fun _ => next) Q :=
  Machine.triple_op (N := fun _ s => Tended none s ∧ Quiet i s) (kept_tended_quiet i).stable
    (fun _ _ _ hs h => tended_store hs.1 hs.2 h) fun _ => hnext

theorem triple_configureBlink {pin : Int} (freq duration : Int)
    (hled : (pin.toNat : Int) ∈ ledPins ∧ (pin.toNat : Int) ≤ 21) :
    machine.Triple (fun s => Tended none s ∧ Quiet pin.toNat s)
      (configureBlink pin freq duration) fun _ => Tended none := by
  have hkept := kept_tended_quiet pin.toNat
  have htended := kept_tended none
  have hready := kept_and htended (kept_active pin.toNat 1)
  unfold configureBlink
  simp only [Prog.call_bind]
  refine triple_store (triple_store (triple_store ?_))
  -- From here to `pthread_create` the slot is active without a thread.
  refine Machine.triple_op
    (N := fun _ s => Tended none s ∧ Quiet pin.toNat s ∧ (s.blinkPins pin.toNat).active = 1)
    hkept.stable ?_ fun _ => ?_
  · intro s r t hs h
    obtain ⟨ht, hquiet⟩ := tended_store hs.1 hs.2 h
    refine ⟨ht, hquiet, ?_⟩
    rw [exec_storeBlink h]
    simp [State.setBlink, Blink.set]
  refine triple_leaves_bind hready (uses_pinMode leavesBlinks_gpioSet _ _) fun _ => ?_
  refine Machine.triple_op
    (N := fun result s => Tended none s ∧ (result ≠ 0 → Quiet pin.toNat s)) hready.stable
    (fun _ _ _ hs h => tended_create hs.1 hs.2.1 hs.2.2 hled h) fun result => ?_
  by_cases hresult : result = 0
  · rw [if_neg (by simpa using hresult)]
    refine Machine.triple_conseq (triple_leaves htended (by trivial) fun _ => ?_)
      (fun _ hs => hs.1) fun _ _ h => h
    exact Machine.triple_ret htended.stable fun _ h => h
  · rw [if_pos hresult]
    refine Machine.triple_conseq (triple_store ?_) (fun _ hs => ⟨hs.1, hs.2 hresult⟩)
      fun _ _ h => h
    refine triple_leaves hkept (by trivial) fun _ => ?_
    exact Machine.triple_ret hkept.stable fun _ h => h.1

/-- `blinkStart` keeps the invariant. -/
theorem triple_blinkStart (pin freq duration : Int) (hpin : pin ∈ ledPins) :
    machine.Triple (Tended none) (blinkStart pin freq duration) fun _ => Tended none := by
  have htended := kept_tended none
  unfold blinkStart
  split
  · exact Machine.triple_ret htended.stable fun _ h => h
  split
  · exact Machine.triple_ret htended.stable fun _ h => h
  next hrange _ =>
  have hnat : (pin.toNat : Int) = pin := Int.toNat_of_nonneg (by omega)
  have hled : (pin.toNat : Int) ∈ ledPins ∧ (pin.toNat : Int) ≤ 21 := by
    rw [hnat]
    exact ⟨hpin, by omega⟩
  have hconfigure := triple_configureBlink freq duration hled
  simp only [Prog.call_bind]
  refine triple_leaves htended (by trivial) fun _ => ?_
  refine triple_load ?_ fun active hactive => ?_
  · unfold Prog.when
    rw [if_neg (by simp)]
    exact hconfigure
  · unfold Prog.when
    rw [if_pos hactive]
    exact triple_stop hconfigure

end EmbeddedCar.Gpio
