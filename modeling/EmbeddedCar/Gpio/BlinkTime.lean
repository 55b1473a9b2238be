import EmbeddedCar.Gpio.Stopping
import Mathlib.Tactic.Ring

/-!
# How long a blink lasts

The calls of one blink thread, in order, against what `blinkStart` was asked for. `remaining` is
what the thread has still to call from a place in `blink_thread` when nobody stops it, so what it
has called and what remains are together the same at every step.
-/

namespace EmbeddedCar.Gpio

open EmbeddedCar.Concurrent Prog

/-! ### The calls of a thread -/

/-- The call as the thread made it, without the status it got. -/
def HostCall.effect : HostCall → ThreadEffect
  | .system command _ => .system command
  | .usleep us => .usleep us

/-- The call a step makes, if any. -/
def ThreadEffect.calls : ThreadEffect → List ThreadEffect
  | .system command => [.system command]
  | .usleep us => [.usleep us]
  | .silent | .deactivate => []

/-- The call of an entry, if it comes from thread `tid`. -/
def LogEntry.callBy (tid : Nat) (e : LogEntry) : Option ThreadEffect :=
  if e.author = some tid then some e.call.effect else none

/-- What thread `tid` has called, the first call first. -/
def State.callsBy (s : State) (tid : Nat) : List ThreadEffect :=
  s.log.reverse.filterMap (LogEntry.callBy tid)

/-- The microseconds slept in a list of calls. -/
def slept : List ThreadEffect → Int
  | [] => 0
  | .usleep us :: calls => us + slept calls
  | _ :: calls => slept calls

theorem callsBy_append {s t : State} {new : List LogEntry} (h : t.log = new ++ s.log) (tid : Nat) :
    t.callsBy tid = s.callsBy tid ++ new.reverse.filterMap (LogEntry.callBy tid) := by
  unfold State.callsBy
  rw [h, List.reverse_append, List.filterMap_append]

/-- The main thread calls nothing in the name of another. -/
theorem callsBy_exec {o : Op} {s t : State} {r : o.Res} (h : machine.Exec o s r t) (tid : Nat) :
    t.callsBy tid = s.callsBy tid := by
  have hnone : (o.calls r).reverse.filterMap (LogEntry.callBy tid) = [] := by
    rw [List.filterMap_eq_nil_iff]
    intro e he
    unfold LogEntry.callBy
    rw [author_of_calls (List.mem_reverse.mp he), if_neg (by simp)]
  rw [callsBy_append (exec_log h), hnone, List.append_nil]

theorem callsBy_apply (s : State) (turn : Nat) (status : Int) (task : Task) (e : ThreadEffect)
    (tid : Nat) : (s.apply turn status task e).callsBy tid =
      s.callsBy tid ++ if turn = tid then e.calls else [] := by
  have hsilent : ∀ t : State, t.log = s.log →
      t.callsBy tid = s.callsBy tid ++ if turn = tid then ([] : List ThreadEffect) else [] := by
    intro t ht
    rw [ite_self, List.append_nil]
    unfold State.callsBy
    rw [ht]
  have hentry : ∀ call : HostCall, (s.record (some turn) call).callsBy tid =
      s.callsBy tid ++ if turn = tid then [call.effect] else [] := by
    intro call
    have hlog : (s.record (some turn) call).log = [⟨some turn, call⟩] ++ s.log := rfl
    rw [callsBy_append hlog]
    by_cases hsame : turn = tid
    · simp [LogEntry.callBy, hsame]
    · simp [LogEntry.callBy, hsame]
  cases e with
  | silent => exact hsilent _ (by cases task <;> rfl)
  | deactivate => exact hsilent _ (by cases task <;> rfl)
  | system command =>
    have hrecord : s.apply turn status task (.system command) =
        s.record (some turn) (.system command status) := by cases task <;> rfl
    rw [hrecord]
    exact hentry _
  | usleep us =>
    have hrecord : s.apply turn status task (.usleep us) = s.record (some turn) (.usleep us) := by
      cases task <;> rfl
    rw [hrecord]
    exact hentry _

/-! ### What a blink thread calls -/

/-- The calls of one pass through the loop of `blink_thread`. -/
def blinkPair (pin delayTime : Int) : List ThreadEffect :=
  [.system (digitalWriteCommand pin .high), .usleep delayTime,
    .system (digitalWriteCommand pin .low), .usleep delayTime]

def blinkPairs (pin delayTime : Int) : Nat → List ThreadEffect
  | 0 => []
  | n + 1 => blinkPair pin delayTime ++ blinkPairs pin delayTime n

/-- The call after the loop. -/
def lastWrite (pin : Int) : ThreadEffect := .system (digitalWriteCommand pin .low)

theorem length_blinkPairs (pin delayTime : Int) (n : Nat) :
    (blinkPairs pin delayTime n).length = 4 * n := by
  induction n with
  | zero => rfl
  | succ n ih =>
    rw [blinkPairs, List.length_append, ih]
    simp only [blinkPair, List.length_cons, List.length_nil]
    omega

theorem slept_append (calls calls' : List ThreadEffect) :
    slept (calls ++ calls') = slept calls + slept calls' := by
  induction calls with
  | nil => simp [slept]
  | cons call calls ih =>
    cases call with
    | usleep us =>
      simp only [List.cons_append, slept, ih]
      omega
    | _ => simpa [slept] using ih

theorem slept_blinkPairs (pin delayTime : Int) (n : Nat) :
    slept (blinkPairs pin delayTime n) = n * (2 * delayTime) := by
  induction n with
  | zero => simp [blinkPairs, slept]
  | succ n ih =>
    have hpair : slept (blinkPair pin delayTime) = 2 * delayTime := by
      simp only [blinkPair, slept]
      omega
    rw [blinkPairs, slept_append, ih, hpair]
    push_cast
    rw [Int.add_mul, Int.one_mul, Int.add_comm]

/-- What is still to be called from this place, on a slot that stays active. -/
def remaining (pin freq duration : Int) : BlinkPc → List ThreadEffect
  | .delayTime => blinkPairs pin (int32 (Int.tdiv 500000 freq)) (int32 (freq * duration)).toNat ++
      [lastWrite pin]
  | .cycles delayTime => blinkPairs pin delayTime (int32 (freq * duration)).toNat ++ [lastWrite pin]
  | .loop delayTime cycles i => blinkPairs pin delayTime (cycles - i).toNat ++ [lastWrite pin]
  | .writeHigh delayTime cycles i =>
      blinkPair pin delayTime ++ blinkPairs pin delayTime (cycles - i - 1).toNat ++ [lastWrite pin]
  | .sleepHigh delayTime cycles i =>
      .usleep delayTime :: .system (digitalWriteCommand pin .low) :: .usleep delayTime ::
        (blinkPairs pin delayTime (cycles - i - 1).toNat ++ [lastWrite pin])
  | .check delayTime cycles i | .writeLow delayTime cycles i =>
      .system (digitalWriteCommand pin .low) :: .usleep delayTime ::
        (blinkPairs pin delayTime (cycles - i - 1).toNat ++ [lastWrite pin])
  | .sleepLow delayTime cycles i =>
      .usleep delayTime :: (blinkPairs pin delayTime (cycles - i - 1).toNat ++ [lastWrite pin])
  | .lastLow => [lastWrite pin]
  | .deactivate | .finished => []

/-- The counter of the loop is below the number of cycles inside it, and that is an `int`. -/
def BlinkPc.Counting : BlinkPc → Prop
  | .loop _ total i => 0 ≤ i ∧ total ≤ 2147483647
  | .writeHigh _ total i | .sleepHigh _ total i | .check _ total i | .writeLow _ total i
  | .sleepLow _ total i => 0 ≤ i ∧ i < total ∧ total ≤ 2147483647
  | _ => True

/-- The steps between two calls. -/
def BlinkPc.silentSteps : BlinkPc → Nat
  | .delayTime => 3
  | .cycles _ => 2
  | .loop .. | .check .. | .deactivate => 1
  | _ => 0

/-- A bound on the steps left. -/
def stepsLeft (pin freq duration : Int) (pc : BlinkPc) : Nat :=
  2 * (remaining pin freq duration pc).length + pc.silentSteps

theorem int32_le (n : Int) : int32 n ≤ 2147483647 := by
  unfold int32
  have hlt : n.bmod (2 ^ 32) < (2 ^ 32 + 1) / 2 := Int.bmod_lt (by decide)
  omega

theorem int32_of_le {n : Int} (hzero : 0 ≤ n) (hle : n ≤ 2147483647) : int32 n = n := by
  unfold int32
  exact Int.bmod_eq_of_le (by omega) (by omega)

section

variable {pin freq duration : Int} {slot : Blink} {pc pc' : BlinkPc} {e : ThreadEffect}

/-- The loop goes on as long as the counter is below the number of cycles. -/
theorem remaining_loop {delayTime cycles i : Int} (h : i < cycles) :
    remaining pin freq duration (.loop delayTime cycles i) =
      remaining pin freq duration (.writeHigh delayTime cycles i) := by
  have hsucc : (cycles - i).toNat = (cycles - i - 1).toNat + 1 := by omega
  simp only [remaining]
  rw [hsucc, blinkPairs]

/-- What one step of the thread calls on a slot that is active. -/
theorem blinkThread_remaining (hslot : slot.Configured pin freq duration)
    (hactive : slot.active ≠ 0) (hcount : pc.Counting)
    (h : blinkThread slot pc = some (pc', e)) :
    e.calls ++ remaining pin freq duration pc' = remaining pin freq duration pc ∧
      pc'.Counting := by
  obtain ⟨hpin, hfreq, hduration⟩ := hslot
  cases pc with
  | delayTime =>
    cases h
    rw [hfreq]
    exact ⟨rfl, trivial⟩
  | cycles delayTime =>
    cases h
    rw [hfreq, hduration]
    refine ⟨?_, Int.le_refl 0, int32_le _⟩
    simp only [ThreadEffect.calls, remaining, Int.sub_zero, List.nil_append]
  | loop delayTime cycles i =>
    simp only [blinkThread] at h
    by_cases hi : i < cycles
    · rw [if_pos ⟨hi, hactive⟩] at h
      cases h
      exact ⟨(remaining_loop hi).symm, hcount.1, hi, hcount.2⟩
    · rw [if_neg fun hboth => hi hboth.1] at h
      cases h
      have hend : (cycles - i).toNat = 0 := by omega
      refine ⟨?_, trivial⟩
      simp only [remaining]
      rw [hend]
      rfl
  | writeHigh delayTime cycles i =>
    cases h
    rw [hpin]
    exact ⟨rfl, hcount⟩
  | sleepHigh delayTime cycles i =>
    cases h
    exact ⟨rfl, hcount⟩
  | check delayTime cycles i =>
    simp only [blinkThread] at h
    rw [if_neg hactive] at h
    cases h
    exact ⟨rfl, hcount⟩
  | writeLow delayTime cycles i =>
    cases h
    rw [hpin]
    exact ⟨rfl, hcount⟩
  | sleepLow delayTime cycles i =>
    cases h
    obtain ⟨hzero, hi, hcycles⟩ := hcount
    -- `i++` stays below `cycles`, so it does not wrap.
    have hnext : int32 (i + 1) = i + 1 := int32_of_le (by omega) (by omega)
    have hleft : cycles - (i + 1) = cycles - i - 1 := by omega
    rw [hnext]
    refine ⟨?_, by omega, hcycles⟩
    simp only [remaining, hleft]
    rfl
  | lastLow =>
    cases h
    rw [hpin]
    exact ⟨rfl, trivial⟩
  | deactivate =>
    cases h
    exact ⟨rfl, trivial⟩
  | finished => cases h

/-- A step without a call is one of the few before the next. -/
theorem blinkThread_silentSteps (h : blinkThread slot pc = some (pc', e)) :
    pc'.silentSteps < pc.silentSteps + 2 * e.calls.length := by
  cases pc with
  | loop delayTime cycles i =>
    simp only [blinkThread] at h
    split at h <;> cases h <;> simp [BlinkPc.silentSteps, ThreadEffect.calls]
  | check delayTime cycles i =>
    simp only [blinkThread] at h
    split at h <;> cases h <;> simp [BlinkPc.silentSteps, ThreadEffect.calls]
  | finished => cases h
  | _ =>
    cases h
    simp [BlinkPc.silentSteps, ThreadEffect.calls]

theorem stepsLeft_lt (hcalls : e.calls ++ remaining pin freq duration pc' =
      remaining pin freq duration pc) (h : blinkThread slot pc = some (pc', e)) :
    stepsLeft pin freq duration pc' < stepsLeft pin freq duration pc := by
  have hsilent := blinkThread_silentSteps h
  unfold stepsLeft
  rw [← hcalls, List.length_append]
  omega

theorem blinkThread_returns (h : blinkThread slot pc = some (.finished, e)) : e = .deactivate := by
  cases pc with
  | deactivate =>
    cases h
    rfl
  | loop delayTime cycles i =>
    simp only [blinkThread] at h
    split at h <;> cases h
  | check delayTime cycles i =>
    simp only [blinkThread] at h
    split at h <;> cases h
  | _ => cases h

/-- A thread has a step to take until it has returned. -/
theorem blinkThread_isSome (slot : Blink) (h : pc ≠ .finished) :
    ∃ pc' e, blinkThread slot pc = some (pc', e) := by
  cases pc with
  | finished => exact absurd rfl h
  | loop delayTime cycles i =>
    simp only [blinkThread]
    split <;> exact ⟨_, _, rfl⟩
  | check delayTime cycles i =>
    simp only [blinkThread]
    split <;> exact ⟨_, _, rfl⟩
  | _ => exact ⟨_, _, rfl⟩

end

/-! ### The slot is left alone -/

/-- The operations that neither store to blink slot `i` nor create a thread for it. -/
def spares (i : Nat) : Op → Bool
  | .storeBlink j _ _ | .createBlink j => j != i
  | _ => true

/-- The machine whose main thread leaves blink slot `i` alone. -/
def undisturbed (i : Nat) : Machine Op Op.Res State Int (Nat × Int) :=
  machine.restrict (spares i)

theorem spares_blinkPins {i : Nat} {o : Op} (ho : spares i o = true) {s t : State} {r : o.Res}
    (h : machine.Exec o s r t) : t.blinkPins i = s.blinkPins i := by
  cases o with
  | storeBlink j field value =>
    have hne : i ≠ j := (bne_iff_ne.mp ho).symm
    rw [exec_storeBlink h]
    simp [State.setBlink, hne]
  | createBlink j =>
    have hne : i ≠ j := (bne_iff_ne.mp ho).symm
    rcases exec_createBlink h with ⟨-, rfl⟩ | ⟨-, rfl⟩
    · simp [State.setBlink, hne]
    · rfl
  | _ => rw [exec_blinkPins (by trivial) h]

theorem spares_creates {i : Nat} {o : Op} (ho : spares i o = true) :
    o.creates ≠ some (.blink i) := by
  cases o with
  | createBlink j =>
    intro heq
    cases heq
    exact bne_iff_ne.mp ho rfl
  | createSoftPwm j => simp [Op.creates]
  | _ => simp [Op.creates]

/-- Thread `tid` is at `pc` of a blink of the pin that nobody has stopped, and it is the only
thread on its slot. -/
structure UnstoppedAt (pin freq duration : Int) (tid : Nat) (pc : BlinkPc) (s : State) :
    Prop where
  slot : (s.blinkPins pin.toNat).Configured pin freq duration
  thread : ∃ joined, s.workers[tid]? = some ⟨.blink pin.toNat pc, joined⟩
  counting : pc.Counting
  calls : s.callsBy tid ++ remaining pin freq duration pc = remaining pin freq duration .delayTime
  active : (s.blinkPins pin.toNat).active = 0 ↔ pc = .finished
  only : ∀ tid', s.Live (.blink pin.toNat) tid' → tid' = tid

section

variable {pin freq duration : Int} {tid : Nat} {pc : BlinkPc} {s t : State}

/-- A turn of the thread itself. -/
theorem unstopped_own (hs : UnstoppedAt pin freq duration tid pc s) {status : Int}
    (h : s.turn tid status = some t) :
    ∃ pc', UnstoppedAt pin freq duration tid pc' t ∧
      stepsLeft pin freq duration pc' < stepsLeft pin freq duration pc := by
  have henv : machine.Env s t := ⟨(tid, status), h⟩
  obtain ⟨w, task, e, hw, hadvance, rfl⟩ := turn_some h
  obtain ⟨joined, hthread⟩ := hs.thread
  obtain rfl : w = ⟨.blink pin.toNat pc, joined⟩ := Option.some.inj (hw.symm.trans hthread)
  obtain ⟨pc', rfl, hstep⟩ := advance_blink hadvance
  have hactive : (s.blinkPins pin.toNat).active ≠ 0 := fun hzero =>
    blinkThread_finished hstep (hs.active.mp hzero)
  obtain ⟨hcalls, hcounting⟩ := blinkThread_remaining hs.slot hactive hs.counting hstep
  have hlen : tid < s.workers.length := (List.getElem?_eq_some_iff.mp hw).1
  refine ⟨pc', ⟨?_, ⟨joined, List.getElem?_set_self hlen⟩, hcounting, ?_, ?_, ?_⟩,
    stepsLeft_lt hcalls hstep⟩
  · cases e with
    | deactivate => simpa [State.apply, State.setBlink, Blink.Configured] using hs.slot
    | _ => exact hs.slot
  · have happly := callsBy_apply s tid status (.blink pin.toNat pc) e tid
    rw [if_pos rfl] at happly
    calc _ = (s.callsBy tid ++ e.calls) ++ remaining pin freq duration pc' :=
          congrArg (· ++ _) happly
      _ = s.callsBy tid ++ remaining pin freq duration pc := by rw [List.append_assoc, hcalls]
      _ = _ := hs.calls
  · cases e with
    | deactivate =>
      have hfinished := blinkThread_deactivate hstep
      simp [State.apply, State.setBlink, hfinished]
    | _ =>
      constructor
      · exact fun hzero => absurd hzero hactive
      · rintro rfl
        cases blinkThread_returns hstep
  · exact fun tid' ht => hs.only tid' (live_env henv ht)

/-- A turn of another thread. -/
theorem unstopped_other (hs : UnstoppedAt pin freq duration tid pc s) {turn : Nat} {status : Int}
    (hne : turn ≠ tid) (h : s.turn turn status = some t) :
    UnstoppedAt pin freq duration tid pc t := by
  have henv : machine.Env s t := ⟨(turn, status), h⟩
  obtain ⟨w, task, e, hw, hadvance, rfl⟩ := turn_some h
  have hslot : (s.apply turn status w.task e).blinkPins pin.toNat = s.blinkPins pin.toNat := by
    cases htask : w.task with
    | softPwm j pcOf => cases e <;> rfl
    | blink j pcOf =>
      cases e with
      | deactivate =>
        -- A thread that ends a blink is on another slot.
        have hj : pin.toNat ≠ j := by
          rintro rfl
          refine hne (hs.only turn ⟨w, hw, ?_, unfinished_of_advance hadvance⟩)
          rw [htask]
          rfl
        simp [State.apply, State.setBlink, hj]
      | _ => rfl
  obtain ⟨joined, hthread⟩ := hs.thread
  refine ⟨?_, ⟨joined, ?_⟩, hs.counting, ?_, ?_, ?_⟩
  · change ((s.apply turn status w.task e).blinkPins pin.toNat).Configured pin freq duration
    rw [hslot]
    exact hs.slot
  · rw [← hthread]
    exact List.getElem?_set_ne hne
  · have happly := callsBy_apply s turn status w.task e tid
    rw [if_neg hne, List.append_nil] at happly
    exact (congrArg (· ++ _) happly).trans hs.calls
  · change ((s.apply turn status w.task e).blinkPins pin.toNat).active = 0 ↔ _
    rw [hslot]
    exact hs.active
  · exact fun tid' ht => hs.only tid' (live_env henv ht)

theorem unstopped_exec (hs : UnstoppedAt pin freq duration tid pc s) {o : Op} {r : o.Res}
    (ho : spares pin.toNat o = true) (h : machine.Exec o s r t) :
    UnstoppedAt pin freq duration tid pc t := by
  have hslot := spares_blinkPins ho h
  obtain ⟨joined, hthread⟩ := hs.thread
  obtain ⟨⟨task, joined'⟩, hw', htask⟩ := exec_task h hthread
  cases htask
  refine ⟨?_, ⟨joined', hw'⟩, hs.counting, ?_, ?_, fun tid' ht => ?_⟩
  · rw [hslot]
    exact hs.slot
  · rw [callsBy_exec h]
    exact hs.calls
  · rw [hslot]
    exact hs.active
  · rcases live_exec h ht with hold | ⟨-, hnew⟩
    · exact hs.only tid' hold
    · exact absurd hnew (spares_creates ho)

/-- Any step that leaves the slot alone. -/
theorem unstopped_env (hs : UnstoppedAt pin freq duration tid pc s) (h : machine.Env s t) :
    ∃ pc', UnstoppedAt pin freq duration tid pc' t ∧
      stepsLeft pin freq duration pc' ≤ stepsLeft pin freq duration pc := by
  obtain ⟨⟨turn, status⟩, hturn⟩ := h
  by_cases hsame : turn = tid
  · subst hsame
    obtain ⟨pc', ht, hless⟩ := unstopped_own hs hturn
    exact ⟨pc', ht, Nat.le_of_lt hless⟩
  · exact ⟨pc, unstopped_other hs hsame hturn, Nat.le_refl _⟩

/-- The thread has nothing called yet when it is created. -/
theorem unstopped_created (hresting : Resting (.blink pin.toNat) s)
    (hslot : (s.blinkPins pin.toNat).Configured pin freq duration)
    (hactive : (s.blinkPins pin.toNat).active = 1) (hauthored : Authored s)
    (h : machine.Exec (.createBlink pin.toNat) s 0 t) :
    UnstoppedAt pin freq duration (t.blinkPins pin.toNat).thread .delayTime t := by
  rcases exec_createBlink h with ⟨-, rfl⟩ | ⟨hne, -⟩
  · have hthread : ((s.setBlink pin.toNat
        { s.blinkPins pin.toNat with thread := s.workers.length }).blinkPins pin.toNat).thread =
          s.workers.length := by simp [State.setBlink]
    have hcalls : s.callsBy s.workers.length = [] := by
      unfold State.callsBy
      rw [List.filterMap_eq_nil_iff]
      intro e he
      unfold LogEntry.callBy
      rw [if_neg]
      intro hauthor
      exact Nat.lt_irrefl _ (hauthored e (List.mem_reverse.mp he) _ hauthor)
    refine ⟨?_, ⟨false, ?_⟩, trivial, ?_, ?_, fun tid' ht => ?_⟩
    · simpa [State.setBlink, Blink.Configured] using hslot
    · rw [hthread]
      simp
    · rw [hthread]
      exact congrArg (· ++ remaining pin freq duration .delayTime) hcalls
    · simp [State.setBlink, hactive]
    · rw [hthread]
      rcases live_append (s := s) rfl ht with hold | ⟨hlen, -⟩
      · exact absurd hold (hresting tid')
      · exact hlen
  · exact absurd rfl hne

end

/-! ### The start of a blink -/

theorem minds_blinkStart_unstopped {pin freq duration : Int} (hpin : 0 ≤ pin ∧ pin ≤ 21)
    (hfreq : 0 < freq) (hduration : 0 < duration) :
    Minds (Watched none) (blinkStart pin freq duration) fun value s => Watched none s ∧
      (value = 0 → ∃ pc, UnstoppedAt pin freq duration (s.blinkPins pin.toNat).thread pc s) := by
  have hnat : (pin.toNat : Int) = pin := Int.toNat_of_nonneg hpin.1
  have hkeep : ∀ s t : State,
      (∃ pc, UnstoppedAt pin freq duration (s.blinkPins pin.toNat).thread pc t) →
      (t.blinkPins pin.toNat).thread = (s.blinkPins pin.toNat).thread →
      ∃ pc, UnstoppedAt pin freq duration (t.blinkPins pin.toNat).thread pc t := by
    intro s t ht hthread
    rw [hthread]
    exact ht
  rw [blinkStart_eq_startSlot hpin hfreq hduration]
  refine minds_startSlot (tabular_blinkFields pin.toNat
    (φ := Blink.Configured pin freq duration) fun _ h => h) ?_ ?_
    (minds_storeBlinkFields pin freq duration) ?_ ?_ ?_
  · exact fun s hs => hs.1.trans hnat.symm
  · intro s t hs h
    rw [exec_storeBlink h]
    simpa [State.setBlink, Blink.set, Blink.Configured] using hs
  · rintro s t - ⟨pc, hs⟩ henv
    obtain ⟨pc', ht, -⟩ := unstopped_env hs henv
    exact hkeep s t ⟨pc', ht⟩ (handle_env henv (.blink pin.toNat))
  · rintro s r t ⟨pc, hs⟩ h
    refine hkeep s t ⟨pc, unstopped_exec hs rfl h⟩ ?_
    rw [spares_blinkPins (i := pin.toNat) rfl h]
  · exact fun s t _ hresting hslot hactive hauthored h =>
      ⟨.delayTime, unstopped_created hresting hslot hactive hauthored h⟩

/-- An accepted start, after any calls. -/
theorem unstopped_of_start {calls : List PinCall} {s t : State} {pin freq duration : Int}
    (hs : machine.Runs (pinCalls calls) boot () s)
    (hstart : machine.Runs (blinkStart pin freq duration) s 0 t) :
    ((0 ≤ pin ∧ pin ≤ 21) ∧ 0 < freq ∧ 0 < duration) ∧
      ∃ pc, UnstoppedAt pin freq duration (t.blinkPins pin.toNat).thread pc t := by
  obtain ⟨hunder, hauthored⟩ := authored_steps authored_boot hs
  have hwatched : Watched none s :=
    Machine.contract_runs (Q := fun _ => Watched none) (minds_pinCalls calls) watched_boot hunder
  by_cases hcall : (0 ≤ pin ∧ pin ≤ 21) ∧ 0 < freq ∧ 0 < duration
  · refine ⟨hcall, ?_⟩
    have hend := Machine.contract_runs
      (minds_blinkStart_unstopped hcall.1 hcall.2.1 hcall.2.2) hwatched
      (authored_steps hauthored hstart).1
    exact hend.2 rfl
  · rw [blinkStart_rejected hcall] at hstart
    cases Machine.ret_runs hstart

/-! ### What was asked for -/

/-- Thread `tid` has returned. -/
def Returned (tid : Nat) (s : State) : Prop :=
  ∃ w, s.workers[tid]? = some w ∧ w.task.finished = true

/-- A step of thread `tid`. -/
def Turn (tid : Nat) (c d : MainProg Unit × State) : Prop :=
  d.1 = c.1 ∧ ∃ status, c.2.turn tid status = some d.2

/-- Thread `tid` has blinked for as long as asked: `freq * duration` pairs and a last write of
`LOW`, which sleep for `duration` seconds but for what the division leaves. -/
structure Lasted (pin freq duration : Int) (tid : Nat) (s : State) : Prop where
  pairs : ∃ delayTime, s.callsBy tid =
    blinkPairs pin delayTime (freq * duration).toNat ++ [lastWrite pin]
  atMost : slept (s.callsBy tid) ≤ duration * 1000000
  moreThan : duration * 1000000 - 2 * freq * duration < slept (s.callsBy tid)
  inactive : (s.blinkPins pin.toNat).active = 0

/-- However the program goes on without touching the slot: thread `tid` returns, given turns, and
when it has returned the blink has lasted as asked. -/
structure Lasts (pin freq duration : Int) (tid : Nat) (s : State) : Prop where
  returns : ∀ later : MainProg Unit, Machine.LeadsTo (Turn tid) (undisturbed pin.toNat).Step
    (fun c => Returned tid c.2) (later, s)
  lasted : ∀ (later q : MainProg Unit) (u : State),
    (undisturbed pin.toNat).Steps (later, s) (q, u) → Returned tid u →
      Lasted pin freq duration tid u

section

variable {pin freq duration : Int} {tid : Nat} {pc : BlinkPc} {s t : State}

theorem finished_of_returned (hs : UnstoppedAt pin freq duration tid pc s)
    (h : Returned tid s) : pc = .finished := by
  obtain ⟨w, hw, hfinished⟩ := h
  obtain ⟨joined, hthread⟩ := hs.thread
  obtain rfl : w = ⟨.blink pin.toNat pc, joined⟩ := Option.some.inj (hw.symm.trans hthread)
  exact of_decide_eq_true hfinished

theorem returned_of_finished (hs : UnstoppedAt pin freq duration tid .finished s) :
    Returned tid s := by
  obtain ⟨joined, hthread⟩ := hs.thread
  exact ⟨_, hthread, rfl⟩

/-- The place of thread `tid`, as a bound on its steps. -/
def rankOf (pin freq duration : Int) (tid : Nat) (s : State) : Nat :=
  match s.workers[tid]? with
  | some ⟨.blink _ pc, _⟩ => stepsLeft pin freq duration pc
  | _ => 0

theorem rankOf_eq (hs : UnstoppedAt pin freq duration tid pc s) :
    rankOf pin freq duration tid s = stepsLeft pin freq duration pc := by
  obtain ⟨joined, hthread⟩ := hs.thread
  unfold rankOf
  rw [hthread]

theorem unstopped_undisturbed (hs : UnstoppedAt pin freq duration tid pc s)
    {p q : MainProg Unit} (h : (undisturbed pin.toNat).Step (p, s) (q, t)) :
    ∃ pc', UnstoppedAt pin freq duration tid pc' t ∧
      stepsLeft pin freq duration pc' ≤ stepsLeft pin freq duration pc := by
  cases h with
  | op hexec =>
    obtain ⟨hspares, hexec⟩ := Machine.restrict_exec hexec
    exact ⟨pc, unstopped_exec hs hspares hexec, Nat.le_refl _⟩
  | env henv => exact unstopped_env hs henv

theorem unstopped_steps (hs : UnstoppedAt pin freq duration tid pc s) {p q : MainProg Unit}
    (h : (undisturbed pin.toNat).Steps (p, s) (q, t)) :
    ∃ pc', UnstoppedAt pin freq duration tid pc' t := by
  generalize hd : (q, t) = d at h
  induction h generalizing q t with
  | refl =>
    cases hd
    exact ⟨pc, hs⟩
  | @tail c' _ _ hstep ih =>
    subst hd
    obtain ⟨pc', hs'⟩ := ih (q := c'.1) (t := c'.2) rfl
    obtain ⟨pc'', ht, -⟩ := unstopped_undisturbed hs' hstep
    exact ⟨pc'', ht⟩

/-- Given turns, the thread returns. -/
theorem leadsTo_returned (hs : UnstoppedAt pin freq duration tid pc s) (later : MainProg Unit) :
    Machine.LeadsTo (Turn tid) (undisturbed pin.toNat).Step (fun c => Returned tid c.2)
      (later, s) := by
  refine Machine.leadsTo_of_rank
    (I := fun c => ∃ pc, UnstoppedAt pin freq duration tid pc c.2)
    (fun c => rankOf pin freq duration tid c.2) ?_ ?_ ?_ ⟨pc, hs⟩
  · rintro ⟨p, s⟩ ⟨q, t⟩ ⟨pc, hs⟩ hstep
    obtain ⟨pc', ht, hle⟩ := unstopped_undisturbed hs hstep
    refine ⟨⟨pc', ht⟩, ?_⟩
    rw [rankOf_eq ht, rankOf_eq hs]
    exact hle
  · rintro ⟨p, s⟩ ⟨q, t⟩ ⟨pc, hs⟩ ⟨-, status, hturn⟩
    obtain ⟨pc', ht, hlt⟩ := unstopped_own hs hturn
    refine ⟨⟨pc', ht⟩, ?_⟩
    rw [rankOf_eq ht, rankOf_eq hs]
    exact hlt
  · rintro ⟨p, s⟩ ⟨pc, hs⟩ hrunning
    have hpc : pc ≠ .finished := by
      rintro rfl
      exact hrunning (returned_of_finished hs)
    obtain ⟨joined, hthread⟩ := hs.thread
    obtain ⟨pc', e, hstep⟩ := blinkThread_isSome (s.blinkPins pin.toNat) hpc
    have hturn : ∃ u, s.turn tid 0 = some u := by
      simp only [State.turn, hthread, State.advance, hstep, Option.map_some]
      exact ⟨_, rfl⟩
    obtain ⟨u, hturn⟩ := hturn
    exact ⟨(p, u), rfl, 0, hturn⟩

/-- What a thread that has returned has called. -/
theorem callsBy_returned (hs : UnstoppedAt pin freq duration tid pc s) (h : Returned tid s) :
    s.callsBy tid = blinkPairs pin (int32 (Int.tdiv 500000 freq)) (int32 (freq * duration)).toNat ++
      [lastWrite pin] := by
  obtain rfl := finished_of_returned hs h
  have hcalls := hs.calls
  simp only [remaining, List.append_nil] at hcalls
  exact hcalls

/-- The half-period, truncated to microseconds, fills a second up to `2 * freq`. -/
theorem slept_bounds (hfreq : 0 < freq) (hduration : 0 < duration) :
    freq * duration * (2 * (500000 / freq)) ≤ duration * 1000000 ∧
      duration * 1000000 - 2 * freq * duration < freq * duration * (2 * (500000 / freq)) := by
  have hle := Int.ediv_mul_le 500000 (Int.ne_of_gt hfreq)
  have hlt := Int.lt_ediv_add_one_mul_self 500000 hfreq
  generalize 500000 / freq = delayTime at hle hlt
  have hslept : freq * duration * (2 * delayTime) = duration * (2 * (delayTime * freq)) := by ring
  have hlimit : duration * 1000000 - 2 * freq * duration = duration * (1000000 - 2 * freq) := by
    ring
  rw [hslept, hlimit]
  constructor
  · exact Int.mul_le_mul_of_nonneg_left (by omega) (by omega)
  · apply Int.mul_lt_mul_of_pos_left _ hduration
    have hexpand : (delayTime + 1) * freq = delayTime * freq + freq := by ring
    omega

/-- A product that is an `int` is counted out. -/
theorem lasted_of_le (hfreq : 0 < freq) (hduration : 0 < duration)
    (hle : freq * duration ≤ 2147483647) (hs : UnstoppedAt pin freq duration tid pc s)
    (h : Returned tid s) : Lasted pin freq duration tid s := by
  have hpos : 0 < freq * duration := Int.mul_pos hfreq hduration
  have hcycles : int32 (freq * duration) = freq * duration := int32_of_le (by omega) hle
  have hdelay : int32 (Int.tdiv 500000 freq) = 500000 / freq := by
    have hnonneg : (0 : Int) ≤ 500000 / freq := Int.ediv_nonneg (by decide) (by omega)
    have hself : (500000 : Int) / freq ≤ 500000 := Int.ediv_le_self _ (by decide)
    rw [Int.tdiv_eq_ediv_of_nonneg (by decide), int32_of_le hnonneg (by omega)]
  have hcalls := callsBy_returned hs h
  rw [hcycles, hdelay] at hcalls
  have hslept : slept (s.callsBy tid) = freq * duration * (2 * (500000 / freq)) := by
    rw [hcalls, slept_append, slept_blinkPairs, Int.toNat_of_nonneg (by omega)]
    simp [slept, lastWrite]
  obtain ⟨hatMost, hmoreThan⟩ := slept_bounds hfreq hduration
  refine ⟨⟨_, hcalls⟩, ?_, ?_, hs.active.mpr (finished_of_returned hs h)⟩
  · rw [hslept]
    exact hatMost
  · rw [hslept]
    exact hmoreThan

/-- The count is an `int` in any case. -/
theorem le_of_lasted (hs : UnstoppedAt pin freq duration tid pc s) (hreturned : Returned tid s)
    (h : Lasted pin freq duration tid s) : freq * duration ≤ 2147483647 := by
  obtain ⟨delayTime, hpairs⟩ := h.pairs
  have hlengths := congrArg List.length ((callsBy_returned hs hreturned).symm.trans hpairs)
  simp only [List.length_append, length_blinkPairs, List.length_singleton] at hlengths
  have hle := int32_le (freq * duration)
  omega

theorem lasts_iff (hfreq : 0 < freq) (hduration : 0 < duration)
    (hs : UnstoppedAt pin freq duration tid pc s) :
    Lasts pin freq duration tid s ↔ freq * duration ≤ 2147483647 := by
  constructor
  · intro h
    obtain ⟨⟨q, u⟩, hsteps, hreturned⟩ :=
      Machine.reached_of_leadsTo (leadsTo_returned hs (.ret ()))
    have hrun : (undisturbed pin.toNat).Steps (.ret (), s) (q, u) := by
      refine Relation.ReflTransGen.mono ?_ _ _ hsteps
      rintro ⟨p, s⟩ ⟨q, t⟩ ⟨hsame, status, hturn⟩
      obtain rfl : q = p := hsame
      exact .env ⟨(tid, status), hturn⟩
    obtain ⟨pc', hu⟩ := unstopped_steps hs hrun
    exact le_of_lasted hu hreturned (h.lasted _ _ _ hrun hreturned)
  · intro hle
    refine ⟨leadsTo_returned hs, fun later q u hsteps hreturned => ?_⟩
    obtain ⟨pc', hu⟩ := unstopped_steps hs hsteps
    exact lasted_of_le hfreq hduration hle hu hreturned

end

/-- After any calls of both families: a blink that `blinkStart` accepts lasts as asked, unless it
is stopped, exactly when the number of pairs is an `int`. -/
theorem blink_lasts_iff (calls : List PinCall) (s t : State) (pin freq duration : Int)
    (hs : machine.Runs (pinCalls calls) boot () s)
    (hstart : machine.Runs (blinkStart pin freq duration) s 0 t) :
    Lasts pin freq duration (t.blinkPins pin.toNat).thread t ↔
      freq * duration ≤ 2147483647 := by
  obtain ⟨⟨-, hfreq, hduration⟩, pc, ht⟩ := unstopped_of_start hs hstart
  exact lasts_iff hfreq hduration ht

/-- 32768 blinks a second for 65535 seconds, just within the word. -/
theorem blink_lasts_longest :
    ∃ t, machine.Runs (blinkStart 5 32768 65535) boot 0 t ∧
      Lasts 5 32768 65535 (t.blinkPins 5).thread t := by
  obtain ⟨value, t, hruns, hvalue⟩ := machine.play_runs (List.replicate 9 (.inl 0))
    (blinkStart 5 32768 65535) boot (fun value _ => decide (value = 0)) (by decide +kernel)
  obtain rfl : value = 0 := of_decide_eq_true hvalue
  exact ⟨t, hruns, (blink_lasts_iff [] boot t 5 32768 65535 .refl hruns).mpr (by decide)⟩

/-- 65536 blinks a second for 65536 seconds: the product wraps to 0. -/
theorem blink_wraps :
    ∃ t, machine.Runs (pinCalls []) boot () boot ∧
      machine.Runs (blinkStart 5 65536 65536) boot 0 t ∧
      ¬ Lasts 5 65536 65536 (t.blinkPins 5).thread t := by
  obtain ⟨value, t, hruns, hvalue⟩ := machine.play_runs (List.replicate 9 (.inl 0))
    (blinkStart 5 65536 65536) boot (fun value _ => decide (value = 0)) (by decide +kernel)
  obtain rfl : value = 0 := of_decide_eq_true hvalue
  have hboot : machine.Runs (pinCalls []) boot () boot := .refl
  refine ⟨t, hboot, hruns, fun hlasts => ?_⟩
  obtain ⟨⟨-, hfreq, hduration⟩, pc, ht⟩ := unstopped_of_start hboot hruns
  exact absurd ((lasts_iff hfreq hduration ht).mp hlasts) (by decide)

end EmbeddedCar.Gpio
