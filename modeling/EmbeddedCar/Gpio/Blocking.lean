import EmbeddedCar.Concurrent.Clock
import EmbeddedCar.Gpio.PwmDoubles

/-!
# The blocking functions

`softPwm` and `blink` do in the thread of their caller what the background threads do. `softPwm`
looks at the clock, so its runs are runs with a clock, and its times are the rounded ones; `blink`
counts, and makes the calls of a blink thread that nobody stops.
-/

namespace EmbeddedCar.Gpio

open EmbeddedCar.Concurrent Prog

/-! ### `softPwm` -/

/-- The microseconds a call sleeps. -/
def ThreadEffect.us : ThreadEffect → Int
  | .usleep us => us
  | _ => 0

/-- `gpio_lib.c:336-339` and `342-345`. -/
def blockingPhase (pwm : SoftPwm) (value : Level) (us : ℚ) : List ThreadEffect :=
  if us > 1 then phase pwm value us else []

/-- The body of the loop (`gpio_lib.c:335-345`). The times are computed once, in doubles, as those
of the thread are (`gpio_lib.c:328-330`). -/
def blockingPass (pwm : SoftPwm) : List ThreadEffect :=
  blockingPhase pwm .high (pwmTimesDouble pwm).highTimeUs ++
    blockingPhase pwm .low (pwmTimesDouble pwm).lowTimeUs

/-- `gpio_lib.c:319-354`, with a clock. `none` is a loop of more than `fuel` passes. -/
def softPwm (late : Nat → Nat) (fuel : Nat) (pin dutyCycle frequency durationMs : Int)
    (s : Clocked ThreadEffect) : Option (Int × Clocked ThreadEffect) :=
  if pin < 0 ∨ pin > 27 then some (-1, s)
  else if dutyCycle < 0 ∨ dutyCycle > 100 then some (-1, s)
  else if frequency ≤ 0 then some (-1, s)
  else
    let body := blockingPass { pin, dutyCycle, frequency }
    let s := s.perform late ThreadEffect.us (.system (.gpioSet pin .op))
    let (startTime, s) := s.time late
    let durationUs := durationMs * 1000
    let ended :=
      -- the clock is not read, and the loop is left after its first pass
      if durationMs = 0 then some (s.performAll late ThreadEffect.us body)
      else s.untilDeadline late ThreadEffect.us body startTime durationUs fuel
    ended.map fun s =>
      (0, s.perform late ThreadEffect.us (.system (digitalWriteCommand pin .low)))

theorem sleptIn_us (calls : List ThreadEffect) :
    Clocked.sleptIn ThreadEffect.us calls = slept calls := by
  induction calls with
  | nil => rfl
  | cons call calls ih =>
    unfold Clocked.sleptIn at ih ⊢
    rw [List.map_cons, List.sum_cons, ih]
    cases call with
    | usleep us => rfl
    | _ => exact Int.zero_add _

section

variable {pwm : SoftPwm} {i : Nat}

/-- The microseconds that a phase sleeps. -/
def phaseUs (us : ℚ) : Int := if us > 1 then ⌊us⌋ else 0

/-- A phase sleeps its exact time, up to a microsecond and what the doubles lose. -/
theorem phaseUs_near {us us' error : ℚ} (hus : 0 ≤ us) (hclose : |us' - us| ≤ error) :
    us - 1 - error ≤ phaseUs us' ∧ (phaseUs us' : ℚ) ≤ us + error := by
  obtain ⟨hlow, hhigh⟩ := abs_le.mp hclose
  unfold phaseUs
  split
  · have hfloor := Int.floor_le us'
    have hfloor' := Int.lt_floor_add_one us'
    constructor <;> linarith
  · next hshort =>
    have hshort : us' ≤ 1 := not_lt.mp hshort
    push_cast
    constructor <;> linarith

theorem slept_blockingPass (pwm : SoftPwm) : slept (blockingPass pwm) =
    phaseUs (pwmTimesDouble pwm).highTimeUs + phaseUs (pwmTimesDouble pwm).lowTimeUs := by
  have hphase : ∀ value us, slept (blockingPhase pwm value us) = phaseUs us := by
    intro value us
    unfold blockingPhase phaseUs
    split
    · simp [phase, slept]
    · rfl
  unfold blockingPass
  rw [slept_append, hphase, hphase]

/-- The pin is high in the first phase alone. -/
theorem sleptHigh_blockingPass (pwm : SoftPwm) (high : Bool) :
    sleptHigh pwm.pin high (blockingPass pwm) = phaseUs (pwmTimesDouble pwm).highTimeUs := by
  have hlow : ∀ high us, sleptHigh pwm.pin high (blockingPhase pwm .low us) = 0 := by
    intro high us
    unfold blockingPhase
    split
    · simp [phase, sleptHigh, highAfter, digitalWriteCommand]
    · rfl
  have hhigh : ∀ us, sleptHigh pwm.pin high (blockingPhase pwm .high us) = phaseUs us := by
    intro us
    unfold blockingPhase phaseUs
    split
    · simp [phase, sleptHigh, highAfter]
    · rfl
  unfold blockingPass
  rw [sleptHigh_append, hhigh, hlow, add_zero]

/-- The doubles of a pass are within a millionth of a microsecond. -/
theorem pwmTimesDouble_millionth (hvalid : pwm.Valid i) (hint : pwm.frequency < 2 ^ 31) :
    CloseTimes (1 / 1000000) (pwmTimes pwm) (pwmTimesDouble pwm) := by
  have hfrequency : (1 : ℚ) ≤ pwm.frequency := by exact_mod_cast hvalid.frequency
  have hperiod : (pwmTimes pwm).periodUs ≤ 1000000 := div_le_self (by norm_num) hfrequency
  have herror : 8 * ((pwmTimes pwm).periodUs * 2 ^ (-52 : ℤ)) ≤ 1 / 1000000 := by
    have hscaled := mul_le_mul_of_nonneg_right hperiod (show (0 : ℚ) ≤ 2 ^ (-52 : ℤ) by norm_num)
    have hbound : (8 : ℚ) * (1000000 * 2 ^ (-52 : ℤ)) ≤ 1 / 1000000 := by norm_num
    linarith
  have hclose := pwmTimesDouble_close hvalid hint
  exact ⟨hclose.period.trans herror, hclose.high.trans herror, hclose.low.trans herror⟩

/-- A pass of the blocking loop shares its time as a pass of the thread does. What the doubles lose
is less than the microsecond that an `int` counts in. -/
theorem blockingPass_share (hvalid : pwm.Valid i) (hint : pwm.frequency < 2 ^ 31) (high : Bool) :
    |100 * sleptHigh pwm.pin high (blockingPass pwm) - pwm.dutyCycle * slept (blockingPass pwm)| ≤
      100 := by
  have hshares := shares_pwmTimes hvalid
  have hclose := pwmTimesDouble_millionth hvalid hint
  obtain ⟨hhigh, hhigh'⟩ := phaseUs_near hshares.high hclose.high
  obtain ⟨hlow, hlow'⟩ := phaseUs_near hshares.low hclose.low
  rw [sleptHigh_blockingPass, slept_blockingPass]
  generalize phaseUs (pwmTimesDouble pwm).highTimeUs = h at *
  generalize phaseUs (pwmTimesDouble pwm).lowTimeUs = l at *
  have hduty : (0 : ℚ) ≤ pwm.dutyCycle := by exact_mod_cast hvalid.duty.1
  have hrest : (0 : ℚ) ≤ 100 - pwm.dutyCycle := by
    have hcast : (pwm.dutyCycle : ℚ) ≤ 100 := by exact_mod_cast hvalid.duty.2
    linarith
  have hshare := hshares.share
  have habove := mul_le_mul_of_nonneg_left hhigh' hrest
  have habove' := mul_le_mul_of_nonneg_left hlow hduty
  have hbelow := mul_le_mul_of_nonneg_left hhigh hrest
  have hbelow' := mul_le_mul_of_nonneg_left hlow' hduty
  have hbound : |(100 * h - pwm.dutyCycle * (h + l) : ℚ)| < 101 := by
    rw [abs_lt]
    constructor <;> linarith
  have hwhole : |100 * h - pwm.dutyCycle * (h + l)| < 101 := by exact_mod_cast hbound
  omega

/-- Below 500 kHz one of the two phases is long enough to be slept. -/
theorem slept_blockingPass_pos (hvalid : pwm.Valid i) (hfrequency : pwm.frequency < 500000) :
    0 < slept (blockingPass pwm) := by
  have hsum := (shares_pwmTimes hvalid).sum
  have hclose := pwmTimesDouble_millionth hvalid (hfrequency.trans (by norm_num))
  have hpositive : (0 : ℚ) < pwm.frequency := by exact_mod_cast hvalid.frequency
  have hperiod : 2 + 3 / 1000000 < (pwmTimes pwm).periodUs := by
    have hcast : (pwm.frequency : ℚ) ≤ 499999 := by exact_mod_cast Int.le_of_lt_add_one hfrequency
    change 2 + 3 / 1000000 < 1000000 / (pwm.frequency : ℚ)
    rw [lt_div_iff₀ hpositive]
    linarith
  have hhigh := (abs_le.mp hclose.high).1
  have hlow := (abs_le.mp hclose.low).1
  rw [slept_blockingPass]
  generalize (pwmTimesDouble pwm).highTimeUs = us at *
  generalize (pwmTimesDouble pwm).lowTimeUs = us' at *
  have hphase : ∀ us : ℚ, 0 ≤ phaseUs us ∧ (1 < us → 0 < phaseUs us) := by
    intro us
    unfold phaseUs
    split
    · next hlong =>
      have hfloor : 1 ≤ ⌊us⌋ := Int.le_floor.mpr (by exact_mod_cast hlong.le)
      exact ⟨by omega, fun _ => by omega⟩
    · next hshort => exact ⟨le_rfl, fun hlong => absurd hlong hshort⟩
  by_cases hlong : 1 < us
  · exact Int.add_pos_of_pos_of_nonneg ((hphase us).2 hlong) (hphase us').1
  · exact Int.add_pos_of_nonneg_of_pos (hphase us).1 ((hphase us').2 (by linarith))

end

/-- What `softPwm` does in `n` passes. -/
structure SoftPwmLasts (late : Nat → Nat) (pwm : SoftPwm) (durationMs : Int)
    (s s' : Clocked ThreadEffect) (n : Nat) : Prop where
  calls : s'.calls = s.calls ++ .system (.gpioSet pwm.pin .op) ::
    ((List.replicate n (blockingPass pwm)).flatten ++
      [.system (digitalWriteCommand pwm.pin .low)])
  once : durationMs = 0 → n = 1
  /-- It takes the time that was asked for. -/
  waited : durationMs ≠ 0 → durationMs * 1000 ≤ s'.now - s.now
  /-- Without its last pass it would sleep less. -/
  began : durationMs ≠ 0 → 0 < n → (n - 1) * slept (blockingPass pwm) < durationMs * 1000
  punctual : (∀ k, late k = 0) → s'.now = s.now + n * slept (blockingPass pwm)
  /-- The pin is high for its share of the time slept, up to a microsecond for each pass. -/
  share : ∀ high, |100 * sleptHigh pwm.pin high (List.replicate n (blockingPass pwm)).flatten -
    pwm.dutyCycle * slept (List.replicate n (blockingPass pwm)).flatten| ≤ 100 * n

/-- The blocking `softPwm` with its doubles, for all arguments and however late its calls are: a
call that is refused does nothing; any other below 500 kHz ends, after passes that fill the time
asked for. -/
theorem softPwm_lasts (late : Nat → Nat) (pin dutyCycle frequency durationMs : Int)
    (s : Clocked ThreadEffect) :
    (¬ ((0 ≤ pin ∧ pin ≤ 27) ∧ (0 ≤ dutyCycle ∧ dutyCycle ≤ 100) ∧ 0 < frequency) →
      ∀ fuel, softPwm late fuel pin dutyCycle frequency durationMs s = some (-1, s)) ∧
    ((0 ≤ pin ∧ pin ≤ 27) ∧ (0 ≤ dutyCycle ∧ dutyCycle ≤ 100) ∧ 0 < frequency →
      frequency < 500000 →
      ∃ n s', SoftPwmLasts late { pin, dutyCycle, frequency } durationMs s s' n ∧
        ∀ fuel, n < fuel →
          softPwm late fuel pin dutyCycle frequency durationMs s = some (0, s')) := by
  constructor
  · intro hrefused fuel
    unfold softPwm
    split
    · rfl
    split
    · rfl
    split
    · rfl
    · exact absurd ⟨by omega, by omega, by omega⟩ hrefused
  · rintro ⟨hpin, hduty, hfrequency⟩ hslow
    let pwm : SoftPwm := { pin, dutyCycle, frequency }
    have hvalid : pwm.Valid pin.toNat := ⟨(Int.toNat_of_nonneg hpin.1).symm, hduty, hfrequency⟩
    have hpos := slept_blockingPass_pos hvalid hslow
    have hshare := share_replicate (blockingPass_share hvalid (hslow.trans (by norm_num)))
    let set := s.perform late ThreadEffect.us (.system (.gpioSet pin .op))
    let start := (set.time late).1
    let ready := (set.time late).2
    have hstart : start = s.now + late s.steps + late set.steps := by
      simp [start, set, Clocked.time, Clocked.perform, ThreadEffect.us]
    have hready : ready.now = start := rfl
    have hcalls : ready.calls = s.calls ++ [.system (.gpioSet pin .op)] := rfl
    have hlast : ∀ t : Clocked ThreadEffect,
        (t.perform late ThreadEffect.us (.system (digitalWriteCommand pin .low))).now =
          t.now + late t.steps := fun t => by simp [Clocked.perform, ThreadEffect.us]
    have hrun : ∀ fuel, softPwm late fuel pin dutyCycle frequency durationMs s =
        (if durationMs = 0 then some (ready.performAll late ThreadEffect.us (blockingPass pwm))
          else ready.untilDeadline late ThreadEffect.us (blockingPass pwm) start
            (durationMs * 1000) fuel).map fun t =>
          (0, t.perform late ThreadEffect.us (.system (digitalWriteCommand pin .low))) := by
      intro fuel
      unfold softPwm
      rw [if_neg (by omega), if_neg (by omega), if_neg (by omega)]
    by_cases hzero : durationMs = 0
    · obtain ⟨-, hnow⟩ := Clocked.now_performAll late ThreadEffect.us ready (blockingPass pwm)
      refine ⟨1, _, ⟨?_, fun _ => rfl, fun h => absurd hzero h, fun h => absurd hzero h,
        fun hlate => ?_, hshare 1⟩, fun fuel _ => by rw [hrun, if_pos hzero]; rfl⟩
      · simp [Clocked.perform, Clocked.calls_performAll, hcalls, pwm]
      · rw [hlast, hnow hlate, sleptIn_us, hready, hstart, hlate, hlate, hlate]
        simp [pwm]
    · rw [← sleptIn_us] at hpos
      obtain ⟨n, t, hended, hfuel⟩ :=
        Clocked.untilDeadline_ends late hpos start (durationMs * 1000) ready
      refine ⟨n, _, ⟨?_, fun h => absurd h hzero, fun _ => ?_, fun _ hn => ?_, fun hlate => ?_,
        hshare n⟩, fun fuel hlt => by rw [hrun, if_neg hzero, hfuel fuel hlt]; rfl⟩
      · simp [Clocked.perform, hended.calls, hcalls, pwm]
      · have hwaited := hended.waited
        rw [hlast]
        omega
      · have hbegan := hended.began hn
        rw [sleptIn_us, hready] at hbegan
        exact Int.lt_of_add_lt_add_left hbegan
      · rw [hlast, hended.punctual hlate, sleptIn_us, hready, hstart, hlate, hlate, hlate]
        simp [pwm]

/-- A motor at 75 percent for 5 ms, where every call is late by 100 us. -/
theorem softPwm_lasts_late :
    ∃ n s', SoftPwmLasts (fun _ => 100) ⟨22, 75, 500, 0, 0⟩ 5 {} s' n ∧
      ∀ fuel, n < fuel → softPwm (fun _ => 100) fuel 22 75 500 5 {} = some (0, s') :=
  (softPwm_lasts (fun _ => 100) 22 75 500 5 {}).2 (by decide) (by decide)

example : (softPwm (fun _ => 0) 4 22 75 500 5 {}).map (fun r => (r.1, r.2.now)) =
    some (0, 6000) := by decide +kernel

/-- The doubles lose a microsecond of each third of a second at 99 percent. -/
example : (softPwm (fun _ => 0) 4 22 99 3 1 {}).map (fun r => (r.1, r.2.now)) =
    some (0, 333332) := by decide +kernel

/-! ### `blink` -/

def blinkCycles (pin delayTime : Int) : Nat → MainProg Unit
  | 0 => return ()
  | n + 1 => do
      let _ ← digitalWrite pin .high
      exec (.usleep delayTime)
      let _ ← digitalWrite pin .low
      exec (.usleep delayTime)
      blinkCycles pin delayTime n

/-- `gpio_lib.c:109-121`. -/
def blink (pin freq duration : Int) : MainProg Unit := do
  when (freq = 0) (exec .undefinedBehaviour)
  let delayTime := int32 (Int.tdiv 500000 freq)
  let cycles := int32 (freq * duration)
  blinkCycles pin delayTime cycles.toNat

/-- The call of an entry, if it comes from the main thread. -/
def LogEntry.callByMain (e : LogEntry) : Option ThreadEffect :=
  if e.author = none then some e.call.effect else none

/-- What the main thread has called, the first call first. -/
def State.callsByMain (s : State) : List ThreadEffect :=
  s.log.reverse.filterMap LogEntry.callByMain

/-- The main thread has called this. -/
def HasCalled (calls : List ThreadEffect) (s : State) : Prop := s.callsByMain = calls

theorem callsByMain_append {s t : State} {new : List LogEntry} (h : t.log = new ++ s.log) :
    t.callsByMain = s.callsByMain ++ new.reverse.filterMap LogEntry.callByMain := by
  unfold State.callsByMain
  rw [h, List.reverse_append, List.filterMap_append]

theorem hasCalled_stable (calls : List ThreadEffect) : machine.Stable (HasCalled calls) := by
  intro s t hs henv
  rcases log_env henv with hlog | ⟨e, hlog, tid, c, hauthor, -⟩
  · unfold HasCalled State.callsByMain
    rw [hlog]
    exact hs
  · have hother : LogEntry.callByMain e = none := by simp [LogEntry.callByMain, hauthor]
    have hcalls := callsByMain_append (show t.log = [e] ++ s.log from hlog)
    rw [hs] at hcalls
    simpa [HasCalled, hother] using hcalls

/-- A call of the main thread. -/
theorem hasCalled_exec {calls : List ThreadEffect} {s t : State} {o : Op} {r : o.Res}
    (hs : HasCalled calls s) (h : machine.Exec o s r t) :
    HasCalled (calls ++ (o.calls r).reverse.filterMap LogEntry.callByMain) t := by
  have hcalls := callsByMain_append (exec_log h)
  rwa [hs] at hcalls

theorem triple_blinkCycles (pin delayTime : Int) (n : Nat) (calls : List ThreadEffect) :
    machine.Triple (HasCalled calls) (blinkCycles pin delayTime n) fun _ =>
      HasCalled (calls ++ blinkPairs pin delayTime n) := by
  induction n generalizing calls with
  | zero =>
    refine Machine.triple_ret (hasCalled_stable calls) fun t ht => ?_
    simpa [blinkPairs] using ht
  | succ n ih =>
    refine Machine.triple_op (hasCalled_stable _) (fun _ _ _ => hasCalled_exec) fun status => ?_
    refine Machine.triple_op (hasCalled_stable _) (fun _ _ _ => hasCalled_exec) fun _ => ?_
    refine Machine.triple_op (hasCalled_stable _) (fun _ _ _ => hasCalled_exec) fun status => ?_
    refine Machine.triple_op (hasCalled_stable _) (fun _ _ _ => hasCalled_exec) fun _ => ?_
    refine Machine.triple_conseq (ih _) (fun _ h => h) fun _ t ht => ?_
    simpa [Op.calls, LogEntry.callByMain, HostCall.effect, blinkPairs, blinkPair] using ht

/-- `blink` makes the calls of a blink thread that nobody stops, but for its last one, whatever
the threads do meanwhile. -/
theorem blink_calls {pin freq duration : Int} (hfreq : freq ≠ 0) {s t : State}
    (h : machine.Runs (blink pin freq duration) s () t) :
    t.callsByMain ++ [lastWrite pin] =
      s.callsByMain ++ remaining pin freq duration .delayTime := by
  have hcycles := triple_blinkCycles pin (int32 (Int.tdiv 500000 freq))
    (int32 (freq * duration)).toNat s.callsByMain
  have hblink : blink pin freq duration = blinkCycles pin (int32 (Int.tdiv 500000 freq))
      (int32 (freq * duration)).toNat := by
    unfold blink Prog.when
    rw [if_neg hfreq]
    rfl
  rw [hblink] at h
  have hcalled := Machine.wp_runs (hcycles s rfl) h
  unfold HasCalled at hcalled
  rw [hcalled, List.append_assoc]
  rfl

end EmbeddedCar.Gpio
