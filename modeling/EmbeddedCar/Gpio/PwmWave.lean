import EmbeddedCar.Gpio.BlinkTime
import EmbeddedCar.Gpio.SoftPwmTable
import Mathlib.Tactic.Linarith

/-!
# The wave of a soft-PWM thread

What a soft-PWM thread calls while its slot stays as it is: pass after pass through its loop, each
the same. The time the pin is high is the duty cycle's share of the time slept, up to a
microsecond for each pass; a pass sleeps one period, but two at the duty cycles 0 and 100, where
the loop ends with a second sleep.
-/

namespace EmbeddedCar.Gpio

open EmbeddedCar.Concurrent Prog

/-! ### One pass through the loop -/

/-- The calls for a level: `digitalWrite` and `usleep`. -/
def phase (pwm : SoftPwm) (value : Level) (us : ℚ) : List ThreadEffect :=
  [.system (digitalWriteCommand pwm.pin value), .usleep ⌊us⌋]

def highPhase (pwm : SoftPwm) : List ThreadEffect :=
  if (pwmTimes pwm).highTimeUs > 1 then phase pwm .high (pwmTimes pwm).highTimeUs else []

def lowPhase (pwm : SoftPwm) : List ThreadEffect :=
  if (pwmTimes pwm).lowTimeUs > 1 then phase pwm .low (pwmTimes pwm).lowTimeUs else []

def extraPhase (pwm : SoftPwm) : List ThreadEffect :=
  if pwm.dutyCycle = 0 then phase pwm .low (pwmTimes pwm).periodUs
  else if pwm.dutyCycle = 100 then phase pwm .high (pwmTimes pwm).periodUs
  else []

/-- The calls of one pass, on a slot that stays as it is. -/
def pwmPass (pwm : SoftPwm) : List ThreadEffect := highPhase pwm ++ lowPhase pwm ++ extraPhase pwm

def pwmPasses (pwm : SoftPwm) (n : Nat) : List ThreadEffect :=
  (List.replicate n (pwmPass pwm)).flatten

theorem pwmPasses_concat (pwm : SoftPwm) (n : Nat) :
    pwmPasses pwm (n + 1) = pwmPasses pwm n ++ pwmPass pwm := by
  simp [pwmPasses, List.replicate_succ']

/-- What is still to be called in a pass. -/
def restOfPass (pwm : SoftPwm) : SoftPwmPc → List ThreadEffect
  | .loop | .times | .testHigh _ => pwmPass pwm
  | .writeHigh t => phase pwm .high t.highTimeUs ++ lowPhase pwm ++ extraPhase pwm
  | .sleepHigh t => .usleep ⌊t.highTimeUs⌋ :: (lowPhase pwm ++ extraPhase pwm)
  | .testLow _ => lowPhase pwm ++ extraPhase pwm
  | .writeLow t => phase pwm .low t.lowTimeUs ++ extraPhase pwm
  | .sleepLow t => .usleep ⌊t.lowTimeUs⌋ :: extraPhase pwm
  | .testZero _ => extraPhase pwm
  | .writeZero t => phase pwm .low t.periodUs
  | .sleepZero t => [.usleep ⌊t.periodUs⌋]
  | .testFull _ =>
      if pwm.dutyCycle = 100 then phase pwm .high (pwmTimes pwm).periodUs else []
  | .writeFull t => phase pwm .high t.periodUs
  | .sleepFull t => [.usleep ⌊t.periodUs⌋]
  | .lastLow | .finished => []

/-- The thread is in its loop, with the times of its slot. -/
def SoftPwmPc.Timed (pwm : SoftPwm) : SoftPwmPc → Prop
  | .loop | .times => True
  | .testHigh t | .writeHigh t | .sleepHigh t | .testLow t | .writeLow t | .sleepLow t
  | .testZero t | .writeZero t | .sleepZero t | .writeFull t | .sleepFull t => t = pwmTimes pwm
  | .testFull t => t = pwmTimes pwm ∧ pwm.dutyCycle ≠ 0
  | .lastLow | .finished => False

/-- One step of the thread: a call that is due, or the end of the pass. -/
theorem softPwmThread_rest {pwm : SoftPwm} {pc pc' : SoftPwmPc} {e : ThreadEffect}
    (hactive : pwm.active ≠ 0) (htimed : pc.Timed pwm)
    (h : softPwmThread pwm pc = some (pc', e)) :
    pc'.Timed pwm ∧
      (restOfPass pwm pc = e.calls ++ restOfPass pwm pc' ∨
        pc' = .loop ∧ restOfPass pwm pc = e.calls) := by
  cases pc with
  | loop =>
    simp only [softPwmThread, if_pos hactive] at h
    cases h
    exact ⟨trivial, .inl rfl⟩
  | times =>
    cases h
    exact ⟨rfl, .inl rfl⟩
  | testHigh t =>
    obtain rfl : t = pwmTimes pwm := htimed
    simp only [softPwmThread] at h
    split at h
    · next hhigh =>
      cases h
      refine ⟨rfl, .inl ?_⟩
      simp [restOfPass, pwmPass, highPhase, hhigh, ThreadEffect.calls]
    · next hhigh =>
      cases h
      refine ⟨rfl, .inl ?_⟩
      simp [restOfPass, pwmPass, highPhase, hhigh, ThreadEffect.calls]
  | writeHigh t =>
    cases h
    exact ⟨htimed, .inl rfl⟩
  | sleepHigh t =>
    cases h
    exact ⟨htimed, .inl rfl⟩
  | testLow t =>
    obtain rfl : t = pwmTimes pwm := htimed
    simp only [softPwmThread] at h
    split at h
    · next hlow =>
      cases h
      refine ⟨rfl, .inl ?_⟩
      simp [restOfPass, lowPhase, hlow.1, ThreadEffect.calls]
    · next hlow =>
      have hshort : ¬ (pwmTimes pwm).lowTimeUs > 1 := fun hlong => hlow ⟨hlong, hactive⟩
      cases h
      refine ⟨rfl, .inl ?_⟩
      simp [restOfPass, lowPhase, hshort, ThreadEffect.calls]
  | writeLow t =>
    cases h
    exact ⟨htimed, .inl rfl⟩
  | sleepLow t =>
    cases h
    exact ⟨htimed, .inl rfl⟩
  | testZero t =>
    obtain rfl : t = pwmTimes pwm := htimed
    simp only [softPwmThread] at h
    split at h
    · next hzero =>
      cases h
      refine ⟨rfl, .inl ?_⟩
      simp [restOfPass, extraPhase, hzero, ThreadEffect.calls]
    · next hzero =>
      cases h
      refine ⟨⟨rfl, hzero⟩, .inl ?_⟩
      simp [restOfPass, extraPhase, hzero, ThreadEffect.calls]
  | writeZero t =>
    cases h
    exact ⟨htimed, .inl rfl⟩
  | sleepZero t =>
    cases h
    exact ⟨trivial, .inr ⟨rfl, rfl⟩⟩
  | testFull t =>
    obtain ⟨rfl, hzero⟩ := htimed
    simp only [softPwmThread] at h
    split at h
    · next hfull =>
      cases h
      refine ⟨rfl, .inl ?_⟩
      simp [restOfPass, hfull, ThreadEffect.calls]
    · next hfull =>
      cases h
      refine ⟨trivial, .inr ⟨rfl, ?_⟩⟩
      simp [restOfPass, hfull, ThreadEffect.calls]
  | writeFull t =>
    cases h
    exact ⟨htimed, .inl rfl⟩
  | sleepFull t =>
    cases h
    exact ⟨trivial, .inr ⟨rfl, rfl⟩⟩
  | lastLow => exact htimed.elim
  | finished => exact htimed.elim

/-! ### Pass after pass -/

/-- Since it had called `before`, thread `tid` has called `n` passes and a part of one more. -/
structure InPass (pwm : SoftPwm) (i tid : Nat) (before : List ThreadEffect) (n : Nat)
    (part : List ThreadEffect) (pc : SoftPwmPc) (s : State) : Prop where
  thread : ∃ joined, s.workers[tid]? = some ⟨.softPwm i pc, joined⟩
  timed : pc.Timed pwm
  calls : s.callsBy tid = before ++ (pwmPasses pwm n ++ part)
  pass : part ++ restOfPass pwm pc = pwmPass pwm

section

variable {pwm : SoftPwm} {i tid : Nat} {before : List ThreadEffect} {s t : State}

/-- Some number of passes and a part. -/
def Waving (pwm : SoftPwm) (i tid : Nat) (before : List ThreadEffect) (s : State) : Prop :=
  ∃ n part pc, InPass pwm i tid before n part pc s

/-- A turn of the thread itself. -/
theorem waving_own (hslot : s.softPwmPins i = pwm) (hactive : pwm.active ≠ 0)
    (hs : Waving pwm i tid before s) {status : Int} (h : s.turn tid status = some t) :
    Waving pwm i tid before t := by
  obtain ⟨n, part, pc, hpass⟩ := hs
  obtain ⟨w, task, e, hw, hadvance, rfl⟩ := turn_some h
  obtain ⟨joined, hthread⟩ := hpass.thread
  obtain rfl : w = ⟨.softPwm i pc, joined⟩ := Option.some.inj (hw.symm.trans hthread)
  obtain ⟨pc', rfl, hstep⟩ := advance_softPwm hadvance
  rw [hslot] at hstep
  have hlen : tid < s.workers.length := (List.getElem?_eq_some_iff.mp hw).1
  have hcalls : (s.apply tid status (.softPwm i pc) e).callsBy tid =
      before ++ (pwmPasses pwm n ++ (part ++ e.calls)) := by
    rw [callsBy_apply, if_pos rfl, hpass.calls]
    simp only [List.append_assoc]
  obtain ⟨htimed, hdue | ⟨rfl, hend⟩⟩ := softPwmThread_rest hactive hpass.timed hstep
  · refine ⟨n, part ++ e.calls, pc', ⟨joined, List.getElem?_set_self hlen⟩, htimed, hcalls, ?_⟩
    rw [List.append_assoc, ← hdue]
    exact hpass.pass
  · -- The pass is complete.
    refine ⟨n + 1, [], .loop, ⟨joined, List.getElem?_set_self hlen⟩, trivial, ?_, rfl⟩
    rw [pwmPasses_concat, List.append_nil, ← hpass.pass, hend]
    exact hcalls

/-- A turn of another thread. -/
theorem waving_other (hs : Waving pwm i tid before s) {turn : Nat} {status : Int}
    (hne : turn ≠ tid) (h : s.turn turn status = some t) : Waving pwm i tid before t := by
  obtain ⟨n, part, pc, hpass⟩ := hs
  obtain ⟨w, task, e, hw, hadvance, rfl⟩ := turn_some h
  obtain ⟨joined, hthread⟩ := hpass.thread
  refine ⟨n, part, pc, ⟨joined, (List.getElem?_set_ne hne).trans hthread⟩, hpass.timed, ?_,
    hpass.pass⟩
  have happly := callsBy_apply s turn status w.task e tid
  rw [if_neg hne, List.append_nil] at happly
  exact happly.trans hpass.calls

theorem waving_env (hslot : s.softPwmPins i = pwm) (hactive : pwm.active ≠ 0)
    (hs : Waving pwm i tid before s) (h : machine.Env s t) : Waving pwm i tid before t := by
  obtain ⟨⟨turn, status⟩, hturn⟩ := h
  by_cases hsame : turn = tid
  · subst hsame
    exact waving_own hslot hactive hs hturn
  · exact waving_other hs hsame hturn

theorem waving_exec (hs : Waving pwm i tid before s) {o : Op} {r : o.Res}
    (h : machine.Exec o s r t) : Waving pwm i tid before t := by
  obtain ⟨n, part, pc, hpass⟩ := hs
  obtain ⟨joined, hthread⟩ := hpass.thread
  obtain ⟨⟨task, joined'⟩, hw', htask⟩ := exec_task h hthread
  cases htask
  refine ⟨n, part, pc, ⟨joined', hw'⟩, hpass.timed, ?_, hpass.pass⟩
  rw [callsBy_exec h]
  exact hpass.calls

end

/-! ### The time the pin is high -/

/-- Whether a pin is high after a call. -/
def highAfter (pin : Int) (high : Bool) : ThreadEffect → Bool
  | .system command =>
      if command = digitalWriteCommand pin .high then true
      else if command = digitalWriteCommand pin .low then false
      else high
  | _ => high

/-- The microseconds slept while the pin is high. -/
def sleptHigh (pin : Int) : Bool → List ThreadEffect → Int
  | _, [] => 0
  | high, .usleep us :: calls => (if high then us else 0) + sleptHigh pin high calls
  | high, call :: calls => sleptHigh pin (highAfter pin high call) calls

theorem sleptHigh_append (pin : Int) (high : Bool) (calls calls' : List ThreadEffect) :
    sleptHigh pin high (calls ++ calls') =
      sleptHigh pin high calls + sleptHigh pin (calls.foldl (highAfter pin) high) calls' := by
  induction calls generalizing high with
  | nil => simp [sleptHigh]
  | cons call calls ih =>
    cases call with
    | usleep us =>
      simp only [List.cons_append, sleptHigh, List.foldl_cons, highAfter, ih]
      omega
    | _ => simpa [sleptHigh, List.foldl_cons] using ih _

section

variable {pwm : SoftPwm} {i : Nat}

/-- The two phases share the period as the duty cycle says. -/
structure Shares (duty : Int) (t : PwmTimes) : Prop where
  period : 0 < t.periodUs
  high : 0 ≤ t.highTimeUs
  low : 0 ≤ t.lowTimeUs
  sum : t.highTimeUs + t.lowTimeUs = t.periodUs
  share : (100 - duty) * t.highTimeUs = duty * t.lowTimeUs

theorem shares_pwmTimes (hvalid : pwm.Valid i) : Shares pwm.dutyCycle (pwmTimes pwm) := by
  obtain ⟨hzero, hfull⟩ := hvalid.duty
  have hperiod : (0 : ℚ) < 1000000 / pwm.frequency :=
    div_pos (by norm_num) (by exact_mod_cast hvalid.frequency)
  have hduty : (0 : ℚ) ≤ pwm.dutyCycle := by exact_mod_cast hzero
  have hrest : (pwm.dutyCycle : ℚ) ≤ 100 := by exact_mod_cast hfull
  have hhigh : 0 ≤ (pwmTimes pwm).highTimeUs :=
    div_nonneg (mul_nonneg hperiod.le hduty) (by norm_num)
  refine ⟨hperiod, hhigh, ?_, ?_, ?_⟩
  · change 0 ≤ 1000000 / (pwm.frequency : ℚ) - 1000000 / pwm.frequency * pwm.dutyCycle / 100
    have hle := mul_le_mul_of_nonneg_left hrest hperiod.le
    linarith
  · change _ + ((pwmTimes pwm).periodUs - (pwmTimes pwm).highTimeUs) = _
    ring
  · change (100 - (pwm.dutyCycle : ℚ)) * (1000000 / pwm.frequency * pwm.dutyCycle / 100) =
      pwm.dutyCycle * (1000000 / pwm.frequency - 1000000 / pwm.frequency * pwm.dutyCycle / 100)
    ring

/-- Rounding down costs each phase less than a microsecond. -/
theorem floors_share {duty : Int} {t : PwmTimes} (ht : Shares duty t) (hzero : 0 ≤ duty)
    (hfull : duty ≤ 100) :
    |100 * ⌊t.highTimeUs⌋ - duty * (⌊t.highTimeUs⌋ + ⌊t.lowTimeUs⌋)| ≤ 100 := by
  have hduty : (0 : ℚ) ≤ duty := by exact_mod_cast hzero
  have hrest : (0 : ℚ) ≤ 100 - duty := by
    have hcast : (duty : ℚ) ≤ 100 := by exact_mod_cast hfull
    linarith
  have hhigh := mul_le_mul_of_nonneg_left (Int.floor_le t.highTimeUs) hrest
  have hhigh' := mul_le_mul_of_nonneg_left (Int.lt_floor_add_one t.highTimeUs).le hrest
  have hlow := mul_le_mul_of_nonneg_left (Int.floor_le t.lowTimeUs) hduty
  have hlow' := mul_le_mul_of_nonneg_left (Int.lt_floor_add_one t.lowTimeUs).le hduty
  have hshare := ht.share
  have hbound : |(100 * ⌊t.highTimeUs⌋ - duty * (⌊t.highTimeUs⌋ + ⌊t.lowTimeUs⌋) : ℚ)| ≤ 100 := by
    rw [abs_le]
    constructor <;> linarith
  exact_mod_cast hbound

/-- A phase that is left out is short, so little of the other is not its due. -/
theorem short_share {a b : ℚ} {x y : ℚ} (ha : 0 ≤ a) (hb : b ≤ 100) (hb' : 0 ≤ b)
    (hshare : a * x = b * y) (hx : 0 ≤ x) (hy : y ≤ 1) : |a * ⌊x⌋| ≤ 100 := by
  have hfloor : (0 : ℚ) ≤ ⌊x⌋ := by exact_mod_cast Int.floor_nonneg.mpr hx
  have hle := mul_le_mul_of_nonneg_left (Int.floor_le x) ha
  have hsmall := mul_le_mul_of_nonneg_left hy hb'
  rw [abs_of_nonneg (mul_nonneg ha hfloor)]
  linarith

section

variable (pwm : SoftPwm) (high : Bool) (us : ℚ) (calls : List ThreadEffect)

theorem sleptHigh_high : sleptHigh pwm.pin high (phase pwm .high us ++ calls) =
    ⌊us⌋ + sleptHigh pwm.pin true calls := by
  simp [phase, sleptHigh, highAfter]

theorem sleptHigh_low : sleptHigh pwm.pin high (phase pwm .low us ++ calls) =
    sleptHigh pwm.pin false calls := by
  simp [phase, sleptHigh, highAfter, digitalWriteCommand]

theorem slept_phase (value : Level) :
    slept (phase pwm value us ++ calls) = ⌊us⌋ + slept calls := by
  simp [phase, slept]

end

/-- The phases of a pass at the duty cycle 0: the pin is only written low. -/
theorem pass_zero (hvalid : pwm.Valid i) (hzero : pwm.dutyCycle = 0) (high : Bool) :
    sleptHigh pwm.pin high (pwmPass pwm) = 0 := by
  have hshares := shares_pwmTimes hvalid
  have hhigh : (pwmTimes pwm).highTimeUs = 0 := by
    have hshare := hshares.share
    rw [hzero] at hshare
    simpa using hshare
  have hnone : highPhase pwm = [] := if_neg (by rw [hhigh]; norm_num)
  have hextra : extraPhase pwm = phase pwm .low (pwmTimes pwm).periodUs ++ [] := by
    rw [List.append_nil]
    exact if_pos hzero
  unfold pwmPass lowPhase
  rw [hnone, hextra, List.nil_append]
  split
  · rw [sleptHigh_low, sleptHigh_low]
    rfl
  · rw [List.nil_append, sleptHigh_low]
    rfl

/-- The phases of a pass at the duty cycle 100: the pin is only written high. -/
theorem pass_full (hvalid : pwm.Valid i) (hfull : pwm.dutyCycle = 100) (high : Bool) :
    sleptHigh pwm.pin high (pwmPass pwm) = slept (pwmPass pwm) := by
  have hshares := shares_pwmTimes hvalid
  have hlow : (pwmTimes pwm).lowTimeUs = 0 := by
    have hshare := hshares.share
    rw [hfull] at hshare
    simpa using hshare.symm
  have hnone : lowPhase pwm = [] := if_neg (by rw [hlow]; norm_num)
  have hextra : extraPhase pwm = phase pwm .high (pwmTimes pwm).periodUs ++ [] := by
    rw [List.append_nil]
    unfold extraPhase
    rw [if_neg (by omega), if_pos hfull]
  unfold pwmPass highPhase
  rw [hnone, hextra, List.append_nil]
  split
  · rw [sleptHigh_high, sleptHigh_high, slept_phase, slept_phase]
    rfl
  · rw [List.nil_append, sleptHigh_high, slept_phase]
    rfl

/-- One pass: the pin is high for its share of the time, up to a microsecond. -/
theorem pass_share (hvalid : pwm.Valid i) (high : Bool) :
    |100 * sleptHigh pwm.pin high (pwmPass pwm) - pwm.dutyCycle * slept (pwmPass pwm)| ≤ 100 := by
  by_cases hzero : pwm.dutyCycle = 0
  · rw [pass_zero hvalid hzero, hzero]
    simp
  by_cases hfull : pwm.dutyCycle = 100
  · rw [pass_full hvalid hfull, hfull]
    simp
  have hshares := shares_pwmTimes hvalid
  have hextra : extraPhase pwm = [] := by
    unfold extraPhase
    rw [if_neg hzero, if_neg hfull]
  obtain ⟨hnonneg, hle⟩ := hvalid.duty
  have hduty : (0 : ℚ) ≤ pwm.dutyCycle := by exact_mod_cast hnonneg
  have hduty' : (pwm.dutyCycle : ℚ) ≤ 100 := by exact_mod_cast hle
  have hphase : ∀ value us, phase pwm value us = phase pwm value us ++ [] := fun value us =>
    (List.append_nil _).symm
  unfold pwmPass highPhase lowPhase
  rw [hextra, List.append_nil]
  by_cases hhigh : (pwmTimes pwm).highTimeUs > 1
  · by_cases hlow : (pwmTimes pwm).lowTimeUs > 1
    · rw [if_pos hhigh, if_pos hlow, hphase .low, sleptHigh_high, sleptHigh_low, slept_phase,
        slept_phase]
      simpa [sleptHigh, slept] using floors_share hshares hnonneg hle
    · rw [if_pos hhigh, if_neg hlow, sleptHigh_high, slept_phase]
      have hshort := short_share (by linarith) hduty' hduty hshares.share hshares.high
        (not_lt.mp hlow)
      have hmeasure : (100 : Int) * (⌊(pwmTimes pwm).highTimeUs⌋ + sleptHigh pwm.pin true []) -
          pwm.dutyCycle * (⌊(pwmTimes pwm).highTimeUs⌋ + slept []) =
            (100 - pwm.dutyCycle) * ⌊(pwmTimes pwm).highTimeUs⌋ := by
        simp only [sleptHigh, slept]
        ring
      rw [hmeasure]
      exact_mod_cast hshort
  · by_cases hlow : (pwmTimes pwm).lowTimeUs > 1
    · rw [if_neg hhigh, if_pos hlow, List.nil_append, hphase, sleptHigh_low, slept_phase]
      have hshort := short_share hduty (by linarith) (by linarith) hshares.share.symm hshares.low
        (not_lt.mp hhigh)
      have hmeasure : (100 : Int) * sleptHigh pwm.pin false [] -
          pwm.dutyCycle * (⌊(pwmTimes pwm).lowTimeUs⌋ + slept []) =
            -(pwm.dutyCycle * ⌊(pwmTimes pwm).lowTimeUs⌋) := by
        simp only [sleptHigh, slept]
        ring
      rw [hmeasure, abs_neg]
      exact_mod_cast hshort
    · rw [if_neg hhigh, if_neg hlow]
      simp [sleptHigh, slept]

/-- Passes of which each shares its time share all of it. -/
theorem share_replicate {pin duty : Int} {pass : List ThreadEffect}
    (hpass : ∀ high, |100 * sleptHigh pin high pass - duty * slept pass| ≤ 100) (n : Nat)
    (high : Bool) :
    |100 * sleptHigh pin high (List.replicate n pass).flatten -
      duty * slept (List.replicate n pass).flatten| ≤ 100 * n := by
  induction n generalizing high with
  | zero => simp [sleptHigh, slept]
  | succ n ih =>
    rw [List.replicate_succ, List.flatten_cons, sleptHigh_append, slept_append]
    have hfirst := abs_le.mp (hpass high)
    have hrest := abs_le.mp (ih (pass.foldl (highAfter pin) high))
    rw [abs_le]
    push_cast
    constructor
    · linarith [hfirst.1, hrest.1]
    · linarith [hfirst.2, hrest.2]

theorem slept_replicate (pass : List ThreadEffect) (n : Nat) :
    slept (List.replicate n pass).flatten = n * slept pass := by
  induction n with
  | zero => simp [slept]
  | succ n ih =>
    rw [List.replicate_succ, List.flatten_cons, slept_append, ih]
    push_cast
    ring

/-- A pass between the ends takes one period. -/
theorem pass_period (hvalid : pwm.Valid i) (hzero : pwm.dutyCycle ≠ 0)
    (hfull : pwm.dutyCycle ≠ 100) :
    (pwmTimes pwm).periodUs - 2 ≤ slept (pwmPass pwm) ∧
      slept (pwmPass pwm) ≤ (pwmTimes pwm).periodUs := by
  have hshares := shares_pwmTimes hvalid
  have hsum := hshares.sum
  have hextra : extraPhase pwm = [] := by
    unfold extraPhase
    rw [if_neg hzero, if_neg hfull]
  have hslept : ∀ value us, slept (phase pwm value us) = ⌊us⌋ := fun value us => by
    simp [phase, slept]
  have hphase : ∀ (us : ℚ) (value : Level), 0 ≤ us →
      us - 1 ≤ slept (if us > 1 then phase pwm value us else []) ∧
        slept (if us > 1 then phase pwm value us else []) ≤ us := by
    intro us value hus
    split
    · rw [hslept]
      exact ⟨(Int.sub_one_lt_floor us).le, Int.floor_le us⟩
    · simp only [slept, Int.cast_zero]
      exact ⟨by linarith, hus⟩
  obtain ⟨hlow, hhigh⟩ := hphase _ .high hshares.high
  obtain ⟨hlow', hhigh'⟩ := hphase _ .low hshares.low
  unfold pwmPass highPhase lowPhase
  rw [hextra, List.append_nil, slept_append]
  push_cast
  exact ⟨by linarith, by linarith⟩

/-- A pass at an end takes two. -/
theorem pass_twice (hvalid : pwm.Valid i) (hend : pwm.dutyCycle = 0 ∨ pwm.dutyCycle = 100)
    (hperiod : 1 < (pwmTimes pwm).periodUs) :
    slept (pwmPass pwm) = 2 * ⌊(pwmTimes pwm).periodUs⌋ := by
  have hshares := shares_pwmTimes hvalid
  have hsum := hshares.sum
  have hshare := hshares.share
  unfold pwmPass
  rw [slept_append, slept_append]
  unfold highPhase lowPhase extraPhase
  rcases hend with hzero | hfull
  · rw [hzero] at hshare
    have hhigh : (pwmTimes pwm).highTimeUs = 0 := by simpa using hshare
    have hlow : (pwmTimes pwm).lowTimeUs = (pwmTimes pwm).periodUs := by linarith
    rw [hhigh, hlow, if_neg (by norm_num), if_pos hperiod, if_pos hzero]
    simp only [phase, slept]
    ring
  · rw [hfull] at hshare
    have hlow : (pwmTimes pwm).lowTimeUs = 0 := by simpa using hshare.symm
    have hhigh : (pwmTimes pwm).highTimeUs = (pwmTimes pwm).periodUs := by linarith
    rw [hhigh, hlow, if_pos hperiod, if_neg (by norm_num), if_neg (by omega), if_pos hfull]
    simp only [phase, slept]
    ring

end

/-! ### The wave -/

/-- While its slot stays as it is, a thread that starts at its loop calls whole passes and the
beginning of one more, whatever the other threads and the program do. In these passes the pin is
high for the share of the time that the duty cycle says, up to a microsecond for each pass; a pass
takes one period, up to two microseconds, but two periods at the duty cycles 0 and 100. -/
theorem pwm_wave {α : Type} (pwm : SoftPwm) (i tid : Nat) (joined : Bool) (p q : MainProg α)
    (s t : State) (hvalid : pwm.Valid i) (hactive : pwm.active ≠ 0)
    (hthread : s.workers[tid]? = some ⟨.softPwm i .loop, joined⟩)
    (hrun : machine.StepsUnder (.ofState fun s => s.softPwmPins i = pwm) (p, s) (q, t)) :
    ∃ n part, t.callsBy tid = s.callsBy tid ++ (pwmPasses pwm n ++ part) ∧ part <+: pwmPass pwm ∧
      (∀ high, |100 * sleptHigh pwm.pin high (pwmPasses pwm n) -
        pwm.dutyCycle * slept (pwmPasses pwm n)| ≤ 100 * n) ∧
      (pwm.dutyCycle ≠ 0 → pwm.dutyCycle ≠ 100 →
        n * ((pwmTimes pwm).periodUs - 2) ≤ slept (pwmPasses pwm n) ∧
          slept (pwmPasses pwm n) ≤ n * (pwmTimes pwm).periodUs) ∧
      (pwm.dutyCycle = 0 ∨ pwm.dutyCycle = 100 → 1 < (pwmTimes pwm).periodUs →
        slept (pwmPasses pwm n) = n * (2 * ⌊(pwmTimes pwm).periodUs⌋)) := by
  have hstart : Waving pwm i tid (s.callsBy tid) s :=
    ⟨0, [], .loop, ⟨joined, hthread⟩, trivial, by simp [pwmPasses], rfl⟩
  have hend := Machine.stepsUnder_invariant (I := Waving pwm i tid (s.callsBy tid))
    (fun _ _ hslot hs henv => waving_env hslot hactive hs henv)
    (fun _ _ _ _ _ hs h => waving_exec hs h) hrun hstart
  obtain ⟨n, part, pc, hpass⟩ := hend
  have hslept : slept (pwmPasses pwm n) = n * slept (pwmPass pwm) := slept_replicate _ n
  have hn : (0 : ℚ) ≤ n := by exact_mod_cast Nat.zero_le n
  refine ⟨n, part, hpass.calls, ⟨_, hpass.pass⟩, share_replicate (pass_share hvalid) n, ?_, ?_⟩
  · intro hzero hfull
    obtain ⟨hlow, hhigh⟩ := pass_period hvalid hzero hfull
    rw [hslept]
    push_cast
    exact ⟨mul_le_mul_of_nonneg_left hlow hn, mul_le_mul_of_nonneg_left hhigh hn⟩
  · intro hends hperiod
    rw [hslept, pass_twice hvalid hends hperiod]

/-- A motor at 75 percent and 500 Hz, seen for more than two passes. -/
theorem pwm_wave_motor :
    ∃ s t : State, ∃ n part,
      t.callsBy 0 = s.callsBy 0 ++ (pwmPasses ⟨22, 75, 500, 1, 0⟩ n ++ part) ∧
      part <+: pwmPass ⟨22, 75, 500, 1, 0⟩ := by
  let pwm : SoftPwm := ⟨22, 75, 500, 1, 0⟩
  let started : State := { boot with
    softPwmPins := Function.update boot.softPwmPins 22 pwm
    workers := [⟨.softPwm 22 .loop, false⟩] }
  obtain ⟨c, hc⟩ := Option.isSome_iff_exists.mp
    (show (machine.playWhile (fun (_ : MainProg Unit) s => decide (s.softPwmPins 22 = pwm))
      (List.replicate 25 (.inr (0, 0))) (.ret ()) started).isSome = true by decide +kernel)
  have htest : ∀ (p : MainProg Unit) (s : State), decide (s.softPwmPins 22 = pwm) = true →
      (Proviso.ofState fun s => s.softPwmPins 22 = pwm).holds p s :=
    fun _ s h => (of_decide_eq_true h : s.softPwmPins 22 = pwm)
  have hrun := Machine.playWhile_stepsUnder htest (q := c.1) (t := c.2) hc
  obtain ⟨n, part, hcalls, hpart, -⟩ := pwm_wave pwm 22 0 false (.ret ()) c.1 started c.2
    ⟨rfl, by decide, by decide⟩ (by decide) rfl hrun
  exact ⟨started, c.2, n, part, hcalls, hpart⟩

end EmbeddedCar.Gpio
