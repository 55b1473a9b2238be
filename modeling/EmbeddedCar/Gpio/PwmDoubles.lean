import EmbeddedCar.Gpio.PwmWave
import EmbeddedCar.JavaScript.Rounding

/-!
# The soft-PWM thread in doubles

`soft_pwm_thread` computes its times in doubles, `softPwmThread` in rationals. In lockstep the two
make the same calls, and each sleep of the doubles is the exact one or a microsecond less. Where
the frequency divides a million they are the same.
-/

namespace EmbeddedCar.Gpio

open EmbeddedCar.JavaScript

/-! ### Doubles -/

theorem doubleOf_intCast {n : ℤ} (hn : |n| < 2 ^ 53) : doubleOf n = n := by
  rw [doubleOf, roundDouble_intCast hn]

/-- The whole numbers that occur here need no rounding. -/
theorem doubleOf_whole {q : ℚ} {n : ℤ} (hq : q = n) (hzero : 0 ≤ q) (hlarge : q ≤ 100000000) :
    doubleOf q = q := by
  rw [hq] at hzero hlarge ⊢
  have hnonneg : 0 ≤ n := by exact_mod_cast hzero
  have hsmall : n ≤ 100000000 := by exact_mod_cast hlarge
  refine doubleOf_intCast ?_
  rw [abs_of_nonneg hnonneg]
  exact hsmall.trans_lt (by norm_num)

/-- One operation is off by a relative error, unless its result is subnormal. -/
theorem abs_doubleOf_sub_le {q bound : ℚ} (hq : |q| ≤ bound) (hlow : 2 ^ (-1022 : ℤ) ≤ bound)
    (hhigh : bound ≤ 2 ^ 1023) : |doubleOf q - q| ≤ bound * 2 ^ (-52 : ℤ) := by
  obtain ⟨x, hx, hnear⟩ := roundDouble_near (hq.trans hhigh)
  have hunit : (0 : ℚ) ≤ 2 ^ (-53 : ℤ) := (zpow_pos two_pos _).le
  have hleast : (2 : ℚ) ^ (-1075 : ℤ) = 2 ^ (-1022 : ℤ) * 2 ^ (-53 : ℤ) := by
    rw [← zpow_add₀ two_ne_zero]
    norm_num
  have hdouble : (2 : ℚ) ^ (-52 : ℤ) = 2 ^ (-53 : ℤ) + 2 ^ (-53 : ℤ) := by norm_num
  rw [doubleOf, hx, hdouble, mul_add]
  refine hnear.trans (add_le_add (mul_le_mul_of_nonneg_right hq hunit) ?_)
  rw [hleast]
  exact mul_le_mul_of_nonneg_right hlow hunit

/-! ### The times -/

/-- `gpio_lib.c:285-287`. Every operation rounds; the conversion of an `int` does not. -/
def pwmTimesDouble (pwm : SoftPwm) : PwmTimes :=
  let periodUs := doubleOf (1000000 / pwm.frequency)
  let highTimeUs := doubleOf (doubleOf (periodUs * pwm.dutyCycle) / 100)
  { periodUs, highTimeUs, lowTimeUs := doubleOf (periodUs - highTimeUs) }

/-- Up to a thousand periods, rounding costs a unit for each. -/
def RoundsIn (round : ℚ → ℚ) (period unit : ℚ) : Prop :=
  ∀ k q, 1 ≤ k → k ≤ 1000 → |q| ≤ k * period → |round q - q| ≤ k * unit

section

variable {round : ℚ → ℚ} {period duty unit : ℚ}

theorem rounds_period (hround : RoundsIn round period unit) (hperiod : 0 ≤ period) :
    |round period - period| ≤ unit := by
  have hself : |period| ≤ 1 * period := by rw [one_mul, abs_of_nonneg hperiod]
  simpa only [one_mul] using hround 1 period le_rfl (by norm_num) hself

/-- The product and the quotient are rounded too. -/
theorem rounds_high (hround : RoundsIn round period unit) (hduty : 0 ≤ duty ∧ duty ≤ 100)
    (hunit : 0 ≤ unit) (hunit' : unit ≤ period * (1 / 100)) :
    |round (round (round period * duty) / 100) - period * duty / 100| ≤ 5 * unit := by
  have hperiod : 0 ≤ period := by linarith
  have hscaled : |round period * duty - period * duty| ≤ unit * 100 := by
    rw [← sub_mul, abs_mul, abs_of_nonneg hduty.1]
    exact mul_le_mul (rounds_period hround hperiod) hduty.2 hduty.1 hunit
  obtain ⟨hscaled₁, hscaled₂⟩ := abs_le.mp hscaled
  have hshare₁ := mul_nonneg hperiod hduty.1
  have hshare₂ := mul_le_mul_of_nonneg_left hduty.2 hperiod
  generalize round period * duty = scaled at *
  have hproduct : |round scaled - scaled| ≤ 200 * unit := by
    refine hround 200 scaled (by norm_num) (by norm_num) (abs_le.mpr ⟨?_, ?_⟩) <;> linarith
  obtain ⟨hproduct₁, hproduct₂⟩ := abs_le.mp hproduct
  generalize round scaled = product at *
  have hquotient : |round (product / 100) - product / 100| ≤ 2 * unit := by
    refine hround 2 _ (by norm_num) (by norm_num) (abs_le.mpr ⟨?_, ?_⟩) <;> linarith
  obtain ⟨hquotient₁, hquotient₂⟩ := abs_le.mp hquotient
  exact abs_le.mpr ⟨by linarith, by linarith⟩

/-- And so is the difference. -/
theorem rounds_low (hround : RoundsIn round period unit) {high high' : ℚ}
    (hhigh : 0 ≤ high ∧ high ≤ period) (hunit : unit ≤ period * (1 / 100))
    (hclose : |high' - high| ≤ 5 * unit) :
    |round (round period - high') - (period - high)| ≤ 8 * unit := by
  have hperiod : 0 ≤ period := by linarith
  obtain ⟨hperiod₁, hperiod₂⟩ := abs_le.mp (rounds_period hround hperiod)
  obtain ⟨hclose₁, hclose₂⟩ := abs_le.mp hclose
  have hdifference : |round (round period - high') - (round period - high')| ≤ 2 * unit := by
    refine hround 2 _ (by norm_num) (by norm_num) (abs_le.mpr ⟨?_, ?_⟩) <;> linarith
  obtain ⟨hdifference₁, hdifference₂⟩ := abs_le.mp hdifference
  exact abs_le.mpr ⟨by linarith, by linarith⟩

end

/-- The times differ by `error` at most. -/
structure CloseTimes (error : ℚ) (t t' : PwmTimes) : Prop where
  period : |t'.periodUs - t.periodUs| ≤ error
  high : |t'.highTimeUs - t.highTimeUs| ≤ error
  low : |t'.lowTimeUs - t.lowTimeUs| ≤ error

section

variable {pwm : SoftPwm} {i : Nat}

/-- The periods of `int` frequencies are far from the ends of the doubles. -/
theorem roundsIn_doubleOf (hvalid : pwm.Valid i) (hint : pwm.frequency < 2 ^ 31) :
    RoundsIn doubleOf (pwmTimes pwm).periodUs ((pwmTimes pwm).periodUs * 2 ^ (-52 : ℤ)) := by
  intro k q hk hk' hq
  have hfrequency : (1 : ℚ) ≤ pwm.frequency := by exact_mod_cast hvalid.frequency
  have hfrequency' : (pwm.frequency : ℚ) ≤ 2 ^ 31 := by exact_mod_cast hint.le
  have hperiod : (pwmTimes pwm).periodUs = 1000000 / pwm.frequency := rfl
  have hle : (pwmTimes pwm).periodUs ≤ 1000000 := by
    rw [hperiod]
    exact div_le_self (by norm_num) hfrequency
  have hge : (1 : ℚ) / 2 ^ 31 ≤ (pwmTimes pwm).periodUs := by
    rw [hperiod]
    exact div_le_div₀ (by norm_num) (by norm_num) (by linarith) hfrequency'
  rw [← mul_assoc]
  apply abs_doubleOf_sub_le hq
  · have hleast : (2 : ℚ) ^ (-1022 : ℤ) ≤ 2 ^ (-31 : ℤ) :=
      zpow_le_zpow_right₀ one_le_two (by norm_num)
    have hunit : (2 : ℚ) ^ (-31 : ℤ) = 1 / 2 ^ 31 := by norm_num
    rw [hunit] at hleast
    refine (hleast.trans hge).trans (le_mul_of_one_le_left ?_ hk)
    exact (shares_pwmTimes hvalid).period.le
  · have hbound : k * (pwmTimes pwm).periodUs ≤ 1000 * 1000000 :=
      mul_le_mul hk' hle (shares_pwmTimes hvalid).period.le (by norm_num)
    have hgreatest : (2 : ℚ) ^ 30 ≤ 2 ^ 1023 := pow_le_pow_right₀ one_le_two (by norm_num)
    refine (hbound.trans ?_).trans hgreatest
    norm_num

/-- The four roundings add up to eight units of the last place of the period. -/
theorem pwmTimesDouble_close (hvalid : pwm.Valid i) (hint : pwm.frequency < 2 ^ 31) :
    CloseTimes (8 * ((pwmTimes pwm).periodUs * 2 ^ (-52 : ℤ))) (pwmTimes pwm)
      (pwmTimesDouble pwm) := by
  have hshares := shares_pwmTimes hvalid
  have hround := roundsIn_doubleOf hvalid hint
  have hperiod := hshares.period
  have hduty : (0 : ℚ) ≤ pwm.dutyCycle ∧ (pwm.dutyCycle : ℚ) ≤ 100 :=
    ⟨by exact_mod_cast hvalid.duty.1, by exact_mod_cast hvalid.duty.2⟩
  have hunit : 0 ≤ (pwmTimes pwm).periodUs * 2 ^ (-52 : ℤ) :=
    mul_nonneg hperiod.le (zpow_pos two_pos _).le
  have hunit' : (pwmTimes pwm).periodUs * 2 ^ (-52 : ℤ) ≤ (pwmTimes pwm).periodUs * (1 / 100) :=
    mul_le_mul_of_nonneg_left (by norm_num) hperiod.le
  have hhigh := rounds_high hround hduty hunit hunit'
  have hrange : 0 ≤ (pwmTimes pwm).highTimeUs ∧
      (pwmTimes pwm).highTimeUs ≤ (pwmTimes pwm).periodUs :=
    ⟨hshares.high, by linarith [hshares.sum, hshares.low]⟩
  have hlow := rounds_low hround hrange hunit' hhigh
  refine ⟨(rounds_period hround hperiod.le).trans ?_, hhigh.trans ?_, hlow⟩ <;> linarith

/-- The exact times are fractions of the frequency, and the doubles are near them. -/
theorem pwmTimesDouble_nearFraction (hvalid : pwm.Valid i) (hint : pwm.frequency < 2 ^ 31) :
    NearFraction pwm.frequency (pwmTimes pwm).periodUs (pwmTimesDouble pwm).periodUs ∧
      NearFraction pwm.frequency (pwmTimes pwm).highTimeUs (pwmTimesDouble pwm).highTimeUs ∧
      NearFraction pwm.frequency (pwmTimes pwm).lowTimeUs (pwmTimesDouble pwm).lowTimeUs := by
  have hfrequency : (0 : ℚ) < pwm.frequency := by exact_mod_cast hvalid.frequency
  have hperiod : pwm.frequency * (pwmTimes pwm).periodUs = ((1000000 : ℤ) : ℚ) := by
    push_cast
    exact mul_div_cancel₀ _ hfrequency.ne'
  have hhigh : pwm.frequency * (pwmTimes pwm).highTimeUs = ((10000 * pwm.dutyCycle : ℤ) : ℚ) := by
    have hexact : (pwmTimes pwm).highTimeUs = (pwmTimes pwm).periodUs * pwm.dutyCycle / 100 := rfl
    rw [hexact, mul_div_assoc, ← mul_assoc, hperiod]
    push_cast
    ring
  have hlow : pwm.frequency * (pwmTimes pwm).lowTimeUs =
      ((1000000 - 10000 * pwm.dutyCycle : ℤ) : ℚ) := by
    rw [eq_sub_of_add_eq' (shares_pwmTimes hvalid).sum, mul_sub, hperiod, hhigh]
    push_cast
    ring
  have hnear : ∀ q x : ℚ, |x - q| ≤ 8 * ((pwmTimes pwm).periodUs * 2 ^ (-52 : ℤ)) →
      pwm.frequency * |x - q| < 1 := by
    intro q x hx
    have hmul := mul_le_mul_of_nonneg_left hx hfrequency.le
    have htotal : pwm.frequency * (8 * ((pwmTimes pwm).periodUs * 2 ^ (-52 : ℤ))) =
        8 * (((1000000 : ℤ) : ℚ) * 2 ^ (-52 : ℤ)) := by
      rw [← hperiod]
      ring
    rw [htotal] at hmul
    refine hmul.trans_lt ?_
    norm_num
  have hclose := pwmTimesDouble_close hvalid hint
  exact ⟨⟨hvalid.frequency, ⟨_, hperiod⟩, hnear _ _ hclose.period⟩,
    ⟨hvalid.frequency, ⟨_, hhigh⟩, hnear _ _ hclose.high⟩,
    ⟨hvalid.frequency, ⟨_, hlow⟩, hnear _ _ hclose.low⟩⟩

/-- A sleep of `us'` for one of `us`: the same, or up to `k` microseconds less. -/
def NearSleep (k us us' : Int) : Prop := us' ≤ us ∧ us ≤ us' + k

/-- The times lead to the same phases, with near sleeps. -/
structure NearTimes (k : Int) (t t' : PwmTimes) : Prop where
  period : NearSleep k ⌊t.periodUs⌋ ⌊t'.periodUs⌋
  high : NearSleep k ⌊t.highTimeUs⌋ ⌊t'.highTimeUs⌋
  low : NearSleep k ⌊t.lowTimeUs⌋ ⌊t'.lowTimeUs⌋
  highPhase : t'.highTimeUs > 1 ↔ t.highTimeUs > 1
  lowPhase : t'.lowTimeUs > 1 ↔ t.lowTimeUs > 1

/-- Unless a phase has exactly the microsecond that it is compared with, the phases agree. -/
theorem nearTimes_one (hvalid : pwm.Valid i) (hint : pwm.frequency < 2 ^ 31)
    (hhigh : (pwmTimes pwm).highTimeUs ≠ 1) (hlow : (pwmTimes pwm).lowTimeUs ≠ 1) :
    NearTimes 1 (pwmTimes pwm) (pwmTimesDouble pwm) := by
  obtain ⟨hperiod', hhigh', hlow'⟩ := pwmTimesDouble_nearFraction hvalid hint
  exact ⟨⟨hperiod'.floor_le, hperiod'.floor_le_add_one⟩, ⟨hhigh'.floor_le, hhigh'.floor_le_add_one⟩,
    ⟨hlow'.floor_le, hlow'.floor_le_add_one⟩, hhigh'.one_lt_iff hhigh, hlow'.one_lt_iff hlow⟩

/-- A time that is kept when it is whole is slept in full. -/
theorem nearSleep_zero {denominator : ℤ} {us us' : ℚ} (h : NearFraction denominator us us')
    (hwhole : ∀ n : ℤ, us = n → us' = us) :
    NearSleep 0 ⌊us⌋ ⌊us'⌋ ∧ (us' > 1 ↔ us > 1) := by
  by_cases hus : (⌊us⌋ : ℚ) = us
  · rw [hwhole _ hus.symm]
    exact ⟨⟨le_rfl, by omega⟩, Iff.rfl⟩
  · have hone : us ≠ 1 := by
      rintro rfl
      simp at hus
    rw [h.floor_eq hus]
    exact ⟨⟨le_rfl, by omega⟩, h.one_lt_iff hone⟩

/-- Where the period is a whole number of microseconds, so are the whole times in doubles. -/
theorem pwmTimesDouble_whole (hvalid : pwm.Valid i) (hwhole : pwm.frequency ∣ 1000000) :
    (pwmTimesDouble pwm).periodUs = (pwmTimes pwm).periodUs ∧
      (∀ n : ℤ, (pwmTimes pwm).highTimeUs = n →
        (pwmTimesDouble pwm).highTimeUs = (pwmTimes pwm).highTimeUs) ∧
      ∀ n : ℤ, (pwmTimes pwm).lowTimeUs = n →
        (pwmTimesDouble pwm).lowTimeUs = (pwmTimes pwm).lowTimeUs := by
  obtain ⟨period, hfactor⟩ := hwhole
  have hshares := shares_pwmTimes hvalid
  have hfrequency : (0 : ℚ) < pwm.frequency := by exact_mod_cast hvalid.frequency
  have hperiod : (pwmTimes pwm).periodUs = period := by
    have hcast : (1000000 : ℚ) = pwm.frequency * period := by exact_mod_cast hfactor
    change 1000000 / (pwm.frequency : ℚ) = period
    rw [hcast, mul_div_cancel_left₀ _ hfrequency.ne']
  have hrange : 0 < period ∧ period ≤ 1000000 := by
    have hfactor' : (1000000 : ℤ) = period * pwm.frequency := hfactor.trans (mul_comm _ _)
    refine ⟨pos_of_mul_pos_left ?_ hvalid.frequency.le, Int.le_of_dvd (by norm_num) ⟨_, hfactor'⟩⟩
    rw [← hfactor']
    norm_num
  have hsmall : (pwmTimes pwm).periodUs ≤ 1000000 := by
    rw [hperiod]
    exact_mod_cast hrange.2
  have hduty : (0 : ℚ) ≤ pwm.dutyCycle := by exact_mod_cast hvalid.duty.1
  have hduty' : (pwm.dutyCycle : ℚ) ≤ 100 := by exact_mod_cast hvalid.duty.2
  have hperiod' : doubleOf (pwmTimes pwm).periodUs = (pwmTimes pwm).periodUs :=
    doubleOf_whole hperiod hshares.period.le (hsmall.trans (by norm_num))
  have hproduct : doubleOf ((pwmTimes pwm).periodUs * pwm.dutyCycle) =
      (pwmTimes pwm).periodUs * pwm.dutyCycle := by
    refine doubleOf_whole (n := period * pwm.dutyCycle) ?_ (mul_nonneg hshares.period.le hduty) ?_
    · rw [hperiod]
      push_cast
      rfl
    · exact (mul_le_mul hsmall hduty' hduty (by norm_num)).trans (by norm_num)
  have hhigh : ∀ n : ℤ, (pwmTimes pwm).highTimeUs = n →
      (pwmTimesDouble pwm).highTimeUs = (pwmTimes pwm).highTimeUs := by
    intro n hn
    have hle : (pwmTimes pwm).highTimeUs ≤ 100000000 := by linarith [hshares.sum, hshares.low]
    change doubleOf (doubleOf (doubleOf (pwmTimes pwm).periodUs * pwm.dutyCycle) / 100) = _
    rw [hperiod', hproduct]
    exact doubleOf_whole hn hshares.high hle
  refine ⟨hperiod', hhigh, fun n hn => ?_⟩
  -- a whole low time leaves a whole high time
  have hrest : (pwmTimes pwm).highTimeUs = ((period - n : ℤ) : ℚ) := by
    push_cast
    rw [← hperiod, ← hn, ← hshares.sum, add_sub_cancel_right]
  change doubleOf (doubleOf (pwmTimes pwm).periodUs - (pwmTimesDouble pwm).highTimeUs) = _
  rw [hperiod', hhigh _ hrest]
  exact doubleOf_whole hn hshares.low (by linarith [hshares.sum, hshares.high])

/-- Then nothing of the sleeps is lost. -/
theorem nearTimes_zero (hvalid : pwm.Valid i) (hint : pwm.frequency < 2 ^ 31)
    (hwhole : pwm.frequency ∣ 1000000) : NearTimes 0 (pwmTimes pwm) (pwmTimesDouble pwm) := by
  obtain ⟨-, hhigh', hlow'⟩ := pwmTimesDouble_nearFraction hvalid hint
  obtain ⟨hperiod, hhigh, hlow⟩ := pwmTimesDouble_whole hvalid hwhole
  have hnear := nearSleep_zero hhigh' hhigh
  have hnear' := nearSleep_zero hlow' hlow
  refine ⟨?_, hnear.1, hnear'.1, hnear.2, hnear'.2⟩
  rw [hperiod]
  exact ⟨le_rfl, by omega⟩

end

/-! ### The thread -/

/-- `soft_pwm_thread` with the times of its doubles. -/
def softPwmThreadDouble (pwm : SoftPwm) : SoftPwmPc → Option (SoftPwmPc × ThreadEffect)
  | .times => some (.testHigh (pwmTimesDouble pwm), .silent)
  | pc => softPwmThread pwm pc

/-- What a thread does that finds its slot like this, step after step. -/
def threadEffects (step : SoftPwm → SoftPwmPc → Option (SoftPwmPc × ThreadEffect)) :
    List SoftPwm → SoftPwmPc → List ThreadEffect
  | [], _ => []
  | pwm :: slots, pc =>
      match step pwm pc with
      | none => []
      | some (pc', e) => e :: threadEffects step slots pc'

/-- The times that the thread holds. -/
def SoftPwmPc.heldTimes : SoftPwmPc → Option PwmTimes
  | .loop | .times | .lastLow | .finished => none
  | .testHigh t | .writeHigh t | .sleepHigh t | .testLow t | .writeLow t | .sleepLow t
  | .testZero t | .writeZero t | .sleepZero t | .testFull t | .writeFull t | .sleepFull t => some t

/-- The same place with other times. -/
def SoftPwmPc.withTimes (t : PwmTimes) : SoftPwmPc → SoftPwmPc
  | .testHigh _ => .testHigh t
  | .writeHigh _ => .writeHigh t
  | .sleepHigh _ => .sleepHigh t
  | .testLow _ => .testLow t
  | .writeLow _ => .writeLow t
  | .sleepLow _ => .sleepLow t
  | .testZero _ => .testZero t
  | .writeZero _ => .writeZero t
  | .sleepZero _ => .sleepZero t
  | .testFull _ => .testFull t
  | .writeFull _ => .writeFull t
  | .sleepFull _ => .sleepFull t
  | pc => pc

/-- The threads are at the same place, with near times. -/
def NearPc (k : Int) (pc pc' : SoftPwmPc) : Prop :=
  ∃ t', pc' = pc.withTimes t' ∧ ∀ t ∈ pc.heldTimes, NearTimes k t t'

/-- The same call, or a near sleep. -/
def NearEffect (k : Int) : ThreadEffect → ThreadEffect → Prop
  | .usleep us, .usleep us' => NearSleep k us us'
  | e, e' => e = e'

section

variable {k : Int} {pwm : SoftPwm} {pc pc' : SoftPwmPc}

/-- Branches that both threads take. -/
theorem rel_ite {α β : Type} {r : α → β → Prop} {p p' : Prop} [Decidable p] [Decidable p']
    (h : p' ↔ p) {a b : Option α} {a' b' : Option β} (hthen : Option.Rel r a a')
    (helse : Option.Rel r b b') :
    Option.Rel r (if p then a else b) (if p' then a' else b') := by
  by_cases hp : p
  · rw [if_pos hp, if_pos (h.mpr hp)]
    exact hthen
  · rw [if_neg hp, if_neg (mt h.mp hp)]
    exact helse

/-- One step of the two threads on the same slot. -/
theorem softPwmThread_near (hslot : NearTimes k (pwmTimes pwm) (pwmTimesDouble pwm))
    (hpc : NearPc k pc pc') :
    Option.Rel (fun r r' => NearPc k r.1 r'.1 ∧ NearEffect k r.2 r'.2) (softPwmThread pwm pc)
      (softPwmThreadDouble pwm pc') := by
  obtain ⟨t', rfl, hnear⟩ := hpc
  have hkeep : ∀ {next : SoftPwmPc}, next.heldTimes = pc.heldTimes →
      NearPc k next (next.withTimes t') := fun heq => ⟨t', rfl, by rwa [heq]⟩
  have hdrop : ∀ {next : SoftPwmPc}, next.heldTimes = none → NearPc k next (next.withTimes t') :=
    fun heq => ⟨t', rfl, by simp [heq]⟩
  cases pc with
  | loop => exact rel_ite Iff.rfl (.some ⟨hdrop rfl, rfl⟩) (.some ⟨hdrop rfl, rfl⟩)
  | times => exact .some ⟨⟨_, rfl, fun t ht => by cases ht; exact hslot⟩, rfl⟩
  | testHigh t =>
    exact rel_ite (hnear t rfl).highPhase (.some ⟨hkeep rfl, rfl⟩) (.some ⟨hkeep rfl, rfl⟩)
  | writeHigh t => exact .some ⟨hkeep rfl, rfl⟩
  | sleepHigh t => exact .some ⟨hkeep rfl, (hnear t rfl).high⟩
  | testLow t =>
    have htest := and_congr_left fun _ : pwm.active ≠ 0 => (hnear t rfl).lowPhase
    exact rel_ite htest (.some ⟨hkeep rfl, rfl⟩) (.some ⟨hkeep rfl, rfl⟩)
  | writeLow t => exact .some ⟨hkeep rfl, rfl⟩
  | sleepLow t => exact .some ⟨hkeep rfl, (hnear t rfl).low⟩
  | testZero t => exact rel_ite Iff.rfl (.some ⟨hkeep rfl, rfl⟩) (.some ⟨hkeep rfl, rfl⟩)
  | writeZero t => exact .some ⟨hkeep rfl, rfl⟩
  | sleepZero t => exact .some ⟨hdrop rfl, (hnear t rfl).period⟩
  | testFull t => exact rel_ite Iff.rfl (.some ⟨hkeep rfl, rfl⟩) (.some ⟨hdrop rfl, rfl⟩)
  | writeFull t => exact .some ⟨hkeep rfl, rfl⟩
  | sleepFull t => exact .some ⟨hdrop rfl, (hnear t rfl).period⟩
  | lastLow => exact .some ⟨hdrop rfl, rfl⟩
  | finished => exact .none

/-- The threads on a slot that changes as it likes. -/
theorem threadEffects_near {slots : List SoftPwm}
    (hslots : ∀ pwm ∈ slots, NearTimes k (pwmTimes pwm) (pwmTimesDouble pwm))
    (hpc : NearPc k pc pc') :
    List.Forall₂ (NearEffect k) (threadEffects softPwmThread slots pc)
      (threadEffects softPwmThreadDouble slots pc') := by
  induction slots generalizing pc pc' with
  | nil => exact .nil
  | cons pwm slots ih =>
    have hstep := softPwmThread_near (hslots pwm List.mem_cons_self) hpc
    unfold threadEffects
    generalize softPwmThread pwm pc = step at hstep ⊢
    generalize softPwmThreadDouble pwm pc' = step' at hstep ⊢
    cases hstep with
    | none => exact .nil
    | some hnext =>
      exact .cons hnext.2 (ih (fun p hp => hslots p (List.mem_cons_of_mem _ hp)) hnext.1)

theorem nearEffect_zero {e e' : ThreadEffect} (h : NearEffect 0 e e') : e = e' := by
  cases e with
  | usleep us =>
    cases e' with
    | usleep us' =>
      have hus : us = us' := le_antisymm (by simpa using h.2) h.1
      rw [hus]
    | _ => exact h
  | _ => exact h

end

/-- The thread with the doubles of the source does what the thread in rationals does, whatever
becomes of its slot meanwhile: call for call, with sleeps that are the exact ones or a microsecond
less. On frequencies that divide a million it does exactly the same. -/
theorem pwm_doubles (slots : List SoftPwm)
    (hslots : ∀ pwm ∈ slots, (∃ i, pwm.Valid i) ∧ pwm.frequency < 2 ^ 31) :
    ((∀ pwm ∈ slots, (pwmTimes pwm).highTimeUs ≠ 1 ∧ (pwmTimes pwm).lowTimeUs ≠ 1) →
      List.Forall₂ (NearEffect 1) (threadEffects softPwmThread slots .loop)
        (threadEffects softPwmThreadDouble slots .loop)) ∧
    ((∀ pwm ∈ slots, pwm.frequency ∣ 1000000) →
      threadEffects softPwmThreadDouble slots .loop = threadEffects softPwmThread slots .loop) := by
  have hloop : ∀ k, NearPc k .loop .loop := fun k => ⟨⟨0, 0, 0⟩, rfl, nofun⟩
  constructor
  · intro hphases
    refine threadEffects_near (fun pwm hpwm => ?_) (hloop 1)
    obtain ⟨⟨i, hvalid⟩, hint⟩ := hslots pwm hpwm
    exact nearTimes_one hvalid hint (hphases pwm hpwm).1 (hphases pwm hpwm).2
  · intro hwhole
    have hnear : List.Forall₂ (NearEffect 0) (threadEffects softPwmThread slots .loop)
        (threadEffects softPwmThreadDouble slots .loop) := by
      refine threadEffects_near (fun pwm hpwm => ?_) (hloop 0)
      obtain ⟨⟨i, hvalid⟩, hint⟩ := hslots pwm hpwm
      exact nearTimes_zero hvalid hint (hwhole pwm hpwm)
    exact (List.forall₂_eq_eq_eq ▸ hnear.imp fun _ _ => nearEffect_zero).symm

/-- A slot of three hertz, whose period is no double. -/
def slowSlot : SoftPwm := { pin := 2, dutyCycle := 99, frequency := 3, active := 1 }

theorem slowSlot_valid : slowSlot.Valid 2 := ⟨rfl, by decide, by decide⟩

/-- There the doubles lose a microsecond of 330000. -/
theorem pwm_doubles_slow :
    List.Forall₂ (NearEffect 1) (threadEffects softPwmThread (List.replicate 5 slowSlot) .loop)
        (threadEffects softPwmThreadDouble (List.replicate 5 slowSlot) .loop) ∧
      threadEffects softPwmThread (List.replicate 5 slowSlot) .loop =
        [.silent, .silent, .silent, .system (.gpioSet 2 .dh), .usleep 330000] ∧
      threadEffects softPwmThreadDouble (List.replicate 5 slowSlot) .loop =
        [.silent, .silent, .silent, .system (.gpioSet 2 .dh), .usleep 329999] := by
  have hslots : ∀ pwm ∈ List.replicate 5 slowSlot,
      (∃ i, pwm.Valid i) ∧ pwm.frequency < 2 ^ 31 := by
    intro pwm hpwm
    rw [List.eq_of_mem_replicate hpwm]
    exact ⟨⟨2, slowSlot_valid⟩, by decide⟩
  refine ⟨(pwm_doubles _ hslots).1 fun pwm hpwm => ?_, by decide +kernel, by decide +kernel⟩
  rw [List.eq_of_mem_replicate hpwm]
  exact ⟨by decide +kernel, by decide +kernel⟩

end EmbeddedCar.Gpio
