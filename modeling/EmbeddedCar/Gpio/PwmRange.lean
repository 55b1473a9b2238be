import EmbeddedCar.Gpio.HardwarePwm

/-!
# The range of the PWM arithmetic

`pwmWrite` clamps its duty cycle to 0..1024 and `pwmSetFrequency` takes any frequency. Their
products and quotients stay in range for duty cycles up to 107, which is beyond what the servo
needs, and for frequencies from 1 Hz to 1 GHz.
-/

namespace EmbeddedCar.Gpio

open EmbeddedCar.Concurrent Prog

/-- The value is one of a 32-bit signed `int`. -/
def IsInt (n : Int) : Prop := -2 ^ 31 ≤ n ∧ n < 2 ^ 31

/-- `duty_cycle` after the clamps (`gpio_lib.c:187-188`). -/
def clampedDuty (dutyCycle : Int) : Int := max 0 (min 1024 dutyCycle)

/-- The values written are in range, and nothing is without defined behaviour: a period is
positive, and a duty cycle is the exact share of 20 ms, rounded down. -/
def writesInRange (duty : Int) : Op → Prop
  | .system (.pwmPeriod _ ns) => 0 < ns
  | .system (.pwmDutyCycle _ ns) => 0 ≤ ns ∧ ns ≤ 20000000 ∧ ns = duty * 20000000 / 1024
  | .undefinedBehaviour => False
  | _ => True

/-- The arithmetic of `pwmWrite` (`gpio_lib.c:187-210`). -/
structure PwmWriteInRange (pin dutyCycle : Int) : Prop where
  product : IsInt (clampedDuty dutyCycle * 20000000)
  quotient : IsInt (Int.tdiv (clampedDuty dutyCycle * 20000000) 1024)
  writes : (pwmWrite pin dutyCycle).Uses (writesInRange (clampedDuty dutyCycle))
  monotone : ∀ dutyCycle' ≤ dutyCycle, pwmDutyNs dutyCycle' ≤ pwmDutyNs dutyCycle

/-- The arithmetic of `pwmSetFrequency` (`gpio_lib.c:231`). -/
structure PwmFrequencyInRange (pin frequency : Int) : Prop where
  quotient : IsInt (Int.tdiv 1000000000 frequency)
  writes : (pwmSetFrequency pin frequency).Uses (writesInRange 0)

theorem clampedDuty_bounds (dutyCycle : Int) :
    0 ≤ clampedDuty dutyCycle ∧ clampedDuty dutyCycle ≤ 1024 := by
  unfold clampedDuty
  omega

theorem clampedDuty_mono {dutyCycle dutyCycle' : Int} (h : dutyCycle' ≤ dutyCycle) :
    clampedDuty dutyCycle' ≤ clampedDuty dutyCycle := by
  unfold clampedDuty
  omega

/-- What `pwmWrite` does is decided by the duty it writes. -/
theorem pwmWrite_writesInRange (pin dutyCycle duty : Int) :
    (pwmWrite pin dutyCycle).Uses (writesInRange duty) ↔
      0 ≤ pwmDutyNs dutyCycle ∧ pwmDutyNs dutyCycle ≤ 20000000 ∧
        pwmDutyNs dutyCycle = duty * 20000000 / 1024 := by
  constructor
  · intro h
    exact ((h.2 0).2 0).1
  · intro h
    have hperiod : (0 : Int) < 20000000 := by decide
    exact ⟨trivial, fun _ => ⟨hperiod, fun _ => ⟨h, fun _ => ⟨trivial, fun _ => trivial⟩⟩⟩⟩

theorem pwmWriteInRange_iff (pin dutyCycle : Int) :
    PwmWriteInRange pin dutyCycle ↔ dutyCycle ≤ 107 := by
  constructor
  · intro h
    obtain ⟨-, -, hduty⟩ := (pwmWrite_writesInRange pin dutyCycle _).mp h.writes
    exact dutyCycle_le_of_le (pwmDutyNs_le dutyCycle) hduty
  · intro h
    have hbounds := clampedDuty_bounds dutyCycle
    have hclamped : clampedDuty dutyCycle ≤ 107 := by
      unfold clampedDuty
      omega
    have hduty : ∀ d ≤ (107 : Int), pwmDutyNs d = clampedDuty d * 20000000 / 1024 :=
      fun d hd => pwmDutyNs_of_le hd
    refine ⟨⟨by omega, by omega⟩, ?_, ?_, ?_⟩
    · rw [Int.tdiv_eq_ediv_of_nonneg (by omega)]
      exact ⟨by omega, by omega⟩
    · rw [pwmWrite_writesInRange, hduty _ h]
      exact ⟨by omega, by omega, rfl⟩
    · intro dutyCycle' hle
      have hmono := clampedDuty_mono hle
      rw [hduty _ h, hduty _ (by omega)]
      omega

/-- What `pwmSetFrequency` does is decided by the period it writes. -/
theorem pwmSetFrequency_writesInRange (pin frequency : Int) :
    (pwmSetFrequency pin frequency).Uses (writesInRange 0) ↔
      frequency ≠ 0 ∧ 0 < Int.tdiv 1000000000 frequency := by
  unfold pwmSetFrequency Prog.when
  split
  · next hzero =>
    constructor
    · exact fun h => absurd h.1 id
    · exact fun h => absurd hzero h.1
  · next hzero =>
    constructor
    · exact fun h => ⟨hzero, ((h.2 0).2 0).1⟩
    · exact fun h => ⟨trivial, fun _ => ⟨trivial, fun _ => ⟨h.2, fun _ => trivial⟩⟩⟩

theorem pwmFrequencyInRange_iff (pin frequency : Int) :
    PwmFrequencyInRange pin frequency ↔ 0 < frequency ∧ frequency ≤ 1000000000 := by
  constructor
  · intro h
    obtain ⟨hne, hperiod⟩ := (pwmSetFrequency_writesInRange pin frequency).mp h.writes
    have hpos : 0 < frequency := by
      apply Decidable.byContradiction
      intro hle
      have hnonpos := Int.tdiv_nonpos_of_nonneg_of_nonpos
        (by decide : (0 : Int) ≤ 1000000000) (by omega : frequency ≤ 0)
      omega
    refine ⟨hpos, ?_⟩
    rw [Int.tdiv_eq_ediv_of_nonneg (by decide)] at hperiod
    have hone : 1 ≤ 1000000000 / frequency := hperiod
    have hmul := (Int.le_ediv_iff_mul_le hpos).mp hone
    omega
  · rintro ⟨hpos, hle⟩
    have hlow : 1 ≤ 1000000000 / frequency := (Int.le_ediv_iff_mul_le hpos).mpr (by omega)
    have hhigh : 1000000000 / frequency ≤ 1000000000 :=
      Int.ediv_le_self _ (by decide)
    have hdiv : Int.tdiv 1000000000 frequency = 1000000000 / frequency :=
      Int.tdiv_eq_ediv_of_nonneg (by decide)
    constructor
    · rw [hdiv]
      exact ⟨by omega, by omega⟩
    · rw [pwmSetFrequency_writesInRange, hdiv]
      exact ⟨by omega, by omega⟩

/-- The arithmetic of `pwmWrite` stays in range exactly up to a duty cycle of 107, and that of
`pwmSetFrequency` exactly for frequencies from 1 to 1000000000. -/
theorem pwm_in_range_iff (pin dutyCycle frequency : Int) :
    (PwmWriteInRange pin dutyCycle ↔ dutyCycle ≤ 107) ∧
    (PwmFrequencyInRange pin frequency ↔ 0 < frequency ∧ frequency ≤ 1000000000) :=
  ⟨pwmWriteInRange_iff pin dutyCycle, pwmFrequencyInRange_iff pin frequency⟩

/-- The documented upper end of the duty cycle overflows, and so does not even keep to the sign;
a frequency of 0 is divided by. -/
theorem pwm_out_of_range :
    ¬ IsInt (clampedDuty 1024 * 20000000) ∧ pwmDutyNs 108 < 0 ∧
      ¬ PwmWriteInRange 12 1024 ∧ ¬ PwmFrequencyInRange 12 0 := by
  refine ⟨by simp [IsInt, clampedDuty], by decide, ?_, ?_⟩
  · intro h
    exact absurd h.product.2 (by decide)
  · intro h
    exact h.writes.1

end EmbeddedCar.Gpio
