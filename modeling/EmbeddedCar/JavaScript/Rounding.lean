import EmbeddedCar.JavaScript.Number
import Mathlib.Data.Nat.Digits.Defs
import Mathlib.Tactic.Linarith
import Mathlib.Tactic.NormNum
import Mathlib.Tactic.Ring

/-!
# Rounding to binary64

How far `roundDouble` is from what it rounds: half a unit in the last place, which is a relative
error of `2 ^ -53` together with half of the smallest positive double. What has at most 53 binary
digits is not changed.
-/

namespace EmbeddedCar.JavaScript

/-! ### The nearest integer -/

theorem abs_roundHalfEven_sub_le (q : ℚ) : |(roundHalfEven q : ℚ) - q| ≤ 1 / 2 := by
  have hbelow := Int.floor_le q
  have habove := Int.lt_floor_add_one q
  unfold roundHalfEven
  simp only
  rw [abs_le]
  split_ifs <;> push_cast <;> constructor <;> linarith

@[simp] theorem roundHalfEven_intCast (n : ℤ) : roundHalfEven (n : ℚ) = n := by
  simp [roundHalfEven]

/-- Rounding to the multiples of a unit. -/
theorem abs_roundHalfEven_mul_sub_le (q : ℚ) {unit : ℚ} (hunit : 0 < unit) :
    |roundHalfEven (q / unit) * unit - q| ≤ unit / 2 := by
  have hscale := mul_le_mul_of_nonneg_right (abs_roundHalfEven_sub_le (q / unit)) hunit.le
  have hmul : (roundHalfEven (q / unit) : ℚ) * unit - q =
      (roundHalfEven (q / unit) - q / unit) * unit := by
    rw [sub_mul, div_mul_cancel₀ q hunit.ne']
  rw [hmul, abs_mul, abs_of_pos hunit]
  linarith

/-! ### The exponent -/

/-- A positive number lies between the powers that its digits count. -/
theorem pow_length_toDigits {b n : ℕ} (hb : 1 < b) (hn : n ≠ 0) :
    b ^ ((Nat.toDigits b n).length - 1) ≤ n ∧ n < b ^ (Nat.toDigits b n).length := by
  have hlen : 0 < (Nat.toDigits b n).length := Nat.length_toDigits_pos
  refine ⟨?_, (Nat.length_toDigits_le_iff hb hlen).mp le_rfl⟩
  by_cases hone : (Nat.toDigits b n).length - 1 = 0
  · rw [hone, pow_zero]
    omega
  · have hmore := mt (Nat.length_toDigits_le_iff hb (n := n) (Nat.pos_of_ne_zero hone)).mpr
    exact not_lt.mp (hmore (by omega))

/-- The same over the rationals, where the exponents can be subtracted. -/
theorem zpow_length_toDigits {b n : ℕ} (hb : 1 < b) (hn : n ≠ 0) :
    (b : ℚ) ^ ((Nat.toDigits b n).length - 1 : ℤ) ≤ n ∧
      (n : ℚ) < (b : ℚ) ^ ((Nat.toDigits b n).length : ℤ) := by
  have hlen : 0 < (Nat.toDigits b n).length := Nat.length_toDigits_pos
  obtain ⟨hlow, hhigh⟩ := pow_length_toDigits hb hn
  have hsub : ((Nat.toDigits b n).length - 1 : ℤ) = (((Nat.toDigits b n).length - 1 : ℕ) : ℤ) := by
    omega
  rw [hsub, zpow_natCast, zpow_natCast]
  exact ⟨by exact_mod_cast hlow, by exact_mod_cast hhigh⟩

theorem exponentIn_spec {b : ℕ} (hb : 1 < b) {q : ℚ} (hq : 0 < q) :
    (b : ℚ) ^ exponentIn b q ≤ q ∧ q < (b : ℚ) ^ (exponentIn b q + 1) := by
  have hnum : q.num.natAbs ≠ 0 := by
    have hpos := Rat.num_pos.mpr hq
    omega
  obtain ⟨hnum', hnum''⟩ := zpow_length_toDigits hb hnum
  obtain ⟨hden', hden''⟩ := zpow_length_toDigits hb q.den_ne_zero
  have hb0 : (0 : ℚ) < b := by
    have hpos : 0 < b := by omega
    exact_mod_cast hpos
  have hden0 : (0 : ℚ) < q.den := by exact_mod_cast q.den_pos
  have hmul : q * q.den = q.num.natAbs := by
    have hcast : ((q.num.natAbs : ℤ) : ℚ) = q.num := by
      rw [Int.natAbs_of_nonneg (Rat.num_pos.mpr hq).le]
    rw [Rat.mul_den_eq_num, ← hcast, Int.cast_natCast]
  unfold exponentIn
  generalize ((Nat.toDigits b q.num.natAbs).length : ℤ) = k at *
  generalize ((Nat.toDigits b q.den).length : ℤ) = l at *
  have hlow : (b : ℚ) ^ (k - l - 1) ≤ q := by
    refine le_of_mul_le_mul_right ?_ hden0
    calc (b : ℚ) ^ (k - l - 1) * q.den ≤ (b : ℚ) ^ (k - l - 1) * (b : ℚ) ^ l :=
          mul_le_mul_of_nonneg_left hden''.le (zpow_pos hb0 _).le
      _ = (b : ℚ) ^ (k - 1) := by
          rw [← zpow_add₀ hb0.ne']
          congr 1
          ring
      _ ≤ q * q.den := by
          rw [hmul]
          exact hnum'
  have hhigh : q < (b : ℚ) ^ (k - l + 1) := by
    refine lt_of_mul_lt_mul_right ?_ hden0.le
    calc q * q.den < (b : ℚ) ^ k := by
          rw [hmul]
          exact hnum''
      _ = (b : ℚ) ^ (k - l + 1) * (b : ℚ) ^ (l - 1) := by
          rw [← zpow_add₀ hb0.ne']
          congr 1
          ring
      _ ≤ (b : ℚ) ^ (k - l + 1) * q.den :=
          mul_le_mul_of_nonneg_left hden' (zpow_pos hb0 _).le
  simp only
  split
  · next hle => exact ⟨hle, hhigh⟩
  · next hle =>
    refine ⟨hlow, ?_⟩
    rw [sub_add_cancel]
    exact not_le.mp hle

/-! ### Doubles -/

theorem half_zpow (e : ℤ) : (2 : ℚ) ^ e / 2 = 2 ^ (e - 1) := by
  rw [zpow_sub_one₀ two_ne_zero, div_eq_mul_inv]

/-- A number of the range of the doubles is rounded to a finite one near it. -/
theorem roundDouble_near {q : ℚ} (hq : |q| ≤ 2 ^ 1023) :
    ∃ x, roundDouble q = .fin x ∧ |x - q| ≤ |q| * 2 ^ (-53 : ℤ) + 2 ^ (-1075 : ℤ) := by
  by_cases hzero : q = 0
  · refine ⟨0, if_pos hzero, ?_⟩
    rw [hzero]
    norm_num
  have hpos : 0 < |q| := abs_pos.mpr hzero
  obtain ⟨hlow, -⟩ := exponentIn_spec (b := 2) (by norm_num) hpos
  push_cast at hlow
  have hunit : (0 : ℚ) < 2 ^ max (exponentIn 2 |q| - 52) (-1074) := zpow_pos (by norm_num) _
  -- half a unit of a normal and of a subnormal number
  have hhalf : (2 : ℚ) ^ max (exponentIn 2 |q| - 52) (-1074) / 2 ≤
      |q| * 2 ^ (-53 : ℤ) + 2 ^ (-1075 : ℤ) := by
    rcases le_total (exponentIn 2 |q| - 52) (-1074) with hsmall | hnormal
    · rw [max_eq_right hsmall]
      have hnonneg : (0 : ℚ) ≤ |q| * 2 ^ (-53 : ℤ) :=
        mul_nonneg hpos.le (zpow_pos two_pos _).le
      have hleast : (-1074 : ℤ) - 1 = -1075 := by norm_num
      rw [half_zpow, hleast]
      exact le_add_of_nonneg_left hnonneg
    · rw [max_eq_left hnormal]
      have hscale : (2 : ℚ) ^ exponentIn 2 |q| * 2 ^ (-53 : ℤ) ≤ |q| * 2 ^ (-53 : ℤ) :=
        mul_le_mul_of_nonneg_right hlow (zpow_pos two_pos _).le
      have hleast : (0 : ℚ) < 2 ^ (-1075 : ℤ) := zpow_pos two_pos _
      have hdigits : exponentIn 2 |q| - 52 - 1 = exponentIn 2 |q| + -53 := by ring
      rw [half_zpow, hdigits, zpow_add₀ two_ne_zero]
      linarith
  have herror := (abs_roundHalfEven_mul_sub_le |q| hunit).trans hhalf
  unfold roundDouble
  simp only [if_neg hzero]
  generalize (roundHalfEven (|q| / 2 ^ max (exponentIn 2 |q| - 52) (-1074)) : ℚ) *
    2 ^ max (exponentIn 2 |q| - 52) (-1074) = magnitude at herror ⊢
  have hfinite : ¬ (2 : ℚ) ^ 1024 ≤ magnitude := by
    have hrelative : |q| * 2 ^ (-53 : ℤ) ≤ |q| * (1 / 2) :=
      mul_le_mul_of_nonneg_left (by norm_num) hpos.le
    have hleast : (2 : ℚ) ^ (-1075 : ℤ) ≤ 1 := zpow_le_one_of_nonpos₀ one_le_two (by norm_num)
    have hmagnitude : magnitude ≤ |q| + (|q| * (1 / 2) + 1) :=
      sub_le_iff_le_add'.mp ((abs_le.mp herror).2.trans (add_le_add hrelative hleast))
    have hone : (1 : ℚ) < 2 ^ 1022 := one_lt_pow₀ one_lt_two (by norm_num)
    have hrange : (2 : ℚ) ^ 1023 = 2 ^ 1022 * 2 := pow_succ 2 1022
    have hlimit : (2 : ℚ) ^ 1024 = 2 ^ 1022 * 2 * 2 := by rw [← hrange, ← pow_succ]
    rw [hrange] at hq
    rw [hlimit, not_le]
    generalize (2 : ℚ) ^ 1022 = half at hone hq ⊢
    linarith only [hmagnitude, hone, hq]
  rw [if_neg hfinite]
  split
  · next hneg =>
    refine ⟨-magnitude, rfl, ?_⟩
    rw [abs_of_neg hneg] at herror ⊢
    rwa [← abs_neg, neg_sub, sub_neg_eq_add, add_comm, ← sub_neg_eq_add]
  · next hneg =>
    refine ⟨magnitude, rfl, ?_⟩
    rwa [abs_of_nonneg (not_lt.mp hneg)] at herror ⊢

/-- An integer of less than 53 binary digits is a double. -/
theorem roundDouble_intCast {n : ℤ} (hn : |n| < 2 ^ 53) : roundDouble (n : ℚ) = .fin n := by
  by_cases hzero : (n : ℚ) = 0
  · rw [roundDouble, if_pos hzero, hzero]
  have hpos : 0 < |(n : ℚ)| := abs_pos.mpr hzero
  obtain ⟨hlow, hhigh⟩ := exponentIn_spec (b := 2) (by norm_num) hpos
  push_cast at hlow hhigh
  have hone : (1 : ℚ) ≤ |(n : ℚ)| := by
    have hne : n ≠ 0 := by exact_mod_cast hzero
    exact_mod_cast Int.one_le_abs hne
  have hrange : |(n : ℚ)| < 2 ^ (53 : ℤ) := by exact_mod_cast hn
  have hnonneg : 0 < exponentIn 2 |(n : ℚ)| + 1 := by
    refine (zpow_lt_zpow_iff_right₀ (one_lt_two : (1 : ℚ) < 2)).mp ?_
    rw [zpow_zero]
    exact hone.trans_lt hhigh
  have hdigits : exponentIn 2 |(n : ℚ)| < 53 :=
    (zpow_lt_zpow_iff_right₀ (one_lt_two : (1 : ℚ) < 2)).mp (hlow.trans_lt hrange)
  -- in units of its last place it is an integer
  obtain ⟨k, hk⟩ : ∃ k : ℕ, max (exponentIn 2 |(n : ℚ)| - 52) (-1074) = -(k : ℤ) :=
    ⟨(52 - exponentIn 2 |(n : ℚ)|).toNat, by omega⟩
  have hunits : |(n : ℚ)| / 2 ^ (-(k : ℤ)) = ((|n| * 2 ^ k : ℤ) : ℚ) := by
    rw [zpow_neg, div_inv_eq_mul, zpow_natCast]
    push_cast
    rfl
  have hmagnitude : roundHalfEven (|(n : ℚ)| / 2 ^ (-(k : ℤ))) * (2 : ℚ) ^ (-(k : ℤ)) =
      |(n : ℚ)| := by
    rw [hunits, roundHalfEven_intCast, ← hunits]
    exact div_mul_cancel₀ _ (zpow_pos two_pos _).ne'
  have hfinite : ¬ (2 : ℚ) ^ 1024 ≤ |(n : ℚ)| := by
    rw [not_le]
    refine hrange.trans_le ?_
    rw [← zpow_natCast]
    exact zpow_le_zpow_right₀ one_le_two (by norm_num)
  unfold roundDouble
  simp only [if_neg hzero, hk, hmagnitude, if_neg hfinite]
  split
  · next hneg => rw [abs_of_neg hneg, neg_neg]
  · next hneg => rw [abs_of_nonneg (not_lt.mp hneg)]

/-! ### Near a fraction -/

/-- `x` is nearer to the fraction `q` than two fractions of its denominator are to each other. -/
structure NearFraction (denominator : ℤ) (q x : ℚ) : Prop where
  pos : 0 < denominator
  whole : ∃ n : ℤ, denominator * q = n
  near : denominator * |x - q| < 1

namespace NearFraction

variable {denominator : ℤ} {q x : ℚ}

/-- Rounding does not lift a fraction to the next integer. -/
theorem le_of_le (h : NearFraction denominator q x) {m : ℤ} (hm : (m : ℚ) ≤ x) : (m : ℚ) ≤ q := by
  obtain ⟨n, hn⟩ := h.whole
  have hpos : (0 : ℚ) < denominator := by exact_mod_cast h.pos
  have hx : denominator * (x - q) < 1 :=
    (mul_le_mul_of_nonneg_left (le_abs_self _) hpos.le).trans_lt h.near
  have hmul := mul_le_mul_of_nonneg_left hm hpos.le
  have hlt : denominator * m < n + 1 := by
    have hcast : (denominator * m : ℚ) < n + 1 := by linarith
    exact_mod_cast hcast
  have hle : (denominator * m : ℚ) ≤ denominator * q := by
    rw [hn]
    exact_mod_cast Int.lt_add_one_iff.mp hlt
  exact le_of_mul_le_mul_left hle hpos

/-- Nor does it take it below the integer under it. -/
theorem lt_of_lt (h : NearFraction denominator q x) {m : ℤ} (hm : (m : ℚ) < q) : (m : ℚ) < x := by
  obtain ⟨n, hn⟩ := h.whole
  have hpos : (0 : ℚ) < denominator := by exact_mod_cast h.pos
  have hx : denominator * (q - x) < 1 := by
    rw [← neg_sub]
    exact (mul_le_mul_of_nonneg_left (neg_le_abs _) hpos.le).trans_lt h.near
  have hmul := mul_lt_mul_of_pos_left hm hpos
  have hle : denominator * m + 1 ≤ n := by
    rw [hn] at hmul
    exact_mod_cast hmul
  have hle' : (denominator * m + 1 : ℚ) ≤ denominator * q := by
    rw [hn]
    exact_mod_cast hle
  refine lt_of_mul_lt_mul_left ?_ hpos.le
  linarith

theorem floor_le (h : NearFraction denominator q x) : ⌊x⌋ ≤ ⌊q⌋ :=
  Int.le_floor.mpr (h.le_of_le (Int.floor_le x))

theorem floor_le_add_one (h : NearFraction denominator q x) : ⌊q⌋ ≤ ⌊x⌋ + 1 := by
  have hbelow : ((⌊q⌋ - 1 : ℤ) : ℚ) < q := by
    push_cast
    linarith [Int.floor_le q]
  have hle := Int.le_floor.mpr (h.lt_of_lt hbelow).le
  omega

/-- A fraction that is no integer keeps its integral part. -/
theorem floor_eq (h : NearFraction denominator q x) (hq : (⌊q⌋ : ℚ) ≠ q) : ⌊x⌋ = ⌊q⌋ := by
  have hbelow : (⌊q⌋ : ℚ) < q := lt_of_le_of_ne (Int.floor_le q) hq
  exact le_antisymm h.floor_le (Int.le_floor.mpr (h.lt_of_lt hbelow).le)

theorem one_lt_iff (h : NearFraction denominator q x) (hq : q ≠ 1) : 1 < x ↔ 1 < q := by
  constructor
  · intro hx
    have hle : ((1 : ℤ) : ℚ) ≤ q := h.le_of_le (by exact_mod_cast hx.le)
    exact lt_of_le_of_ne (by exact_mod_cast hle) hq.symm
  · intro hlt
    have hx : ((1 : ℤ) : ℚ) < x := h.lt_of_lt (by exact_mod_cast hlt)
    exact_mod_cast hx

end NearFraction

end EmbeddedCar.JavaScript
