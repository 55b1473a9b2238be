import EmbeddedCar.Text.CString
import Mathlib.Data.Nat.Digits.Defs
import Mathlib.Data.Nat.Digits.Lemmas

/-!
# Decimal texts

`std::to_string`, and that `strtoll` reads back what it writes.
-/

namespace EmbeddedCar.Text

/-- The code of a decimal digit. -/
def digitCode (d : ℕ) : UInt8 := UInt8.ofNat (48 + d)

def decimalNat (n : ℕ) : Bytes :=
  if n = 0 then [digitCode 0] else (Nat.digits 10 n).reverse.map digitCode

/-- `std::to_string` of an `int`. -/
def decimal (n : Int) : Bytes := if n < 0 then 45 :: decimalNat n.natAbs else decimalNat n.natAbs

example : decimal (-640) = ascii "-640" := by decide

theorem digitCode_toNat {d : ℕ} (h : d < 10) : (digitCode d).toNat = 48 + d := by
  have hmod : (48 + d) % 256 = 48 + d := Nat.mod_eq_of_lt (by omega)
  simpa [digitCode] using hmod

theorem mem_decimalNat {n : ℕ} {c : UInt8} (h : c ∈ decimalNat n) :
    ∃ d : Fin 10, c = digitCode d := by
  unfold decimalNat at h
  split at h
  · exact ⟨0, List.mem_singleton.mp h⟩
  · obtain ⟨d, hd, rfl⟩ := List.mem_map.mp h
    exact ⟨⟨d, Nat.digits_lt_base (by decide) (List.mem_reverse.mp hd)⟩, rfl⟩

/-- A digit is neither a space nor a sign. -/
theorem isDigit_of_mem_decimalNat {n : ℕ} {c : UInt8} (h : c ∈ decimalNat n) :
    isDigit c = true ∧ isSpace c = false ∧ c ≠ 45 ∧ c ≠ 43 := by
  have hall : ∀ d : Fin 10, isDigit (digitCode d) = true ∧ isSpace (digitCode d) = false ∧
      digitCode d ≠ 45 ∧ digitCode d ≠ 43 := by decide
  obtain ⟨d, rfl⟩ := mem_decimalNat h
  exact hall d

theorem decimalNat_ne_nil (n : ℕ) : decimalNat n ≠ [] := by
  unfold decimalNat
  split
  · exact List.cons_ne_nil _ _
  · next hn => simpa [Nat.digits_ne_nil_iff_ne_zero] using hn

/-- Digits from the least significant one on. -/
theorem digitsValue_reverse {digits : List ℕ} (h : ∀ d ∈ digits, d < 10) :
    digitsValue (digits.reverse.map digitCode) = Nat.ofDigits 10 digits := by
  induction digits with
  | nil => rfl
  | cons d digits ih =>
    have hd : (digitCode d).toNat = 48 + d := digitCode_toNat (h d List.mem_cons_self)
    have hrest := ih fun e he => h e (List.mem_cons_of_mem d he)
    unfold digitsValue at hrest ⊢
    rw [List.reverse_cons, List.map_append, List.foldl_append, hrest]
    simp only [List.map_cons, List.map_nil, List.foldl_cons, List.foldl_nil, hd, Nat.ofDigits_cons]
    omega

theorem digitsValue_decimalNat (n : ℕ) : digitsValue (decimalNat n) = n := by
  unfold decimalNat
  split
  · next hn =>
    subst hn
    decide
  · rw [digitsValue_reverse fun d hd => Nat.digits_lt_base (by decide) hd]
    exact Nat.ofDigits_digits 10 n

/-- `strtoll` reads the text of a number that it can represent. -/
theorem strtoll_decimal {n : Int} (h : longLongMin ≤ n ∧ n ≤ longLongMax) :
    strtoll (decimal n) = some n := by
  have hdigits : (decimalNat n.natAbs).takeWhile isDigit = decimalNat n.natAbs :=
    List.takeWhile_eq_self_iff.mpr fun c hc => (isDigit_of_mem_decimalNat hc).1
  have hvalue := digitsValue_decimalNat n.natAbs
  obtain ⟨c, rest, hcons⟩ := List.exists_cons_of_ne_nil (decimalNat_ne_nil n.natAbs)
  obtain ⟨-, hspace, hminus, hplus⟩ := isDigit_of_mem_decimalNat (n := n.natAbs) (c := c)
    (by simp [hcons])
  rw [hcons] at hdigits hvalue
  unfold decimal strtoll
  split
  · next hneg =>
    have hdash : ¬ isSpace 45 = true := by decide
    rw [hcons, List.dropWhile_cons_of_neg hdash]
    simp only [hdigits, hvalue, if_true]
    congr 1
    omega
  · next hneg =>
    rw [hcons, List.dropWhile_cons_of_neg (by simp [hspace])]
    have hclamp : max longLongMin (min longLongMax n) = n := by omega
    -- the first digit is no sign
    simpa [hminus, hplus, hdigits, hvalue, abs_of_nonneg (not_lt.mp hneg)] using hclamp

end EmbeddedCar.Text
