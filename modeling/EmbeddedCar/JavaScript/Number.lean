import Mathlib.Algebra.Order.Floor.Ring
import Mathlib.Data.List.TakeWhile
import Mathlib.Data.Rat.Floor

/-!
# Numbers and strings of JavaScript

A finite Number is its exact rational value; `roundDouble` is the rounding to binary64. The
conversions between Numbers and Strings follow the abstract operations of ECMAScript. The two
zeros are one here: no operation of this development tells them apart.
-/

namespace EmbeddedCar.JavaScript

/-- A String: a sequence of UTF-16 code units. -/
abbrev JsString := List UInt16

/-- The code units of an ASCII literal. -/
def lit (s : String) : JsString := s.toList.map fun c => UInt16.ofNat c.toNat

inductive JsNum where
  | nan
  | posInf
  | negInf
  | fin (value : ℚ)
  deriving DecidableEq

namespace JsNum

/-- `Number::lessThan`, where `undefined` counts as false. -/
def lt : JsNum → JsNum → Bool
  | .nan, _ => false
  | _, .nan => false
  | .fin a, .fin b => a < b
  | .negInf, .negInf => false
  | .negInf, _ => true
  | .posInf, _ => false
  | .fin _, .posInf => true
  | .fin _, .negInf => false

/-- `x <= y`; no Number compares with NaN. -/
def le : JsNum → JsNum → Bool
  | .nan, _ => false
  | _, .nan => false
  | x, y => !lt y x

end JsNum

/-- The nearest integer, ties to even. -/
def roundHalfEven (q : ℚ) : ℤ :=
  let below := ⌊q⌋
  let rest := q - below
  if rest < 1 / 2 then below
  else if 1 / 2 < rest then below + 1
  else if below % 2 = 0 then below
  else below + 1

/-- The greatest `e` with `b ^ e ≤ q`, for a positive rational. -/
def exponentIn (b : ℕ) (q : ℚ) : ℤ :=
  let e : ℤ := (Nat.toDigits b q.num.natAbs).length - (Nat.toDigits b q.den).length
  if (b : ℚ) ^ e ≤ q then e else e - 1

/-- The binary64 Number nearest to a rational, ties to even. -/
def roundDouble (q : ℚ) : JsNum :=
  if q = 0 then .fin 0
  else
    let unit : ℚ := 2 ^ max (exponentIn 2 |q| - 52) (-1074)
    let magnitude := roundHalfEven (|q| / unit) * unit
    if (2 : ℚ) ^ 1024 ≤ magnitude then if q < 0 then .negInf else .posInf
    else .fin (if q < 0 then -magnitude else magnitude)

/-! ### `StringToNumber` -/

/-- `WhiteSpace` and `LineTerminator`. -/
def isWhiteSpace (c : UInt16) : Bool :=
  (9 ≤ c && c ≤ 13) || c = 32 || c = 0xA0 || c = 0x1680 || (0x2000 ≤ c && c ≤ 0x200A) ||
    c = 0x2028 || c = 0x2029 || c = 0x202F || c = 0x205F || c = 0x3000 || c = 0xFEFF

def trim (s : JsString) : JsString :=
  ((s.dropWhile isWhiteSpace).reverse.dropWhile isWhiteSpace).reverse

/-- The value of a digit in bases up to 16. -/
def digitValue (c : UInt16) : Option Nat :=
  if 48 ≤ c ∧ c ≤ 57 then some (c.toNat - 48)
  else if 97 ≤ c ∧ c ≤ 102 then some (c.toNat - 87)
  else if 65 ≤ c ∧ c ≤ 70 then some (c.toNat - 55)
  else none

def isDigitIn (radix : Nat) (c : UInt16) : Bool :=
  (digitValue c).any fun d => d < radix

/-- The number a sequence of digits denotes. -/
def digitsIn (radix : Nat) (digits : JsString) : Nat :=
  digits.foldl (fun value c => radix * value + (digitValue c).getD 0) 0

/-- A literal with a radix prefix; every code unit has to be a digit. -/
def nonDecimal (radix : Nat) (digits : JsString) : JsNum :=
  if digits ≠ [] ∧ digits.all (isDigitIn radix) then roundDouble (digitsIn radix digits)
  else .nan

/-- `ExponentPart`, or nothing; `none` is a text that is neither. -/
def exponentPart : JsString → Option ℤ
  | [] => some 0
  | e :: rest =>
      if e = 101 ∨ e = 69 then
        let (negative, digits) : Bool × JsString :=
          match rest with
          | 45 :: digits => (true, digits)
          | 43 :: digits => (false, digits)
          | digits => (false, digits)
        if digits ≠ [] ∧ digits.all (isDigitIn 10) then
          some (if negative then -(digitsIn 10 digits : ℤ) else digitsIn 10 digits)
        else none
      else none

/-- `StrUnsignedDecimalLiteral`, as a mathematical value. -/
def unsignedDecimal (s : JsString) : Option ℚ :=
  let whole := s.takeWhile (isDigitIn 10)
  let rest := s.dropWhile (isDigitIn 10)
  let (fraction, rest) :=
    match rest with
    | 46 :: rest => (rest.takeWhile (isDigitIn 10), rest.dropWhile (isDigitIn 10))
    | rest => ([], rest)
  if whole = [] ∧ fraction = [] then none
  else
    (exponentPart rest).map fun exponent : ℤ =>
      (digitsIn 10 (whole ++ fraction) : ℚ) * 10 ^ (exponent - (fraction.length : ℤ))

/-- `StringToNumber`. -/
def stringToNumber (s : JsString) : JsNum :=
  match trim s with
  | [] => .fin 0
  | 48 :: 120 :: digits | 48 :: 88 :: digits => nonDecimal 16 digits
  | 48 :: 111 :: digits | 48 :: 79 :: digits => nonDecimal 8 digits
  | 48 :: 98 :: digits | 48 :: 66 :: digits => nonDecimal 2 digits
  | text =>
      let (negative, body) : Bool × JsString :=
        match text with
        | 45 :: body => (true, body)
        | 43 :: body => (false, body)
        | body => (false, body)
      if body = lit "Infinity" then if negative then .negInf else .posInf
      else
        match unsignedDecimal body with
        | none => .nan
        | some value => roundDouble (if negative then -value else value)

example : stringToNumber (lit " 1e1 ") = .fin 10 := by decide +kernel

/-- `parseInt` without a radix: of the digits that a text starts with. -/
def parseInt (s : JsString) : JsNum :=
  let (negative, body) : Bool × JsString :=
    match s.dropWhile isWhiteSpace with
    | 45 :: body => (true, body)
    | 43 :: body => (false, body)
    | body => (false, body)
  let (radix, body) : ℕ × JsString :=
    match body with
    | 48 :: 120 :: body => (16, body)
    | 48 :: 88 :: body => (16, body)
    | body => (10, body)
  let digits := body.takeWhile (isDigitIn radix)
  if digits = [] then .nan
  else roundDouble (if negative then -(digitsIn radix digits : ℚ) else digitsIn radix digits)

example : parseInt (lit "8080/stream") = .fin 8080 := by decide +kernel

/-! ### `Number::toString` -/

/-- The decimal digits of a natural number. -/
def natDigits (n : Nat) : JsString := (Nat.toDigits 10 n).map fun c => UInt16.ofNat c.toNat

/-- The `n`, `k`, `s` of `Number::toString` for a positive number: the shortest decimal
`s * 10 ^ (n - k)` with `k` digits that rounds to it. -/
def shortestDecimal (q : ℚ) : ℤ × ℕ × ℕ :=
  let n := exponentIn 10 q + 1
  let attempt (k : ℕ) : ℤ × ℕ × ℕ :=
    let s := (roundHalfEven (q / 10 ^ (n - k))).toNat
    if s = 10 ^ k then (n + 1, k, 10 ^ (k - 1)) else (n, k, s)
  match (List.range' 1 17).find? fun k =>
      let (n, k, s) := attempt k
      roundDouble ((s : ℚ) * 10 ^ (n - k)) = .fin q with
  | some k => attempt k
  | none => attempt 17

/-- The text of a positive number. -/
def positiveToString (q : ℚ) : JsString :=
  let (n, k, s) := shortestDecimal q
  let digits := natDigits s
  if (k : ℤ) ≤ n ∧ n ≤ 21 then digits ++ List.replicate (n - k).toNat 48
  else if 0 < n ∧ n ≤ 21 then digits.take n.toNat ++ 46 :: digits.drop n.toNat
  else if -6 < n ∧ n ≤ 0 then 48 :: 46 :: (List.replicate (-n).toNat 48 ++ digits)
  else
    let mantissa := if k = 1 then digits else digits.take 1 ++ 46 :: digits.drop 1
    let sign : UInt16 := if 0 ≤ n - 1 then 43 else 45
    mantissa ++ 101 :: sign :: natDigits (n - 1).natAbs

/-- `Number::toString` in base 10. -/
def numberToString : JsNum → JsString
  | .nan => lit "NaN"
  | .posInf => lit "Infinity"
  | .negInf => lit "-Infinity"
  | .fin q =>
      if q = 0 then lit "0"
      else if q < 0 then 45 :: positiveToString (-q)
      else positiveToString q

example : numberToString (.fin (1 / 2)) = lit "0.5" := by decide +kernel

end EmbeddedCar.JavaScript
