import Mathlib.Data.List.TakeWhile

/-!
# C strings

Bytes, NUL-terminated strings in fixed arrays of `char`, and the functions of the C library
that read and write them (`strncpy`, `strcmp`, `fgets`, `strtoll`).
-/

namespace EmbeddedCar.Text

abbrev Bytes := List UInt8

/-- The bytes of an ASCII literal. -/
def ascii (s : String) : Bytes := s.toList.map fun c => UInt8.ofNat c.toNat

/-- The string a pointer to these bytes denotes: it ends before the first NUL. -/
def cstring (b : Bytes) : Bytes := b.takeWhile (· ≠ 0)

theorem zero_notMem_cstring (b : Bytes) : 0 ∉ cstring b := by
  intro h
  simpa using List.mem_takeWhile_imp h

/-- The contents of a `char[size]` that holds a NUL-terminated string. -/
structure CharArray (size : Nat) where
  text : Bytes
  noNul : 0 ∉ text
  fits : text.length < size
  deriving DecidableEq

theorem CharArray.ext_text {size : Nat} {a b : CharArray size} (h : a.text = b.text) : a = b := by
  cases a
  cases b
  cases h
  rfl

/-- `strncpy(dst, src, sizeof(dst) - 1)` followed by `dst[sizeof(dst) - 1] = '\0'`. -/
def strncpy (size : Nat) (src : Bytes) (h : 0 < size) : CharArray size where
  text := (cstring src).take (size - 1)
  noNul := fun hmem => zero_notMem_cstring src (List.mem_of_mem_take hmem)
  fits := by
    rw [List.length_take]
    omega

/-- `snprintf(dst, size, ...)` with this formatted text. -/
def snprintf (size : Nat) (formatted : Bytes) (h : 0 < size) : CharArray size :=
  strncpy size formatted h

/-- A text that fits is not cut. -/
theorem snprintf_text {size : Nat} {formatted : Bytes} {h : 0 < size} (hnul : 0 ∉ formatted)
    (hfits : formatted.length < size) : (snprintf size formatted h).text = formatted := by
  have hall : cstring formatted = formatted := by
    unfold cstring
    rw [List.takeWhile_eq_self_iff]
    intro c hc
    have hne : c ≠ 0 := fun hzero => hnul (hzero ▸ hc)
    simpa using hne
  change (cstring formatted).take (size - 1) = formatted
  rw [hall]
  exact List.take_of_length_le (by omega)

/-- `strcmp(a, b) == 0`. -/
def strcmpEq (a b : Bytes) : Bool := a = b

/-- A string shorter than the array compares with a truncated copy as with the original. -/
theorem strncpy_text_eq_iff {size : Nat} {h : 0 < size} {src lit : Bytes}
    (hlit : lit.length + 1 < size) :
    (strncpy size src h).text = lit ↔ cstring src = lit := by
  constructor
  · intro heq
    have hlen : ((cstring src).take (size - 1)).length = lit.length := congrArg List.length heq
    rw [List.length_take] at hlen
    have hshort : (cstring src).length ≤ size - 1 := by omega
    rw [← heq]
    exact (List.take_of_length_le hshort).symm
  · intro heq
    change (cstring src).take (size - 1) = lit
    rw [heq]
    exact List.take_of_length_le (by omega)

/-- What `fgets(buffer, size, fp)` and `buffer[strcspn(buffer, "\n")] = 0` leave of the output:
at most `size - 1` bytes of its first line, without the newline. -/
def fgetsLine (size : Nat) (output : Bytes) : Bytes :=
  cstring ((output.take (size - 1)).takeWhile (· ≠ 10))

/-- Output that is one line without a NUL is read up to the size of the buffer. -/
theorem fgetsLine_of_visible {output : Bytes} (h : ∀ b ∈ output, b ≠ 0 ∧ b ≠ 10) (size : Nat) :
    fgetsLine size output = output.take (size - 1) := by
  have hline : (output.take (size - 1)).takeWhile (· ≠ 10) = output.take (size - 1) := by
    rw [List.takeWhile_eq_self_iff]
    intro b hb
    simpa using (h b (List.mem_of_mem_take hb)).2
  unfold fgetsLine cstring
  rw [hline, List.takeWhile_eq_self_iff]
  intro b hb
  simpa using (h b (List.mem_of_mem_take hb)).1

/-- `isspace` in the C locale. -/
def isSpace (c : UInt8) : Bool := c = 32 || (9 ≤ c && c ≤ 13)

/-- `isdigit`. -/
def isDigit (c : UInt8) : Bool := 48 ≤ c && c ≤ 57

/-- The number a sequence of decimal digits denotes. -/
def digitsValue (digits : Bytes) : Nat :=
  digits.foldl (fun value c => 10 * value + (c.toNat - 48)) 0

def longLongMin : Int := -9223372036854775808

def longLongMax : Int := 9223372036854775807

/-- `strtoll(s, &end, 10)`: the value of the longest decimal prefix, saturated at the ends of
`long long`; `none` is `end == s`, a string without such a prefix. -/
def strtoll (s : Bytes) : Option Int :=
  let body := s.dropWhile isSpace
  let (negative, rest) :=
    match body with
    | 45 :: rest => (true, rest)
    | 43 :: rest => (false, rest)
    | _ => (false, body)
  match rest.takeWhile isDigit with
  | [] => none
  | digits =>
      let value : Int := digitsValue digits
      let signed := if negative then -value else value
      some (max longLongMin (min longLongMax signed))

example : strtoll (ascii " -12abc") = some (-12) := by decide

end EmbeddedCar.Text
