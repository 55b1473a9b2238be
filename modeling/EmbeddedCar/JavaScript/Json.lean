import EmbeddedCar.JavaScript.Value
import EmbeddedCar.Text.CString

/-!
# `JSON.stringify` and UTF-8

The bytes in which `res.json` sends a value. The text of a value has no control characters, so
a reply is one line without a NUL.
-/

namespace EmbeddedCar.JavaScript

open EmbeddedCar.Text

def isHighSurrogate (c : UInt16) : Bool := 0xD800 ≤ c && c ≤ 0xDBFF

def isLowSurrogate (c : UInt16) : Bool := 0xDC00 ≤ c && c ≤ 0xDFFF

/-! ### `JSON.stringify` -/

def hexDigit (n : Nat) : UInt16 := UInt16.ofNat (if n < 10 then 48 + n else 87 + n)

/-- `UnicodeEscape`: `\u` and four digits. -/
def unicodeEscape (c : UInt16) : JsString :=
  [92, 117, hexDigit (c.toNat / 4096 % 16), hexDigit (c.toNat / 256 % 16),
    hexDigit (c.toNat / 16 % 16), hexDigit (c.toNat % 16)]

/-- One code unit in a string literal. -/
def quoteUnit (c : UInt16) : JsString :=
  if c = 8 then [92, 98]
  else if c = 9 then [92, 116]
  else if c = 10 then [92, 110]
  else if c = 12 then [92, 102]
  else if c = 13 then [92, 114]
  else if c = 34 then [92, 34]
  else if c = 92 then [92, 92]
  else if c < 32 || isHighSurrogate c || isLowSurrogate c then unicodeEscape c
  else [c]

def quoteUnits : JsString → JsString
  | [] => []
  | [c] => quoteUnit c
  | c :: d :: rest =>
      if isHighSurrogate c && isLowSurrogate d then c :: d :: quoteUnits rest
      else quoteUnit c ++ quoteUnits (d :: rest)

/-- `QuoteJSONString`. -/
def quote (s : JsString) : JsString := 34 :: (quoteUnits s ++ [34])

namespace JsVal

mutual

/-- `JSON.stringify`; `none` is `undefined`. -/
def stringify : JsVal → Option JsString
  | .undefined => none
  | .null => some (lit "null")
  | .boolean b => some (if b then lit "true" else lit "false")
  | .number (.fin q) => some (numberToString (.fin q))
  | .number _ => some (lit "null")
  | .string s => some (quote s)
  | .array elements =>
      some (91 :: (List.intercalate [44] (stringifyElements elements) ++ [93]))
  | .object properties =>
      some (123 :: (List.intercalate [44] (stringifyProperties properties) ++ [125]))

def stringifyElements : List JsVal → List JsString
  | [] => []
  | v :: vs => (stringify v).getD (lit "null") :: stringifyElements vs

/-- Properties that are `undefined` are left out. -/
def stringifyProperties : List (JsString × JsVal) → List JsString
  | [] => []
  | (key, v) :: properties =>
      match stringify v with
      | none => stringifyProperties properties
      | some text => (quote key ++ 58 :: text) :: stringifyProperties properties

end

end JsVal

/-! ### UTF-8 -/

def utf8CodePoint (n : Nat) : Bytes :=
  if n < 0x80 then [UInt8.ofNat n]
  else if n < 0x800 then [UInt8.ofNat (0xC0 + n / 64), UInt8.ofNat (0x80 + n % 64)]
  else if n < 0x10000 then
    [UInt8.ofNat (0xE0 + n / 4096), UInt8.ofNat (0x80 + n / 64 % 64), UInt8.ofNat (0x80 + n % 64)]
  else
    [UInt8.ofNat (0xF0 + n / 262144), UInt8.ofNat (0x80 + n / 4096 % 64),
      UInt8.ofNat (0x80 + n / 64 % 64), UInt8.ofNat (0x80 + n % 64)]

/-- A code unit outside a surrogate pair; a lone surrogate becomes U+FFFD. -/
def utf8Unit (c : UInt16) : Bytes :=
  if isHighSurrogate c || isLowSurrogate c then utf8CodePoint 0xFFFD else utf8CodePoint c.toNat

def utf8 : JsString → Bytes
  | [] => []
  | [c] => utf8Unit c
  | c :: d :: rest =>
      if isHighSurrogate c && isLowSurrogate d then
        utf8CodePoint (0x10000 + (c.toNat - 0xD800) * 1024 + (d.toNat - 0xDC00)) ++ utf8 rest
      else utf8Unit c ++ utf8 (d :: rest)

example : utf8 (quote (lit "a\n") ++ [0xD83D, 0xDE97]) =
    ascii "\"a\\n\"" ++ [0xF0, 0x9F, 0x9A, 0x97] := by decide

theorem utf8_ne_nil {s : JsString} (h : s ≠ []) : utf8 s ≠ [] := by
  have hcode : ∀ n, utf8CodePoint n ≠ [] := by
    intro n
    unfold utf8CodePoint
    split_ifs <;> simp
  have hunit : ∀ c, utf8Unit c ≠ [] := by
    intro c
    unfold utf8Unit
    split <;> exact hcode _
  induction s using utf8.induct with
  | case1 => exact absurd rfl h
  | case2 c => exact hunit c
  | case3 c d rest hpair =>
    rw [utf8, if_pos hpair]
    exact List.append_ne_nil_of_left_ne_nil (hcode _) _
  | case4 c d rest hpair =>
    rw [utf8, if_neg hpair]
    exact List.append_ne_nil_of_left_ne_nil (hunit c) _

/-! ### No control characters -/

/-- No control characters. -/
def Printable (s : JsString) : Prop := ∀ c ∈ s, 32 ≤ c

instance (s : JsString) : Decidable (Printable s) :=
  List.decidableBAll (fun c => 32 ≤ c) s

theorem printable_append {s t : JsString} : Printable (s ++ t) ↔ Printable s ∧ Printable t :=
  List.forall_mem_append

theorem printable_cons {c : UInt16} {s : JsString} :
    Printable (c :: s) ↔ 32 ≤ c ∧ Printable s := List.forall_mem_cons

theorem Printable.take {s : JsString} (h : Printable s) (n : Nat) : Printable (s.take n) :=
  fun c hc => h c (List.mem_of_mem_take hc)

theorem Printable.drop {s : JsString} (h : Printable s) (n : Nat) : Printable (s.drop n) :=
  fun c hc => h c (List.mem_of_mem_drop hc)

theorem printable_replicate {c : UInt16} (hc : 32 ≤ c) (n : Nat) :
    Printable (List.replicate n c) := by
  intro d hd
  rw [List.eq_of_mem_replicate hd]
  exact hc

theorem printable_intercalate {separator : JsString} (hseparator : Printable separator)
    {parts : List JsString} (hparts : ∀ s ∈ parts, Printable s) :
    Printable (List.intercalate separator parts) := by
  induction parts with
  | nil =>
    intro c hc
    simp [List.intercalate] at hc
  | cons s parts ih =>
    have hs := hparts s List.mem_cons_self
    have hrest := ih fun t ht => hparts t (List.mem_cons_of_mem s ht)
    cases parts with
    | nil => simpa [List.intercalate] using hs
    | cons t parts =>
      have hsplit : List.intercalate separator (s :: t :: parts) =
          s ++ (separator ++ List.intercalate separator (t :: parts)) := by
        simp [List.intercalate]
      rw [hsplit, printable_append, printable_append]
      exact ⟨hs, hseparator, hrest⟩

theorem printable_natDigits (n : Nat) : Printable (natDigits n) := by
  intro c hc
  obtain ⟨d, hd, rfl⟩ := List.mem_map.mp hc
  have hdigit : d.isDigit = true := Nat.isDigit_of_mem_toDigits (by decide) (by decide) hd
  simp only [Char.isDigit, Bool.and_eq_true, decide_eq_true_eq, ge_iff_le,
    UInt32.le_iff_toNat_le] at hdigit
  have hlow : 48 ≤ d.toNat := hdigit.1
  have hhigh : d.toNat ≤ 57 := hdigit.2
  rw [UInt16.le_iff_toNat_le, UInt16.toNat_ofNat', Nat.mod_eq_of_lt (by omega)]
  change 32 ≤ d.toNat
  omega

theorem printable_positiveToString (q : ℚ) : Printable (positiveToString q) := by
  unfold positiveToString
  generalize shortestDecimal q = decimal
  obtain ⟨n, k, s⟩ := decimal
  have hdigits := printable_natDigits s
  have hpoint : ∀ m, Printable ((natDigits s).take m ++ 46 :: (natDigits s).drop m) := fun m =>
    printable_append.mpr
      ⟨hdigits.take m, printable_cons.mpr ⟨by decide, hdigits.drop m⟩⟩
  simp only
  split
  · exact printable_append.mpr ⟨hdigits, printable_replicate (by decide) _⟩
  split
  · exact hpoint _
  split
  · rw [printable_cons, printable_cons, printable_append]
    exact ⟨by decide, by decide, printable_replicate (by decide) _, hdigits⟩
  · rw [printable_append, printable_cons, printable_cons]
    refine ⟨?_, by decide, ?_, printable_natDigits _⟩
    · split
      · exact hdigits
      · exact hpoint 1
    · split <;> decide

theorem printable_numberToString (n : JsNum) : Printable (numberToString n) := by
  unfold numberToString
  cases n with
  | fin q =>
    simp only
    split
    · decide
    split
    · exact printable_cons.mpr ⟨by decide, printable_positiveToString _⟩
    · exact printable_positiveToString q
  | _ => decide

theorem printable_quoteUnit (c : UInt16) : Printable (quoteUnit c) := by
  have hhex : ∀ n < 16, 32 ≤ hexDigit n := by decide
  unfold quoteUnit
  iterate 7
    split
    · decide
  split
  · unfold unicodeEscape
    simp only [printable_cons]
    refine ⟨by decide, by decide, ?_, ?_, ?_, ?_, by decide⟩ <;>
      exact hhex _ (Nat.mod_lt _ (by decide))
  · next hprint =>
    simp only [Bool.or_eq_true, decide_eq_true_eq, not_or] at hprint
    exact printable_cons.mpr ⟨UInt16.not_lt.mp hprint.1.1, by decide⟩

theorem printable_quoteUnits (s : JsString) : Printable (quoteUnits s) := by
  have hsurrogate : ∀ c : UInt16, isHighSurrogate c || isLowSurrogate c → 32 ≤ c := by
    intro c hc
    simp only [isHighSurrogate, isLowSurrogate, Bool.or_eq_true, Bool.and_eq_true,
      decide_eq_true_eq, UInt16.le_iff_toNat_le] at hc
    rw [UInt16.le_iff_toNat_le]
    have h1 : (0xD800 : UInt16).toNat = 0xD800 := rfl
    have h2 : (0xDC00 : UInt16).toNat = 0xDC00 := rfl
    have h3 : (32 : UInt16).toNat = 32 := rfl
    omega
  induction s using quoteUnits.induct with
  | case1 => decide
  | case2 c => exact printable_quoteUnit c
  | case3 c d rest hpair ih =>
    rw [quoteUnits, if_pos hpair, printable_cons, printable_cons]
    rw [Bool.and_eq_true] at hpair
    exact ⟨hsurrogate c (by simp [hpair.1]), hsurrogate d (by simp [hpair.2]), ih⟩
  | case4 c d rest hpair ih =>
    rw [quoteUnits, if_neg hpair, printable_append]
    exact ⟨printable_quoteUnit c, ih⟩

theorem printable_quote (s : JsString) : Printable (quote s) := by
  unfold quote
  rw [printable_cons, printable_append]
  exact ⟨by decide, printable_quoteUnits s, by decide⟩

namespace JsVal

mutual

theorem printable_stringify : ∀ (v : JsVal) (text : JsString),
    v.stringify = some text → Printable text
  | .undefined, _, h => by cases h
  | .null, _, h => by
    cases h
    decide
  | .boolean b, _, h => by
    cases h
    cases b <;> decide
  | .number n, _, h => by
    cases n <;> cases h
    · decide
    · decide
    · decide
    · exact printable_numberToString _
  | .string s, _, h => by
    cases h
    exact printable_quote s
  | .array elements, _, h => by
    cases h
    rw [printable_cons, printable_append]
    exact ⟨by decide,
      printable_intercalate (by decide) (printable_stringifyElements elements), by decide⟩
  | .object properties, _, h => by
    cases h
    rw [printable_cons, printable_append]
    exact ⟨by decide,
      printable_intercalate (by decide) (printable_stringifyProperties properties), by decide⟩

theorem printable_stringifyElements : ∀ (elements : List JsVal),
    ∀ text ∈ stringifyElements elements, Printable text
  | [], _, h => by cases h
  | v :: vs, text, h => by
    rcases List.mem_cons.mp h with rfl | hmem
    · cases hv : v.stringify with
      | none => decide
      | some t => exact printable_stringify v t hv
    · exact printable_stringifyElements vs text hmem

theorem printable_stringifyProperties : ∀ (properties : List (JsString × JsVal)),
    ∀ text ∈ stringifyProperties properties, Printable text
  | [], _, h => by cases h
  | (key, v) :: properties, text, h => by
    rw [stringifyProperties] at h
    cases hv : v.stringify with
    | none =>
      rw [hv] at h
      exact printable_stringifyProperties properties text h
    | some t =>
      rw [hv] at h
      rcases List.mem_cons.mp h with rfl | hmem
      · rw [printable_append, printable_cons]
        exact ⟨printable_quote key, by decide, printable_stringify v t hv⟩
      · exact printable_stringifyProperties properties text hmem

end

end JsVal

/-- The bytes of a printable code point are neither NUL nor a newline. -/
theorem utf8CodePoint_visible {n : Nat} (hlow : 32 ≤ n) (hhigh : n < 0x110000) :
    ∀ b ∈ utf8CodePoint n, b ≠ 0 ∧ b ≠ 10 := by
  have hbyte : ∀ k, 32 ≤ k → k < 256 → UInt8.ofNat k ≠ 0 ∧ UInt8.ofNat k ≠ 10 := by
    intro k hk hk'
    have htoNat : (UInt8.ofNat k).toNat = k := Nat.mod_eq_of_lt hk'
    refine ⟨fun h => ?_, fun h => ?_⟩
    · rw [h] at htoNat
      have hzero : (0 : UInt8).toNat = 0 := rfl
      omega
    · rw [h] at htoNat
      have hten : (10 : UInt8).toNat = 10 := rfl
      omega
  unfold utf8CodePoint
  intro b hb
  split at hb
  · rw [List.mem_singleton] at hb
    rw [hb]
    exact hbyte _ hlow (by omega)
  split at hb
  · simp only [List.mem_cons, List.not_mem_nil, or_false] at hb
    rcases hb with rfl | rfl <;> exact hbyte _ (by omega) (by omega)
  split at hb
  · simp only [List.mem_cons, List.not_mem_nil, or_false] at hb
    rcases hb with rfl | rfl | rfl <;> exact hbyte _ (by omega) (by omega)
  · simp only [List.mem_cons, List.not_mem_nil, or_false] at hb
    rcases hb with rfl | rfl | rfl | rfl <;> exact hbyte _ (by omega) (by omega)

theorem utf8Unit_visible {c : UInt16} (h : 32 ≤ c) : ∀ b ∈ utf8Unit c, b ≠ 0 ∧ b ≠ 10 := by
  unfold utf8Unit
  split
  · exact utf8CodePoint_visible (by decide) (by decide)
  · have hsize := c.toNat_lt
    rw [UInt16.le_iff_toNat_le] at h
    exact utf8CodePoint_visible h (by omega)

/-- The bytes of a printable text are one line without a NUL. -/
theorem utf8_visible {s : JsString} (h : Printable s) : ∀ b ∈ utf8 s, b ≠ 0 ∧ b ≠ 10 := by
  induction s using utf8.induct with
  | case1 =>
    intro b hb
    cases hb
  | case2 c => exact utf8Unit_visible (h c List.mem_cons_self)
  | case3 c d rest hpair ih =>
    rw [utf8, if_pos hpair]
    have hrest : Printable rest := (printable_cons.mp (printable_cons.mp h).2).2
    intro b hb
    rcases List.mem_append.mp hb with hb | hb
    · have hc := c.toNat_lt
      simp only [isHighSurrogate, isLowSurrogate, Bool.and_eq_true, decide_eq_true_eq,
        UInt16.le_iff_toNat_le] at hpair
      obtain ⟨⟨-, hhigh⟩, -, hlow⟩ := hpair
      change c.toNat ≤ 0xDBFF at hhigh
      change d.toNat ≤ 0xDFFF at hlow
      exact utf8CodePoint_visible (by omega) (by omega) b hb
    · exact ih hrest b hb
  | case4 c d rest hpair ih =>
    rw [utf8, if_neg hpair]
    intro b hb
    rcases List.mem_append.mp hb with hb | hb
    · exact utf8Unit_visible (h c List.mem_cons_self) b hb
    · exact ih (printable_cons.mp h).2 b hb

end EmbeddedCar.JavaScript
