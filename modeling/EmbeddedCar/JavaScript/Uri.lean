import EmbeddedCar.JavaScript.Number

/-!
# `decodeURIComponent`

The decoding of a URI component, in two passes: the escapes, and the UTF-8 they encode. A
component without escapes is its own decoding, and one with escapes gets shorter.
-/

namespace EmbeddedCar.JavaScript

/-- A code unit that stands for itself, or the octet of an escape. -/
inductive UriToken where
  | unit (c : UInt16)
  | octet (b : ℕ)
  deriving DecidableEq

/-- The escapes of a component; `none` is a `%` that two hexadecimal digits do not follow. -/
def unescape : JsString → Option (List UriToken)
  | [] => some []
  | c :: rest =>
      if c = 37 then
        match rest with
        | high :: low :: rest =>
            match digitValue high, digitValue low with
            | some h, some l => (unescape rest).map fun tokens => .octet (16 * h + l) :: tokens
            | _, _ => none
        | _ => none
      else (unescape rest).map fun tokens => .unit c :: tokens

/-- The code units of a code point. -/
def utf16 (point : ℕ) : JsString :=
  if point < 0x10000 then [UInt16.ofNat point]
  else
    [UInt16.ofNat (0xD800 + (point - 0x10000) / 1024),
      UInt16.ofNat (0xDC00 + (point - 0x10000) % 1024)]

/-- The bits of a continuation octet. -/
def continuation : UriToken → Option ℕ
  | .unit _ => none
  | .octet b => if 0x80 ≤ b ∧ b < 0xC0 then some (b - 0x80) else none

/-- The UTF-8 of the octets; `none` is a sequence that is not well formed: one that is cut, one
that is longer than it has to be, a surrogate, or a number beyond the code points. -/
def decodeOctets : List UriToken → Option JsString
  | [] => some []
  | .unit c :: rest => (decodeOctets rest).map fun s => c :: s
  | .octet b :: rest =>
      if b < 0x80 then (decodeOctets rest).map fun s => utf16 b ++ s
      else if b < 0xC2 then none
      else if b < 0xE0 then
        match rest with
        | t₁ :: rest =>
            match continuation t₁ with
            | some b₁ => (decodeOctets rest).map fun s => utf16 ((b - 0xC0) * 64 + b₁) ++ s
            | none => none
        | [] => none
      else if b < 0xF0 then
        match rest with
        | t₁ :: t₂ :: rest =>
            match continuation t₁, continuation t₂ with
            | some b₁, some b₂ =>
                let point := ((b - 0xE0) * 64 + b₁) * 64 + b₂
                if 0x800 ≤ point ∧ ¬(0xD800 ≤ point ∧ point < 0xE000) then
                  (decodeOctets rest).map fun s => utf16 point ++ s
                else none
            | _, _ => none
        | _ => none
      else
        match rest with
        | t₁ :: t₂ :: t₃ :: rest =>
            match continuation t₁, continuation t₂, continuation t₃ with
            | some b₁, some b₂, some b₃ =>
                let point := (((b - 0xF0) * 64 + b₁) * 64 + b₂) * 64 + b₃
                if 0x10000 ≤ point ∧ point < 0x110000 then
                  (decodeOctets rest).map fun s => utf16 point ++ s
                else none
            | _, _, _ => none
        | _ => none

/-- `decodeURIComponent`; `none` is a `URIError`. -/
def decodeURIComponent (s : JsString) : Option JsString := (unescape s).bind decodeOctets

example : decodeURIComponent (lit "caf%C3%A9%2Fa") = some (lit "caf" ++ [0xE9] ++ lit "/a") := by
  decide +kernel

theorem utf16_length_le (point : ℕ) : (utf16 point).length ≤ 2 := by
  unfold utf16
  split <;> simp

theorem utf16_length_of_lt {point : ℕ} (h : point < 0x10000) : (utf16 point).length = 1 := by
  unfold utf16
  rw [if_pos h]
  rfl

/-- A component without `%` has no escapes. -/
theorem unescape_of_notMem {s : JsString} (h : 37 ∉ s) : unescape s = some (s.map .unit) := by
  induction s with
  | nil => rfl
  | cons c rest ih =>
    have hc : c ≠ 37 := fun heq => h (heq ▸ List.mem_cons_self)
    have hrest := ih fun hmem => h (List.mem_cons_of_mem c hmem)
    unfold unescape
    rw [if_neg hc, hrest]
    rfl

/-- Each escape is three code units. -/
theorem unescape_length {s : JsString} {tokens : List UriToken} (h : unescape s = some tokens) :
    tokens.length ≤ s.length ∧ (37 ∈ s → tokens.length < s.length) := by
  induction s using unescape.induct generalizing tokens with
  | case1 =>
    cases h
    exact ⟨le_rfl, fun hmem => absurd hmem List.not_mem_nil⟩
  | case2 high low rest first second hlow hhigh ih =>
    unfold unescape at h
    simp only [if_true, hhigh, hlow] at h
    obtain ⟨tokens, htokens, rfl⟩ := Option.map_eq_some_iff.mp h
    have hlength := (ih htokens).1
    simp only [List.length_cons]
    omega
  | case3 high low rest hdigits =>
    exfalso
    unfold unescape at h
    simp only [if_true] at h
    cases h
  | case4 rest hshort =>
    exfalso
    unfold unescape at h
    simp only [if_true] at h
    cases h
  | case5 c rest hc ih =>
    unfold unescape at h
    rw [if_neg hc] at h
    obtain ⟨tokens, htokens, rfl⟩ := Option.map_eq_some_iff.mp h
    obtain ⟨hle, hlt⟩ := ih htokens
    refine ⟨Nat.succ_le_succ hle, fun hmem => Nat.succ_lt_succ (hlt ?_)⟩
    exact (List.mem_cons.mp hmem).resolve_left fun heq => hc heq.symm

/-- Octets do not become more code units than they are. -/
theorem decodeOctets_length {tokens : List UriToken} {s : JsString}
    (h : decodeOctets tokens = some s) : s.length ≤ tokens.length := by
  fun_induction decodeOctets tokens generalizing s with
  | case1 =>
    cases h
    exact le_rfl
  | case2 c rest ih =>
    obtain ⟨decoded, hdecoded, rfl⟩ := Option.map_eq_some_iff.mp h
    exact Nat.succ_le_succ (ih hdecoded)
  | case3 b rest hb ih =>
    obtain ⟨decoded, hdecoded, rfl⟩ := Option.map_eq_some_iff.mp h
    have hrest := ih hdecoded
    have hone : (utf16 b).length = 1 := utf16_length_of_lt (by omega)
    rw [List.length_append, List.length_cons]
    omega
  | case5 b _ _ _ t₁ rest b₁ _ ih =>
    obtain ⟨decoded, hdecoded, rfl⟩ := Option.map_eq_some_iff.mp h
    rw [List.length_append]
    refine (Nat.add_le_add (utf16_length_le _) (ih hdecoded)).trans ?_
    simp only [List.length_cons]
    omega
  | case8 b _ _ _ _ t₁ t₂ rest b₁ b₂ _ _ _ hpoint =>
    rename_i ih
    obtain ⟨decoded, hdecoded, rfl⟩ := Option.map_eq_some_iff.mp h
    rw [List.length_append]
    refine (Nat.add_le_add (utf16_length_le _) (ih hdecoded)).trans ?_
    simp only [List.length_cons]
    omega
  | case12 b _ _ _ _ t₁ t₂ t₃ rest b₁ b₂ b₃ _ _ _ _ hpoint =>
    rename_i ih
    obtain ⟨decoded, hdecoded, rfl⟩ := Option.map_eq_some_iff.mp h
    rw [List.length_append]
    refine (Nat.add_le_add (utf16_length_le _) (ih hdecoded)).trans ?_
    simp only [List.length_cons]
    omega
  | _ => cases h

/-- Code units that stand for themselves are kept. -/
theorem decodeOctets_units (s : JsString) : decodeOctets (s.map .unit) = some s := by
  induction s with
  | nil => rfl
  | cons c rest ih =>
    rw [List.map_cons, decodeOctets, ih]
    rfl

/-- A component without `%` is its own decoding. -/
theorem decodeURIComponent_of_notMem {s : JsString} (h : 37 ∉ s) :
    decodeURIComponent s = some s := by
  unfold decodeURIComponent
  rw [unescape_of_notMem h]
  exact decodeOctets_units s

/-- Decoding does not make a component longer, and escapes make it shorter. -/
theorem decodeURIComponent_length {s decoded : JsString} (h : decodeURIComponent s = some decoded) :
    decoded.length ≤ s.length ∧ (37 ∈ s → decoded.length < s.length) := by
  obtain ⟨tokens, htokens, hdecoded⟩ := Option.bind_eq_some_iff.mp h
  have hoctets := decodeOctets_length hdecoded
  obtain ⟨hle, hlt⟩ := unescape_length htokens
  refine ⟨hoctets.trans hle, fun hmem => ?_⟩
  exact Nat.lt_of_le_of_lt hoctets (hlt hmem)

end EmbeddedCar.JavaScript
