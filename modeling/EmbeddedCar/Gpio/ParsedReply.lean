import EmbeddedCar.Gpio.Command

/-!
# Replies with a null

`parse_car_command` gives the text of a field to `strncpy` without a test. json-c has a text for
every value but `null`, so a reply is parsed into a command exactly when neither text field is an
explicit `null`.
-/

namespace EmbeddedCar.Gpio

open EmbeddedCar.Text

/-- `json_object_get_string` of a value that is not `null` is the string, or the value written
as JSON. -/
def JsonC.HasText (jc : JsonC) : Prop := ∀ value, value ≠ .null → jc.getString value ≠ none

/-- The parsed reply has the field, with the value `null`. -/
def ExplicitNull (jc : JsonC) (text : Bytes) (key : String) : Prop :=
  ∃ root, jc.tokenerParse text = some root ∧ root.objectGetEx (ascii key) = some .null

/-- A NUL-terminated string of at most 15 characters. -/
def Terminated (field : CharArray 16) : Prop := 0 ∉ field.text ∧ field.text.length ≤ 15

theorem terminated (field : CharArray 16) : Terminated field :=
  ⟨field.noNul, Nat.le_of_lt_succ field.fits⟩

/-- The command that is read from a parsed reply: missing fields have their defaults. -/
structure ReadFrom (root : Json) (cmd : CarCommand) : Prop where
  movement : Terminated cmd.movement
  direction : Terminated cmd.direction
  noMovement : root.objectGetEx (ascii "movement") = none → cmd.movement.text = ascii "stop"
  noSpeed : root.objectGetEx (ascii "speed") = none → cmd.speed = 0
  noDirection : root.objectGetEx (ascii "direction") = none →
    cmd.direction.text = ascii "center"

/-- `parse_car_command` returns -1 for a malformed text, or 0 with a command, and gives no null
pointer to `strncpy`. -/
def Fetch.WellFormed (jc : JsonC) (text : Bytes) : Fetch → Prop
  | .failed => jc.tokenerParse text = none
  | .command cmd => ∃ root, jc.tokenerParse text = some root ∧ ReadFrom root cmd
  | .nullPointer => False

/-- A field is read unless it is `null`. -/
theorem parseString_eq_none_iff {jc : JsonC} (hnull : jc.getString .null = none)
    (htext : jc.HasText) (root : Json) (key : Bytes) (default : CharArray 16) :
    parseString jc root key default = none ↔ root.objectGetEx key = some .null := by
  unfold parseString
  cases hget : root.objectGetEx key with
  | none => simp
  | some value =>
    simp only [Option.map_eq_none_iff, Option.some.injEq]
    constructor
    · intro hnone
      exact Classical.byContradiction fun hne => htext value hne hnone
    · rintro rfl
      exact hnull

theorem parseString_missing {jc : JsonC} {root : Json} {key : Bytes}
    {default field : CharArray 16} (h : parseString jc root key default = some field)
    (hmissing : root.objectGetEx key = none) : field = default := by
  unfold parseString at h
  rw [hmissing] at h
  exact (Option.some.inj h).symm

theorem parseSpeed_missing {jc : JsonC} {root : Json}
    (hmissing : root.objectGetEx (ascii "speed") = none) : parseSpeed jc root = 0 := by
  unfold parseSpeed
  rw [hmissing]

/-- A reply is parsed without a null pointer exactly when neither `movement` nor `direction` is
an explicit `null`. -/
theorem parse_well_formed_iff (jc : JsonC) (hnullText : jc.getString .null = none)
    (htext : jc.HasText) (text : Bytes) :
    (parseCarCommand jc text).WellFormed jc text ↔
      ¬ ExplicitNull jc text "movement" ∧ ¬ ExplicitNull jc text "direction" := by
  unfold parseCarCommand ExplicitNull
  cases hparse : jc.tokenerParse text with
  | none => simp [Fetch.WellFormed, hparse]
  | some root =>
    have hnone := parseString_eq_none_iff hnullText htext root
    simp only [Option.some.injEq, exists_eq_left']
    cases hmovement : parseString jc root (ascii "movement") stopCommand.movement with
    | none =>
      have hnull := (hnone _ _).mp hmovement
      simp [Fetch.WellFormed, hnull]
    | some movement =>
      cases hdirection : parseString jc root (ascii "direction") stopCommand.direction with
      | none =>
        have hnull := (hnone _ _).mp hdirection
        simp [Fetch.WellFormed, hnull]
      | some direction =>
        constructor
        · rintro -
          constructor
          · intro hnull
            rw [(hnone _ _).mpr hnull] at hmovement
            cases hmovement
          · intro hnull
            rw [(hnone _ _).mpr hnull] at hdirection
            cases hdirection
        · rintro -
          refine ⟨root, hparse, terminated _, terminated _, ?_, parseSpeed_missing, ?_⟩
          · intro hmissing
            rw [parseString_missing hmovement hmissing]
            rfl
          · intro hmissing
            rw [parseString_missing hdirection hmissing]
            rfl

/-- json-c on one text. -/
def JsonC.ofText (text : Bytes) (root : Json) : JsonC :=
  .ofParser (fun t => if t = text then some root else none) fun _ => []

theorem JsonC.hasText_ofText (text : Bytes) (root : Json) : (JsonC.ofText text root).HasText := by
  intro value hne hnone
  cases value with
  | null => exact hne rfl
  | _ => cases hnone

/-- `{"movement":"forward"}` -/
def movementReply : Bytes := ascii "\x7b\"movement\":\"forward\"\x7d"

/-- A movement alone: the direction and the speed are the defaults. -/
theorem parse_well_formed_forward :
    (parseCarCommand
      (.ofText movementReply (.object [(ascii "movement", .string (ascii "forward"))]))
      movementReply).WellFormed
        (.ofText movementReply (.object [(ascii "movement", .string (ascii "forward"))]))
        movementReply := by
  apply (parse_well_formed_iff (.ofText movementReply _) rfl (JsonC.hasText_ofText _ _) _).mpr
  constructor
  · rintro ⟨root, hroot, hnull⟩
    cases hroot
    cases hnull
  · rintro ⟨root, hroot, hnull⟩
    cases hroot
    cases hnull

/-- `{"movement":null}` -/
def nullReply : Bytes := ascii "\x7b\"movement\":null\x7d"

/-- An explicit `null` reaches `strncpy`. -/
theorem null_reaches_strncpy :
    ∃ jc : JsonC, jc.Documented ∧ jc.HasText ∧ nullReply.length ≤ 1023 ∧
      parseCarCommand jc nullReply = .nullPointer ∧
      ¬ (parseCarCommand jc nullReply).WellFormed jc nullReply :=
  ⟨.ofText nullReply (.object [(ascii "movement", .null)]), JsonC.documented_ofParser _ _,
    JsonC.hasText_ofText _ _, by decide, by rfl, id⟩

end EmbeddedCar.Gpio
