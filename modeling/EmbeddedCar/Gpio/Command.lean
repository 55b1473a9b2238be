import EmbeddedCar.Gpio.Process

/-!
# Fetching a command

`parse_car_command` and `fetch_car_command` (`gpio_controller.c:60-135`). json-c is not part of
the repository: its functions are a parameter. `JsonC.ReadsRecords` states what the controller
relies on for the records of the server, and `JsonC.Documented` what it does with other values.
-/

namespace EmbeddedCar.Gpio

open EmbeddedCar.Text

/-- A `json_object`. -/
inductive Json where
  | null
  | boolean (value : Bool)
  | int (value : Int)
  | double (value : ℚ)
  | string (value : Bytes)
  | array (elements : List Json)
  | object (fields : List (Bytes × Json))

/-- `json_object_object_get_ex`: no value for a missing key or a value that is no object. -/
def Json.objectGetEx : Json → Bytes → Option Json
  | .object fields, key => fields.lookup key
  | _, _ => none

/-- The functions of json-c that the controller calls. -/
structure JsonC where
  /-- `json_tokener_parse`; `none` is `NULL`. -/
  tokenerParse : Bytes → Option Json
  /-- `json_object_get_string`; `none` is `NULL`. -/
  getString : Json → Option Bytes
  /-- `json_object_get_int`. -/
  getInt : Json → Int

/-- The nearest `int`. -/
def clampInt (n : Int) : Int := max (-2 ^ 31) (min (2 ^ 31 - 1) n)

/-- The integer part of a number. -/
def truncate (q : ℚ) : Int := Int.tdiv q.num q.den

/-- json-c on strings and integers, the values of a record. -/
structure JsonC.ReadsRecords (jc : JsonC) : Prop where
  getString_string : ∀ b, jc.getString (.string b) = some b
  getInt_int : ∀ n, jc.getInt (.int n) = clampInt n

/-- json-c on every value of a parsed text. A value without a number is read as 0. -/
structure JsonC.Documented (jc : JsonC) : Prop extends jc.ReadsRecords where
  getString_null : jc.getString .null = none
  getInt_double : ∀ q, jc.getInt (.double q) = clampInt (truncate q)
  getInt_string : ∀ b, jc.getInt (.string b) = clampInt ((strtoll b).getD 0)
  getInt_null : jc.getInt .null = 0
  getInt_boolean : ∀ b, jc.getInt (.boolean b) = 0
  getInt_array : ∀ l, jc.getInt (.array l) = 0
  getInt_object : ∀ l, jc.getInt (.object l) = 0

/-- json-c with a given parser and a given text for the values that are no strings. -/
def JsonC.ofParser (parse : Bytes → Option Json) (render : Json → Bytes) : JsonC where
  tokenerParse := parse
  getString
    | .null => none
    | .string b => some b
    | value => some (render value)
  getInt
    | .int n => clampInt n
    | .double q => clampInt (truncate q)
    | .string b => clampInt ((strtoll b).getD 0)
    | _ => 0

theorem JsonC.documented_ofParser (parse : Bytes → Option Json) (render : Json → Bytes) :
    (JsonC.ofParser parse render).Documented :=
  ⟨⟨fun _ => rfl, fun _ => rfl⟩, rfl, fun _ => rfl, fun _ => rfl, rfl, fun _ => rfl, fun _ => rfl,
    fun _ => rfl⟩

/-- The outcome of `parse_car_command` and of `fetch_car_command`: `-1`, or `0` with the command
filled in, or a null pointer given to `strncpy`. -/
inductive Fetch where
  | failed
  | command (cmd : CarCommand)
  | nullPointer
  deriving DecidableEq

/-- One string field of the command (`gpio_controller.c:70-76` and `86-92`); `none` is a null
pointer given to `strncpy`. -/
def parseString (jc : JsonC) (root : Json) (key : Bytes) (default : CharArray 16) :
    Option (CharArray 16) :=
  match root.objectGetEx key with
  | none => some default
  | some obj => (jc.getString obj).map strncpy16

/-- `gpio_controller.c:79-83`. -/
def parseSpeed (jc : JsonC) (root : Json) : Int :=
  match root.objectGetEx (ascii "speed") with
  | none => 0
  | some obj => jc.getInt obj

/-- `gpio_controller.c:60-96`. -/
def parseCarCommand (jc : JsonC) (text : Bytes) : Fetch :=
  match jc.tokenerParse text with
  | none => .failed
  | some root =>
      match parseString jc root (ascii "movement") stopCommand.movement with
      | none => .nullPointer
      | some movement =>
          let speed := parseSpeed jc root
          match parseString jc root (ascii "direction") stopCommand.direction with
          | none => .nullPointer
          | some direction => .command { movement, speed, direction }

/-- A run of the `wget` command: whether `popen` worked, what it wrote, and the status
`pclose` returns. -/
structure WgetRun where
  started : Bool
  output : Bytes
  status : Int
  deriving DecidableEq

/-- `gpio_controller.c:99-135`. -/
def fetchCarCommand (jc : JsonC) (run : WgetRun) : Fetch :=
  if ¬ run.started then .failed
  else
    let result :=
      if run.output = [] then .failed else parseCarCommand jc (fgetsLine 1024 run.output)
    match result with
    | .nullPointer => .nullPointer
    | result => if run.status ≠ 0 then .failed else result

end EmbeddedCar.Gpio
