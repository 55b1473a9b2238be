import EmbeddedCar.Backend.CarController

/-!
# The login endpoint

The handler of `security_controller.js`. The digest of a password is a parameter: it is that of
the `crypto` module of Node.
-/

namespace EmbeddedCar.Backend

open EmbeddedCar.JavaScript

structure User where
  username : JsString
  password : JsString
  deriving DecidableEq

/-- `users.json`. -/
def users : List User :=
  [⟨lit "andres", lit "ae6d2eae592ce5d3f4140e19f5a3d1dccc28c728f1a6c26ad0156e8c6f25a404"⟩,
    ⟨lit "camanem", lit "6eef735c2ad8649623deee08b93909515cb1d8fd6bc0342dda6aefb2b3b6bcb8"⟩,
    ⟨lit "seballoll", lit "df265625c101b278a2555493a7958dfc2d1c832f41dc885e5c36b7a305ee64e9"⟩,
    ⟨lit "valerin", lit "b15040674a521e3d5eaa31e8a960f08352ff148bfc2392bebbe32f0f3c0e5d49"⟩,
    ⟨lit "jgonzalez", lit "ea5a86c3bfae9d482f4068b9bfb000cae2c8f29e7c9cec79dad2cb293075b206"⟩,
    ⟨lit "admin", lit "8c6976e5b5410415bde908bd4dee15dfb167a9c873fc4bb8a81f6f2ab448a918"⟩]

/-- The class of an object in an error of Node. A property `constructor` of a parsed object hides
the class, and its `name` is shown instead. -/
def instanceName (properties : List (JsString × JsVal)) : Except JsError JsString :=
  match properties.lookup (lit "constructor") with
  | none => .ok (lit "an instance of Object")
  | some constructor =>
      let name := constructor.get (lit "name")
      if name.truthy then name.toText.map fun s => lit "an instance of " ++ s
      else .ok (lit "[Object]")

/-- What an error of `crypto` says about an argument it does not take. -/
def received : JsVal → Except JsError JsString
  | .undefined => .ok (lit "undefined")
  | .null => .ok (lit "null")
  | .boolean b => .ok (lit (if b then "type boolean (true)" else "type boolean (false)"))
  | .number n => .ok (lit "type number (" ++ numberToString n ++ lit ")")
  | .string s => .ok (lit "type string ('" ++ s ++ lit "')")
  | .array _ => .ok (lit "an instance of Array")
  | .object properties => instanceName properties

section

variable (sha256 : JsString → JsString)

/-- `security_controller.js:60-65`; `update` takes a string, of the values of a parsed body. -/
def hashSha256 : JsVal → Except JsError JsString
  | .string s => .ok (sha256 s)
  | v => do
      let shown ← received v
      .error ⟨.typeError, lit "The \"data\" argument must be of type string or an instance " ++
        lit "of Buffer, TypedArray, or DataView. Received " ++ shown⟩

/-- `u.username === username && u.password === encryptedPassword` for a user of the table. -/
def registered (username : JsVal) (encryptedPassword : JsString) : Bool :=
  users.any fun user => username.isOneOf [user.username] && user.password = encryptedPassword

/-- `security_controller.js:17-57`. -/
def requestLogin (timestamp : JsString) (body : JsVal) : Response :=
  let attempt : Except JsError Response := do
    let username ← destructured body "username"
    let password ← destructured body "password"
    if !username.truthy || !password.truthy then
      return ⟨400, [(lit "error", text "Invalid inputs."),
        (lit "message", text "Username and password are required.")]⟩
    else
      let encryptedPassword ← hashSha256 sha256 password
      if registered username encryptedPassword then
        return ⟨200, [(lit "message", text "Login successful."),
          (lit "timestamp", .string timestamp)]⟩
      else
        return ⟨400, [(lit "error", text "Unauthorized"),
          (lit "message", text "Invalid username or password.")]⟩
  match attempt with
  | .ok r => r
  | .error e =>
      ⟨500, [(lit "error", text "Internal server error."), (lit "message", .string e.message)]⟩

/-- What `POST /security/login` can answer. A reply with 200 has a message and a time. -/
theorem requestLogin_cases (timestamp : JsString) (body : JsVal) :
    requestLogin sha256 timestamp body =
        ⟨200, [(lit "message", text "Login successful."), (lit "timestamp", .string timestamp)]⟩ ∨
      (requestLogin sha256 timestamp body).status = 400 ∨
      (requestLogin sha256 timestamp body).status = 500 := by
  unfold requestLogin
  cases hu : destructured body "username" with
  | error e => exact .inr (.inr rfl)
  | ok username =>
    cases hp : destructured body "password" with
    | error e => exact .inr (.inr rfl)
    | ok password =>
      simp only [bind, Except.bind]
      by_cases hempty : (!username.truthy || !password.truthy) = true
      · rw [if_pos hempty]
        exact .inr (.inl rfl)
      · rw [if_neg hempty]
        cases hashSha256 sha256 password with
        | error e => exact .inr (.inr rfl)
        | ok encryptedPassword =>
          cases hfound : registered username encryptedPassword with
          | true =>
            left
            simp only [hfound, if_true]
            rfl
          | false =>
            right
            left
            simp only [hfound, Bool.false_eq_true, if_false]
            rfl

end

end EmbeddedCar.Backend
