import EmbeddedCar.JavaScript.Value

/-!
# The car endpoints

The handlers of `car_controller.js`. The `let` declarations of `car.js` are not visible there:
assigning `car_movement`, `car_speed` or `car_direction` creates a global, and reading one that
was never assigned throws.
-/

namespace EmbeddedCar.Backend

open EmbeddedCar.JavaScript Script

inductive GlobalName where
  | carMovement
  | carSpeed
  | carDirection
  deriving DecidableEq, Repr

/-- The name in the source. -/
def GlobalName.text : GlobalName → JsString
  | .carMovement => lit "car_movement"
  | .carSpeed => lit "car_speed"
  | .carDirection => lit "car_direction"

/-- The globals of the car endpoints; `none` is one that was never assigned. -/
structure Globals where
  carMovement : Option JsVal := none
  carSpeed : Option JsVal := none
  carDirection : Option JsVal := none

namespace Globals

def get (g : Globals) : GlobalName → Option JsVal
  | .carMovement => g.carMovement
  | .carSpeed => g.carSpeed
  | .carDirection => g.carDirection

def set (g : Globals) (value : JsVal) : GlobalName → Globals
  | .carMovement => { g with carMovement := some value }
  | .carSpeed => { g with carSpeed := some value }
  | .carDirection => { g with carDirection := some value }

end Globals

/-- Server start. -/
def initialGlobals : Globals := {}

def read (x : GlobalName) : Script Globals JsVal := fun g =>
  match g.get x with
  | some value => (.ok value, g)
  | none => (.error ⟨.referenceError, x.text ++ lit " is not defined"⟩, g)

def assign (x : GlobalName) (value : JsVal) : Script Globals Unit := fun g =>
  (.ok (), g.set value x)

/-- `res.status(status).json(body)` -/
structure Response where
  status : Nat
  body : List (JsString × JsVal)

def text (s : String) : JsVal := .string (lit s)

/-- The reply of a `catch` block. -/
def failure (error message : String) (e : JsError) : Response :=
  ⟨400, [(lit "error", text error), (lit "message", text message),
    (lit "details", .string e.message)]⟩

/-- A property of `req.body`; the handlers destructure it. -/
def destructured (body : JsVal) (key : String) : Except JsError JsVal :=
  if body.isNullish then
    .error ⟨.typeError, lit "Cannot destructure property '" ++ lit key ++
      lit "' of 'req.body' as it is " ++
      (if body.isUndefined then lit "undefined." else lit "null.")⟩
  else .ok (body.get (lit key))

/-- `speed && (speed < 0 || speed > 100)` -/
def speedOutOfRange (speed : JsVal) : Except JsError Bool :=
  if speed.truthy then do
    if ← speed.lessThan (.number (.fin 0)) then return true
    else (JsVal.number (.fin 100)).lessThan speed
  else .ok false

def invalidSpeed : Response :=
  ⟨400, [(lit "error", text "Invalid speed."),
    (lit "message", text "Speed must be between 0 and 100.")]⟩

def validMovements : List JsString := [lit "none", lit "forward", lit "backward"]

def validDirections : List JsString := [lit "none", lit "left", lit "right"]

def invalidMovement : Response :=
  ⟨400, [(lit "error", text "Invalid movement."),
    (lit "message", .string (lit "Movement must be one of: " ++
      List.intercalate (lit ", ") validMovements ++ lit "."))]⟩

def invalidDirection : Response :=
  ⟨400, [(lit "error", text "Invalid direction."),
    (lit "message", .string (lit "Direction must be one of: " ++
      List.intercalate (lit ", ") validDirections ++ lit "."))]⟩

/-- The three stored values, as `update_car_movement` and `request_car_movement` put them into
a reply. -/
def storedFields : Script Globals (List (JsString × JsVal)) := do
  let movement ← read .carMovement
  let speed ← read .carSpeed
  let direction ← read .carDirection
  return [(lit "movement", movement), (lit "speed", speed), (lit "direction", direction)]

/-- `car_controller.js:63-65`. -/
def assignUpdate (movement speed direction : JsVal) : Script Globals Unit := do
  if movement.truthy then assign .carMovement movement
  if !speed.isUndefined then assign .carSpeed speed
  if direction.truthy then assign .carDirection direction

/-- `car_controller.js:34-82`. -/
def updateCarMovement (body : JsVal) : Script Globals Response :=
  tryBlock
    (do
      let movement ← expression (destructured body "movement")
      let speed ← expression (destructured body "speed")
      let direction ← expression (destructured body "direction")
      if movement.truthy && !movement.isOneOf validMovements then return invalidMovement
      else if direction.truthy && !direction.isOneOf validDirections then return invalidDirection
      else if ← expression (speedOutOfRange speed) then return invalidSpeed
      else
        assignUpdate movement speed direction
        let fields ← storedFields
        return ⟨200, (lit "status", text "Updated.") :: fields⟩)
    fun e => return failure "Update failed." "Unable to update car state." e

/-- What distinguishes the four handlers `request_move_*`: the field they set besides the
speed, the default speed, and the texts of their replies. -/
structure MoveHandler where
  target : GlobalName
  value : String
  defaultSpeed : ℚ
  status : String
  direction : String
  error : String
  message : String

def requestMove (h : MoveHandler) (timestamp : JsString) (body : JsVal) :
    Script Globals Response :=
  tryBlock
    (do
      let speed ← expression (destructured body "speed")
      if ← expression (speedOutOfRange speed) then return invalidSpeed
      else
        let newSpeed := speed.orElse (.number (.fin h.defaultSpeed))
        assign h.target (text h.value)
        assign .carSpeed newSpeed
        return ⟨200, [(lit "status", text h.status), (lit "direction", text h.direction),
          (lit "speed", newSpeed), (lit "timestamp", .string timestamp)]⟩)
    fun e => return failure h.error h.message e

def moveForward : MoveHandler :=
  ⟨.carMovement, "forward", 50, "Moving.", "Forward.", "Movement failed.",
    "Unable to move car forward."⟩

def moveBackwards : MoveHandler :=
  ⟨.carMovement, "backward", 50, "Moving.", "Backwards.", "Movement failed.",
    "Unable to move car backwards."⟩

def moveLeft : MoveHandler :=
  ⟨.carDirection, "left", 30, "Turning.", "Left.", "Turn failed.", "Unable to turn car left."⟩

def moveRight : MoveHandler :=
  ⟨.carDirection, "right", 30, "Turning.", "Right.", "Turn failed.",
    "Unable to turn car right."⟩

/-- `car_controller.js:95-126`. -/
def requestMoveForward : JsString → JsVal → Script Globals Response := requestMove moveForward

/-- `car_controller.js:139-170`. -/
def requestmoveBackwards : JsString → JsVal → Script Globals Response :=
  requestMove moveBackwards

/-- `car_controller.js:183-204`. -/
def requestBrake (timestamp : JsString) : Script Globals Response :=
  tryBlock
    (do
      assign .carMovement (text "none")
      assign .carSpeed (.number (.fin 0))
      assign .carDirection (text "none")
      return ⟨200, [(lit "status", text "Stopped."),
        (lit "message", text "Car has been stopped successfully."),
        (lit "timestamp", .string timestamp)]⟩)
    fun e => return failure "Brake failed." "Unable to stop the car." e

/-- `car_controller.js:217-254`. -/
def requestMoveLeft : JsString → JsVal → Script Globals Response := requestMove moveLeft

/-- `car_controller.js:267-298`. -/
def requestMoveRight : JsString → JsVal → Script Globals Response := requestMove moveRight

/-- `car_controller.js:300-315`. -/
def requestCarMovement : Script Globals Response :=
  tryBlock
    (do
      let fields ← storedFields
      return ⟨200, fields⟩)
    fun e => return ⟨400, [(lit "error", text "Failed to get car movement."),
      (lit "details", .string e.message)]⟩

/-- `car_controller.js:14-32`. -/
def requestConnect (timestamp : JsString) : Script Globals Response :=
  return ⟨200, [(lit "status", text "Connected."),
    (lit "message", text "Successfully connected to car."),
    (lit "timestamp", .string timestamp)]⟩

/-- The requests the router of `car.js` dispatches, with the parsed body. -/
inductive Request where
  | connect
  | moveForward (body : JsVal)
  | moveBackwards (body : JsVal)
  | brake
  | moveLeft (body : JsVal)
  | moveRight (body : JsVal)
  | updateMovement (body : JsVal)
  | movement
  | index (uptime : JsNum)

/-- `car.js:41-48`. -/
def index (timestamp : JsString) (uptime : JsNum) : Script Globals Response :=
  return ⟨200, [(lit "status", text "OK"), (lit "message", text "Car API is running."),
    (lit "timestamp", .string timestamp), (lit "uptime", .number uptime)]⟩

/-- `car.js:25-48`, at the time of a request. -/
def respond (timestamp : JsString) : Request → Script Globals Response
  | .connect => requestConnect timestamp
  | .moveForward body => requestMoveForward timestamp body
  | .moveBackwards body => requestmoveBackwards timestamp body
  | .brake => requestBrake timestamp
  | .moveLeft body => requestMoveLeft timestamp body
  | .moveRight body => requestMoveRight timestamp body
  | .updateMovement body => updateCarMovement body
  | .movement => requestCarMovement
  | .index uptime => index timestamp uptime

/-- What the client gets; a throw that leaves the handler reaches the error middleware
(`server.js:34-40`). -/
def answer : Except JsError Response → Response
  | .ok r => r
  | .error e =>
      ⟨500, [(lit "error", text "Something went wrong!"), (lit "message", .string e.message)]⟩

end EmbeddedCar.Backend
