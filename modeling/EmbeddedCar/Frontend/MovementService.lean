import EmbeddedCar.Frontend.Dashboard
import EmbeddedCar.Frontend.Observable

/-!
# The movement service

The methods of `movement.service.ts` that send a request. `tap` looks at the body of the reply,
and `catchError` puts a value in the place of an error, so a subscriber of a method is never
notified of one.
-/

namespace EmbeddedCar.Frontend

open EmbeddedCar.JavaScript Script

/-- `movement.service.ts:30-36`. -/
structure CarStatus where
  isConnected : Bool
  currentDirection : JsVal
  currentSpeed : JsVal
  vehicleStatus : JsVal
  lastUpdate : JsVal

/-- `movement.service.ts:44-50`, for a service that is created at a time. -/
def initialCarStatus (now : JsString) : CarStatus where
  isConnected := false
  currentDirection := .string (lit "Detenido")
  currentSpeed := .number (.fin 0)
  vehicleStatus := .string (lit "Detenido")
  lastUpdate := .string now

/-- `movement.service.ts:310-338`. -/
def handleError (now : JsString) (result : Option JsVal) (failure : Failure)
    (status : CarStatus) : JsVal × CarStatus :=
  let status :=
    if failure.status = some 0 ∨ failure.status = some 500 then
      { status with
        isConnected := false
        vehicleStatus := .string (lit "Error de conexión")
        lastUpdate := .string now }
    else status
  match result with
  | some result => (result, status)
  | none =>
      (.object [(lit "status", .string (lit "error")),
        (lit "message", (JsVal.string failure.message).orElse
          (.string (lit "Unknown error occurred"))),
        (lit "timestamp", .string now)], status)

/-- `movement.service.ts:303-305`. -/
def updateCarStatus (status : CarStatus) : Script CarStatus Unit := fun _ => (.ok (), status)

/-- `if (response.status === word) { … }` -/
def onStatus (word : String) (response : JsVal) (update : Script CarStatus Unit) :
    Script CarStatus Unit := do
  let status ← expression (member response "status")
  if status.isOneOf [lit word] then update

/-! ### The callbacks of `tap` -/

/-- `map[key] || other`; no prototype has a property that is asked for. -/
def lookupOr (map : List (String × String)) (key other : JsVal) : Except JsError JsVal :=
  key.toText.map fun text =>
    match map.find? fun entry => lit entry.1 = text with
    | some entry => .string (lit entry.2)
    | none => other

/-- `movement.service.ts:118-125`. -/
def mapDirectionToDisplay (direction : JsVal) : Except JsError JsVal :=
  lookupOr [("none", "Sin dirección"), ("left", "Izquierda"), ("right", "Derecha")] direction
    direction

/-- `movement.service.ts:130-137`. -/
def mapMovementToStatus (movement : JsVal) : Except JsError JsVal :=
  lookupOr [("none", "Detenido"), ("forward", "Adelante"), ("backward", "Atrás")] movement
    (.string (lit "Moviendo"))

/-- `movement.service.ts:68-78`. -/
def connected (response : JsVal) : Script CarStatus Unit :=
  onStatus "connected" response
    (updateCarStatus
      { isConnected := true
        currentDirection := .string (lit "Detenido")
        currentSpeed := .number (.fin 0)
        vehicleStatus := .string (lit "Conectado")
        lastUpdate := response.get (lit "timestamp") })

/-- `movement.service.ts:98-110`. -/
def updated (now : JsString) (movement : JsString) (speed : JsNum) (direction : JsString)
    (response : JsVal) : Script CarStatus Unit :=
  onStatus "updated" response
    (do
      let currentDirection ← expression
        (mapDirectionToDisplay ((response.get (lit "direction")).orElse (.string direction)))
      let vehicleStatus ← expression
        (mapMovementToStatus ((response.get (lit "movement")).orElse (.string movement)))
      updateCarStatus
        { isConnected := true
          currentDirection := currentDirection
          currentSpeed := (response.get (lit "speed")).orElse (.number speed)
          vehicleStatus := vehicleStatus
          lastUpdate := (response.get (lit "timestamp")).orElse (.string now) })

/-- What the callbacks of `moveForward`, `moveBackward`, `moveLeft` and `moveRight` differ in. -/
structure Moved where
  word : String
  currentDirection : String
  vehicleStatus : String

def Moved.callback (m : Moved) (speed : JsNum) (response : JsVal) : Script CarStatus Unit :=
  onStatus m.word response
    (updateCarStatus
      { isConnected := true
        currentDirection := .string (lit m.currentDirection)
        currentSpeed := (response.get (lit "speed")).orElse (.number speed)
        vehicleStatus := .string (lit m.vehicleStatus)
        lastUpdate := response.get (lit "timestamp") })

/-- `movement.service.ts:147-157`. -/
def movedForward : Moved := ⟨"moving", "Adelante", "Moviendo"⟩

/-- `movement.service.ts:170-180`. -/
def movedBackward : Moved := ⟨"moving", "Atrás", "Moviendo"⟩

/-- `movement.service.ts:193-203`. -/
def turnedLeft : Moved := ⟨"turning", "Izquierda", "Girando"⟩

/-- `movement.service.ts:216-226`. -/
def turnedRight : Moved := ⟨"turning", "Derecha", "Girando"⟩

/-- `movement.service.ts:237-247`. -/
def stopped (response : JsVal) : Script CarStatus Unit :=
  onStatus "stopped" response
    (updateCarStatus
      { isConnected := true
        currentDirection := .string (lit "Detenido")
        currentSpeed := .number (.fin 0)
        vehicleStatus := .string (lit "Detenido")
        lastUpdate := response.get (lit "timestamp") })

/-! ### The methods -/

/-- A call of a method; an optional argument may be left out. -/
inductive Call where
  | connectToCar
  | updateCarMovement (movement : JsString) (speed : JsNum) (direction : JsString)
  | moveForward (speed duration : Option JsNum)
  | moveBackward (speed duration : Option JsNum)
  | moveLeft (angle speed : Option JsNum)
  | moveRight (angle speed : Option JsNum)
  | stopCar
  deriving DecidableEq

/-- A Number in a JSON text. -/
def jsonNumber : JsNum → JsVal
  | .fin value => .number (.fin value)
  | _ => .null

/-- `{ key: value }` in a JSON text, which has no undefined property. -/
def jsonField (key : String) : Option JsNum → List (JsString × JsVal)
  | some value => [(lit key, jsonNumber value)]
  | none => []

namespace Call

/-- The path after `API_BASE_URL`. -/
def path : Call → String
  | .connectToCar => "/connect"
  | .updateCarMovement _ _ _ => "/update_movement"
  | .moveForward _ _ => "/move_forward"
  | .moveBackward _ _ => "/move_backwards"
  | .moveLeft _ _ => "/move_left"
  | .moveRight _ _ => "/move_right"
  | .stopCar => "/brake"

/-- The body as the backend parses it. -/
def body : Call → JsVal
  | .connectToCar => .object []
  | .updateCarMovement movement speed direction =>
      .object [(lit "movement", .string movement), (lit "speed", jsonNumber speed),
        (lit "direction", .string direction)]
  | .moveForward speed duration =>
      .object (jsonField "speed" (speed.getD (.fin 50)) ++ jsonField "duration" duration)
  | .moveBackward speed duration =>
      .object (jsonField "speed" (speed.getD (.fin 50)) ++ jsonField "duration" duration)
  | .moveLeft angle speed =>
      .object (jsonField "angle" (angle.getD (.fin 45)) ++
        jsonField "speed" (speed.getD (.fin 30)))
  | .moveRight angle speed =>
      .object (jsonField "angle" (angle.getD (.fin 45)) ++
        jsonField "speed" (speed.getD (.fin 30)))
  | .stopCar => .object []

/-- What `tap` does with the reply. -/
def callback (now : JsString) : Call → JsVal → Script CarStatus Unit
  | .connectToCar => connected
  | .updateCarMovement movement speed direction => updated now movement speed direction
  | .moveForward speed _ => movedForward.callback (speed.getD (.fin 50))
  | .moveBackward speed _ => movedBackward.callback (speed.getD (.fin 50))
  | .moveLeft _ speed => turnedLeft.callback (speed.getD (.fin 30))
  | .moveRight _ speed => turnedRight.callback (speed.getD (.fin 30))
  | .stopCar => stopped

/-- The value that `handleError` is given for the subscriber. -/
def result (now : JsString) : Call → Option JsVal
  | .connectToCar =>
      some (.object [(lit "status", .string (lit "error")),
        (lit "message", .string (lit "Failed to connect to car")),
        (lit "timestamp", .string now), (lit "car_id", .string [])])
  | _ => none

/-- What a subscriber of the method is notified of when the request emits, and the status then. -/
def receive (now : JsString) (call : Call) (emission : Emission JsVal) (status : CarStatus) :
    Emission JsVal × CarStatus :=
  let (emission, status) := emission.tap (call.callback now) status
  emission.catchError (handleError now (call.result now)) status

end Call

/-! ### The other methods -/

/-- `movement.service.ts:258-268`. -/
def checked (response : JsVal) : Script CarStatus Unit :=
  onStatus "OK" response fun status =>
    (.ok (), { status with isConnected := true, lastUpdate := response.get (lit "timestamp") })

/-- What a subscriber of `checkCarStatus` (`movement.service.ts:255-271`) is notified of. -/
def receiveCheck (now : JsString) (emission : Emission JsVal) (status : CarStatus) :
    Emission JsVal × CarStatus :=
  let (emission, status) := emission.tap checked status
  emission.catchError (handleError now none) status

/-- `movement.service.ts:290-298`. -/
def disconnectCar (now : JsString) (_ : CarStatus) : CarStatus where
  isConnected := false
  currentDirection := .string (lit "Detenido")
  currentSpeed := .number (.fin 0)
  vehicleStatus := .string (lit "Desconectado")
  lastUpdate := .string now

/-- `movement.service.ts:343-345`. -/
def validateSpeed (speed : JsNum) : Bool := JsNum.le (.fin 0) speed && speed.le (.fin 100)

/-- `movement.service.ts:350-352`. -/
def validateAngle (angle : JsNum) : Bool := JsNum.le (.fin 0) angle && angle.le (.fin 90)

/-- What a method with validation returns: a reply of its own, or the call it makes. -/
abbrev Validated := JsVal ⊕ Call

def invalid (now : JsString) (message : String) : JsVal :=
  .object [(lit "status", .string (lit "error")), (lit "message", .string (lit message)),
    (lit "timestamp", .string now)]

/-- `movement.service.ts:357-366`. -/
def moveForwardWithValidation (now : JsString) (speed : JsNum) (duration : Option JsNum) :
    Validated :=
  if !validateSpeed speed then .inl (invalid now "Speed must be between 0 and 100")
  else .inr (.moveForward (some speed) duration)

/-- `'left' | 'right'` -/
inductive Turn where
  | left
  | right
  deriving DecidableEq

/-- `movement.service.ts:371-389`. -/
def turnWithValidation (now : JsString) (direction : Turn) (angle speed : JsNum) : Validated :=
  if !validateAngle angle then .inl (invalid now "Angle must be between 0 and 90 degrees")
  else if !validateSpeed speed then .inl (invalid now "Speed must be between 0 and 100")
  else
    match direction with
    | .left => .inr (.moveLeft (some angle) (some speed))
    | .right => .inr (.moveRight (some angle) (some speed))

/-- A subscriber never gets an error. -/
theorem receive_next (now : JsString) (call : Call) (emission : Emission JsVal)
    (status : CarStatus) : ∃ value, (call.receive now emission status).1 = .next value :=
  Emission.catchError_next _ _ _

/-- A callback that waits for another status does nothing. -/
theorem onStatus_other {word : String} {response : JsVal} {update : Script CarStatus Unit}
    {found : JsString} (hstatus : response.get (lit "status") = .string found)
    (hword : found ≠ lit word) (status : CarStatus) :
    onStatus word response update status = (.ok (), status) := by
  have hobject : response.isNullish = false := by
    cases response with
    | undefined => cases hstatus
    | null => cases hstatus
    | _ => rfl
  have hmember : member response "status" = .ok (.string found) := by
    unfold member
    rw [hobject, hstatus]
    rfl
  unfold onStatus
  rw [hmember]
  show (if (JsVal.string found).isOneOf [lit word] then update else pure ()) status = _
  rw [if_neg (by simpa [JsVal.isOneOf] using hword)]
  rfl

end EmbeddedCar.Frontend
