import EmbeddedCar.JavaScript.Value

/-!
# The dashboard

The component of `dashboard.ts` and the request it sends through `movement.service.ts`. A
dashboard never reads the store back, and `catchError` in the service turns a failed request
into a value, so the `error` callbacks of the component do not run and replies leave the state
as it is.
-/

namespace EmbeddedCar.Frontend

open EmbeddedCar.JavaScript

/-- `'Adelante'`, `'Atrás'` and `'Detenido'`. -/
inductive Movement where
  | adelante
  | atras
  | detenido
  deriving DecidableEq, Repr

/-- `'Izquierda'`, `'Derecha'` and `'Sin dirección'`. -/
inductive Direction where
  | izquierda
  | derecha
  | sinDireccion
  deriving DecidableEq, Repr

/-- `'R4'`, …, `'R1'`, `'P'`, `'1'`, …, `'4'`. -/
inductive Gear where
  | r4
  | r3
  | r2
  | r1
  | p
  | g1
  | g2
  | g3
  | g4
  deriving DecidableEq, Repr

/-- What the gears assign to `speedValue`, and the slider with `min="0" max="100"`. -/
abbrev Percent := Fin 101

inductive RequestedBy where
  | movementFunction
  | directionFunction
  deriving DecidableEq, Repr

/-- `dashboard.ts:19-30`. -/
structure Dashboard where
  speedValue : Percent := 0
  currentMovement : Movement := .detenido
  currentMovementIcon : String := "🛑"
  currentDirection : Direction := .sinDireccion
  currentDirectionIcon : String := "❌"
  vehicleStatus : String := "Detenido"
  gear : Gear := .p
  gearIcon : String := "🅿️"
  deriving DecidableEq

/-- The dashboard when its page opens. -/
def initialDashboard : Dashboard := {}

namespace Dashboard

def setDirection (d : Dashboard) (direction : Direction) (icon : String) : Dashboard :=
  { d with currentDirection := direction, currentDirectionIcon := icon }

def setGear (d : Dashboard) (movement : Movement) (movementIcon : String) (gear : Gear)
    (gearIcon : String) (speed : Percent) : Dashboard :=
  { d with
    currentMovement := movement
    currentMovementIcon := movementIcon
    gear := gear
    gearIcon := gearIcon
    speedValue := speed }

/-- `dashboard.ts:227-258`. -/
def updateDirection (d : Dashboard) (direction : Direction) (requestedBy : RequestedBy) :
    Dashboard :=
  match direction, requestedBy with
  | .izquierda, .directionFunction =>
      match d.currentDirection with
      | .izquierda => d.setDirection .izquierda "⬅️"
      | .sinDireccion => d.setDirection .izquierda "⬅️"
      | .derecha => d.setDirection .sinDireccion "❌"
  | .derecha, .directionFunction =>
      match d.currentDirection with
      | .izquierda => d.setDirection .sinDireccion "❌"
      | .sinDireccion => d.setDirection .derecha "➡️"
      | .derecha => d.setDirection .derecha "➡️"
  | _, _ => d

/-- `dashboard.ts:260-399`. -/
def updateMovement (d : Dashboard) (movement : Movement) (requestedBy : RequestedBy) :
    Dashboard :=
  match movement, requestedBy with
  | .adelante, .movementFunction =>
      match d.gear with
      | .r4 => d.setGear .atras "⬇️" .r3 "⬇️3️⃣" 75
      | .r3 => d.setGear .atras "⬇️" .r2 "⬇️2️⃣" 50
      | .r2 => d.setGear .atras "⬇️" .r1 "⬇️1️⃣" 25
      | .r1 => d.setGear .detenido "🛑" .p "🅿️" 0
      | .p => d.setGear .adelante "⬆️" .g1 "⬆️1️⃣" 25
      | .g1 => d.setGear .adelante "⬆️" .g2 "⬆️2️⃣" 50
      | .g2 => d.setGear .adelante "⬆️" .g3 "⬆️3️⃣" 75
      | .g3 => d.setGear .adelante "⬆️" .g4 "⬆️4️⃣" 100
      | .g4 => d.setGear .adelante "⬆️" .g4 "⬆️4️⃣" 100
  | .atras, .movementFunction =>
      match d.gear with
      | .g4 => d.setGear .adelante "⬆️" .g3 "⬆️3️⃣" 75
      | .g3 => d.setGear .adelante "⬆️" .g2 "⬆️2️⃣" 50
      | .g2 => d.setGear .adelante "⬆️" .g1 "⬆️1️⃣" 25
      | .g1 => d.setGear .detenido "🛑" .p "🅿️" 0
      | .p => d.setGear .atras "⬇️" .r1 "⬇️1️⃣" 25
      | .r1 => d.setGear .atras "⬇️" .r2 "⬇️2️⃣" 50
      | .r2 => d.setGear .atras "⬇️" .r3 "⬇️3️⃣" 75
      | .r3 => d.setGear .atras "⬇️" .r4 "⬇️4️⃣" 100
      | .r4 => d.setGear .atras "⬇️" .r4 "⬇️4️⃣" 100
  | .detenido, .movementFunction => d.setGear .detenido "🛑" .p "🅿️" 0
  | _, .directionFunction => d

/-- `dashboard.ts:225-402`; the icons passed to it are not read. -/
def updateVehicleStatus (d : Dashboard) (movement : Movement) (direction : Direction)
    (vehicleStatus : String) (requestedBy : RequestedBy) : Dashboard :=
  { (d.updateDirection direction requestedBy).updateMovement movement requestedBy with
    vehicleStatus := vehicleStatus }

end Dashboard

/-- `dashboard.ts:207-214`. -/
def mapMovementToBackend : Movement → JsString
  | .adelante => lit "forward"
  | .atras => lit "backward"
  | .detenido => lit "none"

/-- `dashboard.ts:216-223`. -/
def mapDirectionToBackend : Direction → JsString
  | .izquierda => lit "left"
  | .derecha => lit "right"
  | .sinDireccion => lit "none"

/-- The request of `movement.service.ts:91-97`. -/
structure Post where
  movement : JsString
  speed : Percent
  direction : JsString
  deriving DecidableEq

/-- The parsed body of the request. -/
def Post.body (post : Post) : JsVal :=
  .object [(lit "movement", .string post.movement),
    (lit "speed", .number (.fin (post.speed : ℕ))), (lit "direction", .string post.direction)]

namespace Dashboard

/-- The mapped values of the dashboard with a given speed. -/
def send (d : Dashboard) (speed : Percent) : Post :=
  ⟨mapMovementToBackend d.currentMovement, speed, mapDirectionToBackend d.currentDirection⟩

/-- What the dashboard shows, in the words of the backend. -/
def shown (d : Dashboard) : Post := d.send d.speedValue

/-- `dashboard.ts:103-121`. -/
def moveForward (d : Dashboard) : Dashboard × Post :=
  let d := d.updateVehicleStatus .adelante d.currentDirection "Moviendo" .movementFunction
  (d, d.send d.speedValue)

/-- `dashboard.ts:123-141`. -/
def moveBackward (d : Dashboard) : Dashboard × Post :=
  let d := d.updateVehicleStatus .atras d.currentDirection "Moviendo" .movementFunction
  (d, d.send d.speedValue)

/-- `dashboard.ts:143-161`. -/
def moveLeft (d : Dashboard) : Dashboard × Post :=
  let d := d.updateVehicleStatus d.currentMovement .izquierda "Girando" .directionFunction
  (d, d.send d.speedValue)

/-- `dashboard.ts:163-181`. -/
def moveRight (d : Dashboard) : Dashboard × Post :=
  let d := d.updateVehicleStatus d.currentMovement .derecha "Girando" .directionFunction
  (d, d.send d.speedValue)

/-- `dashboard.ts:183-204`. -/
def stopCar (d : Dashboard) : Dashboard × Post :=
  let d := d.updateVehicleStatus .detenido .sinDireccion "Detenido" .movementFunction
  let d := d.updateVehicleStatus .detenido .sinDireccion "Detenido" .directionFunction
  (d, d.send 0)

end Dashboard

/-- The functions behind the D-pad and the arrow keys. -/
inductive Action where
  | moveForward
  | moveBackward
  | moveLeft
  | moveRight
  | stopCar
  deriving DecidableEq, Repr

def Dashboard.perform (d : Dashboard) : Action → Dashboard × Post
  | .moveForward => d.moveForward
  | .moveBackward => d.moveBackward
  | .moveLeft => d.moveLeft
  | .moveRight => d.moveRight
  | .stopCar => d.stopCar

def Action.drives (a : Action) : Prop := a = .moveForward ∨ a = .moveBackward

def Action.steers (a : Action) : Prop := a = .moveLeft ∨ a = .moveRight

/-- What a user does: an action, or a move of the slider, which sends nothing. -/
inductive Input where
  | act (action : Action)
  | slide (speed : Percent)
  deriving DecidableEq

/-- A request on its way: the action that sent it and the dashboard before the action. -/
structure Sent where
  action : Action
  sender : Dashboard
  deriving DecidableEq

def Sent.post (s : Sent) : Post := (s.sender.perform s.action).2

namespace Dashboard

def handle (d : Dashboard) : Input → Dashboard
  | .act action => (d.perform action).1
  | .slide speed => { d with speedValue := speed }

def final (d : Dashboard) (inputs : List Input) : Dashboard := inputs.foldl handle d

/-- The requests of a session, in the order sent. -/
def sent (d : Dashboard) : List Input → List Sent
  | [] => []
  | .act action :: inputs => ⟨action, d⟩ :: (d.handle (.act action)).sent inputs
  | .slide speed :: inputs => (d.handle (.slide speed)).sent inputs

theorem sent_append (d : Dashboard) (first second : List Input) :
    d.sent (first ++ second) = d.sent first ++ (d.final first).sent second := by
  induction first generalizing d with
  | nil => rfl
  | cons input first ih =>
    cases input with
    | act action => exact congrArg _ (ih _)
    | slide speed => exact ih _

/-! ### What the actions do -/

/-- The request carries what the dashboard shows after the action; for `stopCar`, because
stopping sets `speedValue` to the 0 that is sent. -/
theorem perform_post (d : Dashboard) (action : Action) :
    (d.perform action).2 = (d.perform action).1.shown := by
  cases action <;> rfl

theorem stopCar_currentMovement (d : Dashboard) :
    (d.perform .stopCar).1.currentMovement = .detenido := rfl

/-- Steering leaves `currentMovement` as it is. -/
theorem steers_currentMovement (d : Dashboard) {action : Action} (h : action.steers) :
    (d.perform action).1.currentMovement = d.currentMovement := by
  have hdirection : ∀ direction, (d.updateDirection direction .directionFunction).currentMovement =
      d.currentMovement := by
    intro direction
    unfold updateDirection setDirection
    cases direction <;> cases d.currentDirection <;> rfl
  have hmovement : ∀ e : Dashboard, ∀ movement,
      e.updateMovement movement .directionFunction = e := by
    intro e movement
    cases movement <;> rfl
  rcases h with rfl | rfl
  · change (updateMovement _ _ .directionFunction).currentMovement = _
    rw [hmovement, hdirection]
  · change (updateMovement _ _ .directionFunction).currentMovement = _
    rw [hmovement, hdirection]

/-- A request that steers carries the movement of its sender. -/
theorem steers_post {s : Sent} (h : s.action.steers) :
    s.post.movement = mapMovementToBackend s.sender.currentMovement := by
  unfold Sent.post
  rw [perform_post]
  exact congrArg mapMovementToBackend (steers_currentMovement s.sender h)

theorem mapMovementToBackend_none {movement : Movement} :
    mapMovementToBackend movement = lit "none" ↔ movement = .detenido := by
  cases movement <;> decide

end Dashboard

end EmbeddedCar.Frontend
