import EmbeddedCar.Frontend.MovementService
import EmbeddedCar.Reactive.Run

/-!
# Replies on the page

The dashboard with the service it sends through, and the `next` and `error` callbacks of its
subscriptions. The `error` callbacks are the only code that shows `'Error'`, and `catchError` in
the service keeps every failure from them.
-/

namespace EmbeddedCar.Frontend

open EmbeddedCar.JavaScript Reactive

/-- The text of the source. -/
def Movement.text : Movement → String
  | .adelante => "Adelante"
  | .atras => "Atrás"
  | .detenido => "Detenido"

def Direction.text : Direction → String
  | .izquierda => "Izquierda"
  | .derecha => "Derecha"
  | .sinDireccion => "Sin dirección"

/-- The movement with a text. -/
def Movement.ofText (text : String) : Option Movement :=
  [Movement.adelante, .atras, .detenido].find? fun movement => movement.text = text

def Direction.ofText (text : String) : Option Direction :=
  [Direction.izquierda, .derecha, .sinDireccion].find? fun direction => direction.text = text

theorem Movement.ofText_text (movement : Movement) : ofText movement.text = some movement := by
  cases movement <;> decide

theorem Direction.ofText_text (direction : Direction) : ofText direction.text = some direction := by
  cases direction <;> decide

/-- `updateVehicleStatus` on the texts it is called with: a text that no branch compares with
changes nothing but the status. -/
def Dashboard.updateVehicleStatusText (d : Dashboard) (movement direction vehicleStatus : String)
    (requestedBy : RequestedBy) : Dashboard :=
  let d :=
    match Direction.ofText direction with
    | some direction => d.updateDirection direction requestedBy
    | none => d
  let d :=
    match Movement.ofText movement with
    | some movement => d.updateMovement movement requestedBy
    | none => d
  { d with vehicleStatus := vehicleStatus }

theorem Dashboard.updateVehicleStatusText_text (d : Dashboard) (movement : Movement)
    (direction : Direction) (vehicleStatus : String) (requestedBy : RequestedBy) :
    d.updateVehicleStatusText movement.text direction.text vehicleStatus requestedBy =
      d.updateVehicleStatus movement direction vehicleStatus requestedBy := by
  unfold updateVehicleStatusText
  rw [Movement.ofText_text, Direction.ofText_text]
  rfl

/-- The `error` callback of an action: `dashboard.ts:116-119`, `136-139`, `156-159`, `176-179`
and `198-202`. -/
def Dashboard.onError (d : Dashboard) : Action → Dashboard
  | .moveForward => d.updateVehicleStatusText "Error" "Error" "Error" .movementFunction
  | .moveBackward => d.updateVehicleStatusText "Error" "Error" "Error" .movementFunction
  | .moveLeft => d.updateVehicleStatusText "Error" "Error" "Error" .directionFunction
  | .moveRight => d.updateVehicleStatusText "Error" "Error" "Error" .directionFunction
  | .stopCar =>
      (d.updateVehicleStatusText "Error" "Error" "Error" .movementFunction).updateVehicleStatusText
        "Error" "Error" "Error" .directionFunction

/-- What a subscription of an action does with what it is notified of; `next` only logs. -/
def Dashboard.notify (d : Dashboard) (action : Action) : Emission JsVal → Dashboard
  | .next _ => d
  | .error _ => d.onError action

/-- The call of the service behind a request. -/
def Post.call (post : Post) : Call :=
  .updateCarMovement post.movement (.fin (post.speed : ℕ)) post.direction

theorem Post.call_body (post : Post) : post.call.body = post.body := rfl

/-- The dashboard, the status of its service, and the requests that have no reply yet. -/
structure Page where
  dashboard : Dashboard
  status : CarStatus
  waiting : List (Action × Post)

/-- What happens on the page: an input, or the request at a position of `waiting` emits. -/
inductive PageEvent where
  | input (input : Input)
  | reply (position : ℕ) (emission : Emission JsVal) (now : JsString)

namespace Page

def step (p : Page) : PageEvent → Page
  | .input (.act action) =>
      let (dashboard, post) := p.dashboard.perform action
      { p with dashboard := dashboard, waiting := p.waiting ++ [(action, post)] }
  | .input (.slide speed) => { p with dashboard := p.dashboard.handle (.slide speed) }
  | .reply position emission now =>
      match p.waiting[position]? with
      | none => p
      | some (action, post) =>
          let (emission, status) := post.call.receive now emission p.status
          ⟨p.dashboard.notify action emission, status, p.waiting.eraseIdx position⟩

/-- A reply, of whatever kind, leaves the dashboard as it is. -/
theorem reply_dashboard (p : Page) (position : ℕ) (emission : Emission JsVal) (now : JsString) :
    (p.step (.reply position emission now)).dashboard = p.dashboard := by
  cases hwaiting : p.waiting[position]? with
  | none => simp only [step, hwaiting]
  | some request =>
    obtain ⟨value, hvalue⟩ := receive_next now request.2.call emission p.status
    simp only [step, hwaiting, hvalue]
    rfl

end Page

/-- What an action shows as the status. -/
def Action.vehicleStatus : Action → String
  | .moveForward => "Moviendo"
  | .moveBackward => "Moviendo"
  | .moveLeft => "Girando"
  | .moveRight => "Girando"
  | .stopCar => "Detenido"

theorem Action.vehicleStatus_ne_error (action : Action) : action.vehicleStatus ≠ "Error" := by
  cases action <;> decide

theorem perform_vehicleStatus (d : Dashboard) (action : Action) :
    (d.perform action).1.vehicleStatus = action.vehicleStatus := by
  cases action <;> rfl

/-- After an action the page never shows an error, whatever is done and delivered. -/
theorem Page.vehicleStatus_ne_error (p : Page) (action : Action) (events : List PageEvent) :
    (events.foldl Page.step (p.step (.input (.act action)))).dashboard.vehicleStatus ≠ "Error" := by
  refine invariant_foldl (I := fun p : Page => p.dashboard.vehicleStatus ≠ "Error") along_true
    ?_ ?_
  · show (p.dashboard.perform action).1.vehicleStatus ≠ "Error"
    rw [perform_vehicleStatus]
    exact action.vehicleStatus_ne_error
  · intro p event h _
    cases event with
    | reply position emission now =>
      rw [Page.reply_dashboard]
      exact h
    | input input =>
      cases input with
      | slide speed => exact h
      | act action =>
        show (p.dashboard.perform action).1.vehicleStatus ≠ "Error"
        rw [perform_vehicleStatus]
        exact action.vehicleStatus_ne_error

/-- An action is performed on a page, other things happen, and then a request at a position fails:
the dashboard shows the failure. -/
def FailureShown (p : Page) (action : Action) (between : List PageEvent) (position : ℕ)
    (failure : Failure) (now : JsString) : Prop :=
  ((between.foldl Page.step (p.step (.input (.act action)))).step
    (.reply position (.error failure) now)).dashboard.vehicleStatus = "Error"

/-- No failure is ever shown, on any page, for any action and any failure. -/
theorem failure_never_shown (p : Page) (action : Action) (between : List PageEvent)
    (position : ℕ) (failure : Failure) (now : JsString) :
    ¬ FailureShown p action between position failure now := by
  unfold FailureShown
  rw [Page.reply_dashboard]
  exact p.vehicleStatus_ne_error action between

/-- Forward while the backend cannot be reached: the dashboard goes on to show 'Moviendo', and
the status of the service becomes 'Error de conexión'. -/
theorem forward_unreachable :
    let opened : Page := ⟨initialDashboard, initialCarStatus [], []⟩
    ¬ FailureShown opened .moveForward [] 0 ⟨some 0, []⟩ [] ∧
      ((opened.step (.input (.act .moveForward))).step
        (.reply 0 (.error ⟨some 0, []⟩) [])).dashboard.vehicleStatus = "Moviendo" ∧
      ((opened.step (.input (.act .moveForward))).step
        (.reply 0 (.error ⟨some 0, []⟩) [])).status.vehicleStatus =
          .string (lit "Error de conexión") := by
  refine ⟨?_, rfl, rfl⟩
  intro h
  change "Moviendo" = "Error" at h
  exact absurd h (by decide)

end EmbeddedCar.Frontend
