import EmbeddedCar.Backend.StoredCommand
import EmbeddedCar.Frontend.MovementService
import EmbeddedCar.Reactive.Run

/-!
# The status of the service and the store

The methods of the service against the endpoints they call. The service waits for the statuses
`'connected'`, `'updated'`, `'moving'`, `'turning'` and `'stopped'`; the backend sends
`'Connected.'`, `'Updated.'`, `'Moving.'`, `'Turning.'` and `'Stopped.'`. No reply gets through to
the status of the car.
-/

namespace EmbeddedCar.System

open EmbeddedCar.JavaScript EmbeddedCar.Backend EmbeddedCar.Frontend EmbeddedCar.Reactive

/-- `car.js:25-39`, for the paths below `/api/car`. -/
def route (body : JsVal) : String → Option Request
  | "/connect" => some .connect
  | "/move_forward" => some (.moveForward body)
  | "/move_backwards" => some (.moveBackwards body)
  | "/brake" => some .brake
  | "/move_left" => some (.moveLeft body)
  | "/move_right" => some (.moveRight body)
  | "/update_movement" => some (.updateMovement body)
  | _ => none

/-- The 404 handler of `server.js:43-48`. -/
def routeNotFound (path : String) : Response :=
  ⟨404, [(lit "error", text "Route not found"),
    (lit "message", text ("Cannot POST /api/car" ++ path))]⟩

/-- The status of the service and the store of the backend. -/
structure Client where
  status : CarStatus
  store : Globals

/-- A call and its reply: the times at which the backend and the service handle it, and the text
of the `HttpErrorResponse` should it fail. -/
structure Exchange where
  call : Call
  timestamp : JsString
  now : JsString
  failureText : JsString

namespace Client

/-- What the backend answers, and the store it leaves. -/
def answered (c : Client) (e : Exchange) : Response × Globals :=
  match route e.call.body e.call.path with
  | some req =>
      let (reply, store) := respond e.timestamp req c.store
      (answer reply, store)
  | none => (routeNotFound e.call.path, c.store)

/-- What the request emits. -/
def emission (c : Client) (e : Exchange) : Emission JsVal :=
  .ofReply (c.answered e).1.status (.object (c.answered e).1.body) e.failureText

/-- A call is answered, and the reply is delivered. -/
def exchange (c : Client) (e : Exchange) : Client :=
  ⟨(e.call.receive e.now (c.emission e) c.status).2, (c.answered e).2⟩

end Client

/-- The status shows the speed that is stored, and after an update what the stored direction and
movement are displayed as. -/
structure Mirrors (c : Client) (call : Call) : Prop where
  isConnected : c.status.isConnected = true
  speed : c.store.carSpeed = some c.status.currentSpeed
  updated : ∀ movement speed direction, call = .updateCarMovement movement speed direction →
    ∃ storedDirection storedMovement,
      c.store.carDirection = some storedDirection ∧ c.store.carMovement = some storedMovement ∧
        mapDirectionToDisplay storedDirection = .ok c.status.currentDirection ∧
        mapMovementToStatus storedMovement = .ok c.status.vehicleStatus

/-- The status of a 200 reply. -/
def replyStatus : Call → String
  | .connectToCar => "Connected."
  | .updateCarMovement _ _ _ => "Updated."
  | .moveForward _ _ => "Moving."
  | .moveBackward _ _ => "Moving."
  | .moveLeft _ _ => "Turning."
  | .moveRight _ _ => "Turning."
  | .stopCar => "Stopped."

section

variable {c : Client} {e : Exchange}

/-- Each endpoint replies with 200 and its status, or with 400. -/
theorem answered_cases (c : Client) (e : Exchange) :
    ((c.answered e).1.status = 200 ∧
        (c.answered e).1.body.lookup (lit "status") = some (text (replyStatus e.call))) ∨
      (c.answered e).1.status = 400 := by
  have hmove : ∀ (h : MoveHandler) (body : JsVal), h.target ≠ .carSpeed →
      let reply := answer (requestMove h e.timestamp body c.store).1
      (reply.status = 200 ∧ reply.body.lookup (lit "status") = some (text h.status)) ∨
        reply.status = 400 := by
    intro h body htarget
    obtain ⟨r, hr, h400 | rfl⟩ := requestMove_reply c.store e.timestamp body htarget
    · rw [hr]
      exact .inr h400
    · rw [hr]
      exact .inl ⟨rfl, rfl⟩
  obtain ⟨call, timestamp, now, failureText⟩ := e
  cases call with
  | connectToCar => exact .inl ⟨rfl, rfl⟩
  | stopCar => exact .inl ⟨rfl, rfl⟩
  | moveForward speed duration => exact hmove moveForward _ (by decide)
  | moveBackward speed duration => exact hmove moveBackwards _ (by decide)
  | moveLeft angle speed => exact hmove moveLeft _ (by decide)
  | moveRight angle speed => exact hmove moveRight _ (by decide)
  | updateCarMovement movement speed direction =>
    obtain ⟨r, hr, hcase⟩ :=
      updateCarMovement_reply c.store (Call.updateCarMovement movement speed direction).body
    have hreply : (c.answered ⟨.updateCarMovement movement speed direction, timestamp, now,
        failureText⟩).1 = r := congrArg answer hr
    rw [hreply]
    rcases hcase with h400 | ⟨-, values, -, rfl⟩
    · exact .inr h400
    · exact .inl ⟨rfl, rfl⟩

/-- The service waits for another status than the one it gets. -/
theorem callback_ignores (e : Exchange) {reply : Response}
    (hreply : reply.body.lookup (lit "status") = some (text (replyStatus e.call)))
    (status : CarStatus) :
    e.call.callback e.now (.object reply.body) status = (.ok (), status) := by
  have hget : (JsVal.object reply.body).get (lit "status") =
      .string (lit (replyStatus e.call)) := by
    show (reply.body.lookup (lit "status")).getD .undefined = _
    rw [hreply]
    rfl
  obtain ⟨call, timestamp, now, failureText⟩ := e
  have hconnected : lit "Connected." ≠ lit "connected" := by decide
  have hupdated : lit "Updated." ≠ lit "updated" := by decide
  have hmoving : lit "Moving." ≠ lit "moving" := by decide
  have hturning : lit "Turning." ≠ lit "turning" := by decide
  have hstopped : lit "Stopped." ≠ lit "stopped" := by decide
  cases call with
  | connectToCar => exact onStatus_other hget hconnected status
  | updateCarMovement movement speed direction => exact onStatus_other hget hupdated status
  | moveForward speed duration => exact onStatus_other hget hmoving status
  | moveBackward speed duration => exact onStatus_other hget hmoving status
  | moveLeft angle speed => exact onStatus_other hget hturning status
  | moveRight angle speed => exact onStatus_other hget hturning status
  | stopCar => exact onStatus_other hget hstopped status

/-- No call changes the status of the service. -/
theorem exchange_status (c : Client) (e : Exchange) : (c.exchange e).status = c.status := by
  show (e.call.receive e.now (c.emission e) c.status).2 = _
  rcases answered_cases c e with ⟨h200, hreply⟩ | h400
  · have hemission : c.emission e = .next (.object (c.answered e).1.body) := by
      unfold Client.emission Emission.ofReply
      rw [h200]
      rfl
    rw [hemission]
    unfold Call.receive Emission.tap
    simp only [callback_ignores e hreply, Emission.catchError]
  · have hemission : c.emission e = .error ⟨some 400, e.failureText⟩ := by
      unfold Client.emission Emission.ofReply
      rw [h400]
      rfl
    rw [hemission]
    show (handleError e.now (e.call.result e.now) ⟨some 400, e.failureText⟩ c.status).2 = _
    unfold handleError
    cases e.call.result e.now <;> rfl

end

/-- A call that is answered with 200 leaves a status that mirrors the backend. -/
def MirrorsAfter (c : Client) (e : Exchange) : Prop :=
  (c.answered e).1.status = 200 → Mirrors (c.exchange e) e.call

/-- The status mirrors the backend after every call that is answered with 200 only where no call
is: the service is never connected. -/
theorem mirrors_iff (now : JsString) (g : Globals) (exchanges : List Exchange) :
    Along Client.exchange MirrorsAfter ⟨initialCarStatus now, g⟩ exchanges ↔
      Along Client.exchange (fun c e => (c.answered e).1.status ≠ 200) ⟨initialCarStatus now, g⟩
        exchanges := by
  refine along_iff_along (I := fun c => c.status.isConnected = false) along_true rfl ?_ ?_
  · intro c e hstatus _
    have hafter : ¬ Mirrors (c.exchange e) e.call := by
      intro h
      have hconnected := h.isConnected
      rw [exchange_status, hstatus] at hconnected
      cases hconnected
    unfold MirrorsAfter
    constructor
    · intro h h200
      exact hafter (h h200)
    · intro h h200
      exact absurd h200 h
  · intro c e hstatus _ _
    rw [exchange_status]
    exact hstatus

/-- Connecting leaves the service unconnected. -/
theorem connect_not_mirrored :
    ¬ Along Client.exchange MirrorsAfter ⟨initialCarStatus [], initialGlobals⟩
      [⟨.connectToCar, [], [], []⟩] := by
  intro h
  have hconnected := (h.1 rfl).isConnected
  cases hconnected

end EmbeddedCar.System
