import EmbeddedCar.Backend.ExplicitSpeed
import EmbeddedCar.System.StatusMirror
import Mathlib.Data.List.Induction

/-!
# What the service knows of the car

All methods of the service against the backend, with requests that the backend processes in any
order, replies that arrive in any order, and requests and replies that get lost. The status is
that of three kinds of events alone: a check that is answered, a loss, and a disconnection.
-/

namespace EmbeddedCar.System

open EmbeddedCar.JavaScript EmbeddedCar.Backend EmbeddedCar.Frontend EmbeddedCar.Reactive

/-- A request of the service. -/
inductive Asked where
  | method (call : Call)
  | checkCarStatus

namespace Asked

/-- What the backend answers at a time, and the store it leaves. -/
def answered (timestamp : JsString) (uptime : JsNum) (store : Globals) :
    Asked → Response × Globals
  | .method call =>
      match route call.body call.path with
      | some req =>
          let (reply, after) := respond timestamp req store
          (answer reply, after)
      | none => (routeNotFound call.path, store)
  | .checkCarStatus =>
      let (reply, after) := respond timestamp (.index uptime) store
      (answer reply, after)

/-- The status once the request has emitted. -/
def received (now : JsString) (emission : Emission JsVal) (status : CarStatus) :
    Asked → CarStatus
  | .method call => (call.receive now emission status).2
  | .checkCarStatus => (receiveCheck now emission status).2

end Asked

/-- The status of the service, the store, the requests that the backend has not processed, and the
replies on their way back. -/
structure Service where
  status : CarStatus
  store : Globals
  requests : List Asked
  replies : List (Asked × Response)

/-- What happens to a service. -/
inductive ServiceEvent where
  | asked (request : Asked)
  | processed (position : ℕ) (timestamp : JsString) (uptime : JsNum)
  | delivered (position : ℕ) (now failureText : JsString)
  | requestLost (position : ℕ) (now failureText : JsString)
  | replyLost (position : ℕ) (now failureText : JsString)
  | disconnectCar (now : JsString)

namespace Service

/-- A service that is created at a time, and a store. -/
def opened (now : JsString) (store : Globals) : Service := ⟨initialCarStatus now, store, [], []⟩

/-- The emission of a request that gets no reply. -/
def unreachable (failureText : JsString) : Emission JsVal := .error ⟨some 0, failureText⟩

def step (s : Service) : ServiceEvent → Service
  | .asked request => { s with requests := s.requests ++ [request] }
  | .processed position timestamp uptime =>
      match s.requests[position]? with
      | none => s
      | some request =>
          let (reply, store) := request.answered timestamp uptime s.store
          { s with
            store := store
            requests := s.requests.eraseIdx position
            replies := s.replies ++ [(request, reply)] }
  | .delivered position now failureText =>
      match s.replies[position]? with
      | none => s
      | some (request, reply) =>
          { s with
            status := request.received now
              (.ofReply reply.status (.object reply.body) failureText) s.status
            replies := s.replies.eraseIdx position }
  | .requestLost position now failureText =>
      match s.requests[position]? with
      | none => s
      | some request =>
          { s with
            status := request.received now (unreachable failureText) s.status
            requests := s.requests.eraseIdx position }
  | .replyLost position now failureText =>
      match s.replies[position]? with
      | none => s
      | some (request, _) =>
          { s with
            status := request.received now (unreachable failureText) s.status
            replies := s.replies.eraseIdx position }
  | .disconnectCar now => { s with status := Frontend.disconnectCar now s.status }

end Service

/-! ### What the status tells -/

/-- What the status tells: a check was answered, a request or a reply was lost, or the user
disconnected, at a time. -/
inductive News where
  | checked (timestamp : JsVal)
  | lost (now : JsString)
  | disconnected (now : JsString)

namespace News

/-- The status that some news leaves. -/
def apply (status : CarStatus) : News → CarStatus
  | .checked timestamp =>
      { status with isConnected := true, lastUpdate := timestamp }
  | .lost now =>
      { status with
        isConnected := false
        vehicleStatus := .string (lit "Error de conexión")
        lastUpdate := .string now }
  | .disconnected now =>
      { status with
        isConnected := false
        vehicleStatus := .string (lit "Desconectado")
        lastUpdate := .string now }

def isChecked : News → Bool
  | .checked _ => true
  | _ => false

/-- The `vehicleStatus` that news brings; a check leaves it as it is. -/
def shown : News → Option String
  | .checked _ => none
  | .lost _ => some "Error de conexión"
  | .disconnected _ => some "Desconectado"

end News

/-- The news in an event. -/
def Service.news (s : Service) : ServiceEvent → Option News
  | .delivered position _ _ =>
      match s.replies[position]? with
      | some (.checkCarStatus, reply) =>
          some (.checked ((JsVal.object reply.body).get (lit "timestamp")))
      | _ => none
  | .requestLost position now _ => s.requests[position]?.map fun _ => .lost now
  | .replyLost position now _ => s.replies[position]?.map fun _ => .lost now
  | .disconnectCar now => some (.disconnected now)
  | _ => none

/-- The news of a run, in order. -/
def newsAlong (s : Service) : List ServiceEvent → List News
  | [] => []
  | e :: events => (s.news e).toList ++ newsAlong (s.step e) events

/-- A reply of the backend: to a check it is `OK`; to another method it has a status that the
service does not wait for. -/
def Replied : Asked × Response → Prop
  | (.method call, reply) =>
      (reply.status = 200 ∧ reply.body.lookup (lit "status") = some (text (replyStatus call))) ∨
        reply.status = 400
  | (.checkCarStatus, reply) =>
      reply.status = 200 ∧ reply.body.lookup (lit "status") = some (text "OK")

/-- The status never tells a speed or a direction. -/
structure Blank (status : CarStatus) : Prop where
  speed : status.currentSpeed = .number (.fin 0)
  direction : status.currentDirection = .string (lit "Detenido")

theorem replied_answered (request : Asked) (timestamp : JsString) (uptime : JsNum)
    (store : Globals) : Replied (request, (request.answered timestamp uptime store).1) := by
  cases request with
  | method call =>
    exact answered_cases ⟨initialCarStatus [], store⟩ ⟨call, timestamp, [], []⟩
  | checkCarStatus => exact ⟨rfl, rfl⟩

/-- A reply to a method changes nothing; a reply to a check connects. -/
theorem received_replied {request : Asked} {reply : Response} (h : Replied (request, reply))
    (now failureText : JsString) (status : CarStatus) :
    request.received now (.ofReply reply.status (JsVal.object reply.body) failureText) status =
      match request with
      | .method _ => status
      | .checkCarStatus =>
          News.apply status (.checked ((JsVal.object reply.body).get (lit "timestamp"))) := by
  cases request with
  | method call =>
    rcases h with ⟨h200, hreply⟩ | h400
    · have hemission : Emission.ofReply reply.status (JsVal.object reply.body) failureText =
          .next (.object reply.body) := by
        unfold Emission.ofReply
        rw [h200]
        rfl
      change (call.receive now _ status).2 = status
      rw [hemission]
      unfold Call.receive Emission.tap
      simp only [callback_ignores ⟨call, [], now, failureText⟩ hreply, Emission.catchError]
    · have hemission : Emission.ofReply reply.status (JsVal.object reply.body) failureText =
          .error ⟨some 400, failureText⟩ := by
        unfold Emission.ofReply
        rw [h400]
        rfl
      change (call.receive now _ status).2 = status
      rw [hemission]
      change (handleError now (call.result now) ⟨some 400, failureText⟩ status).2 = status
      unfold handleError
      cases call.result now <;> rfl
  | checkCarStatus =>
    obtain ⟨h200, hreply⟩ := h
    have hemission : Emission.ofReply reply.status (JsVal.object reply.body) failureText =
        .next (.object reply.body) := by
      unfold Emission.ofReply
      rw [h200]
      rfl
    have hmember : member (.object reply.body) "status" = .ok (text "OK") := by
      show Except.ok ((reply.body.lookup (lit "status")).getD .undefined) = _
      rw [hreply]
      rfl
    have hchecked : checked (.object reply.body) status =
        (.ok (),
          News.apply status (.checked ((JsVal.object reply.body).get (lit "timestamp")))) := by
      unfold checked onStatus
      rw [hmember]
      rfl
    change (receiveCheck now _ status).2 = _
    rw [hemission]
    unfold receiveCheck Emission.tap
    simp only [hchecked, Emission.catchError]

/-- A loss is the same for every request. -/
theorem received_unreachable (request : Asked) (now failureText : JsString) (status : CarStatus) :
    request.received now (Service.unreachable failureText) status =
      News.apply status (.lost now) := by
  cases request with
  | method call =>
    change (handleError now (call.result now) ⟨some 0, failureText⟩ status).2 = _
    unfold handleError
    cases call.result now <;> rfl
  | checkCarStatus => rfl

/-! ### Runs -/

theorem Blank.apply {status : CarStatus} (h : Blank status) (news : News) :
    Blank (news.apply status) := by
  cases news <;> exact ⟨h.speed, h.direction⟩

/-- The user disconnects: the speed and the direction that are reset were never set. -/
theorem disconnectCar_blank {status : CarStatus} (h : Blank status) (now : JsString) :
    disconnectCar now status = News.apply status (.disconnected now) := by
  obtain ⟨isConnected, currentDirection, currentSpeed, vehicleStatus, lastUpdate⟩ := status
  obtain ⟨rfl, rfl⟩ := h
  rfl

/-- One event: the status takes the news in. -/
theorem step_status {s : Service} (hreplies : ∀ p ∈ s.replies, Replied p) (hblank : Blank s.status)
    (e : ServiceEvent) : (s.step e).status = (s.news e).elim s.status (News.apply s.status) := by
  cases e with
  | asked request => rfl
  | processed position timestamp uptime =>
    cases hrequest : s.requests[position]? with
    | none => simp only [Service.step, Service.news, hrequest, Option.elim_none]
    | some request => simp only [Service.step, Service.news, hrequest, Option.elim_none]
  | delivered position now failureText =>
    cases hreply : s.replies[position]? with
    | none => simp only [Service.step, Service.news, hreply, Option.elim_none]
    | some p =>
      obtain ⟨request, reply⟩ := p
      have hreceived := received_replied (hreplies _ (List.mem_of_getElem? hreply)) now failureText
        s.status
      simp only [Service.step, Service.news, hreply, hreceived]
      cases request <;> rfl
  | requestLost position now failureText =>
    cases hrequest : s.requests[position]? with
    | none => simp only [Service.step, Service.news, hrequest, Option.map_none, Option.elim_none]
    | some request =>
      simp only [Service.step, Service.news, hrequest, Option.map_some, Option.elim_some,
        received_unreachable]
  | replyLost position now failureText =>
    cases hreply : s.replies[position]? with
    | none => simp only [Service.step, Service.news, hreply, Option.map_none, Option.elim_none]
    | some p =>
      simp only [Service.step, Service.news, hreply, Option.map_some, Option.elim_some,
        received_unreachable]
  | disconnectCar now => exact disconnectCar_blank hblank now

/-- One event leaves replies of the backend. -/
theorem step_replies {s : Service} (hreplies : ∀ p ∈ s.replies, Replied p) (e : ServiceEvent) :
    ∀ p ∈ (s.step e).replies, Replied p := by
  have herase : ∀ position, ∀ p ∈ s.replies.eraseIdx position, Replied p := fun position p hp =>
    hreplies p ((List.eraseIdx_sublist _ _).subset hp)
  cases e with
  | asked request => exact hreplies
  | processed position timestamp uptime =>
    cases hrequest : s.requests[position]? with
    | none =>
      simp only [Service.step, hrequest]
      exact hreplies
    | some request =>
      simp only [Service.step, hrequest]
      intro p hp
      rcases List.mem_append.mp hp with hp | hp
      · exact hreplies p hp
      · rw [List.mem_singleton.mp hp]
        exact replied_answered request timestamp uptime s.store
  | delivered position now failureText =>
    cases hreply : s.replies[position]? with
    | none =>
      simp only [Service.step, hreply]
      exact hreplies
    | some p =>
      simp only [Service.step, hreply]
      exact herase position
  | requestLost position now failureText =>
    cases hrequest : s.requests[position]? with
    | none =>
      simp only [Service.step, hrequest]
      exact hreplies
    | some request =>
      simp only [Service.step, hrequest]
      exact hreplies
  | replyLost position now failureText =>
    cases hreply : s.replies[position]? with
    | none =>
      simp only [Service.step, hreply]
      exact hreplies
    | some p =>
      simp only [Service.step, hreply]
      exact herase position
  | disconnectCar now => exact hreplies

/-- A whole run: the status is that of the news. -/
theorem run_status {s : Service} (hreplies : ∀ p ∈ s.replies, Replied p) (hblank : Blank s.status)
    (events : List ServiceEvent) :
    (events.foldl Service.step s).status = (newsAlong s events).foldl News.apply s.status := by
  induction events generalizing s with
  | nil => rfl
  | cons e events ih =>
    have hstatus := step_status hreplies hblank e
    have hblank' : Blank (s.step e).status := by
      rw [hstatus]
      cases s.news e with
      | none => exact hblank
      | some news => exact hblank.apply news
    rw [List.foldl_cons, ih (step_replies hreplies e) hblank', newsAlong, List.foldl_append,
      hstatus]
    cases s.news e <;> rfl

/-- What some news leaves: whether the last of it is a check, and the text of the last that is
none. -/
theorem foldl_news (news : List News) (status : CarStatus) :
    let after := news.foldl News.apply status
    after.isConnected = (news.getLast?.map News.isChecked).getD status.isConnected ∧
      after.vehicleStatus =
        ((news.filterMap News.shown).getLast?.map fun s => .string (lit s)).getD
          status.vehicleStatus ∧
      after.currentSpeed = status.currentSpeed ∧
      after.currentDirection = status.currentDirection := by
  induction news using List.reverseRecOn with
  | nil => exact ⟨rfl, rfl, rfl, rfl⟩
  | append_singleton news last ih =>
    obtain ⟨-, hvehicle, hspeed, hdirection⟩ := ih
    rw [List.foldl_append, List.getLast?_concat, List.filterMap_append]
    cases last with
    | checked timestamp =>
      refine ⟨rfl, ?_, hspeed, hdirection⟩
      rw [show [News.checked timestamp].filterMap News.shown = [] from rfl, List.append_nil]
      exact hvehicle
    | lost now =>
      refine ⟨rfl, ?_, hspeed, hdirection⟩
      rw [show [News.lost now].filterMap News.shown = ["Error de conexión"] from rfl,
        List.getLast?_concat]
      rfl
    | disconnected now =>
      refine ⟨rfl, ?_, hspeed, hdirection⟩
      rw [show [News.disconnected now].filterMap News.shown = ["Desconectado"] from rfl,
        List.getLast?_concat]
      rfl

/-- In every run the whole status is what the news make of the first one, so whatever the backend
answers to a movement, and in whatever order, leaves no trace. The service is connected exactly when
the last news is an answered check, shows the last loss or disconnection for good, and never a speed
or a direction. -/
theorem service_knows (now : JsString) (store : Globals) (events : List ServiceEvent) :
    let s := Service.opened now store
    let status := (events.foldl Service.step s).status
    let news := newsAlong s events
    status = news.foldl News.apply s.status ∧
      status.isConnected = (news.getLast?.map News.isChecked).getD false ∧
      status.vehicleStatus =
        .string (lit ((news.filterMap News.shown).getLast?.getD "Detenido")) ∧
      status.currentSpeed = .number (.fin 0) ∧
      status.currentDirection = .string (lit "Detenido") := by
  intro s status news
  have hrun : status = news.foldl News.apply s.status :=
    run_status (fun p hp => by cases hp) ⟨rfl, rfl⟩ events
  obtain ⟨hconnected, hvehicle, hspeed, hdirection⟩ := foldl_news news s.status
  rw [hrun]
  refine ⟨rfl, hconnected, hvehicle.trans ?_, hspeed, hdirection⟩
  cases (news.filterMap News.shown).getLast? <;> rfl

/-- A check that is answered after a loss: connected, and still an error. -/
example :
    let status := ([.asked .checkCarStatus, .requestLost 0 [] [], .asked .checkCarStatus,
      .processed 0 [] (.fin 0), .delivered 0 [] []].foldl Service.step
        (Service.opened [] initialGlobals)).status
    status.isConnected = true ∧ status.vehicleStatus = .string (lit "Error de conexión") :=
  ⟨rfl, rfl⟩

/-! ### The methods with validation -/

theorem le_fin_iff (x : ℚ) (n : JsNum) :
    JsNum.le (.fin x) n = true ↔ n = .posInf ∨ ∃ y, n = .fin y ∧ x ≤ y := by
  cases n <;> simp [JsNum.le, JsNum.lt]

theorem fin_le_iff (n : JsNum) (y : ℚ) :
    n.le (.fin y) = true ↔ n = .negInf ∨ ∃ x, n = .fin x ∧ x ≤ y := by
  cases n <;> simp [JsNum.le, JsNum.lt]

/-- The speeds that pass are the finite ones within 0..100. -/
theorem validateSpeed_iff (speed : JsNum) :
    validateSpeed speed = true ↔ ∃ v : ℚ, speed = .fin v ∧ 0 ≤ v ∧ v ≤ 100 := by
  unfold validateSpeed
  rw [Bool.and_eq_true, le_fin_iff, fin_le_iff]
  cases speed <;> simp

theorem validateAngle_iff (angle : JsNum) :
    validateAngle angle = true ↔ ∃ a : ℚ, angle = .fin a ∧ 0 ≤ a ∧ a ≤ 90 := by
  unfold validateAngle
  rw [Bool.and_eq_true, le_fin_iff, fin_le_iff]
  cases angle <;> simp

/-- The call of `turnWithValidation` when nothing is wrong with its arguments. -/
def turnCall (angle speed : JsNum) : Turn → Call
  | .left => .moveLeft (some angle) (some speed)
  | .right => .moveRight (some angle) (some speed)

/-- The endpoint a move is sent to, what its handler does, and the speed that is named. -/
def moveOf : Call → Option (SpeedEndpoint × MoveHandler × JsNum)
  | .moveForward speed _ => some (.moveForward, Backend.moveForward, speed.getD (.fin 50))
  | .moveBackward speed _ => some (.moveBackwards, Backend.moveBackwards, speed.getD (.fin 50))
  | .moveLeft _ speed => some (.moveLeft, Backend.moveLeft, speed.getD (.fin 30))
  | .moveRight _ speed => some (.moveRight, Backend.moveRight, speed.getD (.fin 30))
  | _ => none

theorem moveOf_handler {call : Call} {e : SpeedEndpoint} {h : MoveHandler} {speed : JsNum}
    (hmove : moveOf call = some (e, h, speed)) :
    e.handler = some h ∧ call.body.get (lit "speed") = jsonNumber speed := by
  cases call with
  | connectToCar => cases hmove
  | updateCarMovement movement speed direction => cases hmove
  | stopCar => cases hmove
  | _ =>
    cases hmove
    exact ⟨rfl, rfl⟩

/-- A move is answered by its endpoint. -/
theorem answered_move {call : Call} {e : SpeedEndpoint} {h : MoveHandler} {speed : JsNum}
    (hmove : moveOf call = some (e, h, speed)) (timestamp : JsString) (uptime : JsNum)
    (store : Globals) :
    (Asked.method call).answered timestamp uptime store = e.run store timestamp call.body := by
  cases call with
  | connectToCar => cases hmove
  | updateCarMovement movement speed direction => cases hmove
  | stopCar => cases hmove
  | _ =>
    cases hmove
    rfl

/-- The store after a move that is not refused. -/
def moved (store : Globals) (h : MoveHandler) (speed : ℚ) : Globals :=
  (store.set (text h.value) h.target).set (.number (.fin speed)) .carSpeed

theorem overwrite_fields (store : Globals) {h : MoveHandler} {body : JsVal} {speed : ℚ}
    (htarget : h.target ≠ .carSpeed)
    (hspeed : SpeedEndpoint.chosen h body = .number (.fin speed)) :
    store.overwrite (h.fields body) = moved store h speed := by
  refine Globals.ext_get fun x => ?_
  rw [Globals.get_overwrite, moved, Globals.get_set, Globals.get_set, ← hspeed]
  unfold MoveHandler.fields SpeedEndpoint.chosen
  by_cases hx : x = .carSpeed
  · simp [hx]
  · by_cases hy : x = h.target
    · simp [hy, htarget]
    · simp [hx, hy]

/-- What the backend makes of any Number that a move names, once it is in a JSON text. -/
def speedOutcome (store : Globals) (h : MoveHandler) : JsNum → Option Globals
  | .fin v =>
      if 0 ≤ v ∧ v ≤ 100 then some (moved store h (if v = 0 then h.defaultSpeed else v)) else none
  | _ => some (moved store h h.defaultSpeed)

theorem run_jsonNumber {e : SpeedEndpoint} {h : MoveHandler} (he : e.handler = some h)
    {body : JsVal} {speed : JsNum} (hspeed : body.get (lit "speed") = jsonNumber speed)
    (store : Globals) (timestamp : JsString) :
    e.run store timestamp body =
      match speedOutcome store h speed with
      | some after => (moveReply h timestamp body, after)
      | none => (invalidSpeed, store) := by
  have htarget : h.target ≠ .carSpeed := by
    cases e <;> cases he <;> decide
  have hnamed : ¬ (body.get (lit "speed")).isUndefined = true := by
    rw [hspeed]
    cases speed <;> simp [jsonNumber, JsVal.isUndefined]
  -- a Number that is not finite has become `null`, which is falsy
  have hnull : body.get (lit "speed") = .null →
      e.run store timestamp body = (moveReply h timestamp body, moved store h h.defaultSpeed) := by
    intro hnull
    have hfalsy : (body.get (lit "speed")).truthy = false := by
      rw [hnull]
      rfl
    have hchosen : SpeedEndpoint.chosen h body = .number (.fin h.defaultSpeed) := by
      unfold SpeedEndpoint.chosen JsVal.orElse
      rw [hfalsy]
      rfl
    rw [SpeedEndpoint.run_accepted he (SpeedEndpoint.moveRefusal_falsy hnamed hfalsy),
      overwrite_fields store htarget hchosen]
  cases speed with
  | nan => exact hnull hspeed
  | posInf => exact hnull hspeed
  | negInf => exact hnull hspeed
  | fin v =>
    have hnumber : body.get (lit "speed") = .number (.fin v) := hspeed
    by_cases hv : 0 ≤ v ∧ v ≤ 100
    · have hrange : speedOutOfRange (body.get (lit "speed")) = .ok false := by
        rw [hnumber]
        exact speedOutOfRange_number hv.1 hv.2
      have hchosen : SpeedEndpoint.chosen h body =
          .number (.fin (if v = 0 then h.defaultSpeed else v)) := by
        unfold SpeedEndpoint.chosen JsVal.orElse
        rw [hnumber]
        by_cases hzero : v = 0
        · simp [JsVal.truthy, hzero]
        · simp [JsVal.truthy, hzero]
      rw [SpeedEndpoint.run_accepted he (SpeedEndpoint.moveRefusal_eq_none hnamed hrange),
        overwrite_fields store htarget hchosen]
      simp only [speedOutcome, if_pos hv]
    · have hzero : v ≠ 0 := by
        rintro rfl
        exact hv ⟨le_refl 0, by decide⟩
      have hrange : speedOutOfRange (body.get (lit "speed")) = .ok true := by
        rw [hnumber, speedOutOfRange_eq]
        have hout : v < 0 ∨ 100 < v := by
          rcases not_and_or.mp hv with h0 | h100
          · exact .inl (not_le.mp h0)
          · exact .inr (not_le.mp h100)
        simpa [JsVal.truthy, hzero, JsVal.toNumber, JsVal.toPrimitive, JsVal.primitiveNumber,
          JsNum.lt, Except.map] using hout
      have hrefusal : moveRefusal h body = some invalidSpeed := by
        simp only [moveRefusal, destructured, if_neg (SpeedEndpoint.not_nullish hnamed), bind,
          Except.bind, hrange]
        rfl
      rw [(SpeedEndpoint.run_refused store timestamp he hrefusal).1]
      simp only [speedOutcome, if_neg hv]

theorem speedOutcome_isSome (store : Globals) (h : MoveHandler) (speed : JsNum) :
    (speedOutcome store h speed).isSome = true ↔ ∀ v, speed = .fin v → 0 ≤ v ∧ v ≤ 100 := by
  cases speed with
  | fin v => by_cases hv : 0 ≤ v ∧ v ≤ 100 <;> simp [speedOutcome, hv]
  | _ => simp [speedOutcome]

theorem speedOutcome_eq_none (store : Globals) (h : MoveHandler) (speed : JsNum) :
    speedOutcome store h speed = none ↔ ∃ v, speed = .fin v ∧ ¬ (0 ≤ v ∧ v ≤ 100) := by
  cases speed with
  | fin v =>
    simp only [JsNum.fin.injEq, exists_eq_left']
    by_cases hv : 0 ≤ v ∧ v ≤ 100
    · exact iff_of_false (by simp [speedOutcome, hv]) (not_not_intro hv)
    · exact iff_of_true (if_neg hv) hv
  | _ => simp [speedOutcome]

/-- What a move is answered and does to the store, for any Number. -/
theorem answered_outcome {call : Call} {e : SpeedEndpoint} {h : MoveHandler} {speed : JsNum}
    (hmove : moveOf call = some (e, h, speed)) (timestamp : JsString) (uptime : JsNum)
    (store : Globals) :
    let answered := (Asked.method call).answered timestamp uptime store
    (answered.1.status = 200 ↔ ∀ v, speed = .fin v → 0 ≤ v ∧ v ≤ 100) ∧
      (answered.1.status = 400 ↔ ∃ v, speed = .fin v ∧ ¬ (0 ≤ v ∧ v ≤ 100)) ∧
      answered.2 = (speedOutcome store h speed).getD store := by
  obtain ⟨hhandler, hspeed⟩ := moveOf_handler hmove
  rw [answered_move hmove, run_jsonNumber hhandler hspeed, ← speedOutcome_isSome store h,
    ← speedOutcome_eq_none store h]
  cases speedOutcome store h speed with
  | some after =>
    refine ⟨iff_of_true rfl rfl, iff_of_false ?_ nofun, rfl⟩
    exact (show ¬ 200 = 400 by decide)
  | none =>
    refine ⟨iff_of_false ?_ (by decide), iff_of_true rfl rfl, rfl⟩
    exact (show ¬ 400 = 200 by decide)

theorem validateSpeed_iff_answered {call : Call} {e : SpeedEndpoint} {h : MoveHandler}
    {speed : JsNum} (hmove : moveOf call = some (e, h, speed)) (timestamp : JsString)
    (uptime : JsNum) (store : Globals) :
    validateSpeed speed = true ↔
      (∃ v, speed = .fin v) ∧
        ((Asked.method call).answered timestamp uptime store).1.status = 200 := by
  rw [validateSpeed_iff, (answered_outcome hmove timestamp uptime store).1]
  constructor
  · rintro ⟨v, rfl, hv⟩
    refine ⟨⟨v, rfl⟩, ?_⟩
    intro w hw
    cases hw
    exact hv
  · rintro ⟨⟨v, rfl⟩, hrange⟩
    exact ⟨v, rfl, hrange v rfl⟩

theorem moveOf_turnCall (direction : Turn) (angle speed : JsNum) :
    ∃ e h, moveOf (turnCall angle speed direction) = some (e, h, speed) := by
  cases direction
  · exact ⟨_, _, rfl⟩
  · exact ⟨_, _, rfl⟩

theorem turnWithValidation_eq (now : JsString) (direction : Turn) (angle speed : JsNum) :
    turnWithValidation now direction angle speed =
      if !validateAngle angle then .inl (invalid now "Angle must be between 0 and 90 degrees")
      else if !validateSpeed speed then .inl (invalid now "Speed must be between 0 and 100")
      else .inr (turnCall angle speed direction) := by
  cases direction <;> rfl

/-- The methods with validation make a call exactly when the backend would answer it 200, save
for NaN and the infinities: these are `null` in a JSON text, and a call that names one is
answered 200 and moves the car at the default speed. A finite speed out of range is answered 400
and leaves the store as it is. -/
theorem validation_agrees (now timestamp : JsString) (uptime : JsNum) (store : Globals) :
    (∀ speed duration call, moveForwardWithValidation now speed duration = .inr call ↔
      call = .moveForward (some speed) duration ∧ (∃ v, speed = .fin v) ∧
        ((Asked.method call).answered timestamp uptime store).1.status = 200) ∧
    (∀ direction angle speed call, turnWithValidation now direction angle speed = .inr call ↔
      call = turnCall angle speed direction ∧ (∃ a : ℚ, angle = .fin a ∧ 0 ≤ a ∧ a ≤ 90) ∧
        (∃ v, speed = .fin v) ∧
        ((Asked.method call).answered timestamp uptime store).1.status = 200) ∧
    ∀ call e h speed, moveOf call = some (e, h, speed) →
      (((Asked.method call).answered timestamp uptime store).1.status = 200 ↔
        ∀ v, speed = .fin v → 0 ≤ v ∧ v ≤ 100) ∧
      (((Asked.method call).answered timestamp uptime store).1.status = 400 ↔
        ∃ v, speed = .fin v ∧ ¬ (0 ≤ v ∧ v ≤ 100)) ∧
      ((Asked.method call).answered timestamp uptime store).2 =
        (speedOutcome store h speed).getD store := by
  refine ⟨fun speed duration call => ?_, fun direction angle speed call => ?_,
    fun call e h speed hmove => answered_outcome hmove timestamp uptime store⟩
  · have hvalid := validateSpeed_iff_answered
      (show moveOf (.moveForward (some speed) duration) = some (.moveForward, _, speed) from rfl)
      timestamp uptime store
    unfold moveForwardWithValidation
    cases hspeed : validateSpeed speed with
    | false =>
      refine iff_of_false (by simp) ?_
      rintro ⟨rfl, hfin, h200⟩
      simp [hvalid.mpr ⟨hfin, h200⟩] at hspeed
    | true =>
      constructor
      · intro hcall
        cases hcall
        exact ⟨rfl, hvalid.mp hspeed⟩
      · rintro ⟨rfl, -, -⟩
        rfl
  · obtain ⟨e, h, hmove⟩ := moveOf_turnCall direction angle speed
    have hvalid := validateSpeed_iff_answered hmove timestamp uptime store
    rw [← validateAngle_iff, turnWithValidation_eq]
    cases hangle : validateAngle angle with
    | false => simp
    | true =>
      cases hspeed : validateSpeed speed with
      | false =>
        refine iff_of_false (by simp) ?_
        rintro ⟨rfl, -, hfin, h200⟩
        simp [hvalid.mpr ⟨hfin, h200⟩] at hspeed
      | true =>
        simp only [Bool.not_true, Bool.false_eq_true, if_false]
        constructor
        · intro hcall
          cases hcall
          exact ⟨rfl, trivial, hvalid.mp hspeed⟩
        · rintro ⟨rfl, -, -⟩
          rfl

/-- `moveForward(NaN)` is answered 200. -/
example : ((Asked.method (.moveForward (some .nan) none)).answered [] (.fin 0)
    initialGlobals).2.carSpeed = some (.number (.fin 50)) := rfl

end EmbeddedCar.System
