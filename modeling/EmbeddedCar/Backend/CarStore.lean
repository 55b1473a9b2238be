import EmbeddedCar.Backend.CarController

/-!
# What the handlers do to the store

Every request is refused without a change, or overwrites a set of fields that depends on the
request alone. `respond_refused` and `respond_accepted` say this of all handlers.
-/

namespace EmbeddedCar.Backend

open EmbeddedCar.JavaScript Script

/-! ### Refusal -/

/-- The range check compares the number a truthy speed converts to. -/
theorem speedOutOfRange_eq (speed : JsVal) :
    speedOutOfRange speed =
      if speed.truthy then
        speed.toNumber.map fun n => n.lt (.fin 0) || (JsNum.fin 100).lt n
      else .ok false := by
  unfold speedOutOfRange
  rw [JsVal.lessThan_number, JsVal.number_lessThan]
  split
  · cases speed.toNumber with
    | error e => rfl
    | ok n =>
      simp only [Except.map, bind, Except.bind]
      cases n.lt (.fin 0) <;> rfl
  · rfl

theorem speedOutOfRange_falsy {speed : JsVal} (h : speed.truthy = false) :
    speedOutOfRange speed = .ok false := by
  rw [speedOutOfRange_eq, h]
  rfl

/-- The range check passes every number from 0 to 100. -/
theorem speedOutOfRange_number {v : ℚ} (h0 : 0 ≤ v) (h100 : v ≤ 100) :
    speedOutOfRange (.number (.fin v)) = .ok false := by
  rw [speedOutOfRange_eq]
  simp [JsVal.toNumber, JsVal.toPrimitive, JsVal.primitiveNumber, JsNum.lt, Except.map,
    not_lt.mpr h0, not_lt.mpr h100]

/-- The outcome of the checks of a `request_move_*` handler. -/
def moveRefusal (h : MoveHandler) (body : JsVal) : Option Response :=
  match destructured body "speed" >>= speedOutOfRange with
  | .error e => some (failure h.error h.message e)
  | .ok outOfRange => if outOfRange then some invalidSpeed else none

/-- The checks of `update_car_movement`. -/
def updateCheck (body : JsVal) : Except JsError (Option Response) := do
  let movement ← destructured body "movement"
  let speed ← destructured body "speed"
  let direction ← destructured body "direction"
  if movement.truthy && !movement.isOneOf validMovements then return some invalidMovement
  else if direction.truthy && !direction.isOneOf validDirections then
    return some invalidDirection
  else if ← speedOutOfRange speed then return some invalidSpeed
  else return none

def updateRefusal (body : JsVal) : Option Response :=
  match updateCheck body with
  | .error e => some (failure "Update failed." "Unable to update car state." e)
  | .ok r => r

/-- The reply with which a request is refused before it assigns anything. -/
def Request.refusal : Request → Option Response
  | .moveForward body => moveRefusal Backend.moveForward body
  | .moveBackwards body => moveRefusal Backend.moveBackwards body
  | .moveLeft body => moveRefusal Backend.moveLeft body
  | .moveRight body => moveRefusal Backend.moveRight body
  | .updateMovement body => updateRefusal body
  | _ => none

/-! ### Effect -/

/-- The fields a handler sets, with their values. -/
abbrev Fields := GlobalName → Option JsVal

def MoveHandler.fields (h : MoveHandler) (body : JsVal) : Fields := fun x =>
  if x = .carSpeed then
    some ((body.get (lit "speed")).orElse (.number (.fin h.defaultSpeed)))
  else if x = h.target then some (text h.value)
  else none

def updateFields (body : JsVal) : Fields
  | .carMovement =>
      let movement := body.get (lit "movement")
      if movement.truthy then some movement else none
  | .carSpeed =>
      let speed := body.get (lit "speed")
      if speed.isUndefined then none else some speed
  | .carDirection =>
      let direction := body.get (lit "direction")
      if direction.truthy then some direction else none

def brakeFields : Fields
  | .carMovement => some (text "none")
  | .carSpeed => some (.number (.fin 0))
  | .carDirection => some (text "none")

/-- The fields a request that is not refused sets. -/
def Request.fields : Request → Fields
  | .moveForward body => Backend.moveForward.fields body
  | .moveBackwards body => Backend.moveBackwards.fields body
  | .moveLeft body => Backend.moveLeft.fields body
  | .moveRight body => Backend.moveRight.fields body
  | .updateMovement body => updateFields body
  | .brake => brakeFields
  | _ => fun _ => none

namespace Globals

def overwrite (g : Globals) (w : Fields) : Globals where
  carMovement := (w .carMovement).or g.carMovement
  carSpeed := (w .carSpeed).or g.carSpeed
  carDirection := (w .carDirection).or g.carDirection

@[simp] theorem get_overwrite (g : Globals) (w : Fields) (x : GlobalName) :
    (g.overwrite w).get x = (w x).or (g.get x) := by cases x <;> rfl

@[simp] theorem get_set (g : Globals) (value : JsVal) (x y : GlobalName) :
    (g.set value x).get y = if y = x then some value else g.get y := by
  cases x <;> cases y <;> rfl

/-- Every field has been assigned. -/
def Defined (g : Globals) : Prop := ∀ x, (g.get x).isSome = true

theorem defined_iff {g : Globals} :
    g.Defined ↔ ∃ values : GlobalName → JsVal, ∀ x, g.get x = some (values x) := by
  constructor
  · intro h
    exact ⟨fun x => (g.get x).get (h x), fun x => (Option.some_get _).symm⟩
  · rintro ⟨values, hvalues⟩ x
    rw [hvalues x]
    rfl

theorem ext_get {g h : Globals} (heq : ∀ x, g.get x = h.get x) : g = h := by
  cases g
  cases h
  have h1 := heq .carMovement
  have h2 := heq .carSpeed
  have h3 := heq .carDirection
  simp only [get] at h1 h2 h3
  rw [h1, h2, h3]

end Globals

/-- Whether a handler reads the fields after its assignments. -/
def Request.reads : Request → Bool
  | .updateMovement _ => true
  | .movement => true
  | _ => false

/-! ### One lemma for each handler -/

section

variable {g : Globals} {body : JsVal} {timestamp : JsString}

theorem destructured_ok {key : String} {v : JsVal} (h : destructured body key = .ok v) :
    v = body.get (lit key) := by
  unfold destructured at h
  split at h
  · cases h
  · cases h
    rfl

/-- The checks are two expressions that may throw. -/
theorem moveRefusal_cases (h : MoveHandler) (body : JsVal) :
    (∃ e, destructured body "speed" = .error e ∧
        moveRefusal h body = some (failure h.error h.message e)) ∨
      ∃ speed, destructured body "speed" = .ok speed ∧
        ((∃ e, speedOutOfRange speed = .error e ∧
            moveRefusal h body = some (failure h.error h.message e)) ∨
          (speedOutOfRange speed = .ok true ∧ moveRefusal h body = some invalidSpeed) ∨
          (speedOutOfRange speed = .ok false ∧ moveRefusal h body = none)) := by
  unfold moveRefusal
  cases hspeed : destructured body "speed" with
  | error e => exact .inl ⟨e, rfl, rfl⟩
  | ok speed =>
    right
    refine ⟨speed, rfl, ?_⟩
    simp only [bind, Except.bind]
    cases hrange : speedOutOfRange speed with
    | error e => exact .inl ⟨e, rfl, rfl⟩
    | ok outOfRange =>
      cases outOfRange with
      | true => exact .inr (.inl ⟨rfl, rfl⟩)
      | false => exact .inr (.inr ⟨rfl, rfl⟩)

theorem requestMove_refused {h : MoveHandler} {r : Response} (hr : moveRefusal h body = some r) :
    requestMove h timestamp body g = (.ok r, g) := by
  unfold requestMove tryBlock
  rcases moveRefusal_cases h body with ⟨e, hspeed, hreply⟩ | ⟨speed, hspeed, hcase⟩
  · cases hreply.symm.trans hr
    simp only [bind_apply, expression_apply, hspeed]
    rfl
  simp only [bind_apply, expression_apply, hspeed]
  rcases hcase with ⟨e, hrange, hreply⟩ | ⟨hrange, hreply⟩ | ⟨-, hnone⟩
  · cases hreply.symm.trans hr
    rw [hrange]
    rfl
  · cases hreply.symm.trans hr
    rw [hrange]
    rfl
  · rw [hnone] at hr
    cases hr

/-- A `request_move_*` that is not refused has a speed that passes the range check. -/
theorem moveRefusal_eq_none {h : MoveHandler} (hr : moveRefusal h body = none) :
    destructured body "speed" = .ok (body.get (lit "speed")) ∧
      speedOutOfRange (body.get (lit "speed")) = .ok false := by
  rcases moveRefusal_cases h body with ⟨e, -, hreply⟩ | ⟨speed, hspeed, hcase⟩
  · cases hreply.symm.trans hr
  rcases hcase with ⟨e, -, hreply⟩ | ⟨-, hreply⟩ | ⟨hrange, -⟩
  · cases hreply.symm.trans hr
  · cases hreply.symm.trans hr
  · have heq := destructured_ok hspeed
    subst heq
    exact ⟨hspeed, hrange⟩

/-- The reply of a `request_move_*` handler that is not refused. -/
def moveReply (h : MoveHandler) (timestamp : JsString) (body : JsVal) : Response :=
  ⟨200, [(lit "status", text h.status), (lit "direction", text h.direction),
    (lit "speed", (body.get (lit "speed")).orElse (.number (.fin h.defaultSpeed))),
    (lit "timestamp", .string timestamp)]⟩

theorem requestMove_accepted (g : Globals) (timestamp : JsString) {h : MoveHandler}
    (htarget : h.target ≠ .carSpeed) (hr : moveRefusal h body = none) :
    requestMove h timestamp body g =
      (.ok (moveReply h timestamp body), g.overwrite (h.fields body)) := by
  obtain ⟨hspeed, hrange⟩ := moveRefusal_eq_none hr
  unfold requestMove tryBlock
  simp only [bind_apply, expression_apply, hspeed, hrange]
  have hstore : (g.set (text h.value) h.target).set
      ((body.get (lit "speed")).orElse (.number (.fin h.defaultSpeed))) .carSpeed =
        g.overwrite (h.fields body) := by
    apply Globals.ext_get
    intro x
    rw [Globals.get_overwrite]
    simp only [Globals.get_set, MoveHandler.fields]
    by_cases hcarSpeed : x = .carSpeed
    · simp [hcarSpeed]
    · by_cases hx : x = h.target
      · simp [hx, htarget]
      · simp [hcarSpeed, hx]
  rw [← hstore]
  rfl

/-- The three stored values of a reply. -/
def fieldList (values : GlobalName → JsVal) : List (JsString × JsVal) :=
  [(lit "movement", values .carMovement), (lit "speed", values .carSpeed),
    (lit "direction", values .carDirection)]

theorem storedFields_defined {values : GlobalName → JsVal} (h : ∀ x, g.get x = some (values x)) :
    storedFields g = (.ok (fieldList values), g) := by
  have hread : ∀ x, read x g = (.ok (values x), g) := by
    intro x
    unfold read
    rw [h x]
  unfold storedFields
  rw [bind_ok (hread _), bind_ok (hread _), bind_ok (hread _)]
  rfl

theorem storedFields_undefined (h : ¬ g.Defined) : ∃ e, storedFields g = (.error e, g) := by
  have hread : ∀ x, g.get x = none → read x g =
      (.error ⟨.referenceError, x.text ++ lit " is not defined"⟩, g) := by
    intro x hx
    unfold read
    rw [hx]
  have hsome : ∀ x value, g.get x = some value → read x g = (.ok value, g) := by
    intro x value hx
    unfold read
    rw [hx]
  unfold storedFields
  cases hmovement : g.get .carMovement with
  | none => exact ⟨_, bind_error (hread _ hmovement) _⟩
  | some movement =>
    rw [bind_ok (hsome _ _ hmovement)]
    cases hspeed : g.get .carSpeed with
    | none => exact ⟨_, bind_error (hread _ hspeed) _⟩
    | some speed =>
      rw [bind_ok (hsome _ _ hspeed)]
      cases hdirection : g.get .carDirection with
      | none => exact ⟨_, bind_error (hread _ hdirection) _⟩
      | some direction =>
        refine absurd (fun x => ?_) h
        cases x with
        | carMovement => rw [hmovement]; rfl
        | carSpeed => rw [hspeed]; rfl
        | carDirection => rw [hdirection]; rfl

theorem assignUpdate_apply :
    assignUpdate (body.get (lit "movement")) (body.get (lit "speed"))
        (body.get (lit "direction")) g = (.ok (), g.overwrite (updateFields body)) := by
  have hstore : ∀ h : Globals, (∀ x, h.get x = (updateFields body x).or (g.get x)) →
      h = g.overwrite (updateFields body) := by
    intro h hx
    apply Globals.ext_get
    intro x
    rw [hx x, Globals.get_overwrite]
  unfold assignUpdate
  by_cases hmovement : (body.get (lit "movement")).truthy = true <;>
    by_cases hspeed : (body.get (lit "speed")).isUndefined = true <;>
      by_cases hdirection : (body.get (lit "direction")).truthy = true <;>
        (refine Prod.ext ?_ (hstore _ fun x => ?_)
         · simp [hmovement, hspeed, hdirection, bind_apply, assign]
         · cases x <;> simp [hmovement, hspeed, hdirection, bind_apply, assign, updateFields,
             Globals.get, Globals.set])

/-- The handler up to its assignments is `updateCheck`. -/
theorem updateCarMovement_checked :
    updateCarMovement body g =
      match updateCheck body with
      | .error e => (.ok (failure "Update failed." "Unable to update car state." e), g)
      | .ok (some r) => (.ok r, g)
      | .ok none =>
          tryBlock
            (do
              let fields ← storedFields
              return ⟨200, (lit "status", text "Updated.") :: fields⟩)
            (fun e => return failure "Update failed." "Unable to update car state." e)
            (g.overwrite (updateFields body)) := by
  by_cases hnull : body.isNullish = true
  · have herror : ∀ key, ∃ e, destructured body key = .error e := by
      intro key
      unfold destructured
      rw [if_pos hnull]
      exact ⟨_, rfl⟩
    obtain ⟨e, he⟩ := herror "movement"
    simp only [updateCarMovement, updateCheck, tryBlock, bind_apply, expression_apply, he]
    rfl
  · have hok : ∀ key, destructured body key = .ok (body.get (lit key)) := by
      intro key
      unfold destructured
      rw [if_neg hnull]
    have hmovement := hok "movement"
    have hspeed := hok "speed"
    have hdirection := hok "direction"
    generalize hm : body.get (lit "movement") = movement at hmovement
    generalize hs : body.get (lit "speed") = speed at hspeed
    generalize hd : body.get (lit "direction") = direction at hdirection
    have hassign : assignUpdate movement speed direction g =
        (.ok (), g.overwrite (updateFields body)) := by
      rw [← hm, ← hs, ← hd]
      exact assignUpdate_apply
    simp only [updateCarMovement, updateCheck, hmovement, hspeed, hdirection, tryBlock, bind,
      Script.bind, Except.bind, expression_apply]
    by_cases hinvalid : (movement.truthy && !movement.isOneOf validMovements) = true
    · simp only [if_pos hinvalid]
      rfl
    by_cases hinvalid' : (direction.truthy && !direction.isOneOf validDirections) = true
    · simp only [if_neg hinvalid, if_pos hinvalid']
      rfl
    simp only [if_neg hinvalid, if_neg hinvalid']
    cases hrange : speedOutOfRange speed with
    | error e => rfl
    | ok outOfRange =>
      cases outOfRange with
      | true => rfl
      | false =>
        simp only [Script.bind, expression_apply, Bool.false_eq_true, if_false, hassign]
        rfl

theorem updateCheck_nullish (h : body.isNullish = true) : ∃ e, updateCheck body = .error e := by
  unfold updateCheck destructured
  simp only [h, if_true]
  exact ⟨_, rfl⟩

theorem updateCheck_eq (h : ¬ body.isNullish = true) :
    updateCheck body =
      let movement := body.get (lit "movement")
      let direction := body.get (lit "direction")
      if movement.truthy && !movement.isOneOf validMovements then .ok (some invalidMovement)
      else if direction.truthy && !direction.isOneOf validDirections then
        .ok (some invalidDirection)
      else
        match speedOutOfRange (body.get (lit "speed")) with
        | .error e => .error e
        | .ok outOfRange => .ok (if outOfRange then some invalidSpeed else none) := by
  unfold updateCheck destructured
  simp only [if_neg h, bind, Except.bind]
  cases speedOutOfRange (body.get (lit "speed")) with
  | error e => rfl
  | ok outOfRange => cases outOfRange <;> rfl

theorem updateCheck_status {r : Response} (h : updateCheck body = .ok (some r)) :
    r.status = 400 := by
  by_cases hnull : body.isNullish = true
  · obtain ⟨e, he⟩ := updateCheck_nullish hnull
    rw [he] at h
    cases h
  · rw [updateCheck_eq hnull] at h
    simp only at h
    split at h
    · cases h
      rfl
    split at h
    · cases h
      rfl
    split at h
    · cases h
    · next outOfRange _ =>
      cases outOfRange <;> cases h
      rfl

theorem updateCarMovement_refused {r : Response} (hr : updateRefusal body = some r) :
    updateCarMovement body g = (.ok r, g) := by
  unfold updateRefusal at hr
  rw [updateCarMovement_checked]
  cases hcheck : updateCheck body with
  | error e =>
    rw [hcheck] at hr
    cases hr
    rfl
  | ok refusal =>
    rw [hcheck] at hr
    cases hr
    rfl

theorem updateCarMovement_accepted (hr : updateRefusal body = none) :
    updateCarMovement body g =
      tryBlock
        (do
          let fields ← storedFields
          return ⟨200, (lit "status", text "Updated.") :: fields⟩)
        (fun e => return failure "Update failed." "Unable to update car state." e)
        (g.overwrite (updateFields body)) := by
  unfold updateRefusal at hr
  rw [updateCarMovement_checked]
  cases hcheck : updateCheck body with
  | error e =>
    rw [hcheck] at hr
    cases hr
  | ok refusal =>
    rw [hcheck] at hr
    cases hr
    rfl

/-- Reading the fields back for the reply. -/
theorem tryBlock_storedFields (reply : List (JsString × JsVal) → Response)
    (handler : JsError → Response) :
    tryBlock
        (do
          let fields ← storedFields
          return reply fields)
        (fun e => return handler e) g =
      (match storedFields g with
        | (.ok fields, _) => .ok (reply fields)
        | (.error e, _) => .ok (handler e), g) := by
  by_cases hdefined : g.Defined
  · obtain ⟨values, hvalues⟩ := Globals.defined_iff.mp hdefined
    have hfields := storedFields_defined hvalues
    rw [hfields]
    exact tryBlock_ok (bind_ok hfields _) _
  · obtain ⟨e, he⟩ := storedFields_undefined hdefined
    rw [he]
    exact tryBlock_error (bind_error he _) _

theorem requestCarMovement_defined {values : GlobalName → JsVal}
    (h : ∀ x, g.get x = some (values x)) :
    requestCarMovement g = (.ok ⟨200, fieldList values⟩, g) := by
  have hreply := tryBlock_storedFields (g := g) (fun fields => ⟨200, fields⟩)
    (fun e => ⟨400, [(lit "error", text "Failed to get car movement."),
      (lit "details", .string e.message)]⟩)
  rw [storedFields_defined h] at hreply
  exact hreply

end

/-! ### All requests -/

section

variable {g : Globals} {timestamp : JsString} {req : Request} {r : Response}

theorem respond_refused (hr : req.refusal = some r) :
    respond timestamp req g = (.ok r, g) := by
  cases req with
  | moveForward body => exact requestMove_refused hr
  | moveBackwards body => exact requestMove_refused hr
  | moveLeft body => exact requestMove_refused hr
  | moveRight body => exact requestMove_refused hr
  | updateMovement body => exact updateCarMovement_refused hr
  | _ => cases hr

theorem moveRefusal_status {h : MoveHandler} {body : JsVal} (hr : moveRefusal h body = some r) :
    r.status = 400 := by
  unfold moveRefusal at hr
  split at hr
  · cases hr
    rfl
  · split at hr <;> cases hr
    rfl

theorem updateRefusal_status {body : JsVal} (hr : updateRefusal body = some r) :
    r.status = 400 := by
  unfold updateRefusal at hr
  split at hr
  · cases hr
    rfl
  · next refusal hcheck =>
    subst hr
    exact updateCheck_status hcheck

theorem refusal_status (hr : req.refusal = some r) : r.status = 400 := by
  cases req with
  | moveForward body => exact moveRefusal_status hr
  | moveBackwards body => exact moveRefusal_status hr
  | moveLeft body => exact moveRefusal_status hr
  | moveRight body => exact moveRefusal_status hr
  | updateMovement body => exact updateRefusal_status hr
  | _ => cases hr

/-- A `request_move_*` handler replies with 400, or with its status and speed. -/
theorem requestMove_reply (g : Globals) (timestamp : JsString) {h : MoveHandler} (body : JsVal)
    (htarget : h.target ≠ .carSpeed) :
    ∃ r, (requestMove h timestamp body g).1 = .ok r ∧
      (r.status = 400 ∨ r = moveReply h timestamp body) := by
  cases hr : moveRefusal h body with
  | some r =>
    rw [requestMove_refused hr]
    exact ⟨r, rfl, .inl (moveRefusal_status hr)⟩
  | none =>
    rw [requestMove_accepted g timestamp htarget hr]
    exact ⟨_, rfl, .inr rfl⟩

/-- `update_movement` replies with 400, or with the values it has stored. -/
theorem updateCarMovement_reply (g : Globals) (body : JsVal) :
    ∃ r, (updateCarMovement body g).1 = .ok r ∧
      (r.status = 400 ∨ updateRefusal body = none ∧
        ∃ values : GlobalName → JsVal,
          (∀ x, (g.overwrite (updateFields body)).get x = some (values x)) ∧
            r = ⟨200, (lit "status", text "Updated.") :: fieldList values⟩) := by
  cases hr : updateRefusal body with
  | some r =>
    rw [updateCarMovement_refused hr]
    exact ⟨r, rfl, .inl (updateRefusal_status hr)⟩
  | none =>
    rw [updateCarMovement_accepted hr, tryBlock_storedFields]
    by_cases hdefined : (g.overwrite (updateFields body)).Defined
    · obtain ⟨values, hvalues⟩ := Globals.defined_iff.mp hdefined
      rw [storedFields_defined hvalues]
      exact ⟨_, rfl, .inr ⟨rfl, values, hvalues, rfl⟩⟩
    · obtain ⟨e, he⟩ := storedFields_undefined hdefined
      rw [he]
      exact ⟨_, rfl, .inl rfl⟩

/-- The run of a handler that left `h` behind: it succeeds unless it reads the fields back and
one is undefined. -/
def Finishes (run : Except JsError Response × Globals) (h : Globals) (reads : Bool) : Prop :=
  ∃ r : Response, run = (.ok r, h) ∧ (r.status = 200 ∨ r.status = 400) ∧
    (r.status = 200 ↔ (reads = true → h.Defined))

theorem finishes_reading (h : Globals) {reply : List (JsString × JsVal) → Response}
    {handler : JsError → Response} (hreply : ∀ fields, (reply fields).status = 200)
    (hhandler : ∀ e, (handler e).status = 400) :
    Finishes
      (tryBlock
        (do
          let fields ← storedFields
          return reply fields)
        (fun e => return handler e) h) h true := by
  rw [tryBlock_storedFields]
  by_cases hdefined : h.Defined
  · obtain ⟨values, hvalues⟩ := Globals.defined_iff.mp hdefined
    rw [storedFields_defined hvalues]
    exact ⟨_, rfl, .inl (hreply _), by simp [hreply, hdefined]⟩
  · obtain ⟨e, he⟩ := storedFields_undefined hdefined
    rw [he]
    exact ⟨_, rfl, .inr (hhandler _), by simp [hhandler, hdefined]⟩

theorem finishes_ok {run : Except JsError Response × Globals} {h : Globals} {r : Response}
    (hrun : run = (.ok r, h)) (hr : r.status = 200) : Finishes run h false :=
  ⟨r, hrun, .inl hr, by simp [hr]⟩

/-- A request that is not refused overwrites its fields. -/
theorem respond_accepted (g : Globals) (timestamp : JsString) (hr : req.refusal = none) :
    Finishes (respond timestamp req g) (g.overwrite req.fields) req.reads := by
  have hmove : ∀ (h : MoveHandler) (body : JsVal), h.target ≠ .carSpeed →
      moveRefusal h body = none →
        Finishes (requestMove h timestamp body g) (g.overwrite (h.fields body)) false := by
    intro h body htarget hnone
    exact finishes_ok (requestMove_accepted g timestamp htarget hnone) rfl
  have hsame : g.overwrite (fun _ => none) = g := Globals.ext_get fun x => by simp
  cases req with
  | moveForward body => exact hmove _ body (by decide) hr
  | moveBackwards body => exact hmove _ body (by decide) hr
  | moveLeft body => exact hmove _ body (by decide) hr
  | moveRight body => exact hmove _ body (by decide) hr
  | updateMovement body =>
    change Finishes (updateCarMovement body g) _ _
    rw [updateCarMovement_accepted hr]
    exact finishes_reading _ (fun _ => rfl) (fun _ => rfl)
  | movement =>
    change Finishes _ (g.overwrite fun _ => none) _
    rw [hsame]
    exact finishes_reading g (fun _ => rfl) (fun _ => rfl)
  | brake => exact finishes_ok rfl rfl
  | connect =>
    change Finishes _ (g.overwrite fun _ => none) _
    rw [hsame]
    exact finishes_ok rfl rfl
  | index uptime =>
    change Finishes _ (g.overwrite fun _ => none) _
    rw [hsame]
    exact finishes_ok rfl rfl

end

/-! ### Sequences of requests -/

/-- Requests with the times at which they are handled. -/
abbrev Arrivals := List (JsString × Request)

/-- The store after a sequence of requests. -/
def after (g : Globals) (arrivals : Arrivals) : Globals :=
  arrivals.foldl (fun g a => (respond a.1 a.2 g).2) g

theorem after_append (g : Globals) (first second : Arrivals) :
    after g (first ++ second) = after (after g first) second := List.foldl_append

end EmbeddedCar.Backend
