import EmbeddedCar.Backend.StoredCommand

/-!
# Explicit speeds

What becomes of a speed that a request names. `update_movement` stores it; the handlers
`request_move_*` write `speed || 50` and `speed || 30`, which put their default in the place of
every falsy speed, and so of an explicit 0.
-/

namespace EmbeddedCar.Backend

open EmbeddedCar.JavaScript

/-- The endpoints whose body has a speed. -/
inductive SpeedEndpoint where
  | updateMovement
  | moveForward
  | moveBackwards
  | moveLeft
  | moveRight
  deriving DecidableEq

namespace SpeedEndpoint

def request : SpeedEndpoint → JsVal → Request
  | .updateMovement => .updateMovement
  | .moveForward => .moveForward
  | .moveBackwards => .moveBackwards
  | .moveLeft => .moveLeft
  | .moveRight => .moveRight

/-- The handlers `request_move_*`, which differ in their values alone. -/
def handler : SpeedEndpoint → Option MoveHandler
  | .updateMovement => none
  | .moveForward => some Backend.moveForward
  | .moveBackwards => some Backend.moveBackwards
  | .moveLeft => some Backend.moveLeft
  | .moveRight => some Backend.moveRight

/-- The reply of an endpoint, and the store it leaves. -/
def run (e : SpeedEndpoint) (g : Globals) (timestamp : JsString) (body : JsVal) :
    Response × Globals :=
  let (reply, after) := respond timestamp (e.request body) g
  (answer reply, after)

/-- If the request is answered 200, the speed it names is echoed and stored. -/
def Honours (e : SpeedEndpoint) (g : Globals) (timestamp : JsString) (body : JsVal) : Prop :=
  let (reply, after) := e.run g timestamp body
  reply.status = 200 →
    reply.body.lookup (lit "speed") = some (body.get (lit "speed")) ∧
      after.carSpeed = some (body.get (lit "speed"))

/-- Of two requests that are answered 200, the one with the body `slower` does not store the
greater speed. -/
def KeepsOrder (e : SpeedEndpoint) (g : Globals) (timestamp : JsString) (slower faster : JsVal) :
    Prop :=
  (e.run g timestamp slower).1.status = 200 → (e.run g timestamp faster).1.status = 200 →
    ∀ x y : ℚ, (e.run g timestamp slower).2.carSpeed = some (.number (.fin x)) →
      (e.run g timestamp faster).2.carSpeed = some (.number (.fin y)) → x ≤ y

variable {e : SpeedEndpoint} {h : MoveHandler} {g : Globals} {timestamp : JsString} {body : JsVal}

theorem handler_eq_none : e.handler = none ↔ e = .updateMovement := by
  cases e <;> simp [handler]

/-- The value of `speed || default`. -/
def chosen (h : MoveHandler) (body : JsVal) : JsVal :=
  (body.get (lit "speed")).orElse (.number (.fin h.defaultSpeed))

theorem run_refused (g : Globals) (timestamp : JsString) {r : Response}
    (he : e.handler = some h) (hr : moveRefusal h body = some r) :
    e.run g timestamp body = (r, g) ∧ r.status ≠ 200 := by
  have hrefusal : (e.request body).refusal = some r := by
    rw [← hr]
    cases e <;> cases he <;> rfl
  have hrun : respond timestamp (e.request body) g = (.ok r, g) := respond_refused hrefusal
  refine ⟨congrArg (Prod.map answer id) hrun, ?_⟩
  rw [refusal_status hrefusal]
  decide

theorem run_accepted (he : e.handler = some h) (hr : moveRefusal h body = none) :
    e.run g timestamp body = (moveReply h timestamp body, g.overwrite (h.fields body)) := by
  have htarget : h.target ≠ .carSpeed := by
    cases e <;> cases he <;> decide
  have hrun := requestMove_accepted g timestamp htarget hr
  cases e <;> cases he <;> exact congrArg (Prod.map answer id) hrun

theorem defaultSpeed_pos (he : e.handler = some h) : 0 < h.defaultSpeed := by
  cases e <;> cases he <;> decide

/-- A default is not falsy, so it differs from what it is put in the place of. -/
theorem chosen_eq_iff (he : e.handler = some h) :
    chosen h body = body.get (lit "speed") ↔ (body.get (lit "speed")).truthy = true := by
  unfold chosen JsVal.orElse
  cases htruthy : (body.get (lit "speed")).truthy with
  | true => simp
  | false =>
    simp only [Bool.false_eq_true, if_false, iff_false]
    intro heq
    rw [← heq] at htruthy
    simp [JsVal.truthy, (defaultSpeed_pos he).ne'] at htruthy

theorem named_of_number {n : JsNum} (hn : body.get (lit "speed") = .number n) :
    ¬ (body.get (lit "speed")).isUndefined = true := by
  simp [hn, JsVal.isUndefined]

theorem not_nullish (hnamed : ¬ (body.get (lit "speed")).isUndefined = true) :
    ¬ body.isNullish = true := by
  intro hnullish
  cases body with
  | undefined => exact hnamed rfl
  | null => exact hnamed rfl
  | _ => cases hnullish

/-- A handler whose range check passes the named speed refuses nothing. -/
theorem moveRefusal_eq_none (hnamed : ¬ (body.get (lit "speed")).isUndefined = true)
    (hrange : speedOutOfRange (body.get (lit "speed")) = .ok false) :
    moveRefusal h body = none := by
  simp only [moveRefusal, destructured, if_neg (not_nullish hnamed), bind, Except.bind, hrange]
  rfl

/-- A handler that has a default accepts every falsy speed. -/
theorem moveRefusal_falsy (hnamed : ¬ (body.get (lit "speed")).isUndefined = true)
    (hfalsy : (body.get (lit "speed")).truthy = false) : moveRefusal h body = none :=
  moveRefusal_eq_none hnamed (speedOutOfRange_falsy hfalsy)

theorem honours_move_iff (he : e.handler = some h)
    (hnamed : ¬ (body.get (lit "speed")).isUndefined = true) :
    e.Honours g timestamp body ↔ (body.get (lit "speed")).truthy = true := by
  unfold Honours
  cases hr : moveRefusal h body with
  | some r =>
    obtain ⟨hrun, hstatus⟩ := run_refused g timestamp he hr
    rw [hrun]
    constructor
    · intro _
      by_contra hfalsy
      rw [moveRefusal_falsy hnamed (Bool.eq_false_iff.mpr hfalsy)] at hr
      cases hr
    · intro _ h200
      exact absurd h200 hstatus
  | none =>
    rw [run_accepted he hr, ← chosen_eq_iff he]
    show (200 = 200 → some (chosen h body) = _ ∧ some (chosen h body) = _) ↔ _
    simp

/-- `update_movement` reads the speed for its reply from where it stored it. -/
theorem run_updateMovement (g : Globals) (timestamp : JsString) {body : JsVal}
    (hnamed : ¬ (body.get (lit "speed")).isUndefined = true)
    (h200 : (SpeedEndpoint.updateMovement.run g timestamp body).1.status = 200) :
    (SpeedEndpoint.updateMovement.run g timestamp body).1.body.lookup (lit "speed") =
        some (body.get (lit "speed")) ∧
      (SpeedEndpoint.updateMovement.run g timestamp body).2.carSpeed =
        some (body.get (lit "speed")) := by
  obtain ⟨r, hr, hcase⟩ := updateCarMovement_reply g body
  have hrun : SpeedEndpoint.updateMovement.run g timestamp body =
      (r, (updateCarMovement body g).2) := by
    show (answer (updateCarMovement body g).1, _) = _
    rw [hr]
    rfl
  rw [hrun] at h200 ⊢
  rcases hcase with h400 | ⟨hrefusal, values, hvalues, rfl⟩
  · rw [h400] at h200
    cases h200
  have hstore : (updateCarMovement body g).2 = g.overwrite (updateFields body) := by
    rw [updateCarMovement_accepted hrefusal, tryBlock_storedFields]
  have hspeed : (g.overwrite (updateFields body)).carSpeed = some (body.get (lit "speed")) := by
    show (updateFields body .carSpeed).or g.carSpeed = _
    simp only [updateFields, if_neg hnamed]
    rfl
  rw [hstore]
  refine ⟨?_, hspeed⟩
  show some (values .carSpeed) = _
  rw [← hspeed]
  exact (hvalues .carSpeed).symm

theorem honours_iff (e : SpeedEndpoint) (g : Globals) (timestamp : JsString) {body : JsVal}
    (hnamed : ¬ (body.get (lit "speed")).isUndefined = true) :
    e.Honours g timestamp body ↔
      e = .updateMovement ∨ (body.get (lit "speed")).truthy = true := by
  cases he : e.handler with
  | some h =>
    have hne : e ≠ .updateMovement := by
      rintro rfl
      cases he
    rw [honours_move_iff he hnamed]
    simp [hne]
  | none =>
    obtain rfl := handler_eq_none.mp he
    simp only [true_or, iff_true]
    exact run_updateMovement g timestamp hnamed

section

variable {v w : ℚ} {slower faster : JsVal}

/-- What is stored for a number from 0 to 100. -/
theorem run_number (g : Globals) (timestamp : JsString) (he : e.handler = some h)
    (hv : body.get (lit "speed") = .number (.fin v)) (h0 : 0 ≤ v) (h100 : v ≤ 100) :
    (e.run g timestamp body).1.status = 200 ∧
      (e.run g timestamp body).2.carSpeed =
        some (.number (.fin (if v = 0 then h.defaultSpeed else v))) := by
  have hchosen : chosen h body = .number (.fin (if v = 0 then h.defaultSpeed else v)) := by
    unfold chosen JsVal.orElse
    rw [hv]
    by_cases hzero : v = 0
    · simp [JsVal.truthy, hzero]
    · simp [JsVal.truthy, hzero]
  have hrange : speedOutOfRange (body.get (lit "speed")) = .ok false := by
    rw [hv]
    exact speedOutOfRange_number h0 h100
  have hr : moveRefusal h body = none := moveRefusal_eq_none (named_of_number hv) hrange
  rw [run_accepted he hr, ← hchosen]
  exact ⟨rfl, rfl⟩

theorem keepsOrder_iff (e : SpeedEndpoint) (g : Globals) (timestamp : JsString)
    (hv : slower.get (lit "speed") = .number (.fin v))
    (hw : faster.get (lit "speed") = .number (.fin w)) (h0 : 0 ≤ v) (hvw : v ≤ w)
    (h100 : w ≤ 100) :
    e.KeepsOrder g timestamp slower faster ↔
      e = .updateMovement ∨ v ≠ 0 ∨ w = 0 ∨ ∀ h, e.handler = some h → h.defaultSpeed ≤ w := by
  cases he : e.handler with
  | none =>
    obtain rfl := handler_eq_none.mp he
    simp only [true_or, iff_true]
    intro hslower hfaster x y hx hy
    rw [(run_updateMovement g timestamp (named_of_number hv) hslower).2, hv] at hx
    rw [(run_updateMovement g timestamp (named_of_number hw) hfaster).2, hw] at hy
    cases hx
    cases hy
    exact hvw
  | some h =>
    have hne : e ≠ .updateMovement := by
      rintro rfl
      cases he
    have hdefault := defaultSpeed_pos he
    obtain ⟨hslower, hx⟩ := run_number g timestamp he hv h0 (hvw.trans h100)
    obtain ⟨hfaster, hy⟩ := run_number g timestamp he hw (h0.trans hvw) h100
    have hstored : e.KeepsOrder g timestamp slower faster ↔
        (if v = 0 then h.defaultSpeed else v) ≤ (if w = 0 then h.defaultSpeed else w) := by
      unfold KeepsOrder
      rw [hx, hy]
      constructor
      · intro horder
        exact horder hslower hfaster _ _ rfl rfl
      · intro hle _ _ x y hx hy
        cases hx
        cases hy
        exact hle
    rw [hstored]
    simp only [hne, false_or, Option.some.injEq, forall_eq']
    by_cases hzero : v = 0
    · by_cases hwzero : w = 0
      · simp [hzero, hwzero]
      · simp [hzero, hwzero]
    · have hwzero : w ≠ 0 := fun hwzero => hzero (le_antisymm (hwzero ▸ hvw) h0)
      simp [hzero, hwzero, hvw]

end

/-- A request that names a speed has it echoed and stored, if it is answered 200, exactly when it
is an `update_movement` or the speed is not falsy, for a number: not 0. A greater speed is then
never stored for a smaller one, save that a 0 is stored as the default of the handler. -/
theorem explicit_speed_iff (e : SpeedEndpoint) (g : Globals) (timestamp : JsString) :
    (∀ body v, body.get (lit "speed") = .number (.fin v) → 0 ≤ v → v ≤ 100 →
      (e.Honours g timestamp body ↔ e = .updateMovement ∨ v ≠ 0)) ∧
    (∀ body, ¬ (body.get (lit "speed")).isUndefined = true →
      (e.Honours g timestamp body ↔
        e = .updateMovement ∨ (body.get (lit "speed")).truthy = true)) ∧
    ∀ slower faster v w, slower.get (lit "speed") = .number (.fin v) →
      faster.get (lit "speed") = .number (.fin w) → 0 ≤ v → v ≤ w → w ≤ 100 →
        (e.KeepsOrder g timestamp slower faster ↔
          e = .updateMovement ∨ v ≠ 0 ∨ w = 0 ∨ ∀ h, e.handler = some h → h.defaultSpeed ≤ w) := by
  refine ⟨?_, fun body => honours_iff e g timestamp, fun slower faster v w => ?_⟩
  · intro body v hv _ _
    rw [honours_iff e g timestamp (named_of_number hv), hv]
    simp [JsVal.truthy]
  · exact keepsOrder_iff e g timestamp

/-- A turn at speed 20 keeps its speed. -/
theorem explicit_speed_iff_turn :
    SpeedEndpoint.moveLeft.Honours initialGlobals []
      (.object [(lit "speed", .number (.fin 20))]) :=
  ((explicit_speed_iff .moveLeft initialGlobals []).1 _ 20 rfl (by decide) (by decide)).mpr
    (.inr (by decide))

/-- Forward at speed 0: 50 is stored. -/
theorem forward_at_zero :
    ¬ SpeedEndpoint.moveForward.Honours initialGlobals []
      (.object [(lit "speed", .number (.fin 0))]) ∧
    (SpeedEndpoint.moveForward.run initialGlobals []
      (.object [(lit "speed", .number (.fin 0))])).2.carSpeed = some (.number (.fin 50)) := by
  refine ⟨?_, rfl⟩
  intro h
  have hstored := (h rfl).2
  cases hstored

end SpeedEndpoint

end EmbeddedCar.Backend
