import EmbeddedCar.Backend.CarStore

/-!
# The stored command

What a rejected request leaves behind, and which values the three fields can take. Validation,
assignment and the reply share one `try` block, so an `update_movement` that passes validation
still fails with status 400 when a field it does not set was never assigned.
-/

namespace EmbeddedCar.Backend

open EmbeddedCar.JavaScript

/-- The request passes validation, leaves a field without a value, and changes another one. -/
def LateFailure (g : Globals) (req : Request) : Prop :=
  ∃ body, req = .updateMovement body ∧ updateCheck body = .ok none ∧
    (∃ x, g.get x = none ∧ updateFields body x = none) ∧
    ∃ x value, updateFields body x = some value ∧ g.get x ≠ some value

section

variable {g : Globals} {timestamp : JsString} {req : Request}

theorem updateRefusal_eq_none {body : JsVal} :
    updateRefusal body = none ↔ updateCheck body = .ok none := by
  unfold updateRefusal
  constructor
  · intro h
    split at h
    · cases h
    · next hcheck => rw [hcheck, h]
  · intro h
    rw [h]

theorem not_defined_overwrite {w : Fields} :
    ¬ (g.overwrite w).Defined ↔ ∃ x, g.get x = none ∧ w x = none := by
  unfold Globals.Defined
  constructor
  · intro h
    by_contra hno
    apply h
    intro x
    rw [Globals.get_overwrite]
    cases hw : w x with
    | some value => rfl
    | none =>
      cases hg : g.get x with
      | some value => rfl
      | none => exact absurd ⟨x, hg, hw⟩ hno
  · rintro ⟨x, hg, hw⟩ h
    have hx := h x
    rw [Globals.get_overwrite, hg, hw] at hx
    cases hx

theorem overwrite_ne_self {w : Fields} :
    g.overwrite w ≠ g ↔ ∃ x value, w x = some value ∧ g.get x ≠ some value := by
  constructor
  · intro h
    by_contra hno
    apply h
    apply Globals.ext_get
    intro x
    rw [Globals.get_overwrite]
    cases hw : w x with
    | none => rfl
    | some value =>
      by_cases hx : g.get x = some value
      · rw [hx]
        rfl
      · exact absurd ⟨x, value, hw, hx⟩ hno
  · rintro ⟨x, value, hw, hx⟩ heq
    apply hx
    rw [← heq, Globals.get_overwrite, hw]
    rfl

/-- Late failures are the failures after the assignments. -/
theorem lateFailure_iff :
    LateFailure g req ↔ req.refusal = none ∧ req.reads = true ∧
      ¬ (g.overwrite req.fields).Defined ∧ g.overwrite req.fields ≠ g := by
  constructor
  · rintro ⟨body, rfl, hcheck, hundefined, hchanged⟩
    exact ⟨updateRefusal_eq_none.mpr hcheck, rfl, not_defined_overwrite.mpr hundefined,
      overwrite_ne_self.mpr hchanged⟩
  · rintro ⟨hrefusal, hreads, hundefined, hchanged⟩
    cases req with
    | updateMovement body =>
      exact ⟨body, rfl, updateRefusal_eq_none.mp hrefusal, not_defined_overwrite.mp hundefined,
        overwrite_ne_self.mp hchanged⟩
    | movement => exact absurd (Globals.ext_get fun x => by simp [Request.fields]) hchanged
    | _ => cases hreads

/-- What a request can do: succeed and overwrite its fields, or fail with status 400, without a
change or late. -/
theorem respond_cases (g : Globals) (timestamp : JsString) (req : Request) :
    ∃ r : Response, (respond timestamp req g).1 = .ok r ∧
      ((r.status = 200 ∧ ¬ LateFailure g req ∧ req.refusal = none ∧
          (respond timestamp req g).2 = g.overwrite req.fields) ∨
        (r.status = 400 ∧ ¬ LateFailure g req ∧ (respond timestamp req g).2 = g) ∨
        (r.status = 400 ∧ LateFailure g req ∧
          (respond timestamp req g).2 = g.overwrite req.fields)) := by
  cases hrefusal : req.refusal with
  | some r =>
    have hlate : ¬ LateFailure g req := by
      rw [lateFailure_iff, hrefusal]
      simp
    rw [respond_refused hrefusal]
    exact ⟨r, rfl, .inr (.inl ⟨refusal_status hrefusal, hlate, rfl⟩)⟩
  | none =>
    obtain ⟨r, hrun, hstatus, hiff⟩ := respond_accepted g timestamp hrefusal
    rw [hrun]
    refine ⟨r, rfl, ?_⟩
    by_cases hok : r.status = 200
    · left
      refine ⟨hok, ?_, rfl, rfl⟩
      rw [lateFailure_iff]
      exact fun h => h.2.2.1 (hiff.mp hok h.2.1)
    · right
      have h400 := hstatus.resolve_left hok
      have hfail : req.reads = true ∧ ¬ (g.overwrite req.fields).Defined := by
        rw [hiff, Classical.not_imp] at hok
        exact hok
      by_cases hsame : g.overwrite req.fields = g
      · left
        refine ⟨h400, ?_, hsame⟩
        rw [lateFailure_iff]
        exact fun h => h.2.2.2 hsame
      · right
        exact ⟨h400, lateFailure_iff.mpr ⟨hrefusal, hfail.1, hfail.2, hsame⟩, rfl⟩

end

/-- One request that is not answered with 2xx leaves the store as it was, unless it is a late
failure. -/
theorem respond_unchanged_iff (g : Globals) (timestamp : JsString) (req : Request) :
    ((answer (respond timestamp req g).1).status / 100 ≠ 2 → (respond timestamp req g).2 = g) ↔
      ¬ LateFailure g req := by
  obtain ⟨r, hr, hcase⟩ := respond_cases g timestamp req
  rw [hr]
  change (r.status / 100 ≠ 2 → _) ↔ _
  rcases hcase with ⟨hstatus, hlate, -, -⟩ | ⟨-, hlate, hstore⟩ | ⟨hstatus, hlate, hstore⟩
  · exact ⟨fun _ => hlate, fun _ hrejected => absurd (by rw [hstatus]) hrejected⟩
  · exact ⟨fun _ => hlate, fun _ _ => hstore⟩
  · refine ⟨fun hsame => ?_, fun hno => absurd hlate hno⟩
    have hrejected : r.status / 100 ≠ 2 := by
      rw [hstatus]
      decide
    exact absurd (hstore.symm.trans (hsame hrejected)) (lateFailure_iff.mp hlate).2.2.2

/-- From server start, every rejected request of a sequence leaves the store as it was exactly
when none of the requests is a late failure. -/
theorem rejected_unchanged_iff (arrivals : Arrivals) :
    (∀ first a second, arrivals = first ++ a :: second →
        (answer (respond a.1 a.2 (after initialGlobals first)).1).status / 100 ≠ 2 →
          after initialGlobals (first ++ [a]) = after initialGlobals first) ↔
      ∀ first a second, arrivals = first ++ a :: second →
        ¬ LateFailure (after initialGlobals first) a.2 := by
  have hstep : ∀ first a, after initialGlobals (first ++ [a]) =
      (respond a.1 a.2 (after initialGlobals first)).2 := by
    intro first a
    rw [after_append]
    rfl
  constructor
  · intro h first a second heq
    refine (respond_unchanged_iff _ a.1 a.2).mp fun hrejected => ?_
    rw [← hstep]
    exact h first a second heq hrejected
  · intro h first a second heq hrejected
    rw [hstep]
    exact (respond_unchanged_iff _ a.1 a.2).mpr (h first a second heq) hrejected

/-- The first request after the start, with a movement only: it is answered with 400 and the
movement is stored. -/
theorem rejected_forward_is_stored :
    let run := respond [] (.updateMovement (.object [(lit "movement", text "forward")]))
      initialGlobals
    (answer run.1).status = 400 ∧ initialGlobals.carMovement = none ∧
      run.2.carMovement = some (text "forward") := by
  exact ⟨rfl, rfl, rfl⟩

/-! ### Well-formedness -/

/-- The movement and the direction are in their domains once assigned. -/
structure ValidNames (g : Globals) : Prop where
  movement : ∀ v, g.carMovement = some v → v.isOneOf validMovements = true
  direction : ∀ v, g.carDirection = some v → v.isOneOf validDirections = true

/-- A stored speed in its domain. -/
def SpeedInRange (v : JsVal) : Prop := ∃ q : ℚ, v = .number (.fin q) ∧ 0 ≤ q ∧ q ≤ 100

/-- Every assigned field is in its domain. -/
structure WellFormed (g : Globals) : Prop extends ValidNames g where
  speed : ∀ v, g.carSpeed = some v → SpeedInRange v

/-- The condition on the speed of a `request_move_*`: it is falsy, so that the default is
stored, or a number, or refused. -/
def moveNumeric (h : MoveHandler) (body : JsVal) : Prop :=
  (body.get (lit "speed")).truthy = false ∨ (∃ n, body.get (lit "speed") = .number n) ∨
    moveRefusal h body ≠ none

/-- The condition on the speed of a request: it is absent or a number, or the request is
refused. -/
def Request.NumericSpeed : Request → Prop
  | .moveForward body => moveNumeric Backend.moveForward body
  | .moveBackwards body => moveNumeric Backend.moveBackwards body
  | .moveLeft body => moveNumeric Backend.moveLeft body
  | .moveRight body => moveNumeric Backend.moveRight body
  | .updateMovement body =>
      body.get (lit "speed") = .undefined ∨
        (∃ n, n ≠ .nan ∧ body.get (lit "speed") = .number n) ∨ updateRefusal body ≠ none
  | _ => True

/-- A value that passes the range check is in 0..100 exactly when it is a number. -/
theorem in_range_iff {speed : JsVal} (h : speedOutOfRange speed = .ok false) :
    SpeedInRange speed ↔ ∃ n, n ≠ .nan ∧ speed = .number n := by
  constructor
  · rintro ⟨q, rfl, -⟩
    exact ⟨.fin q, by simp, rfl⟩
  · rintro ⟨n, hn, rfl⟩
    rw [speedOutOfRange_eq] at h
    cases n with
    | nan => exact absurd rfl hn
    | posInf => cases h
    | negInf => cases h
    | fin q =>
      refine ⟨q, rfl, ?_⟩
      by_cases hzero : q = 0
      · subst hzero
        exact ⟨le_refl 0, by norm_num⟩
      · rw [if_pos (by simpa [JsVal.truthy] using hzero)] at h
        have hrange : (decide (q < 0) || decide (100 < q)) = false := Except.ok.inj h
        rw [Bool.or_eq_false_iff, decide_eq_false_iff_not, decide_eq_false_iff_not] at hrange
        exact ⟨not_lt.mp hrange.1, not_lt.mp hrange.2⟩

/-- What passing `updateCheck` means for the three values. -/
theorem updateCheck_passed {body : JsVal} (h : updateCheck body = .ok none) :
    (∀ v, updateFields body .carMovement = some v → v.isOneOf validMovements = true) ∧
      (∀ v, updateFields body .carDirection = some v → v.isOneOf validDirections = true) ∧
      speedOutOfRange (body.get (lit "speed")) = .ok false := by
  by_cases hnull : body.isNullish = true
  · obtain ⟨e, he⟩ := updateCheck_nullish hnull
    rw [he] at h
    cases h
  · rw [updateCheck_eq hnull] at h
    simp only at h
    split at h
    · cases h
    next hmovement =>
    split at h
    · cases h
    next hdirection =>
    refine ⟨fun v hv => ?_, fun v hv => ?_, ?_⟩
    · simp only [updateFields] at hv
      split at hv
      · next htruthy =>
        cases hv
        simpa [htruthy] using hmovement
      · cases hv
    · simp only [updateFields] at hv
      split at hv
      · next htruthy =>
        cases hv
        simpa [htruthy] using hdirection
      · cases hv
    · split at h
      · cases h
      · next outOfRange hcheck =>
        cases outOfRange with
        | true => cases h
        | false => exact hcheck

/-- The movement and the direction a request sets are in their domains. -/
theorem fields_names {req : Request} (hrefusal : req.refusal = none) :
    (∀ v, req.fields .carMovement = some v → v.isOneOf validMovements = true) ∧
      ∀ v, req.fields .carDirection = some v → v.isOneOf validDirections = true := by
  cases req with
  | moveForward body =>
    exact ⟨fun v hv => (by cases hv; rfl), fun v hv => (by cases hv)⟩
  | moveBackwards body =>
    exact ⟨fun v hv => (by cases hv; rfl), fun v hv => (by cases hv)⟩
  | moveLeft body =>
    exact ⟨fun v hv => (by cases hv), fun v hv => (by cases hv; rfl)⟩
  | moveRight body =>
    exact ⟨fun v hv => (by cases hv), fun v hv => (by cases hv; rfl)⟩
  | updateMovement body =>
    obtain ⟨hmovement, hdirection, -⟩ := updateCheck_passed (updateRefusal_eq_none.mp hrefusal)
    exact ⟨hmovement, hdirection⟩
  | brake => exact ⟨fun v hv => (by cases hv; rfl), fun v hv => (by cases hv; rfl)⟩
  | _ => exact ⟨fun v hv => (by cases hv), fun v hv => (by cases hv)⟩

theorem or_eq_some_cases {o p : Option JsVal} {v : JsVal} (h : o.or p = some v) :
    o = some v ∨ p = some v := by
  cases o with
  | none => exact .inr h
  | some u => exact .inl h

theorem ValidNames.overwrite {g : Globals} (hg : ValidNames g) {req : Request}
    (hrefusal : req.refusal = none) : ValidNames (g.overwrite req.fields) := by
  obtain ⟨hmovement, hdirection⟩ := fields_names hrefusal
  refine ⟨fun v hv => ?_, fun v hv => ?_⟩
  · exact (or_eq_some_cases hv).elim (hmovement v) (hg.movement v)
  · exact (or_eq_some_cases hv).elim (hdirection v) (hg.direction v)

/-- A request that is not refused keeps the store well formed when the speed it sets is in
range. -/
theorem wellFormed_overwrite_iff {g : Globals} (hg : WellFormed g) {req : Request}
    (hrefusal : req.refusal = none) :
    WellFormed (g.overwrite req.fields) ↔
      ∀ v, req.fields .carSpeed = some v → SpeedInRange v := by
  constructor
  · intro h v hv
    apply h.speed v
    simp [Globals.overwrite, hv]
  · intro h
    refine ⟨hg.toValidNames.overwrite hrefusal, fun v hv => ?_⟩
    exact (or_eq_some_cases hv).elim (h v) (hg.speed v)

theorem moveFields_inRange_iff {h : MoveHandler} {body : JsVal}
    (hnone : moveRefusal h body = none) (hlow : 0 ≤ h.defaultSpeed)
    (hhigh : h.defaultSpeed ≤ 100) :
    (∀ v, h.fields body .carSpeed = some v → SpeedInRange v) ↔ moveNumeric h body := by
  have hchecked := (moveRefusal_eq_none hnone).2
  have hfield : h.fields body .carSpeed =
    some ((body.get (lit "speed")).orElse (.number (.fin h.defaultSpeed))) := if_pos rfl
  unfold moveNumeric
  simp only [hfield, Option.some.injEq, forall_eq', hnone, ne_eq, not_true_eq_false, or_false]
  unfold JsVal.orElse
  by_cases htruthy : (body.get (lit "speed")).truthy = true
  · rw [if_pos htruthy, in_range_iff hchecked]
    constructor
    · rintro ⟨n, -, hn⟩
      exact .inr ⟨n, hn⟩
    · rintro (hfalse | ⟨n, hn⟩)
      · rw [htruthy] at hfalse
        cases hfalse
      · refine ⟨n, ?_, hn⟩
        rintro rfl
        rw [hn] at htruthy
        cases htruthy
  · rw [if_neg htruthy]
    exact ⟨fun _ => .inl (by simpa using htruthy), fun _ => ⟨_, rfl, hlow, hhigh⟩⟩

theorem updateFields_inRange_iff {body : JsVal} (hcheck : updateCheck body = .ok none) :
    (∀ v, updateFields body .carSpeed = some v → SpeedInRange v) ↔
      (Request.updateMovement body).NumericSpeed := by
  obtain ⟨-, -, hchecked⟩ := updateCheck_passed hcheck
  change _ ↔ _ ∨ _ ∨ updateRefusal body ≠ none
  simp only [updateRefusal_eq_none.mpr hcheck, ne_eq, not_true_eq_false, or_false]
  by_cases hundefined : body.get (lit "speed") = .undefined
  · have hnone : updateFields body .carSpeed = none := by
      unfold updateFields
      rw [hundefined]
      rfl
    simp [hnone, hundefined]
  · have hno : (body.get (lit "speed")).isUndefined = false := by
      cases hv : body.get (lit "speed") with
      | undefined => exact absurd hv hundefined
      | _ => rfl
    have hsome : updateFields body .carSpeed = some (body.get (lit "speed")) := by
      simp [updateFields, hno]
    rw [hsome]
    simp only [Option.some.injEq, forall_eq', hundefined, false_or]
    exact in_range_iff hchecked

/-- A request that is not refused keeps the store well formed when its speed is a number. -/
theorem wellFormed_accepted_iff {g : Globals} (hg : WellFormed g) {req : Request}
    (hrefusal : req.refusal = none) :
    WellFormed (g.overwrite req.fields) ↔ req.NumericSpeed := by
  rw [wellFormed_overwrite_iff hg hrefusal]
  cases req with
  | moveForward body => exact moveFields_inRange_iff hrefusal (by decide) (by decide)
  | moveBackwards body => exact moveFields_inRange_iff hrefusal (by decide) (by decide)
  | moveLeft body => exact moveFields_inRange_iff hrefusal (by decide) (by decide)
  | moveRight body => exact moveFields_inRange_iff hrefusal (by decide) (by decide)
  | updateMovement body => exact updateFields_inRange_iff (updateRefusal_eq_none.mp hrefusal)
  | brake =>
    refine ⟨fun _ => trivial, fun _ v hv => ?_⟩
    cases hv
    exact ⟨0, rfl, le_refl 0, by norm_num⟩
  | _ => exact ⟨fun _ => trivial, fun _ v hv => (by cases hv)⟩

/-- One request, refused or not, whatever its reply. -/
theorem wellFormed_respond_iff {g : Globals} (hg : WellFormed g) (timestamp : JsString)
    (req : Request) : WellFormed (respond timestamp req g).2 ↔ req.NumericSpeed := by
  cases hrefusal : req.refusal with
  | none =>
    obtain ⟨r, hrun, -⟩ := respond_accepted g timestamp hrefusal
    rw [hrun]
    exact wellFormed_accepted_iff hg hrefusal
  | some r =>
    rw [respond_refused hrefusal]
    refine ⟨fun _ => ?_, fun _ => hg⟩
    have hmove : ∀ (h : MoveHandler) (body : JsVal), moveRefusal h body = some r →
        moveNumeric h body := fun h body hr => .inr (.inr (by rw [hr]; simp))
    cases req with
    | moveForward body => exact hmove _ body hrefusal
    | moveBackwards body => exact hmove _ body hrefusal
    | moveLeft body => exact hmove _ body hrefusal
    | moveRight body => exact hmove _ body hrefusal
    | updateMovement body =>
      refine .inr (.inr ?_)
      rw [show updateRefusal body = some r from hrefusal]
      simp
    | _ => trivial

theorem validNames_initial : ValidNames initialGlobals := by
  refine ⟨?_, ?_⟩ <;> (intro v hv; cases hv)

theorem wellFormed_initial : WellFormed initialGlobals :=
  ⟨validNames_initial, fun v hv => (by cases hv)⟩

/-- Whatever the requests, the movement and the direction stay in their domains. -/
theorem ValidNames.after {g : Globals} (hg : ValidNames g) (arrivals : Arrivals) :
    ValidNames (after g arrivals) := by
  induction arrivals generalizing g with
  | nil => exact hg
  | cons a arrivals ih =>
    refine ih ?_
    change ValidNames (respond a.1 a.2 g).2
    cases hrefusal : a.2.refusal with
    | some r =>
      rw [respond_refused hrefusal]
      exact hg
    | none =>
      obtain ⟨r, hrun, -⟩ := respond_accepted g a.1 hrefusal
      rw [hrun]
      exact hg.overwrite hrefusal

theorem wellFormed_after {g : Globals} (hg : WellFormed g) {arrivals : Arrivals}
    (h : ∀ a ∈ arrivals, a.2.NumericSpeed) : WellFormed (after g arrivals) := by
  induction arrivals generalizing g with
  | nil => exact hg
  | cons a arrivals ih =>
    have hstep := (wellFormed_respond_iff hg a.1 a.2).mpr (h a List.mem_cons_self)
    exact ih hstep fun b hb => h b (List.mem_cons_of_mem a hb)

/-- From server start, the store is well formed after every request of a sequence exactly when
every request meets the condition on its speed. -/
theorem stored_command_wellFormed_iff (arrivals : Arrivals) :
    (∀ first second, arrivals = first ++ second → WellFormed (after initialGlobals first)) ↔
      ∀ a ∈ arrivals, a.2.NumericSpeed := by
  constructor
  · intro h a ha
    obtain ⟨first, second, rfl⟩ := List.append_of_mem ha
    have hbefore := h first (a :: second) rfl
    have hafter := h (first ++ [a]) second (by simp)
    rw [after_append] at hafter
    exact (wellFormed_respond_iff hbefore a.1 a.2).mp hafter
  · rintro h first second rfl
    exact wellFormed_after wellFormed_initial fun a ha => h a (List.mem_append_left second ha)

/-- `{"speed": null}` is accepted by the range check and stored. -/
theorem null_speed_is_stored :
    let g := after initialGlobals
      [([], .updateMovement (.object [(lit "speed", .null)]))]
    g.carSpeed = some .null ∧ ¬ WellFormed g := by
  refine ⟨rfl, fun h => ?_⟩
  obtain ⟨q, hq, -⟩ := h.speed .null rfl
  cases hq

end EmbeddedCar.Backend
