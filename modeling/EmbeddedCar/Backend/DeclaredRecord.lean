import EmbeddedCar.Backend.StoredCommand

/-!
# The declared record

What the store is for: `car.js` declares the three fields with initial values, and every command
answered with 200 overwrites the ones its handler sets. The handlers keep their own globals
instead, so the store follows the declared record only while no field is read before it was
assigned.
-/

namespace EmbeddedCar.Backend

open EmbeddedCar.JavaScript

/-- A record whose fields all have values. -/
abbrev Record := GlobalName → JsVal

/-- `car.js:17-19`. -/
def declaredRecord : Record
  | .carMovement => text "none"
  | .carSpeed => .number (.fin 0)
  | .carDirection => text "none"

def Record.overwrite (r : Record) (w : Fields) : Record := fun x => (w x).getD (r x)

/-- The record after one request: a command that is not answered with 200 leaves it as it
was. -/
def Record.step (g : Globals) (r : Record) (a : JsString × Request) : Record :=
  if (answer (respond a.1 a.2 g).1).status = 200 then r.overwrite a.2.fields else r

/-- The record after the requests that reach a server in state `g`. -/
def recordFrom : Globals → Record → Arrivals → Record
  | _, r, [] => r
  | g, r, a :: arrivals => recordFrom (respond a.1 a.2 g).2 (r.step g a) arrivals

/-- The record a client expects after the requests since server start. -/
def recordAfter (arrivals : Arrivals) : Record :=
  recordFrom initialGlobals declaredRecord arrivals

/-- The request does not read a field that has no value: a `GET` finds all three, and an
`update_movement` does not fail late. -/
def Request.FindsValues (g : Globals) (req : Request) : Prop :=
  (req = .movement → g.Defined) ∧ ¬ LateFailure g req

/-- Each field has the value of the record, or was never assigned and has the declared one
there. -/
def Follows (g : Globals) (r : Record) : Prop :=
  ∀ x, g.get x = some (r x) ∨ (g.get x = none ∧ r x = declaredRecord x)

theorem follows_initial : Follows initialGlobals declaredRecord := by
  intro x
  right
  cases x <;> exact ⟨rfl, rfl⟩

theorem Follows.overwrite {g : Globals} {r : Record} (h : Follows g r) (w : Fields) :
    Follows (g.overwrite w) (r.overwrite w) := by
  intro x
  unfold Record.overwrite
  rw [Globals.get_overwrite]
  cases hw : w x with
  | some value =>
    left
    rfl
  | none => exact h x

theorem Follows.step {g : Globals} {r : Record} (h : Follows g r) {a : JsString × Request}
    (hfinds : a.2.FindsValues g) : Follows (respond a.1 a.2 g).2 (r.step g a) := by
  obtain ⟨reply, hreply, hcase⟩ := respond_cases g a.1 a.2
  unfold Record.step
  rw [hreply]
  change Follows _ (if reply.status = 200 then _ else _)
  rcases hcase with ⟨hstatus, -, -, hstore⟩ | ⟨hstatus, -, hstore⟩ | ⟨-, hlate, -⟩
  · rw [if_pos hstatus, hstore]
    exact h.overwrite a.2.fields
  · have hrejected : reply.status ≠ 200 := by
      rw [hstatus]
      decide
    rw [if_neg hrejected, hstore]
    exact h
  · exact absurd hlate hfinds.2

theorem Follows.run {g : Globals} {r : Record} (h : Follows g r) {arrivals : Arrivals}
    (hfinds : ∀ first a rest, arrivals = first ++ a :: rest → a.2.FindsValues (after g first)) :
    Follows (after g arrivals) (recordFrom g r arrivals) := by
  induction arrivals generalizing g r with
  | nil => exact h
  | cons a arrivals ih =>
    have hstep := h.step (hfinds [] a arrivals rfl)
    refine ih hstep fun first b rest heq => ?_
    exact hfinds (a :: first) b rest (by rw [heq]; rfl)

theorem Follows.values {g : Globals} {r : Record} (h : Follows g r) (hdefined : g.Defined) :
    ∀ x, g.get x = some (r x) := by
  intro x
  refine (h x).resolve_right fun hnone => ?_
  have hx := hdefined x
  rw [hnone.1] at hx
  cases hx

/-- While every request finds its values, each `GET` is answered with 200 and the record of the
requests before it. -/
theorem movement_returns_record (arrivals : Arrivals)
    (h : ∀ first a rest, arrivals = first ++ a :: rest →
      a.2.FindsValues (after initialGlobals first)) :
    ∀ first timestamp rest, arrivals = first ++ (timestamp, .movement) :: rest →
      answer (respond timestamp .movement (after initialGlobals first)).1 =
        ⟨200, fieldList (recordAfter first)⟩ := by
  intro first timestamp rest heq
  have hfollows : Follows (after initialGlobals first) (recordAfter first) := by
    refine follows_initial.run fun before a later hsplit => ?_
    refine h before a (later ++ (timestamp, .movement) :: rest) ?_
    rw [heq, hsplit, List.append_assoc]
    rfl
  have hdefined := (h first _ rest heq).1 rfl
  change answer (requestCarMovement _).1 = _
  rw [requestCarMovement_defined (hfollows.values hdefined)]
  rfl

/-- A brake, an update of two fields and a `GET`. -/
def brakeUpdateGet : Arrivals :=
  [([], .brake),
    ([], .updateMovement (.object [(lit "movement", text "forward"),
      (lit "speed", .number (.fin 40))])),
    ([], .movement)]

theorem movement_returns_record_update :
    answer (respond [] .movement (after initialGlobals (brakeUpdateGet.take 2))).1 =
      ⟨200, [(lit "movement", text "forward"), (lit "speed", .number (.fin 40)),
        (lit "direction", text "none")]⟩ := by
  have hfinds : ∀ first a rest, brakeUpdateGet = first ++ a :: rest →
      a.2.FindsValues (after initialGlobals first) := by
    intro first a rest heq
    rcases first with _ | ⟨b, _ | ⟨c, _ | ⟨d, first⟩⟩⟩
    · cases heq
      exact ⟨nofun, by rintro ⟨body, hbody, -⟩; cases hbody⟩
    · cases heq
      refine ⟨nofun, ?_⟩
      rintro ⟨-, -, -, ⟨x, hx, -⟩, -⟩
      cases x <;> cases hx
    · cases heq
      refine ⟨fun _ x => ?_, by rintro ⟨body, hbody, -⟩; cases hbody⟩
      cases x <;> rfl
    · have hlength := congrArg List.length heq
      simp only [List.cons_append, List.length_cons, List.length_append] at hlength
      have hthree : brakeUpdateGet.length = 3 := rfl
      omega
  exact movement_returns_record brakeUpdateGet hfinds (brakeUpdateGet.take 2) [] [] rfl

/-- The first request after the start is a `GET`. -/
theorem first_get_fails :
    (answer (respond [] .movement initialGlobals).1).status = 400 ∧
      fieldList (recordAfter []) = [(lit "movement", text "none"),
        (lit "speed", .number (.fin 0)), (lit "direction", text "none")] :=
  ⟨rfl, rfl⟩

end EmbeddedCar.Backend
