import EmbeddedCar.JavaScript.Value

/-!
# Requests as observables

An `HttpClient` request emits once: the parsed body of a 2xx reply, or an error. The operators
act on what is emitted, and on the state of the service whose code they call.
-/

namespace EmbeddedCar.Frontend

open EmbeddedCar.JavaScript

/-- What `catchError` sees: an `HttpErrorResponse`, with status 0 when there is no reply, or what
an operator has thrown, which has no status. -/
structure Failure where
  status : Option ℕ
  message : JsString
  deriving DecidableEq

/-- What a request emits. -/
inductive Emission (α : Type) where
  | next (value : α)
  | error (failure : Failure)

namespace Emission

variable {α β σ : Type}

/-- The emission of a request for a reply. -/
def ofReply (status : ℕ) (body : α) (failureText : JsString) : Emission α :=
  if 200 ≤ status ∧ status < 300 then .next body else .error ⟨some status, failureText⟩

/-- `map` -/
def mapValue (project : α → Except JsError β) : Emission α → Emission β
  | .next value =>
      match project value with
      | .ok value => .next value
      | .error e => .error ⟨none, e.message⟩
  | .error failure => .error failure

def tap (callback : α → Script σ Unit) : Emission α → σ → Emission α × σ
  | .next value, s =>
      match callback value s with
      | (.ok (), s) => (.next value, s)
      | (.error e, s) => (.error ⟨none, e.message⟩, s)
  | .error failure, s => (.error failure, s)

def catchError (handler : Failure → σ → α × σ) : Emission α → σ → Emission α × σ
  | .next value, s => (.next value, s)
  | .error failure, s =>
      let (value, s) := handler failure s
      (.next value, s)

/-- Nothing gets past `catchError` as an error. -/
theorem catchError_next (handler : Failure → σ → α × σ) (emission : Emission α) (s : σ) :
    ∃ value, (emission.catchError handler s).1 = .next value := by
  cases emission with
  | next value => exact ⟨value, rfl⟩
  | error failure => exact ⟨_, rfl⟩

end Emission

/-- A property of a reply, which need not be an object. -/
def member (response : JsVal) (key : String) : Except JsError JsVal :=
  if response.isNullish then
    .error ⟨.typeError, lit "Cannot read properties of " ++
      (if response.isUndefined then lit "undefined" else lit "null") ++
      lit " (reading '" ++ lit key ++ lit "')"⟩
  else .ok (response.get (lit key))

end EmbeddedCar.Frontend
