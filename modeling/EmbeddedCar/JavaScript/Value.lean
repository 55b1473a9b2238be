import EmbeddedCar.JavaScript.Number

/-!
# Values of JavaScript

The values a parsed request body can hold, their coercions, and code that runs over global
variables and may throw. Assignments made before a throw stay.
-/

namespace EmbeddedCar.JavaScript

inductive JsVal where
  | undefined
  | null
  | boolean (value : Bool)
  | number (value : JsNum)
  | string (value : JsString)
  | array (elements : List JsVal)
  | object (properties : List (JsString × JsVal))

inductive ErrorKind where
  | typeError
  | referenceError
  deriving DecidableEq, Repr

structure JsError where
  kind : ErrorKind
  message : JsString
  deriving DecidableEq

/-- What throws nothing has evaluated its first part. -/
theorem ok_of_bind {ε α β : Type} {x : Except ε α} {f : α → Except ε β} {b : β}
    (h : x >>= f = .ok b) : ∃ a, x = .ok a ∧ f a = .ok b := by
  cases x with
  | error e => cases h
  | ok a => exact ⟨a, rfl, h⟩

namespace JsVal

/-- `ToBoolean`. -/
def truthy : JsVal → Bool
  | .undefined => false
  | .null => false
  | .boolean b => b
  | .number .nan => false
  | .number (.fin q) => q ≠ 0
  | .number _ => true
  | .string s => s ≠ []
  | .array _ => true
  | .object _ => true

def isUndefined : JsVal → Bool
  | .undefined => true
  | _ => false

def isNullish : JsVal → Bool
  | .undefined => true
  | .null => true
  | _ => false

/-- `x || y` -/
def orElse (x y : JsVal) : JsVal := if x.truthy then x else y

def hasOwn (properties : List (JsString × JsVal)) (key : JsString) : Bool :=
  properties.any fun p => p.1 = key

/-- An own property of a parsed object or array; the prototypes have none of the names used
here. -/
def get (v : JsVal) (key : JsString) : JsVal :=
  match v with
  | .object properties => (properties.lookup key).getD .undefined
  | _ => .undefined

mutual

/-- `ToString`. An own property `toString` of a parsed object is not callable, and then no
primitive is left to convert to. -/
def toText : JsVal → Except JsError JsString
  | .undefined => .ok (lit "undefined")
  | .null => .ok (lit "null")
  | .boolean b => .ok (if b then lit "true" else lit "false")
  | .number n => .ok (numberToString n)
  | .string s => .ok s
  | .array elements => elementTexts elements |>.map fun texts => List.intercalate (lit ",") texts
  | .object properties =>
      if hasOwn properties (lit "toString") then
        .error ⟨.typeError, lit "Cannot convert object to primitive value"⟩
      else .ok (lit "[object Object]")

/-- The elements as `Array.prototype.join` writes them. -/
def elementTexts : List JsVal → Except JsError (List JsString)
  | [] => .ok []
  | v :: vs =>
      match if v.isNullish then .ok [] else toText v with
      | .error e => .error e
      | .ok text => (elementTexts vs).map fun texts => text :: texts

end

/-- `ToPrimitive` with hint `number`: `valueOf` of an object or array is the object itself, so
its text is taken. -/
def toPrimitive : JsVal → Except JsError JsVal
  | .array elements => (toText (.array elements)).map .string
  | .object properties => (toText (.object properties)).map .string
  | v => .ok v

/-- `ToNumber` of a primitive. -/
def primitiveNumber : JsVal → JsNum
  | .null => .fin 0
  | .boolean b => .fin (if b then 1 else 0)
  | .number n => n
  | .string s => stringToNumber s
  | _ => .nan

/-- `ToNumber`. -/
def toNumber (v : JsVal) : Except JsError JsNum := v.toPrimitive.map primitiveNumber

/-- `x < y`. -/
def lessThan (x y : JsVal) : Except JsError Bool := do
  let px ← x.toPrimitive
  let py ← y.toPrimitive
  match px, py with
  | .string s, .string t => return decide (s < t)
  | _, _ => return px.primitiveNumber.lt py.primitiveNumber

theorem lessThan_number (v : JsVal) (n : JsNum) :
    v.lessThan (.number n) = v.toNumber.map fun m => m.lt n := by
  unfold lessThan toNumber
  cases v.toPrimitive with
  | error e => rfl
  | ok p => cases p <;> rfl

theorem number_lessThan (v : JsVal) (n : JsNum) :
    (number n).lessThan v = v.toNumber.map fun m => n.lt m := by
  unfold lessThan toNumber
  cases v.toPrimitive with
  | error e => rfl
  | ok p => cases p <;> rfl

/-- `[...].includes(v)` for an array of strings. -/
def isOneOf (strings : List JsString) : JsVal → Bool
  | .string s => strings.contains s
  | _ => false

end JsVal

/-! ### Code over global variables -/

/-- Code that reads and writes `σ` and returns or throws. -/
def Script (σ α : Type) : Type := σ → Except JsError α × σ

namespace Script

variable {σ α β : Type}

protected def bind (x : Script σ α) (f : α → Script σ β) : Script σ β := fun s =>
  match x s with
  | (.ok a, t) => f a t
  | (.error e, t) => (.error e, t)

instance : Monad (Script σ) where
  pure a := fun s => (.ok a, s)
  bind := Script.bind

/-- An expression without effects that may throw. -/
def expression (x : Except JsError α) : Script σ α := fun s => (x, s)

/-- `try { x } catch (error) { handler(error) }` -/
def tryBlock (x : Script σ α) (handler : JsError → Script σ α) : Script σ α := fun s =>
  match x s with
  | (.ok a, t) => (.ok a, t)
  | (.error e, t) => handler e t

@[simp] theorem pure_apply (a : α) (s : σ) : (pure a : Script σ α) s = (.ok a, s) := rfl

theorem bind_apply (x : Script σ α) (f : α → Script σ β) (s : σ) :
    (x >>= f) s = match x s with
      | (.ok a, t) => f a t
      | (.error e, t) => (.error e, t) := rfl

theorem bind_ok {x : Script σ α} {s t : σ} {a : α} (h : x s = (.ok a, t))
    (f : α → Script σ β) : (x >>= f) s = f a t := by
  rw [bind_apply, h]

theorem bind_error {x : Script σ α} {s t : σ} {e : JsError} (h : x s = (.error e, t))
    (f : α → Script σ β) : (x >>= f) s = (.error e, t) := by
  rw [bind_apply, h]

@[simp] theorem expression_apply (x : Except JsError α) (s : σ) :
    expression x s = (x, s) := rfl

theorem tryBlock_ok {x : Script σ α} {s t : σ} {a : α} (h : x s = (.ok a, t))
    (handler : JsError → Script σ α) : tryBlock x handler s = (.ok a, t) := by
  unfold tryBlock
  rw [h]

theorem tryBlock_error {x : Script σ α} {s t : σ} {e : JsError} (h : x s = (.error e, t))
    (handler : JsError → Script σ α) : tryBlock x handler s = handler e t := by
  unfold tryBlock
  rw [h]

end Script

end EmbeddedCar.JavaScript
