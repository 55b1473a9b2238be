import EmbeddedCar.Frontend.Observable
import EmbeddedCar.JavaScript.Collections

/-!
# The session in the browser

`auth.service.ts`, and what `login.ts` and `dashboard.ts` do to log in and out. The session is a
token in `localStorage` under `auth_token`, and the value of a `BehaviorSubject`.
-/

namespace EmbeddedCar.Frontend

open EmbeddedCar.JavaScript Script

/-- `localStorage` or `sessionStorage`. -/
abbrev Storage := JsMap JsString JsString

/-- The state of the browser and of the `AuthService`: the storages, the value of
`isAuthenticated$`, and where the router was last sent. -/
structure Auth where
  localStorage : Storage
  sessionStorage : Storage
  isAuthenticatedSubject : Bool
  url : String

namespace Auth

def tokenKey : JsString := lit "auth_token"

/-- `auth.service.ts:81-83`. -/
def getToken (a : Auth) : Option JsString := a.localStorage.get tokenKey

/-- `auth.service.ts:116-118`; an empty token is falsy. -/
def hasToken (a : Auth) : Bool :=
  match a.getToken with
  | some token => token ≠ []
  | none => false

/-- `auth.service.ts:74-76`. -/
def isAuthenticated (a : Auth) : Bool := a.hasToken

/-- The service when the page is loaded: `auth.service.ts:24`. -/
def start (localStorage sessionStorage : Storage) : Auth :=
  let opened : Auth := ⟨localStorage, sessionStorage, false, "/"⟩
  { opened with isAuthenticatedSubject := opened.hasToken }

/-- `auth.service.ts:100-103`; `setItem` takes the text of a value. -/
def setToken (token : JsVal) : Script Auth Unit := do
  let token ← expression token.toText
  fun a => (.ok (), { a with
    localStorage := a.localStorage.set tokenKey token
    isAuthenticatedSubject := true })

/-- `auth.service.ts:108-111`. -/
def clearToken (a : Auth) : Auth :=
  { a with
    localStorage := a.localStorage.delete tokenKey
    isAuthenticatedSubject := false }

/-- `auth.service.ts:66-69`. -/
def logout (a : Auth) : Auth := { a.clearToken with url := "/login" }

/-- `dashboard.ts:70-89`. -/
def dashboardLogout (a : Auth) : Auth :=
  { a with
    localStorage := (a.localStorage.delete (lit "userToken")).delete (lit "userData")
    sessionStorage := JsMap.empty
    url := "/" }

end Auth

/-- `auth.service.ts:11-15`. -/
structure AuthResponse where
  success : Bool
  token : JsVal
  message : JsVal

/-- `auth.service.ts:44-53`. -/
def normalizedResponse (response : JsVal) : Except JsError AuthResponse := do
  let success ← member response "success"
  let token ← member response "token"
  let accessToken ← member response "accessToken"
  let accessToken' ← member response "access_token"
  let message ← member response "message"
  return {
    success :=
      match success with
      | .boolean b => b
      | _ => true
    token := (token.orElse accessToken).orElse accessToken'
    message := message.orElse (.string (lit "Login successful")) }

/-- `auth.service.ts:54-58`. -/
def keepToken (response : AuthResponse) : Script Auth Unit :=
  if response.success && response.token.truthy then Auth.setToken response.token else pure ()

/-- `auth.service.ts:123-133`, for `login`. -/
def loginFailed (failure : Failure) (a : Auth) : AuthResponse × Auth :=
  (⟨false, .undefined, .string (lit "Login failed")⟩,
    if failure.status = some 401 then a.clearToken else a)

/-- `auth.service.ts:41-61`: what a subscriber of `login` is notified of when the request emits,
and the state then. -/
def login (emission : Emission JsVal) (a : Auth) : Emission AuthResponse × Auth :=
  let (emission, a) := (emission.mapValue normalizedResponse).tap keepToken a
  emission.catchError loginFailed a

/-! ### The login page -/

/-- `login.ts:14-29`. -/
structure LoginPage where
  username : JsString := []
  password : JsString := []
  errorMessage : JsVal := .string []
  isLoading : Bool := false

namespace LoginPage

/-- `Validators.required` and `Validators.minLength`. -/
def validControl (minLength : ℕ) (value : JsString) : Bool := value ≠ [] && minLength ≤ value.length

/-- `login.ts:25-28`. -/
def valid (p : LoginPage) : Bool := validControl 3 p.username && validControl 6 p.password

/-- The parsed body of the request. -/
def credentials (p : LoginPage) : JsVal :=
  .object [(lit "username", .string p.username), (lit "password", .string p.password)]

/-- `login.ts:53-64`. -/
def notify (p : LoginPage) (a : Auth) : Emission AuthResponse → LoginPage × Auth
  | .next response =>
      if response.success then ({ p with isLoading := false }, { a with url := "/dashboard" })
      else
        ({ p with
            isLoading := false
            errorMessage := response.message.orElse
              (.string (lit "Login failed. Please check your credentials.")) }, a)
  | .error _ =>
      ({ p with
          isLoading := false
          errorMessage := .string (lit "Connection error. Please try again later.") }, a)

/-- `login.ts:42-69`, up to the notification; `send` is what the request emits. -/
def onLogin (p : LoginPage) (send : JsVal → Emission JsVal) (a : Auth) : LoginPage × Auth :=
  if p.valid && !p.isLoading then
    let p := { p with isLoading := true, errorMessage := .string [] }
    let (emission, a) := login (send p.credentials) a
    p.notify a emission
  else (p, a)

end LoginPage

/-! ### What becomes of the token -/

section

variable (a : Auth)

/-- A reply without a token leaves the state as it is. -/
theorem login_without_token {response : JsVal} {normal : AuthResponse}
    (hnormal : normalizedResponse response = .ok normal) (htoken : normal.token.truthy = false) :
    login (.next response) a = (.next normal, a) := by
  have hmap : (Emission.next response).mapValue normalizedResponse = .next normal := by
    simp only [Emission.mapValue, hnormal]
  have hkeep : keepToken normal a = (.ok (), a) := by
    unfold keepToken
    rw [htoken, Bool.and_false]
    rfl
  simp only [login, hmap, Emission.tap, hkeep, Emission.catchError]

/-- A failure other than 401 leaves the state as it is. -/
theorem login_failure {failure : Failure} (h : failure.status ≠ some 401) :
    ∃ response, login (.error failure) a = (.next response, a) := by
  have hfailed : loginFailed failure a =
      (⟨false, .undefined, .string (lit "Login failed")⟩, a) := by
    unfold loginFailed
    rw [if_neg h]
  refine ⟨⟨false, .undefined, .string (lit "Login failed")⟩, ?_⟩
  simp only [login, Emission.mapValue, Emission.tap, Emission.catchError, hfailed]

/-- What the notification changes outside the page is where the router is sent. -/
theorem notify_auth (p : LoginPage) (emission : Emission AuthResponse) :
    (p.notify a emission).2.localStorage = a.localStorage ∧
      (p.notify a emission).2.isAuthenticatedSubject = a.isAuthenticatedSubject := by
  unfold LoginPage.notify
  cases emission with
  | error failure => exact ⟨rfl, rfl⟩
  | next response =>
    cases hsuccess : response.success with
    | true => simp [hsuccess]
    | false => simp [hsuccess]

end

end EmbeddedCar.Frontend
