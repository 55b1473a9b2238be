import EmbeddedCar.Backend.SecurityController
import EmbeddedCar.Frontend.AuthService
import EmbeddedCar.Reactive.Run

/-!
# The session and the logins

The login page against the login endpoint. A reply of the endpoint has no token, so a login never
starts a session; `dashboard.ts` logs out by removing keys that the service does not use, so it
never ends one.
-/

namespace EmbeddedCar.System

open EmbeddedCar.JavaScript EmbeddedCar.Backend EmbeddedCar.Frontend EmbeddedCar.Reactive

/-- What happens to a session: a login is attempted with what stands in the form, the backend
answers at a time, and the reply is delivered, where the `HttpErrorResponse` of a failure has a
text; or the user logs out, through the service or on the dashboard. -/
inductive SessionEvent where
  | attempt (username password timestamp failureText : JsString)
  | logout
  | dashboardLogout
  deriving DecidableEq

section

variable (sha256 : JsString → JsString)

/-- What the request of a login emits. -/
def sendLogin (timestamp failureText : JsString) (body : JsVal) : Emission JsVal :=
  .ofReply (requestLogin sha256 timestamp body).status
    (.object (requestLogin sha256 timestamp body).body) failureText

/-- One event of a session. -/
def sessionStep (a : Auth) : SessionEvent → Auth
  | .attempt username password timestamp failureText =>
      let p : LoginPage := { username := username, password := password }
      (p.onLogin (sendLogin sha256 timestamp failureText) a).2
  | .logout => a.logout
  | .dashboardLogout => a.dashboardLogout

/-- The event is a login attempt that is sent, and that the backend answers with 200. -/
def Accepted : SessionEvent → Prop
  | .attempt username password timestamp _ =>
      let p : LoginPage := { username := username, password := password }
      p.valid = true ∧ (requestLogin sha256 timestamp p.credentials).status = 200
  | _ => False

/-- After the event the service is authenticated, in both ways to ask it, exactly when the event
is an accepted login. -/
def Follows (a : Auth) (event : SessionEvent) : Prop :=
  ((sessionStep sha256 a event).isAuthenticated = true ↔ Accepted sha256 event) ∧
    ((sessionStep sha256 a event).isAuthenticatedSubject = true ↔ Accepted sha256 event)

/-- With a token held or not, the event leaves a session that fits it: a login is accepted just
in case there is a token, and the dashboard logs out where there is none. -/
def Fits (held : Prop) : SessionEvent → Prop
  | .attempt username password timestamp failureText =>
      Accepted sha256 (.attempt username password timestamp failureText) ↔ held
  | .logout => True
  | .dashboardLogout => ¬ held

end

section

variable {sha256 : JsString → JsString} {a : Auth}

/-- The request of a login succeeds without a token, or fails with 400 or 500. -/
theorem login_sendLogin (sha256 : JsString → JsString) (timestamp failureText : JsString)
    (body : JsVal) (a : Auth) :
    ∃ response, login (sendLogin sha256 timestamp failureText body) a = (.next response, a) := by
  have hfailed : ∀ status, (requestLogin sha256 timestamp body).status = status →
      (status = 400 ∨ status = 500) →
        ∃ response, login (sendLogin sha256 timestamp failureText body) a =
          (.next response, a) := by
    intro status hstatus hcase
    have hsend : sendLogin sha256 timestamp failureText body =
        .error ⟨some status, failureText⟩ := by
      unfold sendLogin Emission.ofReply
      rw [hstatus, if_neg (by omega)]
    rw [hsend]
    refine login_failure a fun h => ?_
    have heq := Option.some.inj h
    omega
  rcases requestLogin_cases sha256 timestamp body with hreply | h400 | h500
  · have hsend : sendLogin sha256 timestamp failureText body =
        .next (.object [(lit "message", text "Login successful."),
          (lit "timestamp", .string timestamp)]) := by
      unfold sendLogin
      rw [hreply]
      rfl
    rw [hsend]
    exact ⟨_, login_without_token a rfl rfl⟩
  · exact hfailed 400 h400 (.inl rfl)
  · exact hfailed 500 h500 (.inr rfl)

/-- A login attempt leaves the token and the subject as they are. -/
theorem sessionStep_attempt (sha256 : JsString → JsString) (a : Auth)
    (username password timestamp failureText : JsString) :
    let after := sessionStep sha256 a (.attempt username password timestamp failureText)
    after.localStorage = a.localStorage ∧
      after.isAuthenticatedSubject = a.isAuthenticatedSubject := by
  let p : LoginPage := { username := username, password := password }
  show (p.onLogin (sendLogin sha256 timestamp failureText) a).2.localStorage = _ ∧
    (p.onLogin (sendLogin sha256 timestamp failureText) a).2.isAuthenticatedSubject = _
  unfold LoginPage.onLogin
  split
  · obtain ⟨response, hlogin⟩ := login_sendLogin sha256 timestamp failureText p.credentials a
    have hsame : ({ p with isLoading := true, errorMessage := .string [] } :
        LoginPage).credentials = p.credentials := rfl
    simp only [hsame, hlogin]
    exact notify_auth a _ _
  · exact ⟨rfl, rfl⟩

/-- Logging out on the dashboard leaves the token and the subject as they are. -/
theorem dashboardLogout_token (a : Auth) :
    a.dashboardLogout.getToken = a.getToken ∧
      a.dashboardLogout.isAuthenticatedSubject = a.isAuthenticatedSubject := by
  refine ⟨?_, rfl⟩
  show ((a.localStorage.delete (lit "userToken")).delete (lit "userData")).get Auth.tokenKey = _
  rw [JsMap.get_delete, JsMap.get_delete, if_neg (by decide), if_neg (by decide)]
  rfl

theorem hasToken_of_getToken {b : Auth} (h : a.getToken = b.getToken) :
    a.hasToken = b.hasToken := by
  unfold Auth.hasToken
  rw [h]

/-- What an event does to the session. -/
theorem sessionStep_hasToken (sha256 : JsString → JsString)
    (h : a.isAuthenticatedSubject = a.hasToken) (event : SessionEvent) :
    (sessionStep sha256 a event).hasToken = (a.hasToken && decide (event ≠ .logout)) ∧
      (sessionStep sha256 a event).isAuthenticatedSubject =
        (sessionStep sha256 a event).hasToken := by
  cases event with
  | attempt username password timestamp failureText =>
    obtain ⟨hstorage, hsubject⟩ := sessionStep_attempt sha256 a username password timestamp
      failureText
    have htoken := hasToken_of_getToken (congrArg (fun s => s.get Auth.tokenKey) hstorage)
    exact ⟨by simpa using htoken, by rw [hsubject, h, htoken]⟩
  | logout =>
    have htoken : a.logout.hasToken = false := by
      have hnone : a.logout.getToken = none := JsMap.get_delete_same a.localStorage Auth.tokenKey
      simp [Auth.hasToken, hnone]
    exact ⟨by simpa [sessionStep] using htoken, htoken.symm⟩
  | dashboardLogout =>
    obtain ⟨hget, hsubject⟩ := dashboardLogout_token a
    have htoken := hasToken_of_getToken hget
    refine ⟨by simpa [sessionStep] using htoken, ?_⟩
    show a.dashboardLogout.isAuthenticatedSubject = a.dashboardLogout.hasToken
    rw [hsubject, h, htoken]

theorem follows_iff (h : a.isAuthenticatedSubject = a.hasToken) (event : SessionEvent) :
    Follows sha256 a event ↔ Fits sha256 (a.hasToken = true) event := by
  obtain ⟨htoken, hsubject⟩ := sessionStep_hasToken sha256 h event
  unfold Follows Auth.isAuthenticated
  rw [hsubject, and_self, htoken]
  cases event with
  | attempt username password timestamp failureText => simp [Fits, iff_comm]
  | logout => simp [Fits, Accepted]
  | dashboardLogout => simp [Fits, Accepted]

theorem hasToken_foldl (h : a.isAuthenticatedSubject = a.hasToken) (events : List SessionEvent) :
    (events.foldl (sessionStep sha256) a).hasToken = (a.hasToken && decide (.logout ∉ events)) := by
  induction events generalizing a with
  | nil => simp
  | cons event events ih =>
    obtain ⟨htoken, hsubject⟩ := sessionStep_hasToken sha256 h event
    rw [List.foldl_cons, ih hsubject, htoken, Bool.and_assoc, ← Bool.decide_and]
    congr 2
    simp [List.mem_cons, eq_comm]

end

/-- A token was stored before the run, and the service has not been logged out since. -/
def HeldToken (localStorage : Storage) (before : List SessionEvent) : Prop :=
  (Auth.start localStorage JsMap.empty).hasToken = true ∧ .logout ∉ before

/-- The session follows the logins after every event exactly when each event fits the token that
was stored before the run: no login of the run ever stores one. -/
theorem session_follows_iff (sha256 : JsString → JsString) (localStorage sessionStorage : Storage)
    (events : List SessionEvent) :
    Along (sessionStep sha256) (Follows sha256) (Auth.start localStorage sessionStorage) events ↔
      ∀ before event after, events = before ++ event :: after →
        Fits sha256 (HeldToken localStorage before) event := by
  have hstart : (Auth.start localStorage sessionStorage).isAuthenticatedSubject =
      (Auth.start localStorage sessionStorage).hasToken := rfl
  have hiff : Along (sessionStep sha256) (Follows sha256)
        (Auth.start localStorage sessionStorage) events ↔
      Along (sessionStep sha256) (fun a event => Fits sha256 (a.hasToken = true) event)
        (Auth.start localStorage sessionStorage) events :=
    along_iff_along (I := fun a => a.isAuthenticatedSubject = a.hasToken) along_true hstart
      (fun a event h _ => follows_iff h event)
      (fun a event h _ _ => (sessionStep_hasToken sha256 h event).2)
  have hheld : ∀ before : List SessionEvent,
      ((before.foldl (sessionStep sha256) (Auth.start localStorage sessionStorage)).hasToken =
        true) = HeldToken localStorage before := by
    intro before
    rw [hasToken_foldl hstart, Bool.and_eq_true, decide_eq_true_eq]
    rfl
  rw [hiff, along_iff]
  simp only [hheld]

/-- From storages without a token the session follows the logins exactly as long as none is
accepted. -/
theorem session_follows_fresh_iff (sha256 : JsString → JsString) (events : List SessionEvent) :
    Along (sessionStep sha256) (Follows sha256) (Auth.start JsMap.empty JsMap.empty) events ↔
      Along (sessionStep sha256) (fun _ event => ¬ Accepted sha256 event)
        (Auth.start JsMap.empty JsMap.empty) events := by
  refine along_iff_along
    (I := fun a => a.isAuthenticatedSubject = a.hasToken ∧ a.hasToken = false) along_true
    ⟨rfl, rfl⟩ ?_ ?_
  · rintro a event ⟨hsubject, htoken⟩ _
    rw [follows_iff hsubject, htoken]
    cases event <;> simp [Fits, Accepted]
  · rintro a event ⟨hsubject, htoken⟩ _ _
    obtain ⟨hafter, hsubject'⟩ := sessionStep_hasToken sha256 hsubject event
    exact ⟨hsubject', by rw [hafter, htoken, Bool.false_and]⟩

/-- SHA-256 on one password: that of `andres`. -/
def sampleDigest (password : JsString) : JsString :=
  if password = lit "andres1234" then
    lit "ae6d2eae592ce5d3f4140e19f5a3d1dccc28c728f1a6c26ad0156e8c6f25a404"
  else []

/-- `andres` logs in: the backend answers 200, and the service is not authenticated. -/
theorem login_not_followed :
    let event : SessionEvent := .attempt (lit "andres") (lit "andres1234") [] []
    let fresh := Auth.start JsMap.empty JsMap.empty
    Accepted sampleDigest event ∧ (sessionStep sampleDigest fresh event).url = "/dashboard" ∧
      ¬ Along (sessionStep sampleDigest) (Follows sampleDigest) fresh [event] := by
  have haccepted : Accepted sampleDigest (.attempt (lit "andres") (lit "andres1234") [] []) :=
    ⟨by decide, by decide⟩
  refine ⟨haccepted, by decide, ?_⟩
  intro h
  have htoken := h.1.1.mpr haccepted
  revert htoken
  decide

end EmbeddedCar.System
