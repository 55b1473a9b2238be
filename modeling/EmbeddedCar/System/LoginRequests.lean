import EmbeddedCar.JavaScript.Json
import EmbeddedCar.System.LoginSession

/-!
# The login page and its requests

`login.ts` from the creation of a component to its end, with the replies that come whenever they
come. `isLoading` lets one request out at a time, so the one subscription that a component keeps
is enough to cancel what is under way when the router leaves the page.
-/

namespace EmbeddedCar.System

open EmbeddedCar.JavaScript EmbeddedCar.Backend EmbeddedCar.Frontend EmbeddedCar.Reactive

/-- A request of the page that has not emitted, and the component that sent it. -/
structure LoginRequest where
  id : ℕ
  component : ℕ
  body : JsVal

/-- The browser: the service, the login component that the router shows, if any, and its last
subscription. `pending` is what is subscribed to and has not emitted, `sent` every body. -/
structure Browser where
  auth : Auth
  page : Option LoginPage := none
  component : ℕ := 0
  authSubscription : Option ℕ := none
  pending : List LoginRequest := []
  sent : List JsVal := []

/-- How a request ends: with the reply of the backend at a time, or in a failure on its way. -/
inductive LoginOutcome where
  | answered (timestamp failureText : JsString)
  | lost (failure : Failure)

inductive BrowserEvent where
  /-- The router creates a component. -/
  | enter
  /-- The user changes the form. -/
  | form (username password : JsString)
  | submit
  /-- The button of the demo login, at a time. -/
  | demo (now : JsString)
  | ends (id : ℕ) (outcome : LoginOutcome)
  /-- The router destroys the component. -/
  | leave

namespace Browser

/-- `login.ts:20-36`. -/
def enter (b : Browser) : Browser :=
  { b with
    page := some {}
    component := b.component + 1
    authSubscription := none
    auth := if b.auth.isAuthenticated then { b.auth with url := "/dashboard" } else b.auth }

/-- `login.ts:38-40`, and the end of the component; nothing else ends a subscription. -/
def leave (b : Browser) : Browser :=
  { b with
    page := none
    authSubscription := none
    pending := b.pending.filter fun request => some request.id ≠ b.authSubscription }

/-- `login.ts:42-52`, up to the subscription. -/
def submit (b : Browser) (p : LoginPage) : Browser :=
  if p.valid && !p.isLoading then
    { b with
      page := some { p with isLoading := true, errorMessage := .string [] }
      authSubscription := some b.sent.length
      pending := b.pending ++ [⟨b.sent.length, b.component, p.credentials⟩]
      sent := b.sent ++ [p.credentials] }
  else b

/-- `login.ts:76-82`, as `JSON.stringify` writes it. -/
def demoUser : JsString :=
  (JsVal.stringify (.object [(lit "id", text "demo-user"), (lit "username", text "admin"),
    (lit "email", text "admin@carcontroller.com"), (lit "role", text "admin"),
    (lit "permissions",
      .array [text "car:control", text "car:monitor", text "system:admin"])])).getD []

/-- `login.ts:72-95`; `login.html` disables the button while the page is loading. -/
def demoLogin (b : Browser) (p : LoginPage) (now : JsString) : Browser :=
  if p.isLoading then b
  else if p.username = lit "admin" ∧ p.password = lit "admin" then
    { b with auth := { b.auth with
        localStorage := (b.auth.localStorage.set (lit "car_controller_token")
          (lit "demo-jwt-token-" ++ now)).set (lit "car_controller_user") demoUser
        url := "/dashboard" } }
  else
    { b with page := some { p with
        errorMessage := .string (lit "Demo credentials: admin / admin") } }

/-- The component that sent a request, where it is still shown. -/
def owner (b : Browser) (request : LoginRequest) : Option LoginPage :=
  if request.component = b.component then b.page else none

/-- A request emits: `login.ts:52-65`. The callbacks of a component that is gone still move the
router. -/
def finish (b : Browser) (request : LoginRequest) (emission : Emission JsVal) : Browser :=
  let (emission, a) := login emission b.auth
  let b := { b with pending := b.pending.filter fun other => other.id ≠ request.id }
  match b.owner request with
  | some p =>
      let (p, a) := p.notify a emission
      { b with page := some p, auth := a }
  | none => { b with auth := (LoginPage.notify {} a emission).2 }

section

variable (sha256 : JsString → JsString)

/-- What the request of a login emits when it ends. -/
def emissionOf (body : JsVal) : LoginOutcome → Emission JsVal
  | .answered timestamp failureText => sendLogin sha256 timestamp failureText body
  | .lost lost => .error lost

def step (b : Browser) : BrowserEvent → Browser
  | .enter => if b.page.isSome then b else b.enter
  | .form username password =>
      { b with page := b.page.map fun p => { p with username := username, password := password } }
  | .submit => b.page.elim b b.submit
  | .demo now => b.page.elim b fun p => b.demoLogin p now
  | .ends id outcome =>
      match b.pending.find? fun request => request.id = id with
      | some request => b.finish request (emissionOf sha256 request.body outcome)
      | none => b
  | .leave => b.leave

end

/-! ### How a request ends -/

/-- The reply is one with 200. -/
def Granted (sha256 : JsString → JsString) (body : JsVal) : LoginOutcome → Prop
  | .answered timestamp _ => (requestLogin sha256 timestamp body).status = 200
  | .lost _ => False

instance (sha256 : JsString → JsString) (body : JsVal) (outcome : LoginOutcome) :
    Decidable (Granted sha256 body outcome) :=
  match outcome with
  | .answered timestamp _ =>
      inferInstanceAs (Decidable ((requestLogin sha256 timestamp body).status = 200))
  | .lost _ => inferInstanceAs (Decidable False)

/-- What `handleError` makes of the service. -/
def authAfter (a : Auth) : LoginOutcome → Auth
  | .answered _ _ => a
  | .lost lost => if lost.status = some 401 then a.clearToken else a

/-- The value `catchError` puts in the place of an error. -/
def refused : AuthResponse := ⟨false, .undefined, .string (lit "Login failed")⟩

section

variable {sha256 : JsString → JsString} {b : Browser} {p : LoginPage} {request : LoginRequest}

/-- A subscriber of `login` is told of a success for a reply with 200, and of the one refusal for
every other end of the request. -/
theorem login_emissionOf (sha256 : JsString → JsString) (body : JsVal) (outcome : LoginOutcome)
    (a : Auth) :
    ∃ response, login (emissionOf sha256 body outcome) a = (.next response, authAfter a outcome) ∧
      if Granted sha256 body outcome then response.success = true else response = refused := by
  cases outcome with
  | lost lost =>
    have hgranted : ¬ Granted sha256 body (.lost lost) := fun h => h
    refine ⟨refused, rfl, ?_⟩
    rw [if_neg hgranted]
  | answered timestamp failureText =>
    have hfailed : ∀ status, (requestLogin sha256 timestamp body).status = status →
        (status = 400 ∨ status = 500) → ∃ response,
          login (sendLogin sha256 timestamp failureText body) a = (.next response, a) ∧
            if Granted sha256 body (.answered timestamp failureText) then response.success = true
            else response = refused := by
      intro status hstatus hcase
      have hsend : sendLogin sha256 timestamp failureText body =
          .error ⟨some status, failureText⟩ := by
        unfold sendLogin Emission.ofReply
        rw [hstatus, if_neg (by omega)]
      have h401 : (some status : Option ℕ) ≠ some 401 := by
        intro h
        have heq := Option.some.inj h
        omega
      refine ⟨refused, ?_, ?_⟩
      · rw [hsend]
        simp only [login, Emission.mapValue, Emission.tap, Emission.catchError, loginFailed,
          if_neg h401, refused]
      · have hgranted : ¬ Granted sha256 body (.answered timestamp failureText) := by
          intro h
          have h200 : (requestLogin sha256 timestamp body).status = 200 := h
          omega
        rw [if_neg hgranted]
    rcases requestLogin_cases sha256 timestamp body with hreply | h400 | h500
    · have hsend : sendLogin sha256 timestamp failureText body =
          .next (.object [(lit "message", text "Login successful."),
            (lit "timestamp", .string timestamp)]) := by
        unfold sendLogin
        rw [hreply]
        rfl
      refine ⟨⟨true, .undefined, text "Login successful."⟩, ?_, ?_⟩
      · show login (sendLogin sha256 timestamp failureText body) a = _
        rw [hsend]
        exact login_without_token a rfl rfl
      · have hgranted : Granted sha256 body (.answered timestamp failureText) :=
          congrArg Response.status hreply
        rw [if_pos hgranted]
    · exact hfailed 400 h400 (.inl rfl)
    · exact hfailed 500 h500 (.inr rfl)

/-- What becomes of the page and of the service when a request of the page ends. -/
structure Settled (sha256 : JsString → JsString) (b b' : Browser) (p : LoginPage)
    (request : LoginRequest) (outcome : LoginOutcome) : Prop where
  ended : b'.pending = []
  page : b'.page = some { p with
    isLoading := false
    errorMessage :=
      if Granted sha256 request.body outcome then p.errorMessage
      else .string (lit "Login failed") }
  auth : b'.auth =
    if Granted sha256 request.body outcome then { b.auth with url := "/dashboard" }
    else authAfter b.auth outcome

theorem settled_finish (sha256 : JsString → JsString) (hpage : b.page = some p)
    (hpending : b.pending = [request]) (hcomponent : request.component = b.component)
    (outcome : LoginOutcome) :
    Settled sha256 b (b.finish request (emissionOf sha256 request.body outcome)) p request
      outcome := by
  obtain ⟨response, hlogin, hresponse⟩ :=
    login_emissionOf sha256 request.body outcome b.auth
  have hfinish : b.finish request (emissionOf sha256 request.body outcome) =
      { b with
        pending := []
        page := some (p.notify (authAfter b.auth outcome) (.next response)).1
        auth := (p.notify (authAfter b.auth outcome) (.next response)).2 } := by
    simp [finish, owner, hlogin, hpending, hcomponent, hpage]
  rw [hfinish]
  by_cases hgranted : Granted sha256 request.body outcome
  · rw [if_pos hgranted] at hresponse
    have hafter : authAfter b.auth outcome = b.auth := by
      cases outcome with
      | answered timestamp failureText => rfl
      | lost lost => exact absurd hgranted fun h => h
    refine ⟨rfl, ?_, ?_⟩
    · simp [LoginPage.notify, hresponse, hgranted]
    · simp [LoginPage.notify, hresponse, hgranted, hafter]
  · rw [if_neg hgranted] at hresponse
    subst hresponse
    refine ⟨rfl, ?_, ?_⟩
    · rw [if_neg hgranted]
      rfl
    · rw [if_neg hgranted]
      rfl

/-- A request that ends before anything else happens is what `onLogin` makes of it at once. -/
theorem submit_finish (hpending : b.pending = [])
    (hsubmits : (p.valid && !p.isLoading) = true) (emission : Emission JsVal) :
    ∃ request, (b.submit p).pending = [request] ∧ request.body = p.credentials ∧
      ((b.submit p).finish request emission).page = some (p.onLogin (fun _ => emission) b.auth).1 ∧
      ((b.submit p).finish request emission).auth = (p.onLogin (fun _ => emission) b.auth).2 := by
  refine ⟨⟨b.sent.length, b.component, p.credentials⟩, ?_, rfl, ?_, ?_⟩
  · simp [submit, hsubmits, hpending]
  · simp [submit, finish, owner, hsubmits, LoginPage.onLogin]
  · simp [submit, finish, owner, hsubmits, LoginPage.onLogin]

end

/-! ### What holds of the page -/

/-- Everything the page can say in `errorMessage`. -/
def messages : List JsString :=
  [[], lit "Login failed", lit "Demo credentials: admin / admin"]

/-- Nothing is under way, or one request of the component that is shown. -/
inductive Waiting (b : Browser) : Prop where
  | away : b.page = none → b.pending = [] → Waiting b
  | idle (p : LoginPage) (message : JsString) : b.page = some p → p.isLoading = false →
      p.errorMessage = .string message → message ∈ messages → b.pending = [] → Waiting b
  | loading (p : LoginPage) (request : LoginRequest) : b.page = some p → p.isLoading = true →
      p.errorMessage = .string [] → b.pending = [request] → request.component = b.component →
      b.authSubscription = some request.id → Waiting b

/-- A body with credentials that pass the validators of the form. -/
def FromForm (body : JsVal) : Prop :=
  ∃ p : LoginPage, body = p.credentials ∧ 3 ≤ p.username.length ∧ 6 ≤ p.password.length

/-- The page and its requests; every body sent is of a form that was valid. -/
structure Sound (b : Browser) : Prop where
  waiting : b.Waiting
  fromForm : ∀ body ∈ b.sent, FromForm body

section

variable {sha256 : JsString → JsString} {b : Browser}

theorem fromForm_of_valid {p : LoginPage} (h : p.valid = true) : FromForm p.credentials := by
  unfold LoginPage.valid LoginPage.validControl at h
  simp only [Bool.and_eq_true, decide_eq_true_eq] at h
  exact ⟨p, rfl, h.1.2, h.2.2⟩

theorem sound_start (a : Auth) : Sound { auth := a } := ⟨.away rfl rfl, nofun⟩

/-- A page that is not loading has nothing under way. -/
theorem Waiting.pending_eq_nil (h : b.Waiting) {p : LoginPage} (hpage : b.page = some p)
    (hidle : p.isLoading = false) : b.pending = [] := by
  cases h with
  | away _ hpending => exact hpending
  | idle _ _ _ _ _ _ hpending => exact hpending
  | loading p' _ hpage' hloading =>
    obtain rfl : p = p' := Option.some.inj (hpage.symm.trans hpage')
    exact absurd hloading (by simp [hidle])

/-- A request that is under way is the one of the component that is shown. -/
theorem Waiting.of_mem (h : b.Waiting) {request : LoginRequest} (hmem : request ∈ b.pending) :
    ∃ p, b.page = some p ∧ p.errorMessage = .string [] ∧ b.pending = [request] ∧
      request.component = b.component := by
  cases h with
  | away _ hpending =>
    rw [hpending] at hmem
    exact absurd hmem List.not_mem_nil
  | idle _ _ _ _ _ _ hpending =>
    rw [hpending] at hmem
    exact absurd hmem List.not_mem_nil
  | loading p request' hpage _ hmessage hpending hcomponent =>
    rw [hpending] at hmem
    obtain rfl := List.mem_singleton.mp hmem
    exact ⟨p, hpage, hmessage, hpending, hcomponent⟩

theorem sound_enter (h : b.Sound) (hpage : b.page = none) : b.enter.Sound := by
  refine ⟨?_, h.fromForm⟩
  have hpending : b.pending = [] := by
    refine List.eq_nil_iff_forall_not_mem.mpr fun request hmem => ?_
    obtain ⟨p, hsome, -⟩ := h.waiting.of_mem hmem
    exact absurd (hpage.symm.trans hsome) nofun
  exact .idle {} [] rfl rfl rfl (by simp [messages]) hpending

theorem sound_form (h : b.Sound) (username password : JsString) :
    (b.step sha256 (.form username password)).Sound := by
  refine ⟨?_, h.fromForm⟩
  cases h.waiting with
  | away hpage hpending => exact .away (by simp [step, hpage]) hpending
  | idle p message hpage hidle hmessage hmem hpending =>
    exact .idle { p with username := username, password := password } message
      (by simp [step, hpage]) hidle hmessage hmem hpending
  | loading p request hpage hloading hmessage hpending hcomponent hsubscription =>
    exact .loading { p with username := username, password := password } request
      (by simp [step, hpage]) hloading hmessage hpending hcomponent hsubscription

theorem sound_submit (h : b.Sound) {p : LoginPage} (hpage : b.page = some p) :
    (b.submit p).Sound := by
  unfold submit
  split
  · next hsubmits =>
    obtain ⟨hvalid, hidle⟩ : p.valid = true ∧ p.isLoading = false := by simpa using hsubmits
    have hpending := h.waiting.pending_eq_nil hpage hidle
    constructor
    · exact .loading _ ⟨b.sent.length, b.component, p.credentials⟩ rfl rfl rfl
        (by rw [hpending]; rfl) rfl rfl
    · intro body hbody
      rcases List.mem_append.mp hbody with hold | hnew
      · exact h.fromForm body hold
      · rw [List.mem_singleton.mp hnew]
        exact fromForm_of_valid hvalid
  · exact h

theorem sound_demoLogin (h : b.Sound) {p : LoginPage} (hpage : b.page = some p) (now : JsString) :
    (b.demoLogin p now).Sound := by
  unfold demoLogin
  split
  · exact h
  · next hidle =>
    have hpending := h.waiting.pending_eq_nil hpage (by simpa using hidle)
    split
    · -- the service alone changes
      refine ⟨?_, h.fromForm⟩
      cases h.waiting with
      | away hnone => exact absurd (hnone.symm.trans hpage) nofun
      | idle p' message hpage' hidle' hmessage hmem _ =>
        exact .idle p' message hpage' hidle' hmessage hmem hpending
      | loading p' _ hpage' hloading =>
        obtain rfl : p = p' := Option.some.inj (hpage.symm.trans hpage')
        exact absurd hloading hidle
    · refine ⟨?_, h.fromForm⟩
      exact .idle _ (lit "Demo credentials: admin / admin") rfl (by simpa using hidle) rfl
        (by simp [messages]) hpending

theorem finish_sent (request : LoginRequest) (emission : Emission JsVal) :
    (b.finish request emission).sent = b.sent := by
  simp only [finish]
  split <;> rfl

theorem sound_finish (h : b.Sound) {request : LoginRequest} (hmem : request ∈ b.pending)
    (outcome : LoginOutcome) :
    (b.finish request (emissionOf sha256 request.body outcome)).Sound := by
  obtain ⟨p, hpage, hmessage, hpending, hcomponent⟩ := h.waiting.of_mem hmem
  have hsettled := settled_finish sha256 hpage hpending hcomponent outcome
  constructor
  · by_cases hgranted : Granted sha256 request.body outcome
    · have hpage' := hsettled.page
      rw [if_pos hgranted, hmessage] at hpage'
      exact .idle _ [] hpage' rfl rfl (by simp [messages]) hsettled.ended
    · have hpage' := hsettled.page
      rw [if_neg hgranted] at hpage'
      exact .idle _ (lit "Login failed") hpage' rfl rfl (by simp [messages]) hsettled.ended
  · rw [finish_sent]
    exact h.fromForm

/-- The subscription that is kept is that of the request under way, if there is one. -/
theorem sound_leave (h : b.Sound) : b.leave.Sound := by
  refine ⟨.away rfl ?_, h.fromForm⟩
  refine List.eq_nil_iff_forall_not_mem.mpr fun request hmem => ?_
  obtain ⟨hpending, hkept⟩ := List.mem_filter.mp hmem
  cases h.waiting with
  | away _ hnil => simp [hnil] at hpending
  | idle _ _ _ _ _ _ hnil => simp [hnil] at hpending
  | loading _ request' _ _ _ hpending' _ hsubscription =>
    rw [hpending'] at hpending
    obtain rfl := List.mem_singleton.mp hpending
    simp [hsubscription] at hkept

theorem sound_step (h : b.Sound) (event : BrowserEvent) : (b.step sha256 event).Sound := by
  cases event with
  | enter =>
    cases hpage : b.page with
    | none => simpa [step, hpage] using sound_enter h hpage
    | some p => simpa [step, hpage] using h
  | form username password => exact sound_form h username password
  | submit =>
    cases hpage : b.page with
    | none => simpa [step, hpage] using h
    | some p => simpa [step, hpage] using sound_submit h hpage
  | demo now =>
    cases hpage : b.page with
    | none => simpa [step, hpage] using h
    | some p => simpa [step, hpage] using sound_demoLogin h hpage now
  | ends id outcome =>
    cases hfound : b.pending.find? fun request => request.id = id with
    | none => simpa [step, hfound] using h
    | some request =>
      simpa [step, hfound] using sound_finish h (List.mem_of_find?_eq_some hfound) outcome
  | leave => exact sound_leave h

end

/-- After the event, what is asked of it: an end of the request under way settles the attempt, and
any other end is without effect. -/
def EndsRight (sha256 : JsString → JsString) (b : Browser) : BrowserEvent → Prop
  | .ends id outcome =>
      (∀ request ∈ b.pending, request.id ≠ id) ∧ b.step sha256 (.ends id outcome) = b ∨
      ∃ p request, b.page = some p ∧ b.pending = [request] ∧ request.id = id ∧
        Settled sha256 b (b.step sha256 (.ends id outcome)) p request outcome
  | _ => True

theorem endsRight {sha256 : JsString → JsString} {b : Browser} (h : b.Sound)
    (event : BrowserEvent) : EndsRight sha256 b event := by
  cases event with
  | ends id outcome =>
    cases hfound : b.pending.find? fun request => request.id = id with
    | none =>
      refine .inl ⟨fun request hmem => ?_, by simp [step, hfound]⟩
      simpa using List.find?_eq_none.mp hfound request hmem
    | some request =>
      obtain ⟨p, hpage, -, hpending, hcomponent⟩ :=
        h.waiting.of_mem (List.mem_of_find?_eq_some hfound)
      have hid : request.id = id := by simpa using List.find?_some hfound
      refine .inr ⟨p, request, hpage, hpending, hid, ?_⟩
      have hstep : b.step sha256 (.ends id outcome) =
          b.finish request (emissionOf sha256 request.body outcome) := by
        simp [step, hfound]
      rw [hstep]
      exact settled_finish sha256 hpage hpending hcomponent outcome
  | _ => trivial

/-- An account that the page can log in to: a password the form takes has the stored digest. -/
def Open (sha256 : JsString → JsString) (user : User) : Prop :=
  3 ≤ user.username.length ∧ ∃ password, 6 ≤ password.length ∧ sha256 password = user.password

/-- A request from the form that is granted is one of an open account. -/
theorem open_of_granted {sha256 : JsString → JsString} {body : JsVal} {outcome : LoginOutcome}
    (hform : FromForm body) (h : Granted sha256 body outcome) :
    ∃ user ∈ users, Open sha256 user ∧ body.get (lit "username") = .string user.username := by
  obtain ⟨p, rfl, husername, hpassword⟩ := hform
  cases outcome with
  | lost lost => exact absurd h fun h => h
  | answered timestamp failureText =>
    have hstatus : (requestLogin sha256 timestamp p.credentials).status = 200 := h
    have hname : p.username ≠ [] := List.ne_nil_of_length_pos (by omega)
    have hword : p.password ≠ [] := List.ne_nil_of_length_pos (by omega)
    have hregistered : registered (.string p.username) (sha256 p.password) = true := by
      have hget : destructured p.credentials "username" = .ok (.string p.username) := rfl
      have hget' : destructured p.credentials "password" = .ok (.string p.password) := rfl
      refine Decidable.byContradiction fun hnone => ?_
      simp [requestLogin, hget, hget', JsVal.truthy, hashSha256, bind, Except.bind, pure,
        Except.pure, hname, hword, hnone] at hstatus
    obtain ⟨user, huser, hmatch⟩ := List.any_eq_true.mp hregistered
    obtain ⟨hsame, hdigest⟩ : p.username = user.username ∧ user.password = sha256 p.password := by
      simpa [JsVal.isOneOf] using hmatch
    refine ⟨user, huser, ⟨hsame ▸ husername, p.password, hpassword, hdigest.symm⟩, ?_⟩
    exact congrArg JsVal.string hsame

end Browser

/-- The login page in any run: at most one request is under way, it belongs to the component that
is shown, and the page is loading exactly then; its end settles the attempt, and an end that comes
after the component is gone is without effect. Only an account whose password has six units is
ever let in. -/
theorem login_requests (sha256 : JsString → JsString) (a : Auth) (events : List BrowserEvent) :
    let b := events.foldl (Browser.step sha256) { auth := a }
    b.Sound ∧ Along (Browser.step sha256) (Browser.EndsRight sha256) { auth := a } events ∧
      ∀ body ∈ b.sent, ∀ outcome, Browser.Granted sha256 body outcome →
        ∃ user ∈ users, Browser.Open sha256 user ∧
          body.get (lit "username") = .string user.username := by
  have hkeep : ∀ (b : Browser) (event : BrowserEvent), b.Sound → True →
      (b.step sha256 event).Sound := fun b event h _ => Browser.sound_step h event
  have hsound : (events.foldl (Browser.step sha256) { auth := a }).Sound :=
    invariant_foldl along_true (Browser.sound_start a) hkeep
  refine ⟨hsound, ?_, fun body hbody outcome hgranted => ?_⟩
  · exact along_of_invariant along_true (Browser.sound_start a) hkeep
      fun b event h _ => Browser.endsRight h event
  · exact Browser.open_of_granted (hsound.fromForm body hbody) hgranted

end EmbeddedCar.System
