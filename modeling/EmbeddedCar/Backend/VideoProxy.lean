import EmbeddedCar.Reactive.Run
import Mathlib.Data.Nat.Notation

/-!
# Proxied video

The routes `/camera/gstreamer-stream` and `/camera/mjpeg-stream`: the handlers of one exchange,
between an upstream connection, a client and the response. The events are those of Node's
streams; which of them may come next is a matter of the peers, not of the handlers.
-/

namespace EmbeddedCar.Backend

open EmbeddedCar.Reactive

inductive ProxyRoute where
  /-- `camera.js:275-341` -/
  | gstreamerStream
  /-- `camera.js:344-441` -/
  | mjpegStream
  deriving DecidableEq

namespace ProxyRoute

/-- The callback of `http.get` looks at the content type; a TCP connection has none. -/
def checksType : ProxyRoute → Bool
  | .gstreamerStream => false
  | .mjpegStream => true

/-- `proxyRequest.setTimeout` and `proxyRes.on('error')` are of `http.get` alone. -/
def isHttp : ProxyRoute → Bool
  | .gstreamerStream => false
  | .mjpegStream => true

/-- `socket.on('close')`, `camera.js:316-321`; the other route listens to no `close`. -/
def endsOnClose : ProxyRoute → Bool
  | .gstreamerStream => true
  | .mjpegStream => false

def connectError : ProxyRoute → String
  | .gstreamerStream => "Cannot connect to GStreamer stream"
  | .mjpegStream => "Cannot connect to MJPEG streamer"

/-- The reply of the `catch` block around the set-up. -/
def setupError : ProxyRoute → ℕ × String
  | .gstreamerStream => (500, "Stream setup failed")
  | .mjpegStream => (400, "Invalid URL format")

end ProxyRoute

inductive ProxyEvent where
  /-- The connection is there, or the headers of the upstream response: of an accepted content
  type or not. -/
  | opened (accepted : Bool)
  | data
  | ended
  | error
  /-- An error of the upstream response. -/
  | responseError
  /-- The idle timeout of the upstream request. -/
  | timeout
  | close
  | clientClose
  | clientError
  deriving DecidableEq

/-! ### The peers -/

/-- What the upstream connection and the client have done so far, and whether the upstream
connection was destroyed from this side. -/
structure Peers where
  opened : Option Bool := none
  sentData : Bool := false
  finished : Bool := false
  failed : Bool := false
  destroyed : Bool := false
  closed : Bool := false
  clientClosed : Bool := false

/-- A timeout and the handlers of both events of the client destroy the upstream connection. -/
def Peers.next (p : Peers) : ProxyEvent → Peers
  | .opened accepted => { p with opened := some accepted }
  | .data => { p with sentData := true }
  | .ended => { p with finished := true }
  | .error => { p with failed := true }
  | .responseError => { p with failed := true }
  | .timeout => { p with failed := true, destroyed := true }
  | .close => { p with closed := true }
  | .clientClose => { p with clientClosed := true, destroyed := true }
  | .clientError => { p with destroyed := true }

/-- Neither failed, destroyed nor closed. -/
def Peers.Live (p : Peers) : Prop := p.failed = false ∧ p.destroyed = false ∧ p.closed = false

/-- The order of events that Node's streams keep: data and the end come from an open stream that
is live, after an error only errors and `close` follow, and after `close` nothing. -/
def Peers.Allows (route : ProxyRoute) (p : Peers) : ProxyEvent → Prop
  | .opened accepted => p.opened = none ∧ p.Live ∧ (accepted = true ∨ route.checksType = true)
  | .data => p.opened ≠ none ∧ p.finished = false ∧ p.Live
  | .ended => p.opened ≠ none ∧ p.finished = false ∧ p.Live
  | .error => p.closed = false
  | .responseError => route.isHttp = true ∧ p.opened = some true ∧ p.closed = false
  | .timeout => route.isHttp = true ∧ p.closed = false
  | .close => p.closed = false
  | .clientClose => True
  | .clientError => True

/-! ### The response -/

/-- How a response is ended: by the pipe or without a body, or with a JSON body. -/
inductive Ending where
  | streamed
  | failed (status : ℕ) (error : String)
  deriving DecidableEq

structure ServerResponse where
  headersSent : Bool := false
  endings : List Ending := []
  destroyed : Bool := false

namespace ServerResponse

/-- `res.write` -/
def write (r : ServerResponse) : ServerResponse := { r with headersSent := true }

/-- `res.end` and `res.json`. -/
def finish (r : ServerResponse) (ending : Ending) : ServerResponse :=
  { r with headersSent := true, endings := r.endings ++ [ending] }

/-- `if (!res.headersSent)` -/
def finishUnlessSent (r : ServerResponse) (ending : Ending) : ServerResponse :=
  if r.headersSent then r else r.finish ending

end ServerResponse

/-- An exchange; `piped` is the pipe from the upstream connection to the response. -/
structure Exchange where
  peers : Peers := {}
  res : ServerResponse := {}
  piped : Bool := false

/-- The start of an exchange. When the set-up throws there is no upstream connection, and nothing
comes from it. -/
def Exchange.setup (route : ProxyRoute) (valid : Bool) : Exchange :=
  if valid then {}
  else
    { peers := { closed := true }
      res := ServerResponse.finish {} (.failed route.setupError.1 route.setupError.2) }

/-- What the handlers of `camera.js:285-332` and `camera.js:361-431` do to the response. A pipe
writes what arrives, and ends the response on `end` only. -/
def Exchange.respond (route : ProxyRoute) (s : Exchange) : ProxyEvent → ServerResponse
  | .opened accepted =>
      if accepted then s.res else s.res.finish (.failed 502 "Invalid stream format")
  | .data => if s.piped then s.res.write else s.res
  | .ended => if s.piped then s.res.finish .streamed else s.res
  | .error => s.res.finishUnlessSent (.failed 502 route.connectError)
  | .responseError => s.res.finishUnlessSent (.failed 502 "Stream error")
  | .timeout => s.res.finishUnlessSent (.failed 504 "Connection timeout")
  | .close => if route.endsOnClose then s.res.finishUnlessSent .streamed else s.res
  | .clientClose => { s.res with destroyed := true }
  | .clientError => s.res

/-- The pipe is set up for an accepted stream, and taken off when the response closes with its
client. -/
def Exchange.pipes (s : Exchange) : ProxyEvent → Bool
  | .opened accepted => accepted || s.piped
  | .clientClose => false
  | _ => s.piped

def Exchange.step (route : ProxyRoute) (s : Exchange) (e : ProxyEvent) : Exchange where
  peers := s.peers.next e
  res := s.respond route e
  piped := s.pipes e

/-! ### One step -/

namespace ServerResponse

variable {r : ServerResponse} {ending : Ending}

/-- Ended at most once, and not without headers. -/
def Sound (r : ServerResponse) : Prop :=
  r.endings.length ≤ 1 ∧ (r.endings ≠ [] → r.headersSent = true)

theorem Sound.write (h : r.Sound) : r.write.Sound := ⟨h.1, fun _ => rfl⟩

theorem sound_finish (h : r.endings = []) : (r.finish ending).Sound := by
  refine ⟨?_, fun _ => rfl⟩
  simp [finish, h]

theorem Sound.endings_eq_nil (h : r.Sound) (hsent : r.headersSent = false) : r.endings = [] := by
  refine Decidable.byContradiction fun hended => ?_
  simp [h.2 hended] at hsent

theorem Sound.finishUnlessSent (h : r.Sound) : (r.finishUnlessSent ending).Sound := by
  cases hsent : r.headersSent with
  | true => simpa [ServerResponse.finishUnlessSent, hsent] using h
  | false =>
    simpa [ServerResponse.finishUnlessSent, hsent] using sound_finish (h.endings_eq_nil hsent)

@[simp] theorem finish_endings_ne : (r.finish ending).endings ≠ [] := by simp [finish]

@[simp] theorem finishUnlessSent_headersSent :
    (r.finishUnlessSent ending).headersSent = true := by
  cases hsent : r.headersSent <;> simp [finishUnlessSent, finish, hsent]

@[simp] theorem finishUnlessSent_destroyed :
    (r.finishUnlessSent ending).destroyed = r.destroyed := by
  cases hsent : r.headersSent <;> simp [finishUnlessSent, finish, hsent]

theorem finishUnlessSent_endings_ne :
    (r.finishUnlessSent ending).endings ≠ [] ↔ r.endings ≠ [] ∨ r.headersSent = false := by
  cases hsent : r.headersSent <;> simp [finishUnlessSent, finish, hsent]

/-- Ended, or destroyed with its client. -/
def Over (r : ServerResponse) : Prop := r.endings ≠ [] ∨ r.destroyed = true

theorem over_finish : (r.finish ending).Over := .inl finish_endings_ne

theorem Over.finishUnlessSent (h : r.Over) : (r.finishUnlessSent ending).Over := by
  obtain hended | hdestroyed := h
  · exact .inl (finishUnlessSent_endings_ne.mpr (.inl hended))
  · exact .inr (finishUnlessSent_destroyed.trans hdestroyed)

end ServerResponse

/-- The response has been ended while the upstream connection was there: on its end, on headers
that were refused, or on a failure before the first data. -/
def Peers.Done (p : Peers) : Prop :=
  p.finished = true ∨ p.opened = some false ∨ p.sentData = false ∧ p.failed = true

/-- How the response and the pipe stand to the peers. -/
structure Exchange.Tracked (s : Exchange) : Prop where
  piped_iff : s.piped = true ↔ s.peers.opened = some true ∧ s.peers.clientClosed = false
  destroyed_eq : s.res.destroyed = s.peers.clientClosed
  gone : s.peers.clientClosed = true → s.peers.destroyed = true
  unopened : s.peers.opened = none → s.peers.sentData = false ∧ s.peers.finished = false
  sound : s.res.Sound
  ended_iff : s.peers.closed = false → s.peers.clientClosed = false →
    (s.res.endings ≠ [] ↔ s.peers.Done)
  sent_iff : s.peers.closed = false → s.peers.clientClosed = false →
    (s.res.headersSent = true ↔ s.peers.sentData = true ∨ s.peers.Done)

namespace Exchange

variable {route : ProxyRoute} {s : Exchange} {e : ProxyEvent}

theorem tracked_setup (route : ProxyRoute) (valid : Bool) : (setup route valid).Tracked := by
  cases valid with
  | true => constructor <;> simp [setup, ServerResponse.Sound, Peers.Done]
  | false => constructor <;> simp [setup, ServerResponse.Sound, ServerResponse.finish]

theorem Tracked.client_of_live (h : s.Tracked) (hlive : s.peers.Live) :
    s.peers.clientClosed = false := by
  cases hclient : s.peers.clientClosed with
  | false => rfl
  | true => exact absurd (h.gone hclient) (by simp [hlive.2.1])

/-- An upstream connection that is live has ended nothing until its end. -/
theorem Tracked.endings_of_live (h : s.Tracked) (hlive : s.peers.Live)
    (hfinished : s.peers.finished = false) (haccepted : s.peers.opened ≠ some false) :
    s.res.endings = [] := by
  refine Decidable.byContradiction fun hended => ?_
  obtain hdone | hdone | ⟨-, hdone⟩ :=
    (h.ended_iff hlive.2.2 (h.client_of_live hlive)).mp hended
  · simp [hfinished] at hdone
  · exact haccepted hdone
  · simp [hlive.1] at hdone

theorem Tracked.opened (h : s.Tracked) {accepted : Bool}
    (hallow : s.peers.Allows route (.opened accepted)) :
    (s.step route (.opened accepted)).Tracked := by
  obtain ⟨hnone, hlive, -⟩ := hallow
  obtain ⟨hdata, hfinished⟩ := h.unopened hnone
  have hclient := h.client_of_live hlive
  have hended := h.endings_of_live hlive hfinished (by simp [hnone])
  have hsent : s.res.headersSent = false := by
    simpa [Peers.Done, hnone, hdata, hfinished, hlive.1] using h.sent_iff hlive.2.2 hclient
  have hpiped : s.piped = false := by simpa [hnone] using h.piped_iff
  cases accepted with
  | true =>
    exact {
      piped_iff := by simp [step, pipes, Peers.next, hclient]
      destroyed_eq := h.destroyed_eq
      gone := h.gone
      unopened := by simp [step, Peers.next]
      sound := h.sound
      ended_iff := by simp [step, respond, Peers.next, Peers.Done, hended, hfinished, hlive.1]
      sent_iff := by
        simp [step, respond, Peers.next, Peers.Done, hsent, hdata, hfinished, hlive.1] }
  | false =>
    exact {
      piped_iff := by simp [step, pipes, Peers.next, hpiped]
      destroyed_eq := h.destroyed_eq
      gone := h.gone
      unopened := by simp [step, Peers.next]
      sound := ServerResponse.sound_finish hended
      ended_iff := by simp [step, respond, Peers.next, Peers.Done]
      sent_iff := by simp [step, respond, Peers.next, Peers.Done, ServerResponse.finish] }

/-- Where headers were refused, or the end has come, the response is ended. -/
theorem Tracked.ended_of_refused (h : s.Tracked) (hlive : s.peers.Live)
    (hrefused : s.peers.opened = some false) :
    s.res.endings ≠ [] ∧ s.res.headersSent = true := by
  have hended := (h.ended_iff hlive.2.2 (h.client_of_live hlive)).mpr (.inr (.inl hrefused))
  exact ⟨hended, h.sound.2 hended⟩

/-- An open stream is piped, or its headers were refused. -/
theorem Tracked.opened_cases (h : s.Tracked) (hopened : s.peers.opened ≠ none)
    (hlive : s.peers.Live) :
    s.piped = true ∧ s.peers.opened = some true ∨
      s.piped = false ∧ s.peers.opened = some false := by
  have hclient := h.client_of_live hlive
  have hpiped := h.piped_iff
  cases haccepted : s.peers.opened with
  | none => exact absurd haccepted hopened
  | some accepted => cases accepted <;> simp_all

/-- Behind refused headers nothing is piped, and whatever comes is without effect. -/
theorem Tracked.ignored (h : s.Tracked) (hlive : s.peers.Live)
    (hrefused : s.peers.opened = some false) (sentData finished : Bool) :
    Tracked ⟨{ s.peers with sentData := sentData, finished := finished }, s.res, s.piped⟩ := by
  obtain ⟨hended, hsent⟩ := h.ended_of_refused hlive hrefused
  exact { h with
    unopened := fun hnone => absurd (hrefused.symm.trans hnone) (by simp)
    ended_iff := fun _ _ => iff_of_true hended (.inr (.inl hrefused))
    sent_iff := fun _ _ => iff_of_true hsent (.inr (.inr (.inl hrefused))) }

theorem Tracked.data (h : s.Tracked) (hallow : s.peers.Allows route .data) :
    (s.step route .data).Tracked := by
  obtain ⟨hopened, hfinished, hlive⟩ := hallow
  obtain ⟨hpiped, haccepted⟩ | ⟨hpiped, hrefused⟩ := h.opened_cases hopened hlive
  · have hended := h.endings_of_live hlive hfinished (by simp [haccepted])
    have hstep : s.step route .data =
        ⟨{ s.peers with sentData := true }, s.res.write, s.piped⟩ := by
      simp [step, respond, pipes, Peers.next, hpiped]
    rw [hstep]
    exact { h with
      unopened := fun hnone => absurd hnone hopened
      sound := h.sound.write
      ended_iff := by simp [ServerResponse.write, Peers.Done, hended, hfinished, haccepted]
      sent_iff := by simp [ServerResponse.write] }
  · have hstep : s.step route .data = ⟨{ s.peers with sentData := true }, s.res, s.piped⟩ := by
      simp [step, respond, pipes, Peers.next, hpiped]
    rw [hstep]
    exact h.ignored hlive hrefused true s.peers.finished

theorem Tracked.ended (h : s.Tracked) (hallow : s.peers.Allows route .ended) :
    (s.step route .ended).Tracked := by
  obtain ⟨hopened, hfinished, hlive⟩ := hallow
  obtain ⟨hpiped, haccepted⟩ | ⟨hpiped, hrefused⟩ := h.opened_cases hopened hlive
  · have hended := h.endings_of_live hlive hfinished (by simp [haccepted])
    have hstep : s.step route .ended =
        ⟨{ s.peers with finished := true }, s.res.finish .streamed, s.piped⟩ := by
      simp [step, respond, pipes, Peers.next, hpiped]
    rw [hstep]
    exact { h with
      unopened := fun hnone => absurd hnone hopened
      sound := ServerResponse.sound_finish hended
      ended_iff := by simp [Peers.Done]
      sent_iff := by simp [ServerResponse.finish, Peers.Done] }
  · have hstep : s.step route .ended = ⟨{ s.peers with finished := true }, s.res, s.piped⟩ := by
      simp [step, respond, pipes, Peers.next, hpiped]
    rw [hstep]
    exact h.ignored hlive hrefused s.peers.sentData true

/-- A failure of any kind: it ends a response that has no headers yet. -/
theorem Tracked.failed (h : s.Tracked) (ending : Ending) {destroyed : Bool}
    (hdestroyed : s.peers.destroyed = true → destroyed = true) :
    Tracked ⟨{ s.peers with failed := true, destroyed := destroyed },
      s.res.finishUnlessSent ending, s.piped⟩ where
  piped_iff := h.piped_iff
  destroyed_eq := by simpa using h.destroyed_eq
  gone hclient := hdestroyed (h.gone hclient)
  unopened := h.unopened
  sound := h.sound.finishUnlessSent
  ended_iff := by
    intro hclosed hclient
    have hended := h.ended_iff hclosed hclient
    have hsent := h.sent_iff hclosed hclient
    rw [ServerResponse.finishUnlessSent_endings_ne, hended, ← Bool.not_eq_true, hsent]
    cases hdata : s.peers.sentData with
    | true => simp [Peers.Done, hdata]
    | false => by_cases hdone : s.peers.Done <;> simp_all [Peers.Done]
  sent_iff := by
    intro hclosed hclient
    simp only [ServerResponse.finishUnlessSent_headersSent, Peers.Done]
    cases s.peers.sentData <;> simp

theorem Tracked.step (h : s.Tracked) (hallow : s.peers.Allows route e) :
    (s.step route e).Tracked := by
  cases e with
  | opened accepted => exact h.opened hallow
  | data => exact h.data hallow
  | ended => exact h.ended hallow
  | error => exact h.failed _ fun hdestroyed => hdestroyed
  | responseError => exact h.failed _ fun hdestroyed => hdestroyed
  | timeout => exact h.failed _ fun _ => rfl
  | close =>
    cases route with
    | gstreamerStream =>
      exact { h with
        destroyed_eq := ServerResponse.finishUnlessSent_destroyed.trans h.destroyed_eq
        sound := h.sound.finishUnlessSent
        ended_iff := fun hclosed => absurd hclosed (by simp [Exchange.step, Peers.next])
        sent_iff := fun hclosed => absurd hclosed (by simp [Exchange.step, Peers.next]) }
    | mjpegStream =>
      exact { h with
        ended_iff := fun hclosed => absurd hclosed (by simp [Exchange.step, Peers.next])
        sent_iff := fun hclosed => absurd hclosed (by simp [Exchange.step, Peers.next]) }
  | clientClose =>
    exact {
      piped_iff := by simp [Exchange.step, pipes, Peers.next]
      destroyed_eq := rfl
      gone := fun _ => rfl
      unopened := h.unopened
      sound := h.sound
      ended_iff := fun _ hclient => absurd hclient (by simp [Exchange.step, Peers.next])
      sent_iff := fun _ hclient => absurd hclient (by simp [Exchange.step, Peers.next]) }
  | clientError => exact { h with gone := fun _ => rfl }

end Exchange

/-! ### A whole exchange -/

/-- Nothing is left to do for the response when the upstream connection closes. -/
def Peers.Settled (route : ProxyRoute) (p : Peers) : Prop :=
  p.clientClosed = true ∨ p.finished = true ∨ p.opened = some false ∨
    p.sentData = false ∧ (route.endsOnClose = true ∨ p.failed = true)

namespace Exchange

variable {route : ProxyRoute} {s : Exchange} {e : ProxyEvent}

/-- The response is ended at most once, and it is ended or destroyed when the upstream connection
has closed. -/
def Terminated (s : Exchange) : Prop :=
  s.res.endings.length ≤ 1 ∧ (s.peers.closed = true → s.res.Over)

/-- No event takes an ending back. -/
theorem over_respond (h : s.res.Over) : (s.respond route e).Over := by
  cases e with
  | opened accepted =>
    cases accepted with
    | true => exact h
    | false => exact ServerResponse.over_finish
  | data =>
    cases hpiped : s.piped with
    | true =>
      have hwrite : s.respond route .data = s.res.write := by simp [respond, hpiped]
      rw [hwrite]
      exact h
    | false => simpa [respond, hpiped] using h
  | ended =>
    cases hpiped : s.piped with
    | true => simpa [respond, hpiped] using ServerResponse.over_finish
    | false => simpa [respond, hpiped] using h
  | error => exact h.finishUnlessSent
  | responseError => exact h.finishUnlessSent
  | timeout => exact h.finishUnlessSent
  | close =>
    cases route with
    | gstreamerStream => exact h.finishUnlessSent
    | mjpegStream => exact h
  | clientClose => exact .inr rfl
  | clientError => exact h

theorem closed_of_ne_close (he : e ≠ .close) : (s.step route e).peers.closed = s.peers.closed := by
  cases e with
  | close => exact absurd rfl he
  | _ => rfl

/-- A `close` leaves the response over exactly when the peers had settled it. -/
theorem over_close_iff (h : s.Tracked) (hclosed : s.peers.closed = false) :
    (s.step route .close).res.Over ↔ s.peers.Settled route := by
  cases hclient : s.peers.clientClosed with
  | true =>
    have hover : s.res.Over := .inr (h.destroyed_eq.trans hclient)
    exact ⟨fun _ => .inl hclient, fun _ => over_respond hover⟩
  | false =>
    have hdestroyed : s.res.destroyed = false := h.destroyed_eq.trans hclient
    have hended := h.ended_iff hclosed hclient
    have hsent := h.sent_iff hclosed hclient
    cases route with
    | gstreamerStream =>
      have hsilent : s.res.headersSent = false ↔ ¬ (s.peers.sentData = true ∨ s.peers.Done) := by
        rw [← hsent, Bool.not_eq_true]
      show (s.res.finishUnlessSent .streamed).Over ↔ _
      rw [ServerResponse.Over, ServerResponse.finishUnlessSent_endings_ne, hended, hsilent,
        ServerResponse.finishUnlessSent_destroyed, hdestroyed]
      cases hdata : s.peers.sentData with
      | true => simp [Peers.Settled, Peers.Done, hclient, hdata]
      | false => simp [Peers.Settled, hdata, ProxyRoute.endsOnClose, em]
    | mjpegStream =>
      show s.res.Over ↔ _
      rw [ServerResponse.Over, hended, hdestroyed]
      simp [Peers.Settled, Peers.Done, hclient, ProxyRoute.endsOnClose]

theorem terminated_setup (route : ProxyRoute) (valid : Bool) :
    (setup route valid).Terminated := by
  cases valid with
  | true => exact ⟨by simp [setup], fun hclosed => absurd hclosed (by simp [setup])⟩
  | false => exact ⟨by simp [setup, ServerResponse.finish], fun _ => ServerResponse.over_finish⟩

/-- A step keeps a response terminated, but for a `close` before the peers have settled it. -/
theorem terminated_step_iff (h : s.Tracked) (hs : s.Terminated)
    (hallow : s.peers.Allows route e) :
    (s.step route e).Terminated ↔ (e = .close → s.peers.Settled route) := by
  have honce := (h.step hallow).sound.1
  by_cases he : e = .close
  · subst he
    rw [← over_close_iff h hallow]
    exact ⟨fun hterminated _ => hterminated.2 rfl, fun hover => ⟨honce, fun _ => hover rfl⟩⟩
  · refine ⟨fun _ hclose => absurd hclose he, fun _ => ⟨honce, fun hclosed => ?_⟩⟩
    rw [closed_of_ne_close he] at hclosed
    exact over_respond (hs.2 hclosed)

end Exchange

/-- Whatever the peers do, the response is ended at most once. It is always over when the upstream
connection has closed, exactly when every `close` finds it settled by the peers. -/
theorem response_terminated_iff (route : ProxyRoute) (valid : Bool) (events : List ProxyEvent)
    (hevents : Along Peers.next (Peers.Allows route) (Exchange.setup route valid).peers events) :
    (∀ before after, events = before ++ after →
      (before.foldl (Exchange.step route) (.setup route valid)).res.endings.length ≤ 1) ∧
    ((∀ before after, events = before ++ after →
        (before.foldl (Exchange.step route) (.setup route valid)).Terminated) ↔
      ∀ before after, events = before ++ .close :: after →
        (before.foldl Peers.next (Exchange.setup route valid).peers).Settled route) := by
  have hpeers : ∀ s e, (Exchange.step route s e).peers = s.peers.next e := fun _ _ => rfl
  have hallowed := (along_part hpeers).mpr hevents
  have htracked := Exchange.tracked_setup route valid
  have hterminated := Exchange.terminated_setup route valid
  constructor
  · refine (reached_iff (I := fun s : Exchange => s.res.endings.length ≤ 1)).mpr ⟨hterminated.1, ?_⟩
    exact along_of_invariant hallowed htracked (fun _ _ h hallow => h.step hallow)
      fun _ _ h hallow => (h.step hallow).sound.1
  · have hsteps := along_iff_along (I := fun s : Exchange => s.Tracked ∧ s.Terminated) hallowed
      ⟨htracked, hterminated⟩ (fun _ _ h hallow => Exchange.terminated_step_iff h.1 h.2 hallow)
      fun _ _ h hallow hQ =>
        ⟨h.1.step hallow, (Exchange.terminated_step_iff h.1 h.2 hallow).mpr hQ⟩
    rw [reached_iff, and_iff_right hterminated, hsteps,
      along_part (P := fun (p : Peers) e => e = .close → p.Settled route) hpeers, along_iff]
    constructor
    · intro h before after hsplit
      exact h before .close after hsplit rfl
    · rintro h before e after hsplit rfl
      exact h before after hsplit

/-- A stream that ends before its connection closes. -/
def wholeStream : List ProxyEvent := [.opened true, .data, .data, .ended, .close]

theorem response_terminated_whole :
    (wholeStream.foldl (Exchange.step .mjpegStream) (.setup .mjpegStream true)).Terminated := by
  have hallowed : Along Peers.next (Peers.Allows .mjpegStream)
      (Exchange.setup .mjpegStream true).peers wholeStream := by
    simp [Along, Peers.Allows, Peers.Live, Peers.next, Exchange.setup, wholeStream]
  have hsettled : Along Peers.next (fun p e => e = .close → p.Settled .mjpegStream)
      (Exchange.setup .mjpegStream true).peers wholeStream := by
    simp [Along, Peers.Settled, Peers.next, wholeStream]
  refine (response_terminated_iff .mjpegStream true wholeStream hallowed).2.mpr ?_ wholeStream []
    (List.append_nil wholeStream).symm
  intro before after hsplit
  exact along_iff.mp hsettled before .close after hsplit rfl

/-- A stream that breaks after its first data: over HTTP, one whose body is chunked or has a length
(any other body would end where its connection does). -/
def brokenStream : List ProxyEvent := [.opened true, .data, .error, .close]

/-- The connection has closed, and nobody ends the response: both routes take the headers for the
whole response. -/
theorem broken_stream_unended :
    (Along Peers.next (Peers.Allows .gstreamerStream) {} brokenStream ∧
      ¬ (brokenStream.foldl (Exchange.step .gstreamerStream) {}).Terminated) ∧
    (Along Peers.next (Peers.Allows .mjpegStream) {} brokenStream ∧
      ¬ (brokenStream.foldl (Exchange.step .mjpegStream) {}).Terminated) := by
  refine ⟨⟨?_, fun h => ?_⟩, ⟨?_, fun h => ?_⟩⟩
  · simp [Along, Peers.Allows, Peers.Live, Peers.next, brokenStream]
  · obtain hended | hdestroyed := h.2 rfl
    · exact hended rfl
    · cases hdestroyed
  · simp [Along, Peers.Allows, Peers.Live, Peers.next, brokenStream]
  · obtain hended | hdestroyed := h.2 rfl
    · exact hended rfl
    · cases hdestroyed

end EmbeddedCar.Backend
