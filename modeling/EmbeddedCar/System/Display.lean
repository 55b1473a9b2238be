import EmbeddedCar.System.Posts
import Mathlib.Data.List.Induction

/-!
# What the dashboard shows

A session of one dashboard: its requests wait in the order sent, and the backend processes them
one by one. Only an action sends a request. A move of the speed slider changes what is shown
and sends nothing (`onSpeedChange`, `dashboard.ts:96-100`).
-/

namespace EmbeddedCar.Frontend

/-- The movement the displayed gear stands for. -/
def Gear.sign : Gear → Movement
  | .r4 => .atras
  | .r3 => .atras
  | .r2 => .atras
  | .r1 => .atras
  | .p => .detenido
  | .g1 => .adelante
  | .g2 => .adelante
  | .g3 => .adelante
  | .g4 => .adelante

namespace Dashboard

/-- The gear sign, speed and direction on the screen, in the words of the backend. -/
def displayed (d : Dashboard) : Post :=
  ⟨mapMovementToBackend d.gear.sign, d.speedValue, mapDirectionToBackend d.currentDirection⟩

/-- The gear and `currentMovement` tell the same. -/
def Coherent (d : Dashboard) : Prop := d.gear.sign = d.currentMovement

theorem displayed_eq_shown {d : Dashboard} (h : d.Coherent) : d.displayed = d.shown := by
  unfold displayed shown send
  rw [h]

theorem coherent_updateDirection {d : Dashboard} (h : d.Coherent) (direction : Direction)
    (requestedBy : RequestedBy) : (d.updateDirection direction requestedBy).Coherent := by
  unfold updateDirection
  split
  · split <;> exact h
  · split <;> exact h
  · exact h

theorem coherent_updateMovement {d : Dashboard} (h : d.Coherent) (movement : Movement)
    (requestedBy : RequestedBy) : (d.updateMovement movement requestedBy).Coherent := by
  unfold updateMovement
  split
  · split <;> rfl
  · split <;> rfl
  · rfl
  · exact h

theorem coherent_updateVehicleStatus {d : Dashboard} (h : d.Coherent) (movement : Movement)
    (direction : Direction) (vehicleStatus : String) (requestedBy : RequestedBy) :
    (d.updateVehicleStatus movement direction vehicleStatus requestedBy).Coherent :=
  coherent_updateMovement (coherent_updateDirection h direction requestedBy) movement requestedBy

theorem coherent_handle {d : Dashboard} (h : d.Coherent) (input : Input) :
    (d.handle input).Coherent := by
  cases input with
  | slide speed => exact h
  | act action =>
    cases action with
    | moveForward => exact coherent_updateVehicleStatus h _ _ _ _
    | moveBackward => exact coherent_updateVehicleStatus h _ _ _ _
    | moveLeft => exact coherent_updateVehicleStatus h _ _ _ _
    | moveRight => exact coherent_updateVehicleStatus h _ _ _ _
    | stopCar =>
      exact coherent_updateVehicleStatus (coherent_updateVehicleStatus h _ _ _ _) _ _ _ _

theorem coherent_final {d : Dashboard} (h : d.Coherent) (inputs : List Input) :
    (d.final inputs).Coherent := by
  induction inputs generalizing d with
  | nil => exact h
  | cons input inputs ih => exact ih (coherent_handle h input)

/-- Moves of the slider change `speedValue` alone. -/
theorem final_slides (d : Dashboard) (slides : List Percent) :
    d.final (slides.map .slide) = { d with speedValue := slides.getLastD d.speedValue } := by
  induction slides generalizing d with
  | nil => rfl
  | cons speed slides ih =>
    rw [List.getLastD_cons]
    exact ih { d with speedValue := speed }

end Dashboard

end EmbeddedCar.Frontend

namespace EmbeddedCar.System

open EmbeddedCar.JavaScript EmbeddedCar.Backend EmbeddedCar.Frontend

/-- A dashboard, its requests on their way, and the store. -/
structure Session where
  dashboard : Dashboard
  inFlight : List Post
  store : Globals

/-- What happens in a session: an input of the user, or the backend processes the request sent
first. -/
inductive Event where
  | input (input : Input)
  | processed
  deriving DecidableEq

/-- The inputs among the events. -/
def inputsOf (events : List Event) : List Input :=
  events.filterMap fun
    | .input input => some input
    | .processed => none

namespace Session

/-- A page that has just opened, on a backend with a given store. -/
def opened (g : Globals) : Session := ⟨initialDashboard, [], g⟩

def step (s : Session) : Event → Option Session
  | .input (.act action) =>
      let (dashboard, post) := s.dashboard.perform action
      some { s with dashboard := dashboard, inFlight := s.inFlight ++ [post] }
  | .input (.slide speed) => some { s with dashboard := s.dashboard.handle (.slide speed) }
  | .processed =>
      match s.inFlight with
      | [] => none
      | post :: inFlight =>
          some { s with inFlight := inFlight, store := (updateCarMovement post.body s.store).2 }

def run (s : Session) : List Event → Option Session
  | [] => some s
  | event :: events => (s.step event).bind fun t => t.run events

/-- The store once every request of the session has been processed. -/
def settled (s : Session) : Globals := process s.store s.inFlight

/-- One event: the dashboard handles an input, and the store that the requests will leave
changes by the request sent. -/
theorem step_input {s t : Session} {input : Input} (h : s.step (.input input) = some t) :
    t.dashboard = s.dashboard.handle input ∧
      t.settled = process s.settled (posts s.dashboard [input]) := by
  cases input with
  | act action =>
    cases h
    exact ⟨rfl, process_append _ _ _⟩
  | slide speed =>
    cases h
    exact ⟨rfl, rfl⟩

theorem step_processed {s t : Session} (h : s.step .processed = some t) :
    t.dashboard = s.dashboard ∧ t.settled = s.settled := by
  cases hinFlight : s.inFlight with
  | nil => simp [step, hinFlight] at h
  | cons post inFlight =>
    simp only [step, hinFlight, Option.some.injEq] at h
    subst h
    refine ⟨rfl, ?_⟩
    unfold settled
    rw [hinFlight]
    rfl

theorem posts_cons (d : Dashboard) (input : Input) (inputs : List Input) :
    posts d (input :: inputs) = posts d [input] ++ posts (d.handle input) inputs := by
  cases input <;> rfl

/-- A whole run: the dashboard has handled the inputs, and the store that will be left is that
of their requests in the order sent. -/
theorem run_settled {s t : Session} {events : List Event} (h : s.run events = some t) :
    t.dashboard = s.dashboard.final (inputsOf events) ∧
      t.settled = process s.settled (posts s.dashboard (inputsOf events)) := by
  induction events generalizing s with
  | nil =>
    cases h
    exact ⟨rfl, rfl⟩
  | cons event events ih =>
    obtain ⟨u, hstep, hrest⟩ := Option.bind_eq_some_iff.mp h
    obtain ⟨hdashboard, hsettled⟩ := ih hrest
    cases event with
    | input input =>
      obtain ⟨hu, husettled⟩ := step_input hstep
      rw [hu] at hdashboard hsettled
      refine ⟨hdashboard, ?_⟩
      change t.settled = process s.settled (posts s.dashboard (input :: inputsOf events))
      rw [hsettled, husettled, posts_cons s.dashboard input (inputsOf events),
        process_append _ (posts s.dashboard [input])]
    | processed =>
      obtain ⟨hu, husettled⟩ := step_processed hstep
      rw [hu] at hdashboard hsettled
      rw [husettled] at hsettled
      exact ⟨hdashboard, hsettled⟩

end Session

/-- A session that has sent a request ends with an action and some moves of the slider. -/
theorem exists_last_action {d : Dashboard} {inputs : List Input} (h : posts d inputs ≠ []) :
    ∃ (earlier : List Input) (action : Action) (slides : List Percent),
      inputs = earlier ++ .act action :: slides.map .slide := by
  induction inputs using List.reverseRecOn with
  | nil => exact absurd rfl h
  | append_singleton inputs last ih =>
    cases last with
    | act action => exact ⟨inputs, action, [], rfl⟩
    | slide speed =>
      have hsame : posts d (inputs ++ [.slide speed]) = posts d inputs := by
        unfold posts
        rw [Dashboard.sent_append]
        simp [Dashboard.sent]
      rw [hsame] at h
      obtain ⟨earlier, action, slides, rfl⟩ := ih h
      exact ⟨earlier, action, slides ++ [speed], by simp⟩

theorem posts_slides (d : Dashboard) (inputs : List Input) (slides : List Percent) :
    posts d (inputs ++ slides.map .slide) = posts d inputs := by
  unfold posts
  rw [Dashboard.sent_append]
  have hnone : ∀ e : Dashboard, e.sent (slides.map .slide) = [] := by
    induction slides with
    | nil => exact fun _ => rfl
    | cons speed slides ih => exact fun e => ih _
  rw [hnone, List.append_nil]

/-- When no request is on its way and one has been sent, the store holds what is shown exactly
when the slider stands where the last action left it. -/
theorem stored_is_displayed_iff (g : Globals) (events : List Event) (t : Session)
    (hrun : (Session.opened g).run events = some t) (hidle : t.inFlight = [])
    (hsent : posts initialDashboard (inputsOf events) ≠ []) :
    ∃ (earlier : List Input) (action : Action) (slides : List Percent),
      inputsOf events = earlier ++ .act action :: slides.map .slide ∧
      let speed := (initialDashboard.final (earlier ++ [.act action])).speedValue
      (t.store = stored t.dashboard.displayed ↔ slides.getLastD speed = speed) := by
  obtain ⟨earlier, action, slides, hinputs⟩ := exists_last_action hsent
  obtain ⟨hdashboard, hsettled⟩ := Session.run_settled hrun
  have hsplit : inputsOf events = (earlier ++ [.act action]) ++ slides.map .slide := by
    rw [hinputs, List.append_assoc]
    rfl
  have hstore : t.store =
      stored (initialDashboard.final (earlier ++ [.act action])).shown := by
    have ht : t.settled = t.store := by
      unfold Session.settled
      rw [hidle]
      rfl
    rw [← ht, hsettled, hsplit, Session.opened, posts_slides, posts_concat]
    exact process_concat _ _ (shown_sendable _)
  have hshown : t.dashboard.displayed =
      { (initialDashboard.final (earlier ++ [.act action])).shown with
        speed := slides.getLastD
          (initialDashboard.final (earlier ++ [.act action])).speedValue } := by
    have hcoherent := Dashboard.coherent_final (d := initialDashboard) rfl (inputsOf events)
    change t.dashboard = initialDashboard.final (inputsOf events) at hdashboard
    rw [hdashboard, Dashboard.displayed_eq_shown hcoherent, hsplit]
    have happend : initialDashboard.final ((earlier ++ [.act action]) ++ slides.map .slide) =
        (initialDashboard.final (earlier ++ [.act action])).final (slides.map .slide) :=
      List.foldl_append
    rw [happend, Dashboard.final_slides]
    rfl
  refine ⟨earlier, action, slides, hinputs, ?_⟩
  rw [hstore, hshown, stored_injective.eq_iff]
  constructor
  · intro heq
    exact (congrArg Post.speed heq).symm
  · intro heq
    rw [heq]
    rfl

/-- Forward, and the request is processed. -/
theorem stored_is_displayed_iff_forward :
    ∃ t, (Session.opened initialGlobals).run [.input (.act .moveForward), .processed] = some t ∧
      t.store = stored t.dashboard.displayed := by
  obtain ⟨t, hrun⟩ : ∃ t, (Session.opened initialGlobals).run
      [.input (.act .moveForward), .processed] = some t := ⟨_, rfl⟩
  refine ⟨t, hrun, ?_⟩
  have hidle : t.inFlight = [] := by
    cases hrun
    rfl
  obtain ⟨earlier, action, slides, hinputs, hiff⟩ :=
    stored_is_displayed_iff initialGlobals _ t hrun hidle
      (by simp [posts, inputsOf, Dashboard.sent])
  refine hiff.mpr ?_
  have hslides : slides = [] := by
    have hlength := congrArg List.length hinputs
    simp [inputsOf] at hlength
    exact List.length_eq_zero_iff.mp (by omega)
  rw [hslides]
  rfl

/-- Forward, the request is processed, and the slider moves to 80: 25 is stored, 80 is shown. -/
theorem slider_is_not_sent :
    ∃ t, (Session.opened initialGlobals).run
        [.input (.act .moveForward), .processed, .input (.slide 80)] = some t ∧
      t.inFlight = [] ∧ t.store.carSpeed = some (.number (.fin (25 : ℕ))) ∧
      (stored t.dashboard.displayed).carSpeed = some (.number (.fin (80 : ℕ))) :=
  ⟨_, rfl, rfl, rfl, rfl⟩

end EmbeddedCar.System
