import EmbeddedCar.Reactive.Run
import EmbeddedCar.System.Display

/-!
# Gear and steering as two counters

What the gears and the steering stand for: two counters that saturate, and that a stop puts back
to 0. The dashboard follows them in every session in which no stop is made with the steering
turned, because `stopCar` asks for `'Sin dirección'` and `updateVehicleStatus` has no branch for
it.
-/

namespace EmbeddedCar.Frontend

open EmbeddedCar.JavaScript

/-- The position of a gear: `'R4'` is -4, `'P'` is 0, `'4'` is 4. -/
def Gear.level : Gear → ℤ
  | .r4 => -4
  | .r3 => -3
  | .r2 => -2
  | .r1 => -1
  | .p => 0
  | .g1 => 1
  | .g2 => 2
  | .g3 => 3
  | .g4 => 4

def Movement.sign : Movement → ℤ
  | .adelante => 1
  | .atras => -1
  | .detenido => 0

def Direction.position : Direction → ℤ
  | .izquierda => -1
  | .derecha => 1
  | .sinDireccion => 0

theorem Direction.position_eq_zero {direction : Direction} :
    direction.position = 0 ↔ direction = .sinDireccion := by
  cases direction <;> simp [Direction.position]

end EmbeddedCar.Frontend

namespace EmbeddedCar.System

open EmbeddedCar.JavaScript EmbeddedCar.Backend EmbeddedCar.Frontend EmbeddedCar.Reactive

/-! ### The counters -/

/-- The nearest value between `-bound` and `bound`. -/
def clamp (bound value : ℤ) : ℤ := max (-bound) (min bound value)

/-- The gear, between -4 and 4, and the steering, between -1 and 1. -/
structure Counters where
  g : ℤ := 0
  d : ℤ := 0
  deriving DecidableEq

def Counters.step (c : Counters) : Input → Counters
  | .act .moveForward => { c with g := clamp 4 (c.g + 1) }
  | .act .moveBackward => { c with g := clamp 4 (c.g - 1) }
  | .act .moveLeft => { c with d := clamp 1 (c.d - 1) }
  | .act .moveRight => { c with d := clamp 1 (c.d + 1) }
  | .act .stopCar => { g := 0, d := 0 }
  | .slide _ => c

/-- The word of the backend for a movement with a sign. -/
def movementWord (sign : ℤ) : JsString :=
  if 0 < sign then lit "forward" else if sign < 0 then lit "backward" else lit "none"

/-- The word of the backend for a position of the steering. -/
def directionWord (position : ℤ) : JsString :=
  if 0 < position then lit "right" else if position < 0 then lit "left" else lit "none"

/-- The speed that a request carries: that of the gear, or what the slider shows for a turn. -/
def Counters.speed (c : Counters) (speedValue : Percent) : Action → ℤ
  | .moveLeft => (speedValue : ℕ)
  | .moveRight => (speedValue : ℕ)
  | _ => 25 * |c.g|

/-! ### The dashboard beside the counters -/

/-- The dashboard shows the two counters. -/
structure Shows (dashboard : Dashboard) (c : Counters) : Prop where
  gear : dashboard.gear.level = c.g
  movement : dashboard.currentMovement.sign = c.g.sign
  direction : dashboard.currentDirection.position = c.d

/-- A request that carries the two counters and passes the checks of the backend. -/
structure Carries (post : Post) (c : Counters) (speed : ℤ) : Prop where
  movement : post.movement = movementWord c.g.sign
  speed : ((post.speed : ℕ) : ℤ) = speed
  direction : post.direction = directionWord c.d
  valid : updateCheck post.body = .ok none

/-- A step of the dashboard and of the counters ends in a dashboard that shows the counters, and
the request it sends, if any, carries them. -/
def Agree (s : Dashboard × Counters) (input : Input) : Prop :=
  Shows (s.1.handle input) (s.2.step input) ∧
    ∀ action, input = .act action →
      Carries (s.1.perform action).2 (s.2.step input)
        ((s.2.step input).speed (s.1.handle input).speedValue action)

def bothStep (s : Dashboard × Counters) (input : Input) : Dashboard × Counters :=
  (s.1.handle input, s.2.step input)

/-- A stop that finds the steering straight. -/
def StopsStraight (s : Dashboard × Counters) (input : Input) : Prop :=
  input = .act .stopCar → s.1.currentDirection = .sinDireccion

section

variable {dashboard : Dashboard} {c : Counters}

theorem mapMovementToBackend_word (movement : Movement) :
    mapMovementToBackend movement = movementWord movement.sign := by
  cases movement <;> rfl

theorem mapDirectionToBackend_word (direction : Direction) :
    mapDirectionToBackend direction = directionWord direction.position := by
  cases direction <;> rfl

/-- Driving moves the gear by one and links the speed to it. -/
theorem drives_level (dashboard : Dashboard) {action : Action} (h : action.drives) :
    let after := (dashboard.perform action).1
    after.gear.level =
        clamp 4 (dashboard.gear.level + if action = .moveForward then 1 else -1) ∧
      after.currentMovement.sign = after.gear.level.sign ∧
      ((after.speedValue : ℕ) : ℤ) = 25 * |after.gear.level| ∧
      after.currentDirection = dashboard.currentDirection := by
  have hdirection : ∀ direction,
      dashboard.updateDirection direction .movementFunction = dashboard := by
    intro direction
    cases direction <;> rfl
  rcases h with rfl | rfl
  · simp only [Dashboard.perform, Dashboard.moveForward, Dashboard.updateVehicleStatus, hdirection,
      Dashboard.updateMovement, Dashboard.setGear]
    cases dashboard.gear <;> exact ⟨rfl, rfl, rfl, rfl⟩
  · simp only [Dashboard.perform, Dashboard.moveBackward, Dashboard.updateVehicleStatus,
      hdirection, Dashboard.updateMovement, Dashboard.setGear]
    cases dashboard.gear <;> exact ⟨rfl, rfl, rfl, rfl⟩

/-- Steering moves the steering by one and leaves the rest. -/
theorem steers_position (dashboard : Dashboard) {action : Action} (h : action.steers) :
    let after := (dashboard.perform action).1
    after.currentDirection.position =
        clamp 1 (dashboard.currentDirection.position + if action = .moveRight then 1 else -1) ∧
      after.gear = dashboard.gear ∧ after.currentMovement = dashboard.currentMovement ∧
      after.speedValue = dashboard.speedValue := by
  have hmovement : ∀ e : Dashboard, ∀ movement,
      e.updateMovement movement .directionFunction = e := by
    intro e movement
    cases movement <;> rfl
  rcases h with rfl | rfl
  · simp only [Dashboard.perform, Dashboard.moveLeft, Dashboard.updateVehicleStatus, hmovement,
      Dashboard.updateDirection, Dashboard.setDirection]
    cases dashboard.currentDirection <;> exact ⟨rfl, rfl, rfl, rfl⟩
  · simp only [Dashboard.perform, Dashboard.moveRight, Dashboard.updateVehicleStatus, hmovement,
      Dashboard.updateDirection, Dashboard.setDirection]
    cases dashboard.currentDirection <;> exact ⟨rfl, rfl, rfl, rfl⟩

/-- Stopping leaves the steering as it is. -/
theorem stopCar_direction (dashboard : Dashboard) :
    (dashboard.perform .stopCar).1.currentDirection = dashboard.currentDirection := rfl

theorem carries_of_shows (h : Shows dashboard c) {speed : ℤ}
    (hspeed : ((dashboard.speedValue : ℕ) : ℤ) = speed) : Carries dashboard.shown c speed where
  movement := by
    show mapMovementToBackend dashboard.currentMovement = _
    rw [mapMovementToBackend_word, h.movement]
  speed := hspeed
  direction := by
    show mapDirectionToBackend dashboard.currentDirection = _
    rw [mapDirectionToBackend_word, h.direction]
  valid := updateCheck_post (shown_sendable dashboard)

theorem shows_drive (h : Shows dashboard c) {action : Action} (ha : action.drives) :
    Shows (dashboard.perform action).1 (c.step (.act action)) ∧
      ((((dashboard.perform action).1.speedValue : ℕ)) : ℤ) =
        25 * |(c.step (.act action)).g| := by
  obtain ⟨hlevel, hsign, hspeed, hdirection⟩ := drives_level dashboard ha
  have hg : (dashboard.perform action).1.gear.level = (c.step (.act action)).g := by
    rw [hlevel, h.gear]
    rcases ha with rfl | rfl
    · rfl
    · rfl
  have hd : (c.step (.act action)).d = c.d := by
    rcases ha with rfl | rfl
    · rfl
    · rfl
  refine ⟨⟨hg, ?_, ?_⟩, ?_⟩
  · rw [hsign, hg]
  · rw [hdirection, h.direction, hd]
  · rw [hspeed, hg]

theorem shows_steer (h : Shows dashboard c) {action : Action} (ha : action.steers) :
    Shows (dashboard.perform action).1 (c.step (.act action)) := by
  obtain ⟨hposition, hgear, hmovement, -⟩ := steers_position dashboard ha
  have hg : (c.step (.act action)).g = c.g := by
    rcases ha with rfl | rfl
    · rfl
    · rfl
  refine ⟨?_, ?_, ?_⟩
  · rw [hgear, h.gear, hg]
  · rw [hmovement, h.movement, hg]
  · rw [hposition, h.direction]
    rcases ha with rfl | rfl
    · rfl
    · rfl

theorem shows_stop_iff :
    Shows (dashboard.perform .stopCar).1 (c.step (.act .stopCar)) ↔
      dashboard.currentDirection = .sinDireccion := by
  constructor
  · intro h
    rw [← stopCar_direction]
    exact Direction.position_eq_zero.mp h.direction
  · intro h
    refine ⟨rfl, rfl, ?_⟩
    rw [stopCar_direction, h]
    rfl

theorem stopsStraight_of_ne {s : Dashboard × Counters} {input : Input}
    (h : input ≠ .act .stopCar) : StopsStraight s input :=
  fun heq => absurd heq h

/-- The dashboard follows the counters in every step but a stop with the steering turned. -/
theorem agree_iff {s : Dashboard × Counters} (h : Shows s.1 s.2) (input : Input) :
    Agree s input ↔ StopsStraight s input := by
  have hpost : ∀ action, Shows (s.1.perform action).1 (s.2.step (.act action)) →
      (((s.1.perform action).1.speedValue : ℕ) : ℤ) =
        (s.2.step (.act action)).speed (s.1.perform action).1.speedValue action →
      Agree s (.act action) := by
    intro action hshows hspeed
    refine ⟨hshows, fun action' heq => ?_⟩
    cases heq
    rw [Dashboard.perform_post]
    exact carries_of_shows hshows hspeed
  cases input with
  | slide speed =>
    have hagree : Agree s (.slide speed) :=
      ⟨⟨h.gear, h.movement, h.direction⟩, fun action heq => absurd heq (by simp)⟩
    exact iff_of_true hagree (stopsStraight_of_ne (by simp))
  | act action =>
    cases action with
    | moveForward =>
      obtain ⟨hshows, hspeed⟩ := shows_drive h (.inl rfl)
      exact iff_of_true (hpost _ hshows hspeed) (stopsStraight_of_ne (by simp))
    | moveBackward =>
      obtain ⟨hshows, hspeed⟩ := shows_drive h (.inr rfl)
      exact iff_of_true (hpost _ hshows hspeed) (stopsStraight_of_ne (by simp))
    | moveLeft =>
      have hshows := shows_steer h (.inl rfl)
      exact iff_of_true (hpost _ hshows rfl) (stopsStraight_of_ne (by simp))
    | moveRight =>
      have hshows := shows_steer h (.inr rfl)
      exact iff_of_true (hpost _ hshows rfl) (stopsStraight_of_ne (by simp))
    | stopCar =>
      constructor
      · intro hagree _
        exact shows_stop_iff.mp hagree.1
      · intro hstraight
        exact hpost _ (shows_stop_iff.mpr (hstraight rfl)) rfl

end

/-- In every session the dashboard follows the two counters after every step exactly when each
stop of the session finds the steering straight. -/
theorem counters_followed_iff (inputs : List Input) :
    Along bothStep Agree (initialDashboard, {}) inputs ↔
      ∀ before after, inputs = before ++ .act .stopCar :: after →
        (initialDashboard.final before).currentDirection = .sinDireccion := by
  have hstart : Shows initialDashboard {} := ⟨rfl, rfl, rfl⟩
  have hiff : Along bothStep Agree (initialDashboard, {}) inputs ↔
      Along bothStep StopsStraight (initialDashboard, {}) inputs :=
    along_iff_along (I := fun s => Shows s.1 s.2) along_true hstart
      (fun s input h _ => agree_iff h input)
      (fun s input h _ hstraight => ((agree_iff h input).mpr hstraight).1)
  have hdashboard : ∀ before, (before.foldl bothStep (initialDashboard, {})).1 =
      initialDashboard.final before := by
    intro before
    exact foldl_part (fun _ _ => rfl) _ before
  rw [hiff, along_iff]
  constructor
  · intro h before after hinputs
    rw [← hdashboard]
    exact h before _ after hinputs rfl
  · intro h before input after hinputs hstop
    rw [hdashboard]
    subst hstop
    exact h before after hinputs

/-- A turn to the left, then a stop: the dashboard still shows 'Izquierda', and sends it. -/
theorem stop_keeps_steering :
    ¬ Along bothStep Agree (initialDashboard, {}) [.act .moveLeft, .act .stopCar] := by
  intro h
  have hdirection := h.2.1.1.direction
  revert hdirection
  decide

end EmbeddedCar.System
