import EmbeddedCar.Frontend.Dashboard
import EmbeddedCar.JavaScript.Collections
import EmbeddedCar.Reactive.Run
import Mathlib.Data.Finset.Basic

/-!
# The keyboard

The dashboard keeps the keys it takes to be down in `activeKeys`, and acts on a `keydown` of a
key that is not there; it never looks at `event.repeat`, and never hears of a key that is
released while the window has no focus.
-/

namespace EmbeddedCar.Frontend

open EmbeddedCar.JavaScript Reactive

/-! ### The handlers -/

/-- `dashboard.ts:38`. -/
def allowedKeys : List String := ["ArrowUp", "ArrowDown", "ArrowLeft", "ArrowRight", "Space"]

/-- `dashboard.ts:453-459`. -/
def keyMap : List (String × String) :=
  [("ArrowUp", "⬆️"), ("ArrowDown", "⬇️"), ("ArrowLeft", "⬅️"), ("ArrowRight", "➡️"),
    ("Space", "Detenido")]

/-- The part of the component that handles keys, with the requests it has sent. -/
structure KeyPage where
  dashboard : Dashboard := initialDashboard
  activeKeys : JsSet String := JsMap.empty
  keyPressIndicator : String := ""
  sent : List Post := []

namespace KeyPage

/-- `dashboard.ts:452-464`. -/
def updateKeyIndicator (p : KeyPage) : KeyPage :=
  { p with
    keyPressIndicator :=
      " ".intercalate (p.activeKeys.keys.map fun key => (keyMap.lookup key).getD key) }

def perform (p : KeyPage) (action : Action) : KeyPage :=
  let (dashboard, post) := p.dashboard.perform action
  { p with dashboard := dashboard, sent := p.sent ++ [post] }

/-- The `switch` of `onKeyDown`. -/
def actionOf : String → Option Action
  | "ArrowUp" => some .moveForward
  | "ArrowDown" => some .moveBackward
  | "ArrowLeft" => some .moveLeft
  | "ArrowRight" => some .moveRight
  | "Space" => some .stopCar
  | _ => none

/-- `dashboard.ts:406-439`, with the actions it calls. -/
def onKeyDown (p : KeyPage) (code : String) : KeyPage × List Action :=
  if code ∉ allowedKeys then (p, [])
  else if JsSet.has p.activeKeys code then (p, [])
  else
    let p := { p with activeKeys := JsSet.add p.activeKeys code }.updateKeyIndicator
    match actionOf code with
    | some action => (p.perform action, [action])
    | none => (p, [])

/-- `dashboard.ts:442-449`. -/
def onKeyUp (p : KeyPage) (code : String) : KeyPage × List Action :=
  if code ∉ allowedKeys then (p, [])
  else ({ p with activeKeys := p.activeKeys.delete code }.updateKeyIndicator, [])

end KeyPage

/-- The keyboard events that reach the window. -/
inductive KeyEvent where
  | keydown (code : String) (isRepeat : Bool)
  | keyup (code : String)
  deriving DecidableEq

def KeyPage.handle (p : KeyPage) : KeyEvent → KeyPage × List Action
  | .keydown code _ => p.onKeyDown code
  | .keyup code => p.onKeyUp code

/-! ### Which events are delivered -/

/-- What is done at the keyboard, and the focus of the window. -/
inductive Physical where
  | press (code : String)
  | autoRepeat (code : String)
  | release (code : String)
  | blur
  | focus
  deriving DecidableEq

/-- The keys that are held, and whether the window has the focus. -/
structure Browser where
  held : Finset String := ∅
  focused : Bool := true
  deriving DecidableEq

namespace Browser

/-- A key is pressed when it is up, and repeats and is released when it is held. -/
def Possible (b : Browser) : Physical → Prop
  | .press code => code ∉ b.held
  | .autoRepeat code => code ∈ b.held
  | .release code => code ∈ b.held
  | .blur => b.focused = true
  | .focus => b.focused = false

instance (b : Browser) : ∀ event, Decidable (b.Possible event)
  | .press code => inferInstanceAs (Decidable (code ∉ b.held))
  | .autoRepeat code => inferInstanceAs (Decidable (code ∈ b.held))
  | .release code => inferInstanceAs (Decidable (code ∈ b.held))
  | .blur => inferInstanceAs (Decidable (b.focused = true))
  | .focus => inferInstanceAs (Decidable (b.focused = false))

/-- The event that the window gets; none without the focus. -/
def deliver (b : Browser) (event : Physical) : Option KeyEvent :=
  if b.focused then
    match event with
    | .press code => some (.keydown code false)
    | .autoRepeat code => some (.keydown code true)
    | .release code => some (.keyup code)
    | _ => none
  else none

def step (b : Browser) : Physical → Browser
  | .press code => { b with held := insert code b.held }
  | .autoRepeat _ => b
  | .release code => { b with held := b.held.erase code }
  | .blur => { b with focused := false }
  | .focus => { b with focused := true }

/-- The events that the window gets from what is done, in order. -/
def delivered (b : Browser) : List Physical → List KeyEvent
  | [] => []
  | event :: events => (b.deliver event).toList ++ (b.step event).delivered events

end Browser

/-- The browser and the page in it. -/
structure Desk where
  browser : Browser := {}
  page : KeyPage := {}

namespace Desk

/-- The page after an event, and the actions it has called. -/
def react (d : Desk) (event : Physical) : KeyPage × List Action :=
  match d.browser.deliver event with
  | some keyEvent => d.page.handle keyEvent
  | none => (d.page, [])

def step (d : Desk) (event : Physical) : Desk := ⟨d.browser.step event, (d.react event).1⟩

/-- A fresh press of an allowed key that is delivered calls its action once; nothing else calls
an action. -/
def Heeded (d : Desk) (event : Physical) : Prop :=
  match d.browser.deliver event with
  | some (.keydown code false) =>
      (d.react event).2 = if code ∈ allowedKeys then (KeyPage.actionOf code).toList else []
  | _ => (d.react event).2 = []

/-- A delivered `keydown` of an allowed key is a repetition exactly when the page takes the key
to be down. -/
def Consistent (d : Desk) (event : Physical) : Prop :=
  ∀ code isRepeat, d.browser.deliver event = some (.keydown code isRepeat) → code ∈ allowedKeys →
    (isRepeat = true ↔ JsSet.has d.page.activeKeys code = true)

end Desk

/-! ### What the page takes to be down -/

/-- Whether a key is taken to be down after an event. -/
def downAfter (code : String) (down : Bool) : KeyEvent → Bool
  | .keydown other _ => if other = code then true else down
  | .keyup other => if other = code then false else down

/-- The last of the events about a key is a `keydown`. -/
def seenDown (code : String) (events : List KeyEvent) : Bool :=
  events.foldl (downAfter code) false

theorem actionOf_allowed {code : String} (h : code ∈ allowedKeys) :
    ∃ action, KeyPage.actionOf code = some action := by
  simp only [allowedKeys, List.mem_cons, List.not_mem_nil, or_false] at h
  rcases h with rfl | rfl | rfl | rfl | rfl
  · exact ⟨.moveForward, rfl⟩
  · exact ⟨.moveBackward, rfl⟩
  · exact ⟨.moveLeft, rfl⟩
  · exact ⟨.moveRight, rfl⟩
  · exact ⟨.stopCar, rfl⟩

namespace KeyPage

variable {p : KeyPage} {code : String}

theorem onKeyDown_active (hallowed : code ∈ allowedKeys)
    (hactive : JsSet.has p.activeKeys code = true) : p.onKeyDown code = (p, []) := by
  unfold onKeyDown
  rw [if_neg (not_not.mpr hallowed), if_pos hactive]

theorem onKeyDown_fresh (hallowed : code ∈ allowedKeys)
    (hactive : ¬ JsSet.has p.activeKeys code = true) :
    (p.onKeyDown code).1.activeKeys = JsSet.add p.activeKeys code ∧
      (p.onKeyDown code).2 = (actionOf code).toList := by
  obtain ⟨action, haction⟩ := actionOf_allowed hallowed
  unfold onKeyDown
  rw [if_neg (not_not.mpr hallowed), if_neg hactive, haction]
  exact ⟨rfl, rfl⟩

theorem onKeyDown_other (hallowed : code ∉ allowedKeys) : p.onKeyDown code = (p, []) := by
  unfold onKeyDown
  rw [if_pos hallowed]

theorem onKeyUp_actions (p : KeyPage) (code : String) : (p.onKeyUp code).2 = [] := by
  unfold onKeyUp
  split <;> rfl

/-- `activeKeys` follows the delivered events. -/
theorem has_handle (p : KeyPage) (event : KeyEvent) (hallowed : code ∈ allowedKeys) :
    JsSet.has (p.handle event).1.activeKeys code =
      downAfter code (JsSet.has p.activeKeys code) event := by
  rw [Bool.eq_iff_iff]
  cases event with
  | keydown other isRepeat =>
    show JsSet.has (p.onKeyDown other).1.activeKeys code = true ↔ (if _ then _ else _) = true
    by_cases hother : other ∈ allowedKeys
    · by_cases hactive : JsSet.has p.activeKeys other = true
      · rw [onKeyDown_active hother hactive]
        by_cases hcode : other = code
        · simp [← hcode, hactive]
        · simp [hcode]
      · rw [(onKeyDown_fresh hother hactive).1, JsSet.has_add]
        by_cases hcode : other = code
        · simp [hcode]
        · simp [hcode, Ne.symm hcode]
    · have hcode : other ≠ code := by
        rintro rfl
        exact hother hallowed
      rw [onKeyDown_other hother, if_neg hcode]
  | keyup other =>
    show JsSet.has (p.onKeyUp other).1.activeKeys code = true ↔ (if _ then _ else _) = true
    by_cases hother : other ∈ allowedKeys
    · have hkeys : (p.onKeyUp other).1.activeKeys = p.activeKeys.delete other := by
        unfold onKeyUp
        rw [if_neg (not_not.mpr hother)]
        rfl
      rw [hkeys, JsSet.has_delete]
      by_cases hcode : other = code
      · simp [hcode]
      · simp [hcode, Ne.symm hcode]
    · have hcode : other ≠ code := by
        rintro rfl
        exact hother hallowed
      have hsame : p.onKeyUp other = (p, []) := by
        unfold onKeyUp
        rw [if_pos hother]
      rw [hsame, if_neg hcode]

end KeyPage

/-! ### Runs -/

namespace Desk

/-- A key press is heeded, and a repetition ignored, exactly when the page is right about the
key. -/
theorem heeded_iff (d : Desk) (event : Physical) : d.Heeded event ↔ d.Consistent event := by
  unfold Heeded Consistent react
  cases hdeliver : d.browser.deliver event with
  | none => simp
  | some keyEvent =>
    cases keyEvent with
    | keyup code => simp [KeyPage.handle, KeyPage.onKeyUp_actions]
    | keydown code isRepeat =>
      simp only [Option.some.injEq, KeyEvent.keydown.injEq, KeyPage.handle]
      by_cases hallowed : code ∈ allowedKeys
      · obtain ⟨action, haction⟩ := actionOf_allowed hallowed
        by_cases hactive : JsSet.has d.page.activeKeys code = true
        · rw [KeyPage.onKeyDown_active hallowed hactive]
          cases isRepeat <;> simp [hallowed, haction, hactive]
        · rw [(KeyPage.onKeyDown_fresh hallowed hactive).2]
          cases isRepeat <;> simp [hallowed, haction, hactive]
      · rw [KeyPage.onKeyDown_other hallowed]
        cases isRepeat <;> simp [hallowed]

theorem browser_foldl (events : List Physical) (d : Desk) :
    (events.foldl step d).browser = events.foldl Browser.step d.browser :=
  foldl_part (fun _ _ => rfl) d events

/-- The page takes the keys to be down that it has last seen going down. -/
theorem has_foldl {code : String} (hallowed : code ∈ allowedKeys) (events : List Physical)
    (d : Desk) :
    JsSet.has (events.foldl step d).page.activeKeys code =
      (d.browser.delivered events).foldl (downAfter code) (JsSet.has d.page.activeKeys code) := by
  induction events generalizing d with
  | nil => rfl
  | cons event events ih =>
    rw [List.foldl_cons, ih]
    show _ = ((d.browser.deliver event).toList ++ _).foldl _ _
    rw [List.foldl_append]
    congr 1
    show JsSet.has (d.react event).1.activeKeys code = _
    unfold react
    cases d.browser.deliver event with
    | none => rfl
    | some keyEvent => exact KeyPage.has_handle d.page keyEvent hallowed

end Desk

/-- In a run every fresh press of an allowed key calls its action once, and nothing else calls
one, exactly when each delivered `keydown` is a repetition just in case the last delivered event
of its key was a `keydown`: no key is pressed again whose release was missed, and none repeats
whose press was missed. -/
theorem presses_heeded_iff (events : List Physical) :
    Along Desk.step Desk.Heeded {} events ↔
      ∀ before event after, events = before ++ event :: after → ∀ code isRepeat,
        (before.foldl Browser.step {}).deliver event = some (.keydown code isRepeat) →
          code ∈ allowedKeys →
            (isRepeat = true ↔ seenDown code (Browser.delivered {} before) = true) := by
  rw [along_iff]
  have hbrowser : ∀ before : List Physical,
      (before.foldl Desk.step {}).browser = before.foldl Browser.step {} :=
    fun before => Desk.browser_foldl before {}
  have hhas : ∀ code, code ∈ allowedKeys → ∀ before : List Physical,
      JsSet.has (before.foldl Desk.step {}).page.activeKeys code =
        seenDown code (Browser.delivered {} before) :=
    fun code hallowed before => Desk.has_foldl hallowed before {}
  constructor
  · intro h before event after hevents code isRepeat hdeliver hallowed
    have hconsistent := (Desk.heeded_iff _ _).mp (h before event after hevents)
    rw [← hhas code hallowed]
    exact hconsistent code isRepeat (by rw [hbrowser]; exact hdeliver) hallowed
  · intro h before event after hevents
    rw [Desk.heeded_iff]
    intro code isRepeat hdeliver hallowed
    rw [hbrowser] at hdeliver
    rw [hhas code hallowed]
    exact h before event after hevents code isRepeat hdeliver hallowed

/-- The focus changes only while no allowed key is held. -/
def Browser.IdleFocus (b : Browser) (event : Physical) : Prop :=
  event = .blur ∨ event = .focus → ∀ code ∈ allowedKeys, code ∉ b.held

/-- With the focus the page is right about every key; without it, it takes none to be down. -/
def Desk.Right (d : Desk) : Prop :=
  ∀ code ∈ allowedKeys, JsSet.has d.page.activeKeys code = true ↔
    d.browser.focused = true ∧ code ∈ d.browser.held

theorem Desk.right_step {d : Desk} {event : Physical} (h : d.Right)
    (hpossible : d.browser.Possible event) (hidle : d.browser.IdleFocus event) :
    (d.step event).Right := by
  intro code hallowed
  have hcode := h code hallowed
  have hhas := Desk.has_foldl hallowed [event] d
  simp only [List.foldl_cons, List.foldl_nil, Browser.delivered, List.append_nil] at hhas
  rw [hhas]
  cases hfocused : d.browser.focused with
  | false =>
    have hdeliver : d.browser.deliver event = none := by
      unfold Browser.deliver
      rw [hfocused]
      rfl
    rw [hdeliver]
    rw [hfocused] at hcode
    show JsSet.has d.page.activeKeys code = true ↔ _
    rw [hcode]
    cases event with
    | blur => simp [Desk.step, Browser.step]
    | focus => simp [Desk.step, Browser.step, hidle (.inr rfl) code hallowed]
    | _ => simp [Desk.step, Browser.step, hfocused]
  | true =>
    rw [hfocused] at hcode
    simp only [true_and] at hcode
    cases event with
    | press other =>
      simp only [Browser.deliver, hfocused, if_true, Option.toList_some, List.foldl_cons,
        List.foldl_nil, downAfter, Desk.step, Browser.step, Finset.mem_insert, true_and]
      by_cases hother : other = code
      · simp [hother]
      · simp [hother, Ne.symm hother, hcode]
    | autoRepeat other =>
      simp only [Browser.deliver, hfocused, if_true, Option.toList_some, List.foldl_cons,
        List.foldl_nil, downAfter, Desk.step, Browser.step, true_and]
      by_cases hother : other = code
      · have hheld : other ∈ d.browser.held := hpossible
        simpa [hother] using hheld
      · simp [hother, hcode]
    | release other =>
      simp only [Browser.deliver, hfocused, if_true, Option.toList_some, List.foldl_cons,
        List.foldl_nil, downAfter, Desk.step, Browser.step, Finset.mem_erase, true_and]
      by_cases hother : other = code
      · simp [hother]
      · simp [hother, Ne.symm hother, hcode]
    | blur =>
      have hheld := hidle (.inl rfl) code hallowed
      simpa [Browser.deliver, Desk.step, Browser.step] using mt hcode.mp hheld
    | focus => exact absurd (hfocused.symm.trans hpossible) (by decide)

/-- A user who has no allowed key held whenever the focus changes has every press heeded. -/
theorem presses_heeded_of_idleFocus {events : List Physical}
    (hpossible : Along Browser.step Browser.Possible {} events)
    (hidle : Along Browser.step Browser.IdleFocus {} events) :
    Along Desk.step Desk.Heeded {} events := by
  have hboth : Along Desk.step
      (fun d event => d.browser.Possible event ∧ d.browser.IdleFocus event) {} events := by
    rw [along_iff] at hpossible hidle ⊢
    intro before event after hevents
    rw [Desk.browser_foldl]
    exact ⟨hpossible before event after hevents, hidle before event after hevents⟩
  refine along_of_invariant (I := Desk.Right) hboth ?_ ?_ ?_
  · intro code _
    simp [JsSet.has, JsMap.has]
  · intro d event h hallowed
    exact Desk.right_step h hallowed.1 hallowed.2
  · intro d event h hallowed
    rw [Desk.heeded_iff]
    intro code isRepeat hdeliver hcode
    rw [h code hcode]
    have hfocused : d.browser.focused = true := by
      by_contra hno
      unfold Browser.deliver at hdeliver
      rw [if_neg hno] at hdeliver
      cases hdeliver
    unfold Browser.deliver at hdeliver
    rw [if_pos hfocused] at hdeliver
    have hheld := hallowed.1
    cases event <;> cases hdeliver <;> simpa [hfocused, Browser.Possible] using hheld

/-- Space is pressed, the window loses the focus, Space is released, the window gets the focus
back, and Space is pressed again: the car is not stopped. -/
theorem space_swallowed :
    let events : List Physical := [.press "Space", .blur, .release "Space", .focus, .press "Space"]
    Along Browser.step Browser.Possible {} events ∧ ¬ Along Desk.step Desk.Heeded {} events ∧
      (events.foldl Desk.step {}).page.sent = [⟨lit "none", 0, lit "none"⟩] := by
  refine ⟨by decide, ?_, by decide⟩
  intro h
  have hpress := h.2.2.2.2.1
  revert hpress
  show ¬ ([] : List Action) = [.stopCar]
  decide

end EmbeddedCar.Frontend
