import EmbeddedCar.Reactive.Path
import EmbeddedCar.System.Display
import EmbeddedCar.System.SpeedAgreement

/-!
# From the screen to the motors

The dashboards, the backend and the controller as one system: inputs of the users, requests on
their way, the store, and the ticks that poll it. At every moment the motors do what the sender of
one request showed, and which request that is follows from the order of the events.

A tick is one event: ticks do not overlap, which they could where one lasts longer than the period
of the timer and a worker thread takes the next signal. Its poll reads the store once, and no other
party touches the car, so what the dashboards and the backend do during a tick comes before or
after it.
-/

namespace EmbeddedCar.System

open EmbeddedCar.Concurrent EmbeddedCar.Text EmbeddedCar.JavaScript EmbeddedCar.Backend
open EmbeddedCar.Frontend EmbeddedCar.Gpio EmbeddedCar.Reactive

/-! ### A request at the controller -/

/-- The record that a request of a dashboard leaves. -/
def postValues (post : Post) : GlobalName → JsVal
  | .carMovement => .string post.movement
  | .carSpeed => .number (.fin (post.speed : ℕ))
  | .carDirection => .string post.direction

theorem stored_get (post : Post) (x : GlobalName) :
    (stored post).get x = some (postValues post x) := by
  cases x <;> rfl

/-- json-c on this record. -/
def Parses (jc : JsonC) (post : Post) : Prop :=
  ∃ fields, jc.tokenerParse (recordText (postValues post)) = some (.object fields) ∧
    fields.lookup (ascii "movement") = some (.string (utf8 post.movement)) ∧
    fields.lookup (ascii "direction") = some (.string (utf8 post.direction)) ∧
    fields.lookup (ascii "speed") = some (.int (post.speed : ℕ))

theorem utf8CodePoint_length (n : ℕ) : (utf8CodePoint n).length ≤ 4 := by
  unfold utf8CodePoint
  split_ifs <;> simp

theorem utf8Unit_length (c : UInt16) : (utf8Unit c).length ≤ 4 := by
  unfold utf8Unit
  split <;> exact utf8CodePoint_length _

theorem utf8_length (s : JsString) : (utf8 s).length ≤ 4 * s.length := by
  induction s using utf8.induct with
  | case1 => simp [utf8]
  | case2 c => simpa [utf8] using utf8Unit_length c
  | case3 c d rest hpair ih =>
    rw [utf8, if_pos hpair, List.length_append]
    have hpoint := utf8CodePoint_length
      (0x10000 + (c.toNat - 0xD800) * 1024 + (d.toNat - 0xDC00))
    simp only [List.length_cons]
    omega
  | case4 c d rest hpair ih =>
    rw [utf8, if_neg hpair, List.length_append]
    have hunit := utf8Unit_length c
    simp only [List.length_cons] at ih ⊢
    omega

/-- The record of a request fits into the controller's buffer. -/
theorem recordText_length {post : Post} (h : Sendable post) :
    (recordText (postValues post)).length ≤ 1023 := by
  obtain ⟨movement, speed, direction⟩ := post
  have hmovement : ∀ s ∈ validMovements, (quote s).length ≤ 10 := by decide
  have hdirection : ∀ s ∈ validDirections, (quote s).length ≤ 10 := by decide
  have hspeed : ∀ n : Percent, (numberToString (.fin (n : ℕ))).length ≤ 3 := by decide +kernel
  have hmovement := hmovement movement h.movement
  have hdirection := hdirection direction h.direction
  have hspeed := hspeed speed
  refine (utf8_length _).trans ?_
  have htext : (JsVal.object (fieldList (postValues ⟨movement, speed, direction⟩))).stringify.getD
      [] = 123 :: (List.intercalate [44] [quote (lit "movement") ++ 58 :: quote movement,
        quote (lit "speed") ++ 58 :: numberToString (.fin (speed : ℕ)),
        quote (lit "direction") ++ 58 :: quote direction] ++ [125]) := rfl
  have hmovementKey : (quote (lit "movement")).length = 10 := by decide
  have hspeedKey : (quote (lit "speed")).length = 7 := by decide
  have hdirectionKey : (quote (lit "direction")).length = 11 := by decide
  rw [htext]
  simp only [List.intercalate, List.intersperse, List.flatten_cons, List.flatten_nil,
    List.length_cons, List.length_append, List.length_nil, hmovementKey, hspeedKey, hdirectionKey]
  omega

/-- A json-c that reads the records of some requests. -/
def postReader (posts : List Post) : JsonC :=
  JsonC.ofParser
    (fun text => (posts.find? fun post => recordText (postValues post) = text).map fun post =>
      .object [(ascii "movement", .string (utf8 post.movement)),
        (ascii "speed", .int (post.speed : ℕ)),
        (ascii "direction", .string (utf8 post.direction))])
    fun _ => []

theorem postReader_parses {posts : List Post} {post : Post}
    (h : posts.find? (fun other => recordText (postValues other) = recordText (postValues post)) =
      some post) : Parses (postReader posts) post :=
  ⟨_, congrArg (Option.map _) h, rfl, rfl, rfl⟩

/-- What the controller is asked to do by a request. -/
def postPoll (post : Post) : Poll :=
  .fetched (utf8 post.movement) (utf8 post.direction) (post.speed : ℕ)

theorem postPoll_admissible {post : Post} (h : Sendable post) : (postPoll post).Admissible := by
  have hnames : ∀ s ∈ validMovements,
      cstring (utf8 s) ≠ ascii "left" ∧ cstring (utf8 s) ≠ ascii "right" := by decide
  have hspeed : (post.speed : ℕ) ≤ 100 := Nat.le_of_lt_succ post.speed.isLt
  obtain ⟨hleft, hright⟩ := hnames _ h.movement
  exact ⟨hleft, hright, by omega, by omega⟩

/-- A poll of the record delivers the request to the controller. -/
theorem postPoll_delivered {jc : JsonC} {post : Post} (h : Sendable post) (hparse : Parses jc post)
    {now : JsString} {run : WgetRun}
    (hpoll : Polls run (answer (respond now .movement (stored post)).1)) :
    (postPoll post).Delivered jc run := by
  have hreply : respond now .movement (stored post) =
      (.ok ⟨200, fieldList (postValues post)⟩, stored post) :=
    requestCarMovement_defined (stored_get post)
  rw [hreply] at hpoll
  have hrun : run = ⟨true, recordText (postValues post), 0⟩ := hpoll
  obtain ⟨fields, hfields, hmovement, hdirection, hspeed⟩ := hparse
  have hline : fgetsLine 1024 (recordText (postValues post)) = recordText (postValues post) := by
    rw [fgetsLine_of_visible (recordText_visible _) 1024]
    exact List.take_of_length_le (recordText_length h)
  rw [hrun]
  refine ⟨rfl, recordText_ne_nil _, rfl, fields, ?_, hmovement, hdirection, hspeed⟩
  rw [hline]
  exact hfields

/-! ### The car and one dashboard -/

/-- The H-bridge inputs for a movement, a direction and a speed on the screen. -/
def bridge (movement : Movement) (direction : Direction) (speed : Percent) : Duties :=
  match movement, direction with
  | .adelante, .izquierda => ⟨0, (speed : ℕ), (speed : ℕ), 0⟩
  | .adelante, .derecha => ⟨(speed : ℕ), 0, 0, (speed : ℕ)⟩
  | .adelante, .sinDireccion => ⟨(speed : ℕ), 0, (speed : ℕ), 0⟩
  | .atras, .izquierda => ⟨(speed : ℕ), 0, 0, (speed : ℕ)⟩
  | .atras, .derecha => ⟨0, (speed : ℕ), (speed : ℕ), 0⟩
  | .atras, .sinDireccion => ⟨0, (speed : ℕ), 0, (speed : ℕ)⟩
  | .detenido, _ => ⟨0, 0, 0, 0⟩

/-- The angle of the servo for a direction on the screen. -/
def wheelAngle : Direction → Int
  | .izquierda => 65
  | .derecha => 115
  | .sinDireccion => 90

/-- The duties of a car that follows a dashboard, or that is stopped. -/
def dutiesFor : Option Dashboard → Duties
  | none => ⟨0, 0, 0, 0⟩
  | some d => bridge d.currentMovement d.currentDirection d.speedValue

def angleFor : Option Dashboard → Int
  | none => 90
  | some d => wheelAngle d.currentDirection

/-- What the controller is asked to do. -/
def pollFor : Option Dashboard → Poll
  | none => .failed
  | some d => postPoll d.shown

/-- The controller reads the names of the dashboard as the dashboard means them. -/
theorem postPoll_asks (movement : Movement) (direction : Direction) (speed : Percent) :
    let p := postPoll ⟨mapMovementToBackend movement, speed, mapDirectionToBackend direction⟩
    p.duties = bridge movement direction speed ∧ p.angle = wheelAngle direction := by
  cases movement <;> cases direction <;> exact ⟨rfl, rfl⟩

theorem duties_pollFor (shown : Option Dashboard) : (pollFor shown).duties = dutiesFor shown := by
  cases shown with
  | none => rfl
  | some d => exact (postPoll_asks d.currentMovement d.currentDirection d.speedValue).1

theorem angle_pollFor (shown : Option Dashboard) : (pollFor shown).angle = angleFor shown := by
  cases shown with
  | none => rfl
  | some d => exact (postPoll_asks d.currentMovement d.currentDirection d.speedValue).2

theorem pollFor_admissible (shown : Option Dashboard) : (pollFor shown).Admissible := by
  cases shown with
  | none => trivial
  | some d => exact postPoll_admissible (shown_sendable d)

/-! ### The whole system -/

/-- The dashboard as it is once it has sent the request. -/
def shownBy (s : Sent) : Dashboard := (s.sender.perform s.action).1

theorem post_eq_shown (s : Sent) : s.post = (shownBy s).shown := Dashboard.perform_post _ _

/-- The dashboards, their requests on their way in the order sent, the store, and the process on
the car. -/
structure World (ι : Type) where
  dashboards : ι → Dashboard
  inFlight : ι → List Sent
  store : Globals
  car : State

/-- What happens: an input on a dashboard, the backend processes the request that a dashboard sent
first, a tick whose poll is answered, a tick whose poll fails, or a step of a worker thread. -/
inductive Occurrence (ι : Type) where
  | input (i : ι) (input : Input)
  | processed (i : ι) (request : Sent)
  | answered
  | lost
  | threads

section

variable {ι : Type} [DecidableEq ι]

inductive World.Step (jc : JsonC) : World ι → Occurrence ι → World ι → Prop where
  | input (w : World ι) (i : ι) (input : Input) :
      Step jc w (.input i input)
        { w with
          dashboards := Function.update w.dashboards i ((w.dashboards i).handle input)
          inFlight := Function.update w.inFlight i
            (w.inFlight i ++ (w.dashboards i).sent [input]) }
  | processed {w : World ι} {i : ι} {request : Sent} {rest : List Sent}
      (h : w.inFlight i = request :: rest) :
      Step jc w (.processed i request)
        { w with
          inFlight := Function.update w.inFlight i rest
          store := (updateCarMovement request.post.body w.store).2 }
  | answered {w : World ι} {now : JsString} {run : WgetRun} {car : State}
      (hpoll : Polls run (answer (respond now .movement w.store).1))
      (htick : machine.Runs (timerCallback jc run) w.car () car) :
      Step jc w .answered { w with car := car }
  | lost {w : World ι} {run : WgetRun} {car : State}
      (hfailed : fetchCarCommand jc run = .failed)
      (htick : machine.Runs (timerCallback jc run) w.car () car) :
      Step jc w .lost { w with car := car }
  | threads {w : World ι} {car : State} (h : machine.Env w.car car) :
      Step jc w .threads { w with car := car }

/-- The system when the backend has started and the car is initialised, with the threads of the
four motors and the servo started. -/
structure World.Fresh (w : World ι) : Prop where
  inFlight : ∀ i, w.inFlight i = []
  store : w.store = initialGlobals
  init : machine.Runs initGpioPins boot () w.car
  active : w.car.drive.MotorsActive
  servo : servoStarted w.car.log = true

/-- The inputs of one dashboard. -/
def inputsAt (i : ι) (events : List (Occurrence ι)) : List Input :=
  events.filterMap fun
    | .input j input => if j = i then some input else none
    | _ => none

/-- The requests in the order processed. -/
def processedOrder (events : List (Occurrence ι)) : List (ι × Sent) :=
  events.filterMap fun
    | .processed i request => some (i, request)
    | _ => none

/-- The dashboard whose request the backend has processed last, and the one that the last tick
made the car follow; `none` for a car that is stopped. -/
structure Memory where
  last : Option Dashboard := none
  followed : Option Dashboard := none

def Memory.next (m : Memory) : Occurrence ι → Memory
  | .processed _ request => { m with last := some (shownBy request) }
  | .answered => { m with followed := m.last }
  | .lost => { m with followed := none }
  | _ => m

def memory (events : List (Occurrence ι)) : Memory := events.foldl Memory.next {}

/-- The dashboard that the car follows after some events. -/
def followed (events : List (Occurrence ι)) : Option Dashboard := (memory events).followed

omit [DecidableEq ι] in
theorem memory_concat (events : List (Occurrence ι)) (e : Occurrence ι) :
    memory (events ++ [e]) = (memory events).next e := List.foldl_append

/-- What the events so far make of the system. -/
structure World.Linked (start : World ι) (events : List (Occurrence ι)) (w : World ι) : Prop where
  dashboards : ∀ i, w.dashboards i = (start.dashboards i).final (inputsAt i events)
  requests : ∀ i, (start.dashboards i).sent (inputsAt i events) =
    ((processedOrder events).filter fun p => p.1 = i).map Prod.snd ++ w.inFlight i
  store : w.store = ((memory events).last.map fun d => stored d.shown).getD initialGlobals
  car : Tracks w.car.drive (pollFor (followed events))

theorem inputsAt_concat (i : ι) (events : List (Occurrence ι)) (e : Occurrence ι) :
    inputsAt i (events ++ [e]) = inputsAt i events ++ inputsAt i [e] := List.filterMap_append

omit [DecidableEq ι] in
theorem processedOrder_append (first second : List (Occurrence ι)) :
    processedOrder (first ++ second) = processedOrder first ++ processedOrder second :=
  List.filterMap_append

omit [DecidableEq ι] in
/-- The memory holds the sender of the request that was processed last. -/
theorem memory_last (events : List (Occurrence ι)) :
    (memory events).last = (processedOrder events).getLast?.map fun p => shownBy p.2 := by
  induction events using List.reverseRecOn with
  | nil => rfl
  | append_singleton events e ih =>
    rw [memory_concat, processedOrder_append]
    cases e with
    | processed i request =>
      have horder : processedOrder [Occurrence.processed i request] = [(i, request)] := rfl
      rw [horder, List.getLast?_concat]
      rfl
    | _ =>
      refine ih.trans ?_
      rw [show processedOrder [_] = [] from rfl, List.append_nil]

omit [DecidableEq ι] in
theorem mem_processedOrder {events : List (Occurrence ι)} {i : ι} {request : Sent} :
    (i, request) ∈ processedOrder events ↔ .processed i request ∈ events := by
  unfold processedOrder
  rw [List.mem_filterMap]
  constructor
  · rintro ⟨e, he, hsome⟩
    cases e with
    | processed j other =>
      cases hsome
      exact he
    | _ => cases hsome
  · intro h
    exact ⟨_, h, rfl⟩

theorem linked_fresh {start : World ι} (h : start.Fresh) : start.Linked [] start where
  dashboards _ := rfl
  requests i := by
    rw [h.inFlight i]
    rfl
  store := h.store
  car := tracks_init h.init h.active h.servo

variable {jc : JsonC} {start w w' : World ι} {before : List (Occurrence ι)} {e : Occurrence ι}

/-- A tick whose poll is answered makes the car follow the request processed last. -/
theorem tracks_answered (hjc : jc.ReadsRecords) (hw : start.Linked before w)
    (hparse : ∀ i request, .processed i request ∈ before → Parses jc request.post)
    {now : JsString} {run : WgetRun}
    (hpoll : Polls run (answer (respond now .movement w.store).1)) :
    Tracks (w.car.drive.tick (fetchCarCommand jc run)) (pollFor (memory before).last) := by
  refine tracks_tick hjc hw.car (pollFor_admissible _) (pollFor_admissible _) ?_
  have hstore := hw.store
  cases hlast : (memory before).last with
  | none =>
    -- nothing is stored, and reading the record throws
    rw [hlast] at hstore
    have hundefined : ¬ w.store.Defined := by
      rw [hstore]
      intro hdefined
      exact Bool.false_ne_true (hdefined .carMovement)
    exact fetch_undefined jc hundefined hpoll
  | some d =>
    rw [hlast] at hstore
    rw [memory_last, Option.map_eq_some_iff] at hlast
    obtain ⟨⟨i, request⟩, hmem, rfl⟩ := hlast
    have hprocessed := mem_processedOrder.mp (List.mem_of_getLast? hmem)
    have hparsed := hparse i request hprocessed
    rw [post_eq_shown] at hparsed
    have hstored : w.store = stored (shownBy request).shown := hstore
    rw [hstored] at hpoll
    exact postPoll_delivered (shown_sendable _) hparsed hpoll

omit [DecidableEq ι] in
/-- An event that neither sends nor processes a request leaves the memory of requests. -/
theorem memory_last_concat (h : processedOrder [e] = []) :
    (memory (before ++ [e])).last = (memory before).last := by
  rw [memory_last, memory_last, processedOrder_append, h, List.append_nil]

/-- Where an event concerns the car alone, the rest stays linked. -/
theorem linked_car (hw : start.Linked before w) {car : State}
    (hinputs : ∀ i, inputsAt i [e] = []) (horder : processedOrder [e] = [])
    (hcar : Tracks car.drive (pollFor (followed (before ++ [e])))) :
    start.Linked (before ++ [e]) { w with car := car } where
  dashboards i := by
    rw [inputsAt_concat, hinputs, List.append_nil]
    exact hw.dashboards i
  requests i := by
    rw [inputsAt_concat, hinputs, processedOrder_append, horder, List.append_nil, List.append_nil]
    exact hw.requests i
  store := by
    rw [memory_last_concat horder]
    exact hw.store
  car := hcar

theorem linked_input (hw : start.Linked before w) (i : ι) (input : Input) :
    start.Linked (before ++ [.input i input])
      { w with
        dashboards := Function.update w.dashboards i ((w.dashboards i).handle input)
        inFlight := Function.update w.inFlight i
          (w.inFlight i ++ (w.dashboards i).sent [input]) } where
  dashboards j := by
    rw [inputsAt_concat]
    change Function.update w.dashboards i _ j = _
    by_cases hij : j = i
    · subst hij
      have hone : inputsAt j [.input j input] = [input] := by simp [inputsAt]
      have hfinal : (start.dashboards j).final (inputsAt j before ++ [input]) =
          ((start.dashboards j).final (inputsAt j before)).handle input := List.foldl_append
      rw [hone, hfinal, Function.update_self, hw.dashboards j]
    · have hnone : inputsAt j [.input i input] = [] := by simp [inputsAt, Ne.symm hij]
      rw [hnone, List.append_nil, Function.update_of_ne hij]
      exact hw.dashboards j
  requests j := by
    have horder : processedOrder [Occurrence.input i input] = [] := rfl
    rw [inputsAt_concat, processedOrder_append, horder, List.append_nil]
    change _ = _ ++ Function.update w.inFlight i _ j
    by_cases hij : j = i
    · subst hij
      have hone : inputsAt j [.input j input] = [input] := by simp [inputsAt]
      rw [hone, Dashboard.sent_append, hw.requests j, ← hw.dashboards j, Function.update_self,
        List.append_assoc]
    · have hnone : inputsAt j [.input i input] = [] := by simp [inputsAt, Ne.symm hij]
      rw [hnone, List.append_nil, Function.update_of_ne hij]
      exact hw.requests j
  store := by
    rw [memory_last_concat rfl]
    exact hw.store
  car := by
    unfold followed
    rw [memory_concat]
    exact hw.car

theorem linked_processed (hw : start.Linked before w) {i : ι} {request : Sent} {rest : List Sent}
    (hinFlight : w.inFlight i = request :: rest) :
    start.Linked (before ++ [.processed i request])
      { w with
        inFlight := Function.update w.inFlight i rest
        store := (updateCarMovement request.post.body w.store).2 } where
  dashboards j := by
    have hnone : inputsAt j [Occurrence.processed i request] = [] := rfl
    rw [inputsAt_concat, hnone, List.append_nil]
    exact hw.dashboards j
  requests j := by
    have hnone : inputsAt j [Occurrence.processed i request] = [] := rfl
    have horder : processedOrder [Occurrence.processed i request] = [(i, request)] := rfl
    rw [inputsAt_concat, hnone, List.append_nil, processedOrder_append, horder,
      List.filter_append, List.map_append, hw.requests j, List.append_assoc]
    change _ = _ ++ (_ ++ Function.update w.inFlight i rest j)
    by_cases hij : j = i
    · subst hij
      rw [Function.update_self, hinFlight]
      simp
    · rw [Function.update_of_ne hij]
      simp [Ne.symm hij]
  store := by
    rw [memory_concat]
    change (updateCarMovement request.post.body w.store).2 = stored (shownBy request).shown
    rw [updateCarMovement_post w.store (post_sendable request), post_eq_shown]
  car := by
    unfold followed
    rw [memory_concat]
    exact hw.car

/-- One event. -/
theorem linked_step (hjc : jc.ReadsRecords) (hw : start.Linked before w)
    (hparse : ∀ i request, .processed i request ∈ before → Parses jc request.post)
    (hstep : World.Step jc w e w') : start.Linked (before ++ [e]) w' := by
  cases hstep with
  | input i input => exact linked_input hw i input
  | processed hinFlight => exact linked_processed hw hinFlight
  | answered hpoll htick =>
    refine linked_car hw (fun _ => rfl) rfl ?_
    unfold followed
    rw [memory_concat, timerCallback_drive htick]
    exact tracks_answered hjc hw hparse hpoll
  | lost hfailed htick =>
    refine linked_car hw (fun _ => rfl) rfl ?_
    unfold followed
    rw [memory_concat, timerCallback_drive htick]
    exact tracks_tick hjc hw.car (pollFor_admissible _) (p := .failed) trivial hfailed
  | threads h =>
    refine linked_car hw (fun _ => rfl) rfl ?_
    unfold followed
    rw [memory_concat, env_drive _ _ h]
    exact hw.car

/-- A whole run. -/
theorem linked_run (hjc : jc.ReadsRecords) (hstart : start.Fresh) {events : List (Occurrence ι)}
    (hparse : ∀ i request, .processed i request ∈ events → Parses jc request.post)
    (hrun : Path (World.Step jc) start events w) : start.Linked events w := by
  refine hrun.history (linked_fresh hstart) ?_
  intro before t e t' after hevents ht hstep
  refine linked_step hjc ht (fun i request hmem => hparse i request ?_) hstep
  rw [hevents]
  exact List.mem_append_left _ hmem

/-- In every run, and at every moment of it, the four duties and the servo are those of the screen
whose request the backend had processed last when the last tick was answered; the car is stopped
when the last poll failed or found nothing stored. -/
theorem car_follows_requests (jc : JsonC) (hjc : jc.ReadsRecords) (start w : World ι)
    (hstart : start.Fresh) (events : List (Occurrence ι))
    (hparse : ∀ i request, .processed i request ∈ events → Parses jc request.post)
    (hrun : Path (World.Step jc) start events w) :
    w.car.drive.duties = dutiesFor (followed events) ∧
      w.car.drive.servoNs = some (servoNs (angleFor (followed events))) := by
  have hcar := (linked_run hjc hstart hparse hrun).car
  rw [← duties_pollFor, ← angle_pollFor]
  exact ⟨hcar.duties, hcar.servo⟩

/-- The requests of a press on forward and of a stop after it. -/
def forwardSent : Sent := ⟨.moveForward, initialDashboard⟩

def stopSent : Sent := ⟨.stopCar, shownBy forwardSent⟩

/-- A user drives forward, the backend processes the request, and a poll is answered. -/
def forwardEvents : List (Occurrence Unit) :=
  [.input () (.act .moveForward), .processed () forwardSent, .answered]

/-- json-c on the replies to the polls. -/
def sampleReader : JsonC := postReader [forwardSent.post, stopSent.post]

theorem sampleReader_readsRecords : sampleReader.ReadsRecords := ⟨fun _ => rfl, fun _ => rfl⟩

theorem sampleReader_parses :
    Parses sampleReader forwardSent.post ∧ Parses sampleReader stopSent.post := by
  have hfound : ∀ post ∈ [forwardSent.post, stopSent.post],
      [forwardSent.post, stopSent.post].find? (fun other => recordText (postValues other) =
        recordText (postValues post)) = some post := by decide +kernel
  exact ⟨postReader_parses (hfound _ (by decide)), postReader_parses (hfound _ (by decide))⟩

theorem sampleReader_forward : ∀ (i : Unit) (request : Sent),
    .processed i request ∈ forwardEvents → Parses sampleReader request.post := by
  intro i request h
  simp only [forwardEvents, List.mem_cons, Occurrence.processed.injEq, List.not_mem_nil,
    reduceCtorEq, or_false, false_or] at h
  rw [h.2]
  exact sampleReader_parses.1

/-- The reply to the poll that follows. -/
def forwardReply : WgetRun := ⟨true, recordText (postValues forwardSent.post), 0⟩

theorem forwardReply_polls :
    Polls forwardReply (answer (respond [] .movement (stored forwardSent.post)).1) := by
  have hreply : respond [] .movement (stored forwardSent.post) =
      (.ok ⟨200, fieldList (postValues forwardSent.post)⟩, stored forwardSent.post) :=
    requestCarMovement_defined (stored_get _)
  rw [hreply]
  rfl

/-- A poll that fails. -/
def lostReply : WgetRun := ⟨false, [], 0⟩

/-- The run, and a tick that may follow it. -/
theorem forwardEvents_run : ∃ start w : World Unit,
    start.Fresh ∧ (∀ i, (start.dashboards i).Coherent) ∧
    Path (World.Step sampleReader) start forwardEvents w ∧
    w.dashboards () = shownBy forwardSent ∧ w.inFlight () = [] ∧
    ∃ car, machine.Runs (timerCallback sampleReader lostReply) w.car () car := by
  obtain ⟨_, s, hinit, htest⟩ := machine.play_runs startMoves initGpioPins boot
    (fun _ s => decide s.drive.MotorsActive && servoStarted s.log &&
      (machine.play (calmMoves 40) (timerCallback sampleReader forwardReply) s).any
        fun c => c.1.returned.any fun _ =>
          (machine.play (calmMoves 60) (timerCallback sampleReader lostReply) c.2).any
            fun c => c.1.returned.any fun _ => true) (by decide +kernel)
  simp only [Bool.and_eq_true, decide_eq_true_eq] at htest
  obtain ⟨⟨hactive, hservo⟩, hplay⟩ := htest
  obtain ⟨_, t, htick, hnext⟩ := machine.play_runs _ _ _ (fun _ t =>
    (machine.play (calmMoves 60) (timerCallback sampleReader lostReply) t).any
      fun c => c.1.returned.any fun _ => true) hplay
  obtain ⟨_, car, hlost, -⟩ := machine.play_runs _ _ _ (fun _ _ => true) hnext
  let start : World Unit := ⟨fun _ => initialDashboard, fun _ => [], initialGlobals, s⟩
  exact ⟨start, _, ⟨fun _ => rfl, rfl, hinit, hactive, hservo⟩, fun _ => rfl,
    .cons (.input start () (.act .moveForward)) (.cons (.processed rfl)
      (.cons (.answered forwardReply_polls htick) (.nil _))), rfl, rfl, car, hlost⟩

/-- The car drives forward at the speed of the first gear. -/
theorem car_follows_requests_forward :
    ∃ start w : World Unit, Path (World.Step sampleReader) start forwardEvents w ∧
      w.car.drive.duties = ⟨25, 0, 25, 0⟩ := by
  obtain ⟨start, w, hfresh, -, hrun, -⟩ := forwardEvents_run
  exact ⟨start, w, hrun, (car_follows_requests sampleReader sampleReader_readsRecords start w
    hfresh forwardEvents sampleReader_forward hrun).1⟩

/-! ### A stop reaches the motors -/

/-- The requests of a run, as an interleaving of the sessions. -/
def World.Linked.interleaving {events : List (Occurrence ι)} (h : start.Linked events w) :
    Interleaving start.dashboards (fun i => inputsAt i events) where
  order := processedOrder events
  inOrder i := ⟨w.inFlight i, (h.requests i).symm⟩

/-- A car that is stopped, or follows a screen that shows a stop. -/
def Halted (d : Option Dashboard) : Prop := ∀ e, d = some e → e.currentMovement = .detenido

theorem dutiesFor_halted {d : Option Dashboard} (h : Halted d) : dutiesFor d = ⟨0, 0, 0, 0⟩ := by
  cases d with
  | none => rfl
  | some e =>
    change bridge e.currentMovement _ _ = _
    rw [h e rfl]
    rfl

def Occurrence.isTick : Occurrence ι → Bool
  | .answered => true
  | .lost => true
  | _ => false

omit [DecidableEq ι] in
/-- After a request that stops, and while only requests that stop are processed, a tick halts the
car and nothing sets it going. -/
theorem memory_halted {events after : List (Occurrence ι)} (hlast : Halted (memory events).last)
    (hafter : ∀ i request, .processed i request ∈ after →
      (shownBy request).currentMovement = .detenido) :
    Halted (memory (events ++ after)).last ∧
      (after.any Occurrence.isTick = true → Halted (followed (events ++ after))) := by
  induction after using List.reverseRecOn with
  | nil =>
    rw [List.append_nil]
    exact ⟨hlast, fun h => nomatch h⟩
  | append_singleton after e ih =>
    obtain ⟨hlast', hfollowed⟩ := ih fun i request h => hafter i request (List.mem_append_left _ h)
    unfold followed at hfollowed ⊢
    rw [← List.append_assoc, memory_concat, List.any_append, Bool.or_eq_true]
    cases e with
    | processed i request =>
      refine ⟨?_, fun h => hfollowed (h.resolve_right (by simp [Occurrence.isTick]))⟩
      rintro d ⟨⟩
      exact hafter i request (List.mem_append_right _ List.mem_cons_self)
    | answered => exact ⟨hlast', fun _ => hlast'⟩
    | lost => exact ⟨hlast', fun _ => nofun⟩
    | input i input =>
      exact ⟨hlast', fun h => hfollowed (h.resolve_right (by simp [Occurrence.isTick]))⟩
    | threads =>
      exact ⟨hlast', fun h => hfollowed (h.resolve_right (by simp [Occurrence.isTick]))⟩

/-- Once the backend has processed a stop of dashboard `i`, the motors are off from the next tick
on, whatever its poll brings, until the backend processes a request that drives, or one that
steers, from another dashboard that was not stopped itself. -/
theorem stop_reaches_motors (jc : JsonC) (hjc : jc.ReadsRecords) (start w : World ι)
    (hstart : start.Fresh) (before after : List (Occurrence ι)) (i : ι) (stop : Sent)
    (hstop : stop.action = .stopCar)
    (hparse : ∀ j request, .processed j request ∈ before ++ .processed i stop :: after →
      Parses jc request.post)
    (hrun : Path (World.Step jc) start (before ++ .processed i stop :: after) w)
    (hheld : ∀ j request, .processed j request ∈ after → ¬ EndsStop i (j, request))
    (htick : after.any Occurrence.isTick = true) :
    w.car.drive.duties = ⟨0, 0, 0, 0⟩ := by
  have hlinked := linked_run hjc hstart hparse hrun
  have horder : hlinked.interleaving.order =
      processedOrder before ++ (i, stop) :: (processedOrder after ++ []) := by
    rw [List.append_nil]
    exact processedOrder_append _ _
  have hmiddle : ∀ p ∈ processedOrder after, ¬ EndsStop i p := by
    rintro ⟨j, request⟩ hp
    exact hheld j request (mem_processedOrder.mp hp)
  have hstopped : ∀ j request, .processed j request ∈ after →
      (shownBy request).currentMovement = .detenido := by
    intro j request hmem
    have hpost := hlinked.interleaving.post_none horder hstop hmiddle (mem_processedOrder.mpr hmem)
    rw [post_eq_shown] at hpost
    exact Dashboard.mapMovementToBackend_none.mp hpost
  have hfirst : Halted (memory (before ++ [.processed i stop])).last := by
    rw [memory_concat]
    rintro d ⟨⟩
    unfold shownBy
    rw [hstop]
    exact Dashboard.stopCar_currentMovement _
  have hsplit : before ++ .processed i stop :: after =
      (before ++ [.processed i stop]) ++ after := by simp
  rw [hsplit] at hlinked
  have hduties := hlinked.car.duties
  rw [duties_pollFor] at hduties
  rw [hduties]
  exact dutiesFor_halted ((memory_halted hfirst hstopped).2 htick)

/-! ### The motors show the screen -/

/-- When the request of a dashboard's last input is the one that the backend processed last, an
answered tick leaves the motors and the servo as the screen shows: its gear, its direction and its
speed. -/
theorem motors_show_screen (jc : JsonC) (hjc : jc.ReadsRecords) (start w : World ι)
    (hstart : start.Fresh) (hcoherent : ∀ i, (start.dashboards i).Coherent)
    (events : List (Occurrence ι))
    (hparse : ∀ j request, .processed j request ∈ events → Parses jc request.post)
    (hrun : Path (World.Step jc) start (events ++ [.answered]) w)
    (i : ι) (request : Sent) (hlast : (processedOrder events).getLast? = some (i, request))
    (hidle : w.inFlight i = []) (earlier : List Input) (action : Action)
    (hinputs : inputsAt i events = earlier ++ [.act action]) :
    let d := w.dashboards i
    w.car.drive.duties = bridge d.gear.sign d.currentDirection d.speedValue ∧
      w.car.drive.servoNs = some (servoNs (wheelAngle d.currentDirection)) := by
  have hlinked := linked_run hjc hstart (fun j r h => hparse j r (by simpa using h)) hrun
  have hinputs' : inputsAt i (events ++ [.answered]) = earlier ++ [.act action] := by
    rw [inputsAt_concat, hinputs]
    exact List.append_nil _
  have horder : processedOrder (events ++ [.answered]) = processedOrder events := by
    rw [processedOrder_append]
    exact List.append_nil _
  have hdashboard := hlinked.dashboards i
  have hrequests := hlinked.requests i
  -- the last request that dashboard `i` has sent is the one processed last
  obtain ⟨order, hsplit⟩ := List.getLast?_eq_some_iff.mp hlast
  rw [hinputs', horder, hsplit, hidle, Dashboard.sent_append, List.filter_append, List.map_append,
    List.append_nil] at hrequests
  have hone : ((start.dashboards i).final earlier).sent [.act action] =
      [⟨action, (start.dashboards i).final earlier⟩] := rfl
  have hmine : (List.filter (fun p : ι × Sent => p.1 = i) [(i, request)]).map Prod.snd =
      [request] := by simp
  rw [hone, hmine] at hrequests
  have hrequest : request = ⟨action, (start.dashboards i).final earlier⟩ :=
    (List.append_singleton_inj.mp hrequests).2.symm
  have hshown : shownBy request = w.dashboards i := by
    have hfinal : (start.dashboards i).final (earlier ++ [.act action]) =
        ((start.dashboards i).final earlier).handle (.act action) := List.foldl_append
    rw [hdashboard, hinputs', hfinal, hrequest]
    rfl
  have hfollowed : followed (events ++ [.answered]) = some (w.dashboards i) := by
    unfold followed
    rw [memory_concat]
    change (memory events).last = _
    rw [memory_last, hlast, ← hshown]
    rfl
  have hsign : (w.dashboards i).gear.sign = (w.dashboards i).currentMovement := by
    rw [hdashboard]
    exact Dashboard.coherent_final (hcoherent i) _
  have hcar := hlinked.car
  have hduties := hcar.duties
  have hservo := hcar.servo
  rw [duties_pollFor, hfollowed] at hduties
  rw [angle_pollFor, hfollowed] at hservo
  intro d
  refine ⟨?_, hservo⟩
  rw [hsign]
  exact hduties

/-- The user who drives forward stops, the backend processes the request, and a poll fails. -/
theorem stop_reaches_motors_lost :
    ∃ start w : World Unit,
      Path (World.Step sampleReader) start
        ((forwardEvents ++ [.input () (.act .stopCar)]) ++ .processed () stopSent :: [.lost]) w ∧
      w.car.drive.duties = ⟨0, 0, 0, 0⟩ := by
  obtain ⟨start, w, hfresh, -, hrun, hshown, hidle, car, hlost⟩ := forwardEvents_run
  let asked : World Unit :=
    { w with
      dashboards := Function.update w.dashboards () ((w.dashboards ()).handle (.act .stopCar))
      inFlight := Function.update w.inFlight ()
        (w.inFlight () ++ (w.dashboards ()).sent [.act .stopCar]) }
  have hinput : Path (World.Step sampleReader) start
      (forwardEvents ++ [.input () (.act .stopCar)]) asked :=
    path_concat.mpr ⟨w, hrun, .input w () (.act .stopCar)⟩
  have hinFlight : asked.inFlight () = [stopSent] := by
    change Function.update w.inFlight ()
      (w.inFlight () ++ (w.dashboards ()).sent [.act .stopCar]) () = _
    rw [Function.update_self, hidle, hshown]
    rfl
  have hprocessed : World.Step sampleReader asked (.processed () stopSent) _ := .processed hinFlight
  have hall := path_append.mpr ⟨asked, hinput, .cons hprocessed (.cons (.lost rfl hlost) (.nil _))⟩
  refine ⟨start, _, hall, ?_⟩
  refine stop_reaches_motors sampleReader sampleReader_readsRecords start _ hfresh _ [.lost] ()
    stopSent rfl (fun i request h => ?_) hall (fun j request h => ?_) rfl
  · simp only [forwardEvents, List.cons_append, List.nil_append, List.mem_cons,
      Occurrence.processed.injEq, List.not_mem_nil, reduceCtorEq, or_false, false_or] at h
    rcases h with ⟨-, rfl⟩ | ⟨-, rfl⟩
    · exact sampleReader_parses.1
    · exact sampleReader_parses.2
  · simp at h

/-- The screen after the first press on forward, and the motors. -/
theorem motors_show_screen_forward :
    ∃ start w : World Unit, Path (World.Step sampleReader) start forwardEvents w ∧
      w.car.drive.duties = bridge (w.dashboards ()).gear.sign (w.dashboards ()).currentDirection
        (w.dashboards ()).speedValue := by
  obtain ⟨start, w, hfresh, hcoherent, hrun, -, hidle, -⟩ := forwardEvents_run
  refine ⟨start, w, hrun, ?_⟩
  exact (motors_show_screen sampleReader sampleReader_readsRecords start w hfresh hcoherent
    [.input () (.act .moveForward), .processed () forwardSent]
    (fun i request h => sampleReader_forward i request (List.mem_append_left [_] h)) hrun ()
    forwardSent rfl hidle [] .moveForward rfl).1

end

end EmbeddedCar.System
