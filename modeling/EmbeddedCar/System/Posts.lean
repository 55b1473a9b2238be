import EmbeddedCar.Backend.StoredCommand
import EmbeddedCar.Frontend.Dashboard

/-!
# Dashboards and the store

Each action of a dashboard posts the whole triple it shows, and the backend overwrites the store
with it: what is stored is what the request processed last carries. Nothing orders the requests
of different dashboards, or those that travel on different connections.
-/

namespace EmbeddedCar.System

open EmbeddedCar.JavaScript EmbeddedCar.Backend EmbeddedCar.Frontend

/-- The store after the backend has processed some posts. -/
def process (g : Globals) (posts : List Post) : Globals :=
  posts.foldl (fun g post => (updateCarMovement post.body g).2) g

/-- The store that holds a triple. -/
def stored (post : Post) : Globals where
  carMovement := some (.string post.movement)
  carSpeed := some (.number (.fin (post.speed : ℕ)))
  carDirection := some (.string post.direction)

theorem process_append (g : Globals) (first second : List Post) :
    process g (first ++ second) = process (process g first) second := List.foldl_append

theorem stored_injective : Function.Injective stored := by
  rintro ⟨movement, speed, direction⟩ ⟨movement', speed', direction'⟩ h
  simp only [stored, Globals.mk.injEq, Option.some.injEq, JsVal.string.injEq, JsVal.number.injEq,
    JsNum.fin.injEq, Nat.cast_inj, Fin.val_inj] at h
  obtain ⟨rfl, rfl, rfl⟩ := h
  rfl

/-- The values a dashboard sends. -/
structure Sendable (post : Post) : Prop where
  movement : post.movement ∈ validMovements
  direction : post.direction ∈ validDirections

theorem shown_sendable (d : Dashboard) : Sendable d.shown := by
  refine ⟨?_, ?_⟩
  · change mapMovementToBackend d.currentMovement ∈ _
    cases d.currentMovement <;> decide
  · change mapDirectionToBackend d.currentDirection ∈ _
    cases d.currentDirection <;> decide

theorem post_sendable (s : Sent) : Sendable s.post := by
  unfold Sent.post
  rw [Dashboard.perform_post]
  exact shown_sendable _

/-- The range check passes every percentage. -/
theorem percent_inRange (speed : Percent) :
    speedOutOfRange (.number (.fin (speed : ℕ))) = .ok false := by
  have hle : (speed : ℕ) ≤ 100 := Nat.le_of_lt_succ speed.isLt
  exact speedOutOfRange_number (Nat.cast_nonneg _) (by exact_mod_cast hle)

theorem body_movement (post : Post) : post.body.get (lit "movement") = .string post.movement := rfl

theorem body_speed (post : Post) :
    post.body.get (lit "speed") = .number (.fin (post.speed : ℕ)) := rfl

theorem body_direction (post : Post) :
    post.body.get (lit "direction") = .string post.direction := rfl

/-- A post of a dashboard is never refused. -/
theorem updateCheck_post {post : Post} (h : Sendable post) : updateCheck post.body = .ok none := by
  have hoption : ∀ {s : JsString} {strings : List JsString}, s ∈ strings →
      (JsVal.string s).isOneOf strings = true := by
    intro s strings hs
    exact List.contains_iff_mem.mpr hs
  rw [updateCheck_eq (by simp [Post.body, JsVal.isNullish]), body_movement, body_speed,
    body_direction, percent_inRange]
  simp [hoption h.movement, hoption h.direction]

/-- Processing a post of a dashboard stores its triple, whatever was stored before. -/
theorem updateCarMovement_post (g : Globals) {post : Post} (h : Sendable post) :
    (updateCarMovement post.body g).2 = stored post := by
  have htruthy : ∀ {s : JsString} {strings : List JsString}, s ∈ strings → [] ∉ strings →
      (JsVal.string s).truthy = true := by
    intro s strings hs hempty
    simp only [JsVal.truthy, decide_eq_true_eq]
    rintro rfl
    exact hempty hs
  have hmovement := htruthy h.movement (by decide)
  have hdirection := htruthy h.direction (by decide)
  have hrefusal : (Request.updateMovement post.body).refusal = none :=
    updateRefusal_eq_none.mpr (updateCheck_post h)
  obtain ⟨r, hrun, -⟩ := respond_accepted g [] hrefusal
  change (respond [] (.updateMovement post.body) g).2 = _
  rw [hrun]
  apply Globals.ext_get
  intro x
  rw [Globals.get_overwrite]
  cases x with
  | carMovement =>
    simp [Request.fields, updateFields, body_movement, hmovement, stored, Globals.get]
  | carSpeed =>
    simp [Request.fields, updateFields, body_speed, JsVal.isUndefined, stored, Globals.get]
  | carDirection =>
    simp [Request.fields, updateFields, body_direction, hdirection, stored, Globals.get]

/-- What is stored is what the request processed last carries. -/
theorem process_concat (g : Globals) (posts : List Post) {last : Post} (h : Sendable last) :
    process g (posts ++ [last]) = stored last := by
  rw [process_append]
  exact updateCarMovement_post _ h

/-! ### One dashboard -/

/-- The posts of a session, in the order sent. -/
def posts (d : Dashboard) (inputs : List Input) : List Post := (d.sent inputs).map Sent.post

theorem posts_sendable {d : Dashboard} {inputs : List Input} {post : Post}
    (h : post ∈ posts d inputs) : Sendable post := by
  obtain ⟨s, -, rfl⟩ := List.mem_map.mp h
  exact post_sendable s

/-- The last post of a session that ends with an action carries what the dashboard shows. -/
theorem posts_concat (d : Dashboard) (earlier : List Input) (action : Action) :
    posts d (earlier ++ [.act action]) =
      posts d earlier ++ [(d.final (earlier ++ [.act action])).shown] := by
  unfold posts
  rw [Dashboard.sent_append, List.map_append]
  have hfinal : d.final (earlier ++ [.act action]) = ((d.final earlier).perform action).1 :=
    List.foldl_append
  rw [hfinal, ← Dashboard.perform_post]
  rfl

/-- In whatever order the posts of a session are processed, the triple of the one processed last
is stored. That is what the dashboard shows exactly when this post carries it, as the post of the
last action does. -/
theorem stored_is_processed_last (g : Globals) (d : Dashboard) (earlier : List Input)
    (action : Action) (order : List Post)
    (h : order.Perm (posts d (earlier ++ [.act action]))) :
    ∃ last, order.getLast? = some last ∧ process g order = stored last ∧
      (process g order = stored (d.final (earlier ++ [.act action])).shown ↔
        last = (d.final (earlier ++ [.act action])).shown) ∧
      (posts d (earlier ++ [.act action])).getLast? =
        some (d.final (earlier ++ [.act action])).shown := by
  have hposts := posts_concat d earlier action
  rcases List.eq_nil_or_concat order with rfl | ⟨before, last, rfl⟩
  · rw [hposts] at h
    simp at h
  · rw [List.concat_eq_append] at h ⊢
    have hmem : last ∈ posts d (earlier ++ [.act action]) := h.subset (by simp)
    have hprocess := process_concat g before (posts_sendable hmem)
    refine ⟨last, List.getLast?_concat, hprocess, ?_, ?_⟩
    · rw [hprocess]
      exact stored_injective.eq_iff
    · rw [hposts]
      exact List.getLast?_concat

/-- Forward, then stop, processed in the order sent. -/
theorem stored_is_processed_last_stop :
    process initialGlobals (posts initialDashboard [.act .moveForward, .act .stopCar]) =
      stored (initialDashboard.final [.act .moveForward, .act .stopCar]).shown := by
  obtain ⟨last, hlast, -, hiff, hshown⟩ := stored_is_processed_last initialGlobals initialDashboard
    [.act .moveForward] .stopCar _ (List.Perm.refl _)
  refine hiff.mpr ?_
  rw [hshown] at hlast
  exact (Option.some.inj hlast).symm

/-- Forward, then stop, processed in the other order: the car is driven and the dashboard shows
a stop. -/
theorem stop_overtaken :
    ∃ order : List Post,
      order.Perm (posts initialDashboard [.act .moveForward, .act .stopCar]) ∧
        (process initialGlobals order).carMovement = some (text "forward") ∧
        (stored (initialDashboard.final [.act .moveForward, .act .stopCar]).shown).carMovement =
          some (text "none") :=
  ⟨(posts initialDashboard [.act .moveForward, .act .stopCar]).reverse, List.reverse_perm _, rfl,
    rfl⟩

/-! ### Any number of dashboards -/

/-- The rest of a session is a session of the dashboard that an action left. -/
theorem sent_split {d : Dashboard} {inputs : List Input} (before : List Sent) {s : Sent}
    {rest : List Sent} (h : d.sent inputs = before ++ s :: rest) :
    ∃ later, rest = (s.sender.perform s.action).1.sent later := by
  induction inputs generalizing d before with
  | nil => simp [Dashboard.sent] at h
  | cons input inputs ih =>
    cases input with
    | slide speed => exact ih before h
    | act action =>
      cases before with
      | nil =>
        obtain ⟨rfl, rfl⟩ := List.cons.inj h
        exact ⟨inputs, rfl⟩
      | cons first before => exact ih before (List.cons.inj h).2

/-- The first action of a session finds the movement as it was. -/
theorem sent_head {d : Dashboard} {inputs : List Input} {s : Sent} {rest : List Sent}
    (h : d.sent inputs = s :: rest) : s.sender.currentMovement = d.currentMovement := by
  induction inputs generalizing d with
  | nil => cases h
  | cons input inputs ih =>
    cases input with
    | slide speed => exact ih (d := d.handle (.slide speed)) h
    | act action =>
      obtain ⟨rfl, -⟩ := List.cons.inj h
      rfl

/-- A stopped dashboard stays stopped while none of its actions drives. -/
theorem sent_stopped {d : Dashboard} (hd : d.currentMovement = .detenido) {inputs : List Input}
    {middle rest : List Sent} (h : d.sent inputs = middle ++ rest)
    (hmiddle : ∀ s ∈ middle, ¬ s.action.drives) :
    ∀ s ∈ middle, s.sender.currentMovement = .detenido := by
  induction middle generalizing d inputs with
  | nil => simp
  | cons first middle ih =>
    have hfirst := (sent_head h).trans hd
    have hafter : (first.sender.perform first.action).1.currentMovement = .detenido := by
      have hno := hmiddle first List.mem_cons_self
      cases haction : first.action with
      | moveForward => exact absurd (.inl haction) hno
      | moveBackward => exact absurd (.inr haction) hno
      | moveLeft =>
        rw [Dashboard.steers_currentMovement _ (.inl rfl)]
        exact hfirst
      | moveRight =>
        rw [Dashboard.steers_currentMovement _ (.inr rfl)]
        exact hfirst
      | stopCar => exact Dashboard.stopCar_currentMovement _
    obtain ⟨later, hlater⟩ := sent_split [] h
    intro s hs
    rcases List.mem_cons.mp hs with rfl | hs
    · exact hfirst
    · exact ih hafter hlater.symm (fun t ht => hmiddle t (List.mem_cons_of_mem _ ht)) s hs

variable {ι : Type} [DecidableEq ι]

/-- The requests of several sessions in the order processed. The requests of one dashboard are
processed in the order sent; some may still be on their way. -/
structure Interleaving (start : ι → Dashboard) (inputs : ι → List Input) where
  order : List (ι × Sent)
  inOrder : ∀ i,
    (order.filter fun p => p.1 = i).map Prod.snd <+: (start i).sent (inputs i)

def storeAfter (g : Globals) (order : List (ι × Sent)) : Globals :=
  process g (order.map fun p => p.2.post)

omit [DecidableEq ι] in
theorem storeAfter_concat (g : Globals) (order : List (ι × Sent)) (p : ι × Sent) :
    storeAfter g (order ++ [p]) = stored p.2.post := by
  unfold storeAfter
  rw [List.map_append]
  exact process_concat g _ (post_sendable p.2)

/-- A request that may end a stop of dashboard `i`: one that drives, or one that steers, sent by
another dashboard that was not itself stopped. -/
def EndsStop (i : ι) (p : ι × Sent) : Prop :=
  p.2.action.drives ∨
    (p.2.action.steers ∧ p.1 ≠ i ∧ p.2.sender.currentMovement ≠ .detenido)

section

variable {start : ι → Dashboard} {inputs : ι → List Input}

/-- The session of a dashboard around one of its requests. -/
theorem Interleaving.session (l : Interleaving start inputs) {before after : List (ι × Sent)}
    (h : l.order = before ++ after) (i : ι) :
    ∃ rest, (start i).sent (inputs i) =
      (before.filter fun p => p.1 = i).map Prod.snd ++
        ((after.filter fun p => p.1 = i).map Prod.snd ++ rest) := by
  obtain ⟨rest, hrest⟩ := l.inOrder i
  refine ⟨rest, ?_⟩
  rw [← hrest, h, List.filter_append, List.map_append, List.append_assoc]

/-- After a stop a request of the same dashboard finds it stopped, until it drives. -/
theorem Interleaving.stopped (l : Interleaving start inputs) {before middle rest : List (ι × Sent)}
    {i : ι} {s : Sent} (h : l.order = before ++ (i, s) :: (middle ++ rest))
    (hstop : s.action = .stopCar) (hmiddle : ∀ p ∈ middle, ¬ p.2.action.drives) {t : Sent}
    (ht : (i, t) ∈ middle) : t.sender.currentMovement = .detenido := by
  obtain ⟨tail, htail⟩ := l.session h i
  simp only [List.filter_cons, decide_true, if_true, List.map_cons, List.filter_append,
    List.map_append, List.cons_append, List.append_assoc] at htail
  obtain ⟨later, hlater⟩ := sent_split _ htail
  have hstopped : (s.sender.perform s.action).1.currentMovement = .detenido := by
    rw [hstop]
    exact Dashboard.stopCar_currentMovement _
  refine sent_stopped hstopped hlater.symm (fun u hu => ?_) t ?_
  · obtain ⟨p, hp, rfl⟩ := List.mem_map.mp hu
    exact hmiddle p (List.mem_of_mem_filter hp)
  · exact List.mem_map.mpr ⟨(i, t), List.mem_filter.mpr ⟨ht, by simp⟩, rfl⟩

/-- Of two requests of one dashboard in a row, the second is sent with the movement that the
first leaves. -/
theorem Interleaving.consecutive (l : Interleaving start inputs)
    {earlier rest : List (ι × Sent)} {i : ι} {t s : Sent}
    (h : l.order = earlier ++ (i, t) :: (i, s) :: rest) :
    s.sender.currentMovement = (t.sender.perform t.action).1.currentMovement := by
  obtain ⟨tail, htail⟩ := l.session h i
  simp only [List.filter_cons, decide_true, if_true, List.map_cons, List.cons_append] at htail
  obtain ⟨later, hlater⟩ := sent_split _ htail
  exact sent_head hlater.symm

theorem stopCar_post {s : Sent} (h : s.action = .stopCar) : s.post.movement = lit "none" := by
  unfold Sent.post
  rw [h]
  rfl

/-- What a request after a stop of `i` carries, unless it may end the stop. -/
theorem Interleaving.post_none (l : Interleaving start inputs)
    {before middle rest : List (ι × Sent)} {i : ι} {s : Sent}
    (h : l.order = before ++ (i, s) :: (middle ++ rest)) (hstop : s.action = .stopCar)
    (hmiddle : ∀ p ∈ middle, ¬ EndsStop i p) {p : ι × Sent} (hp : p ∈ middle) :
    p.2.post.movement = lit "none" := by
  have hends := hmiddle p hp
  by_cases hsteers : p.2.action.steers
  · rw [Dashboard.steers_post hsteers, Dashboard.mapMovementToBackend_none]
    by_cases hi : p.1 = i
    · subst hi
      exact l.stopped h hstop (fun q hq hdrives => hmiddle q hq (.inl hdrives)) hp
    · by_contra hmoving
      exact hends (.inr ⟨hsteers, hi, hmoving⟩)
  · apply stopCar_post
    cases haction : p.2.action with
    | moveForward => exact absurd (.inl (.inl haction)) hends
    | moveBackward => exact absurd (.inl (.inr haction)) hends
    | moveLeft => exact absurd (.inl haction) hsteers
    | moveRight => exact absurd (.inr haction) hsteers
    | stopCar => rfl

theorem Interleaving.movement_none (l : Interleaving start inputs) (g : Globals)
    {before middle rest : List (ι × Sent)} {i : ι} {s : Sent}
    (h : l.order = before ++ (i, s) :: (middle ++ rest)) (hstop : s.action = .stopCar)
    (hmiddle : ∀ p ∈ middle, ¬ EndsStop i p) :
    (storeAfter g (before ++ (i, s) :: middle)).carMovement = some (text "none") := by
  -- what is stored is what the last request of `middle`, or the stop, carries
  rcases List.eq_nil_or_concat middle with rfl | ⟨earlier, p, rfl⟩
  · rw [storeAfter_concat]
    exact congrArg (fun m => some (JsVal.string m)) (stopCar_post hstop)
  · rw [List.concat_eq_append] at h hmiddle ⊢
    have hpost := l.post_none h hstop hmiddle (List.mem_append_right earlier List.mem_cons_self)
    rw [← List.cons_append, ← List.append_assoc, storeAfter_concat]
    exact congrArg (fun m => some (JsVal.string m)) hpost

/-- A steering request right after one of the same dashboard carries the same movement. -/
theorem Interleaving.steers_same (l : Interleaving start inputs)
    {earlier rest : List (ι × Sent)} {i : ι} {t s : Sent}
    (h : l.order = earlier ++ (i, t) :: (i, s) :: rest) (hsteers : s.action.steers) :
    s.post.movement = t.post.movement := by
  rw [Dashboard.steers_post hsteers, l.consecutive h]
  change _ = (t.sender.perform t.action).2.movement
  rw [Dashboard.perform_post]
  rfl

end

/-- After a stop, the stored movement stays `none` until the backend processes a request that
drives, or one that steers, from another dashboard that was not stopped itself. A request that
steers stores the movement of its sender, which changes nothing when the request processed before
it came from the same dashboard. -/
theorem stop_holds_until_driven (start : ι → Dashboard) (inputs : ι → List Input)
    (l : Interleaving start inputs) (g : Globals) :
    (∀ before i s middle rest, l.order = before ++ (i, s) :: (middle ++ rest) →
        s.action = .stopCar → (∀ p ∈ middle, ¬ EndsStop i p) →
          (storeAfter g (before ++ (i, s) :: middle)).carMovement = some (text "none")) ∧
      ∀ before i s rest, l.order = before ++ (i, s) :: rest → s.action.steers →
        (storeAfter g (before ++ [(i, s)])).carMovement =
            some (.string (mapMovementToBackend s.sender.currentMovement)) ∧
          ∀ earlier t, before = earlier ++ [(i, t)] →
            (storeAfter g (before ++ [(i, s)])).carMovement =
              (storeAfter g before).carMovement := by
  refine ⟨fun before i s middle rest horder hstop hmiddle => ?_, ?_⟩
  · exact l.movement_none g horder hstop hmiddle
  · intro before i s rest horder hsteers
    rw [storeAfter_concat]
    refine ⟨congrArg (fun m => some (JsVal.string m)) (Dashboard.steers_post hsteers), ?_⟩
    rintro earlier t rfl
    rw [List.append_assoc] at horder
    rw [storeAfter_concat]
    exact congrArg (fun m => some (JsVal.string m)) (l.steers_same horder hsteers)

/-- Dashboard `true` drives forward and later turns left; dashboard `false` stops in between. -/
def steeringSessions : Bool → List Input
  | true => [.act .moveForward, .act .moveLeft]
  | false => [.act .stopCar]

def steeringAfterStop : Interleaving (fun _ : Bool => initialDashboard) steeringSessions where
  order := [(true, ⟨.moveForward, initialDashboard⟩), (false, ⟨.stopCar, initialDashboard⟩),
    (true, ⟨.moveLeft, initialDashboard.moveForward.1⟩)]
  inOrder
    | true => ⟨[], rfl⟩
    | false => ⟨[], rfl⟩

/-- The stop holds up to the turn, which stores the movement of its sender. -/
theorem stop_holds_until_driven_turn :
    (storeAfter initialGlobals (steeringAfterStop.order.take 2)).carMovement =
        some (text "none") ∧
      (storeAfter initialGlobals (steeringAfterStop.order.take 3)).carMovement =
        some (text "forward") := by
  obtain ⟨hstop, hsteer⟩ :=
    stop_holds_until_driven _ steeringSessions steeringAfterStop initialGlobals
  have hturn := hsteer (steeringAfterStop.order.take 2) true
    ⟨.moveLeft, initialDashboard.moveForward.1⟩ [] rfl (.inl rfl)
  exact ⟨hstop (steeringAfterStop.order.take 1) false ⟨.stopCar, initialDashboard⟩ [] _ rfl rfl
    (by simp),
    hturn.1⟩

/-- A turn to the left ends the stop of the other dashboard. -/
theorem steering_ends_stop :
    (steeringAfterStop.order.map fun p => p.2.action) = [.moveForward, .stopCar, .moveLeft] ∧
      (storeAfter initialGlobals (steeringAfterStop.order.take 2)).carMovement =
        some (text "none") ∧
      (storeAfter initialGlobals steeringAfterStop.order).carMovement = some (text "forward") :=
  ⟨rfl, rfl, rfl⟩

end EmbeddedCar.System
