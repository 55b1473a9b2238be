import EmbeddedCar.Backend.StreamingController
import EmbeddedCar.Lease.Table
import EmbeddedCar.Reactive.Run

/-!
# How long a device is registered

The registry is a table of leases: a registration, a heartbeat or a stream request is a contact,
and the cleanup is the sweep.
-/

namespace EmbeddedCar.Backend

open EmbeddedCar.JavaScript EmbeddedCar.Lease EmbeddedCar.Reactive

/-- The device that an operation has contact with: the one that it registers, or a registered one
that it is about. -/
def contactOf (r : Registry) (e : Timed) : Option DeviceKey :=
  match e.op with
  | .register _ body =>
      match checkRegistration e.time body with
      | .ok (.ok (streamInfo, _)) => some (.of r.nextIdentity streamInfo.deviceId)
      | _ => none
  | .stream deviceId _ =>
      if deviceId ≠ [] ∧ r.streamingDevices.has (.string deviceId) then some (.string deviceId)
      else none
  | .heartbeat deviceId =>
      if r.streamingDevices.has (.string deviceId) then some (.string deviceId) else none
  | _ => none

/-- A run so far: the registry, the contacts, and the times of the last cleanup and of the last
operation. -/
structure Trace where
  registry : Registry
  contacts : List (DeviceKey × ℤ)
  swept : ℤ
  now : ℤ

/-- The module is loaded, which starts the timer of the cleanup. -/
def Trace.loaded (time : ℤ) : Trace := ⟨.loaded time, [], time, time⟩

/-- What an operation is to the table of leases. -/
def leaseOp (r : Registry) (e : Timed) : Op DeviceKey :=
  match contactOf r e with
  | some key => .contact key
  | none =>
      match e.op with
      | .cleanup => .sweep
      | _ => .other

namespace Trace

/-- The table of leases of a run. -/
def table (t : Trace) : Table DeviceKey where
  last := fun key => (t.registry.streamingDevices.get key).map StreamInfo.lastSeen
  contacts := t.contacts
  swept := t.swept
  now := t.now

/-- Times do not go back, and the cleanup is not more than 30 seconds late. -/
def Due (t : Trace) (time : ℤ) : Prop := t.now ≤ time ∧ time ≤ t.swept + 30000

instance (t : Trace) (time : ℤ) : Decidable (t.Due time) :=
  inferInstanceAs (Decidable (t.now ≤ time ∧ time ≤ t.swept + 30000))

section

variable (dateText : ℤ → JsString)

def step (t : Trace) (e : Timed) : Trace where
  registry := (t.registry.run dateText e).2
  contacts :=
    match contactOf t.registry e with
    | some key => (key, e.time) :: t.contacts
    | none => t.contacts
  swept :=
    match e.op with
    | .cleanup => e.time
    | _ => t.swept
  now := e.time

/-- What holds after every operation. -/
structure Lifetimes (t : Trace) (e : Timed) : Prop where
  active : (t.step dateText e).registry.streamStats.activeStreams =
    (t.step dateText e).registry.streamingDevices.size
  counted : ∀ time, (t.step dateText e).registry.activeDevices time ≤
    (t.step dateText e).registry.totalDevices
  kept : e.op = .cleanup → ∀ key c, (key, c) ∈ t.contacts → e.time - c ≤ 60000 →
    (t.step dateText e).registry.streamingDevices.get key = t.registry.streamingDevices.get key
  recent : ∀ time, (t.step dateText e).Due time → ∀ key device,
    (t.step dateText e).registry.streamingDevices.get key = some device →
      ∃ c, (key, c) ∈ (t.step dateText e).contacts ∧ c ≤ time ∧ time - c ≤ 90000
  refused : ∀ response, (t.registry.run dateText e).1 = some (.own response) →
    response.status ∈ [400, 404, 500] → (t.step dateText e).registry = t.registry

end

end Trace

/-! ### What an operation does -/

/-- The counter is the number of devices. -/
def Registry.Counted (r : Registry) : Prop := r.streamStats.activeStreams = r.streamingDevices.size

section

variable (dateText : ℤ → JsString) (r : Registry)

/-- An operation that has contact with a device: it leaves the device with the time of the
contact, and is not answered by a refusal. -/
structure Contacts (e : Timed) (key : DeviceKey) : Prop where
  contact : contactOf r e = some key
  seen : ∃ device : StreamInfo, device.lastSeen = e.time ∧
    (r.run dateText e).2.streamingDevices = r.streamingDevices.set key device
  counted : r.Counted → (r.run dateText e).2.Counted
  accepted : ∀ response, (r.run dateText e).1 = some (.own response) → response.status = 200

theorem seen_counted {r : Registry} (hr : r.Counted) {key : DeviceKey} {device : StreamInfo}
    (hget : r.streamingDevices.get key = some device) (time : ℤ) :
    r.streamStats.activeStreams = (r.seen key device time).streamingDevices.size :=
  hr.trans (JsMap.size_set (JsMap.has_of_get hget) _).symm

theorem checkRegistration_lastSeen {time : ℤ} {body : JsVal} {streamInfo : StreamInfo}
    {deviceText : JsString} (h : checkRegistration time body = .ok (.ok (streamInfo, deviceText))) :
    streamInfo.lastSeen = time := by
  unfold checkRegistration at h
  obtain ⟨deviceId, -, h⟩ := ok_of_bind h
  obtain ⟨ip, -, h⟩ := ok_of_bind h
  obtain ⟨port, -, h⟩ := ok_of_bind h
  obtain ⟨resolution, -, h⟩ := ok_of_bind h
  obtain ⟨quality, -, h⟩ := ok_of_bind h
  split at h
  · cases h
  · obtain ⟨portText, -, h⟩ := ok_of_bind h
    obtain ⟨ipText, -, h⟩ := ok_of_bind h
    obtain ⟨deviceText', -, h⟩ := ok_of_bind h
    cases h
    rfl

/-- Every operation is a contact, the cleanup, or leaves the registry as it is. -/
theorem run_cases (e : Timed) :
    (∃ key, Contacts dateText r e key) ∨
      contactOf r e = none ∧ e.op = .cleanup ∧ r.run dateText e = (none, cleanup e.time r) ∨
      contactOf r e = none ∧ e.op ≠ .cleanup ∧ (r.run dateText e).2 = r := by
  obtain ⟨time, op⟩ := e
  cases op with
  | register host body =>
    cases hcheck : checkRegistration time body with
    | error e =>
      refine .inr (.inr ⟨?_, by simp, ?_⟩)
      · simp only [contactOf, hcheck]
      · simp only [Registry.run, registerStreamingDevice, hcheck]
    | ok result =>
      cases result with
      | error refusal =>
        refine .inr (.inr ⟨?_, by simp, ?_⟩)
        · simp only [contactOf, hcheck]
        · simp only [Registry.run, registerStreamingDevice, hcheck]
      | ok accepted =>
        obtain ⟨streamInfo, deviceText⟩ := accepted
        refine .inl ⟨.of r.nextIdentity streamInfo.deviceId, ?_, ?_, ?_, ?_⟩
        · simp only [contactOf, hcheck]
        · refine ⟨streamInfo, ?_, ?_⟩
          · exact checkRegistration_lastSeen hcheck
          · simp only [Registry.run, registerStreamingDevice, hcheck]
        · intro _
          simp only [Registry.run, registerStreamingDevice, hcheck]
          rfl
        · intro response hresponse
          simp only [Registry.run, registerStreamingDevice, hcheck] at hresponse
          cases hresponse
          rfl
  | info =>
    refine .inr (.inr ⟨rfl, by simp, rfl⟩)
  | cleanup => exact .inr (.inl ⟨rfl, rfl, rfl⟩)
  | stream deviceId upstream =>
    by_cases hempty : deviceId = []
    · refine .inr (.inr ⟨?_, by simp, ?_⟩)
      · simp [contactOf, hempty]
      · simp only [Registry.run, handleStreamRequest, if_pos hempty]
    · cases hget : r.streamingDevices.get (.string deviceId) with
      | none =>
        have hhas : r.streamingDevices.has (.string deviceId) = false := by
          unfold JsMap.has
          rw [hget]
          rfl
        refine .inr (.inr ⟨?_, by simp, ?_⟩)
        · simp [contactOf, hhas]
        · simp only [Registry.run, handleStreamRequest, if_neg hempty, hget]
      | some device =>
        refine .inl ⟨.string deviceId, ?_, ?_, ?_, ?_⟩
        · simp [contactOf, hempty, JsMap.has_of_get hget]
        · refine ⟨{ device with lastSeen := time }, rfl, ?_⟩
          simp only [Registry.run, handleStreamRequest, if_neg hempty, hget]
          rfl
        · intro hr
          simp only [Registry.run, handleStreamRequest, if_neg hempty, hget]
          exact seen_counted hr hget time
        · intro response hresponse
          simp only [Registry.run, handleStreamRequest, if_neg hempty, hget] at hresponse
          cases hresponse
  | heartbeat deviceId =>
    cases hget : r.streamingDevices.get (.string deviceId) with
    | none =>
      have hhas : r.streamingDevices.has (.string deviceId) = false := by
        unfold JsMap.has
        rw [hget]
        rfl
      refine .inr (.inr ⟨?_, by simp, ?_⟩)
      · simp [contactOf, hhas]
      · simp only [Registry.run, deviceHeartbeat, hget]
    | some device =>
      refine .inl ⟨.string deviceId, ?_, ?_, ?_, ?_⟩
      · simp [contactOf, JsMap.has_of_get hget]
      · refine ⟨{ device with lastSeen := time }, rfl, ?_⟩
        simp only [Registry.run, deviceHeartbeat, hget]
        rfl
      · intro hr
        simp only [Registry.run, deviceHeartbeat, hget]
        exact seen_counted hr hget time
      · intro response hresponse
        simp only [Registry.run, deviceHeartbeat, hget] at hresponse
        cases hresponse
        rfl

/-- An operation that the controller refuses leaves the registry as it is. -/
theorem run_refused {e : Timed} {response : Response}
    (hreply : (r.run dateText e).1 = some (.own response))
    (hstatus : response.status ∈ [400, 404, 500]) : (r.run dateText e).2 = r := by
  rcases run_cases dateText r e with ⟨key, h⟩ | ⟨-, -, hrun⟩ | ⟨-, -, hsame⟩
  · rw [h.accepted response hreply] at hstatus
    simp at hstatus
  · rw [hrun] at hreply
    cases hreply
  · exact hsame

theorem run_counted {r : Registry} (hr : r.Counted) (e : Timed) :
    (r.run dateText e).2.Counted := by
  rcases run_cases dateText r e with ⟨key, h⟩ | ⟨-, -, hrun⟩ | ⟨-, -, hsame⟩
  · exact h.counted hr
  · rw [hrun]
    rfl
  · rw [hsame]
    exact hr

end

/-! ### Runs -/

namespace Trace

variable (dateText : ℤ → JsString) (t : Trace)

theorem leaseOp_contact {r : Registry} {e : Timed} {key : DeviceKey}
    (h : contactOf r e = some key) : leaseOp r e = .contact key := by
  unfold leaseOp
  rw [h]

theorem contactOf_cleanup {r : Registry} {e : Timed} (h : e.op = .cleanup) :
    contactOf r e = none ∧ leaseOp r e = .sweep := by
  have hnone : contactOf r e = none := by
    unfold contactOf
    rw [h]
  refine ⟨hnone, ?_⟩
  unfold leaseOp
  rw [hnone, h]

theorem leaseOp_other {r : Registry} {e : Timed} (hnone : contactOf r e = none)
    (h : e.op ≠ .cleanup) : leaseOp r e = .other := by
  unfold leaseOp
  rw [hnone]
  cases hop : e.op with
  | cleanup => exact absurd hop h
  | _ => rfl

theorem swept_step {e : Timed} (h : e.op ≠ .cleanup) : (t.step dateText e).swept = t.swept := by
  unfold step
  cases hop : e.op with
  | cleanup => exact absurd hop h
  | _ => rfl

theorem get_cleanup (r : Registry) (time : ℤ) (key : DeviceKey) :
    (cleanup time r).streamingDevices.get key =
      (r.streamingDevices.get key).filter fun device => time - device.lastSeen ≤ 60000 := by
  show (r.streamingDevices.removeWhere _).get key = _
  rw [JsMap.get_removeWhere]
  congr 1
  funext device
  rw [← decide_not, decide_eq_decide, not_lt]

/-- The cleanup lets go of the devices whose lease has run out. -/
theorem lastSeen_cleanup (r : Registry) (time : ℤ) (key : DeviceKey) :
    ((cleanup time r).streamingDevices.get key).map StreamInfo.lastSeen =
      ((r.streamingDevices.get key).map StreamInfo.lastSeen).filter
        fun contact => time - contact ≤ 60000 := by
  rw [get_cleanup]
  cases r.streamingDevices.get key with
  | none => rfl
  | some device =>
    rw [Option.map_some, Option.filter_some, Option.filter_some]
    split <;> rfl

/-- The registry refines the table of leases. -/
theorem table_step (e : Timed) :
    (t.step dateText e).table = t.table.step 60000 ⟨e.time, leaseOp t.registry e⟩ := by
  rcases run_cases dateText t.registry e with ⟨key, h⟩ | ⟨hnone, hcleanup, hrun⟩ |
    ⟨hnone, hother, hsame⟩
  · obtain ⟨device, hseen, hdevices⟩ := h.seen
    have hne : e.op ≠ .cleanup := by
      intro hcleanup
      have hcontact := h.contact
      rw [(contactOf_cleanup hcleanup).1] at hcontact
      cases hcontact
    rw [leaseOp_contact h.contact]
    refine Table.ext (funext fun k => ?_) ?_ (swept_step dateText t hne) rfl
    · show ((t.registry.run dateText e).2.streamingDevices.get k).map _ = if _ then _ else _
      rw [hdevices, JsMap.get_set]
      split
      · rw [Option.map_some, hseen]
      · rfl
    · show (t.step dateText e).contacts = (key, e.time) :: t.contacts
      simp only [step, h.contact]
  · rw [(contactOf_cleanup hcleanup).2]
    refine Table.ext (funext fun k => ?_) ?_ ?_ rfl
    · show ((t.registry.run dateText e).2.streamingDevices.get k).map _ = _
      rw [hrun]
      exact lastSeen_cleanup t.registry e.time k
    · show (t.step dateText e).contacts = t.contacts
      simp only [step, hnone]
    · show (t.step dateText e).swept = e.time
      simp only [step, hcleanup]
  · rw [leaseOp_other hnone hother]
    refine Table.ext (funext fun k => ?_) ?_ (swept_step dateText t hother) rfl
    · show ((t.registry.run dateText e).2.streamingDevices.get k).map _ = _
      rw [hsame]
      rfl
    · show (t.step dateText e).contacts = t.contacts
      simp only [step, hnone]

/-- The invariant of a run. -/
def Sound (t : Trace) : Prop := t.registry.Counted ∧ t.table.Timely 60000

theorem sound_loaded (time : ℤ) : (loaded time).Sound := ⟨rfl, Table.timely_opened time⟩

variable {t}

theorem Sound.step (h : t.Sound) {e : Timed} (hdue : t.Due e.time) :
    (t.step dateText e).Sound := by
  refine ⟨run_counted dateText h.1 e, ?_⟩
  rw [table_step]
  exact h.2.step (by decide) hdue

theorem Sound.lifetimes (h : t.Sound) {e : Timed} (hdue : t.Due e.time) :
    Lifetimes dateText t e := by
  have hafter := h.step dateText hdue
  refine ⟨hafter.1, fun time => List.length_filter_le _ _, ?_, ?_, ?_⟩
  · intro hcleanup key c hmem hrecent
    have hlast := h.2.kept (k := key) hmem hrecent
    have hrun : (t.step dateText e).registry = cleanup e.time t.registry := by
      simp only [Trace.step, Registry.run, hcleanup]
    have hsame : ((t.registry.streamingDevices.get key).map StreamInfo.lastSeen).filter
        (fun contact => e.time - contact ≤ 60000) =
          (t.registry.streamingDevices.get key).map StreamInfo.lastSeen := hlast
    rw [hrun, get_cleanup]
    cases hget : t.registry.streamingDevices.get key with
    | none => rfl
    | some device =>
      rw [hget, Option.map_some, Option.filter_eq_some_iff] at hsame
      rw [Option.filter_some, if_pos hsame.2]
  · intro time htime key device hget
    have hlast : (t.step dateText e).table.last key = some device.lastSeen := by
      show ((t.step dateText e).registry.streamingDevices.get key).map _ = _
      rw [hget]
      rfl
    have hnext : (t.step dateText e).table.Due 30000 time := htime
    obtain ⟨hcontact, hpast, hrecent⟩ := hafter.2.held hnext hlast
    exact ⟨device.lastSeen, hcontact, hpast, hrecent⟩
  · intro response hreply hstatus
    exact run_refused dateText t.registry hreply hstatus

end Trace

/-- In every run with a cleanup at least every 30 seconds, after every operation: the counter is
the number of devices; a cleanup keeps every device contacted in the 60 seconds before it; a
device was contacted in the last 90 seconds; and a request that the controller refuses leaves the
registry as it is. -/
theorem lifetimes_run (dateText : ℤ → JsString) (startTime : ℤ) (operations : List Timed)
    (hdue : Along (Trace.step dateText) (fun t e => t.Due e.time) (.loaded startTime) operations) :
    Along (Trace.step dateText) (Trace.Lifetimes dateText) (.loaded startTime) operations :=
  along_of_invariant hdue (Trace.sound_loaded startTime)
    (fun _ _ h hdue => h.step dateText hdue) (fun _ _ h hdue => h.lifetimes dateText hdue)

/-- The parsed body of a registration. -/
def sampleBody : JsVal :=
  .object [(lit "deviceId", text "cam1"), (lit "ip", text "10.0.0.7"), (lit "port", intVal 8080)]

/-- A device is registered, sends a heartbeat, and is swept when it has been silent for more than
60 seconds. -/
theorem lifetimes_run_swept :
    let operations : List Timed :=
      [⟨0, .register (lit "car") sampleBody⟩, ⟨20000, .heartbeat (lit "cam1")⟩, ⟨30000, .cleanup⟩,
        ⟨60000, .cleanup⟩, ⟨90000, .cleanup⟩]
    Along (Trace.step fun _ => []) (Trace.Lifetimes fun _ => []) (.loaded 0) operations := by
  refine lifetimes_run (fun _ => []) 0 _ ?_
  decide

/-- A stream request that the device answers with 404 is answered with 404, and has renewed the
lease of the device. -/
theorem refusal_passed_on :
    let registered := (Trace.loaded 0).step (fun _ => []) ⟨0, .register (lit "car") sampleBody⟩
    let e : Timed := ⟨1, .stream (lit "cam1") 404⟩
    registered.Due e.time ∧
      ((registered.registry.run (fun _ => []) e).1.map Reply.status) = some 404 ∧
      (registered.registry.run (fun _ => []) e).2 ≠ registered.registry := by
  refine ⟨by decide, by decide, ?_⟩
  intro h
  have hconnections := congrArg (fun r => r.streamStats.totalConnections) h
  revert hconnections
  decide

end EmbeddedCar.Backend
