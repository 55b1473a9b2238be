import EmbeddedCar.Backend.StreamRegistry
import EmbeddedCar.JavaScript.Uri

/-!
# Whether a registered device is found

A registration stores the device under its `deviceId` as the body has it; a request looks up the
text that Express decodes from the path. The two are the same key when the `deviceId` is a string
that comes back from the path as it is. What the client and the router make of a path is a
parameter.
-/

namespace EmbeddedCar.Backend

open EmbeddedCar.JavaScript

/-- What `:deviceId` captures of a path that ends in this text, sent by the client; `none` is a
path that the route does not match. -/
abbrev Segment := JsString → Option JsString

/-- The characters that a URL has in a segment of its path, but for escapes. -/
def pathCharacters : JsString :=
  lit "ABCDEFGHIJKLMNOPQRSTUVWXYZabcdefghijklmnopqrstuvwxyz0123456789-._~!$&'()*+,;=:@"

/-- What ends a segment, and what starts an escape. -/
def delimiters : JsString := lit "/?#"

def PathText (s : JsString) : Prop := ∀ c ∈ s, c ∈ pathCharacters

/-- A text of characters that a URL has. -/
def UrlText (s : JsString) : Prop := ∀ c ∈ s, c ∈ pathCharacters ∨ c ∈ delimiters ∨ c = 37

/-- A text that is no dot segment. -/
def NoDots (s : JsString) : Prop := s ≠ lit "." ∧ s ≠ lit ".."

/-- What is documented of URLs and of the router: the characters of a segment are sent and
captured as they are, and what is captured is a part of the path between delimiters. Nothing is
asked of other characters, which clients encode in their own ways. -/
structure Delivers (segment : Segment) : Prop where
  verbatim : ∀ s, s ≠ [] → PathText s → NoDots s → segment s = some s
  part : ∀ s captured, UrlText s → segment s = some captured →
    captured <:+: s ∧ ∀ c ∈ captured, c ∉ delimiters

/-- The parameter of a request. -/
inductive Param where
  | noRoute
  | undecodable (captured : JsString)
  | value (deviceId : JsString)

/-- The 404 handler, `server.js:46-51`. -/
def routeNotFound (method path : JsString) : Response :=
  ⟨404, [(lit "error", text "Route not found"),
    (lit "message", .string (lit "Cannot " ++ method ++ lit " " ++ path))]⟩

/-- The error of a parameter that Express cannot decode, in `server.js:37-43`. -/
def paramError (captured : JsString) : Response :=
  ⟨500, [(lit "error", text "Something went wrong!"),
    (lit "message", .string (lit "Failed to decode param '" ++ captured ++ lit "'"))]⟩

section

variable (segment : Segment)

/-- The `deviceId` that a request for a path has in its parameters. -/
def deviceIdParam (route path : JsString) : Param :=
  if path.take route.length = route then
    match segment (path.drop route.length) with
    | none => .noRoute
    | some captured =>
        match decodeURIComponent captured with
        | none => .undecodable captured
        | some deviceId => .value deviceId
  else .noRoute

/-- A request for a path, where the route has this handler. -/
def request (method route path : JsString) (handler : JsString → Registry → Reply × Registry)
    (r : Registry) : Reply × Registry :=
  match deviceIdParam segment route path with
  | .noRoute => (.own (routeNotFound method path), r)
  | .undecodable captured => (.own (paramError captured), r)
  | .value deviceId => handler deviceId r

def heartbeatRoute : JsString := lit "/api/camera/heartbeat/"

def streamRoute : JsString := lit "/api/camera/stream/"

/-- `POST /camera/heartbeat/:deviceId`, `camera.js:136`. -/
def heartbeatRequest (dateText : ℤ → JsString) (time : ℤ) (path : JsString) (r : Registry) :
    Reply × Registry :=
  request segment (lit "POST") heartbeatRoute path (deviceHeartbeat dateText time) r

/-- `GET /camera/stream/:deviceId`, `camera.js:135`. -/
def streamRequest (time : ℤ) (upstream : ℕ) (path : JsString) (r : Registry) : Reply × Registry :=
  request segment (lit "GET") streamRoute path
    (fun deviceId r => handleStreamRequest time deviceId upstream r) r

end

/-! ## What is asked -/

/-- The registry after operations. -/
def Registry.after (dateText : ℤ → JsString) (r : Registry) (operations : List Timed) : Registry :=
  operations.foldl (fun r e => (r.run dateText e).2) r

/-- The operation registers no device under this textual id, and is no sweep. -/
def Spares (deviceText : JsString) (e : Timed) : Prop :=
  e.op ≠ .cleanup ∧ ∀ host body, e.op = .register host body →
    ∀ streamInfo, checkRegistration e.time body ≠ .ok (.ok (streamInfo, deviceText))

/-- The device that was registered with this body, at whatever time it was seen last. -/
def HoldsDevice (r : Registry) (key : DeviceKey) (streamInfo : StreamInfo) : Prop :=
  ∃ lastSeen, r.streamingDevices.get key = some { streamInfo with lastSeen := lastSeen }

/-- The registered device is the one that was found: it was seen at this time. -/
def FindsDevice (result : Reply × Registry) (key : DeviceKey) (streamInfo : StreamInfo)
    (time : ℤ) : Prop :=
  result.2.streamingDevices.get key = some { streamInfo with lastSeen := time }

/-- A heartbeat and a stream request find the device that was just registered, whatever is done
before them but for a sweep or a registration under the same textual id. -/
def Reachable (dateText : ℤ → JsString) (segment : Segment) (r : Registry) (key : DeviceKey)
    (streamInfo : StreamInfo) (deviceText : JsString) : Prop :=
  ∀ between, (∀ e ∈ between, Spares deviceText e) → ∀ time upstream,
    let heartbeat := heartbeatRequest segment dateText time (heartbeatRoute ++ deviceText)
      (r.after dateText between)
    let stream := streamRequest segment time upstream streamInfo.proxyPath
      (r.after dateText between)
    (heartbeat.1.status = 200 ∧ FindsDevice heartbeat key streamInfo time) ∧
      (stream.1 = .proxied upstream ∧ FindsDevice stream key streamInfo time)

/-- Values that are one key, whenever they are parsed: equal strings, numbers or booleans. -/
def SameKey (v w : JsVal) : Prop := ∀ i j, DeviceKey.of i v = DeviceKey.of j w

/-- A registration replaces the entry of a key: no entry is added, and the entry is the new one. -/
def ReplacesEntry (dateText : ℤ → JsString) (r : Registry) (key : DeviceKey) (e : Timed)
    (streamInfo : StreamInfo) : Prop :=
  (r.run dateText e).2.streamingDevices.size = r.streamingDevices.size ∧
    (r.run dateText e).2.streamingDevices.get key = some streamInfo

/-! ## The parameter -/

theorem deviceIdParam_append (segment : Segment) (route deviceText : JsString) :
    deviceIdParam segment route (route ++ deviceText) =
      match segment deviceText with
      | none => .noRoute
      | some captured =>
          match decodeURIComponent captured with
          | none => .undecodable captured
          | some deviceId => .value deviceId := by
  unfold deviceIdParam
  rw [if_pos List.take_left, List.drop_left]

theorem deviceIdParam_value_iff (segment : Segment) (route deviceText deviceId : JsString) :
    deviceIdParam segment route (route ++ deviceText) = .value deviceId ↔
      (segment deviceText).bind decodeURIComponent = some deviceId := by
  rw [deviceIdParam_append]
  cases segment deviceText with
  | none => simp
  | some captured =>
    cases hdecoded : decodeURIComponent captured with
    | none => simp [hdecoded]
    | some decoded => simp [hdecoded]

/-- A text of the characters of a URL comes back from a path exactly when it has no delimiter and
no escape. -/
theorem comes_back_iff {segment : Segment} (hsegment : Delivers segment) {s : JsString}
    (hne : s ≠ []) (hurl : UrlText s) (hdots : NoDots s) :
    (segment s).bind decodeURIComponent = some s ↔ PathText s := by
  have hpercent : (37 : UInt16) ∉ pathCharacters := by decide
  constructor
  · intro h
    obtain ⟨captured, hcaptured, hdecoded⟩ := Option.bind_eq_some_iff.mp h
    obtain ⟨hpart, hfree⟩ := hsegment.part s captured hurl hcaptured
    obtain ⟨hle, hlt⟩ := decodeURIComponent_length hdecoded
    have hwhole : captured = s := hpart.eq_of_length (Nat.le_antisymm hpart.length_le hle)
    subst hwhole
    intro c hmem
    rcases hurl c hmem with hchar | hdelimiter | rfl
    · exact hchar
    · exact absurd hdelimiter (hfree c hmem)
    · exact absurd (hlt hmem) (Nat.lt_irrefl _)
  · intro hpath
    rw [hsegment.verbatim s hne hpath hdots]
    exact decodeURIComponent_of_notMem fun hmem => hpercent (hpath 37 hmem)

/-! ## What an operation changes -/

/-- The devices after an operation. -/
inductive Changes (r : Registry) (e : Timed) (r' : Registry) : Prop where
  | registered (host : JsString) (body : JsVal) (streamInfo : StreamInfo) (deviceText : JsString)
      (hop : e.op = .register host body)
      (hcheck : checkRegistration e.time body = .ok (.ok (streamInfo, deviceText)))
      (hdevices : r'.streamingDevices =
        r.streamingDevices.set (.of r.nextIdentity streamInfo.deviceId) streamInfo)
      (hnext : r'.nextIdentity = r.nextIdentity + 1)
  | seen (deviceId : JsString) (device : StreamInfo)
      (hget : r.streamingDevices.get (.string deviceId) = some device)
      (hdevices : r'.streamingDevices =
        r.streamingDevices.set (.string deviceId) { device with lastSeen := e.time })
      (hnext : r'.nextIdentity = r.nextIdentity)
  | cleaned (hop : e.op = .cleanup) (hafter : r' = cleanup e.time r)
  | unchanged (hafter : r' = r)

theorem run_changes (dateText : ℤ → JsString) (r : Registry) (e : Timed) :
    Changes r e (r.run dateText e).2 := by
  obtain ⟨time, op⟩ := e
  cases op with
  | register host body =>
    cases hcheck : checkRegistration time body with
    | error e => exact .unchanged (by simp only [Registry.run, registerStreamingDevice, hcheck])
    | ok result =>
      cases result with
      | error refusal =>
        exact .unchanged (by simp only [Registry.run, registerStreamingDevice, hcheck])
      | ok accepted =>
        obtain ⟨streamInfo, deviceText⟩ := accepted
        refine .registered host body streamInfo deviceText rfl hcheck ?_ ?_
        · simp only [Registry.run, registerStreamingDevice, hcheck]
        · simp only [Registry.run, registerStreamingDevice, hcheck]
  | info => exact .unchanged rfl
  | cleanup => exact .cleaned rfl rfl
  | stream deviceId upstream =>
    by_cases hempty : deviceId = []
    · exact .unchanged (by simp only [Registry.run, handleStreamRequest, if_pos hempty])
    · cases hget : r.streamingDevices.get (.string deviceId) with
      | none =>
        exact .unchanged (by simp only [Registry.run, handleStreamRequest, if_neg hempty, hget])
      | some device =>
        refine .seen deviceId device hget ?_ ?_
        · simp only [Registry.run, handleStreamRequest, if_neg hempty, hget]
          rfl
        · simp only [Registry.run, handleStreamRequest, if_neg hempty, hget]
          rfl
  | heartbeat deviceId =>
    cases hget : r.streamingDevices.get (.string deviceId) with
    | none => exact .unchanged (by simp only [Registry.run, deviceHeartbeat, hget])
    | some device =>
      refine .seen deviceId device hget ?_ ?_
      · simp only [Registry.run, deviceHeartbeat, hget]
        rfl
      · simp only [Registry.run, deviceHeartbeat, hget]
        rfl

/-- Every identity that is a key has been given out. -/
def Registry.Fresh (r : Registry) : Prop :=
  ∀ identity, r.streamingDevices.get (.reference identity) ≠ none → identity < r.nextIdentity

theorem keyOf_reference {i identity : ℕ} {v : JsVal} (h : DeviceKey.of i v = .reference identity) :
    identity = i := by
  cases v with
  | boolean b => cases h
  | number n => cases h
  | string s => cases h
  | _ =>
    cases h
    rfl

theorem keyOf_string {i : ℕ} {v : JsVal} {s : JsString} (h : DeviceKey.of i v = .string s) :
    v = .string s := by
  cases v with
  | string t =>
    cases h
    rfl
  | _ => cases h

theorem Registry.Fresh.run (dateText : ℤ → JsString) {r : Registry} (h : r.Fresh) (e : Timed) :
    (r.run dateText e).2.Fresh ∧ r.nextIdentity ≤ (r.run dateText e).2.nextIdentity := by
  cases run_changes dateText r e with
  | registered host body streamInfo deviceText _ _ hdevices hnext =>
    refine ⟨fun identity hheld => ?_, by rw [hnext]; exact Nat.le_succ _⟩
    rw [hdevices, JsMap.get_set] at hheld
    rw [hnext]
    by_cases hkey : DeviceKey.reference identity = .of r.nextIdentity streamInfo.deviceId
    · rw [keyOf_reference hkey.symm]
      exact Nat.lt_succ_self _
    · rw [if_neg hkey] at hheld
      exact Nat.lt_succ_of_lt (h identity hheld)
  | seen deviceId device hget hdevices hnext =>
    refine ⟨fun identity hheld => ?_, hnext.ge⟩
    rw [hdevices, JsMap.get_set, if_neg (by simp)] at hheld
    rw [hnext]
    exact h identity hheld
  | cleaned _ hafter =>
    rw [hafter]
    refine ⟨fun identity hheld => h identity fun hnone => hheld ?_, Nat.le_refl _⟩
    rw [Trace.get_cleanup, hnone]
    rfl
  | unchanged hafter =>
    rw [hafter]
    exact ⟨h, Nat.le_refl _⟩

theorem Registry.Fresh.after (dateText : ℤ → JsString) {r : Registry} (h : r.Fresh)
    (operations : List Timed) :
    (r.after dateText operations).Fresh ∧
      r.nextIdentity ≤ (r.after dateText operations).nextIdentity := by
  induction operations generalizing r with
  | nil => exact ⟨h, Nat.le_refl _⟩
  | cons e operations ih =>
    obtain ⟨hfresh, hle⟩ := h.run dateText e
    obtain ⟨hlast, hle'⟩ := ih hfresh
    exact ⟨hlast, hle.trans hle'⟩

theorem fresh_loaded (time : ℤ) : (Registry.loaded time).Fresh := by
  intro identity hheld
  exact absurd (JsMap.get_empty _) hheld

/-- A registration that is accepted has the device under its text. -/
theorem checkRegistration_fields {time : ℤ} {body : JsVal} {streamInfo : StreamInfo}
    {deviceText : JsString} (h : checkRegistration time body = .ok (.ok (streamInfo, deviceText))) :
    streamInfo.deviceId.truthy = true ∧ streamInfo.deviceId.toText = .ok deviceText ∧
      streamInfo.proxyPath = streamRoute ++ deviceText := by
  unfold checkRegistration at h
  obtain ⟨deviceId, -, h⟩ := ok_of_bind h
  obtain ⟨ip, -, h⟩ := ok_of_bind h
  obtain ⟨port, -, h⟩ := ok_of_bind h
  obtain ⟨resolution, -, h⟩ := ok_of_bind h
  obtain ⟨quality, -, h⟩ := ok_of_bind h
  split at h
  · cases h
  · next htruthy =>
    obtain ⟨portText, -, h⟩ := ok_of_bind h
    obtain ⟨ipText, -, h⟩ := ok_of_bind h
    obtain ⟨deviceText', htext, h⟩ := ok_of_bind h
    cases h
    refine ⟨?_, htext, rfl⟩
    simp only [Bool.or_eq_true, Bool.not_eq_true'] at htruthy
    simpa using fun hfalse => htruthy (.inl (.inl hfalse))

theorem checkRegistration_refusal {time : ℤ} {body : JsVal} {refusal : Response}
    (h : checkRegistration time body = .ok (.error refusal)) : refusal.status = 400 := by
  unfold checkRegistration at h
  obtain ⟨deviceId, -, h⟩ := ok_of_bind h
  obtain ⟨ip, -, h⟩ := ok_of_bind h
  obtain ⟨port, -, h⟩ := ok_of_bind h
  obtain ⟨resolution, -, h⟩ := ok_of_bind h
  obtain ⟨quality, -, h⟩ := ok_of_bind h
  split at h
  · cases h
    rfl
  · obtain ⟨portText, -, h⟩ := ok_of_bind h
    obtain ⟨ipText, -, h⟩ := ok_of_bind h
    obtain ⟨deviceText, -, h⟩ := ok_of_bind h
    cases h

/-- A registration is answered with 200 exactly when its check accepts it. -/
theorem register_status_iff {dateText : ℤ → JsString} {time : ℤ} {host : JsString} {body : JsVal}
    {r : Registry} :
    (registerStreamingDevice dateText time host body r).1.status = 200 ↔
      ∃ streamInfo deviceText,
        checkRegistration time body = .ok (.ok (streamInfo, deviceText)) := by
  unfold registerStreamingDevice
  cases hcheck : checkRegistration time body with
  | error e => simp [Reply.status, internalError]
  | ok result =>
    cases result with
    | error refusal => simp [Reply.status, checkRegistration_refusal hcheck]
    | ok accepted =>
      obtain ⟨streamInfo, deviceText⟩ := accepted
      simp [Reply.status]

/-! ## What is kept -/

/-- Keys that were made at different times are equal only when the values are. -/
theorem eq_of_keyOf {i j : ℕ} {v w : JsVal} (hne : i ≠ j)
    (h : DeviceKey.of i v = DeviceKey.of j w) : v = w := by
  cases v <;> cases w <;> cases h <;> first | rfl | exact absurd rfl hne

theorem sameKey_iff {i j : ℕ} {v w : JsVal} (hne : i ≠ j) :
    DeviceKey.of i v = DeviceKey.of j w ↔ SameKey v w := by
  constructor
  · intro h i' j'
    cases v <;> cases w <;> cases h <;> first | rfl | exact absurd rfl hne
  · intro h
    exact h i j

/-- A device stays, as long as it is neither swept nor registered again. -/
theorem HoldsDevice.run {dateText : ℤ → JsString} {r : Registry} {i : ℕ} {streamInfo : StreamInfo}
    {deviceText : JsString} (h : HoldsDevice r (.of i streamInfo.deviceId) streamInfo)
    (hi : i < r.nextIdentity) (htext : streamInfo.deviceId.toText = .ok deviceText) {e : Timed}
    (hspares : Spares deviceText e) :
    HoldsDevice (r.run dateText e).2 (.of i streamInfo.deviceId) streamInfo := by
  obtain ⟨lastSeen, hheld⟩ := h
  cases run_changes dateText r e with
  | registered host body other otherText hop hcheck hdevices _ =>
    refine ⟨lastSeen, ?_⟩
    rw [hdevices, JsMap.get_set, if_neg, hheld]
    intro hkey
    have hsame : streamInfo.deviceId = other.deviceId := eq_of_keyOf (Nat.ne_of_lt hi) hkey
    have hother := (checkRegistration_fields hcheck).2.1
    rw [← hsame, htext] at hother
    cases hother
    exact hspares.2 host body hop other hcheck
  | seen deviceId device hget hdevices _ =>
    by_cases hkey : DeviceKey.of i streamInfo.deviceId = .string deviceId
    · rw [hkey, hget] at hheld
      cases hheld
      refine ⟨e.time, ?_⟩
      rw [hdevices, JsMap.get_set, if_pos hkey]
    · refine ⟨lastSeen, ?_⟩
      rw [hdevices, JsMap.get_set, if_neg hkey, hheld]
  | cleaned hop => exact absurd hop hspares.1
  | unchanged hafter =>
    rw [hafter]
    exact ⟨lastSeen, hheld⟩

theorem HoldsDevice.after (dateText : ℤ → JsString) {r : Registry} {i : ℕ}
    {streamInfo : StreamInfo} {deviceText : JsString}
    (h : HoldsDevice r (.of i streamInfo.deviceId) streamInfo) (hr : r.Fresh)
    (hi : i < r.nextIdentity) (htext : streamInfo.deviceId.toText = .ok deviceText)
    {between : List Timed} (hspares : ∀ e ∈ between, Spares deviceText e) :
    HoldsDevice (r.after dateText between) (.of i streamInfo.deviceId) streamInfo := by
  induction between generalizing r with
  | nil => exact h
  | cons e between ih =>
    obtain ⟨hhead, htail⟩ := List.forall_mem_cons.mp hspares
    obtain ⟨hfresh, hle⟩ := hr.run dateText e
    exact ih (h.run hi htext hhead) hfresh (Nat.lt_of_lt_of_le hi hle) htail

/-- A request whose parameter is a registered text finds its device. -/
theorem found_of_value {dateText : ℤ → JsString} {segment : Segment} {r : Registry}
    {streamInfo : StreamInfo} {s : JsString} (hne : s ≠ [])
    (hheld : HoldsDevice r (.string s) streamInfo)
    (hvalue : (segment s).bind decodeURIComponent = some s) (time : ℤ) (upstream : ℕ) :
    ((heartbeatRequest segment dateText time (heartbeatRoute ++ s) r).1.status = 200 ∧
        FindsDevice (heartbeatRequest segment dateText time (heartbeatRoute ++ s) r) (.string s)
          streamInfo time) ∧
      ((streamRequest segment time upstream (streamRoute ++ s) r).1 = .proxied upstream ∧
        FindsDevice (streamRequest segment time upstream (streamRoute ++ s) r) (.string s)
          streamInfo time) := by
  obtain ⟨lastSeen, hget⟩ := hheld
  have hheartbeat := (deviceIdParam_value_iff segment heartbeatRoute s s).mpr hvalue
  have hstream := (deviceIdParam_value_iff segment streamRoute s s).mpr hvalue
  unfold heartbeatRequest streamRequest request FindsDevice
  simp [hheartbeat, hstream, deviceHeartbeat, handleStreamRequest, hget, hne, Reply.status,
    Registry.seen]

/-- A heartbeat that finds the device of a key has its text in the path. -/
theorem value_of_found {dateText : ℤ → JsString} {segment : Segment} {r : Registry} {i : ℕ}
    {streamInfo : StreamInfo} {deviceText : JsString} {lastSeen time : ℤ}
    (hget : r.streamingDevices.get (.of i streamInfo.deviceId) =
      some { streamInfo with lastSeen := lastSeen }) (htime : time ≠ lastSeen)
    (hfound : FindsDevice (heartbeatRequest segment dateText time (heartbeatRoute ++ deviceText) r)
      (.of i streamInfo.deviceId) streamInfo time) :
    ∃ s, streamInfo.deviceId = .string s ∧
      (segment deviceText).bind decodeURIComponent = some s := by
  have hmoved : some { streamInfo with lastSeen := lastSeen } ≠
      some { streamInfo with lastSeen := time } := by
    intro heq
    exact htime (congrArg StreamInfo.lastSeen (Option.some.inj heq)).symm
  unfold FindsDevice heartbeatRequest request at hfound
  cases hparam : deviceIdParam segment heartbeatRoute (heartbeatRoute ++ deviceText) with
  | noRoute =>
    simp only [hparam] at hfound
    exact absurd (hget.symm.trans hfound) hmoved
  | undecodable captured =>
    simp only [hparam] at hfound
    exact absurd (hget.symm.trans hfound) hmoved
  | value deviceId =>
    simp only [hparam, deviceHeartbeat] at hfound
    refine ⟨deviceId, ?_, (deviceIdParam_value_iff _ _ _ _).mp hparam⟩
    cases hdevice : r.streamingDevices.get (.string deviceId) with
    | none =>
      simp only [hdevice] at hfound
      exact absurd (hget.symm.trans hfound) hmoved
    | some device =>
      simp only [hdevice, Registry.seen, JsMap.get_set] at hfound
      by_cases hkey : DeviceKey.of i streamInfo.deviceId = .string deviceId
      · exact keyOf_string hkey
      · rw [if_neg hkey] at hfound
        exact absurd (hget.symm.trans hfound) hmoved

/-- A registration replaces the entry of a device exactly when its value is the same key: another
value with this text, or an array or an object, is a new key. -/
theorem replacesEntry_iff {dateText : ℤ → JsString} {r : Registry} {i : ℕ}
    {streamInfo other : StreamInfo} {otherText : JsString} (hr : r.Fresh) (hi : i < r.nextIdentity)
    (hheld : HoldsDevice r (.of i streamInfo.deviceId) streamInfo) {time : ℤ} {host : JsString}
    {body : JsVal} (hcheck : checkRegistration time body = .ok (.ok (other, otherText))) :
    ReplacesEntry dateText r (.of i streamInfo.deviceId) ⟨time, .register host body⟩ other ↔
      SameKey streamInfo.deviceId other.deviceId := by
  obtain ⟨lastSeen, hget⟩ := hheld
  have hdevices : (r.run dateText ⟨time, .register host body⟩).2.streamingDevices =
      r.streamingDevices.set (.of r.nextIdentity other.deviceId) other := by
    simp only [Registry.run, registerStreamingDevice, hcheck]
  rw [← sameKey_iff (Nat.ne_of_lt hi)]
  unfold ReplacesEntry
  rw [hdevices, JsMap.get_set]
  constructor
  · rintro ⟨hsize, hnew⟩
    by_contra hkey
    rw [if_neg hkey, hget] at hnew
    have hvalue : streamInfo.deviceId = other.deviceId := by
      rw [← Option.some.inj hnew]
    -- equal values with different keys are arrays or objects, and the key was not there
    have hreference : DeviceKey.of r.nextIdentity other.deviceId = .reference r.nextIdentity := by
      rw [hvalue] at hkey
      cases hdevice : other.deviceId with
      | boolean b => exact absurd (by rw [hdevice]; rfl) hkey
      | number n => exact absurd (by rw [hdevice]; rfl) hkey
      | string s => exact absurd (by rw [hdevice]; rfl) hkey
      | _ => rfl
    have hhas : r.streamingDevices.has (.of r.nextIdentity other.deviceId) = false := by
      rw [hreference]
      cases hold : r.streamingDevices.get (.reference r.nextIdentity) with
      | none =>
        unfold JsMap.has
        rw [hold]
        rfl
      | some device =>
        exact absurd (hr r.nextIdentity (by rw [hold]; simp)) (Nat.lt_irrefl _)
    rw [JsMap.size_set_new hhas] at hsize
    exact absurd hsize (Nat.succ_ne_self _)
  · intro hkey
    rw [if_pos hkey, ← hkey]
    exact ⟨JsMap.size_set (JsMap.has_of_get hget) other, rfl⟩

/-- A device registered with 200 is found by every heartbeat and stream request before a sweep
exactly when its `deviceId` is a string that comes back from the path as it is; for a string of
the characters of a URL that is one without delimiters and escapes. A registration under the same
textual id replaces the entry exactly when its `deviceId` is the same string, number or
boolean. -/
theorem device_reachable_iff (dateText : ℤ → JsString) (segment : Segment)
    (hsegment : Delivers segment) (start : ℤ) (history : List Timed) (time : ℤ) (host : JsString)
    (body : JsVal)
    (hstatus : (registerStreamingDevice dateText time host body
      ((Registry.loaded start).after dateText history)).1.status = 200) :
    let before := (Registry.loaded start).after dateText history
    let r := (before.run dateText ⟨time, .register host body⟩).2
    ∃ streamInfo deviceText,
      checkRegistration time body = .ok (.ok (streamInfo, deviceText)) ∧
      streamInfo.proxyPath = streamRoute ++ deviceText ∧
      (Reachable dateText segment r (.of before.nextIdentity streamInfo.deviceId) streamInfo
          deviceText ↔
        streamInfo.deviceId = .string deviceText ∧
          (segment deviceText).bind decodeURIComponent = some deviceText) ∧
      (streamInfo.deviceId = .string deviceText → UrlText deviceText → NoDots deviceText →
        (Reachable dateText segment r (.of before.nextIdentity streamInfo.deviceId) streamInfo
          deviceText ↔ PathText deviceText)) ∧
      ∀ between, (∀ e ∈ between, Spares deviceText e) → ∀ time' host' body' other,
        checkRegistration time' body' = .ok (.ok (other, deviceText)) →
        (ReplacesEntry dateText (r.after dateText between)
            (.of before.nextIdentity streamInfo.deviceId) ⟨time', .register host' body'⟩ other ↔
          SameKey streamInfo.deviceId other.deviceId) := by
  intro before r
  obtain ⟨streamInfo, deviceText, hcheck⟩ := register_status_iff.mp hstatus
  obtain ⟨htruthy, htext, hpath⟩ := checkRegistration_fields hcheck
  have hfresh : before.Fresh := ((fresh_loaded start).after dateText history).1
  have hrfresh : r.Fresh := (hfresh.run dateText ⟨time, .register host body⟩).1
  have hdevices : r.streamingDevices =
      before.streamingDevices.set (.of before.nextIdentity streamInfo.deviceId) streamInfo := by
    simp only [r, Registry.run, registerStreamingDevice, hcheck]
  have hidentity : before.nextIdentity < r.nextIdentity := by
    simp only [r, Registry.run, registerStreamingDevice, hcheck]
    exact Nat.lt_succ_self _
  have hget : r.streamingDevices.get (.of before.nextIdentity streamInfo.deviceId) =
      some { streamInfo with lastSeen := streamInfo.lastSeen } := by
    rw [hdevices, JsMap.get_set_same]
  have hheld : HoldsDevice r (.of before.nextIdentity streamInfo.deviceId) streamInfo :=
    ⟨streamInfo.lastSeen, hget⟩
  have hreachable : Reachable dateText segment r (.of before.nextIdentity streamInfo.deviceId)
      streamInfo deviceText ↔ streamInfo.deviceId = .string deviceText ∧
        (segment deviceText).bind decodeURIComponent = some deviceText := by
    constructor
    · intro h
      have hfound := (h [] (fun e he => absurd he List.not_mem_nil) (streamInfo.lastSeen + 1) 200).1
      obtain ⟨s, hdevice, hvalue⟩ := value_of_found hget (by omega) hfound.2
      have hsame : s = deviceText := by
        rw [hdevice] at htext
        cases htext
        rfl
      rw [← hsame] at hvalue ⊢
      exact ⟨hdevice, hvalue⟩
    · rintro ⟨hdevice, hvalue⟩ between hspares time' upstream
      have hlater := hheld.after dateText hrfresh hidentity htext hspares
      have hne : deviceText ≠ [] := by
        rintro rfl
        rw [hdevice] at htruthy
        cases htruthy
      rw [hdevice] at hlater ⊢
      rw [hpath]
      exact found_of_value hne hlater hvalue time' upstream
  refine ⟨streamInfo, deviceText, hcheck, hpath, hreachable, ?_, ?_⟩
  · intro hdevice hurl hdots
    have hne : deviceText ≠ [] := by
      rintro rfl
      rw [hdevice] at htruthy
      cases htruthy
    rw [hreachable, comes_back_iff hsegment hne hurl hdots]
    exact and_iff_right hdevice
  · intro between hspares time' host' body' other hother
    obtain ⟨hlast, hle⟩ := hrfresh.after dateText between
    exact replacesEntry_iff hlast (Nat.lt_of_lt_of_le hidentity hle)
      (hheld.after dateText hrfresh hidentity htext hspares) hother

/-- A client that sends a path as it is, and a router that captures a segment of it. -/
def sampleSegment : Segment := fun s =>
  let path := s.takeWhile fun c => c ≠ 63 ∧ c ≠ 35
  if path = [] ∨ 47 ∈ path then none else some path

theorem sampleSegment_delivers : Delivers sampleSegment where
  verbatim s hne hpath _ := by
    have hwhole : (s.takeWhile fun c => c ≠ 63 ∧ c ≠ 35) = s := by
      rw [List.takeWhile_eq_self_iff]
      intro c hmem
      have hcharacter := hpath c hmem
      have hquestion : c ≠ 63 := fun heq => absurd (heq ▸ hcharacter) (by decide)
      have hnumber : c ≠ 35 := fun heq => absurd (heq ▸ hcharacter) (by decide)
      simp [hquestion, hnumber]
    have hslash : (47 : UInt16) ∉ s := fun hmem => absurd (hpath 47 hmem) (by decide)
    unfold sampleSegment
    simp only [hwhole]
    rw [if_neg (by simp [hne, hslash])]
  part s captured _ hcaptured := by
    unfold sampleSegment at hcaptured
    simp only [Option.ite_none_left_eq_some, not_or] at hcaptured
    obtain ⟨⟨_, hslash⟩, hpath⟩ := hcaptured
    obtain rfl := Option.some.inj hpath
    refine ⟨(List.takeWhile_prefix _).isInfix, fun c hmem hdelimiter => ?_⟩
    have hcharacter := List.mem_takeWhile_imp hmem
    have hcases : c = 47 ∨ c = 63 ∨ c = 35 := by
      have hlist : delimiters = [47, 63, 35] := by decide
      simpa [hlist] using hdelimiter
    rcases hcases with rfl | rfl | rfl
    · exact hslash hmem
    · simp at hcharacter
    · simp at hcharacter

theorem device_reachable_cam1 :
    let r := ((Registry.loaded 0).run (fun _ => []) ⟨0, .register (lit "car") sampleBody⟩).2
    ∃ streamInfo, checkRegistration 0 sampleBody = .ok (.ok (streamInfo, lit "cam1")) ∧
      Reachable (fun _ => []) sampleSegment r (.string (lit "cam1")) streamInfo (lit "cam1") := by
  intro r
  obtain ⟨streamInfo, deviceText, hcheck, -, hreachable, -⟩ :=
    device_reachable_iff (fun _ => []) sampleSegment sampleSegment_delivers 0 [] 0 (lit "car")
      sampleBody (by decide)
  have htext : streamInfo.deviceId = text "cam1" ∧ deviceText = lit "cam1" := by
    cases hcheck
    exact ⟨rfl, rfl⟩
  obtain ⟨hdevice, rfl⟩ := htext
  refine ⟨streamInfo, hcheck, ?_⟩
  have hvalue : (sampleSegment (lit "cam1")).bind decodeURIComponent = some (lit "cam1") := by
    decide
  have hfound := hreachable.mpr ⟨hdevice, hvalue⟩
  rw [hdevice] at hfound
  exact hfound

/-- A device whose `deviceId` is the number 5 is registered with 200, and neither request finds
it. -/
theorem device_not_reachable :
    let body : JsVal := .object [(lit "deviceId", intVal 5), (lit "ip", text "10.0.0.7"),
      (lit "port", intVal 8080)]
    let registered := registerStreamingDevice (fun _ => []) 0 (lit "car") body (.loaded 0)
    registered.1.status = 200 ∧
      (heartbeatRequest sampleSegment (fun _ => []) 1 (lit "/api/camera/heartbeat/5")
        registered.2).1.status = 404 ∧
      (streamRequest sampleSegment 1 200 (lit "/api/camera/stream/5")
        registered.2).1.status = 404 := by
  decide +kernel

end EmbeddedCar.Backend
