import EmbeddedCar.Backend.CarController
import EmbeddedCar.JavaScript.Collections

/-!
# The registry of streaming devices

The handlers and the cleanup of `streaming_controller.js`. Times are those of `Date.now()`. What
the proxy passes on from a device is a parameter of a request, as is the text of a date.
-/

namespace EmbeddedCar.Backend

open EmbeddedCar.JavaScript

/-- A value as a key of a `Map`: objects and arrays are keys by their identity. -/
inductive DeviceKey where
  | boolean (value : Bool)
  | number (value : JsNum)
  | string (value : JsString)
  | reference (identity : ℕ)
  deriving DecidableEq

/-- The key of a truthy `deviceId`; an object or array that was just parsed has a new identity. -/
def DeviceKey.of (identity : ℕ) : JsVal → DeviceKey
  | .boolean b => .boolean b
  | .number n => .number n
  | .string s => .string s
  | _ => .reference identity

/-- `streaming_controller.js:24-34`. -/
structure StreamInfo where
  deviceId : JsVal
  ip : JsVal
  port : JsNum
  resolution : JsVal
  quality : JsVal
  registeredAt : ℤ
  lastSeen : ℤ
  streamUrl : JsString
  proxyPath : JsString

/-- `streaming_controller.js:6-10`. -/
structure StreamStats where
  activeStreams : ℕ := 0
  totalConnections : ℕ := 0
  startTime : ℤ
  deriving DecidableEq

/-- `streaming_controller.js:5-10`, with the identity of the object that is parsed next. -/
structure Registry where
  streamingDevices : JsMap DeviceKey StreamInfo := JsMap.empty
  streamStats : StreamStats
  nextIdentity : ℕ := 0

/-- The module is loaded. -/
def Registry.loaded (time : ℤ) : Registry := { streamStats := { startTime := time } }

/-- A reply of the controller, or the status that the proxy passes on. -/
inductive Reply where
  | own (response : Response)
  | proxied (status : ℕ)

def Reply.status : Reply → ℕ
  | .own response => response.status
  | .proxied status => status

def intVal (n : ℤ) : JsVal := .number (.fin n)

/-- The reply of the `catch` blocks. -/
def internalError (e : JsError) : Response :=
  ⟨500, [(lit "error", text "Internal server error"), (lit "message", .string e.message)]⟩

section

variable (dateText : ℤ → JsString)

/-- The properties of a device in a reply. -/
def StreamInfo.properties (d : StreamInfo) : List (JsString × JsVal) :=
  [(lit "deviceId", d.deviceId), (lit "ip", d.ip), (lit "port", .number d.port),
    (lit "resolution", d.resolution), (lit "quality", d.quality),
    (lit "registeredAt", .string (dateText d.registeredAt)),
    (lit "lastSeen", .string (dateText d.lastSeen)), (lit "streamUrl", .string d.streamUrl),
    (lit "proxyPath", .string d.proxyPath)]

/-- What `registerStreamingDevice` does before it changes the registry: the reply of a request
that it refuses, or the new device and the text of its id. -/
def checkRegistration (time : ℤ) (body : JsVal) :
    Except JsError (Except Response (StreamInfo × JsString)) := do
  let deviceId ← destructured body "deviceId"
  let ip ← destructured body "ip"
  let port ← destructured body "port"
  let resolution ← destructured body "resolution"
  let quality ← destructured body "quality"
  if !deviceId.truthy || !ip.truthy || !port.truthy then
    return .error ⟨400, [(lit "error", text "Missing required fields"),
      (lit "required", .array [text "deviceId", text "ip", text "port"])]⟩
  else
    let portText ← port.toText
    let ipText ← ip.toText
    let deviceText ← deviceId.toText
    return .ok ({
      deviceId := deviceId
      ip := ip
      port := parseInt portText
      resolution := resolution.orElse (text "320x240")
      quality := quality.orElse (text "fast")
      registeredAt := time
      lastSeen := time
      streamUrl := lit "http://" ++ ipText ++ lit ":" ++ portText
      proxyPath := lit "/api/camera/stream/" ++ deviceText }, deviceText)

/-- `streaming_controller.js:13-55`. -/
def registerStreamingDevice (time : ℤ) (host : JsString) (body : JsVal) (r : Registry) :
    Reply × Registry :=
  match checkRegistration time body with
  | .error e => (.own (internalError e), r)
  | .ok (.error refusal) => (.own refusal, r)
  | .ok (.ok (streamInfo, deviceText)) =>
      let devices := r.streamingDevices.set (.of r.nextIdentity streamInfo.deviceId) streamInfo
      (.own ⟨200, [(lit "status", text "success"),
          (lit "message", text "Streaming device registered"),
          (lit "streamInfo", .object (streamInfo.properties dateText)),
          (lit "proxyUrl", .string (lit "http://" ++ host ++ lit "/api/camera/stream/" ++
            deviceText))]⟩,
        { streamingDevices := devices
          streamStats := { r.streamStats with activeStreams := devices.size }
          nextIdentity := r.nextIdentity + 1 })

/-- `streaming_controller.js:62`. -/
def StreamInfo.isActive (time : ℤ) (d : StreamInfo) : Bool := time - d.lastSeen < 30000

def Registry.totalDevices (r : Registry) : ℕ := r.streamingDevices.values.length

def Registry.activeDevices (time : ℤ) (r : Registry) : ℕ :=
  (r.streamingDevices.values.filter (StreamInfo.isActive time)).length

/-- `streaming_controller.js:58-83`. -/
def getStreamInfo (time : ℤ) (r : Registry) : Reply × Registry :=
  (.own ⟨200, [(lit "status", text "active"),
      (lit "stats", .object [(lit "activeStreams", intVal r.streamStats.activeStreams),
        (lit "totalConnections", intVal r.streamStats.totalConnections),
        (lit "startTime", intVal r.streamStats.startTime),
        (lit "uptime", intVal (time - r.streamStats.startTime))]),
      (lit "devices", .array (r.streamingDevices.values.map fun d =>
        .object (d.properties dateText ++ [(lit "isActive", .boolean (d.isActive time))]))),
      (lit "totalDevices", intVal r.totalDevices),
      (lit "activeDevices", intVal (r.activeDevices time))]⟩, r)

/-- A contact with a device that is registered. -/
def Registry.seen (r : Registry) (key : DeviceKey) (device : StreamInfo) (time : ℤ) : Registry :=
  { r with streamingDevices := r.streamingDevices.set key { device with lastSeen := time } }

/-- `streaming_controller.js:86-135`: a request that is not refused is passed on to the device,
whose reply is the reply. -/
def handleStreamRequest (time : ℤ) (deviceId : JsString) (upstream : ℕ) (r : Registry) :
    Reply × Registry :=
  if deviceId = [] then
    (.own ⟨400, [(lit "error", text "Device ID required"),
      (lit "message", text
        "Specify device ID in URL: /api/camera/stream/\x7bdeviceId\x7d")]⟩, r)
  else
    match r.streamingDevices.get (.string deviceId) with
    | none =>
        (.own ⟨404, [(lit "error", text "Device not found"),
          (lit "message", .string (lit "Streaming device '" ++ deviceId ++
            lit "' not registered"))]⟩, r)
    | some device =>
        let r := r.seen (.string deviceId) device time
        (.proxied upstream, { r with
          streamStats := { r.streamStats with
            totalConnections := r.streamStats.totalConnections + 1 } })

/-- `streaming_controller.js:138-165`. -/
def deviceHeartbeat (time : ℤ) (deviceId : JsString) (r : Registry) : Reply × Registry :=
  match r.streamingDevices.get (.string deviceId) with
  | none =>
      (.own ⟨404, [(lit "error", text "Device not found"),
        (lit "message", .string (lit "Device '" ++ deviceId ++ lit "' not registered"))]⟩, r)
  | some device =>
      (.own ⟨200, [(lit "status", text "ok"), (lit "deviceId", .string deviceId),
        (lit "lastSeen", .string (dateText time))]⟩, r.seen (.string deviceId) device time)

/-- `streaming_controller.js:168-180`. -/
def cleanup (time : ℤ) (r : Registry) : Registry :=
  let devices := r.streamingDevices.removeWhere fun _ device => 60000 < time - device.lastSeen
  { r with
    streamingDevices := devices
    streamStats := { r.streamStats with activeStreams := devices.size } }

/-- What is asked of the controller, with the status that the proxy passes on for a stream. -/
inductive StreamOp where
  | register (host : JsString) (body : JsVal)
  | info
  | stream (deviceId : JsString) (upstream : ℕ)
  | heartbeat (deviceId : JsString)
  | cleanup

/-- An operation at a time. -/
structure Timed where
  time : ℤ
  op : StreamOp

/-- The reply of an operation, but for the cleanup, and the registry it leaves. -/
def Registry.run (r : Registry) (e : Timed) : Option Reply × Registry :=
  match e.op with
  | .register host body =>
      let (reply, r) := registerStreamingDevice dateText e.time host body r
      (some reply, r)
  | .info =>
      let (reply, r) := getStreamInfo dateText e.time r
      (some reply, r)
  | .stream deviceId upstream =>
      let (reply, r) := handleStreamRequest e.time deviceId upstream r
      (some reply, r)
  | .heartbeat deviceId =>
      let (reply, r) := deviceHeartbeat dateText e.time deviceId r
      (some reply, r)
  | .cleanup => (none, Backend.cleanup e.time r)

end

end EmbeddedCar.Backend
