import EmbeddedCar.Backend.CarController
import EmbeddedCar.JavaScript.Json
import EmbeddedCar.Reactive.Run

/-!
# Uploaded frames

The handlers of `camera_controller.js` and what stands before them: the body parsers of
`server.js` and `multer`. Both parsers of third parties are parameters, and so is the text of a
date. `global.io` is never set, so nobody is notified.
-/

namespace EmbeddedCar.Backend

open EmbeddedCar.JavaScript EmbeddedCar.Text EmbeddedCar.Reactive

/-- A file of a multipart body. -/
structure FilePart where
  fieldname : JsString
  content : Bytes

/-- What `express.json` and `express.urlencoded` leave in `req.body`: a parsed form, whose values
are strings, arrays and objects, or nothing. -/
structure FormBody where
  properties : List (JsString × JsVal)
  noNumber : ∀ p ∈ properties, ∀ n, p.2 ≠ .number n

/-- `req.body = {}` -/
def FormBody.empty : FormBody := ⟨[], fun _ hp => absurd hp List.not_mem_nil⟩

/-- The content types of a raw upload: the one of a frame, and the one that `wget` sends. -/
inductive RawType where
  | imageJpeg
  | formUrlencoded
  deriving DecidableEq

/-- `camera_controller.js:10`. -/
def fileSizeLimit : ℕ := 5 * 1024 * 1024

/-- `upload.single('frame')`: the error it passes on, or `req.file` when the body has one. -/
abbrev MulterSingle := List FilePart → Except JsString (Option Bytes)

/-- What is documented of `multer` with `limits.fileSize` and of `single('frame')`. Nothing is
asked of a file of exactly the limit. -/
structure Multer (multer : MulterSingle) : Prop where
  accepts : ∀ content : Bytes, content.length < fileSizeLimit →
    multer [⟨lit "frame", content⟩] = .ok (some content)
  rejects : ∀ content : Bytes, fileSizeLimit < content.length →
    ∃ message, multer [⟨lit "frame", content⟩] = .error message

/-! ### `Buffer.from` -/

/-- `ToUint8` of a Number. -/
def toUint8 : JsNum → UInt8
  | .fin q => UInt8.ofNat ((if q < 0 then -⌊-q⌋ else ⌊q⌋) % 256).toNat
  | _ => 0

/-- The elements of an array as the bytes of a typed array. -/
def elementBytes : List JsVal → Except JsError Bytes
  | [] => .ok []
  | v :: vs => do
      let n ← v.toNumber
      let bytes ← elementBytes vs
      return toUint8 n :: bytes

def notABuffer : JsError :=
  ⟨.typeError, lit "The first argument must be of type string or an instance of Buffer, " ++
    lit "ArrayBuffer, or Array or an Array-like Object. Received an instance of Object"⟩

/-- `Buffer.from` of an object that has no `valueOf` of its own. A `length` of a parsed form is
not a Number, and makes an empty buffer. -/
def fromObject (body : FormBody) : Except JsError Bytes :=
  let object : JsVal := .object body.properties
  if (object.get (lit "length")).isUndefined then
    match object.get (lit "type"), object.get (lit "data") with
    | .string kind, .array elements =>
        if kind = lit "Buffer" then elementBytes elements else .error notABuffer
    | _, _ => .error notABuffer
  else .ok []

/-- `Buffer.from(req.body)`. What a form puts into `valueOf` is no function, and only the empty
string is not called. -/
def bufferFrom (body : FormBody) : Except JsError Bytes :=
  let valueOf := (JsVal.object body.properties).get (lit "valueOf")
  if valueOf.isUndefined then fromObject body
  else if valueOf.truthy then .error ⟨.typeError, lit "value.valueOf is not a function"⟩
  else .ok []

/-! ### The handlers -/

/-- `camera_controller.js:15-19`; the sizes and rates of `frameStats` are never read. -/
structure Camera where
  latestFrame : Option Bytes := none
  frameTimestamp : Option ℤ := none
  totalFrames : ℕ := 0

/-- A reply with a JSON body, or with the bytes of a frame. -/
inductive CameraReply where
  | json (response : Response)
  | image (content : Bytes)

def CameraReply.status : CameraReply → ℕ
  | .json response => response.status
  | .image _ => 200

/-- The reply of the error handler, `server.js:37-43`. -/
def errorMiddleware (message : JsString) : CameraReply :=
  .json ⟨500, [(lit "error", text "Something went wrong!"), (lit "message", .string message)]⟩

/-- The reply of the `catch` blocks. -/
def cameraFailure (e : JsError) : CameraReply :=
  .json ⟨500, [(lit "error", text "Internal server error"), (lit "message", .string e.message)]⟩

def sizeVal (n : ℕ) : JsVal := .number (.fin n)

/-- `req.body.length === 0` -/
def FormBody.lengthIsZero (body : FormBody) : Bool :=
  match (JsVal.object body.properties).get (lit "length") with
  | .number n => n = .fin 0
  | _ => false

section

variable (dateText : ℤ → JsString) (multer : MulterSingle)
  (urlencoded : Bytes → Except JsString FormBody)

/-- `camera_controller.js:43-73`, for the `req.file` that `multer` leaves. -/
def uploadFrame (time : ℤ) (file : Option Bytes) (c : Camera) : CameraReply × Camera :=
  match file with
  | none =>
      (.json ⟨400, [(lit "error", text "No image file provided"),
        (lit "message", text "Please send a JPEG image file")]⟩, c)
  | some buffer =>
      (.json ⟨200, [(lit "status", text "success"),
        (lit "message", text "Frame received successfully"),
        (lit "timestamp", .string (dateText time)), (lit "size", sizeVal buffer.length)]⟩,
        { c with latestFrame := some buffer, frameTimestamp := some time })

/-- `camera_controller.js:76-101`; the frame is sent as it is. -/
def getLatestFrame (c : Camera) : CameraReply :=
  match c.latestFrame with
  | none =>
      .json ⟨404, [(lit "error", text "No frame available"),
        (lit "message", text "No video frame has been received yet")]⟩
  | some frame => .image frame

/-- `camera_controller.js:104-120`. -/
def Camera.getStreamInfo (c : Camera) : CameraReply :=
  .json ⟨200, [(lit "status", text "active"), (lit "hasFrame", .boolean c.latestFrame.isSome),
    (lit "lastUpdate", (c.frameTimestamp.map fun time => .string (dateText time)).getD .null),
    (lit "frameSize", sizeVal (c.latestFrame.elim 0 List.length)),
    (lit "connectedClients", sizeVal 0)]⟩

/-- `camera_controller.js:123-164`; `req.body` is an object, so `!req.body` is false. -/
def uploadFrameRaw (time : ℤ) (body : FormBody) (c : Camera) : CameraReply × Camera :=
  if body.lengthIsZero then
    (.json ⟨400, [(lit "error", text "No image data provided"),
      (lit "message", text "Please send JPEG image data in the request body")]⟩, c)
  else
    match bufferFrom body with
    | .error e => (cameraFailure e, c)
    | .ok frame =>
        (.json ⟨200, [(lit "status", text "ok"), (lit "frame", sizeVal (c.totalFrames + 1)),
          (lit "size", sizeVal frame.length)]⟩,
          { latestFrame := some frame
            frameTimestamp := some time
            totalFrames := c.totalFrames + 1 })

/-- The parsers of `server.js:16-17`: each parses its own content type alone. -/
def bodyOf (contentType : RawType) (body : Bytes) : Except JsString FormBody :=
  match contentType with
  | .imageJpeg => .ok .empty
  | .formUrlencoded => urlencoded body

inductive CameraRequest where
  | upload (files : List FilePart)
  | uploadRaw (contentType : RawType) (body : Bytes)
  | frame
  | info

def CameraRequest.isUpload : CameraRequest → Bool
  | .upload _ => true
  | .uploadRaw _ _ => true
  | _ => false

/-- A request at a time. -/
structure CameraEvent where
  time : ℤ
  request : CameraRequest

/-- The reply of a request and the state it leaves. -/
def Camera.respond (c : Camera) (e : CameraEvent) : CameraReply × Camera :=
  match e.request with
  | .upload files =>
      match multer files with
      | .error message => (errorMiddleware message, c)
      | .ok file => uploadFrame dateText e.time file c
  | .uploadRaw contentType body =>
      match bodyOf urlencoded contentType body with
      | .error message => (errorMiddleware message, c)
      | .ok parsed => uploadFrameRaw e.time parsed c
  | .frame => (getLatestFrame c, c)
  | .info => (c.getStreamInfo dateText, c)

def Camera.status (c : Camera) (e : CameraEvent) : ℕ :=
  (c.respond dateText multer urlencoded e).1.status

def Camera.step (c : Camera) (e : CameraEvent) : Camera :=
  (c.respond dateText multer urlencoded e).2

end

end EmbeddedCar.Backend
