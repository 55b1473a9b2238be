import EmbeddedCar.Backend.SavedSlices
import EmbeddedCar.JavaScript.Json
import EmbeddedCar.Reactive.Register

/-!
# The stream frame of the backend

The requests that share `latest_stream_frame.jpg`: any number of streams in continuous mode whose
chunks interleave, single frames with an `x-frame-number`, and the viewers. The calls for a chunk
may throw and end in the `catch`, as in `SavedSlices`; what the file is at any time is said of runs
in which they do not.
-/

namespace EmbeddedCar.Backend

open EmbeddedCar.Text EmbeddedCar.JavaScript EmbeddedCar.Reactive

/-! ### The routes -/

/-- What the body parsers leave in `req.body`. -/
structure ParsedBody where
  value : JsVal
  parsed : (∃ elements, value = .array elements) ∨ ∃ properties, value = .object properties

/-- The body of a request that no parser takes, such as an `image/jpeg`. -/
def ParsedBody.empty : ParsedBody := ⟨.object [], .inr ⟨_, rfl⟩⟩

/-- `body.length` -/
def ParsedBody.length (body : ParsedBody) : JsVal :=
  match body.value with
  | .array elements => .number (.fin elements.length)
  | value => value.get (lit "length")

/-- `fs.writeFileSync`, which takes no values but strings and buffers. -/
def writeFileSync (data : JsVal) : Script (Option Bytes) Unit := fun frameFile =>
  match data with
  | .string s => (.ok (), some (utf8 s))
  | _ => (.error ⟨.typeError, lit "The \"data\" argument must be of type string or an instance " ++
      lit "of Buffer, TypedArray, or DataView."⟩, frameFile)

/-- `camera.js:52-79`, for a request with an `x-frame-number`. -/
def singleFrame (body : ParsedBody) : Script (Option Bytes) Unit := do
  if body.value.truthy then
    let filled ← Script.expression ((JsVal.number (.fin 0)).lessThan body.length)
    if filled then writeFileSync body.value

/-- What happens to the file. A stream is named by a number. -/
inductive VideoEvent where
  /-- A `data` event of a request in continuous mode. -/
  | data (stream : ℕ) (delivery : Delivery)
  | singleFrame (body : ParsedBody)
  /-- `GET /video/latest-frame` -/
  | latestFrame

def VideoEvent.step (frameFile : Option Bytes) : VideoEvent → Option Bytes
  | .data _ delivery => (StreamState.step { frameFile := frameFile } delivery).frameFile
  | .singleFrame body => (Backend.singleFrame body frameFile).2
  | .latestFrame => frameFile

/-- The reply of `GET /video/latest-frame`, `camera.js:143-165`, with the size it announces. -/
inductive LatestFrameReply where
  | noFrame
  | frame (xFrameSize : ℕ)
  deriving DecidableEq

def latestFrameReply : Option Bytes → LatestFrameReply
  | none => .noFrame
  | some frame => .frame frame.length

/-- The chunks of one stream that have arrived, in their order. -/
def chunksOf (stream : ℕ) (events : List VideoEvent) : List Bytes :=
  events.filterMap fun
    | .data i delivery => if i = stream then some delivery.chunk else none
    | _ => none

/-! ### One event -/

/-- A chunk of a stream holds a frame of that stream whole. -/
def VideoEvent.Holds (parts : ℕ → List StreamPart) : VideoEvent → Bytes → Prop
  | .data i delivery, frame => HoldsFrame (parts i) delivery.chunk frame
  | _, _ => False

/-- The calls for every chunk end without an exception. -/
def Calm (events : List VideoEvent) : Prop :=
  ∀ i delivery, .data i delivery ∈ events → delivery.Quiet

/-- The body of a request with an `x-frame-number` is never a frame: it is empty, or nothing that
can be written. -/
theorem singleFrame_keeps (body : ParsedBody) (frameFile : Option Bytes) :
    (singleFrame body frameFile).2 = frameFile := by
  have hwrite : (writeFileSync body.value frameFile).2 = frameFile := by
    obtain ⟨elements, hvalue⟩ | ⟨properties, hvalue⟩ := body.parsed
    · rw [hvalue]
      rfl
    · rw [hvalue]
      rfl
  unfold singleFrame
  split
  · rw [Script.bind_apply, Script.expression_apply]
    cases (JsVal.number (.fin 0)).lessThan body.length with
    | error e => rfl
    | ok filled =>
      cases filled with
      | false => rfl
      | true => exact hwrite
  · rfl

section

variable {parts : ℕ → List StreamPart} {tail : ℕ → Unmarked} {events : List VideoEvent}

theorem mem_chunksOf {i : ℕ} {delivery : Delivery} (h : VideoEvent.data i delivery ∈ events) :
    delivery.chunk ∈ chunksOf i events :=
  List.mem_filterMap.mpr ⟨_, h, if_pos rfl⟩

/-- A chunk that has arrived is saved exactly when it holds a frame of its stream. -/
theorem jpegData_iff_of_arrived {i : ℕ} {delivery : Delivery}
    (hstream : (chunksOf i events).flatten <+: streamOf (parts i) (tail i))
    (h : VideoEvent.data i delivery ∈ events) (frame : Bytes) :
    jpegData delivery.chunk = some frame ↔ HoldsFrame (parts i) delivery.chunk frame := by
  obtain ⟨earlier, later, hchunks⟩ := List.append_of_mem (mem_chunksOf h)
  obtain ⟨rest, hrest⟩ := hstream
  have hsplit : streamOf (parts i) (tail i) =
      earlier.flatten ++ delivery.chunk ++ (later.flatten ++ rest) := by
    rw [← hrest, hchunks]
    simp
  exact jpegData_eq_some_iff hsplit

/-- What one event does to the file. -/
theorem step_eq_some_iff
    (hstreams : ∀ i, (chunksOf i events).flatten <+: streamOf (parts i) (tail i))
    (hcalm : Calm events) {e : VideoEvent} (he : e ∈ events) (frameFile : Option Bytes)
    (frame : Bytes) :
    VideoEvent.step frameFile e = some frame ↔
      e.Holds parts frame ∨ Leaves (VideoEvent.Holds parts) e ∧ frameFile = some frame := by
  cases e with
  | data i delivery =>
    have hdata : ∀ other, jpegData delivery.chunk = some other ↔
        (VideoEvent.data i delivery).Holds parts other :=
      jpegData_iff_of_arrived (hstreams i) he
    have hfile : VideoEvent.step frameFile (.data i delivery) = onData frameFile delivery.chunk :=
      StreamState.step_eq_onData rfl (hcalm i delivery he)
    rw [hfile]
    unfold onData Leaves
    simp only [← hdata]
    cases jpegData delivery.chunk with
    | none => simp
    | some data => simp
  | singleFrame body =>
    rw [VideoEvent.step, singleFrame_keeps]
    simp [VideoEvent.Holds, Leaves]
  | latestFrame => simp [VideoEvent.step, VideoEvent.Holds, Leaves]

/-- Every frame that is held is one of a stream. -/
theorem exists_part_of_lastWritten {frame : Bytes}
    (h : LastWritten (VideoEvent.Holds parts) events frame) :
    ∃ i, ∃ part ∈ parts i, frame = part.frame := by
  obtain ⟨earlier, e, later, -, hholds, -⟩ := h
  cases e with
  | data i delivery =>
    obtain ⟨part, hpart, hframe, -⟩ := hholds
    exact ⟨i, part, hpart, hframe⟩
  | singleFrame body => exact hholds.elim
  | latestFrame => exact hholds.elim

end

/-- What the file is at any time. -/
structure VideoFile (parts : ℕ → List StreamPart) (frameFile : Option Bytes)
    (before : List VideoEvent) (now : Option Bytes) : Prop where
  /-- It is the frame of the last chunk, of any stream, that held one; before that what it was. -/
  last : ∀ frame, now = some frame ↔ LastWritten (VideoEvent.Holds parts) before frame ∨
    (∀ e ∈ before, Leaves (VideoEvent.Holds parts) e) ∧ frameFile = some frame
  /-- It is never a part of a frame, nor of two. -/
  whole : ∀ frame, now = some frame →
    frameFile = some frame ∨ ∃ i, ∃ part ∈ parts i, frame = part.frame
  /-- Viewers are told that there is none, or the size of this one. -/
  reply : latestFrameReply now = .noFrame ↔
    frameFile = none ∧ ∀ e ∈ before, Leaves (VideoEvent.Holds parts) e

/-- The frame file in any run in which no call for a chunk throws: streams of frames, as many as
there are, each cut into chunks in any way and arrived up to anywhere, interleaved with each other
and with the other requests. -/
theorem video_file (parts : ℕ → List StreamPart) (tail : ℕ → Unmarked)
    (frameFile : Option Bytes) (events : List VideoEvent)
    (hstreams : ∀ i, (chunksOf i events).flatten <+: streamOf (parts i) (tail i))
    (hcalm : Calm events) :
    ∀ before after, events = before ++ after →
      VideoFile parts frameFile before (before.foldl VideoEvent.step frameFile) := by
  intro before after hsplit
  have hmem : ∀ e ∈ before, e ∈ events := by
    intro e he
    rw [hsplit]
    exact List.mem_append_left after he
  have hstep : ∀ e ∈ before, ∀ (s : Option Bytes) a, VideoEvent.step s e = some a ↔ _ :=
    fun e he => step_eq_some_iff hstreams hcalm (hmem e he)
  have hlast := foldl_register (s := frameFile) hstep
  refine ⟨hlast, fun frame hframe => ?_, ?_⟩
  · obtain hwritten | ⟨-, hbefore⟩ := (hlast frame).mp hframe
    · exact .inr (exists_part_of_lastWritten hwritten)
    · exact .inl hbefore
  · have hnone := foldl_register_none (s := frameFile) hstep
    rw [and_comm, ← hnone]
    cases before.foldl VideoEvent.step frameFile with
    | none => simp [latestFrameReply]
    | some frame => simp [latestFrameReply]

/-- A chunk whose write and notification work. -/
def quietly (chunk : Bytes) : Delivery := ⟨chunk, .written, .sent, .written⟩

/-- Two streams of one frame each, of which the second has not come to its end, and a single
frame between them. -/
def interleaved : List VideoEvent :=
  [.data 1 (quietly (ascii "--fr")), .data 0 (quietly (ascii "--frame" ++ samplePart.frame)),
    .singleFrame .empty, .data 1 (quietly (ascii "ame" ++ [0xFF, 0xD8, 1])), .latestFrame]

theorem video_file_interleaved :
    VideoFile (fun i => if i < 2 then [samplePart] else []) none interleaved
      (interleaved.foldl VideoEvent.step none) := by
  have hstreams : ∀ i, (chunksOf i interleaved).flatten <+:
      streamOf (if i < 2 then [samplePart] else []) (unmarked [] (by decide)) := by
    intro i
    match i with
    | 0 => decide +kernel
    | 1 => decide +kernel
    | n + 2 => exact List.nil_prefix
  have hcalm : Calm interleaved := by
    intro i delivery h
    simp only [interleaved, List.mem_cons, VideoEvent.data.injEq, reduceCtorEq, List.not_mem_nil,
      false_or, or_false] at h
    rcases h with ⟨-, rfl⟩ | ⟨-, rfl⟩ | ⟨-, rfl⟩ <;> exact ⟨rfl, nofun⟩
  exact video_file _ (fun _ => unmarked [] (by decide)) none interleaved hstreams hcalm interleaved
    [] (List.append_nil interleaved).symm

end EmbeddedCar.Backend
