import EmbeddedCar.Backend.CameraController

/-!
# Uploaded frames come back

A refused upload changes nothing, no other request writes the camera, and so a frame that was
accepted is served until the next one is.
-/

namespace EmbeddedCar.Backend

open EmbeddedCar.JavaScript EmbeddedCar.Text EmbeddedCar.Reactive

variable {dateText : ℤ → JsString} {multer : MulterSingle}
  {urlencoded : Bytes → Except JsString FormBody} {c : Camera} {e : CameraEvent}

/-- No value of a form is a Number, so the check of an empty body never refuses one. -/
theorem FormBody.lengthIsZero_eq (body : FormBody) : body.lengthIsZero = false := by
  cases hlookup : body.properties.lookup (lit "length") with
  | none => simp [lengthIsZero, JsVal.get, hlookup]
  | some v =>
    have hmem : (lit "length", v) ∈ body.properties := by
      obtain ⟨first, last, heq, _⟩ := List.lookup_eq_some_iff.mp hlookup
      simp [heq]
    cases v with
    | number n => exact absurd rfl (body.noNumber _ hmem n)
    | _ => simp [lengthIsZero, JsVal.get, hlookup]

theorem uploadFrame_refused {time : ℤ} {file : Option Bytes}
    (h : (uploadFrame dateText time file c).1.status ≠ 200) :
    (uploadFrame dateText time file c).2 = c := by
  cases file with
  | none => rfl
  | some buffer => exact absurd rfl h

theorem uploadFrameRaw_refused {time : ℤ} {body : FormBody}
    (h : (uploadFrameRaw time body c).1.status ≠ 200) : (uploadFrameRaw time body c).2 = c := by
  unfold uploadFrameRaw at h ⊢
  rw [body.lengthIsZero_eq] at h ⊢
  cases hbuffer : bufferFrom body with
  | error e => rfl
  | ok frame =>
    rw [hbuffer] at h
    exact absurd rfl h

/-- A request that is answered with anything but 200 changes nothing. -/
theorem Camera.step_refused (h : c.status dateText multer urlencoded e ≠ 200) :
    c.step dateText multer urlencoded e = c := by
  unfold status at h
  unfold step
  unfold respond at h ⊢
  cases hrequest : e.request with
  | upload files =>
    cases hfile : multer files with
    | error message => simp [hfile]
    | ok file =>
      simp only [hrequest, hfile] at h ⊢
      exact uploadFrame_refused h
  | uploadRaw contentType body =>
    cases hbody : bodyOf urlencoded contentType body with
    | error message => simp [hbody]
    | ok parsed =>
      simp only [hrequest, hbody] at h ⊢
      exact uploadFrameRaw_refused h
  | frame => rfl
  | info => rfl

/-- An upload that is answered with 200. -/
def Camera.Accepts (dateText : ℤ → JsString) (multer : MulterSingle)
    (urlencoded : Bytes → Except JsString FormBody) (c : Camera) (e : CameraEvent) : Prop :=
  e.request.isUpload = true ∧ c.status dateText multer urlencoded e = 200

/-- Only accepted uploads write. -/
theorem Camera.step_of_not_accepts (h : ¬ c.Accepts dateText multer urlencoded e) :
    c.step dateText multer urlencoded e = c := by
  by_cases hstatus : c.status dateText multer urlencoded e = 200
  · have hreads : e.request.isUpload = false := by
      simpa [Accepts, hstatus] using h
    unfold step respond
    cases hrequest : e.request with
    | upload files => simp [hrequest, CameraRequest.isUpload] at hreads
    | uploadRaw contentType body => simp [hrequest, CameraRequest.isUpload] at hreads
    | frame => rfl
    | info => rfl
  · exact Camera.step_refused hstatus

theorem Camera.run_of_not_accepts {later : List CameraEvent}
    (h : Along (Camera.step dateText multer urlencoded)
      (fun c e => ¬ c.Accepts dateText multer urlencoded e) c later) :
    later.foldl (Camera.step dateText multer urlencoded) c = c := by
  refine invariant_foldl (I := fun c' => c' = c) h rfl fun c' e heq hnot => ?_
  rw [Camera.step_of_not_accepts hnot, heq]

/-- The request of a frame in the field that `multer` is asked for. -/
def frameUpload (time : ℤ) (content : Bytes) : CameraEvent :=
  ⟨time, .upload [⟨lit "frame", content⟩]⟩

theorem Camera.respond_frameUpload {time : ℤ} {content : Bytes}
    (h : multer [⟨lit "frame", content⟩] = .ok (some content)) :
    c.respond dateText multer urlencoded (frameUpload time content) =
      uploadFrame dateText time (some content) c := by
  simp [respond, frameUpload, h]

theorem Camera.status_frameUpload_large (hmulter : Multer multer) {time : ℤ} {content : Bytes}
    (hsize : fileSizeLimit < content.length) :
    c.status dateText multer urlencoded (frameUpload time content) = 500 := by
  obtain ⟨message, herror⟩ := hmulter.rejects content hsize
  simp [status, respond, frameUpload, herror, errorMiddleware, CameraReply.status]

/-- A frame sent as `image/jpeg` has no parser, and the object that stands for its body is no
buffer. -/
theorem Camera.rawFrame_refused (time : ℤ) (content : Bytes) :
    c.respond dateText multer urlencoded ⟨time, .uploadRaw .imageJpeg content⟩ =
      (cameraFailure notABuffer, c) := rfl

/-- In every run a frame below the limit is accepted and served until the next upload is
accepted, a frame above the limit is refused, and a refused upload changes nothing. -/
theorem frames_served (hmulter : Multer multer) (es : List CameraEvent) :
    let step := Camera.step dateText multer urlencoded
    let c := es.foldl step {}
    (∀ time content, content.length < fileSizeLimit →
      c.status dateText multer urlencoded (frameUpload time content) = 200 ∧
        ∀ later, Along step (fun c e => ¬ c.Accepts dateText multer urlencoded e)
            (step c (frameUpload time content)) later →
          ∀ time', ((later.foldl step (step c (frameUpload time content))).respond dateText
            multer urlencoded ⟨time', .frame⟩).1 = .image content) ∧
    (∀ time content, fileSizeLimit < content.length →
      c.status dateText multer urlencoded (frameUpload time content) = 500) ∧
    (∀ e, e.request.isUpload = true → c.status dateText multer urlencoded e ≠ 200 →
      step c e = c) := by
  intro step c
  refine ⟨fun time content hsize => ?_, fun time content hsize => ?_, fun e _ hstatus => ?_⟩
  · have hrespond : c.respond dateText multer urlencoded (frameUpload time content) =
        uploadFrame dateText time (some content) c :=
      Camera.respond_frameUpload (hmulter.accepts content hsize)
    have hstep : step c (frameUpload time content) =
        (uploadFrame dateText time (some content) c).2 := congrArg Prod.snd hrespond
    refine ⟨?_, fun later hlater time' => ?_⟩
    · unfold Camera.status
      rw [hrespond]
      rfl
    · have hkept := Camera.run_of_not_accepts hlater
      rw [hkept, hstep]
      rfl
  · exact Camera.status_frameUpload_large hmulter hsize
  · exact Camera.step_refused hstatus

/-- `multer` with the message texts of its errors. -/
def sampleMulter : MulterSingle
  | [] => .ok none
  | [file] =>
      if file.fieldname = lit "frame" then
        if fileSizeLimit < file.content.length then .error (lit "File too large")
        else .ok (some file.content)
      else .error (lit "Unexpected field")
  | _ => .error (lit "Unexpected field")

theorem sampleMulter_multer : Multer sampleMulter where
  accepts content hsize := by
    have hnot : ¬ fileSizeLimit < content.length := by omega
    simp [sampleMulter, hnot]
  rejects content hsize := ⟨lit "File too large", by simp [sampleMulter, hsize]⟩

/-- The form of an ASCII text without separators and escapes: one name, with an empty value. -/
def sampleForm (body : Bytes) : FormBody where
  properties := [(body.map UInt8.toUInt16, .string [])]
  noNumber := by
    intro p hp n heq
    rw [List.mem_singleton.mp hp] at heq
    cases heq

theorem frames_served_sample :
    let step := Camera.step (fun _ => []) sampleMulter fun body => .ok (sampleForm body)
    let c := [frameUpload 0 [1, 2, 3]].foldl step {}
    let later : List CameraEvent := [⟨8, .uploadRaw .imageJpeg [7]⟩, ⟨9, .info⟩]
    ((later.foldl step (step c (frameUpload 4 [0xFF, 0xD8, 0xFF, 0xD9]))).respond (fun _ => [])
      sampleMulter (fun body => .ok (sampleForm body)) ⟨10, .frame⟩).1 =
        .image [0xFF, 0xD8, 0xFF, 0xD9] := by
  intro step c later
  have hserved := (@frames_served (fun _ => []) sampleMulter (fun body => .ok (sampleForm body))
    sampleMulter_multer [frameUpload 0 [1, 2, 3]]).1 4 [0xFF, 0xD8, 0xFF, 0xD9] (by decide)
  refine hserved.2 later ⟨?_, ?_, trivial⟩ 10
  · intro haccepts
    cases haccepts.2
  · intro haccepts
    cases haccepts.1

/-- A frame above the limit is refused, and so is every frame that is sent raw. -/
theorem uploads_refused :
    let status := Camera.status (fun _ => []) sampleMulter fun body => .ok (sampleForm body)
    status {} (frameUpload 0 (List.replicate (fileSizeLimit + 1) 0xFF)) = 500 ∧
      status {} ⟨0, .uploadRaw .imageJpeg [0xFF, 0xD8, 0xFF, 0xD9]⟩ = 500 ∧
      status {} ⟨0, .uploadRaw .formUrlencoded (ascii "frame")⟩ = 500 := by
  refine ⟨Camera.status_frameUpload_large sampleMulter_multer ?_, rfl, rfl⟩
  rw [List.length_replicate]
  exact Nat.lt_succ_self fileSizeLimit

end EmbeddedCar.Backend
