import EmbeddedCar.Backend.UploadedFrames
import Mathlib.Data.Rat.Defs
import Mathlib.Tactic.FieldSimp
import Mathlib.Tactic.Positivity

/-!
# Frame statistics

`frameStats` beside the camera it counts for. One of the two uploads updates it, and the rate
divides all frames ever counted by the time since the last computation: the numbers are right
until a frame comes through the other upload, and the rate is right once.
-/

namespace EmbeddedCar.Backend

open EmbeddedCar.JavaScript EmbeddedCar.Text EmbeddedCar.Reactive

/-- `camera_controller.js:18-23`; times are in milliseconds. -/
structure FrameStats where
  totalFrames : ℕ := 0
  totalSize : ℕ := 0
  avgFps : ℚ := 0
  lastFpsCalculation : ℤ

/-- `camera_controller.js:137-145`. -/
def FrameStats.record (now : ℤ) (size : ℕ) (f : FrameStats) : FrameStats :=
  let f := { f with totalFrames := f.totalFrames + 1, totalSize := f.totalSize + size }
  if now - f.lastFpsCalculation > 1000 then
    { f with
      avgFps := f.totalFrames / (((now - f.lastFpsCalculation : ℤ) : ℚ) / 1000)
      lastFpsCalculation := now }
  else f

/-- What `uploadFrameRaw` does to `frameStats`. -/
def uploadFrameRawStats (now : ℤ) (body : FormBody) (f : FrameStats) : FrameStats :=
  if body.lengthIsZero then f
  else
    match bufferFrom body with
    | .error _ => f
    | .ok frame => f.record now frame.length

/-- A request, with what `Date.now()` returns once the frame is stored. -/
structure ClockedEvent extends CameraEvent where
  now : ℤ

/-- The frames of accepted uploads, by size: all of them, and those since the rate was computed
last, which was at `since`. -/
structure Tally where
  accepted : List ℕ := []
  window : List ℕ := []
  since : ℤ

/-- The camera with its statistics, and beside it what happened. -/
structure CountedCamera where
  camera : Camera := {}
  stats : FrameStats
  tally : Tally

/-- Before the first request. -/
def CountedCamera.boot (start : ℤ) : CountedCamera where
  stats := { lastFpsCalculation := start }
  tally := { since := start }

section

variable (dateText : ℤ → JsString) (multer : MulterSingle)
  (urlencoded : Bytes → Except JsString FormBody)

/-- The frame a request is accepted with. -/
def acceptedFrame : CameraRequest → Option Bytes
  | .upload files =>
      match multer files with
      | .error _ => none
      | .ok file => file
  | .uploadRaw contentType body =>
      match bodyOf urlencoded contentType body with
      | .error _ => none
      | .ok parsed =>
          match bufferFrom parsed with
          | .error _ => none
          | .ok frame => some frame
  | .frame => none
  | .info => none

/-- `frameStats` after a request. -/
def statsAfter (f : FrameStats) (e : ClockedEvent) : FrameStats :=
  match e.request with
  | .upload _ => f
  | .uploadRaw contentType body =>
      match bodyOf urlencoded contentType body with
      | .error _ => f
      | .ok parsed => uploadFrameRawStats e.now parsed f
  | .frame => f
  | .info => f

/-- The frame that `uploadFrameRaw` counts. -/
def countedFrame : CameraRequest → Option Bytes
  | .upload _ => none
  | request => acceptedFrame multer urlencoded request

/-- The request makes `uploadFrameRaw` compute the rate. -/
def Recomputes (f : FrameStats) (e : ClockedEvent) : Prop :=
  countedFrame multer urlencoded e.request ≠ none ∧ 1000 < e.now - f.lastFpsCalculation

instance (f : FrameStats) (e : ClockedEvent) : Decidable (Recomputes multer urlencoded f e) :=
  inferInstanceAs (Decidable (_ ∧ _))

def Tally.step (f : FrameStats) (t : Tally) (e : ClockedEvent) : Tally :=
  match acceptedFrame multer urlencoded e.request with
  | none => t
  | some frame =>
      if Recomputes multer urlencoded f e then
        { accepted := t.accepted ++ [frame.length], window := [], since := e.now }
      else
        { t with
          accepted := t.accepted ++ [frame.length]
          window := t.window ++ [frame.length] }

def CountedCamera.step (c : CountedCamera) (e : ClockedEvent) : CountedCamera where
  camera := c.camera.step dateText multer urlencoded e.toCameraEvent
  stats := statsAfter urlencoded c.stats e
  tally := c.tally.step multer urlencoded c.stats e

end

variable {dateText : ℤ → JsString} {multer : MulterSingle}
  {urlencoded : Bytes → Except JsString FormBody} {c : CountedCamera} {e : ClockedEvent}

/-- The frames of the tally are those of the uploads answered with 200, and they are stored. -/
theorem accepts_iff (c : Camera) (e : CameraEvent) (frame : Bytes) :
    acceptedFrame multer urlencoded e.request = some frame ↔
      c.Accepts dateText multer urlencoded e ∧
        (c.step dateText multer urlencoded e).latestFrame = some frame := by
  unfold acceptedFrame Camera.Accepts Camera.status Camera.step Camera.respond
  cases e.request with
  | upload files =>
    cases hfile : multer files with
    | error message => simp [hfile, CameraRequest.isUpload, errorMiddleware, CameraReply.status]
    | ok file =>
      cases file with
      | none => simp [hfile, CameraRequest.isUpload, uploadFrame, CameraReply.status]
      | some buffer => simp [hfile, CameraRequest.isUpload, uploadFrame, CameraReply.status]
  | uploadRaw contentType body =>
    cases hbody : bodyOf urlencoded contentType body with
    | error message => simp [hbody, CameraRequest.isUpload, errorMiddleware, CameraReply.status]
    | ok parsed =>
      cases hbuffer : bufferFrom parsed with
      | error e =>
        simp [CameraRequest.isUpload, uploadFrameRaw, parsed.lengthIsZero_eq, hbody, hbuffer,
          cameraFailure, CameraReply.status]
      | ok frame =>
        simp [CameraRequest.isUpload, uploadFrameRaw, parsed.lengthIsZero_eq, hbody, hbuffer,
          CameraReply.status]
  | frame => simp [CameraRequest.isUpload]
  | info => simp [CameraRequest.isUpload]

/-- `frameStats` after a request, by the frame that is counted. -/
theorem statsAfter_eq (multer : MulterSingle) (f : FrameStats) (e : ClockedEvent) :
    statsAfter urlencoded f e =
      match countedFrame multer urlencoded e.request with
      | none => f
      | some frame => f.record e.now frame.length := by
  unfold statsAfter countedFrame acceptedFrame
  cases e.request with
  | upload files => rfl
  | uploadRaw contentType body =>
    cases hbody : bodyOf urlencoded contentType body with
    | error message => simp [hbody]
    | ok parsed =>
      unfold uploadFrameRawStats
      cases hbuffer : bufferFrom parsed with
      | error e => simp [parsed.lengthIsZero_eq, hbody, hbuffer]
      | ok frame => simp [parsed.lengthIsZero_eq, hbody, hbuffer]
  | frame => rfl
  | info => rfl

/-- Every frame that comes raw is counted. -/
theorem countedFrame_of_raw {request : CameraRequest} (h : ∀ files, request ≠ .upload files) :
    countedFrame multer urlencoded request = acceptedFrame multer urlencoded request := by
  cases request with
  | upload files => exact absurd rfl (h files)
  | uploadRaw contentType body => rfl
  | frame => rfl
  | info => rfl

theorem countedFrame_none {request : CameraRequest}
    (h : acceptedFrame multer urlencoded request = none) :
    countedFrame multer urlencoded request = none := by
  cases request with
  | upload files => rfl
  | uploadRaw contentType body => exact h
  | frame => rfl
  | info => rfl

/-! ## One request -/

/-- What a request does to the statistics and to the tally: nothing, one more frame in the tally
alone, or one more frame in both. -/
inductive Counted (multer : MulterSingle) (urlencoded : Bytes → Except JsString FormBody)
    (c : CountedCamera) (e : ClockedEvent) (stats : FrameStats) (tally : Tally) : Prop where
  | ignored (haccepted : acceptedFrame multer urlencoded e.request = none)
      (hnot : ¬Recomputes multer urlencoded c.stats e) (hstats : stats = c.stats)
      (htally : tally = c.tally)
  | uncounted (frame : Bytes) (files : List FilePart) (hrequest : e.request = .upload files)
      (haccepted : acceptedFrame multer urlencoded e.request = some frame)
      (hstats : stats = c.stats)
      (htally : tally.accepted = c.tally.accepted ++ [frame.length])
  | within (frame : Bytes) (hraw : ∀ files, e.request ≠ .upload files)
      (hnot : ¬Recomputes multer urlencoded c.stats e)
      (hstats : stats =
        { c.stats with
          totalFrames := c.stats.totalFrames + 1
          totalSize := c.stats.totalSize + frame.length })
      (htally : tally =
        { c.tally with
          accepted := c.tally.accepted ++ [frame.length]
          window := c.tally.window ++ [frame.length] })
  | recomputed (frame : Bytes) (hraw : ∀ files, e.request ≠ .upload files)
      (hrecomputes : Recomputes multer urlencoded c.stats e)
      (hstats : stats =
        { totalFrames := c.stats.totalFrames + 1
          totalSize := c.stats.totalSize + frame.length
          avgFps := (c.stats.totalFrames + 1 : ℕ) /
            (((e.now - c.stats.lastFpsCalculation : ℤ) : ℚ) / 1000)
          lastFpsCalculation := e.now })
      (htally : tally =
        { accepted := c.tally.accepted ++ [frame.length], window := [], since := e.now })

theorem CountedCamera.step_cases (dateText : ℤ → JsString) (c : CountedCamera)
    (e : ClockedEvent) :
    Counted multer urlencoded c e (c.step dateText multer urlencoded e).stats
      (c.step dateText multer urlencoded e).tally := by
  unfold CountedCamera.step Tally.step
  rw [statsAfter_eq multer]
  cases haccepted : acceptedFrame multer urlencoded e.request with
  | none =>
    have hcounted : countedFrame multer urlencoded e.request = none := countedFrame_none haccepted
    refine .ignored haccepted (fun h => h.1 hcounted) ?_ rfl
    rw [hcounted]
  | some frame =>
    cases hrequest : e.request with
    | upload files =>
      refine .uncounted frame files hrequest haccepted rfl ?_
      have hnot : ¬Recomputes multer urlencoded c.stats e := by
        intro h
        rw [Recomputes, hrequest] at h
        exact h.1 rfl
      simp only [if_neg hnot]
    | frame =>
      rw [hrequest] at haccepted
      cases haccepted
    | info =>
      rw [hrequest] at haccepted
      cases haccepted
    | uploadRaw contentType body =>
      have hraw : ∀ files, e.request ≠ .upload files := fun files h => by
        rw [hrequest] at h
        cases h
      have hcounted : countedFrame multer urlencoded e.request = some frame :=
        (countedFrame_of_raw hraw).trans haccepted
      rw [← hrequest, hcounted]
      unfold FrameStats.record
      by_cases hlate : 1000 < e.now - c.stats.lastFpsCalculation
      · have hrecomputes : Recomputes multer urlencoded c.stats e := ⟨by simp [hcounted], hlate⟩
        refine .recomputed frame hraw hrecomputes ?_ (by simp only [if_pos hrecomputes])
        simp only [gt_iff_lt, if_pos hlate]
      · have hnot : ¬Recomputes multer urlencoded c.stats e := fun h => hlate h.2
        refine .within frame hraw hnot ?_ (by simp only [if_neg hnot])
        simp only [gt_iff_lt, if_neg hlate]

/-- The numbers after a request are those of the accepted frames, and a rate that is computed is
the frames since the last computation, this one included, by the seconds since then. -/
structure StatsRight (dateText : ℤ → JsString) (multer : MulterSingle)
    (urlencoded : Bytes → Except JsString FormBody) (c : CountedCamera) (e : ClockedEvent) :
    Prop where
  totalFrames : (c.step dateText multer urlencoded e).stats.totalFrames =
    (c.step dateText multer urlencoded e).tally.accepted.length
  totalSize : (c.step dateText multer urlencoded e).stats.totalSize =
    (c.step dateText multer urlencoded e).tally.accepted.sum
  avgFps : Recomputes multer urlencoded c.stats e →
    (c.step dateText multer urlencoded e).stats.avgFps =
      (c.tally.window.length + 1 : ℕ) / (((e.now - c.tally.since : ℤ) : ℚ) / 1000)

/-- No frame comes through `uploadFrame`, and a rate is computed for the first time. -/
structure CountsRight (multer : MulterSingle) (urlencoded : Bytes → Except JsString FormBody)
    (c : CountedCamera) (e : ClockedEvent) : Prop where
  raw : ∀ files, e.request = .upload files → acceptedFrame multer urlencoded e.request = none
  first : Recomputes multer urlencoded c.stats e → c.stats.avgFps = 0

/-- The statistics and the tally, as long as both count the same frames. -/
structure Aligned (c : CountedCamera) : Prop where
  totalFrames : c.stats.totalFrames = c.tally.accepted.length
  totalSize : c.stats.totalSize = c.tally.accepted.sum
  since : c.stats.lastFpsCalculation = c.tally.since
  window : c.stats.avgFps = 0 → c.tally.window.length = c.stats.totalFrames
  computed : c.stats.avgFps ≠ 0 → c.tally.window.length < c.stats.totalFrames

theorem aligned_boot (start : ℤ) : Aligned (.boot start) :=
  ⟨rfl, rfl, rfl, fun _ => rfl, fun h => absurd rfl h⟩

/-- Two rates over one time are equal when the numbers of frames are. -/
theorem rate_inj {n m : ℕ} {elapsed : ℤ} (helapsed : 1000 < elapsed)
    (h : (n : ℚ) / ((elapsed : ℚ) / 1000) = m / ((elapsed : ℚ) / 1000)) : n = m := by
  have hpos : (0 : ℚ) < (elapsed : ℚ) / 1000 := by
    have : (0 : ℚ) < elapsed := by exact_mod_cast (by omega : (0 : ℤ) < elapsed)
    positivity
  have heq := (div_left_inj' hpos.ne').mp h
  exact_mod_cast heq

/-- The step lemma: with aligned numbers, a request leaves them right exactly when it counts
right, and it leaves them aligned then. -/
theorem statsRight_iff (hc : Aligned c) :
    StatsRight dateText multer urlencoded c e ↔ CountsRight multer urlencoded c e := by
  cases hstep : c.step_cases dateText e with
  | ignored haccepted hnot hstats htally =>
    constructor
    · intro _
      exact ⟨fun _ _ => haccepted, fun h => absurd h hnot⟩
    · intro _
      exact ⟨by rw [hstats, htally, hc.totalFrames], by rw [hstats, htally, hc.totalSize],
        fun h => absurd h hnot⟩
  | uncounted frame files hrequest haccepted hstats htally =>
    constructor
    · intro h
      have hframes := h.totalFrames
      rw [hstats, htally, hc.totalFrames, List.length_append] at hframes
      simp at hframes
    · intro h
      rw [h.raw files hrequest] at haccepted
      cases haccepted
  | within frame hraw hnot hstats htally =>
    have hright : StatsRight dateText multer urlencoded c e :=
      ⟨by rw [hstats, htally]; simp [hc.totalFrames], by rw [hstats, htally]; simp [hc.totalSize],
        fun h => absurd h hnot⟩
    exact ⟨fun _ => ⟨fun files h => absurd h (hraw files), fun h => absurd h hnot⟩, fun _ => hright⟩
  | recomputed frame hraw hrecomputes hstats htally =>
    constructor
    · intro h
      have hrate := h.avgFps hrecomputes
      rw [hstats, hc.since] at hrate
      have hlate := hrecomputes.2
      rw [hc.since] at hlate
      have hframes := rate_inj hlate hrate
      refine ⟨fun files h => absurd h (hraw files), fun _ => ?_⟩
      by_contra hcomputed
      have := hc.computed hcomputed
      omega
    · intro h
      have hwindow := hc.window (h.first hrecomputes)
      exact ⟨by rw [hstats, htally]; simp [hc.totalFrames],
        by rw [hstats, htally]; simp [hc.totalSize],
        fun _ => by rw [hstats, hc.since, hwindow]⟩

theorem aligned_step (hc : Aligned c) (h : CountsRight multer urlencoded c e) :
    Aligned (c.step dateText multer urlencoded e) := by
  cases hstep : c.step_cases dateText e with
  | ignored haccepted hnot hstats htally =>
    exact ⟨by rw [hstats, htally]; exact hc.totalFrames, by rw [hstats, htally]; exact hc.totalSize,
      by rw [hstats, htally]; exact hc.since, by rw [hstats, htally]; exact hc.window,
      by rw [hstats, htally]; exact hc.computed⟩
  | uncounted frame files hrequest haccepted =>
    rw [h.raw files hrequest] at haccepted
    cases haccepted
  | within frame hraw hnot hstats htally =>
    have hwindow := hc.window
    have hcomputed := hc.computed
    exact ⟨by rw [hstats, htally]; simp [hc.totalFrames],
      by rw [hstats, htally]; simp [hc.totalSize], by rw [hstats, htally]; exact hc.since,
      by rw [hstats, htally]; simpa using hwindow, by rw [hstats, htally]; simpa using hcomputed⟩
  | recomputed frame hraw hrecomputes hstats htally =>
    have hrate : (0 : ℚ) < (c.stats.totalFrames + 1 : ℕ) /
        (((e.now - c.stats.lastFpsCalculation : ℤ) : ℚ) / 1000) := by
      have hlate := hrecomputes.2
      have : (0 : ℚ) < (e.now - c.stats.lastFpsCalculation : ℤ) := by
        exact_mod_cast (by omega : (0 : ℤ) < e.now - c.stats.lastFpsCalculation)
      positivity
    exact ⟨by rw [hstats, htally]; simp [hc.totalFrames],
      by rw [hstats, htally]; simp [hc.totalSize], by rw [hstats, htally],
      by rw [hstats]; exact fun hzero => absurd hzero hrate.ne',
      by rw [hstats, htally]; exact fun _ => Nat.succ_pos _⟩

/-! ## All requests -/

/-- After every request of a run the statistics are right exactly when no frame is accepted by
`uploadFrame` and no rate is computed after the first one. -/
theorem stats_right_iff (dateText : ℤ → JsString) (multer : MulterSingle)
    (urlencoded : Bytes → Except JsString FormBody) (start : ℤ) (es : List ClockedEvent) :
    Along (CountedCamera.step dateText multer urlencoded)
        (StatsRight dateText multer urlencoded) (.boot start) es ↔
      Along (CountedCamera.step dateText multer urlencoded)
        (CountsRight multer urlencoded) (.boot start) es :=
  along_iff_along along_true (aligned_boot start)
    (fun _ _ hc _ => statsRight_iff hc) (fun _ _ hc _ h => aligned_step hc h)

/-- A raw upload of a form, at this time. -/
def rawUpload (time : ℤ) : ClockedEvent where
  time := time
  request := .uploadRaw .formUrlencoded (ascii "length")
  now := time

/-- Of two frames that come 1500 ms apart, the second makes a rate of 4/3 frames per second, and a
frame that comes through `uploadFrame` is not counted. -/
theorem stats_not_right :
    let step := CountedCamera.step (fun _ => []) sampleMulter fun body => .ok (sampleForm body)
    let right := StatsRight (fun _ => []) sampleMulter fun body => .ok (sampleForm body)
    ([rawUpload 1500, rawUpload 3000].foldl step (.boot 0)).stats.avgFps = 4 / 3 ∧
      ¬Along step right (.boot 0) [rawUpload 1500, rawUpload 3000] ∧
      ¬Along step right (.boot 0) [{ frameUpload 1500 [0xFF, 0xD8] with now := 1500 }] := by
  intro step right
  refine ⟨by decide +kernel, ?_, ?_⟩
  · intro h
    have hrate := h.2.1.avgFps (by decide)
    exact absurd hrate (by decide +kernel)
  · intro h
    have hframes := h.1.totalFrames
    exact absurd hframes (by decide)

end EmbeddedCar.Backend
