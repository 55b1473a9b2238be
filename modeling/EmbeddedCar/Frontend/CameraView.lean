import EmbeddedCar.Reactive.Run
import Mathlib.Data.Nat.Notation
import Mathlib.Tactic.SplitIfs

/-!
# The camera view

`startStream`, `stopStream` and `refreshStream` of the dashboard, with what they leave behind: the
handlers on the images, the connection timeouts and the refresh interval. Handlers are never
taken off, so that an event of an earlier attempt reaches them too.
-/

namespace EmbeddedCar.Frontend

open EmbeddedCar.Reactive

inductive StreamMethod where
  | gstreamer
  | mjpeg
  deriving DecidableEq

inductive StreamDisplay where
  | none
  | block
  deriving DecidableEq

structure StreamUrls where
  gstreamerUrl : String
  mjpegUrl : String
  deriving DecidableEq

/-- What a status element shows: its class and its text. -/
structure StreamStatus where
  status : String := "disconnected"
  message : String := "Desconectado"
  deriving DecidableEq

/-- An image with its status element. `handlers` are `onload` and `onerror`, with the `urls` of the
attempt that set them. -/
structure StreamImage where
  display : StreamDisplay := .none
  src : Option String := none
  handlers : Option StreamUrls := none
  status : StreamStatus := {}
  deriving DecidableEq

/-- The values of `#rpiIp` and `#rpiPort`, where they are rendered. -/
structure StreamInputs where
  ip : Option String := none
  port : Option String := none
  deriving DecidableEq

/-- The properties of the component, the images of the page, and the timers. An attempt is a call
of `startStream` that is not turned away; `failed` are the methods it has failed on. -/
structure CameraView where
  streamActive : Bool := false
  currentStreamMethod : StreamMethod := .gstreamer
  refreshInterval : Option ℕ := none
  gstreamer : Option StreamImage
  mjpeg : Option StreamImage
  intervals : List ℕ := []
  lastInterval : ℕ := 0
  timeouts : List ℕ := []
  alerts : List String := []
  attempt : ℕ := 0
  failed : List StreamMethod := []

/-- The elements of `dashboard.html`: there is no `mjpeg-stream` among them. -/
def CameraView.dashboardHtml : CameraView where
  gstreamer := some {}
  mjpeg := none

/-- `element?.value || initial` -/
def valueOr (value : Option String) (initial : String) : String :=
  match value with
  | none => initial
  | some text => if text = "" then initial else text

/-- `dashboard.ts:480-495`; no element of the page shows the addresses. -/
def updateUrls (inputs : StreamInputs) : StreamUrls :=
  let ip := valueOr inputs.ip "192.168.0.117"
  let port := valueOr inputs.port "8080"
  { gstreamerUrl :=
      "http://localhost:3000/api/camera/gstreamer-stream?ip=" ++ ip ++ "&port=" ++ port
    mjpegUrl := "http://localhost:3000/api/camera/mjpeg-stream?ip=" ++ ip ++ "&port=" ++ port }

/-- `url + '&t=' + Date.now()` -/
def stamped (url : String) (now : ℕ) : String := url ++ "&t=" ++ toString now

namespace CameraView

/-- `document.getElementById(method + '-stream')` -/
def image (v : CameraView) : StreamMethod → Option StreamImage
  | .gstreamer => v.gstreamer
  | .mjpeg => v.mjpeg

/-- A change of an image, where it is on the page. -/
def modify (v : CameraView) (method : StreamMethod) (f : StreamImage → StreamImage) : CameraView :=
  match method with
  | .gstreamer => { v with gstreamer := v.gstreamer.map f }
  | .mjpeg => { v with mjpeg := v.mjpeg.map f }

/-- `dashboard.ts:497-517`. -/
def updateStatus (v : CameraView) (method : StreamMethod) (status message : String) : CameraView :=
  v.modify method fun img => { img with status := ⟨status, message⟩ }

def setDisplay (v : CameraView) (method : StreamMethod) (display : StreamDisplay) : CameraView :=
  v.modify method fun img => { img with display := display }

def setSrc (v : CameraView) (method : StreamMethod) (src : String) : CameraView :=
  v.modify method fun img => { img with src := some src }

def setHandlers (v : CameraView) (method : StreamMethod) (urls : StreamUrls) : CameraView :=
  v.modify method fun img => { img with handlers := some urls }

/-- `clearInterval(this.refreshInterval)` -/
def clearRefresh (v : CameraView) : CameraView :=
  match v.refreshInterval with
  | none => v
  | some id => { v with intervals := v.intervals.filter fun armed => armed ≠ id }

/-- `dashboard.ts:596-597`. -/
def armRefresh (v : CameraView) : CameraView :=
  let v := v.clearRefresh
  { v with
    intervals := v.intervals ++ [v.lastInterval + 1]
    lastInterval := v.lastInterval + 1
    refreshInterval := some (v.lastInterval + 1) }

/-- `dashboard.ts:532-593`, where the image is on the page. -/
def connect (v : CameraView) (urls : StreamUrls) (now : ℕ) : CameraView :=
  match v.gstreamer with
  | none => v
  | some _ =>
      let v := v.updateStatus .gstreamer "connecting" "Conectando..."
      let v := v.setHandlers .gstreamer urls
      let v := { v with timeouts := v.timeouts ++ [v.attempt] }
      v.setSrc .gstreamer (stamped urls.gstreamerUrl now)

/-- `dashboard.ts:519-598`. -/
def startStream (v : CameraView) (inputs : StreamInputs) (now : ℕ) : CameraView :=
  if v.streamActive then v
  else
    let urls := updateUrls inputs
    let v := { v with streamActive := true, attempt := v.attempt + 1, failed := [] }
    (v.connect urls now).armRefresh

/-- `dashboard.ts:600-621`. -/
def stopStream (v : CameraView) : CameraView :=
  let v := { v with streamActive := false }
  let v := v.setDisplay .gstreamer .none
  let v := v.setDisplay .mjpeg .none
  let v := v.updateStatus .gstreamer "disconnected" "Desconectado"
  let v := v.updateStatus .mjpeg "disconnected" "Desconectado"
  { v.clearRefresh with refreshInterval := none }

/-- `dashboard.ts:623-635`. -/
def refreshStream (v : CameraView) (inputs : StreamInputs) (now : ℕ) : CameraView :=
  if v.streamActive then
    let urls := updateUrls inputs
    match v.image v.currentStreamMethod with
    | none => v
    | some activeImg =>
        if activeImg.display = .block then
          let newUrl :=
            match v.currentStreamMethod with
            | .gstreamer => urls.gstreamerUrl
            | .mjpeg => urls.mjpegUrl
          v.setSrc v.currentStreamMethod (stamped newUrl now)
        else v
  else v

/-- `onload`, `dashboard.ts:539-544` and `559-564`. -/
def onload (v : CameraView) (method : StreamMethod) : CameraView :=
  let v := v.updateStatus method "connected" "Conectado - Recibiendo video"
  let v := v.setDisplay method .block
  { v with currentStreamMethod := method }

/-- `gstreamerImg.onerror`, `dashboard.ts:546-581`. -/
def gstreamerError (v : CameraView) (urls : StreamUrls) (now : ℕ) : CameraView :=
  let v := v.updateStatus .gstreamer "disconnected" "Error de conexión"
  let v := v.setDisplay .gstreamer .none
  match v.mjpeg with
  | none => v
  | some _ =>
      let v := v.updateStatus .mjpeg "connecting" "Probando MJPEG..."
      let v := v.setHandlers .mjpeg urls
      v.setSrc .mjpeg (stamped urls.mjpegUrl now)

/-- The text of the `alert`, `dashboard.ts:574-577`. -/
def alertText (inputs : StreamInputs) : String :=
  "❌ No se pudo conectar al video stream.\n\n" ++
    "1. Verifica que la Raspberry Pi esté encendida\n" ++
    "2. Verifica la IP: " ++ inputs.ip.getD "undefined" ++ "\n" ++
    "3. Asegúrate de que el stream esté activo en la Raspberry Pi"

/-- `mjpegImg.onerror`, `dashboard.ts:566-578`. -/
def mjpegError (v : CameraView) (inputs : StreamInputs) : CameraView :=
  let v := v.updateStatus .mjpeg "disconnected" "Error: Raspberry Pi no disponible"
  let v := v.setDisplay .mjpeg .none
  { v with streamActive := false, alerts := v.alerts ++ [alertText inputs] }

def onerror (v : CameraView) (method : StreamMethod) (urls : StreamUrls) (inputs : StreamInputs)
    (now : ℕ) : CameraView :=
  match method with
  | .gstreamer => v.gstreamerError urls now
  | .mjpeg => v.mjpegError inputs

/-- The handlers of an image, where it is on the page and has them. -/
def handlersOf (v : CameraView) (method : StreamMethod) : Option StreamUrls :=
  (v.image method).bind StreamImage.handlers

/-- A failure of an attempt is one of the current attempt, or a late one. -/
def fail (v : CameraView) (method : StreamMethod) (attempt : ℕ) : CameraView :=
  if attempt = v.attempt then { v with failed := method :: v.failed } else v

def succeed (v : CameraView) (method : StreamMethod) (attempt : ℕ) : CameraView :=
  if attempt = v.attempt then { v with failed := v.failed.filter fun other => other ≠ method }
  else v

end CameraView

/-- What happens: a call, an event on an image for a `src` that this attempt set, the timeout of
an attempt, with `complete` of the image, or a turn of an interval. -/
inductive ViewEvent where
  | start (inputs : StreamInputs) (now : ℕ)
  | stop
  | refresh (inputs : StreamInputs) (now : ℕ)
  | load (method : StreamMethod) (attempt : ℕ)
  | error (method : StreamMethod) (attempt : ℕ) (inputs : StreamInputs) (now : ℕ)
  | timeout (attempt : ℕ) (complete : Bool) (inputs : StreamInputs) (now : ℕ)
  | interval (id : ℕ) (inputs : StreamInputs) (now : ℕ)

namespace CameraView

/-- An image event reaches the handlers that are set when it comes. -/
def step (v : CameraView) : ViewEvent → CameraView
  | .start inputs now => v.startStream inputs now
  | .stop => v.stopStream
  | .refresh inputs now => v.refreshStream inputs now
  | .load method attempt =>
      match v.handlersOf method with
      | none => v
      | some _ => (v.onload method).succeed method attempt
  | .error method attempt inputs now =>
      match v.handlersOf method with
      | none => v
      | some urls => (v.onerror method urls inputs now).fail method attempt
  | .timeout attempt complete inputs now =>
      if attempt ∈ v.timeouts then
        let v := { v with timeouts := v.timeouts.erase attempt }
        if v.streamActive ∧ complete = false then
          match v.handlersOf .gstreamer with
          | none => v
          | some urls => (v.onerror .gstreamer urls inputs now).fail .gstreamer attempt
        else v
      else v
  | .interval id inputs now =>
      if id ∈ v.intervals then v.refreshStream inputs now else v

/-- The controls of `dashboard.html:155-169`. -/
def controlsRendered (v : CameraView) : Bool := !v.streamActive

/-- The current attempt has failed on every method whose image is on the page. -/
def FailedEverywhere (v : CameraView) : Prop :=
  v.failed ≠ [] ∧ ∀ method, v.image method ≠ none → method ∈ v.failed

/-- No image is shown. -/
def Hidden (v : CameraView) : Prop :=
  ∀ method img, v.image method = some img → img.display ≠ .block

/-- What is asked of every state. -/
structure Consistent (v : CameraView) : Prop where
  inactive : v.streamActive = false → v.Hidden ∧ v.intervals = []
  controls : v.FailedEverywhere → v.controlsRendered = true

/-- An event that shows an image. -/
def Shows (v : CameraView) : ViewEvent → Prop
  | .load method _ => v.handlersOf method ≠ none
  | _ => False

/-- An event with which the current attempt fails. -/
def Fails (v : CameraView) : ViewEvent → Prop
  | .error method attempt _ _ => attempt = v.attempt ∧ v.handlersOf method ≠ none
  | .timeout attempt complete _ _ =>
      attempt = v.attempt ∧ attempt ∈ v.timeouts ∧ complete = false ∧
        v.handlersOf .gstreamer ≠ none
  | _ => False

/-- An image is shown only while the stream is active, and an attempt fails only after it was
stopped. -/
structure Timely (v : CameraView) (e : ViewEvent) : Prop where
  shows : v.Shows e → v.streamActive = true
  fails : v.Fails e → v.streamActive = false

/-! ## What the parts leave alone -/

section

variable (v : CameraView) (method : StreamMethod) (f : StreamImage → StreamImage)

@[simp]
theorem modify_streamActive : (v.modify method f).streamActive = v.streamActive := by
  cases method <;> rfl

@[simp]
theorem modify_refreshInterval : (v.modify method f).refreshInterval = v.refreshInterval := by
  cases method <;> rfl

@[simp]
theorem modify_intervals : (v.modify method f).intervals = v.intervals := by
  cases method <;> rfl

@[simp]
theorem modify_failed : (v.modify method f).failed = v.failed := by
  cases method <;> rfl

@[simp]
theorem modify_attempt : (v.modify method f).attempt = v.attempt := by
  cases method <;> rfl

@[simp]
theorem modify_gstreamer : (v.modify .gstreamer f).gstreamer = v.gstreamer.map f := rfl

@[simp]
theorem modify_mjpeg_gstreamer : (v.modify .mjpeg f).gstreamer = v.gstreamer := rfl

@[simp]
theorem modify_mjpeg : (v.modify .mjpeg f).mjpeg = v.mjpeg.map f := rfl

@[simp]
theorem modify_gstreamer_mjpeg : (v.modify .gstreamer f).mjpeg = v.mjpeg := rfl

@[simp]
theorem clearRefresh_streamActive : v.clearRefresh.streamActive = v.streamActive := by
  unfold clearRefresh
  cases v.refreshInterval <;> rfl

@[simp]
theorem clearRefresh_gstreamer : v.clearRefresh.gstreamer = v.gstreamer := by
  unfold clearRefresh
  cases v.refreshInterval <;> rfl

@[simp]
theorem clearRefresh_mjpeg : v.clearRefresh.mjpeg = v.mjpeg := by
  unfold clearRefresh
  cases v.refreshInterval <;> rfl

@[simp]
theorem clearRefresh_failed : v.clearRefresh.failed = v.failed := by
  unfold clearRefresh
  cases v.refreshInterval <;> rfl

/-- Where only the last interval is armed, none is left. -/
theorem clearRefresh_intervals {v : CameraView} (h : v.intervals = v.refreshInterval.toList) :
    v.clearRefresh.intervals = [] := by
  unfold clearRefresh
  cases hinterval : v.refreshInterval with
  | none => rw [h, hinterval]; rfl
  | some id => simp [h, hinterval]

theorem connect_fields (urls : StreamUrls) (now : ℕ) :
    (v.connect urls now).streamActive = v.streamActive ∧
      (v.connect urls now).refreshInterval = v.refreshInterval ∧
      (v.connect urls now).intervals = v.intervals ∧ (v.connect urls now).failed = v.failed ∧
      (v.connect urls now).mjpeg = v.mjpeg ∧
      ((v.connect urls now).gstreamer = none ↔ v.gstreamer = none) := by
  unfold connect
  cases himg : v.gstreamer with
  | none => simp [himg]
  | some img => simp [himg, updateStatus, setHandlers, setSrc]

end

/-! ## The elements of `dashboard.html` -/

/-- What every step keeps on the page of `dashboard.html`. -/
structure Wired (v : CameraView) : Prop where
  mjpeg : v.mjpeg = none
  gstreamer : v.gstreamer ≠ none
  intervals : v.intervals = v.refreshInterval.toList
  armed : v.refreshInterval.isSome = v.streamActive
  hidden : v.streamActive = false → ∀ img, v.gstreamer = some img → img.display = .none
  failed : v.streamActive = true → v.failed = []

theorem wired_dashboardHtml : Wired dashboardHtml where
  mjpeg := rfl
  gstreamer := by simp [dashboardHtml]
  intervals := rfl
  armed := rfl
  hidden := by
    intro _ img himg
    cases himg
    rfl
  failed := fun _ => rfl

theorem Wired.consistent {v : CameraView} (h : v.Wired) : v.Consistent where
  inactive hinactive := by
    constructor
    · intro method img himg hblock
      cases method with
      | gstreamer =>
        rw [h.hidden hinactive img himg] at hblock
        cases hblock
      | mjpeg =>
        rw [image, h.mjpeg] at himg
        cases himg
    · have hnone : v.refreshInterval = none := by
        simpa [hinactive] using h.armed
      rw [h.intervals, hnone]
      rfl
  controls hfailed := by
    cases hactive : v.streamActive with
    | true => exact absurd (h.failed hactive) hfailed.1
    | false => simp [controlsRendered, hactive]

/-- Two views that differ in addresses, texts and timeouts alone. -/
structure Alike (v v' : CameraView) : Prop where
  streamActive : v'.streamActive = v.streamActive
  refreshInterval : v'.refreshInterval = v.refreshInterval
  intervals : v'.intervals = v.intervals
  mjpeg : v'.mjpeg = v.mjpeg
  display : v'.gstreamer.map StreamImage.display = v.gstreamer.map StreamImage.display
  failed : v'.failed = v.failed

theorem Alike.refl (v : CameraView) : Alike v v := ⟨rfl, rfl, rfl, rfl, rfl, rfl⟩

theorem Wired.alike {v v' : CameraView} (h : v.Wired) (halike : Alike v v') : v'.Wired where
  mjpeg := by rw [halike.mjpeg, h.mjpeg]
  gstreamer hnone := by
    have hdisplay := halike.display
    rw [hnone] at hdisplay
    exact h.gstreamer (Option.map_eq_none_iff.mp hdisplay.symm)
  intervals := by rw [halike.intervals, halike.refreshInterval, h.intervals]
  armed := by rw [halike.refreshInterval, halike.streamActive, h.armed]
  hidden := by
    intro hinactive img himg
    rw [halike.streamActive] at hinactive
    have hdisplay := halike.display
    rw [himg] at hdisplay
    obtain ⟨before, hbefore, heq⟩ := Option.map_eq_some_iff.mp hdisplay.symm
    rw [← heq, h.hidden hinactive before hbefore]
  failed := by
    rw [halike.streamActive, halike.failed]
    exact h.failed

/-- `refreshStream` gives an image a new address, and nothing else. -/
theorem refreshStream_alike {v : CameraView} (h : v.mjpeg = none) (inputs : StreamInputs)
    (now : ℕ) : Alike v (v.refreshStream inputs now) := by
  have hsrc : ∀ method src, Alike v (v.setSrc method src) := by
    intro method src
    cases method with
    | gstreamer => exact ⟨rfl, rfl, rfl, rfl, by simp [setSrc, Function.comp_def], rfl⟩
    | mjpeg => exact ⟨rfl, rfl, rfl, by simp [setSrc, h], rfl, rfl⟩
  unfold refreshStream
  cases v.streamActive with
  | false => exact Alike.refl v
  | true =>
    rw [if_pos rfl]
    cases himage : v.image v.currentStreamMethod with
    | none => exact Alike.refl v
    | some activeImg =>
      by_cases hblock : activeImg.display = .block
      · simp only [if_pos hblock]
        exact hsrc _ _
      · simp only [if_neg hblock]
        exact Alike.refl v

/-- A stream that is started has the interval it arms, and no other. -/
theorem Wired.startStream {v : CameraView} (h : v.Wired) (inputs : StreamInputs) (now : ℕ) :
    (v.startStream inputs now).Wired := by
  unfold CameraView.startStream
  cases hactive : v.streamActive with
  | true =>
    rw [if_pos rfl]
    exact h
  | false =>
    rw [if_neg (by decide)]
    have hbegun : ∀ begun : CameraView, begun.streamActive = true → begun.failed = [] →
        begun.mjpeg = none → begun.gstreamer ≠ none →
        begun.intervals = begun.refreshInterval.toList →
        (begun.connect (updateUrls inputs) now).armRefresh.Wired := by
      intro begun hactive hfailed hmjpeg himage hintervals
      obtain ⟨hactive', hinterval', hintervals', hfailed', hmjpeg', himage'⟩ :=
        begun.connect_fields (updateUrls inputs) now
      have hcleared := clearRefresh_intervals
        (hintervals'.trans (hintervals.trans (congrArg Option.toList hinterval'.symm)))
      exact {
        mjpeg := by simp [armRefresh, hmjpeg', hmjpeg]
        gstreamer := by simp [armRefresh, himage', himage]
        intervals := by simp [armRefresh, hcleared]
        armed := by simp [armRefresh, hactive', hactive]
        hidden := by simp [armRefresh, hactive', hactive]
        failed := by simp [armRefresh, hfailed', hfailed] }
    exact hbegun _ rfl rfl h.mjpeg h.gstreamer h.intervals

theorem Wired.stopStream {v : CameraView} (h : v.Wired) : v.stopStream.Wired where
  mjpeg := by simp [CameraView.stopStream, setDisplay, updateStatus, h.mjpeg]
  gstreamer := by simp [CameraView.stopStream, setDisplay, updateStatus, h.gstreamer]
  intervals := by
    have hintervals := h.intervals
    exact clearRefresh_intervals (by simp [setDisplay, updateStatus, hintervals])
  armed := by simp [CameraView.stopStream, setDisplay, updateStatus]
  hidden := by
    intro _ img himg
    simp only [CameraView.stopStream, setDisplay, updateStatus, clearRefresh_gstreamer,
      modify_gstreamer, modify_mjpeg_gstreamer, Option.map_map] at himg
    obtain ⟨before, -, rfl⟩ := Option.map_eq_some_iff.mp himg
    rfl
  failed := by simp [CameraView.stopStream, setDisplay, updateStatus]

/-- There is no image that `mjpeg` handlers could be on. -/
theorem handlersOf_mjpeg {v : CameraView} (h : v.mjpeg = none) : v.handlersOf .mjpeg = none := by
  unfold handlersOf image
  rw [h]
  rfl

theorem handlersOf_timeouts (v : CameraView) (timeouts : List ℕ) (method : StreamMethod) :
    { v with timeouts := timeouts }.handlersOf method = v.handlersOf method := by
  cases method <;> rfl

/-- The image after an error, and what else the handler does on this page. -/
theorem gstreamerError_fields {v : CameraView} (h : v.mjpeg = none) (urls : StreamUrls)
    (now : ℕ) :
    (v.gstreamerError urls now).streamActive = v.streamActive ∧
      (v.gstreamerError urls now).refreshInterval = v.refreshInterval ∧
      (v.gstreamerError urls now).intervals = v.intervals ∧
      (v.gstreamerError urls now).failed = v.failed ∧
      (v.gstreamerError urls now).attempt = v.attempt ∧
      (v.gstreamerError urls now).mjpeg = none ∧
      (v.gstreamerError urls now).gstreamer = v.gstreamer.map fun img =>
        { img with status := ⟨"disconnected", "Error de conexión"⟩, display := .none } := by
  unfold gstreamerError
  simp [updateStatus, setDisplay, h, Function.comp_def]

/-- An error keeps the page as it should be, unless the attempt it ends is active. -/
theorem Wired.gstreamerError {v : CameraView} (h : v.Wired) (urls : StreamUrls) (now attempt : ℕ)
    (htimely : attempt = v.attempt → v.streamActive = false) :
    ((v.gstreamerError urls now).fail .gstreamer attempt).Wired := by
  obtain ⟨hactive, hinterval, hintervals, hfailed, hattempt, hmjpeg, himage⟩ :=
    gstreamerError_fields h.mjpeg urls now
  have hshown : ∀ img, (v.gstreamerError urls now).gstreamer = some img → img.display = .none := by
    intro img himg
    rw [himage] at himg
    obtain ⟨before, -, rfl⟩ := Option.map_eq_some_iff.mp himg
    rfl
  have hkept : (v.gstreamerError urls now).Wired := {
    mjpeg := hmjpeg
    gstreamer := by rw [himage]; exact fun hnone => h.gstreamer (Option.map_eq_none_iff.mp hnone)
    intervals := by rw [hintervals, hinterval, h.intervals]
    armed := by rw [hinterval, hactive, h.armed]
    hidden := fun _ => hshown
    failed := by rw [hactive, hfailed]; exact h.failed }
  unfold fail
  by_cases hcurrent : attempt = (v.gstreamerError urls now).attempt
  · rw [if_pos hcurrent]
    have hinactive := htimely (hcurrent.trans hattempt)
    exact { hkept with
      failed := fun htrue => by rw [hactive, hinactive] at htrue; cases htrue }
  · rw [if_neg hcurrent]
    exact hkept

/-- A page with an attempt that failed while it is active. -/
theorem not_consistent_of_fail {v : CameraView} (h : v.Wired) (urls : StreamUrls) (now : ℕ)
    (hactive : v.streamActive = true) :
    ¬((v.gstreamerError urls now).fail .gstreamer v.attempt).Consistent := by
  obtain ⟨hactive', -, -, -, hattempt, hmjpeg, -⟩ := gstreamerError_fields h.mjpeg urls now
  intro hconsistent
  unfold fail at hconsistent
  rw [if_pos hattempt.symm] at hconsistent
  have hcontrols := hconsistent.controls ⟨List.cons_ne_nil _ _, fun method himage => by
    cases method with
    | gstreamer => exact List.mem_cons_self
    | mjpeg => exact absurd hmjpeg himage⟩
  simp [controlsRendered, hactive', hactive] at hcontrols

/-- An image that is loaded keeps the page as it should be where the stream is active. -/
theorem Wired.onload {v : CameraView} (h : v.Wired) (attempt : ℕ)
    (hactive : v.streamActive = true) :
    ((v.onload .gstreamer).succeed .gstreamer attempt).Wired := by
  have hkept : (v.onload .gstreamer).Wired := {
    mjpeg := by simp [CameraView.onload, setDisplay, updateStatus, h.mjpeg]
    gstreamer := by simp [CameraView.onload, setDisplay, updateStatus, h.gstreamer]
    intervals := by simp [CameraView.onload, setDisplay, updateStatus, h.intervals]
    armed := by simp [CameraView.onload, setDisplay, updateStatus, h.armed]
    hidden := by simp [CameraView.onload, setDisplay, updateStatus, hactive]
    failed := by simpa [CameraView.onload, setDisplay, updateStatus] using h.failed }
  unfold succeed
  by_cases hcurrent : attempt = (v.onload .gstreamer).attempt
  · rw [if_pos hcurrent]
    exact { hkept with failed := fun htrue => by simp [hkept.failed htrue] }
  · rw [if_neg hcurrent]
    exact hkept

/-- A page that shows an image of a stream that was stopped. -/
theorem not_consistent_of_onload {v : CameraView} (h : v.Wired) (attempt : ℕ)
    (hinactive : v.streamActive = false) :
    ¬((v.onload .gstreamer).succeed .gstreamer attempt).Consistent := by
  intro hconsistent
  obtain ⟨img, himg⟩ := Option.ne_none_iff_exists'.mp h.gstreamer
  have hfields : ((v.onload .gstreamer).succeed .gstreamer attempt).streamActive = false ∧
      ((v.onload .gstreamer).succeed .gstreamer attempt).gstreamer =
        some { img with
          status := ⟨"connected", "Conectado - Recibiendo video"⟩
          display := .block } := by
    unfold succeed
    split <;> simp [CameraView.onload, setDisplay, updateStatus, hinactive, himg]
  exact (hconsistent.inactive hfields.1).1 .gstreamer _ hfields.2 rfl

/-- An event handled in time keeps the page as it should be. -/
theorem Wired.step {v : CameraView} {e : ViewEvent} (h : v.Wired) (htimely : v.Timely e) :
    (v.step e).Wired := by
  cases e with
  | start inputs now => exact h.startStream inputs now
  | stop => exact h.stopStream
  | refresh inputs now => exact h.alike (refreshStream_alike h.mjpeg inputs now)
  | load method attempt =>
    simp only [CameraView.step]
    cases hhandlers : v.handlersOf method with
    | none => exact h
    | some urls =>
      cases method with
      | gstreamer => exact h.onload attempt (htimely.shows (by simp [Shows, hhandlers]))
      | mjpeg =>
        rw [handlersOf_mjpeg h.mjpeg] at hhandlers
        cases hhandlers
  | error method attempt inputs now =>
    simp only [CameraView.step]
    cases hhandlers : v.handlersOf method with
    | none => exact h
    | some urls =>
      cases method with
      | gstreamer =>
        refine h.gstreamerError urls now attempt fun hcurrent => htimely.fails ?_
        simp [Fails, hcurrent, hhandlers]
      | mjpeg =>
        rw [handlersOf_mjpeg h.mjpeg] at hhandlers
        cases hhandlers
  | timeout attempt complete inputs now =>
    have hwaited : Wired { v with timeouts := v.timeouts.erase attempt } :=
      h.alike ⟨rfl, rfl, rfl, rfl, rfl, rfl⟩
    simp only [CameraView.step]
    split_ifs with hpending hfires
    · cases hhandlers : v.handlersOf .gstreamer with
      | none =>
        simp only [handlersOf_timeouts, hhandlers]
        exact hwaited
      | some urls =>
        simp only [handlersOf_timeouts, hhandlers]
        refine hwaited.gstreamerError urls now attempt fun hcurrent => htimely.fails ?_
        exact ⟨hcurrent, hpending, hfires.2, by simp [hhandlers]⟩
    · exact hwaited
    · exact h
  | interval id inputs now =>
    simp only [CameraView.step]
    split_ifs with harmed
    · exact h.alike (refreshStream_alike h.mjpeg inputs now)
    · exact h

/-- The step lemma: a page that is as it should be stays consistent exactly when the event comes
in time. -/
theorem consistent_step_iff {v : CameraView} {e : ViewEvent} (h : v.Wired) :
    (v.step e).Consistent ↔ v.Timely e := by
  refine ⟨fun hconsistent => ?_, fun htimely => (h.step htimely).consistent⟩
  constructor
  · intro hshows
    cases e with
    | load method attempt =>
      obtain ⟨urls, hhandlers⟩ := Option.ne_none_iff_exists'.mp hshows
      cases method with
      | gstreamer =>
        simp only [CameraView.step, hhandlers] at hconsistent
        cases hactive : v.streamActive with
        | true => rfl
        | false => exact absurd hconsistent (not_consistent_of_onload h attempt hactive)
      | mjpeg => exact absurd (handlersOf_mjpeg h.mjpeg) hshows
    | _ => exact absurd hshows id
  · intro hfails
    cases hactive : v.streamActive with
    | false => rfl
    | true =>
      exfalso
      cases e with
      | error method attempt inputs now =>
        obtain ⟨rfl, hset⟩ := hfails
        obtain ⟨urls, hhandlers⟩ := Option.ne_none_iff_exists'.mp hset
        cases method with
        | gstreamer =>
          simp only [CameraView.step, hhandlers] at hconsistent
          exact not_consistent_of_fail h urls now hactive hconsistent
        | mjpeg => exact absurd (handlersOf_mjpeg h.mjpeg) hset
      | timeout attempt complete inputs now =>
        obtain ⟨rfl, hpending, hincomplete, hset⟩ := hfails
        obtain ⟨urls, hhandlers⟩ := Option.ne_none_iff_exists'.mp hset
        have hwaited : Wired { v with timeouts := v.timeouts.erase v.attempt } :=
          h.alike ⟨rfl, rfl, rfl, rfl, rfl, rfl⟩
        have hfires : v.streamActive = true ∧ complete = false := ⟨hactive, hincomplete⟩
        simp only [CameraView.step, if_pos hpending, if_pos hfires, handlersOf_timeouts,
          hhandlers] at hconsistent
        exact not_consistent_of_fail hwaited urls now hactive hconsistent
      | _ => exact hfails

/-- In every state of every run the camera view is consistent exactly when every event comes in
time: an image is loaded only while the stream is active, and no attempt fails while it is. -/
theorem camera_view_consistent_iff (events : List ViewEvent) :
    (∀ before after, events = before ++ after →
        (before.foldl step dashboardHtml).Consistent) ↔
      Along step Timely dashboardHtml events := by
  rw [reached_iff]
  have halong : Along step (fun v e => (v.step e).Consistent) dashboardHtml events ↔
      Along step Timely dashboardHtml events :=
    along_iff_along along_true wired_dashboardHtml (fun _ _ h _ => consistent_step_iff h)
      (fun _ _ h _ htimely => h.step htimely)
  rw [halong]
  exact and_iff_right wired_dashboardHtml.consistent

/-- A load event that comes after the stop shows the image again, and an attempt that fails leaves
the controls away. -/
theorem camera_view_not_consistent :
    ¬([ViewEvent.start {} 0, .stop, .load .gstreamer 1].foldl step dashboardHtml).Consistent ∧
      ¬([ViewEvent.start {} 0, .error .gstreamer 1 {} 0].foldl step dashboardHtml).Consistent := by
  constructor
  · intro h
    exact (h.inactive rfl).1 .gstreamer _ rfl rfl
  · intro h
    have hcontrols := h.controls ⟨by decide, fun method himage => by
      cases method with
      | gstreamer => decide
      | mjpeg => exact absurd rfl himage⟩
    exact absurd hcontrols (by decide)

end CameraView

end EmbeddedCar.Frontend
