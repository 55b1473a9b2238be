import EmbeddedCar.Text.Decimal
import EmbeddedCar.Text.Shell
import EmbeddedCar.Video.Options

/-!
# The pipelines that are launched

`startStreaming` hands a text to `sh -c`; the service expands a variable behind the name of the
program. Both texts are the words of one pipeline joined by blanks, so the two start the same
process from the same settings. The shell reads the controller's text: what follows a semicolon
in a device or a host is a command of its own.
-/

namespace EmbeddedCar.Video

open EmbeddedCar.Text

/-! ### The two texts -/

/-- The settings of a pipeline, as texts. -/
abbrev PipelineTexts := OptionName → Bytes

/-- The texts of a configuration. -/
def VideoOptions.texts (c : VideoOptions) : PipelineTexts
  | .device => c.device
  | .width => decimal c.width
  | .height => decimal c.height
  | .fps => decimal c.framerate
  | .port => decimal c.port
  | .quality => decimal c.quality
  | .host => c.host

/-- `gstreamer_controller.cpp:50-57`. -/
def VideoOptions.command (c : VideoOptions) : Bytes :=
  ascii "gst-launch-1.0 v4l2src device=" ++ c.device ++
    ascii " ! video/x-raw,width=" ++ decimal c.width ++
    ascii ",height=" ++ decimal c.height ++
    ascii ",framerate=" ++ decimal c.framerate ++ ascii "/1" ++
    ascii " ! videoconvert ! jpegenc quality=" ++ decimal c.quality ++
    ascii " ! multipartmux boundary=--videoboundary" ++
    ascii " ! tcpserversink host=" ++ c.host ++
    ascii " port=" ++ decimal c.port ++ ascii " sync=false"

/-- The commands of `execl("/bin/sh", "sh", "-c", command.c_str(), nullptr)`. -/
def VideoOptions.launched (c : VideoOptions) : Option (List (List Bytes)) :=
  shellCommands c.command

/-- The environment variables of `gstreamer-video-streaming`. -/
structure VideoEnvironment where
  videoDevice : Option Bytes := none
  videoWidth : Option Bytes := none
  videoHeight : Option Bytes := none
  videoFramerate : Option Bytes := none
  videoPort : Option Bytes := none
  videoQuality : Option Bytes := none
  videoHost : Option Bytes := none

/-- `${VARIABLE:-default}` -/
def orDefault (value : Option Bytes) (default : Bytes) : Bytes :=
  match value with
  | some value => if value = [] then default else value
  | none => default

/-- `gstreamer-video-streaming:9-15`. -/
def VideoEnvironment.texts (e : VideoEnvironment) : PipelineTexts
  | .device => orDefault e.videoDevice (ascii "/dev/video0")
  | .width => orDefault e.videoWidth (ascii "640")
  | .height => orDefault e.videoHeight (ascii "480")
  | .fps => orDefault e.videoFramerate (ascii "30")
  | .port => orDefault e.videoPort (ascii "8080")
  | .quality => orDefault e.videoQuality (ascii "85")
  | .host => orDefault e.videoHost (ascii "0.0.0.0")

/-- `$pipeline`, `gstreamer-video-streaming:182-187`. -/
def pipeline (t : PipelineTexts) : Bytes :=
  ascii "v4l2src device=" ++ t .device ++ ascii " ! " ++
    ascii "video/x-raw,width=" ++ t .width ++ ascii ",height=" ++ t .height ++
    ascii ",framerate=" ++ t .fps ++ ascii "/1 ! " ++
    ascii "videoconvert ! " ++
    ascii "jpegenc quality=" ++ t .quality ++ ascii " ! " ++
    ascii "multipartmux boundary=--videoboundary ! " ++
    ascii "tcpserversink host=" ++ t .host ++ ascii " port=" ++ t .port ++ ascii " sync=false"

/-- The command `gst-launch-1.0 $pipeline`, `gstreamer-video-streaming:193`. -/
def VideoEnvironment.launched (e : VideoEnvironment) : Option (List Bytes) :=
  (expandUnquoted (pipeline e.texts)).map fun words => ascii "gst-launch-1.0" :: words

/-! ### The words -/

/-- A part of a word: the same in every pipeline, or a setting. -/
inductive Piece where
  | fixed (text : Bytes)
  | setting (name : OptionName)
  deriving DecidableEq

def Piece.text (t : PipelineTexts) : Piece → Bytes
  | .fixed text => text
  | .setting name => t name

/-- The words of a pipeline. -/
def template : List (List Piece) :=
  [[.fixed (ascii "v4l2src")], [.fixed (ascii "device="), .setting .device],
    [.fixed (ascii "!")],
    [.fixed (ascii "video/x-raw,width="), .setting .width, .fixed (ascii ",height="),
      .setting .height, .fixed (ascii ",framerate="), .setting .fps, .fixed (ascii "/1")],
    [.fixed (ascii "!")], [.fixed (ascii "videoconvert")], [.fixed (ascii "!")],
    [.fixed (ascii "jpegenc")], [.fixed (ascii "quality="), .setting .quality],
    [.fixed (ascii "!")], [.fixed (ascii "multipartmux")],
    [.fixed (ascii "boundary=--videoboundary")], [.fixed (ascii "!")],
    [.fixed (ascii "tcpserversink")], [.fixed (ascii "host="), .setting .host],
    [.fixed (ascii "port="), .setting .port], [.fixed (ascii "sync=false")]]

namespace PipelineTexts

def words (t : PipelineTexts) : List Bytes := template.map fun w => w.flatMap (Piece.text t)

/-- The program and its arguments. -/
def argv (t : PipelineTexts) : List Bytes := ascii "gst-launch-1.0" :: t.words

/-- Every setting occurs in a word. -/
theorem setting_mem (name : OptionName) : ∃ w ∈ template, .setting name ∈ w := by
  cases name <;> decide +kernel

/-- What holds of the characters of the fixed pieces holds of the words where it holds of the
settings. -/
theorem words_forall_iff {P : UInt8 → Prop} (t : PipelineTexts)
    (hfixed : ∀ w ∈ template, ∀ text, .fixed text ∈ w → ∀ c ∈ text, P c) :
    (∀ w ∈ t.words, ∀ c ∈ w, P c) ↔ ∀ name, ∀ c ∈ t name, P c := by
  constructor
  · intro h name c hc
    obtain ⟨w, hw, hname⟩ := setting_mem name
    exact h _ (List.mem_map_of_mem hw) c (List.mem_flatMap.mpr ⟨_, hname, hc⟩)
  · intro h w hw c hc
    obtain ⟨pieces, hpieces, rfl⟩ := List.mem_map.mp hw
    obtain ⟨piece, hpiece, hc⟩ := List.mem_flatMap.mp hc
    cases piece with
    | fixed text => exact hfixed pieces hpieces text hpiece c hc
    | setting name => exact h name c hc

/-- Every word begins with a fixed piece. -/
theorem words_ne_nil (t : PipelineTexts) : ∀ w ∈ t.words, w ≠ [] := by
  intro w hw
  obtain ⟨pieces, hpieces, rfl⟩ := List.mem_map.mp hw
  have hfixed : ∀ w ∈ template, (w.flatMap (Piece.text fun _ => [])) ≠ [] := by decide +kernel
  intro hnil
  refine hfixed pieces hpieces (List.flatMap_eq_nil_iff.mpr fun piece hpiece => ?_)
  cases piece with
  | fixed text => exact List.flatMap_eq_nil_iff.mp hnil _ hpiece
  | setting name => rfl

end PipelineTexts

/-- The texts in the sources, piece by piece. -/
theorem pieces :
    ascii "gst-launch-1.0 v4l2src device=" =
        ascii "gst-launch-1.0" ++ 32 :: (ascii "v4l2src" ++ 32 :: ascii "device=") ∧
      ascii "v4l2src device=" = ascii "v4l2src" ++ 32 :: ascii "device=" ∧
      ascii " ! " = 32 :: (ascii "!" ++ [32]) ∧
      ascii " ! video/x-raw,width=" = 32 :: (ascii "!" ++ 32 :: ascii "video/x-raw,width=") ∧
      ascii "/1 ! " = ascii "/1" ++ 32 :: (ascii "!" ++ [32]) ∧
      ascii "videoconvert ! " = ascii "videoconvert" ++ 32 :: (ascii "!" ++ [32]) ∧
      ascii "jpegenc quality=" = ascii "jpegenc" ++ 32 :: ascii "quality=" ∧
      ascii " ! videoconvert ! jpegenc quality=" = 32 :: (ascii "!" ++ 32 ::
        (ascii "videoconvert" ++ 32 :: (ascii "!" ++ 32 ::
          (ascii "jpegenc" ++ 32 :: ascii "quality=")))) ∧
      ascii "multipartmux boundary=--videoboundary ! " = ascii "multipartmux" ++ 32 ::
        (ascii "boundary=--videoboundary" ++ 32 :: (ascii "!" ++ [32])) ∧
      ascii " ! multipartmux boundary=--videoboundary" = 32 :: (ascii "!" ++ 32 ::
        (ascii "multipartmux" ++ 32 :: ascii "boundary=--videoboundary")) ∧
      ascii "tcpserversink host=" = ascii "tcpserversink" ++ 32 :: ascii "host=" ∧
      ascii " ! tcpserversink host=" = 32 :: (ascii "!" ++ 32 ::
        (ascii "tcpserversink" ++ 32 :: ascii "host=")) ∧
      ascii " port=" = 32 :: ascii "port=" ∧ ascii " sync=false" = 32 :: ascii "sync=false" := by
  decide +kernel

theorem command_eq (c : VideoOptions) : c.command = [32].intercalate c.texts.argv := by
  simp only [VideoOptions.command, PipelineTexts.argv, PipelineTexts.words, template, pieces,
    List.map_cons, List.map_nil, List.flatMap_cons, List.flatMap_nil, Piece.text,
    VideoOptions.texts, List.intercalate_cons_cons, List.intercalate_singleton, List.append_assoc,
    List.cons_append, List.nil_append, List.append_nil]

theorem pipeline_eq (t : PipelineTexts) : pipeline t = [32].intercalate t.words := by
  unfold pipeline PipelineTexts.words template
  simp only [pieces, List.map_cons, List.map_nil, List.flatMap_cons, List.flatMap_nil, Piece.text,
    List.intercalate_cons_cons, List.intercalate_singleton, List.append_assoc, List.cons_append,
    List.nil_append, List.append_nil]

/-! ### The settings in the words -/

/-- A decimal text is made of digits and a sign. -/
theorem mem_decimal {P : UInt8 → Prop} {n : Int} (hsign : P 45)
    (hdigits : ∀ d : Fin 10, P (digitCode d)) : ∀ c ∈ decimal n, P c := by
  have hnat : ∀ c ∈ decimalNat n.natAbs, P c := by
    intro c hc
    obtain ⟨d, rfl⟩ := mem_decimalNat hc
    exact hdigits d
  unfold decimal
  split
  · exact List.forall_mem_cons.mpr ⟨hsign, hnat⟩
  · exact hnat

/-- What holds of signs and digits holds of a configuration where it holds of its two texts. -/
theorem texts_forall_iff {P : UInt8 → Prop} (hsign : P 45)
    (hdigits : ∀ d : Fin 10, P (digitCode d)) (c : VideoOptions) :
    (∀ name, ∀ ch ∈ c.texts name, P ch) ↔ ∀ text ∈ [c.device, c.host], ∀ ch ∈ text, P ch := by
  constructor
  · intro h text htext
    simp only [List.mem_cons, List.not_mem_nil, or_false] at htext
    rcases htext with rfl | rfl
    · exact h .device
    · exact h .host
  · intro h name
    have hnumber : ∀ n, ∀ ch ∈ decimal n, P ch := fun n => mem_decimal hsign hdigits
    cases name with
    | device => exact h c.device (by simp)
    | host => exact h c.host (by simp)
    | width => exact hnumber _
    | height => exact hnumber _
    | fps => exact hnumber _
    | port => exact hnumber _
    | quality => exact hnumber _

/-- The word of the format, which has three settings. -/
theorem format_inj {w h f w' h' f' : Bytes} (hw : 44 ∉ w) (hh : 44 ∉ h) (hf : 44 ∉ f)
    (heq : w ++ 44 :: (h ++ 44 :: f) = w' ++ 44 :: (h' ++ 44 :: f')) :
    w = w' ∧ h = h' ∧ f = f' := by
  -- both sides have two commas, so none is in a part
  have hcount := congrArg (List.count 44) heq
  simp only [List.count_append, List.count_cons_self, List.count_eq_zero_of_not_mem hw,
    List.count_eq_zero_of_not_mem hh, List.count_eq_zero_of_not_mem hf] at hcount
  have hparts : ∀ {u v x : Bytes}, 44 ∉ u → 44 ∉ v → 44 ∉ x →
      (u ++ 44 :: (v ++ 44 :: x)).splitOn 44 = [u, v, x] := by
    intro u v x hu hv hx
    rw [List.splitOn_append_cons_self_of_not_mem hu, List.splitOn_append_cons_self_of_not_mem hv,
      List.splitOn_eq_singleton hx]
  have hsplit := congrArg (List.splitOn 44) heq
  rw [hparts hw hh hf, hparts (List.count_eq_zero.mp (by omega)) (List.count_eq_zero.mp (by omega))
    (List.count_eq_zero.mp (by omega))] at hsplit
  simpa using hsplit

/-- The words of a pipeline without commas in its numbers determine its texts. -/
theorem words_inj {t t' : PipelineTexts} (ht : ∀ name, name ∉ [.device, .host] → 44 ∉ t name)
    (h : t.words = t'.words) : t = t' := by
  unfold PipelineTexts.words template at h
  simp only [List.map_cons, List.flatMap_cons, List.flatMap_nil, Piece.text, List.append_nil,
    List.cons.injEq, List.append_cancel_left_eq] at h
  obtain ⟨-, hdevice, -, hformat, -, -, -, -, hquality, -, -, -, -, -, hhost, hport, -⟩ := h
  have hheight : ascii ",height=" = 44 :: ascii "height=" := by decide
  have hframerate : ascii ",framerate=" = 44 :: ascii "framerate=" := by decide
  have hfree : 44 ∉ ascii "height=" ∧ 44 ∉ ascii "framerate=" ∧ 44 ∉ ascii "/1" := by decide
  rw [hheight, hframerate, List.cons_append, List.cons_append, List.cons_append, List.cons_append,
    ← List.append_assoc (ascii "height="), ← List.append_assoc (ascii "height=")] at hformat
  obtain ⟨hw, hh, hf⟩ := format_inj (ht .width (by decide))
    (by simp [hfree, ht .height (by decide)]) (by simp [hfree, ht .fps (by decide)]) hformat
  funext name
  cases name with
  | device => exact hdevice
  | width => exact hw
  | height => exact List.append_cancel_left hh
  | fps => exact List.append_cancel_right (List.append_cancel_left hf)
  | port => exact hport
  | quality => exact hquality
  | host => exact hhost

/-! ### The launches -/

/-- The values of an `int`. -/
abbrev IsInt (n : Int) : Prop := -2147483648 ≤ n ∧ n ≤ 2147483647

theorem isInt_of_stoi {v : Bytes} {n : Int} (h : stoi v = some n) : IsInt n := by
  unfold stoi at h
  cases hread : strtoll v with
  | none =>
    rw [hread] at h
    cases h
  | some value =>
    rw [hread] at h
    dsimp only at h
    split at h
    · next hrange =>
      cases h
      exact hrange
    · cases h

/-- `std::stoi` reads back what `std::to_string` writes. -/
theorem stoi_decimal {n : Int} (h : IsInt n) : stoi (decimal n) = some n := by
  have hread : strtoll (decimal n) = some n := by
    refine strtoll_decimal ?_
    unfold longLongMin longLongMax
    exact ⟨by have := h.1; omega, by have := h.2; omega⟩
  unfold stoi
  rw [hread]
  exact if_pos h

theorem isInt_of_numberOr {default n : Int} {v : Option Bytes} (hdefault : IsInt default)
    (h : some n = numberOr default v) : IsInt n := by
  cases v with
  | none =>
    cases h
    exact hdefault
  | some v => exact isInt_of_stoi h.symm

/-- The numbers of a configuration. -/
def VideoOptions.numbers (c : VideoOptions) : List Int :=
  [c.width, c.height, c.framerate, c.port, c.quality]

/-- The numbers that come from the option loop are of type `int`. -/
theorem isInt_of_parsed {args : List Bytes} {c : VideoOptions} (h : Parsed args c) :
    ∀ n ∈ c.numbers, IsInt n := by
  have hresolution : IsInt c.width ∧ IsInt c.height := by
    have hres := h.resolution
    cases hlast : lastResolution args with
    | none =>
      rw [hlast] at hres
      obtain ⟨hw, hh⟩ := Prod.mk.inj (Option.some.inj hres)
      rw [hw, hh]
      decide
    | some last =>
      obtain ⟨name, v⟩ := last
      rw [hlast] at hres
      cases name with
      | width =>
        obtain ⟨w, hw, heq⟩ := Option.map_eq_some_iff.mp hres.symm
        obtain ⟨rfl, hh⟩ := Prod.mk.inj heq
        exact ⟨isInt_of_stoi hw, by rw [← hh]; decide⟩
      | _ =>
        obtain ⟨n, hn, heq⟩ := Option.map_eq_some_iff.mp hres.symm
        obtain ⟨hw, rfl⟩ := Prod.mk.inj heq
        exact ⟨by rw [← hw]; decide, isInt_of_stoi hn⟩
  have hframerate : IsInt c.framerate := isInt_of_numberOr (by decide) h.framerate
  have hport : IsInt c.port := isInt_of_numberOr (by decide) h.port
  have hquality : IsInt c.quality := isInt_of_numberOr (by decide) h.quality
  simp only [VideoOptions.numbers, List.forall_mem_cons]
  exact ⟨hresolution.1, hresolution.2, hframerate, hport, hquality, nofun⟩

/-- A text without characters that mean something to a shell, besides semicolons and blanks. -/
abbrev Unquoted (text : Bytes) : Prop := ∀ ch ∈ text, isShellSpecial ch = false

/-- The same for a value that a command expands. -/
abbrev NoPattern (text : Bytes) : Prop := ∀ ch ∈ text, isPattern ch = false

/-- The device and the host are words of the controller's text. -/
def VideoOptions.Whole (c : VideoOptions) : Prop :=
  ∀ text ∈ [c.device, c.host], ∀ ch ∈ text, isBlank ch = false ∧ isSemicolon ch = false

/-- The values are words of the service's pipeline. -/
def VideoEnvironment.Whole (e : VideoEnvironment) : Prop :=
  ∀ name, ∀ ch ∈ e.texts name, isIfs ch = false

/-- What a configuration and an environment launch: `gst-launch-1.0` alone, with every setting in
its place, exactly when no setting can be split; and then the same process exactly when their texts
are the same. -/
structure Launches (c : VideoOptions) (e : VideoEnvironment) : Prop where
  controller : c.launched = some [c.texts.argv] ↔ c.Whole
  service : e.launched = some e.texts.argv ↔ e.Whole
  same : c.Whole → e.Whole → (c.launched = e.launched.map ([·]) ↔ c.texts = e.texts)
  numbers : ∀ n ∈ c.numbers, stoi (decimal n) = some n

/-- The fixed pieces hold no character that a shell reads as anything else. -/
theorem template_plain : ∀ w ∈ template, ∀ text, .fixed text ∈ w →
    ∀ ch ∈ text, isShellSpecial ch = false ∧ isIfs ch = false ∧ isSemicolon ch = false := by
  have hall : ∀ w ∈ template, ∀ piece ∈ w, ∀ ch ∈ piece.text fun _ => [],
      isShellSpecial ch = false ∧ isIfs ch = false ∧ isSemicolon ch = false := by decide +kernel
  intro w hw text htext
  exact hall w hw _ htext

/-- Nor do the numbers. -/
theorem number_plain : (isShellSpecial 45 = false ∧ isIfs 45 = false ∧ isSemicolon 45 = false) ∧
    ∀ d : Fin 10, isShellSpecial (digitCode d) = false ∧ isIfs (digitCode d) = false ∧
      isSemicolon (digitCode d) = false := by
  decide

theorem isBlank_of_isIfs {ch : UInt8} (h : isIfs ch = false) : isBlank ch = false :=
  (Bool.or_eq_false_iff.mp h).1

theorem isPattern_of_isShellSpecial {ch : UInt8} (h : isShellSpecial ch = false) :
    isPattern ch = false := by
  unfold isShellSpecial at h
  unfold isPattern
  simp only [List.contains_eq_mem, decide_eq_false_iff_not] at h ⊢
  intro hmem
  refine h ?_
  revert hmem
  simp only [List.mem_cons, List.not_mem_nil, or_false]
  tauto

/-- The words of a configuration, one of which is the program. -/
theorem argv_forall_iff {P : UInt8 → Prop} (t : PipelineTexts)
    (hprogram : ∀ ch ∈ ascii "gst-launch-1.0", P ch)
    (hfixed : ∀ w ∈ template, ∀ text, .fixed text ∈ w → ∀ ch ∈ text, P ch) :
    (∀ w ∈ t.argv, ∀ ch ∈ w, P ch) ↔ ∀ name, ∀ ch ∈ t name, P ch := by
  unfold PipelineTexts.argv
  rw [List.forall_mem_cons, PipelineTexts.words_forall_iff t hfixed]
  exact and_iff_right hprogram

theorem program_plain : ∀ ch ∈ ascii "gst-launch-1.0",
    isShellSpecial ch = false ∧ isIfs ch = false ∧ isSemicolon ch = false := by
  decide +kernel

/-- The shell runs the one command of the controller exactly when its two texts are words. -/
theorem launched_controller_iff {c : VideoOptions} (hdevice : Unquoted c.device)
    (hhost : Unquoted c.host) : c.launched = some [c.texts.argv] ↔ c.Whole := by
  have hunquoted : ∀ text ∈ [c.device, c.host], ∀ ch ∈ text, isShellSpecial ch = false :=
    List.forall_mem_cons.mpr ⟨hdevice, List.forall_mem_singleton.mpr hhost⟩
  have htexts := (texts_forall_iff number_plain.1.1 (fun d => (number_plain.2 d).1) c).mpr hunquoted
  have hplain := (argv_forall_iff c.texts (fun ch hch => (program_plain ch hch).1)
    fun w hw text htext ch hch => (template_plain w hw text htext ch hch).1).mpr htexts
  have hfilled : ∀ w ∈ c.texts.argv, w ≠ [] :=
    List.forall_mem_cons.mpr ⟨by decide, PipelineTexts.words_ne_nil c.texts⟩
  have hne : c.texts.argv ≠ [] := List.cons_ne_nil _ _
  unfold VideoOptions.launched
  rw [command_eq, shellCommands_intercalate_iff hne hfilled hplain]
  refine (argv_forall_iff c.texts (fun ch hch => ?_) fun w hw text htext ch hch => ?_).trans
    (texts_forall_iff ?_ (fun d => ?_) c)
  · exact ⟨isBlank_of_isIfs (program_plain ch hch).2.1, (program_plain ch hch).2.2⟩
  · obtain ⟨-, hifs, hsemicolon⟩ := template_plain w hw text htext ch hch
    exact ⟨isBlank_of_isIfs hifs, hsemicolon⟩
  · exact ⟨isBlank_of_isIfs number_plain.1.2.1, number_plain.1.2.2⟩
  · exact ⟨isBlank_of_isIfs (number_plain.2 d).2.1, (number_plain.2 d).2.2⟩

/-- The service runs the pipeline of its environment exactly when every value of it is a word. -/
theorem launched_service_iff {e : VideoEnvironment} (henv : ∀ name, NoPattern (e.texts name)) :
    e.launched = some e.texts.argv ↔ e.Whole := by
  have hplain := (PipelineTexts.words_forall_iff e.texts fun w hw text htext ch hch =>
    isPattern_of_isShellSpecial (template_plain w hw text htext ch hch).1).mpr henv
  have hcons : Function.Injective fun words : List Bytes => ascii "gst-launch-1.0" :: words :=
    fun _ _ h => (List.cons.inj h).2
  have hwords : e.launched = some e.texts.argv ↔
      expandUnquoted (pipeline e.texts) = some e.texts.words := by
    unfold VideoEnvironment.launched
    exact (Option.map_injective hcons).eq_iff (b := some e.texts.words)
  rw [hwords, pipeline_eq,
    expandUnquoted_intercalate_iff (PipelineTexts.words_ne_nil e.texts) hplain]
  exact PipelineTexts.words_forall_iff e.texts fun w hw text htext ch hch =>
    (template_plain w hw text htext ch hch).2.1

/-- The numbers of a configuration have no comma. -/
theorem comma_not_mem_texts (c : VideoOptions) {name : OptionName}
    (hname : name ∉ [.device, .host]) : 44 ∉ c.texts name := by
  have hnumber : ∀ n, 44 ∉ decimal n := fun n h =>
    mem_decimal (P := (· ≠ 44)) (by decide) (by decide) 44 h rfl
  cases name with
  | device => exact absurd hname (by decide)
  | host => exact absurd hname (by decide)
  | width => exact hnumber _
  | height => exact hnumber _
  | fps => exact hnumber _
  | port => exact hnumber _
  | quality => exact hnumber _

/-- The two ways to start a pipeline, for every list of options that the controller accepts and
every environment of the service. -/
theorem launches (args : List Bytes) (c : VideoOptions) (e : VideoEnvironment)
    (hargs : parseOptions args = some c) (hdevice : Unquoted c.device) (hhost : Unquoted c.host)
    (henv : ∀ name, NoPattern (e.texts name)) : Launches c e where
  controller := launched_controller_iff hdevice hhost
  service := launched_service_iff henv
  same hc he := by
    rw [(launched_controller_iff hdevice hhost).mpr hc, (launched_service_iff henv).mpr he,
      Option.map_some]
    constructor
    · intro h
      have hargv := List.singleton_inj.mp (Option.some.inj h)
      exact words_inj (fun name hname => comma_not_mem_texts c hname) (List.cons.inj hargv).2
    · intro h
      rw [h]
  numbers n hn := stoi_decimal (isInt_of_parsed (parsed_of_parseOptions hargs) n hn)

/-- The defaults of the controller and those of the service. -/
theorem launches_defaults : Launches {} {} :=
  launches [] {} {} rfl (by decide +kernel) (by decide +kernel) fun name => by
    cases name <;> decide +kernel

end EmbeddedCar.Video
