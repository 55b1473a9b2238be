import EmbeddedCar.Text.CString
import Mathlib.Data.List.Induction
import Mathlib.Tactic.SplitIfs

/-!
# The options of `gstreamer_controller`

The option loop of `main` and the setters it calls. An option sets its own field and leaves the
others as they are, with one exception: `--width=` and `--height=` go through `setResolution`,
which writes both, and each puts the default in place of the other.
-/

namespace EmbeddedCar.Video

open EmbeddedCar.Text

/-- The configuration of `VideoStreamController` (`gstreamer_controller.cpp:18-24`). -/
structure VideoOptions where
  device : Bytes := ascii "/dev/video0"
  width : Int := 640
  height : Int := 480
  framerate : Int := 30
  port : Int := 8080
  quality : Int := 85
  host : Bytes := ascii "0.0.0.0"
  deriving DecidableEq

namespace VideoOptions

def setDevice (c : VideoOptions) (dev : Bytes) : VideoOptions := { c with device := dev }

def setResolution (c : VideoOptions) (w h : Int) : VideoOptions :=
  { c with width := w, height := h }

def setFramerate (c : VideoOptions) (fps : Int) : VideoOptions := { c with framerate := fps }

def setPort (c : VideoOptions) (p : Int) : VideoOptions := { c with port := p }

def setQuality (c : VideoOptions) (q : Int) : VideoOptions := { c with quality := q }

def setHost (c : VideoOptions) (h : Bytes) : VideoOptions := { c with host := h }

end VideoOptions

/-- `std::stoi`; `none` is `std::invalid_argument` or `std::out_of_range`. -/
def stoi (text : Bytes) : Option Int :=
  match strtoll text with
  | none => none
  | some value => if -2147483648 ≤ value ∧ value ≤ 2147483647 then some value else none

/-- One turn of the option loop (`gstreamer_controller.cpp:206-222`); `none` is an exception. -/
def applyOption (c : VideoOptions) (arg : Bytes) : Option VideoOptions :=
  if arg.take 9 = ascii "--device=" then some (c.setDevice (arg.drop 9))
  else if arg.take 8 = ascii "--width=" then
    (stoi (arg.drop 8)).map fun w => c.setResolution w 480
  else if arg.take 9 = ascii "--height=" then
    (stoi (arg.drop 9)).map fun h => c.setResolution 640 h
  else if arg.take 6 = ascii "--fps=" then (stoi (arg.drop 6)).map c.setFramerate
  else if arg.take 7 = ascii "--port=" then (stoi (arg.drop 7)).map c.setPort
  else if arg.take 10 = ascii "--quality=" then (stoi (arg.drop 10)).map c.setQuality
  else if arg.take 7 = ascii "--host=" then some (c.setHost (arg.drop 7))
  else some c

/-- The option loop, over `argv[2]`, `argv[3]`, .. (`gstreamer_controller.cpp:205-223`). -/
def parseOptions (args : List Bytes) : Option VideoOptions := args.foldlM applyOption {}

/-! ## Options by name -/

inductive OptionName where
  | device
  | width
  | height
  | fps
  | port
  | quality
  | host
  deriving DecidableEq

/-- The text an option begins with. -/
def OptionName.flag : OptionName → Bytes
  | .device => ascii "--device="
  | .width => ascii "--width="
  | .height => ascii "--height="
  | .fps => ascii "--fps="
  | .port => ascii "--port="
  | .quality => ascii "--quality="
  | .host => ascii "--host="

/-- The text of the value, where the argument is this option. -/
def OptionName.valueIn (name : OptionName) (arg : Bytes) : Option Bytes :=
  if arg.take name.flag.length = name.flag then some (arg.drop name.flag.length) else none

/-- What an option does with the text of its value. -/
def OptionName.set (c : VideoOptions) : OptionName → Bytes → Option VideoOptions
  | .device, v => some (c.setDevice v)
  | .width, v => (stoi v).map fun w => c.setResolution w 480
  | .height, v => (stoi v).map fun h => c.setResolution 640 h
  | .fps, v => (stoi v).map c.setFramerate
  | .port, v => (stoi v).map c.setPort
  | .quality, v => (stoi v).map c.setQuality
  | .host, v => some (c.setHost v)

/-- Two arguments that are not the same option. -/
def DifferentNames (a b : Bytes) : Prop :=
  ∀ name : OptionName, name.valueIn a = none ∨ name.valueIn b = none

/-- No option is the beginning of another one. -/
theorem flag_prefix_eq {name other : OptionName} (h : name.flag <+: other.flag) : name = other := by
  cases name <;> cases other <;> first | rfl | exact absurd h (by decide)

theorem flag_prefix_of_valueIn {name : OptionName} {arg v : Bytes}
    (h : name.valueIn arg = some v) : name.flag <+: arg := by
  unfold OptionName.valueIn at h
  split_ifs at h with hflag
  rw [← hflag]
  exact List.take_prefix _ _

/-- An argument is at most one option. -/
theorem valueIn_other {name other : OptionName} {arg v : Bytes} (h : name.valueIn arg = some v)
    (hne : other ≠ name) : other.valueIn arg = none := by
  cases hother : other.valueIn arg with
  | none => rfl
  | some w =>
    exfalso
    have hname := flag_prefix_of_valueIn h
    have hprefix := flag_prefix_of_valueIn hother
    rcases List.prefix_or_prefix_of_prefix hprefix hname with hle | hle
    · exact hne (flag_prefix_eq hle)
    · exact hne (flag_prefix_eq hle).symm

/-- A turn of the loop sets what one option sets, or it ignores the argument. -/
theorem applyOption_cases (c : VideoOptions) (arg : Bytes) :
    (∃ name v, name.valueIn arg = some v ∧ applyOption c arg = OptionName.set c name v) ∨
      ((∀ name : OptionName, name.valueIn arg = none) ∧ applyOption c arg = some c) := by
  unfold applyOption
  split_ifs with hdevice hwidth hheight hfps hport hquality hhost
  · exact .inl ⟨.device, _, if_pos hdevice, rfl⟩
  · exact .inl ⟨.width, _, if_pos hwidth, rfl⟩
  · exact .inl ⟨.height, _, if_pos hheight, rfl⟩
  · exact .inl ⟨.fps, _, if_pos hfps, rfl⟩
  · exact .inl ⟨.port, _, if_pos hport, rfl⟩
  · exact .inl ⟨.quality, _, if_pos hquality, rfl⟩
  · exact .inl ⟨.host, _, if_pos hhost, rfl⟩
  · refine .inr ⟨fun name => ?_, rfl⟩
    cases name with
    | device => exact if_neg hdevice
    | width => exact if_neg hwidth
    | height => exact if_neg hheight
    | fps => exact if_neg hfps
    | port => exact if_neg hport
    | quality => exact if_neg hquality
    | host => exact if_neg hhost

/-! ## Last occurrences -/

/-- The last value that `f` finds in a list. -/
def lastMatch {α β : Type*} (f : α → Option β) (l : List α) : Option β := (l.filterMap f).getLast?

theorem lastMatch_concat {α β : Type*} (f : α → Option β) (l : List α) (a : α) :
    lastMatch f (l ++ [a]) = (f a).or (lastMatch f l) := by
  unfold lastMatch
  rw [List.filterMap_append, List.getLast?_append]
  cases h : f a with
  | none => simp [h]
  | some b => simp [h]

theorem lastMatch_append {α β : Type*} (f : α → Option β) (l m : List α) :
    lastMatch f (l ++ m) = (lastMatch f m).or (lastMatch f l) := by
  unfold lastMatch
  rw [List.filterMap_append, List.getLast?_append]

/-- Two neighbours of which at most one is found can be swapped. -/
theorem lastMatch_swap {α β : Type*} {f : α → Option β} {a b : α} (h : f a = none ∨ f b = none)
    (pre post : List α) :
    lastMatch f (pre ++ b :: a :: post) = lastMatch f (pre ++ a :: b :: post) := by
  unfold lastMatch
  rcases h with h | h
  · simp [h]
  · simp [h]

/-- The value of the last occurrence of an option. -/
def lastValue (name : OptionName) (args : List Bytes) : Option Bytes := lastMatch name.valueIn args

/-- An option with a number, or its default. -/
def numberOr (default : Int) : Option Bytes → Option Int
  | none => some default
  | some v => stoi v

/-- Every field is the last occurrence of its option, or its default. -/
structure FieldsRight (args : List Bytes) (c : VideoOptions) : Prop where
  device : c.device = (lastValue .device args).getD (ascii "/dev/video0")
  width : some c.width = numberOr 640 (lastValue .width args)
  height : some c.height = numberOr 480 (lastValue .height args)
  framerate : some c.framerate = numberOr 30 (lastValue .fps args)
  port : some c.port = numberOr 8080 (lastValue .port args)
  quality : some c.quality = numberOr 85 (lastValue .quality args)
  host : c.host = (lastValue .host args).getD (ascii "0.0.0.0")

/-- Swapping two neighbours with different names gives the same configuration. -/
def SwapsKeep (args : List Bytes) (c : VideoOptions) : Prop :=
  ∀ pre a b post, args = pre ++ a :: b :: post → DifferentNames a b →
    parseOptions (pre ++ b :: a :: post) = some c

/-! ## The resolution -/

/-- An option that sets the resolution, with the text of its value. -/
def resolutionIn (arg : Bytes) : Option (OptionName × Bytes) :=
  match OptionName.width.valueIn arg with
  | some v => some (.width, v)
  | none => (OptionName.height.valueIn arg).map fun v => (.height, v)

/-- The last occurrence of `--width=` or `--height=`. -/
def lastResolution (args : List Bytes) : Option (OptionName × Bytes) := lastMatch resolutionIn args

/-- The width and the height the last of the two leaves. -/
def resolutionOf : Option (OptionName × Bytes) → Option (Int × Int)
  | none => some (640, 480)
  | some (.width, v) => (stoi v).map fun w => (w, 480)
  | some (_, v) => (stoi v).map fun h => (640, h)

theorem resolutionIn_of_width {arg v : Bytes} (h : OptionName.width.valueIn arg = some v) :
    resolutionIn arg = some (.width, v) := by
  unfold resolutionIn
  rw [h]

theorem resolutionIn_of_height {arg v : Bytes} (h : OptionName.height.valueIn arg = some v) :
    resolutionIn arg = some (.height, v) := by
  have hwidth : OptionName.width.valueIn arg = none := valueIn_other h (by decide)
  unfold resolutionIn
  rw [hwidth, h]
  rfl

theorem resolutionIn_of_other {arg : Bytes} (hwidth : OptionName.width.valueIn arg = none)
    (hheight : OptionName.height.valueIn arg = none) : resolutionIn arg = none := by
  unfold resolutionIn
  rw [hwidth, hheight]
  rfl

/-- The last option of the two is the last one of its name. -/
theorem lastResolution_cases (args : List Bytes) :
    (lastResolution args = none ∧ lastValue .width args = none ∧ lastValue .height args = none) ∨
      (∃ v, lastResolution args = some (.width, v) ∧ lastValue .width args = some v) ∨
      ∃ v, lastResolution args = some (.height, v) ∧ lastValue .height args = some v := by
  induction args using List.reverseRecOn with
  | nil => exact .inl ⟨rfl, rfl, rfl⟩
  | append_singleton args arg ih =>
    unfold lastResolution lastValue at *
    simp only [lastMatch_concat]
    cases hwidth : OptionName.width.valueIn arg with
    | some v =>
      rw [resolutionIn_of_width hwidth]
      exact .inr (.inl ⟨v, rfl, rfl⟩)
    | none =>
      cases hheight : OptionName.height.valueIn arg with
      | some v =>
        rw [resolutionIn_of_height hheight]
        exact .inr (.inr ⟨v, rfl, rfl⟩)
      | none =>
        rw [resolutionIn_of_other hwidth hheight]
        exact ih

/-- What the loop makes of the arguments, read off their last occurrences. -/
structure Parsed (args : List Bytes) (c : VideoOptions) : Prop where
  device : c.device = (lastValue .device args).getD (ascii "/dev/video0")
  resolution : some (c.width, c.height) = resolutionOf (lastResolution args)
  framerate : some c.framerate = numberOr 30 (lastValue .fps args)
  port : some c.port = numberOr 8080 (lastValue .port args)
  quality : some c.quality = numberOr 85 (lastValue .quality args)
  host : c.host = (lastValue .host args).getD (ascii "0.0.0.0")

/-- The last occurrences after one more argument that is an option. -/
theorem lastValue_concat {name : OptionName} {arg v : Bytes} (h : name.valueIn arg = some v)
    (args : List Bytes) (other : OptionName) :
    lastValue other (args ++ [arg]) = if other = name then some v else lastValue other args := by
  unfold lastValue
  rw [lastMatch_concat]
  split_ifs with heq
  · subst heq
    rw [h]
    rfl
  · rw [valueIn_other h heq]
    rfl

theorem lastResolution_concat {arg : Bytes} (args : List Bytes) :
    lastResolution (args ++ [arg]) = (resolutionIn arg).or (lastResolution args) :=
  lastMatch_concat resolutionIn args arg

/-- An option that is neither `--width=` nor `--height=`. -/
theorem lastResolution_other {name : OptionName} {arg v : Bytes} (h : name.valueIn arg = some v)
    (args : List Bytes) (hwidth : .width ≠ name) (hheight : .height ≠ name) :
    lastResolution (args ++ [arg]) = lastResolution args := by
  rw [lastResolution_concat,
    resolutionIn_of_other (valueIn_other h hwidth) (valueIn_other h hheight)]
  rfl

/-- One turn of the loop, by the name of the option. -/
theorem parsed_set {args : List Bytes} {c c' : VideoOptions} {name : OptionName} {arg v : Bytes}
    (h : Parsed args c) (hname : name.valueIn arg = some v)
    (hset : OptionName.set c name v = some c') : Parsed (args ++ [arg]) c' := by
  have hlast := lastValue_concat hname args
  cases name with
  | device =>
    cases hset
    have hres := lastResolution_other hname args (by decide) (by decide)
    exact ⟨by rw [hlast]; rfl, by rw [hres]; exact h.resolution, by rw [hlast]; exact h.framerate,
      by rw [hlast]; exact h.port, by rw [hlast]; exact h.quality, by rw [hlast]; exact h.host⟩
  | host =>
    cases hset
    have hres := lastResolution_other hname args (by decide) (by decide)
    exact ⟨by rw [hlast]; exact h.device, by rw [hres]; exact h.resolution,
      by rw [hlast]; exact h.framerate, by rw [hlast]; exact h.port,
      by rw [hlast]; exact h.quality, by rw [hlast]; rfl⟩
  | width =>
    obtain ⟨w, hw, rfl⟩ := Option.map_eq_some_iff.mp hset
    have hres : some (w, (480 : Int)) = resolutionOf (lastResolution (args ++ [arg])) := by
      rw [lastResolution_concat, resolutionIn_of_width hname]
      simp [resolutionOf, hw]
    exact ⟨by rw [hlast]; exact h.device, hres, by rw [hlast]; exact h.framerate,
      by rw [hlast]; exact h.port, by rw [hlast]; exact h.quality, by rw [hlast]; exact h.host⟩
  | height =>
    obtain ⟨n, hn, rfl⟩ := Option.map_eq_some_iff.mp hset
    have hres : some ((640 : Int), n) = resolutionOf (lastResolution (args ++ [arg])) := by
      rw [lastResolution_concat, resolutionIn_of_height hname]
      simp [resolutionOf, hn]
    exact ⟨by rw [hlast]; exact h.device, hres, by rw [hlast]; exact h.framerate,
      by rw [hlast]; exact h.port, by rw [hlast]; exact h.quality, by rw [hlast]; exact h.host⟩
  | fps =>
    obtain ⟨n, hn, rfl⟩ := Option.map_eq_some_iff.mp hset
    have hres := lastResolution_other hname args (by decide) (by decide)
    exact ⟨by rw [hlast]; exact h.device, by rw [hres]; exact h.resolution,
      by rw [hlast]; exact hn.symm, by rw [hlast]; exact h.port,
      by rw [hlast]; exact h.quality, by rw [hlast]; exact h.host⟩
  | port =>
    obtain ⟨n, hn, rfl⟩ := Option.map_eq_some_iff.mp hset
    have hres := lastResolution_other hname args (by decide) (by decide)
    exact ⟨by rw [hlast]; exact h.device, by rw [hres]; exact h.resolution,
      by rw [hlast]; exact h.framerate, by rw [hlast]; exact hn.symm,
      by rw [hlast]; exact h.quality, by rw [hlast]; exact h.host⟩
  | quality =>
    obtain ⟨n, hn, rfl⟩ := Option.map_eq_some_iff.mp hset
    have hres := lastResolution_other hname args (by decide) (by decide)
    exact ⟨by rw [hlast]; exact h.device, by rw [hres]; exact h.resolution,
      by rw [hlast]; exact h.framerate, by rw [hlast]; exact h.port,
      by rw [hlast]; exact hn.symm, by rw [hlast]; exact h.host⟩

/-- An argument that is no option is passed over. -/
theorem parsed_ignored {args : List Bytes} {c : VideoOptions} {arg : Bytes} (h : Parsed args c)
    (hnone : ∀ name : OptionName, name.valueIn arg = none) : Parsed (args ++ [arg]) c := by
  have hlast : ∀ name, lastValue name (args ++ [arg]) = lastValue name args := by
    intro name
    unfold lastValue
    rw [lastMatch_concat, hnone name]
    rfl
  have hres : lastResolution (args ++ [arg]) = lastResolution args := by
    rw [lastResolution_concat, resolutionIn_of_other (hnone .width) (hnone .height)]
    rfl
  exact ⟨by rw [hlast]; exact h.device, by rw [hres]; exact h.resolution,
    by rw [hlast]; exact h.framerate, by rw [hlast]; exact h.port,
    by rw [hlast]; exact h.quality, by rw [hlast]; exact h.host⟩

/-- The whole loop. -/
theorem parsed_of_parseOptions {args : List Bytes} {c : VideoOptions}
    (h : parseOptions args = some c) : Parsed args c := by
  induction args using List.reverseRecOn generalizing c with
  | nil =>
    cases h
    exact ⟨rfl, rfl, rfl, rfl, rfl, rfl⟩
  | append_singleton args arg ih =>
    unfold parseOptions at h
    rw [List.foldlM_append] at h
    obtain ⟨before, hbefore, hlast⟩ := Option.bind_eq_some_iff.mp h
    have hturn : applyOption before arg = some c := by simpa using hlast
    have hparsed := ih hbefore
    rcases applyOption_cases before arg with ⟨name, v, hname, happly⟩ | ⟨hnone, happly⟩
    · exact parsed_set hparsed hname (happly ▸ hturn)
    · cases happly.symm.trans hturn
      exact parsed_ignored hparsed hnone

/-- Arguments that agree on the last occurrences make one configuration. -/
theorem Parsed.unique {args args' : List Bytes} {c c' : VideoOptions} (h : Parsed args c)
    (h' : Parsed args' c') (hlast : ∀ name, lastValue name args' = lastValue name args)
    (hres : resolutionOf (lastResolution args') = resolutionOf (lastResolution args)) :
    c' = c := by
  have hresolution := h'.resolution.trans (hres.trans h.resolution.symm)
  have hframerate := h'.framerate.trans ((hlast .fps).symm ▸ h.framerate.symm)
  have hport := h'.port.trans ((hlast .port).symm ▸ h.port.symm)
  have hquality := h'.quality.trans ((hlast .quality).symm ▸ h.quality.symm)
  have hdevice := h'.device.trans ((hlast .device).symm ▸ h.device.symm)
  have hhost := h'.host.trans ((hlast .host).symm ▸ h.host.symm)
  cases c
  cases c'
  simp_all

/-! ## Swapping neighbours -/

/-- Whether an argument can be parsed does not depend on the configuration so far. -/
theorem applyOption_isSome (c c' : VideoOptions) (arg : Bytes) :
    (applyOption c arg).isSome = (applyOption c' arg).isSome := by
  unfold applyOption
  split_ifs <;> simp

/-- A list of arguments is parsed when each of them is. -/
theorem foldlM_isSome (c : VideoOptions) (args : List Bytes) :
    (args.foldlM applyOption c).isSome = args.all fun arg => (applyOption {} arg).isSome := by
  induction args generalizing c with
  | nil => rfl
  | cons arg args ih =>
    rw [List.foldlM_cons, List.all_cons, applyOption_isSome {} c arg]
    cases h : applyOption c arg with
    | none => rfl
    | some next => simpa using ih next

theorem parseOptions_swap_isSome {pre post : List Bytes} {a b : Bytes} {c : VideoOptions}
    (h : parseOptions (pre ++ a :: b :: post) = some c) :
    ∃ c', parseOptions (pre ++ b :: a :: post) = some c' := by
  have hsome : (parseOptions (pre ++ a :: b :: post)).isSome := by rw [h]; rfl
  apply Option.isSome_iff_exists.mp
  unfold parseOptions at hsome ⊢
  rw [foldlM_isSome] at hsome ⊢
  simp only [List.all_append, List.all_cons] at hsome ⊢
  rw [Bool.and_left_comm (applyOption {} b).isSome]
  exact hsome

/-- Neighbours of which one is `--width=` and the other `--height=`, with their values. -/
def ResolutionPair (a b w h : Bytes) : Prop :=
  (OptionName.width.valueIn a = some w ∧ OptionName.height.valueIn b = some h) ∨
    (OptionName.height.valueIn a = some h ∧ OptionName.width.valueIn b = some w)

/-- Neighbours with different names are both seen by the resolution only as such a pair. -/
theorem resolutionPair_of_both {a b : Bytes} (hnames : DifferentNames a b)
    (ha : resolutionIn a ≠ none) (hb : resolutionIn b ≠ none) : ∃ w h, ResolutionPair a b w h := by
  cases hwa : OptionName.width.valueIn a with
  | some w =>
    have hwb : OptionName.width.valueIn b = none := by
      simpa [hwa] using hnames .width
    cases hhb : OptionName.height.valueIn b with
    | some h => exact ⟨w, h, .inl ⟨hwa, hhb⟩⟩
    | none => exact absurd (resolutionIn_of_other hwb hhb) hb
  | none =>
    cases hha : OptionName.height.valueIn a with
    | none => exact absurd (resolutionIn_of_other hwa hha) ha
    | some h =>
      have hhb : OptionName.height.valueIn b = none := by
        simpa [hha] using hnames .height
      cases hwb : OptionName.width.valueIn b with
      | some w => exact ⟨w, h, .inr ⟨hha, hwb⟩⟩
      | none => exact absurd (resolutionIn_of_other hwb hhb) hb

/-- What the resolution is after a pair that no later option overwrites. -/
theorem lastResolution_pair {pre post : List Bytes} {a b : Bytes} {r : OptionName × Bytes}
    (hb : resolutionIn b = some r) (hpost : lastResolution post = none) :
    lastResolution (pre ++ a :: b :: post) = some r := by
  have hsplit : pre ++ a :: b :: post = (pre ++ [a]) ++ [b] ++ post := by simp
  unfold lastResolution at hpost ⊢
  rw [hsplit, lastMatch_append, hpost, lastMatch_concat, hb]
  rfl

/-- A later option overwrites the resolution. -/
theorem lastResolution_later {pre post : List Bytes} {a b : Bytes} {r : OptionName × Bytes}
    (hpost : lastResolution post = some r) : lastResolution (pre ++ a :: b :: post) = some r := by
  have hsplit : pre ++ a :: b :: post = (pre ++ [a, b]) ++ post := by simp
  unfold lastResolution at hpost ⊢
  rw [hsplit, lastMatch_append, hpost]
  rfl

/-! ## When the options do not interfere -/

/-- The last of `--width=` and `--height=` puts the default in place of the other one. Nothing is
lost when the other one asks for that default. -/
structure NoInterference (args : List Bytes) : Prop where
  width : ∀ v, lastResolution args = some (.height, v) →
    numberOr 640 (lastValue .width args) = some 640
  height : ∀ v, lastResolution args = some (.width, v) →
    numberOr 480 (lastValue .height args) = some 480
  pairs : ∀ pre a b post w h, args = pre ++ a :: b :: post → ResolutionPair a b w h →
    lastResolution post = none → stoi w = some 640 ∧ stoi h = some 480

/-- Both fields of the resolution are right when the last option of the two lost nothing. -/
theorem fieldsRight_iff {args : List Bytes} {c : VideoOptions} (h : Parsed args c) :
    FieldsRight args c ↔
      (∀ v, lastResolution args = some (.height, v) →
        numberOr 640 (lastValue .width args) = some 640) ∧
      ∀ v, lastResolution args = some (.width, v) →
        numberOr 480 (lastValue .height args) = some 480 := by
  have hres := h.resolution
  constructor
  · intro hfields
    constructor
    · intro v hlast
      rw [hlast] at hres
      obtain ⟨n, _, hn⟩ := Option.map_eq_some_iff.mp hres.symm
      rw [← hfields.width, ← (Prod.mk.inj hn).1]
    · intro v hlast
      rw [hlast] at hres
      obtain ⟨n, _, hn⟩ := Option.map_eq_some_iff.mp hres.symm
      rw [← hfields.height, ← (Prod.mk.inj hn).2]
  · intro ⟨hwidth, hheight⟩
    have hboth : some c.width = numberOr 640 (lastValue .width args) ∧
        some c.height = numberOr 480 (lastValue .height args) := by
      rcases lastResolution_cases args with ⟨hlast, hnow, hnoh⟩ | ⟨v, hlast, hv⟩ | ⟨v, hlast, hv⟩
      · rw [hlast] at hres
        obtain ⟨hw, hh⟩ := Prod.mk.inj (Option.some.inj hres)
        rw [hnow, hnoh, hw, hh]
        exact ⟨rfl, rfl⟩
      · have hkept := hheight v hlast
        rw [hlast] at hres
        obtain ⟨n, hn, hpair⟩ := Option.map_eq_some_iff.mp hres.symm
        obtain ⟨hw, hh⟩ := Prod.mk.inj hpair
        rw [hkept, hv, ← hw, ← hh]
        exact ⟨hn.symm, rfl⟩
      · have hkept := hwidth v hlast
        rw [hlast] at hres
        obtain ⟨n, hn, hpair⟩ := Option.map_eq_some_iff.mp hres.symm
        obtain ⟨hw, hh⟩ := Prod.mk.inj hpair
        rw [hkept, hv, ← hw, ← hh]
        exact ⟨rfl, hn.symm⟩
    exact ⟨h.device, hboth.1, hboth.2, h.framerate, h.port, h.quality, h.host⟩

/-- The resolution a pair leaves, in either order. -/
theorem resolutionOf_pair {pre post : List Bytes} {a b w h : Bytes} (hpair : ResolutionPair a b w h)
    (hpost : lastResolution post = none) :
    (resolutionOf (lastResolution (pre ++ a :: b :: post)) = (stoi h).map (fun n => (640, n)) ∧
      resolutionOf (lastResolution (pre ++ b :: a :: post)) = (stoi w).map (fun n => (n, 480))) ∨
    (resolutionOf (lastResolution (pre ++ a :: b :: post)) = (stoi w).map (fun n => (n, 480)) ∧
      resolutionOf (lastResolution (pre ++ b :: a :: post)) =
        (stoi h).map (fun n => (640, n))) := by
  rcases hpair with ⟨ha, hb⟩ | ⟨ha, hb⟩
  · have hra := resolutionIn_of_width ha
    have hrb := resolutionIn_of_height hb
    rw [lastResolution_pair hrb hpost, lastResolution_pair hra hpost]
    exact .inl ⟨rfl, rfl⟩
  · have hra := resolutionIn_of_height ha
    have hrb := resolutionIn_of_width hb
    rw [lastResolution_pair hrb hpost, lastResolution_pair hra hpost]
    exact .inr ⟨rfl, rfl⟩

theorem differentNames_of_pair {a b w h : Bytes} (hpair : ResolutionPair a b w h) :
    DifferentNames a b := by
  intro name
  rcases hpair with ⟨ha, hb⟩ | ⟨ha, hb⟩
  · by_cases hname : name = .width
    · exact .inr (valueIn_other hb (by rw [hname]; decide))
    · exact .inl (valueIn_other ha hname)
  · by_cases hname : name = .width
    · exact .inl (valueIn_other ha (by rw [hname]; decide))
    · exact .inr (valueIn_other hb hname)

/-- The two orders of a pair leave the same resolution only if both ask for the defaults. -/
theorem defaults_of_same {w h : Option Int} {r : Int × Int}
    (hwidth : w.map (fun n => (n, 480)) = some r) (hheight : h.map (fun n => (640, n)) = some r) :
    w = some 640 ∧ h = some 480 := by
  obtain ⟨n, hn, rfl⟩ := Option.map_eq_some_iff.mp hwidth
  obtain ⟨m, hm, hpair⟩ := Option.map_eq_some_iff.mp hheight
  obtain ⟨rfl, rfl⟩ := Prod.mk.inj hpair
  exact ⟨hn, hm⟩

/-- A swap changes nothing exactly when the pairs that count ask for the defaults. -/
theorem swapsKeep_iff {args : List Bytes} {c : VideoOptions} (hparse : parseOptions args = some c) :
    SwapsKeep args c ↔
      ∀ pre a b post w h, args = pre ++ a :: b :: post → ResolutionPair a b w h →
        lastResolution post = none → stoi w = some 640 ∧ stoi h = some 480 := by
  have hparsed := parsed_of_parseOptions hparse
  constructor
  · intro hswaps pre a b post w h hargs hpair hpost
    have hswap := hswaps pre a b post hargs (differentNames_of_pair hpair)
    have hswapped := (parsed_of_parseOptions hswap).resolution
    have hkept := hparsed.resolution
    rw [hargs] at hkept
    rcases resolutionOf_pair hpair hpost with ⟨hfirst, hsecond⟩ | ⟨hfirst, hsecond⟩
    · exact defaults_of_same (hsecond.symm.trans hswapped.symm) (hfirst.symm.trans hkept.symm)
    · exact defaults_of_same (hfirst.symm.trans hkept.symm) (hsecond.symm.trans hswapped.symm)
  · intro hpairs pre a b post hargs hnames
    subst hargs
    obtain ⟨c', hparse'⟩ := parseOptions_swap_isSome hparse
    have hparsed' := parsed_of_parseOptions hparse'
    have hlast : ∀ name, lastValue name (pre ++ b :: a :: post) =
        lastValue name (pre ++ a :: b :: post) :=
      fun name => lastMatch_swap (hnames name) pre post
    have hres : resolutionOf (lastResolution (pre ++ b :: a :: post)) =
        resolutionOf (lastResolution (pre ++ a :: b :: post)) := by
      by_cases ha : resolutionIn a = none
      · exact congrArg resolutionOf (lastMatch_swap (.inl ha) pre post)
      by_cases hb : resolutionIn b = none
      · exact congrArg resolutionOf (lastMatch_swap (.inr hb) pre post)
      obtain ⟨w, h, hpair⟩ := resolutionPair_of_both hnames ha hb
      cases hpost : lastResolution post with
      | some r => rw [lastResolution_later hpost, lastResolution_later hpost]
      | none =>
        obtain ⟨hw, hh⟩ := hpairs pre a b post w h rfl hpair hpost
        rcases resolutionOf_pair hpair hpost with ⟨hfirst, hsecond⟩ | ⟨hfirst, hsecond⟩
        · rw [hfirst, hsecond, hw, hh]
          rfl
        · rw [hfirst, hsecond, hw, hh]
          rfl
    rw [hparse', hparsed.unique hparsed' hlast hres]

/-- For arguments whose numbers can be parsed, every field is the last occurrence of its option or
its default, and swapping neighbours changes nothing, exactly when the options that share
`setResolution` do not interfere. -/
theorem options_independent_iff (args : List Bytes) (c : VideoOptions)
    (hparse : parseOptions args = some c) :
    (FieldsRight args c ∧ SwapsKeep args c) ↔ NoInterference args := by
  rw [fieldsRight_iff (parsed_of_parseOptions hparse), swapsKeep_iff hparse]
  constructor
  · intro ⟨⟨hwidth, hheight⟩, hpairs⟩
    exact ⟨hwidth, hheight, hpairs⟩
  · intro h
    exact ⟨⟨h.width, h.height⟩, h.pairs⟩

/-- The height given first is still there after `--fps=`. -/
theorem options_independent_fps :
    NoInterference [ascii "--height=720", ascii "--fps=60"] ↔
      (FieldsRight [ascii "--height=720", ascii "--fps=60"] { height := 720, framerate := 60 } ∧
        SwapsKeep [ascii "--height=720", ascii "--fps=60"] { height := 720, framerate := 60 }) :=
  (options_independent_iff [ascii "--height=720", ascii "--fps=60"]
    { height := 720, framerate := 60 } (by decide)).symm

/-- `start --width=1280 --height=720`, an example of `showUsage`: the width is the default. -/
theorem options_not_independent :
    parseOptions [ascii "--width=1280", ascii "--height=720"] = some { height := 720 } ∧
      ¬FieldsRight [ascii "--width=1280", ascii "--height=720"] { height := 720 } := by
  refine ⟨by decide, ?_⟩
  intro h
  have hwidth : numberOr 640 (lastValue .width [ascii "--width=1280", ascii "--height=720"]) =
      some 1280 := by decide
  exact absurd (h.width.trans hwidth) (by decide)

end EmbeddedCar.Video
