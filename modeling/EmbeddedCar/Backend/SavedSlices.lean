import EmbeddedCar.Backend.FrameStream
import EmbeddedCar.Reactive.Run

/-!
# What a stream leaves in the frame file

The `data` handler of `POST /video/stream` once more, with the calls that can throw. The slice of
a chunk that `jpegData` cuts out is a whole JPEG. An exception of the write or of the
notification ends in the `catch`, which saves the chunk as it came: only a chunk that holds a
JPEG gets there, since nothing throws for the others.
-/

namespace EmbeddedCar.Backend

open EmbeddedCar.Text EmbeddedCar.Reactive

/-- How `fs.writeFileSync` ends. An exception leaves the file as it was, cut or half written. -/
inductive WriteOutcome where
  | written
  | thrown (left : Option Bytes)
  deriving DecidableEq

/-- How `if (global.io) global.io.emit(..)` ends. -/
inductive EmitOutcome where
  | absent
  | sent
  | thrown
  deriving DecidableEq

/-- A chunk, with what its calls do. `retry` is the write in the `catch`. -/
structure Delivery where
  chunk : Bytes
  write : WriteOutcome
  emit : EmitOutcome
  retry : WriteOutcome
  deriving DecidableEq

/-- A `new-stream-frame` notification. -/
structure StreamNotice where
  frameNumber : ℕ
  size : ℕ
  deriving DecidableEq

/-- The handler and its file. `saved` is every value a write has saved. An exception of the
`catch` is handled nowhere: the process ends, and no chunk comes after it. -/
structure StreamState where
  frameFile : Option Bytes
  frameCount : ℕ := 0
  saved : List Bytes := []
  notices : List StreamNotice := []
  uncaught : Bool := false
  deriving DecidableEq

namespace StreamState

/-- A write that succeeds. -/
def wrote (s : StreamState) (value : Bytes) : StreamState :=
  { s with frameFile := some value, saved := s.saved ++ [value] }

/-- `camera.js:119-122`. -/
def catchError (s : StreamState) (d : Delivery) : StreamState :=
  match d.retry with
  | .written => s.wrote d.chunk
  | .thrown left => { s with frameFile := left, uncaught := true }

/-- `camera.js:102-114`, after the write. -/
def notify (s : StreamState) (data : Bytes) (d : Delivery) : StreamState :=
  match d.emit with
  | .absent => s
  | .sent => { s with notices := s.notices ++ [⟨s.frameCount, data.length⟩] }
  | .thrown => s.catchError d

/-- `camera.js:95-118`. -/
def saveFrame (s : StreamState) (d : Delivery) : StreamState :=
  match jpegData d.chunk with
  | none => s
  | some data =>
      match d.write with
      | .written => (s.wrote data).notify data d
      | .thrown left => { s with frameFile := left }.catchError d

/-- `camera.js:81-123`. -/
def step (s : StreamState) (d : Delivery) : StreamState :=
  if s.uncaught then s else { s with frameCount := s.frameCount + 1 }.saveFrame d

end StreamState

/-! ## Whole slices -/

/-- The bytes start with FF D8, end with FF D9 and contain no earlier FF D9. -/
structure IsJpeg (value : Bytes) : Prop where
  start : [0xFF, 0xD8] <+: value
  stop : [0xFF, 0xD9] <:+ value
  first : ∀ before after, value = before ++ 0xFF :: 0xD9 :: after → after = []

/-- A part of the chunk that is a whole JPEG. -/
def JpegSlice (chunk value : Bytes) : Prop := value <:+: chunk ∧ IsJpeg value

/-- What the search cuts out of a chunk is a whole JPEG. -/
theorem jpegSlice_of_jpegData {chunk data : Bytes} (h : jpegData chunk = some data) :
    JpegSlice chunk data := by
  obtain ⟨before, inside, after, hchunk, rfl, -, hfree⟩ := jpegData_some h
  have hslice : 0xFF :: 0xD8 :: (inside ++ [0xFF, 0xD9]) <:+: chunk :=
    ⟨before, after, by simp [hchunk]⟩
  have hstart : [0xFF, 0xD8] <+: 0xFF :: 0xD8 :: (inside ++ [0xFF, 0xD9]) :=
    ⟨inside ++ [0xFF, 0xD9], rfl⟩
  have hstop : [0xFF, 0xD9] <:+ 0xFF :: 0xD8 :: (inside ++ [0xFF, 0xD9]) :=
    ⟨0xFF :: 0xD8 :: inside, rfl⟩
  refine ⟨hslice, hstart, hstop, fun first last heq => ?_⟩
  have hinside : Free 0xFF 0xD9 (0xFF :: 0xD8 :: inside) := hfree.right
  have hpairs : (0xFF :: 0xD8 :: inside) ++ 0xFF :: 0xD9 :: [] = first ++ 0xFF :: 0xD9 :: last := by
    simpa using heq
  rcases pair_cases ff_ne_d9 ff_ne_d9 hinside hpairs with ⟨-, -, hlast⟩ | ⟨between, -, hlast⟩
  · exact hlast.symm
  · simp at hlast

/-! ## One chunk -/

/-- The calls for a chunk end without an exception. -/
def Delivery.Quiet (d : Delivery) : Prop := d.write = .written ∧ d.emit ≠ .thrown

/-- What a chunk does to the file and to the saved values. `sliced` is what was saved before the
`catch`. -/
inductive StreamState.Stepped (s : StreamState) (d : Delivery) (s' : StreamState) : Prop where
  | idle (hfile : s'.frameFile = s.frameFile) (hsaved : s'.saved = s.saved)
      (hidle : s.uncaught = true ∨ jpegData d.chunk = none)
  | slice (data : Bytes) (hdata : jpegData d.chunk = some data) (hquiet : d.Quiet)
      (hfile : s'.frameFile = some data) (hsaved : s'.saved = s.saved ++ [data])
  | whole (data : Bytes) (sliced : List Bytes) (hrunning : s.uncaught = false)
      (hdata : jpegData d.chunk = some data) (hsliced : sliced ⊆ [data]) (hloud : ¬d.Quiet)
      (hretry : d.retry = .written) (hfile : s'.frameFile = some d.chunk)
      (hsaved : s'.saved = s.saved ++ sliced ++ [d.chunk])
  | failed (data : Bytes) (sliced : List Bytes) (left : Option Bytes)
      (hrunning : s.uncaught = false) (hdata : jpegData d.chunk = some data) (hsliced : sliced ⊆ [data])
      (hloud : ¬d.Quiet) (hretry : d.retry = .thrown left) (hfile : s'.frameFile = left)
      (hsaved : s'.saved = s.saved ++ sliced)

theorem StreamState.step_cases (s : StreamState) (d : Delivery) : s.Stepped d (s.step d) := by
  unfold StreamState.step
  cases huncaught : s.uncaught with
  | true => exact .idle rfl rfl (.inl huncaught)
  | false =>
    rw [if_neg (by decide)]
    unfold StreamState.saveFrame
    cases hdata : jpegData d.chunk with
    | none => exact .idle rfl rfl (.inr hdata)
    | some data =>
      cases hwrite : d.write with
      | written =>
        unfold StreamState.notify
        cases hemit : d.emit with
        | absent => exact .slice data hdata ⟨hwrite, by simp [hemit]⟩ rfl rfl
        | sent => exact .slice data hdata ⟨hwrite, by simp [hemit]⟩ rfl rfl
        | thrown =>
          have hloud : ¬d.Quiet := fun hquiet => hquiet.2 hemit
          unfold StreamState.catchError
          cases hretry : d.retry with
          | written =>
            exact .whole data [data] huncaught hdata (List.Subset.refl _) hloud hretry rfl rfl
          | thrown left =>
            exact .failed data [data] left huncaught hdata (List.Subset.refl _) hloud hretry rfl rfl
      | thrown left =>
        have hloud : ¬d.Quiet := fun hquiet => by cases hwrite.symm.trans hquiet.1
        unfold StreamState.catchError
        cases hretry : d.retry with
        | written =>
          exact .whole data [] huncaught hdata (List.nil_subset _) hloud hretry rfl
            (by simp [StreamState.wrote])
        | thrown left =>
          exact .failed data [] left huncaught hdata (List.nil_subset _) hloud hretry rfl (by simp)

/-- Where nothing throws, the file is what `onData` makes of it. -/
theorem StreamState.step_eq_onData {s : StreamState} {d : Delivery} (hrunning : s.uncaught = false)
    (hquiet : d.Quiet) : (s.step d).frameFile = onData s.frameFile d.chunk := by
  unfold onData
  cases s.step_cases d with
  | idle hfile _ hidle =>
    have hdata : jpegData d.chunk = none := hidle.resolve_left (by rw [hrunning]; decide)
    rw [hdata]
    exact hfile
  | slice data hdata _ hfile _ =>
    rw [hdata]
    exact hfile
  | whole _ _ _ _ _ hloud => exact absurd hquiet hloud
  | failed _ _ _ _ _ _ hloud => exact absurd hquiet hloud

/-- The file is as it was before the chunk, or holds a slice of it. -/
def FileKept (s : StreamState) (d : Delivery) : Prop :=
  (s.step d).frameFile = s.frameFile ∨
    ∃ value, (s.step d).frameFile = some value ∧ JpegSlice d.chunk value

/-- The `catch` is not reached, or does no harm: the chunk is itself a whole JPEG, or its write
throws as well and leaves the file as it was or with a slice. -/
def CatchHarmless (s : StreamState) (d : Delivery) : Prop :=
  s.uncaught = true ∨ jpegData d.chunk = none ∨ d.Quiet ∨
    (d.retry = .written ∧ IsJpeg d.chunk) ∨
    ∃ left, d.retry = .thrown left ∧
      (left = s.frameFile ∨ ∃ value, left = some value ∧ JpegSlice d.chunk value)

/-- The values saved for a chunk are slices of it. -/
def SlicesSaved (s : StreamState) (d : Delivery) : Prop :=
  ∀ value ∈ (s.step d).saved, value ∈ s.saved ∨ JpegSlice d.chunk value

/-- What is left of the condition where the `catch` is reached. -/
theorem CatchHarmless.caught {s : StreamState} {d : Delivery} {data : Bytes}
    (h : CatchHarmless s d) (hrunning : s.uncaught = false) (hdata : jpegData d.chunk = some data)
    (hloud : ¬d.Quiet) :
    (d.retry = .written ∧ IsJpeg d.chunk) ∨
      ∃ left, d.retry = .thrown left ∧
        (left = s.frameFile ∨ ∃ value, left = some value ∧ JpegSlice d.chunk value) := by
  rcases h with h | h | h | h
  · rw [hrunning] at h
    cases h
  · rw [hdata] at h
    cases h
  · exact absurd h hloud
  · exact h

theorem fileKept_of_catchHarmless {s : StreamState} {d : Delivery} (h : CatchHarmless s d) :
    FileKept s d := by
  cases s.step_cases d with
  | idle hfile => exact .inl hfile
  | slice data hdata _ hfile => exact .inr ⟨data, hfile, jpegSlice_of_jpegData hdata⟩
  | whole data sliced hrunning hdata _ hloud hretry hfile =>
    rcases h.caught hrunning hdata hloud with ⟨-, hjpeg⟩ | ⟨left, hretry', -⟩
    · exact .inr ⟨d.chunk, hfile, List.infix_refl _, hjpeg⟩
    · rw [hretry] at hretry'
      cases hretry'
  | failed data sliced left hrunning hdata _ hloud hretry hfile =>
    rcases h.caught hrunning hdata hloud with ⟨hretry', -⟩ | ⟨left', hretry', hleft⟩
    · rw [hretry] at hretry'
      cases hretry'
    · cases hretry.symm.trans hretry'
      unfold FileKept
      rw [hfile]
      exact hleft

theorem slicesSaved_of_catchHarmless {s : StreamState} {d : Delivery} (h : CatchHarmless s d) :
    SlicesSaved s d := by
  intro value hmem
  cases s.step_cases d with
  | idle _ hsaved =>
    rw [hsaved] at hmem
    exact .inl hmem
  | slice data hdata _ _ hsaved =>
    rw [hsaved, List.mem_append, List.mem_singleton] at hmem
    rcases hmem with hmem | rfl
    · exact .inl hmem
    · exact .inr (jpegSlice_of_jpegData hdata)
  | whole data sliced hrunning hdata hsliced hloud hretry _ hsaved =>
    rw [hsaved, List.mem_append, List.mem_append, List.mem_singleton] at hmem
    rcases hmem with (hmem | hmem) | rfl
    · exact .inl hmem
    · rw [List.mem_singleton.mp (hsliced hmem)]
      exact .inr (jpegSlice_of_jpegData hdata)
    · rcases h.caught hrunning hdata hloud with ⟨-, hjpeg⟩ | ⟨left, hretry', -⟩
      · exact .inr ⟨List.infix_refl _, hjpeg⟩
      · rw [hretry] at hretry'
        cases hretry'
  | failed data sliced left _ hdata hsliced _ _ _ hsaved =>
    rw [hsaved, List.mem_append] at hmem
    rcases hmem with hmem | hmem
    · exact .inl hmem
    · rw [List.mem_singleton.mp (hsliced hmem)]
      exact .inr (jpegSlice_of_jpegData hdata)

/-- A step keeps what was saved before it. -/
theorem StreamState.saved_subset_step (s : StreamState) (d : Delivery) :
    s.saved ⊆ (s.step d).saved := by
  cases s.step_cases d with
  | idle _ hsaved =>
    rw [hsaved]
    exact List.Subset.refl _
  | slice _ _ _ _ hsaved =>
    rw [hsaved]
    exact List.subset_append_left _ _
  | whole _ _ _ _ _ _ _ _ hsaved =>
    rw [hsaved, List.append_assoc]
    exact List.subset_append_left _ _
  | failed _ _ _ _ _ _ _ _ _ hsaved =>
    rw [hsaved]
    exact List.subset_append_left _ _

/-! ## A whole stream -/

theorem StreamState.saved_subset_foldl (s : StreamState) (deliveries : List Delivery) :
    s.saved ⊆ (deliveries.foldl StreamState.step s).saved := by
  induction deliveries generalizing s with
  | nil => exact List.Subset.refl _
  | cons d deliveries ih => exact List.Subset.trans (s.saved_subset_step d) (ih (s.step d))

/-- What a stream saves, from slices for every chunk. -/
theorem saved_of_along {s : StreamState} {deliveries : List Delivery}
    (h : Along StreamState.step SlicesSaved s deliveries) :
    ∀ value ∈ (deliveries.foldl StreamState.step s).saved,
      value ∈ s.saved ∨ ∃ d ∈ deliveries, JpegSlice d.chunk value := by
  induction deliveries generalizing s with
  | nil =>
    intro value hmem
    exact .inl hmem
  | cons d deliveries ih =>
    intro value hmem
    rcases ih h.2 value hmem with hbefore | ⟨later, hlater, hslice⟩
    · exact (h.1 value hbefore).imp_right fun hslice => ⟨d, List.mem_cons_self, hslice⟩
    · exact .inr ⟨later, List.mem_cons_of_mem d hlater, hslice⟩

/-- Every value the handler saves is a whole JPEG slice of one chunk, and no chunk leaves
anything else in the file. -/
structure WholeSlices (s : StreamState) (deliveries : List Delivery) : Prop where
  saved : ∀ value ∈ (deliveries.foldl StreamState.step s).saved,
    ∃ d ∈ deliveries, JpegSlice d.chunk value
  file : Along StreamState.step FileKept s deliveries

/-- The saved stream frame is always a whole JPEG slice exactly when the `catch` does no harm at
any chunk. -/
theorem saved_slices_iff (frameFile : Option Bytes) (deliveries : List Delivery) :
    WholeSlices { frameFile := frameFile } deliveries ↔
      Along StreamState.step CatchHarmless { frameFile := frameFile } deliveries := by
  constructor
  · intro h
    refine along_iff.mpr fun before d after hsplit => ?_
    have hkept := along_iff.mp h.file before d after hsplit
    generalize hs : before.foldl StreamState.step { frameFile := frameFile } = s at hkept ⊢
    cases s.step_cases d with
    | idle _ _ hidle => exact hidle.elim .inl fun hdata => .inr (.inl hdata)
    | slice _ _ hquiet => exact .inr (.inr (.inl hquiet))
    | whole data sliced _ _ _ _ hretry _ hsaved =>
      -- the chunk is among the saved values to the end
      have hstep : d.chunk ∈ (s.step d).saved := by
        rw [hsaved]
        exact List.mem_append_right _ (List.mem_singleton_self _)
      have hlast := (s.step d).saved_subset_foldl after hstep
      rw [← hs, ← List.foldl_cons, ← List.foldl_append, ← hsplit] at hlast
      obtain ⟨_, _, _, hjpeg⟩ := h.saved d.chunk hlast
      exact .inr (.inr (.inr (.inl ⟨hretry, hjpeg⟩)))
    | failed _ _ left _ _ _ _ hretry hfile =>
      unfold FileKept at hkept
      rw [hfile] at hkept
      exact .inr (.inr (.inr (.inr ⟨left, hretry, hkept⟩)))
  · intro h
    have hslices : Along StreamState.step SlicesSaved { frameFile := frameFile } deliveries :=
      along_iff.mpr fun before d after hsplit =>
        slicesSaved_of_catchHarmless (along_iff.mp h before d after hsplit)
    refine ⟨fun value hmem => ?_, along_iff.mpr fun before d after hsplit =>
      fileKept_of_catchHarmless (along_iff.mp h before d after hsplit)⟩
    rcases saved_of_along hslices value hmem with hnone | hslice
    · simp at hnone
    · exact hslice

/-- A notification that throws: the frame was saved, and then the chunk with the text before it. -/
theorem chunk_saved_whole :
    let chunk : Bytes := [0x0D, 0x0A, 0xFF, 0xD8, 0x01, 0xFF, 0xD9]
    let after := StreamState.step { frameFile := none } ⟨chunk, .written, .thrown, .written⟩
    jpegData chunk = some [0xFF, 0xD8, 0x01, 0xFF, 0xD9] ∧ after.frameFile = some chunk ∧
      ¬WholeSlices { frameFile := none } [⟨chunk, .written, .thrown, .written⟩] := by
  refine ⟨by decide, by decide, fun h => ?_⟩
  obtain ⟨_, _, _, hjpeg⟩ := h.saved [0x0D, 0x0A, 0xFF, 0xD8, 0x01, 0xFF, 0xD9] (by decide)
  exact absurd hjpeg.start (by decide)

end EmbeddedCar.Backend
