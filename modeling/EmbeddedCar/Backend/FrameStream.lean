import EmbeddedCar.Text.CString
import EmbeddedCar.Text.PairSearch

/-!
# Frames of a video stream

The `data` handler of `POST /video/stream` searches each chunk on its own. A chunk is saved
exactly when it holds a frame of the stream whole, with no marker before it; what the file holds
at the end is the frame of the last such chunk.
-/

namespace EmbeddedCar.Backend

open EmbeddedCar.Text

/-- `camera.js:97`. -/
def jpegStart (chunk : Bytes) : Option ℕ := indexOf [0xFF, 0xD8] chunk

/-- `camera.js:99`. -/
def jpegEnd (chunk : Bytes) : Option ℕ := indexOf [0xFF, 0xD9] chunk

/-- The bytes that a chunk is saved with; `none` is a chunk that is not saved. -/
def jpegData (chunk : Bytes) : Option Bytes :=
  match jpegStart chunk, jpegEnd chunk with
  | some start, some stop =>
      if start < stop then some ((chunk.take (stop + 2)).drop start) else none
  | _, _ => none

/-- `camera.js:81-123` on `latest_stream_frame.jpg`, where every write succeeds. -/
def onData (frameFile : Option Bytes) (chunk : Bytes) : Option Bytes :=
  match jpegData chunk with
  | some data => some data
  | none => frameFile

/-! ### What the sender sends -/

/-- Bytes without a marker. -/
structure Unmarked where
  bytes : Bytes
  noStart : Free 0xFF 0xD8 bytes
  noEnd : Free 0xFF 0xD9 bytes

/-- A frame, and the text before it. -/
structure StreamPart where
  text : Unmarked
  inside : Unmarked

def StreamPart.frame (part : StreamPart) : Bytes :=
  0xFF :: 0xD8 :: (part.inside.bytes ++ [0xFF, 0xD9])

def streamOf : List StreamPart → Unmarked → Bytes
  | [], tail => tail.bytes
  | part :: parts, tail => part.text.bytes ++ part.frame ++ streamOf parts tail

/-- A chunk has a frame of the stream whole, and no marker before it. -/
def HoldsFrame (parts : List StreamPart) (chunk frame : Bytes) : Prop :=
  ∃ part ∈ parts, frame = part.frame ∧ ∃ before after, chunk = before ++ frame ++ after ∧
    Free 0xFF 0xD8 before ∧ Free 0xFF 0xD9 before

/-- The last of the chunks that hold a frame holds this one. -/
def LastHeld (parts : List StreamPart) (chunks : List Bytes) (frame : Bytes) : Prop :=
  ∃ earlier chunk later, chunks = earlier ++ chunk :: later ∧ HoldsFrame parts chunk frame ∧
    ∀ next ∈ later, ∀ other, ¬ HoldsFrame parts next other

/-! ### One chunk -/

variable {parts : List StreamPart} {tail : Unmarked} {chunk frame : Bytes}

theorem ff_ne_d8 : (0xFF : UInt8) ≠ 0xD8 := by decide

theorem ff_ne_d9 : (0xFF : UInt8) ≠ 0xD9 := by decide

theorem d8_ne_d9 : (0xD8 : UInt8) ≠ 0xD9 := by decide

theorem StreamPart.frame_append (part : StreamPart) (rest : Bytes) :
    part.frame ++ rest = 0xFF :: 0xD8 :: (part.inside.bytes ++ 0xFF :: 0xD9 :: rest) := by
  simp [StreamPart.frame]

/-- Where a start marker stands in the stream, a frame of the stream begins. -/
theorem exists_part_of_start {before after : Bytes}
    (h : streamOf parts tail = before ++ 0xFF :: 0xD8 :: after) :
    ∃ part ∈ parts, ∃ rest, after = part.inside.bytes ++ 0xFF :: 0xD9 :: rest := by
  induction parts generalizing before with
  | nil => exact absurd h (tail.noStart before after)
  | cons part parts ih =>
    unfold streamOf at h
    rw [List.append_assoc, StreamPart.frame_append] at h
    obtain ⟨-, -, hlast⟩ | ⟨between, -, hlast⟩ :=
      pair_cases ff_ne_d8 ff_ne_d8 part.text.noStart h
    · exact ⟨part, List.mem_cons_self, _, hlast.symm⟩
    · -- the start marker is behind this frame: inside it there is none
      obtain ⟨-, hmarker, -⟩ | ⟨between', -, hrest⟩ :=
        pair_cases ff_ne_d9 ff_ne_d8 part.inside.noStart hlast
      · exact absurd hmarker.symm d8_ne_d9
      · obtain ⟨other, hmem, hother⟩ := ih hrest
        exact ⟨other, List.mem_cons_of_mem part hmem, hother⟩

/-- A chunk is saved from its first start marker to its first end marker. -/
theorem jpegData_eq {before inside after : Bytes} (hstart : Free 0xFF 0xD8 before)
    (hstop : Free 0xFF 0xD9 (before ++ 0xFF :: 0xD8 :: inside)) :
    jpegData (before ++ 0xFF :: 0xD8 :: (inside ++ 0xFF :: 0xD9 :: after)) =
      some (0xFF :: 0xD8 :: (inside ++ [0xFF, 0xD9])) := by
  have hstart' : jpegStart (before ++ 0xFF :: 0xD8 :: (inside ++ 0xFF :: 0xD9 :: after)) =
      some before.length := indexOf_pair_eq ff_ne_d8 hstart
  have hsplit : before ++ 0xFF :: 0xD8 :: (inside ++ 0xFF :: 0xD9 :: after) =
      (before ++ 0xFF :: 0xD8 :: inside) ++ 0xFF :: 0xD9 :: after := by simp
  have hstop' : jpegEnd (before ++ 0xFF :: 0xD8 :: (inside ++ 0xFF :: 0xD9 :: after)) =
      some (before ++ 0xFF :: 0xD8 :: inside).length := by
    rw [hsplit]
    exact indexOf_pair_eq ff_ne_d9 hstop
  have hslice : before ++ 0xFF :: 0xD8 :: (inside ++ 0xFF :: 0xD9 :: after) =
      (before ++ 0xFF :: 0xD8 :: (inside ++ [0xFF, 0xD9])) ++ after := by simp
  simp only [jpegData, hstart', hstop']
  rw [if_pos (by simp), hslice, List.take_left' (by simp; omega), List.drop_left' rfl]

/-- Every chunk that is saved is of this form. -/
theorem jpegData_some {data : Bytes} (h : jpegData chunk = some data) :
    ∃ before inside after, chunk = before ++ 0xFF :: 0xD8 :: (inside ++ 0xFF :: 0xD9 :: after) ∧
      data = 0xFF :: 0xD8 :: (inside ++ [0xFF, 0xD9]) ∧ Free 0xFF 0xD8 before ∧
      Free 0xFF 0xD9 (before ++ 0xFF :: 0xD8 :: inside) := by
  cases hstart : jpegStart chunk with
  | none => simp [jpegData, hstart] at h
  | some start =>
    cases hstop : jpegEnd chunk with
    | none => simp [jpegData, hstart, hstop] at h
    | some stop =>
      have hlt : start < stop := by
        simp only [jpegData, hstart, hstop, Option.ite_none_right_eq_some] at h
        exact h.1
      obtain ⟨before, rest, hchunk, hbefore, hfree⟩ := indexOf_pair_some hstart
      obtain ⟨first, after, hchunk', hfirst, hfree'⟩ := indexOf_pair_some hstop
      obtain ⟨inside, rfl, rfl⟩ := exists_between ff_ne_d8 (hchunk.symm.trans hchunk') (by omega)
      rw [hchunk, jpegData_eq hfree hfree'] at h
      exact ⟨before, inside, after, hchunk, (Option.some.inj h).symm, hfree, hfree'⟩

/-- A chunk of the stream is saved exactly when it holds a frame, and with this frame. -/
theorem jpegData_eq_some_iff {before after : Bytes}
    (hstream : streamOf parts tail = before ++ chunk ++ after) :
    jpegData chunk = some frame ↔ HoldsFrame parts chunk frame := by
  constructor
  · intro h
    obtain ⟨first, inside, last, hchunk, hframe, hstart, hstop⟩ := jpegData_some h
    have hstream' : streamOf parts tail =
        (before ++ first) ++ 0xFF :: 0xD8 :: (inside ++ 0xFF :: 0xD9 :: (last ++ after)) := by
      simp [hstream, hchunk]
    obtain ⟨part, hmem, rest, hrest⟩ := exists_part_of_start hstream'
    obtain ⟨hinside, -, -⟩ | ⟨between, hinside, -⟩ :=
      pair_cases ff_ne_d9 ff_ne_d9 part.inside.noEnd hrest.symm
    · refine ⟨part, hmem, by rw [hframe, hinside, StreamPart.frame], first, last, ?_, hstart, ?_⟩
      · simp [hchunk, hframe]
      · exact hstop.left
    · -- the first end marker of the chunk is not behind another one
      have hbehind : Free 0xFF 0xD9 ([0xFF, 0xD8] ++ inside) := hstop.right
      exact absurd hinside (hbehind.right _ _)
  · rintro ⟨part, -, rfl, first, last, hchunk, hstart, hstop⟩
    rw [hchunk, List.append_assoc, StreamPart.frame_append]
    exact jpegData_eq hstart
      (hstop.append_pair ff_ne_d8 ff_ne_d9 d8_ne_d9 part.inside.noEnd)

/-! ### A whole stream -/

/-- After a run the file holds what the last saved chunk was saved with, or what it held. -/
theorem foldl_onData {frameFile : Option Bytes} {chunks : List Bytes} :
    chunks.foldl onData frameFile = some frame ↔
      (∃ earlier chunk later, chunks = earlier ++ chunk :: later ∧ jpegData chunk = some frame ∧
        ∀ next ∈ later, jpegData next = none) ∨
      ((∀ chunk ∈ chunks, jpegData chunk = none) ∧ frameFile = some frame) := by
  induction chunks generalizing frameFile with
  | nil => simp
  | cons chunk chunks ih =>
    rw [List.foldl_cons, ih]
    constructor
    · rintro (⟨earlier, saved, later, hchunks, hsaved, hlater⟩ | ⟨hnone, hfile⟩)
      · exact .inl ⟨chunk :: earlier, saved, later, by rw [hchunks]; rfl, hsaved, hlater⟩
      · cases hdata : jpegData chunk with
        | none =>
          simp only [onData, hdata] at hfile
          exact .inr ⟨List.forall_mem_cons.mpr ⟨hdata, hnone⟩, hfile⟩
        | some data =>
          simp only [onData, hdata] at hfile
          exact .inl ⟨[], chunk, chunks, rfl, hdata.trans hfile, hnone⟩
    · rintro (⟨earlier, saved, later, hchunks, hsaved, hlater⟩ | ⟨hnone, hfile⟩)
      · cases earlier with
        | nil =>
          obtain ⟨rfl, rfl⟩ := List.cons.inj hchunks
          exact .inr ⟨hlater, by simp only [onData, hsaved]⟩
        | cons first earlier =>
          exact .inl ⟨earlier, saved, later, (List.cons.inj hchunks).2, hsaved, hlater⟩
      · have hdata := hnone chunk List.mem_cons_self
        exact .inr ⟨fun next hnext => hnone next (List.mem_cons_of_mem chunk hnext),
          by simp only [onData, hdata, hfile]⟩

/-- A chunk of a stream that is cut in any way. -/
theorem jpegData_iff_of_mem {chunks : List Bytes} (hchunks : chunks.flatten = streamOf parts tail)
    (hmem : chunk ∈ chunks) (frame : Bytes) :
    jpegData chunk = some frame ↔ HoldsFrame parts chunk frame := by
  obtain ⟨earlier, later, rfl⟩ := List.append_of_mem hmem
  have hstream : streamOf parts tail = earlier.flatten ++ chunk ++ later.flatten := by
    rw [← hchunks]
    simp
  exact jpegData_eq_some_iff hstream

theorem jpegData_none_iff_of_mem {chunks : List Bytes}
    (hchunks : chunks.flatten = streamOf parts tail) (hmem : chunk ∈ chunks) :
    jpegData chunk = none ↔ ∀ frame, ¬ HoldsFrame parts chunk frame := by
  rw [Option.eq_none_iff_forall_ne_some]
  exact forall_congr' fun frame => not_congr (jpegData_iff_of_mem hchunks hmem frame)

/-- The file holds the last frame after the stream exactly when the last chunk that holds a
frame whole holds this one, or none does and the file held it before. -/
theorem last_frame_saved_iff (frameFile : Option Bytes) (parts : List StreamPart)
    (last : StreamPart) (tail : Unmarked) (chunks : List Bytes)
    (hchunks : chunks.flatten = streamOf (parts ++ [last]) tail) :
    chunks.foldl onData frameFile = some last.frame ↔
      LastHeld (parts ++ [last]) chunks last.frame ∨
        ((∀ chunk ∈ chunks, ∀ frame, ¬ HoldsFrame (parts ++ [last]) chunk frame) ∧
          frameFile = some last.frame) := by
  rw [foldl_onData]
  refine or_congr ?_ (and_congr_left' ?_)
  · refine exists₃_congr fun earlier chunk later => and_congr_right fun hsplit => ?_
    have hmem : ∀ c ∈ chunk :: later, c ∈ chunks := by
      intro c hc
      rw [hsplit]
      exact List.mem_append_right earlier hc
    refine and_congr (jpegData_iff_of_mem hchunks (hmem chunk List.mem_cons_self) _) ?_
    exact forall₂_congr fun next hnext =>
      jpegData_none_iff_of_mem hchunks (hmem next (List.mem_cons_of_mem chunk hnext))
  · exact forall₂_congr fun chunk hmem => jpegData_none_iff_of_mem hchunks hmem

/-- Bytes that cannot begin a marker. -/
def unmarked (bytes : Bytes) (h : 0xFF ∉ bytes) : Unmarked :=
  ⟨bytes, free_of_notMem h, free_of_notMem h⟩

def samplePart : StreamPart where
  text := unmarked (ascii "--frame") (by decide)
  inside := unmarked [1, 2] (by decide)

theorem last_frame_saved_whole :
    [ascii "--fr", ascii "ame" ++ samplePart.frame, [13, 10]].foldl onData none =
      some samplePart.frame := by
  refine (last_frame_saved_iff none [] samplePart (unmarked [13, 10] (by decide)) _ rfl).mpr ?_
  refine .inl ⟨[ascii "--fr"], _, [[13, 10]], rfl, ?_, ?_⟩
  · refine ⟨samplePart, List.mem_singleton_self _, rfl, ascii "ame", [], rfl, ?_, ?_⟩
    · exact free_of_notMem (by decide)
    · exact free_of_notMem (by decide)
  · rintro next hnext other ⟨part, -, rfl, before, after, hchunk, -⟩
    rw [List.mem_singleton.mp hnext] at hchunk
    have hmem : (0xFF : UInt8) ∈ ([13, 10] : Bytes) := by
      rw [hchunk]
      simp [StreamPart.frame]
    exact absurd hmem (by decide)

/-- A frame that is cut in two is not saved. -/
theorem cut_frame_lost :
    [ascii "--frame" ++ [0xFF, 0xD8, 1], [2, 0xFF, 0xD9]].flatten =
        streamOf [samplePart] (unmarked [] (by decide)) ∧
      [ascii "--frame" ++ [0xFF, 0xD8, 1], [2, 0xFF, 0xD9]].foldl onData none = none :=
  ⟨rfl, rfl⟩

end EmbeddedCar.Backend
