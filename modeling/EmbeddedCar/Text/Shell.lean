import EmbeddedCar.Text.CString

/-!
# Words of a shell

How a shell makes words of a text without quotes and expansions: fields between blanks, and
commands between semicolons. Texts with other characters that mean something to a shell are
outside of it.
-/

namespace EmbeddedCar.Text

/-! ### Fields -/

section

variable {α : Type*} {isSep : α → Bool} {l w : List α}

/-- The fields between separators; empty ones are dropped. -/
def fields (isSep : α → Bool) (l : List α) : List (List α) :=
  (l.splitOnP isSep).filter fun w => !w.isEmpty

theorem fields_cons (hw : w ≠ []) (hfree : ∀ c ∈ w, isSep c = false) {sep : α}
    (hsep : isSep sep = true) (rest : List α) :
    fields isSep (w ++ sep :: rest) = w :: fields isSep rest := by
  unfold fields
  rw [List.splitOnP_append_cons_of_forall_mem hfree sep hsep, List.filter_cons_of_pos]
  simpa using hw

theorem fields_single (hw : w ≠ []) (hfree : ∀ c ∈ w, isSep c = false) : fields isSep w = [w] := by
  unfold fields
  rw [List.splitOnP_eq_singleton hfree, List.filter_cons_of_pos (by simpa using hw),
    List.filter_nil]

/-- Words joined by a separator are its fields. -/
theorem fields_intercalate {words : List (List α)} {sep : α} (hsep : isSep sep = true)
    (hwords : ∀ w ∈ words, w ≠ [] ∧ ∀ c ∈ w, isSep c = false) :
    fields isSep ([sep].intercalate words) = words := by
  induction words with
  | nil => simp [fields]
  | cons w words ih =>
    obtain ⟨hw, hfree⟩ := hwords w List.mem_cons_self
    have hrest := ih fun v hv => hwords v (List.mem_cons_of_mem w hv)
    cases words with
    | nil => simpa using fields_single hw hfree
    | cons v words =>
      rw [List.intercalate_cons_cons, List.append_assoc, List.singleton_append,
        fields_cons hw hfree hsep, hrest]

theorem sep_free_of_mem_splitOnP (h : w ∈ l.splitOnP isSep) : ∀ c ∈ w, isSep c = false := by
  induction l generalizing w with
  | nil =>
    rw [List.splitOnP_nil, List.mem_singleton] at h
    subst h
    exact nofun
  | cons a l ih =>
    rw [List.splitOnP_cons_eq_if_modifyHead] at h
    split at h
    · rcases List.mem_cons.mp h with rfl | h
      · exact nofun
      · exact ih h
    · next ha =>
      obtain ⟨first, rest, hsplit⟩ :=
        List.exists_cons_of_ne_nil (List.splitOnP_ne_nil isSep l)
      rw [hsplit, List.modifyHead_cons] at h
      rcases List.mem_cons.mp h with rfl | h
      · intro c hc
        rcases List.mem_cons.mp hc with rfl | hc
        · simpa using ha
        · exact ih (by simp [hsplit]) c hc
      · exact ih (by simp [hsplit, h])

/-- A field is a part between two separators. -/
theorem sep_free_of_mem_fields (h : w ∈ fields isSep l) : ∀ c ∈ w, isSep c = false :=
  sep_free_of_mem_splitOnP (List.mem_filter.mp h).1

end

/-! ### Commands -/

/-- The blanks between the words of a command. -/
def isBlank (c : UInt8) : Bool := c = 32 || c = 9

/-- The default `IFS`. -/
def isIfs (c : UInt8) : Bool := isBlank c || c = 10

def isSemicolon (c : UInt8) : Bool := c = 59

/-- NUL, the end of a line, quotes, the backslash, expansions, comments, redirections, groups,
patterns, `&` and `|`. -/
def isShellSpecial (c : UInt8) : Bool :=
  [0, 10, 34, 39, 92, 36, 96, 126, 35, 60, 62, 40, 41, 123, 125, 42, 63, 91, 38, 124].contains c

/-- What a pattern is made of. -/
def isPattern (c : UInt8) : Bool := [42, 63, 91, 92].contains c

/-- The commands that `sh -c` runs for a text, each as its words. `none` is a text outside of this
fragment: with a special character, or with nothing before or behind a semicolon. Reserved words
count as words. -/
def shellCommands (text : Bytes) : Option (List (List Bytes)) :=
  if text.any isShellSpecial then none
  else
    let commands := (text.splitOnP isSemicolon).map (fields isBlank)
    if [] ∈ commands then none else some commands

/-- The words that an unquoted `$variable` expands to in a command: its value is split, and no
other character of it means anything but those of a pattern. -/
def expandUnquoted (value : Bytes) : Option (List Bytes) :=
  if value.any isPattern then none else some (fields isIfs value)

example : shellCommands (ascii "ls -l /dev; sync") =
    some [[ascii "ls", ascii "-l", ascii "/dev"], [ascii "sync"]] := by decide

theorem mem_intercalate {α : Type*} {words : List (List α)} {sep c : α}
    (h : c ∈ [sep].intercalate words) : c = sep ∨ ∃ w ∈ words, c ∈ w := by
  induction words with
  | nil => simp at h
  | cons w words ih =>
    cases words with
    | nil =>
      rw [List.intercalate_singleton] at h
      exact .inr ⟨w, List.mem_cons_self, h⟩
    | cons v words =>
      rw [List.intercalate_cons_cons, List.mem_append, List.mem_append, List.mem_singleton] at h
      rcases h with (h | h) | h
      · exact .inr ⟨w, List.mem_cons_self, h⟩
      · exact .inl h
      · rcases ih h with h | ⟨u, hu, hc⟩
        · exact .inl h
        · exact .inr ⟨u, List.mem_cons_of_mem w hu, hc⟩

theorem mem_intercalate_of_mem {α : Type*} {words : List (List α)} {w : List α} {sep c : α}
    (hw : w ∈ words) (hc : c ∈ w) : c ∈ [sep].intercalate words := by
  induction words with
  | nil => exact absurd hw List.not_mem_nil
  | cons v words ih =>
    cases words with
    | nil =>
      rw [List.intercalate_singleton, ← List.mem_singleton.mp hw]
      exact hc
    | cons u words =>
      rw [List.intercalate_cons_cons, List.mem_append]
      rcases List.mem_cons.mp hw with rfl | hw
      · exact .inl (List.mem_append_left _ hc)
      · exact .inr (ih hw)

section

variable {words : List Bytes}

/-- The words of one command, as long as their characters are ordinary, are the one command of
their text exactly when they hold neither blanks nor semicolons. -/
theorem shellCommands_intercalate_iff (hne : words ≠ []) (hfilled : ∀ w ∈ words, w ≠ [])
    (hplain : ∀ w ∈ words, ∀ c ∈ w, isShellSpecial c = false) :
    shellCommands ([32].intercalate words) = some [words] ↔
      ∀ w ∈ words, ∀ c ∈ w, isBlank c = false ∧ isSemicolon c = false := by
  have hany : ([32].intercalate words).any isShellSpecial = false := by
    rw [List.any_eq_false]
    intro c hc
    rcases mem_intercalate hc with rfl | ⟨w, hw, hcw⟩
    · decide
    · simp [hplain w hw c hcw]
  unfold shellCommands
  rw [hany, if_neg (by decide)]
  constructor
  · intro h w hw c hc
    dsimp only at h
    split at h
    · cases h
    · have hcommands := Option.some.inj h
      constructor
      · obtain ⟨part, -, hpart⟩ := List.mem_map.mp (hcommands ▸ List.mem_singleton_self words)
        exact sep_free_of_mem_fields (hpart ▸ hw) c hc
      · -- a semicolon would part the text in two
        refine Bool.eq_false_iff.mpr fun hsemicolon => ?_
        obtain ⟨before, after, hsplit⟩ := List.append_of_mem (mem_intercalate_of_mem hw hc)
        rw [hsplit, List.splitOnP_append_cons _ _ hsemicolon] at hcommands
        have hlength := congrArg List.length hcommands
        have hbefore := List.length_pos_iff.mpr (List.splitOnP_ne_nil isSemicolon before)
        have hafter := List.length_pos_iff.mpr (List.splitOnP_ne_nil isSemicolon after)
        simp only [List.length_map, List.length_append, List.length_singleton] at hlength
        omega
  · intro h
    have hone : ([32].intercalate words).splitOnP isSemicolon = [[32].intercalate words] := by
      refine List.splitOnP_eq_singleton fun c hc => ?_
      rcases mem_intercalate hc with rfl | ⟨w, hw, hcw⟩
      · rfl
      · exact (h w hw c hcw).2
    have hwords : fields isBlank ([32].intercalate words) = words :=
      fields_intercalate rfl fun w hw => ⟨hfilled w hw, fun c hc => (h w hw c hc).1⟩
    rw [hone, List.map_singleton, hwords]
    exact if_neg (by simpa using hne)

/-- The same of the value of a variable, which no semicolon parts. -/
theorem expandUnquoted_intercalate_iff (hfilled : ∀ w ∈ words, w ≠ [])
    (hplain : ∀ w ∈ words, ∀ c ∈ w, isPattern c = false) :
    expandUnquoted ([32].intercalate words) = some words ↔
      ∀ w ∈ words, ∀ c ∈ w, isIfs c = false := by
  have hany : ([32].intercalate words).any isPattern = false := by
    rw [List.any_eq_false]
    intro c hc
    rcases mem_intercalate hc with rfl | ⟨w, hw, hcw⟩
    · decide
    · simp [hplain w hw c hcw]
  unfold expandUnquoted
  rw [hany, if_neg (by decide)]
  constructor
  · intro h w hw c hc
    exact sep_free_of_mem_fields (Option.some.inj h ▸ hw) c hc
  · intro h
    exact congrArg some (fields_intercalate rfl fun w hw => ⟨hfilled w hw, h w hw⟩)

end

end EmbeddedCar.Text
