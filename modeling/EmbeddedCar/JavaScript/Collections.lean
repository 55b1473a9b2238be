import Mathlib.Data.List.Nodup

/-!
# `Map` and `Set`

The collections keep their elements in the order of insertion. Keys are compared with `=`: for
the keys used here `SameValueZero` is equality.
-/

namespace EmbeddedCar.JavaScript

/-- A `Map`: its entries in the order of insertion, one for each key. -/
structure JsMap (κ ν : Type*) where
  entries : List (κ × ν)
  nodup : (entries.map Prod.fst).Nodup

namespace JsMap

variable {κ ν : Type*}

def empty : JsMap κ ν := ⟨[], List.nodup_nil⟩

def size (m : JsMap κ ν) : ℕ := m.entries.length

def keys (m : JsMap κ ν) : List κ := m.entries.map Prod.fst

def values (m : JsMap κ ν) : List ν := m.entries.map Prod.snd

variable [DecidableEq κ]

def get (m : JsMap κ ν) (key : κ) : Option ν :=
  (m.entries.find? fun entry => entry.1 = key).map Prod.snd

def has (m : JsMap κ ν) (key : κ) : Bool := (m.get key).isSome

/-- An entry that is there keeps its place. -/
def replace (key : κ) (value : ν) (entry : κ × ν) : κ × ν :=
  if entry.1 = key then (key, value) else entry

theorem map_replace_fst (key : κ) (value : ν) (entries : List (κ × ν)) :
    (entries.map (replace key value)).map Prod.fst = entries.map Prod.fst := by
  rw [List.map_map]
  apply List.map_congr_left
  intro entry _
  show (replace key value entry).1 = entry.1
  unfold replace
  split
  · next h => exact h.symm
  · rfl

theorem mem_keys {m : JsMap κ ν} {key : κ} : m.has key = true ↔ key ∈ m.keys := by
  unfold has get keys
  rw [Option.isSome_map, List.find?_isSome, List.mem_map]
  simp only [decide_eq_true_eq]

def set (m : JsMap κ ν) (key : κ) (value : ν) : JsMap κ ν where
  entries :=
    if m.has key then m.entries.map (replace key value) else m.entries ++ [(key, value)]
  nodup := by
    split
    · rw [map_replace_fst]
      exact m.nodup
    · next h =>
      rw [mem_keys] at h
      rw [List.map_append]
      exact m.nodup.append (List.nodup_singleton _) (List.disjoint_singleton.mpr h)

def delete (m : JsMap κ ν) (key : κ) : JsMap κ ν where
  entries := m.entries.filter fun entry => entry.1 ≠ key
  nodup := m.nodup.sublist (List.filter_sublist.map Prod.fst)

/-! ### What is in a map -/

variable {m : JsMap κ ν} {key other : κ} {value : ν}

theorem get_eq_some : m.get key = some value ↔ (key, value) ∈ m.entries := by
  unfold get
  obtain ⟨entries, nodup⟩ := m
  show (entries.find? _).map Prod.snd = some value ↔ (key, value) ∈ entries
  induction entries with
  | nil => simp
  | cons entry entries ih =>
    obtain ⟨hentry, hrest⟩ := List.nodup_cons.mp nodup
    by_cases h : entry.1 = key
    · rw [List.find?_cons_of_pos (by simpa using h)]
      subst h
      simp only [Option.map_some, Option.some.injEq, List.mem_cons]
      constructor
      · rintro rfl
        exact .inl rfl
      · rintro (heq | hmem)
        · exact congrArg Prod.snd heq.symm
        · exact absurd (List.mem_map_of_mem hmem) hentry
    · rw [List.find?_cons_of_neg (by simpa using h), ih hrest, List.mem_cons]
      constructor
      · exact .inr
      · rintro (heq | hmem)
        · exact absurd (congrArg Prod.fst heq).symm h
        · exact hmem

@[simp] theorem get_empty (key : κ) : (empty : JsMap κ ν).get key = none := rfl

theorem mem_set {entry : κ × ν} :
    entry ∈ (m.set key value).entries ↔
      entry = (key, value) ∨ entry.1 ≠ key ∧ entry ∈ m.entries := by
  unfold set
  show entry ∈ (if m.has key then m.entries.map (replace key value) else _) ↔ _
  split
  · next h =>
    rw [List.mem_map]
    constructor
    · rintro ⟨old, hold, rfl⟩
      unfold replace
      by_cases hkey : old.1 = key
      · simp [hkey]
      · simp [hkey, hold]
    · rintro (rfl | ⟨hkey, hmem⟩)
      · obtain ⟨old, hold, hkey⟩ := List.mem_map.mp (mem_keys.mp h)
        exact ⟨old, hold, by simp [replace, hkey]⟩
      · exact ⟨entry, hmem, by simp [replace, hkey]⟩
  · next h =>
    rw [mem_keys] at h
    rw [List.mem_append, List.mem_singleton]
    constructor
    · rintro (hmem | rfl)
      · right
        refine ⟨?_, hmem⟩
        rintro rfl
        exact h (List.mem_map_of_mem hmem)
      · exact .inl rfl
    · rintro (rfl | ⟨-, hmem⟩)
      · exact .inr rfl
      · exact .inl hmem

theorem mem_delete {entry : κ × ν} :
    entry ∈ (m.delete key).entries ↔ entry.1 ≠ key ∧ entry ∈ m.entries := by
  unfold delete
  rw [List.mem_filter, and_comm]
  simp

theorem get_set (m : JsMap κ ν) (key other : κ) (value : ν) :
    (m.set key value).get other = if other = key then some value else m.get other := by
  apply Option.ext
  intro found
  rw [get_eq_some, mem_set]
  by_cases h : other = key
  · simp [h, eq_comm]
  · simp [h, get_eq_some]

@[simp] theorem get_set_same (m : JsMap κ ν) (key : κ) (value : ν) :
    (m.set key value).get key = some value := by
  rw [get_set, if_pos rfl]

theorem get_delete (m : JsMap κ ν) (key other : κ) :
    (m.delete key).get other = if other = key then none else m.get other := by
  apply Option.ext
  intro found
  rw [get_eq_some, mem_delete]
  by_cases h : other = key
  · simp [h]
  · simp [h, get_eq_some]

@[simp] theorem get_delete_same (m : JsMap κ ν) (key : κ) : (m.delete key).get key = none := by
  rw [get_delete, if_pos rfl]

theorem has_of_get (h : m.get key = some value) : m.has key = true := by
  unfold has
  rw [h]
  rfl

/-- Setting a key that is there leaves the size as it is. -/
theorem size_set (h : m.has key = true) (value : ν) : (m.set key value).size = m.size := by
  show (if m.has key = true then m.entries.map (replace key value) else _).length = _
  rw [if_pos h, List.length_map]
  rfl

/-- Setting another key adds an entry. -/
theorem size_set_new (h : m.has key = false) (value : ν) :
    (m.set key value).size = m.size + 1 := by
  show (if m.has key = true then _ else m.entries ++ [(key, value)]).length = _
  rw [if_neg (by rw [h]; decide), List.length_append]
  rfl

/-! ### Deleting in a loop -/

/-- `for (const [key, value] of m.entries()) if (p) m.delete(key)`; deleting the entry that is
visited does not disturb the iteration. -/
def removeWhere (m : JsMap κ ν) (p : κ → ν → Bool) : JsMap κ ν :=
  m.entries.foldl (fun kept entry => if p entry.1 entry.2 then kept.delete entry.1 else kept) m

theorem mem_foldl_delete (p : κ → ν → Bool) (visited : List (κ × ν)) (m : JsMap κ ν)
    {entry : κ × ν} :
    entry ∈ (visited.foldl
      (fun kept entry => if p entry.1 entry.2 then kept.delete entry.1 else kept) m).entries ↔
      entry ∈ m.entries ∧ ∀ old ∈ visited, p old.1 old.2 = true → entry.1 ≠ old.1 := by
  induction visited generalizing m with
  | nil => simp
  | cons first visited ih =>
    rw [List.foldl_cons, ih, List.forall_mem_cons]
    by_cases h : p first.1 first.2 = true
    · simp only [h, if_true, mem_delete, forall_const]
      tauto
    · simp [h]

theorem get_removeWhere (m : JsMap κ ν) (p : κ → ν → Bool) (key : κ) :
    (m.removeWhere p).get key = (m.get key).filter fun value => !p key value := by
  apply Option.ext
  intro value
  rw [get_eq_some, Option.filter_eq_some_iff, get_eq_some]
  unfold removeWhere
  rw [mem_foldl_delete]
  constructor
  · rintro ⟨hmem, hkept⟩
    refine ⟨hmem, ?_⟩
    rw [Bool.not_eq_true', Bool.eq_false_iff]
    intro hp
    exact hkept _ hmem hp rfl
  · rintro ⟨hmem, hp⟩
    refine ⟨hmem, ?_⟩
    rintro ⟨key', old⟩ hold hpold rfl
    have heq := get_eq_some.mpr hmem
    rw [get_eq_some.mpr hold] at heq
    cases heq
    rw [hpold] at hp
    cases hp

end JsMap

/-! ### `Set` -/

/-- A `Set`: a map from its elements to nothing. -/
abbrev JsSet (κ : Type*) := JsMap κ Unit

namespace JsSet

variable {κ : Type*} [DecidableEq κ]

def add (s : JsSet κ) (element : κ) : JsSet κ := s.set element ()

def has (s : JsSet κ) (element : κ) : Bool := JsMap.has s element

theorem has_add (s : JsSet κ) (element other : κ) :
    (s.add element).has other = true ↔ other = element ∨ s.has other = true := by
  unfold add has JsMap.has
  rw [JsMap.get_set]
  by_cases h : other = element
  · simp [h]
  · simp [h]

theorem has_delete (s : JsSet κ) (element other : κ) :
    JsSet.has (s.delete element) other = true ↔ other ≠ element ∧ s.has other = true := by
  unfold has JsMap.has
  rw [JsMap.get_delete]
  by_cases h : other = element
  · simp [h]
  · simp [h]

end JsSet

end EmbeddedCar.JavaScript
