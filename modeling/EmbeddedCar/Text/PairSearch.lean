import Mathlib.Data.List.Basic

/-!
# Search for a pair of elements

The first occurrence of a list in another, for a list of two different elements. Two
occurrences of such pairs with one first element do not overlap.
-/

namespace EmbeddedCar.Text

variable {α : Type*} {a b c : α} {first last first' last' : List α}

/-- `b` does not follow `a` anywhere. -/
def Free (a b : α) (l : List α) : Prop := ∀ first last, l ≠ first ++ a :: b :: last

theorem free_of_notMem {l : List α} (h : a ∉ l) : Free a b l := by
  intro pre post heq
  exact h (by simp [heq])

theorem Free.left (h : Free a b (first ++ last)) : Free a b first := by
  intro pre post heq
  exact h pre (post ++ last) (by simp [heq])

theorem Free.right (h : Free a b (first ++ last)) : Free a b last := by
  intro pre post heq
  exact h (first ++ pre) post (by simp [heq])

theorem free_cons {x : α} {l : List α} (hl : Free a b l) (hhead : x = a → l.head? ≠ some b) :
    Free a b (x :: l) := by
  intro pre post heq
  cases pre with
  | nil =>
    obtain ⟨hx, hrest⟩ := List.cons.inj heq
    exact hhead hx (by rw [hrest]; rfl)
  | cons y pre => exact hl pre post (List.cons.inj heq).2

/-- Of two pairs at different places, the first ends before the second starts. -/
theorem exists_between (hab : a ≠ b) (heq : first ++ a :: b :: last = first' ++ a :: c :: last')
    (hlt : first.length < first'.length) :
    ∃ between, first' = first ++ a :: b :: between ∧ last = between ++ a :: c :: last' := by
  obtain ⟨rest, hfirst, hrest⟩ | ⟨rest, hfirst, -⟩ := List.append_eq_append_iff.mp heq
  · cases rest with
    | nil => simp [hfirst] at hlt
    | cons x rest =>
      obtain ⟨hx, hrest⟩ := List.cons.inj hrest
      cases rest with
      | nil => exact absurd (List.cons.inj hrest).1.symm hab
      | cons y rest =>
        obtain ⟨hy, hlast⟩ := List.cons.inj hrest
        exact ⟨rest, by rw [hfirst, ← hx, ← hy], hlast⟩
  · rw [hfirst, List.length_append] at hlt
    omega

/-- Behind a part that is free of the second pair stands the first pair: the second one is the
first, or comes later. -/
theorem pair_cases (hab : a ≠ b) (hac : a ≠ c) (hfree : Free a c first)
    (heq : first ++ a :: b :: last = first' ++ a :: c :: last') :
    (first' = first ∧ b = c ∧ last = last') ∨
      ∃ between, first' = first ++ a :: b :: between ∧ last = between ++ a :: c :: last' := by
  obtain hlt | hlen | hgt := Nat.lt_trichotomy first.length first'.length
  · exact .inr (exists_between hab heq hlt)
  · obtain ⟨hfirst, hrest⟩ := List.append_inj heq hlen
    obtain ⟨-, hrest⟩ := List.cons.inj hrest
    obtain ⟨hbc, hlast⟩ := List.cons.inj hrest
    exact .inl ⟨hfirst.symm, hbc, hlast⟩
  · obtain ⟨between, hfirst, -⟩ := exists_between hac heq.symm hgt
    exact absurd hfirst (hfree first' between)

/-- A pair between two parts that are free of another pair makes no such pair. -/
theorem Free.append_pair (hab : a ≠ b) (hac : a ≠ c) (hbc : b ≠ c) (hfirst : Free a c first)
    (hlast : Free a c last) : Free a c (first ++ a :: b :: last) := by
  intro pre post heq
  obtain ⟨-, hbc', -⟩ | ⟨between, -, hpost⟩ := pair_cases hab hac hfirst heq
  · exact hbc hbc'
  · exact hlast between post hpost

section

variable [DecidableEq α]

/-- The first index at which `needle` occurs. -/
def indexOf (needle : List α) : List α → Option ℕ
  | [] => if needle = [] then some 0 else none
  | x :: rest =>
      if needle.isPrefixOf (x :: rest) then some 0 else (indexOf needle rest).map (· + 1)

theorem indexOf_pair_some {l : List α} {i : ℕ} (h : indexOf [a, b] l = some i) :
    ∃ first last, l = first ++ a :: b :: last ∧ first.length = i ∧ Free a b first := by
  induction l generalizing i with
  | nil => simp [indexOf] at h
  | cons x rest ih =>
    unfold indexOf at h
    by_cases hprefix : [a, b].isPrefixOf (x :: rest) = true
    · rw [if_pos hprefix] at h
      obtain ⟨last, hlast⟩ := List.isPrefixOf_iff_prefix.mp hprefix
      refine ⟨[], last, hlast.symm, Option.some.inj h, ?_⟩
      intro pre post heq
      simp at heq
    · rw [if_neg hprefix] at h
      obtain ⟨j, hj, hi⟩ := Option.map_eq_some_iff.mp h
      obtain ⟨first, last, hrest, hlen, hfree⟩ := ih hj
      refine ⟨x :: first, last, by rw [hrest, List.cons_append], by simp [hlen, hi], ?_⟩
      refine free_cons hfree fun hx hhead => hprefix ?_
      obtain ⟨tail, rfl⟩ : ∃ tail, first = b :: tail := List.head?_eq_some_iff.mp hhead
      simp [hrest, hx]

theorem indexOf_pair_eq (hab : a ≠ b) (hfree : Free a b first) :
    indexOf [a, b] (first ++ a :: b :: last) = some first.length := by
  induction first with
  | nil => simp [indexOf]
  | cons x first ih =>
    have hprefix : [a, b].isPrefixOf (x :: (first ++ a :: b :: last)) = false := by
      rw [Bool.eq_false_iff]
      intro hprefix
      obtain ⟨post, hpost⟩ := List.isPrefixOf_iff_prefix.mp hprefix
      obtain ⟨hx, hrest⟩ := List.cons.inj hpost
      cases first with
      | nil => exact hab (List.cons.inj hrest).1.symm
      | cons y first =>
        obtain ⟨hy, -⟩ := List.cons.inj hrest
        exact hfree [] first (by rw [hx, hy]; rfl)
    have hrest : Free a b first := Free.right (show Free a b ([x] ++ first) from hfree)
    rw [List.cons_append, indexOf, hprefix, ih hrest]
    rfl

end

end EmbeddedCar.Text
