import Mathlib.Logic.Basic

/-!
# Runs of a labelled relation

A system whose next state is not a function of the state and the event: a step is a relation. What
is known of a state after a run may speak of the events that led to it.
-/

namespace EmbeddedCar.Reactive

variable {σ ε : Type*} {Step : σ → ε → σ → Prop} {s u : σ}

/-- A run from one state to another on some events. -/
inductive Path (Step : σ → ε → σ → Prop) : σ → List ε → σ → Prop where
  | nil (s : σ) : Path Step s [] s
  | cons {s t u : σ} {e : ε} {es : List ε} :
      Step s e t → Path Step t es u → Path Step s (e :: es) u

theorem path_append {first second : List ε} :
    Path Step s (first ++ second) u ↔ ∃ t, Path Step s first t ∧ Path Step t second u := by
  induction first generalizing s with
  | nil =>
    constructor
    · intro h
      exact ⟨s, .nil s, h⟩
    · rintro ⟨t, hfirst, hsecond⟩
      cases hfirst
      exact hsecond
  | cons e first ih =>
    constructor
    · intro h
      cases h with
      | cons hstep hrest =>
        obtain ⟨t, hfirst, hsecond⟩ := ih.mp hrest
        exact ⟨t, .cons hstep hfirst, hsecond⟩
    · rintro ⟨t, hfirst, hsecond⟩
      cases hfirst with
      | cons hstep hrest => exact .cons hstep (ih.mpr ⟨t, hrest, hsecond⟩)

theorem path_concat {es : List ε} {e : ε} :
    Path Step s (es ++ [e]) u ↔ ∃ t, Path Step s es t ∧ Step t e u := by
  rw [path_append]
  constructor
  · rintro ⟨t, hes, hlast⟩
    cases hlast with
    | cons hstep hnil =>
      cases hnil
      exact ⟨t, hes, hstep⟩
  · rintro ⟨t, hes, hstep⟩
    exact ⟨t, hes, .cons hstep (.nil u)⟩

/-- What links the events so far and the state, and is kept by every step of the run, links all
events and the last state. -/
theorem Path.history {I : List ε → σ → Prop} {es : List ε} (h : Path Step s es u) (hs : I [] s)
    (hkeep : ∀ before t e t' after, es = before ++ e :: after → I before t → Step t e t' →
      I (before ++ [e]) t') : I es u := by
  suffices hall : ∀ before rest t, es = before ++ rest → I before t → Path Step t rest u →
      I es u from hall [] es s rfl hs h
  intro before rest
  induction rest generalizing before with
  | nil =>
    intro t hes hI hrest
    cases hrest
    rw [hes, List.append_nil]
    exact hI
  | cons e rest ih =>
    intro t hes hI hrest
    cases hrest with
    | cons hstep hrest =>
      have hsplit : es = (before ++ [e]) ++ rest := by
        rw [hes, List.append_assoc]
        rfl
      exact ih _ _ hsplit (hkeep _ _ _ _ _ hes hI hstep) hrest

end EmbeddedCar.Reactive
