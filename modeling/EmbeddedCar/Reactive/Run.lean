import Mathlib.Logic.Basic

/-!
# Runs of a machine that reacts to events

A machine takes one step for each event. `Along` is a property of every step of a run, stated of
the state before the step and the event.
-/

namespace EmbeddedCar.Reactive

variable {σ τ ε : Type*} {step : σ → ε → σ} {P Q Allowed : σ → ε → Prop} {s : σ}

/-- `P` holds at each step of the run from `s` on the events. -/
def Along (step : σ → ε → σ) (P : σ → ε → Prop) : σ → List ε → Prop
  | _, [] => True
  | s, e :: es => P s e ∧ Along step P (step s e) es

instance Along.decidable [∀ s e, Decidable (P s e)] :
    ∀ (s : σ) (es : List ε), Decidable (Along step P s es)
  | _, [] => inferInstanceAs (Decidable True)
  | s, e :: es =>
      have := Along.decidable (step s e) es
      inferInstanceAs (Decidable (P s e ∧ Along step P (step s e) es))

theorem along_append {first second : List ε} :
    Along step P s (first ++ second) ↔
      Along step P s first ∧ Along step P (first.foldl step s) second := by
  induction first generalizing s with
  | nil => simp [Along]
  | cons e first ih => simp only [List.cons_append, Along, List.foldl_cons, ih, and_assoc]

/-- A step of a run is where the events before it lead. -/
theorem along_iff {es : List ε} :
    Along step P s es ↔
      ∀ before e after, es = before ++ e :: after → P (before.foldl step s) e := by
  constructor
  · intro h before e after hes
    rw [hes, along_append] at h
    exact h.2.1
  · intro h
    induction es generalizing s with
    | nil => trivial
    | cons e es ih =>
      refine ⟨h [] e es rfl, ih fun before e' after hes => ?_⟩
      exact h (e :: before) e' after (by rw [hes, List.cons_append])

/-- What every step keeps, as long as the events are allowed, holds where a run leads. -/
theorem invariant_foldl {I : σ → Prop} {es : List ε} (hallowed : Along step Allowed s es)
    (hs : I s) (hkeep : ∀ s e, I s → Allowed s e → I (step s e)) : I (es.foldl step s) := by
  induction es generalizing s with
  | nil => exact hs
  | cons e es ih => exact ih hallowed.2 (hkeep s e hs hallowed.1)

/-- A property of all steps follows from an invariant. -/
theorem along_of_invariant {I : σ → Prop} {es : List ε} (hallowed : Along step Allowed s es)
    (hs : I s) (hkeep : ∀ s e, I s → Allowed s e → I (step s e))
    (hP : ∀ s e, I s → Allowed s e → P s e) : Along step P s es := by
  induction es generalizing s with
  | nil => trivial
  | cons e es ih =>
    exact ⟨hP s e hs hallowed.1, ih hallowed.2 (hkeep s e hs hallowed.1)⟩

/-- Where an invariant holds `P` and `Q` say the same, and steps with `Q` keep the invariant: a
run has `P` at every step exactly when it has `Q` at every step. -/
theorem along_iff_along {I : σ → Prop} {es : List ε} (hallowed : Along step Allowed s es)
    (hs : I s) (hiff : ∀ s e, I s → Allowed s e → (P s e ↔ Q s e))
    (hkeep : ∀ s e, I s → Allowed s e → Q s e → I (step s e)) :
    Along step P s es ↔ Along step Q s es := by
  induction es generalizing s with
  | nil => exact Iff.rfl
  | cons e es ih =>
    have hstep := hiff s e hs hallowed.1
    constructor
    · intro h
      have hQ := hstep.mp h.1
      exact ⟨hQ, (ih hallowed.2 (hkeep s e hs hallowed.1 hQ)).mp h.2⟩
    · intro h
      exact ⟨hstep.mpr h.1, (ih hallowed.2 (hkeep s e hs hallowed.1 h.1)).mpr h.2⟩

/-- Every event is allowed where nothing is asked of the events. -/
theorem along_true {es : List ε} : Along step (fun _ _ => True) s es :=
  along_iff.mpr fun _ _ _ _ => trivial

/-- A property of all states of a run is one of its first state and of what each step leads to. -/
theorem reached_iff {I : σ → Prop} {es : List ε} :
    (∀ before after, es = before ++ after → I (before.foldl step s)) ↔
      I s ∧ Along step (fun s e => I (step s e)) s es := by
  induction es generalizing s with
  | nil =>
    constructor
    · intro h
      exact ⟨h [] [] rfl, trivial⟩
    · intro ⟨hs, _⟩ before after hes
      rw [(List.append_eq_nil_iff.mp hes.symm).1]
      exact hs
  | cons e es ih =>
    constructor
    · intro h
      have hrest := ih.mp fun before after hes => h (e :: before) after (by rw [hes]; rfl)
      exact ⟨h [] (e :: es) rfl, hrest.1, hrest.2⟩
    · intro ⟨hs, hstep, hrest⟩ before after hes
      cases before with
      | nil => exact hs
      | cons e' before =>
        obtain ⟨rfl, htail⟩ := List.cons.inj hes
        exact ih.mpr ⟨hstep, hrest⟩ before after htail

/-- A part of the state that steps on its own. -/
theorem foldl_part {part : σ → τ} {step' : τ → ε → τ}
    (hpart : ∀ s e, part (step s e) = step' (part s) e) (s : σ) (es : List ε) :
    part (es.foldl step s) = es.foldl step' (part s) := by
  induction es generalizing s with
  | nil => rfl
  | cons e es ih => rw [List.foldl_cons, List.foldl_cons, ih, hpart]

/-- What is asked of that part alone is asked of its own run. -/
theorem along_part {part : σ → τ} {step' : τ → ε → τ} {P : τ → ε → Prop} {es : List ε}
    (hpart : ∀ s e, part (step s e) = step' (part s) e) :
    Along step (fun s e => P (part s) e) s es ↔ Along step' P (part s) es := by
  induction es generalizing s with
  | nil => exact Iff.rfl
  | cons e es ih =>
    have hrest := ih (s := step s e)
    rw [hpart] at hrest
    exact and_congr_right' hrest

end EmbeddedCar.Reactive
