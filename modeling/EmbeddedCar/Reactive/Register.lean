import Mathlib.Data.List.Induction

/-!
# A register

A machine whose state is one value that some events write and the others leave. After a run it
holds what the last of the writing events wrote.
-/

namespace EmbeddedCar.Reactive

variable {ε α : Type*} {writes : ε → α → Prop} {events : List ε} {e : ε} {a : α}

/-- The event writes nothing. -/
def Leaves (writes : ε → α → Prop) (e : ε) : Prop := ∀ b, ¬ writes e b

/-- The last event that writes anything writes `a`. -/
def LastWritten (writes : ε → α → Prop) (events : List ε) (a : α) : Prop :=
  ∃ earlier e later, events = earlier ++ e :: later ∧ writes e a ∧ ∀ e' ∈ later, Leaves writes e'

theorem not_lastWritten_nil : ¬ LastWritten writes [] a := by
  rintro ⟨earlier, e, later, hevents, -⟩
  simp at hevents

theorem lastWritten_concat :
    LastWritten writes (events ++ [e]) a ↔
      writes e a ∨ Leaves writes e ∧ LastWritten writes events a := by
  constructor
  · rintro ⟨earlier, written, later, hevents, hwrites, hlater⟩
    induction later using List.reverseRecOn with
    | nil =>
      obtain ⟨-, rfl⟩ := List.append_singleton_inj.mp hevents
      exact .inl hwrites
    | append_singleton later last _ =>
      rw [← List.cons_append, ← List.append_assoc] at hevents
      obtain ⟨rfl, rfl⟩ := List.append_singleton_inj.mp hevents
      refine .inr ⟨hlater e (by simp), earlier, written, later, rfl, hwrites, fun e' he' => ?_⟩
      exact hlater e' (List.mem_append_left _ he')
  · rintro (hwrites | ⟨hleaves, earlier, written, later, rfl, hwrites, hlater⟩)
    · exact ⟨events, e, [], rfl, hwrites, nofun⟩
    · refine ⟨earlier, written, later ++ [e], by simp, hwrites, fun e' he' => ?_⟩
      rcases List.mem_append.mp he' with he' | he'
      · exact hlater e' he'
      · rwa [List.mem_singleton.mp he']

section

variable {step : Option α → ε → Option α} {s : Option α}

/-- A run of steps that each write or leave the register. -/
theorem foldl_register
    (hstep : ∀ e ∈ events, ∀ s a, step s e = some a ↔ writes e a ∨ Leaves writes e ∧ s = some a)
    (a : α) : events.foldl step s = some a ↔
      LastWritten writes events a ∨ (∀ e ∈ events, Leaves writes e) ∧ s = some a := by
  induction events using List.reverseRecOn with
  | nil => simp [not_lastWritten_nil]
  | append_singleton events e ih =>
    have hbefore := ih fun e' he' => hstep e' (List.mem_append_left _ he')
    rw [List.foldl_append, List.foldl_cons, List.foldl_nil, hstep e (by simp), hbefore,
      lastWritten_concat, List.forall_mem_append, List.forall_mem_singleton]
    tauto

/-- The register is empty where it was and nothing has been written. -/
theorem foldl_register_none
    (hstep : ∀ e ∈ events, ∀ s a, step s e = some a ↔ writes e a ∨ Leaves writes e ∧ s = some a) :
    events.foldl step s = none ↔ (∀ e ∈ events, Leaves writes e) ∧ s = none := by
  induction events using List.reverseRecOn with
  | nil => simp
  | append_singleton events e ih =>
    have hbefore := ih fun e' he' => hstep e' (List.mem_append_left _ he')
    have hlast : ∀ t, step t e = none ↔ Leaves writes e ∧ t = none := by
      intro t
      simp only [Option.eq_none_iff_forall_ne_some, ne_eq, hstep e (by simp), not_or, not_and,
        forall_and]
      exact and_congr_right fun hleaves => forall_congr' fun _ => forall_prop_of_true hleaves
    rw [List.foldl_append, List.foldl_cons, List.foldl_nil, hlast, hbefore,
      List.forall_mem_append, List.forall_mem_singleton]
    tauto

end

end EmbeddedCar.Reactive
