import Mathlib.Algebra.BigOperators.Group.List.Basic
import Mathlib.Tactic.Ring

/-!
# Programs with a clock

A program makes calls that sleep, and reads a clock that does not jump. Every call and every
reading may take longer than it has to; how much is a parameter. `untilDeadline` is the loop that
polls the clock: it ends if its body sleeps at all, not before its deadline, and it begins no pass
after it.
-/

namespace EmbeddedCar.Concurrent

variable {α : Type*}

/-- The time, what has been called, and the number of calls and readings. -/
structure Clocked (α : Type*) where
  now : Int := 0
  calls : List α := []
  steps : Nat := 0

namespace Clocked

variable (late : Nat → Nat) (sleeps : α → Int)

/-- A call, which may be late. -/
def perform (s : Clocked α) (call : α) : Clocked α where
  now := s.now + sleeps call + late s.steps
  calls := s.calls ++ [call]
  steps := s.steps + 1

def performAll (s : Clocked α) (calls : List α) : Clocked α := calls.foldl (perform late sleeps) s

/-- A reading of the clock. -/
def time (s : Clocked α) : Int × Clocked α :=
  let now := s.now + late s.steps
  (now, { s with now := now, steps := s.steps + 1 })

/-- `while (time() - start < duration) body`; `none` is a loop that goes on for more than `fuel`
passes. -/
def untilDeadline (body : List α) (start duration : Int) : Nat → Clocked α → Option (Clocked α)
  | 0, _ => none
  | fuel + 1, s =>
      let (now, s) := s.time late
      if now - start < duration then
        untilDeadline body start duration fuel (s.performAll late sleeps body)
      else some s

/-- The time that the calls sleep. -/
def sleptIn (calls : List α) : Int := (calls.map sleeps).sum

variable {late sleeps} {body : List α} {start duration : Int} {s s' : Clocked α} {fuel : Nat}

theorem calls_performAll (s : Clocked α) (calls : List α) :
    (s.performAll late sleeps calls).calls = s.calls ++ calls := by
  induction calls generalizing s with
  | nil => simp [performAll]
  | cons call calls ih =>
    have hrest := ih (s.perform late sleeps call)
    simpa [performAll, perform] using hrest

theorem now_performAll (late : Nat → Nat) (sleeps : α → Int) (s : Clocked α) (calls : List α) :
    s.now + sleptIn sleeps calls ≤ (s.performAll late sleeps calls).now ∧
      ((∀ k, late k = 0) →
        (s.performAll late sleeps calls).now = s.now + sleptIn sleeps calls) := by
  induction calls generalizing s with
  | nil => simp [performAll, sleptIn]
  | cons call calls ih =>
    obtain ⟨hle, heq⟩ := ih (s.perform late sleeps call)
    simp only [performAll, List.foldl_cons, perform, sleptIn, List.map_cons, List.sum_cons]
      at hle heq ⊢
    refine ⟨by omega, fun hlate => ?_⟩
    rw [heq hlate, hlate]
    omega

/-- What the loop has done when it ends after `n` passes. -/
structure Ended (late : Nat → Nat) (sleeps : α → Int) (body : List α) (start duration : Int)
    (s s' : Clocked α) (n : Nat) : Prop where
  calls : s'.calls = s.calls ++ (List.replicate n body).flatten
  /-- Not before the deadline. -/
  waited : start + duration ≤ s'.now
  /-- The last pass began before it. -/
  began : 0 < n → s.now + (n - 1) * sleptIn sleeps body < start + duration
  punctual : (∀ k, late k = 0) → s'.now = s.now + n * sleptIn sleeps body

/-- One more pass before a loop that ends. -/
theorem Ended.pass {s₁ : Clocked α} {n : Nat} (hnow : s₁.now = s.now + late s.steps)
    (hcalls : s₁.calls = s.calls) (hbefore : s₁.now - start < duration)
    (h : Ended late sleeps body start duration (s₁.performAll late sleeps body) s' n) :
    Ended late sleeps body start duration s s' (n + 1) := by
  obtain ⟨hle, heq⟩ := now_performAll late sleeps s₁ body
  have hprod : ((n + 1 : Nat) : Int) * sleptIn sleeps body =
      n * sleptIn sleeps body + sleptIn sleeps body := by
    push_cast
    ring
  refine ⟨?_, h.waited, fun _ => ?_, fun hlate => ?_⟩
  · rw [h.calls, calls_performAll, hcalls, List.replicate_succ, List.flatten_cons,
      List.append_assoc]
  · have hlast : (((n + 1 : Nat) : Int) - 1) * sleptIn sleeps body = n * sleptIn sleeps body := by
      push_cast
      ring
    rw [hlast]
    cases n with
    | zero => simp; omega
    | succ n =>
      have hbegan := h.began (Nat.succ_pos n)
      have hstep : (((n + 1 : Nat) : Int) - 1) * sleptIn sleeps body + sleptIn sleeps body =
          ((n + 1 : Nat) : Int) * sleptIn sleeps body := by ring
      omega
  · rw [h.punctual hlate, heq hlate, hnow, hlate, hprod]
    omega

/-- A loop whose body sleeps ends, however late everything is. -/
theorem untilDeadline_ends (late : Nat → Nat) (hsleeps : 0 < sleptIn sleeps body)
    (start duration : Int) (s : Clocked α) :
    ∃ n s', Ended late sleeps body start duration s s' n ∧
      ∀ fuel, n < fuel → untilDeadline late sleeps body start duration fuel s = some s' := by
  -- by induction on the time that is left
  induction hleft : (start + duration - s.now).toNat using Nat.strong_induction_on generalizing s
    with
  | _ left ih =>
    subst hleft
    let s₁ := (s.time late).2
    have hnow : s₁.now = s.now + late s.steps := rfl
    by_cases hbefore : s₁.now - start < duration
    · obtain ⟨hle, -⟩ := now_performAll late sleeps s₁ body
      obtain ⟨n, s', hended, hfuel⟩ := ih _ (by omega) (s₁.performAll late sleeps body) rfl
      refine ⟨n + 1, s', hended.pass hnow rfl hbefore, fun fuel hlt => ?_⟩
      obtain ⟨fuel, rfl⟩ := Nat.exists_eq_succ_of_ne_zero (by omega : fuel ≠ 0)
      rw [untilDeadline]
      exact (if_pos hbefore).trans (hfuel fuel (by omega))
    · refine ⟨0, s₁, ⟨by simp [s₁, time], by omega, nofun, fun hlate => ?_⟩, fun fuel hlt => ?_⟩
      · rw [hnow, hlate]
        simp
      · obtain ⟨fuel, rfl⟩ := Nat.exists_eq_succ_of_ne_zero (by omega : fuel ≠ 0)
        rw [untilDeadline]
        exact if_neg hbefore

end Clocked

end EmbeddedCar.Concurrent
