import EmbeddedCar.Concurrent.Program
import EmbeddedCar.Reactive.Path

/-!
# Sequences of calls

The calls of an interface one after another, with what they return. Where every call is one step
of an abstract relation, a sequence of calls is a run of it, however the other threads move
meanwhile.
-/

namespace EmbeddedCar.Concurrent

open EmbeddedCar.Reactive

variable {Op : Type} {Res : Op → Type} {σ Choice Turn : Type} {Call β τ : Type}

/-- The calls of a program, and what they returned. -/
def Prog.results (program : Call → Prog Op Res β) : List Call → Prog Op Res (List β)
  | [] => return []
  | call :: calls => do
      let value ← program call
      let values ← Prog.results program calls
      return value :: values

/-- The calls and what they returned are a run of the abstract relation, and the state represents
where it ends. -/
def Simulated (Step : τ → Call × β → τ → Prop) (Rep : τ → σ → Prop) (a : τ) (calls : List Call)
    (values : List β) (s : σ) : Prop :=
  values.length = calls.length ∧ ∃ a', Path Step a (calls.zip values) a' ∧ Rep a' s

namespace Machine

variable {M : Machine Op Res σ Choice Turn} {Step : τ → Call × β → τ → Prop}
variable {Rep : τ → σ → Prop} {program : Call → Prog Op Res β}

theorem simulated_stable (hstable : ∀ a, M.Stable (Rep a)) {a : τ} {calls : List Call}
    {values : List β} : M.Stable (Simulated Step Rep a calls values) := by
  rintro s t ⟨hlength, a', hpath, hs⟩ henv
  exact ⟨hlength, a', hpath, hstable a' s t hs henv⟩

/-- Call by call. -/
theorem triple_results (hstable : ∀ a, M.Stable (Rep a))
    (hcall : ∀ a call, M.Triple (Rep a) (program call) fun value s =>
      ∃ a', Step a (call, value) a' ∧ Rep a' s) (calls : List Call) (a : τ) :
    M.Triple (Rep a) (Prog.results program calls) (Simulated Step Rep a calls) := by
  induction calls generalizing a with
  | nil => exact triple_ret (hstable a) fun s hs => ⟨rfl, a, .nil a, hs⟩
  | cons call calls ih =>
    refine triple_bind (hcall a call) fun value => ?_
    rintro s ⟨a₁, hstep, hs⟩
    refine triple_bind (ih a₁) (fun values => ?_) s hs
    refine triple_ret (simulated_stable hstable) fun t ht => ?_
    obtain ⟨hlength, a', hpath, ht⟩ := ht
    exact ⟨congrArg Nat.succ hlength, a', .cons hstep hpath, ht⟩

end Machine

end EmbeddedCar.Concurrent
