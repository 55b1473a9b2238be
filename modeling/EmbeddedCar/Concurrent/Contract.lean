import EmbeddedCar.Concurrent.Program

/-!
# Contracts

A demand says what has to hold of the state when an operation is performed: a thread may be
joined only once, a handle may be overwritten only when its thread has been joined. A proviso
restricts the runs considered to those in which every configuration left satisfies it. A program
meets its demands when no run under the proviso reaches an operation whose demand fails.
-/

namespace EmbeddedCar.Concurrent

/-- A condition on configurations that speaks about what the program does next only: it holds of
a program when it holds of that program followed by another. -/
structure Proviso (Op : Type) (Res : Op → Type) (σ : Type) where
  holds : ∀ {α : Type}, Prog Op Res α → σ → Prop
  of_bind : ∀ {α β : Type} (p : Prog Op Res β) (f : β → Prog Op Res α) (s : σ),
    holds (p >>= f) s → holds p s

namespace Proviso

variable {Op : Type} {Res : Op → Type} {σ : Type}

/-- No restriction. -/
def none : Proviso Op Res σ where
  holds := fun _ _ => True
  of_bind := fun _ _ _ _ => trivial

/-- A condition on the state alone. -/
def ofState (P : σ → Prop) : Proviso Op Res σ where
  holds := fun _ s => P s
  of_bind := fun _ _ _ h => h

end Proviso

namespace Machine

variable {Op : Type} {Res : Op → Type} {σ Choice Turn : Type} {α β : Type}
variable (M : Machine Op Res σ Choice Turn) (A : Proviso Op Res σ)

/-- Steps all of which start where the proviso holds. -/
def StepsUnder : Prog Op Res α × σ → Prog Op Res α × σ → Prop :=
  Relation.ReflTransGen fun c d => A.holds c.1 c.2 ∧ M.Step c d

/-- From this state every run of the program under the proviso meets the demand before each
operation, and a return satisfies `Q`. -/
def meets (D : Op → σ → Prop) : Prog Op Res α → (α → σ → Prop) → σ → Prop
  | .ret value, Q => fun s => ∀ t, M.EnvSteps s t → Q value t
  | .op o next, Q => fun s => ∀ t, M.EnvSteps s t → A.holds (.op o next) t →
      D o t ∧ ∀ result u, M.Exec o t result u → meets D (next result) Q u

/-- From every state in `P` the program meets its demands and ends in `Q`. -/
def Contract (D : Op → σ → Prop) (P : σ → Prop) (p : Prog Op Res α) (Q : α → σ → Prop) : Prop :=
  ∀ s, P s → M.meets A D p Q s

variable {M A} {D : Op → σ → Prop} {P R : σ → Prop} {Q : α → σ → Prop}

/-! ### Runs -/

theorem stepsUnder_steps {c d : Prog Op Res α × σ} (h : M.StepsUnder A c d) : M.Steps c d := by
  induction h with
  | refl => exact .refl
  | tail _ hstep ih => exact ih.tail hstep.2

theorem steps_stepsUnder {c d : Prog Op Res α × σ} (h : M.Steps c d) :
    M.StepsUnder .none c d := by
  induction h with
  | refl => exact .refl
  | tail _ hstep ih => exact ih.tail ⟨trivial, hstep⟩

/-- Where an invariant of all steps holds, every run is one under it. -/
theorem stepsUnder_ofState {I : σ → Prop} (hstable : ∀ s t, I s → M.Env s t → I t)
    (hkeep : ∀ o s result t, I s → M.Exec o s result t → I t) {p q : Prog Op Res α} {s t : σ}
    (hs : I s) (h : M.Steps (p, s) (q, t)) :
    M.StepsUnder (.ofState I) (p, s) (q, t) ∧ I t := by
  generalize hc : (p, s) = c at h
  generalize hd : (q, t) = d at h
  induction h generalizing q t with
  | refl =>
    obtain ⟨rfl, rfl⟩ := Prod.mk.inj (hc.trans hd.symm)
    exact ⟨.refl, hs⟩
  | @tail c' _ _ hstep ih =>
    obtain ⟨q', t'⟩ := c'
    obtain ⟨hsteps, hI⟩ := ih rfl
    subst hd
    refine ⟨hsteps.tail ⟨hI, hstep⟩, ?_⟩
    cases hstep with
    | op hexec => exact hkeep _ _ _ _ hI hexec
    | env henv => exact hstable _ _ hI henv

/-- What every step from a state with the proviso keeps. -/
theorem stepsUnder_invariant {P I : σ → Prop} (henv : ∀ s t, P s → I s → M.Env s t → I t)
    (hexec : ∀ o s result t, P s → I s → M.Exec o s result t → I t) {c d : Prog Op Res α × σ}
    (h : M.StepsUnder (.ofState P) c d) (hs : I c.2) : I d.2 := by
  induction h with
  | refl => exact hs
  | tail _ hstep ih =>
    obtain ⟨hproviso, hstep⟩ := hstep
    cases hstep with
    | op hop => exact hexec _ _ _ _ hproviso ih hop
    | env hturn => exact henv _ _ hproviso ih hturn

theorem stable_envSteps (hstable : M.Stable P) {s t : σ} (hs : P s) (h : M.EnvSteps s t) :
    P t := by
  induction h with
  | refl => exact hs
  | tail _ hstep ih => exact hstable _ _ ih hstep

theorem meets_env {p : Prog Op Res α} {s t : σ} (h : M.meets A D p Q s)
    (henv : M.EnvSteps s t) : M.meets A D p Q t := by
  cases p with
  | ret value => exact fun u hu => h u (henv.trans hu)
  | op o next => exact fun u hu => h u (henv.trans hu)

/-- What is left of the program meets its demands too. -/
theorem meets_steps {p q : Prog Op Res α} {s t : σ} (h : M.meets A D p Q s)
    (hsteps : M.StepsUnder A (p, s) (q, t)) : M.meets A D q Q t := by
  generalize hc : (p, s) = c at hsteps
  generalize hd : (q, t) = d at hsteps
  induction hsteps generalizing q t with
  | refl =>
    obtain ⟨rfl, rfl⟩ := Prod.mk.inj (hc.trans hd.symm)
    exact h
  | tail _ hstep ih =>
    obtain ⟨hproviso, hstep⟩ := hstep
    cases hstep with
    | op hexec =>
      obtain ⟨rfl, rfl⟩ := Prod.mk.inj hd
      exact (ih rfl _ .refl hproviso).2 _ _ hexec
    | env henv =>
      obtain ⟨rfl, rfl⟩ := Prod.mk.inj hd
      exact meets_env (ih rfl) (.single henv)

/-- The demand of an operation a run reaches. -/
theorem contract_demand {p : Prog Op Res α} {o : Op} {next : Res o → Prog Op Res α} {s t : σ}
    (h : M.Contract A D P p Q) (hs : P s) (hsteps : M.StepsUnder A (p, s) (.op o next, t))
    (hproviso : A.holds (.op o next) t) : D o t :=
  (meets_steps (h s hs) hsteps t .refl hproviso).1

theorem contract_runs {p : Prog Op Res α} {s t : σ} {value : α} (h : M.Contract A D P p Q)
    (hs : P s) (hsteps : M.StepsUnder A (p, s) (.ret value, t)) : Q value t :=
  meets_steps (h s hs) hsteps t .refl

/-- What the other threads keep, and every operation whose demand is met, holds wherever a run
of the program leads. -/
theorem contract_invariant {I : σ → Prop} (hstable : M.Stable I)
    (hkeep : ∀ o s result t, I s → D o s → M.Exec o s result t → I t) {p q : Prog Op Res α}
    {s t : σ} (h : M.Contract A D P p Q) (hs : P s) (hI : I s)
    (hsteps : M.StepsUnder A (p, s) (q, t)) : I t := by
  generalize hc : (p, s) = c at hsteps
  generalize hd : (q, t) = d at hsteps
  induction hsteps generalizing q t with
  | refl =>
    obtain ⟨rfl, rfl⟩ := Prod.mk.inj (hc.trans hd.symm)
    exact hI
  | @tail c' _ hbefore hstep ih =>
    obtain ⟨q', t'⟩ := c'
    subst hc
    have hmeets := meets_steps (h s hs) hbefore
    obtain ⟨hproviso, hstep⟩ := hstep
    cases hstep with
    | op hexec =>
      obtain ⟨rfl, rfl⟩ := Prod.mk.inj hd
      exact hkeep _ _ _ _ (ih rfl) (hmeets _ .refl hproviso).1 hexec
    | env henv =>
      obtain ⟨rfl, rfl⟩ := Prod.mk.inj hd
      exact hstable _ _ (ih rfl) henv

/-! ### Rules -/

theorem meets_mono {Q' : α → σ → Prop} (hQ : ∀ value t, Q value t → Q' value t)
    {p : Prog Op Res α} {s : σ} (h : M.meets A D p Q s) : M.meets A D p Q' s := by
  induction p generalizing s with
  | ret value => exact fun t ht => hQ value t (h t ht)
  | op o next ih =>
    intro t ht hproviso
    obtain ⟨hdemand, hnext⟩ := h t ht hproviso
    exact ⟨hdemand, fun result u hu => ih result (hnext result u hu)⟩

theorem meets_bind {p : Prog Op Res β} {f : β → Prog Op Res α} {s : σ}
    (h : M.meets A D p (fun value t => M.meets A D (f value) Q t) s) :
    M.meets A D (p >>= f) Q s := by
  induction p generalizing s with
  | ret value => exact h s .refl
  | op o next ih =>
    intro t ht hproviso
    obtain ⟨hdemand, hnext⟩ := h t ht (A.of_bind (.op o next) f t hproviso)
    exact ⟨hdemand, fun result u hu => ih result (hnext result u hu)⟩

theorem contract_ret (hstable : M.Stable P) {value : α} (h : ∀ t, P t → Q value t) :
    M.Contract A D P (.ret value) Q :=
  fun _ hs t ht => h t (stable_envSteps hstable hs ht)

/-- An operation: its demand follows from the assertion before it, and its effect gives the
assertion before the rest. -/
theorem contract_op (hstable : M.Stable P) {o : Op} {next : Res o → Prog Op Res α}
    {N : Res o → σ → Prop}
    (hdemand : ∀ s, P s → A.holds (.op o next) s → D o s)
    (hexec : ∀ s result t, P s → A.holds (.op o next) s → M.Exec o s result t → N result t)
    (hnext : ∀ result, M.Contract A D (N result) (next result) Q) :
    M.Contract A D P (.op o next) Q := by
  intro s hs t ht hproviso
  have hPt := stable_envSteps hstable hs ht
  exact ⟨hdemand t hPt hproviso,
    fun result u hu => hnext result u (hexec t result u hPt hproviso hu)⟩

theorem contract_bind {p : Prog Op Res β} {f : β → Prog Op Res α} {N : β → σ → Prop}
    (hp : M.Contract A D P p N) (hf : ∀ value, M.Contract A D (N value) (f value) Q) :
    M.Contract A D P (p >>= f) Q :=
  fun s hs => meets_bind (meets_mono (fun value t ht => hf value t ht) (hp s hs))

theorem contract_conseq {p : Prog Op Res α} {Q' : α → σ → Prop} (h : M.Contract A D P p Q)
    (hP : ∀ s, R s → P s) (hQ : ∀ value t, Q value t → Q' value t) :
    M.Contract A D R p Q' :=
  fun s hs => meets_mono hQ (h s (hP s hs))

/-- A program keeps what every operation it uses keeps, when these make no demands. -/
theorem contract_uses {allowed : Op → Prop} (hstable : M.Stable P)
    (hdemand : ∀ o, allowed o → ∀ s, P s → D o s)
    (hkeep : ∀ o, allowed o → ∀ s result t, P s → M.Exec o s result t → P t)
    {p : Prog Op Res α} (h : p.Uses allowed) : M.Contract A D P p fun _ => P := by
  induction p with
  | ret value => exact contract_ret hstable fun _ ht => ht
  | op o next ih =>
    apply contract_op (N := fun _ => P) hstable
    · exact fun s hs _ => hdemand o h.1 s hs
    · exact fun s result t hs _ hexec => hkeep o h.1 s result t hs hexec
    · exact fun result => ih result (h.2 result)

/-- What a program uses may be added to its demands. -/
theorem contract_uses_demand {allowed : Op → Prop} {p : Prog Op Res α}
    (h : M.Contract A D P p Q) (hp : p.Uses allowed) :
    M.Contract A (fun o s => allowed o ∧ D o s) P p Q := by
  intro s hs
  have hmeets := h s hs
  clear hs h
  induction p generalizing s with
  | ret value => exact hmeets
  | op o next ih =>
    intro t ht hproviso
    obtain ⟨hdemand, hnext⟩ := hmeets t ht hproviso
    exact ⟨⟨hp.1, hdemand⟩, fun result u hu => ih result (hp.2 result) u (hnext result u hu)⟩

theorem contract_sequence {ps : List (Prog Op Res Unit)} (hstable : M.Stable P)
    (h : ∀ p ∈ ps, M.Contract A D P p fun _ => P) :
    M.Contract A D P (Prog.sequence ps) fun _ => P := by
  induction ps with
  | nil => exact contract_ret hstable fun _ ht => ht
  | cons p ps ih =>
    apply contract_bind (N := fun _ => P)
    · exact h p List.mem_cons_self
    · intro _
      exact ih fun q hq => h q (List.mem_cons_of_mem _ hq)

/-! ### Schedules under a proviso -/

variable (M) in
/-- Play a schedule as long as every configuration left passes a test. -/
def playWhile (test : Prog Op Res α → σ → Bool) :
    List (Choice ⊕ Turn) → Prog Op Res α → σ → Option (Prog Op Res α × σ)
  | [], p, s => some (p, s)
  | move :: moves, p, s =>
      if test p s then (M.play [move] p s).bind fun c => playWhile test moves c.1 c.2 else none

theorem play_one {move : Choice ⊕ Turn} {p q : Prog Op Res α} {s t : σ}
    (h : M.play [move] p s = some (q, t)) : (q, t) = (p, s) ∨ M.Step (p, s) (q, t) := by
  cases move with
  | inl choice =>
    cases p with
    | ret value =>
      cases h
      exact .inl rfl
    | op o next =>
      simp only [play] at h
      split at h
      · cases h
      · next result u hperform =>
        cases h
        exact .inr (.op ⟨choice, hperform⟩)
  | inr turn =>
    simp only [play] at h
    split at h
    · cases h
    · next u hturn =>
      cases h
      exact .inr (.env ⟨turn, hturn⟩)

theorem playWhile_stepsUnder {test : Prog Op Res α → σ → Bool}
    (htest : ∀ p s, test p s = true → A.holds p s)
    {moves : List (Choice ⊕ Turn)} {p q : Prog Op Res α} {s t : σ}
    (h : M.playWhile test moves p s = some (q, t)) : M.StepsUnder A (p, s) (q, t) := by
  induction moves generalizing p s with
  | nil =>
    cases h
    exact .refl
  | cons move moves ih =>
    simp only [playWhile] at h
    split at h
    · next hs =>
      obtain ⟨⟨r, u⟩, hone, hrest⟩ := Option.bind_eq_some_iff.mp h
      rcases play_one hone with heq | hstep
      · cases heq
        exact ih hrest
      · exact .head ⟨htest p s hs, hstep⟩ (ih hrest)
    · cases h

end Machine

end EmbeddedCar.Concurrent
