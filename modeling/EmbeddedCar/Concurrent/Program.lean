import Mathlib.Logic.Relation

/-!
# Programs under interference

A program is a tree of atomic operations on a shared state. Between two of its operations the
other threads may take any number of steps. `Steps` is the resulting small-step semantics and
`wp` the weakest precondition of a program all of whose intermediate states have to satisfy a
guarantee. `Follows` is the rule used for programs whose effect on some view of the state is
known beforehand: every intermediate view is one of a given list, and the last one is final.
-/

namespace EmbeddedCar.Concurrent

/-- A program over the operations `Op`: it returns, or performs an operation and goes on with
its result. -/
inductive Prog (Op : Type) (Res : Op → Type) (α : Type) : Type where
  | ret (value : α)
  | op (o : Op) (next : Res o → Prog Op Res α)

namespace Prog

variable {Op : Type} {Res : Op → Type} {α β : Type}

protected def bind : Prog Op Res α → (α → Prog Op Res β) → Prog Op Res β
  | .ret value, f => f value
  | .op o next, f => .op o fun result => (next result).bind f

instance : Monad (Prog Op Res) where
  pure := .ret
  bind := Prog.bind

/-- The program of a single operation. -/
def call (o : Op) : Prog Op Res (Res o) := .op o .ret

/-- A statement under a condition. -/
def when (condition : Prop) [Decidable condition] (p : Prog Op Res Unit) : Prog Op Res Unit :=
  if condition then p else .ret ()

/-- The value of a program that has returned. -/
def returned : Prog Op Res α → Option α
  | .ret value => some value
  | .op _ _ => none

theorem eq_ret_of_returned {p : Prog Op Res α} {value : α} (h : p.returned = some value) :
    p = .ret value := by
  cases p with
  | ret v => rw [Option.some.inj h]
  | op o next => cases h

/-- Programs one after another. -/
def sequence : List (Prog Op Res Unit) → Prog Op Res Unit
  | [] => .ret ()
  | p :: ps => do p; sequence ps

/-- Every operation a run of the program can perform is allowed. -/
def Uses (allowed : Op → Prop) : Prog Op Res α → Prop
  | .ret _ => True
  | .op o next => allowed o ∧ ∀ result, Uses allowed (next result)

@[simp] theorem pure_eq (value : α) : (pure value : Prog Op Res α) = .ret value := rfl

@[simp] theorem ret_bind (value : α) (f : α → Prog Op Res β) :
    (Prog.ret value >>= f) = f value := rfl

@[simp] theorem op_bind (o : Op) (next : Res o → Prog Op Res α) (f : α → Prog Op Res β) :
    (Prog.op o next >>= f) = .op o fun result => next result >>= f := rfl

@[simp] theorem call_bind (o : Op) (f : Res o → Prog Op Res β) :
    ((call o : Prog Op Res (Res o)) >>= f) = .op o f := rfl

theorem bind_ret (p : Prog Op Res α) : p >>= .ret = p := by
  induction p with
  | ret value => rfl
  | op o next ih =>
    rw [op_bind]
    congr 1
    funext result
    exact ih result

theorem bind_assoc {γ : Type} (p : Prog Op Res α) (f : α → Prog Op Res β)
    (g : β → Prog Op Res γ) : p >>= f >>= g = p >>= fun value => f value >>= g := by
  induction p with
  | ret value => rfl
  | op o next ih =>
    simp only [op_bind]
    congr 1
    funext result
    exact ih result

theorem uses_bind {allowed : Op → Prop} {p : Prog Op Res α} {f : α → Prog Op Res β}
    (hp : p.Uses allowed) (hf : ∀ value, (f value).Uses allowed) : (p >>= f).Uses allowed := by
  induction p with
  | ret value => exact hf value
  | op o next ih => exact ⟨hp.1, fun result => ih result (hp.2 result)⟩

theorem uses_mono {allowed allowed' : Op → Prop} (h : ∀ o, allowed o → allowed' o)
    {p : Prog Op Res α} (hp : p.Uses allowed) : p.Uses allowed' := by
  induction p with
  | ret value => trivial
  | op o next ih => exact ⟨h o hp.1, fun result => ih result (hp.2 result)⟩

end Prog

/-- What an operation does, under a choice of the outside world, and what a turn of another
thread does. `none` is an operation that has to wait, or a turn that cannot be taken. -/
structure Machine (Op : Type) (Res : Op → Type) (σ Choice Turn : Type) where
  perform : (o : Op) → Choice → σ → Option (Res o × σ)
  interfere : Turn → σ → Option σ

namespace Machine

variable {Op : Type} {Res : Op → Type} {σ Choice Turn : Type} {α β : Type}
variable (M : Machine Op Res σ Choice Turn)

/-- Operation `o` can lead from `s` to `t` with the given result. -/
def Exec (o : Op) (s : σ) (result : Res o) (t : σ) : Prop :=
  ∃ choice, M.perform o choice s = some (result, t)

/-- One step of another thread. -/
def Env (s t : σ) : Prop := ∃ turn, M.interfere turn s = some t

/-- Any number of steps of the other threads. -/
def EnvSteps : σ → σ → Prop := Relation.ReflTransGen M.Env

/-- One step of a program that runs together with the other threads. -/
inductive Step : Prog Op Res α × σ → Prog Op Res α × σ → Prop where
  | op {o : Op} {next : Res o → Prog Op Res α} {s t : σ} {result : Res o} :
      M.Exec o s result t → Step (.op o next, s) (next result, t)
  | env {p : Prog Op Res α} {s t : σ} : M.Env s t → Step (p, s) (p, t)

/-- Reachability of a configuration: what is left of the program, and the state. -/
def Steps : Prog Op Res α × σ → Prog Op Res α × σ → Prop :=
  Relation.ReflTransGen M.Step

/-- A complete run of `p` from `s`, in any interleaving, that returns `value` in `t`. -/
def Runs (p : Prog Op Res α) (s : σ) (value : α) (t : σ) : Prop :=
  M.Steps (p, s) (.ret value, t)

/-- The weakest precondition of `p`: every state met on the way, those left by other threads
included, satisfies `G`, and a return satisfies `Q`. -/
def wp (G : σ → Prop) : Prog Op Res α → (α → σ → Prop) → σ → Prop
  | .ret value, Q => fun s => ∀ t, M.EnvSteps s t → G t ∧ Q value t
  | .op o next, Q => fun s => ∀ t, M.EnvSteps s t →
      G t ∧ ∀ result u, M.Exec o t result u → wp G (next result) Q u

variable {M} {G : σ → Prop} {Q : α → σ → Prop}

theorem wp_env {p : Prog Op Res α} {s t : σ} (h : M.wp G p Q s) (henv : M.EnvSteps s t) :
    M.wp G p Q t := by
  cases p with
  | ret value => exact fun u hu => h u (henv.trans hu)
  | op o next => exact fun u hu => h u (henv.trans hu)

theorem wp_guarantee {p : Prog Op Res α} {s : σ} (h : M.wp G p Q s) : G s := by
  cases p with
  | ret value => exact (h s .refl).1
  | op o next => exact (h s .refl).1

theorem wp_mono {G' : σ → Prop} {Q' : α → σ → Prop} (hG : ∀ t, G t → G' t)
    (hQ : ∀ value t, Q value t → Q' value t) {p : Prog Op Res α} {s : σ}
    (h : M.wp G p Q s) : M.wp G' p Q' s := by
  induction p generalizing s with
  | ret value =>
    intro t ht
    obtain ⟨hGt, hQt⟩ := h t ht
    exact ⟨hG t hGt, hQ value t hQt⟩
  | op o next ih =>
    intro t ht
    obtain ⟨hGt, hnext⟩ := h t ht
    exact ⟨hG t hGt, fun result u hu => ih result (hnext result u hu)⟩

/-- Sequential composition. -/
theorem wp_bind {p : Prog Op Res β} {f : β → Prog Op Res α} {s : σ}
    (h : M.wp G p (fun value t => M.wp G (f value) Q t) s) : M.wp G (p >>= f) Q s := by
  induction p generalizing s with
  | ret value => exact (h s .refl).2
  | op o next ih =>
    intro t ht
    obtain ⟨hGt, hnext⟩ := h t ht
    exact ⟨hGt, fun result u hu => ih result (hnext result u hu)⟩

/-- An assertion that the other threads keep carries an operation. -/
theorem wp_op {P : σ → Prop} (hstable : ∀ s t, P s → M.Env s t → P t) (hG : ∀ s, P s → G s)
    {o : Op} {next : Res o → Prog Op Res α} {s : σ} (hs : P s)
    (h : ∀ t result u, P t → M.Exec o t result u → M.wp G (next result) Q u) :
    M.wp G (.op o next) Q s := by
  intro t ht
  have hPt : P t := by
    induction ht with
    | refl => exact hs
    | tail _ hstep ih => exact hstable _ _ ih hstep
  exact ⟨hG t hPt, fun result u hu => h t result u hPt hu⟩

/-- An assertion that the other threads keep carries a return. -/
theorem wp_ret {P : σ → Prop} (hstable : ∀ s t, P s → M.Env s t → P t) (hG : ∀ s, P s → G s)
    {value : α} {s : σ} (hs : P s) (hQ : ∀ t, P t → Q value t) :
    M.wp G (.ret value) Q s := by
  intro t ht
  have hPt : P t := by
    induction ht with
    | refl => exact hs
    | tail _ hstep ih => exact hstable _ _ ih hstep
  exact ⟨hG t hPt, hQ t hPt⟩

/-- An assertion that every operation a program uses keeps. -/
theorem wp_uses {P : σ → Prop} {allowed : Op → Prop} (hstable : ∀ s t, P s → M.Env s t → P t)
    (hG : ∀ s, P s → G s)
    (hkeep : ∀ o, allowed o → ∀ s result t, P s → M.Exec o s result t → P t)
    {p : Prog Op Res α} (h : p.Uses allowed) {s : σ} (hs : P s) :
    M.wp G p (fun _ => P) s := by
  induction p generalizing s with
  | ret value => exact wp_ret hstable hG hs fun _ ht => ht
  | op o next ih =>
    refine wp_op hstable hG hs fun t result u ht hu => ?_
    exact ih result (h.2 result) (hkeep o h.1 t result u ht hu)

/-- The precondition is kept along every step. -/
theorem wp_steps {p q : Prog Op Res α} {s t : σ} (h : M.wp G p Q s)
    (hsteps : M.Steps (p, s) (q, t)) : M.wp G q Q t := by
  generalize hc : (p, s) = c at hsteps
  generalize hd : (q, t) = d at hsteps
  induction hsteps generalizing q t with
  | refl =>
    obtain ⟨rfl, rfl⟩ := Prod.mk.inj (hc.trans hd.symm)
    exact h
  | tail _ hstep ih =>
    cases hstep with
    | op hexec =>
      obtain ⟨rfl, rfl⟩ := Prod.mk.inj hd
      exact (ih rfl _ .refl).2 _ _ hexec
    | env henv =>
      obtain ⟨rfl, rfl⟩ := Prod.mk.inj hd
      exact wp_env (ih rfl) (.single henv)

/-- Every state met on the way satisfies the guarantee. -/
theorem wp_visited {p q : Prog Op Res α} {s t : σ} (h : M.wp G p Q s)
    (hsteps : M.Steps (p, s) (q, t)) : G t :=
  wp_guarantee (wp_steps h hsteps)

/-- A completed run satisfies the postcondition. -/
theorem wp_runs {p : Prog Op Res α} {s t : σ} {value : α} (h : M.wp G p Q s)
    (hruns : M.Runs p s value t) : Q value t :=
  (wp_steps h hruns t .refl).2

/-! ### Assertions a program keeps -/

variable (M)

/-- An assertion that the other threads keep. -/
def Stable (P : σ → Prop) : Prop := ∀ s t, P s → M.Env s t → P t

/-- A triple: from `P`, every completed run of `p` ends in `Q`. -/
def Triple (P : σ → Prop) (p : Prog Op Res α) (Q : α → σ → Prop) : Prop :=
  ∀ s, P s → M.wp (fun _ => True) p Q s

variable {M} {P R : σ → Prop}

theorem triple_ret (hstable : M.Stable P) {value : α} (h : ∀ t, P t → Q value t) :
    M.Triple P (.ret value) Q :=
  fun _ hs => wp_ret hstable (fun _ _ => trivial) hs h

theorem triple_op (hstable : M.Stable P) {o : Op} {next : Res o → Prog Op Res α}
    {N : Res o → σ → Prop} (hexec : ∀ s result t, P s → M.Exec o s result t → N result t)
    (hnext : ∀ result, M.Triple (N result) (next result) Q) : M.Triple P (.op o next) Q :=
  fun _ hs => wp_op hstable (fun _ _ => trivial) hs fun t result u ht hu =>
    hnext result u (hexec t result u ht hu)

theorem triple_bind {p : Prog Op Res β} {f : β → Prog Op Res α} {N : β → σ → Prop}
    (hp : M.Triple P p N) (hf : ∀ value, M.Triple (N value) (f value) Q) :
    M.Triple P (p >>= f) Q :=
  fun s hs => wp_bind (wp_mono (fun _ h => h) (fun value t ht => hf value t ht) (hp s hs))

/-- A triple whose program leaves its precondition as it is, before the rest. -/
theorem triple_keep_bind {p : Prog Op Res β} {f : β → Prog Op Res α}
    (hp : M.Triple P p fun _ => P) (hf : ∀ value, M.Triple P (f value) Q) :
    M.Triple P (p >>= f) Q :=
  triple_bind hp hf

theorem triple_conseq {p : Prog Op Res α} {Q' : α → σ → Prop} (h : M.Triple P p Q)
    (hP : ∀ s, R s → P s) (hQ : ∀ value t, Q value t → Q' value t) : M.Triple R p Q' :=
  fun s hs => wp_mono (fun _ h => h) hQ (h s (hP s hs))

theorem triple_sequence {ps : List (Prog Op Res Unit)} (hstable : M.Stable P)
    (h : ∀ p ∈ ps, M.Triple P p fun _ => P) : M.Triple P (Prog.sequence ps) fun _ => P := by
  induction ps with
  | nil => exact triple_ret hstable fun _ ht => ht
  | cons p ps ih =>
    apply triple_keep_bind
    · exact h p List.mem_cons_self
    · intro _
      exact ih fun q hq => h q (List.mem_cons_of_mem _ hq)

/-- A program keeps what every operation it uses keeps. -/
theorem triple_uses {allowed : Op → Prop} (hstable : M.Stable P)
    (hkeep : ∀ o, allowed o → ∀ s result t, P s → M.Exec o s result t → P t)
    {p : Prog Op Res α} (h : p.Uses allowed) : M.Triple P p fun _ => P := by
  induction p with
  | ret value => exact triple_ret hstable fun _ ht => ht
  | op o next ih =>
    apply triple_op (N := fun _ => P) hstable (hkeep o h.1)
    exact fun result => ih result (h.2 result)

/-- Two triples about the same program. -/
theorem triple_and {p : Prog Op Res α} {P' : σ → Prop} {Q' : α → σ → Prop}
    (h : M.Triple P p Q) (h' : M.Triple P' p Q') :
    M.Triple (fun s => P s ∧ P' s) p fun value s => Q value s ∧ Q' value s := by
  rintro s ⟨hs, hs'⟩
  have hw := h s hs
  have hw' := h' s hs'
  clear hs hs' h h'
  induction p generalizing s with
  | ret value => exact fun t ht => ⟨trivial, (hw t ht).2, (hw' t ht).2⟩
  | op o next ih =>
    intro t ht
    refine ⟨trivial, fun result u hu => ?_⟩
    exact ih result u ((hw t ht).2 result u hu) ((hw' t ht).2 result u hu)

/-- An assertion that holds of all operations a program uses holds of every state on the way. -/
theorem uses_steps {allowed : Op → Prop} (hstable : M.Stable P)
    (hkeep : ∀ o, allowed o → ∀ s result t, P s → M.Exec o s result t → P t)
    {p q : Prog Op Res α} {s t : σ} (h : p.Uses allowed) (hs : P s)
    (hsteps : M.Steps (p, s) (q, t)) : q.Uses allowed ∧ P t := by
  generalize hc : (p, s) = c at hsteps
  generalize hd : (q, t) = d at hsteps
  induction hsteps generalizing q t with
  | refl =>
    obtain ⟨rfl, rfl⟩ := Prod.mk.inj (hc.trans hd.symm)
    exact ⟨h, hs⟩
  | tail _ hstep ih =>
    cases hstep with
    | op hexec =>
      obtain ⟨rfl, rfl⟩ := Prod.mk.inj hd
      obtain ⟨⟨ho, hnext⟩, hP⟩ := ih rfl
      exact ⟨hnext _, hkeep _ ho _ _ _ hP hexec⟩
    | env henv =>
      obtain ⟨rfl, rfl⟩ := Prod.mk.inj hd
      obtain ⟨hq, hP⟩ := ih rfl
      exact ⟨hq, hstable _ _ hP henv⟩

theorem triple_runs {p : Prog Op Res α} {s t : σ} {value : α} (h : M.Triple P p Q) (hs : P s)
    (hruns : M.Runs p s value t) : Q value t :=
  wp_runs (h s hs) hruns

/-! ### Runs and sequential composition -/

/-- A run of a program followed by another is a run of the one and then of the other. -/
theorem steps_bind {p : Prog Op Res β} {f : β → Prog Op Res α} {q : Prog Op Res α} {s t : σ}
    (h : M.Steps (p >>= f, s) (q, t)) :
    (∃ p', q = p' >>= f ∧ M.Steps (p, s) (p', t)) ∨
      ∃ value u, M.Runs p s value u ∧ M.Steps (f value, u) (q, t) := by
  generalize hc : (p >>= f, s) = c at h
  generalize hd : (q, t) = d at h
  induction h generalizing q t with
  | refl =>
    obtain ⟨rfl, rfl⟩ := Prod.mk.inj (hc.trans hd.symm)
    exact .inl ⟨p, rfl, .refl⟩
  | @tail c' d' _ hstep ih =>
    obtain ⟨q', t'⟩ := c'
    rcases ih rfl with ⟨p', rfl, hp⟩ | ⟨value, u, hp, hf⟩
    · cases p' with
      | ret value =>
        subst hd
        exact .inr ⟨value, t', hp, .single hstep⟩
      | op o next =>
        rw [Prog.op_bind] at hstep
        cases hstep with
        | op hexec =>
          obtain ⟨rfl, rfl⟩ := Prod.mk.inj hd
          exact .inl ⟨_, rfl, hp.tail (.op hexec)⟩
        | env henv =>
          obtain ⟨rfl, rfl⟩ := Prod.mk.inj hd
          exact .inl ⟨.op o next, rfl, hp.tail (.env henv)⟩
    · subst hd
      exact .inr ⟨value, u, hp, hf.tail hstep⟩

theorem runs_bind {p : Prog Op Res β} {f : β → Prog Op Res α} {s t : σ} {value : α}
    (h : M.Runs (p >>= f) s value t) :
    ∃ mid u, M.Runs p s mid u ∧ M.Runs (f mid) u value t := by
  rcases steps_bind h with ⟨p', heq, hp⟩ | hruns
  · cases p' with
    | ret mid =>
      have hmid : f mid = .ret value := heq.symm
      refine ⟨mid, t, hp, ?_⟩
      rw [Runs, hmid]
      exact .refl
    | op o next => cases heq
  · exact hruns

/-- The steps of a program are steps of any program that starts with it. -/
theorem bind_steps {p p' : Prog Op Res β} {f : β → Prog Op Res α} {s t : σ}
    (h : M.Steps (p, s) (p', t)) : M.Steps (p >>= f, s) (p' >>= f, t) := by
  generalize hc : (p, s) = c at h
  generalize hd : (p', t) = d at h
  induction h generalizing p' t with
  | refl =>
    obtain ⟨rfl, rfl⟩ := Prod.mk.inj (hc.trans hd.symm)
    exact .refl
  | tail _ hstep ih =>
    cases hstep with
    | op hexec =>
      obtain ⟨rfl, rfl⟩ := Prod.mk.inj hd
      exact (ih rfl).tail (.op hexec)
    | env henv =>
      obtain ⟨rfl, rfl⟩ := Prod.mk.inj hd
      exact (ih rfl).tail (.env henv)

theorem runs_append {p : Prog Op Res β} {f : β → Prog Op Res α} {s t u : σ} {mid : β}
    {value : α} (hp : M.Runs p s mid t) (hf : M.Runs (f mid) t value u) :
    M.Runs (p >>= f) s value u :=
  (bind_steps hp).trans hf

/-- A run starts anywhere the other threads come from. -/
theorem env_runs {p : Prog Op Res α} {s t u : σ} {value : α} (henv : M.EnvSteps s t)
    (h : M.Runs p t value u) : M.Runs p s value u := by
  induction henv with
  | refl => exact h
  | tail _ hstep ih => exact ih (.head (.env hstep) h)

theorem steps_env {p : Prog Op Res α} {s t : σ} (henv : M.EnvSteps s t) :
    M.Steps (p, s) (p, t) := by
  induction henv with
  | refl => exact .refl
  | tail _ hstep ih => exact ih.tail (.env hstep)

/-- What no step of the other threads changes, all their steps leave as it was. -/
theorem envSteps_eq {f : σ → β} (hf : ∀ s t, M.Env s t → f t = f s) {s t : σ}
    (h : M.EnvSteps s t) : f t = f s := by
  induction h with
  | refl => rfl
  | tail _ henv ih => exact (hf _ _ henv).trans ih

/-- A program that has returned runs no further. -/
theorem ret_runs {value result : α} {s t : σ} (h : M.Runs (.ret value) s result t) :
    result = value := by
  have hret : M.Triple (fun _ => True) (.ret value) fun result _ => result = value :=
    triple_ret (fun _ _ _ _ => trivial) fun _ _ => rfl
  have hend := triple_runs hret trivial h
  exact hend

/-- While a program that has returned stands, only the other threads take steps. -/
theorem ret_runs_env {value result : α} {s t : σ} (h : M.Runs (.ret value) s result t) :
    M.EnvSteps s t := by
  have hret : M.Triple (M.EnvSteps s) (.ret value) fun _ => M.EnvSteps s :=
    triple_ret (fun _ _ hu henv => hu.tail henv) fun _ hu => hu
  have hend := triple_runs hret .refl h
  exact hend

/-- The first operation of a run. -/
theorem runs_op {o : Op} {next : Res o → Prog Op Res α} {s t : σ} {value : α}
    (h : M.Runs (.op o next) s value t) :
    ∃ u result w, M.EnvSteps s u ∧ M.Exec o u result w ∧ M.Runs (next result) w value t := by
  unfold Runs Steps at h
  generalize hc : (Prog.op o next, s) = c at h
  induction h using Relation.ReflTransGen.head_induction_on generalizing s with
  | refl => cases hc
  | head hstep hrest ih =>
    cases hstep with
    | op hexec =>
      cases hc
      exact ⟨s, _, _, .refl, hexec, hrest⟩
    | env henv =>
      cases hc
      obtain ⟨u, result, w, hsteps, hexec, hruns⟩ := ih rfl
      exact ⟨u, result, w, .head henv hsteps, hexec, hruns⟩

/-! ### Fewer choices -/

/-- Everything `N` can do, `M` can do. -/
structure Within {C T : Type} (N : Machine Op Res σ C T) (M : Machine Op Res σ Choice Turn) :
    Prop where
  exec : ∀ o s result t, N.Exec o s result t → M.Exec o s result t
  env : ∀ s t, N.Env s t → M.Env s t

section

variable {C T : Type} {N : Machine Op Res σ C T}

theorem Within.steps (h : N.Within M) {c d : Prog Op Res α × σ} (hsteps : N.Steps c d) :
    M.Steps c d := by
  induction hsteps with
  | refl => exact .refl
  | tail _ hstep ih =>
    cases hstep with
    | op hexec => exact ih.tail (.op (h.exec _ _ _ _ hexec))
    | env henv => exact ih.tail (.env (h.env _ _ henv))

theorem Within.runs (h : N.Within M) {p : Prog Op Res α} {s t : σ} {value : α}
    (hruns : N.Runs p s value t) : M.Runs p s value t :=
  h.steps hruns

theorem Within.envSteps (h : N.Within M) {s t : σ} (henv : N.EnvSteps s t) : M.EnvSteps s t := by
  induction henv with
  | refl => exact .refl
  | tail _ hstep ih => exact ih.tail (h.env _ _ hstep)

theorem Within.triple (h : N.Within M) {p : Prog Op Res α} (hp : M.Triple P p Q) :
    N.Triple P p Q := by
  intro s hs
  have hw := hp s hs
  clear hs hp
  induction p generalizing s with
  | ret value => exact fun t ht => hw t (h.envSteps ht)
  | op o next ih =>
    intro t ht
    refine ⟨trivial, fun result u hu => ?_⟩
    exact ih result u ((hw t (h.envSteps ht)).2 result u (h.exec _ _ _ _ hu))

theorem Within.stable (h : N.Within M) (hP : M.Stable P) : N.Stable P :=
  fun s t hs henv => hP s t hs (h.env s t henv)

end

variable (M) in
/-- The machine on which the program can perform the allowed operations only. -/
def restrict (allowed : Op → Bool) : Machine Op Res σ Choice Turn where
  perform := fun o choice s => if allowed o then M.perform o choice s else none
  interfere := M.interfere

theorem restrict_exec {allowed : Op → Bool} {o : Op} {s t : σ} {result : Res o}
    (h : (M.restrict allowed).Exec o s result t) : allowed o = true ∧ M.Exec o s result t := by
  obtain ⟨choice, h⟩ := h
  simp only [restrict] at h
  split at h
  · next hallowed => exact ⟨hallowed, choice, h⟩
  · cases h

/-! ### The same steps where it matters -/

/-- Two relations that agree wherever one of them leads. -/
theorem reflTransGen_congr {γ : Type} {r r' : γ → γ → Prop} {a b : γ}
    (h : ∀ c d, Relation.ReflTransGen r a c → (r' c d ↔ r c d)) :
    Relation.ReflTransGen r' a b ↔ Relation.ReflTransGen r a b := by
  constructor
  · intro hsteps
    induction hsteps with
    | refl => exact .refl
    | tail _ hstep ih => exact ih.tail ((h _ _ ih).mp hstep)
  · intro hsteps
    induction hsteps with
    | refl => exact .refl
    | tail hbefore hstep ih => exact ih.tail ((h _ _ hbefore).mpr hstep)

/-- In the states that satisfy `P`, `N` does what `M` does. -/
structure AgreeOn (P : σ → Prop) (N M : Machine Op Res σ Choice Turn) : Prop where
  perform : ∀ o choice s, P s → N.perform o choice s = M.perform o choice s
  interfere : ∀ turn s, P s → N.interfere turn s = M.interfere turn s

section

variable {N : Machine Op Res σ Choice Turn}

theorem AgreeOn.symm (h : AgreeOn P N M) : AgreeOn P M N :=
  ⟨fun o choice s hs => (h.perform o choice s hs).symm,
    fun turn s hs => (h.interfere turn s hs).symm⟩

theorem AgreeOn.step (h : AgreeOn P N M) {c d : Prog Op Res α × σ} (hc : P c.2)
    (hstep : N.Step c d) : M.Step c d := by
  cases hstep with
  | op hexec =>
    obtain ⟨choice, hperform⟩ := hexec
    exact .op ⟨choice, by rw [← h.perform _ _ _ hc, hperform]⟩
  | env henv =>
    obtain ⟨turn, hturn⟩ := henv
    exact .env ⟨turn, by rw [← h.interfere _ _ hc, hturn]⟩

/-- Where `M` stays in these states, the machines have the same runs. -/
theorem AgreeOn.steps (h : AgreeOn P N M) {c d : Prog Op Res α × σ}
    (hc : ∀ c', M.Steps c c' → P c'.2) : N.Steps c d ↔ M.Steps c d :=
  reflTransGen_congr fun _ _ hsteps => ⟨h.step (hc _ hsteps), h.symm.step (hc _ hsteps)⟩

end

/-! ### Turns that lead to something -/

/-- Wherever the turns `own` are taken between those of the others, they reach `P`. -/
inductive LeadsTo (own others : σ → σ → Prop) (P : σ → Prop) : σ → Prop where
  | done {s : σ} : P s → LeadsTo own others P s
  | turn {s : σ} :
      (∀ t, Relation.ReflTransGen others s t → ¬ P t → ∃ u, own t u) →
      (∀ t u, Relation.ReflTransGen others s t → ¬ P t → own t u → LeadsTo own others P u) →
      LeadsTo own others P s

section

variable {own others : σ → σ → Prop}

/-- A rank that the others never raise and every turn lowers. -/
theorem leadsTo_of_rank {I : σ → Prop} (rank : σ → Nat)
    (hothers : ∀ s t, I s → others s t → I t ∧ rank t ≤ rank s)
    (hown : ∀ s t, I s → own s t → I t ∧ rank t < rank s)
    (hturn : ∀ s, I s → ¬ P s → ∃ t, own s t) {s : σ} (hs : I s) :
    LeadsTo own others P s := by
  have hreach : ∀ s t, I s → Relation.ReflTransGen others s t → I t ∧ rank t ≤ rank s := by
    intro s t hs hsteps
    induction hsteps with
    | refl => exact ⟨hs, Nat.le_refl _⟩
    | tail _ hstep ih =>
      obtain ⟨hI, hle⟩ := hothers _ _ ih.1 hstep
      exact ⟨hI, Nat.le_trans hle ih.2⟩
  induction hn : rank s using Nat.strongRecOn generalizing s with
  | ind n ih =>
    refine .turn (fun t ht => hturn t (hreach s t hs ht).1) fun t u ht _ hu => ?_
    obtain ⟨hI, hle⟩ := hreach s t hs ht
    obtain ⟨hIu, hlt⟩ := hown t u hI hu
    exact ih (rank u) (by omega) hIu rfl

/-- The turns alone reach it. -/
theorem reached_of_leadsTo {s : σ} (h : LeadsTo own others P s) :
    ∃ t, Relation.ReflTransGen own s t ∧ P t := by
  induction h with
  | @done s hs => exact ⟨s, .refl, hs⟩
  | @turn s hturn _ ih =>
    by_cases hs : P s
    · exact ⟨s, .refl, hs⟩
    · obtain ⟨u, hu⟩ := hturn s .refl hs
      obtain ⟨t, ht, hP⟩ := ih s u .refl hs hu
      exact ⟨t, .head hu ht, hP⟩

end

/-! ### Schedules

A schedule makes one interleaving executable: a move of the program carries the choice of the
outside world, every other move names a turn of the other threads. -/

variable (M)

/-- Play a schedule as far as it goes; a program that has returned ends it. -/
def play : List (Choice ⊕ Turn) → Prog Op Res α → σ → Option (Prog Op Res α × σ)
  | [], p, s => some (p, s)
  | .inl _ :: _, .ret value, s => some (.ret value, s)
  | .inl choice :: moves, .op o next, s =>
      match M.perform o choice s with
      | none => none
      | some (result, t) => play moves (next result) t
  | .inr turn :: moves, p, s =>
      match M.interfere turn s with
      | none => none
      | some t => play moves p t

variable {M}

theorem play_steps {moves : List (Choice ⊕ Turn)} {p q : Prog Op Res α} {s t : σ}
    (h : M.play moves p s = some (q, t)) : M.Steps (p, s) (q, t) := by
  fun_induction play M moves p s with
  | case1 => cases h; exact .refl
  | case2 => cases h; exact .refl
  | case3 => cases h
  | case4 choice moves o next s result u hperform ih =>
    exact .head (.op ⟨choice, hperform⟩) (ih h)
  | case5 => cases h
  | case6 turn moves p s u hturn ih => exact .head (.env ⟨turn, hturn⟩) (ih h)

/-- A schedule whose outcome passes a test is a reachable configuration that passes it. -/
theorem play_visits {moves : List (Choice ⊕ Turn)} {p : Prog Op Res α} {s : σ}
    (test : Prog Op Res α → σ → Bool)
    (h : (M.play moves p s).any (fun c => test c.1 c.2) = true) :
    ∃ q t, M.Steps (p, s) (q, t) ∧ test q t = true := by
  obtain ⟨⟨q, t⟩, hplay, htest⟩ := (Option.any_eq_true _ _).mp h
  exact ⟨q, t, play_steps hplay, htest⟩

/-- A schedule that plays to the end, in a state that passes a test, is a run to such a
state. -/
theorem play_runs (moves : List (Choice ⊕ Turn)) (p : Prog Op Res α) (s : σ)
    (test : α → σ → Bool)
    (h : (M.play moves p s).any (fun c => c.1.returned.any (fun v => test v c.2)) = true) :
    ∃ value t, M.Runs p s value t ∧ test value t = true := by
  obtain ⟨q, t, hsteps, htest⟩ :=
    play_visits (fun q t => q.returned.any fun v => test v t) h
  obtain ⟨value, hvalue, htest⟩ := (Option.any_eq_true _ _).mp htest
  cases Prog.eq_ret_of_returned hvalue
  exact ⟨value, t, hsteps, htest⟩

end Machine

end EmbeddedCar.Concurrent
