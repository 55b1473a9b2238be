import EmbeddedCar.Concurrent.Program

/-!
# Programs that follow a path

`view` is the part of the state an observer looks at; the other threads do not change it.
A program follows a path from the view `v` when every view met on the way is `v` or on the
path and the view at the return is the last of the path. The path is the list of the values
written, so straight-line code follows the list of its writes, whatever else it does.
-/

namespace EmbeddedCar.Concurrent

variable {Op : Type} {Res : Op → Type} {σ Choice Turn V : Type} {α β : Type}

/-- What the observer sees and what the other threads leave alone. -/
structure Lens (M : Machine Op Res σ Choice Turn) (V : Type) where
  view : σ → V
  quiet : ∀ s t, M.Env s t → view t = view s

variable {M : Machine Op Res σ Choice Turn} (L : Lens M V)

/-- From every state seen as `v`, the program takes the observer along `path`. -/
def Follows (p : Prog Op Res α) (v : V) (path : List V) : Prop :=
  ∀ s, L.view s = v →
    M.wp (fun t => L.view t ∈ v :: path) p (fun _ t => L.view t = path.getLastD v) s

variable {L}

private theorem view_stable (v : V) (s t : σ) (hs : L.view s = v) (henv : M.Env s t) :
    L.view t = v := (L.quiet s t henv).trans hs

theorem getLastD_append (v : V) (path rest : List V) :
    (path ++ rest).getLastD v = rest.getLastD (path.getLastD v) := by
  induction path generalizing v with
  | nil => rfl
  | cons w path ih => rw [List.cons_append, List.getLastD_cons, List.getLastD_cons, ih]

theorem follows_ret (value : α) (v : V) :
    Follows L (.ret value : Prog Op Res α) v [] := by
  intro s hs
  refine Machine.wp_ret (P := fun t => L.view t = v) (view_stable v) ?_ hs ?_
  · intro t ht
    simp [ht]
  · intro t ht
    simp [ht]

theorem follows_bind {p : Prog Op Res β} {f : β → Prog Op Res α} {v : V} {path rest : List V}
    (hp : Follows L p v path) (hf : ∀ value, Follows L (f value) (path.getLastD v) rest) :
    Follows L (p >>= f) v (path ++ rest) := by
  intro s hs
  apply Machine.wp_bind
  refine Machine.wp_mono ?_ ?_ (hp s hs)
  · intro t ht
    rw [← List.cons_append]
    exact List.mem_append_left _ ht
  · intro value t ht
    refine Machine.wp_mono ?_ ?_ (hf value t ht)
    · intro u hu
      rcases List.mem_cons.mp hu with heq | hmem
      · rw [heq, ← List.cons_append]
        exact List.mem_append_left _ List.getLastD_mem_cons
      · exact List.mem_cons_of_mem _ (List.mem_append_right _ hmem)
    · intro _ u hu
      rw [hu, getLastD_append]

/-- An operation the observer does not notice. -/
theorem follows_quiet {o : Op} {next : Res o → Prog Op Res α} {v : V} {path : List V}
    (h : ∀ s result t, L.view s = v → M.Exec o s result t →
      L.view t = v ∧ Follows L (next result) v path) :
    Follows L (.op o next) v path := by
  intro s hs
  refine Machine.wp_op (P := fun t => L.view t = v) (view_stable v) ?_ hs ?_
  · intro t ht
    simp [ht]
  · intro t result u ht hexec
    obtain ⟨hu, hnext⟩ := h t result u ht hexec
    exact hnext u hu

/-- An operation that takes the observer one step further along the path. -/
theorem follows_write {o : Op} {next : Res o → Prog Op Res α} {v w : V} {path : List V}
    (h : ∀ s result t, L.view s = v → M.Exec o s result t →
      L.view t = w ∧ Follows L (next result) w path) :
    Follows L (.op o next) v (w :: path) := by
  intro s hs
  refine Machine.wp_op (P := fun t => L.view t = v) (view_stable v) ?_ hs ?_
  · intro t ht
    simp [ht]
  · intro t result u ht hexec
    obtain ⟨hu, hnext⟩ := h t result u ht hexec
    refine Machine.wp_mono ?_ ?_ (hnext u hu)
    · intro r hr
      exact List.mem_cons_of_mem _ hr
    · intro _ r hr
      rw [hr, List.getLastD_cons]

/-- The view at the end of a completed run. -/
theorem follows_runs {p : Prog Op Res α} {v : V} {path : List V} {s t : σ} {value : α}
    (h : Follows L p v path) (hs : L.view s = v) (hruns : M.Runs p s value t) :
    L.view t = path.getLastD v :=
  Machine.wp_runs (Q := fun _ u => L.view u = path.getLastD v) (h s hs) hruns

/-- The views on the way. -/
theorem follows_visited {p q : Prog Op Res α} {v : V} {path : List V} {s t : σ}
    (h : Follows L p v path) (hs : L.view s = v) (hsteps : M.Steps (p, s) (q, t)) :
    L.view t ∈ v :: path :=
  Machine.wp_visited (G := fun u => L.view u ∈ v :: path) (h s hs) hsteps

/-! ### Programs that perform actions

An action changes the view by a function; a program performs a list of actions when it follows
the views they produce. -/

variable {A : Type} (act : A → V → V)

/-- The views after each action of a list. -/
def trail : List A → V → List V
  | [], _ => []
  | a :: actions, v => act a v :: trail actions (act a v)

/-- The view after all actions of a list. -/
def outcome (actions : List A) (v : V) : V := actions.foldl (fun v a => act a v) v

@[simp] theorem outcome_nil (v : V) : outcome act [] v = v := rfl

@[simp] theorem outcome_cons (a : A) (actions : List A) (v : V) :
    outcome act (a :: actions) v = outcome act actions (act a v) := rfl

theorem getLastD_trail (actions : List A) (v : V) :
    (trail act actions v).getLastD v = outcome act actions v := by
  induction actions generalizing v with
  | nil => rfl
  | cons a actions ih => rw [trail, List.getLastD_cons, ih, outcome_cons]

theorem trail_append (actions rest : List A) (v : V) :
    trail act (actions ++ rest) v =
      trail act actions v ++ trail act rest (outcome act actions v) := by
  induction actions generalizing v with
  | nil => rfl
  | cons a actions ih => simp [trail, ih]

variable (L)

/-- From every view, the program follows the trail of the actions. -/
def Performs (p : Prog Op Res α) (actions : List A) : Prop :=
  ∀ v, Follows L p v (trail act actions v)

variable {L act}

/-- A program the observer does not notice performs an action without effect. -/
theorem follows_stutter {p : Prog Op Res α} {v : V} (h : Follows L p v []) :
    Follows L p v [v] := by
  intro s hs
  refine Machine.wp_mono ?_ ?_ (h s hs)
  · intro t ht
    exact List.mem_append_left [v] ht
  · intro _ t ht
    exact ht

theorem performs_ret (value : α) : Performs L act (.ret value : Prog Op Res α) [] :=
  fun v => follows_ret value v

theorem performs_bind {p : Prog Op Res β} {f : β → Prog Op Res α} {actions rest : List A}
    (hp : Performs L act p actions) (hf : ∀ value, Performs L act (f value) rest) :
    Performs L act (p >>= f) (actions ++ rest) := by
  intro v
  rw [trail_append]
  refine follows_bind (hp v) ?_
  intro value
  rw [getLastD_trail]
  exact hf value _

/-- An operation the observer does not notice. -/
theorem performs_quiet {o : Op} {next : Res o → Prog Op Res α} {actions : List A}
    (h : ∀ s result t, M.Exec o s result t → L.view t = L.view s)
    (hnext : ∀ result, Performs L act (next result) actions) :
    Performs L act (.op o next) actions := by
  intro v
  apply follows_quiet
  intro s result t hs hexec
  exact ⟨(h s result t hexec).trans hs, hnext result v⟩

/-- An operation whose effect for the observer is one action. -/
theorem performs_write {o : Op} {next : Res o → Prog Op Res α} {a : A} {actions : List A}
    (h : ∀ s result t, M.Exec o s result t → L.view t = act a (L.view s))
    (hnext : ∀ result, Performs L act (next result) actions) :
    Performs L act (.op o next) (a :: actions) := by
  intro v
  apply follows_write
  intro s result t hs hexec
  refine ⟨?_, hnext result _⟩
  rw [h s result t hexec, hs]

theorem performs_runs {p : Prog Op Res α} {actions : List A} {s t : σ} {value : α}
    (h : Performs L act p actions) (hruns : M.Runs p s value t) :
    L.view t = outcome act actions (L.view s) := by
  rw [follows_runs (h _) rfl hruns, getLastD_trail]

theorem performs_visited {p q : Prog Op Res α} {actions : List A} {s t : σ}
    (h : Performs L act p actions) (hsteps : M.Steps (p, s) (q, t)) :
    L.view t ∈ L.view s :: trail act actions (L.view s) :=
  follows_visited (h _) rfl hsteps

end EmbeddedCar.Concurrent
