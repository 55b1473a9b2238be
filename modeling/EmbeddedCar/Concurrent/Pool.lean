import EmbeddedCar.Concurrent.Contract
import Mathlib.Data.List.Basic

/-!
# Programs that come and go

Programs of several roles enter a pool, run in it in any interleaving on one shared state, and
leave it when they have returned. `Discipline` is the rely-guarantee rule for such a pool: each
role says what it relies on and what it demands of the state before its operations, and an
invariant of the state depends on the roles that are present.
-/

namespace EmbeddedCar.Concurrent

variable {Op : Type} {Res : Op → Type} {σ Choice Turn Role : Type} {α : Type}

namespace Machine

variable (M : Machine Op Res σ Choice Turn)

open Classical in
/-- The operations of `M` among threads of which only `R` is known. -/
noncomputable def relying (R : σ → σ → Prop) :
    Machine Op Res σ Choice { turn : σ × σ // R turn.1 turn.2 } where
  perform := M.perform
  interfere := fun turn s => if turn.1.1 = s then some turn.1.2 else none

variable {M} {R : σ → σ → Prop}

theorem relying_exec {o : Op} {s t : σ} {result : Res o} :
    (M.relying R).Exec o s result t ↔ M.Exec o s result t := Iff.rfl

theorem relying_env {s t : σ} : (M.relying R).Env s t ↔ R s t := by
  constructor
  · intro h
    obtain ⟨⟨⟨u, v⟩, huv⟩, hturn⟩ := h
    simp only [relying] at hturn
    split at hturn
    · next hu =>
      cases hu
      cases hturn
      exact huv
    · cases hturn
  · intro h
    refine ⟨⟨(s, t), h⟩, ?_⟩
    simp [relying]

theorem relying_stable {P : σ → Prop} (h : ∀ s t, P s → R s t → P t) :
    (M.relying R).Stable P :=
  fun s t hs henv => h s t hs (relying_env.mp henv)

end Machine

/-- One program of a pool. -/
structure Member (Op : Type) (Res : Op → Type) (Role α : Type) where
  role : Role
  rest : Prog Op Res α

/-- What each role runs, and which role may enter beside those present. -/
structure Pool (Op : Type) (Res : Op → Type) (Role α : Type) where
  body : Role → Prog Op Res α
  admits : List Role → Role → Bool

/-- The roles present. -/
def roles (members : List (Member Op Res Role α)) : List Role := members.map Member.role

@[simp] theorem roles_nil : roles ([] : List (Member Op Res Role α)) = [] := rfl

@[simp] theorem roles_cons (m : Member Op Res Role α) (members : List (Member Op Res Role α)) :
    roles (m :: members) = m.role :: roles members := rfl

@[simp] theorem roles_append (before after : List (Member Op Res Role α)) :
    roles (before ++ after) = roles before ++ roles after := List.map_append

theorem role_mem {m : Member Op Res Role α} {members : List (Member Op Res Role α)}
    (h : m ∈ members) : m.role ∈ roles members :=
  List.mem_map_of_mem h

namespace Pool

variable (P : Pool Op Res Role α) (M : Machine Op Res σ Choice Turn)

/-- One step of a pool: an operation of a member, a step of a thread outside the pool, or a
member that comes or goes. -/
inductive Step : List (Member Op Res Role α) × σ → List (Member Op Res Role α) × σ → Prop where
  | act {before after : List (Member Op Res Role α)} {role : Role} {o : Op}
      {next : Res o → Prog Op Res α} {s t : σ} {result : Res o} :
      M.Exec o s result t →
      Step (before ++ ⟨role, .op o next⟩ :: after, s) (before ++ ⟨role, next result⟩ :: after, t)
  | env {members : List (Member Op Res Role α)} {s t : σ} :
      M.Env s t → Step (members, s) (members, t)
  | enter {members : List (Member Op Res Role α)} {role : Role} {s : σ} :
      P.admits (roles members) role = true →
      Step (members, s) (⟨role, P.body role⟩ :: members, s)
  | leave {before after : List (Member Op Res Role α)} {role : Role} {value : α} {s : σ} :
      Step (before ++ ⟨role, .ret value⟩ :: after, s) (before ++ after, s)

/-- Reachability of a configuration of the pool. -/
def Steps : List (Member Op Res Role α) × σ → List (Member Op Res Role α) × σ → Prop :=
  Relation.ReflTransGen (P.Step M)

/-- The same programs, under a stricter admission. -/
def admitting (admits : List Role → Role → Bool) : Pool Op Res Role α where
  body := P.body
  admits := fun present role => P.admits present role && admits present role

variable {P M}

theorem admitting_step {admits : List Role → Role → Bool}
    {c d : List (Member Op Res Role α) × σ} (h : (P.admitting admits).Step M c d) :
    P.Step M c d := by
  cases h with
  | act hexec => exact .act hexec
  | env henv => exact .env henv
  | enter hadmits => exact .enter (Bool.and_eq_true_iff.mp hadmits).1
  | leave => exact .leave

theorem admitting_steps {admits : List Role → Role → Bool}
    {c d : List (Member Op Res Role α) × σ} (h : (P.admitting admits).Steps M c d) :
    P.Steps M c d := by
  induction h with
  | refl => exact .refl
  | tail _ hstep ih => exact ih.tail (admitting_step hstep)

/-! ### The rule -/

variable (P M)

/-- What the roles of a pool rely on, demand and leave behind, and the invariant that follows.
`overlaps` relates the roles that may be present together. -/
structure Discipline where
  overlaps : Role → Role → Prop
  rely : Role → σ → σ → Prop
  demand : Role → Op → σ → Prop
  post : Role → α → σ → Prop
  inv : List Role → σ → Prop
  overlaps_symm : ∀ r r', overlaps r r' → overlaps r' r
  admits_overlaps : ∀ present r r', P.admits present r = true → r' ∈ present → overlaps r r'
  rely_env : ∀ r s t, M.Env s t → rely r s t
  rely_act : ∀ r r' o s result t, overlaps r r' → demand r o s → M.Exec o s result t →
    rely r' s t
  inv_env : ∀ present s t, inv present s → M.Env s t → inv present t
  inv_act : ∀ present r o s result t, r ∈ present → inv present s → demand r o s →
    M.Exec o s result t → inv present t
  inv_enter : ∀ present r s, inv present s → inv (r :: present) s
  inv_leave : ∀ before r after value s, inv (before ++ r :: after) s → post r value s →
    inv (before ++ after) s
  enter : ∀ present r s, inv present s → P.admits present r = true →
    (M.relying (rely r)).meets .none (demand r) (P.body r) (post r) s

namespace Discipline

variable {P M} (D : Discipline P M)

/-- What holds of every configuration: the invariant of the roles present, which may all be
present together, and of each member that the rest of its program meets its demands. -/
structure Holds (members : List (Member Op Res Role α)) (s : σ) : Prop where
  inv : D.inv (roles members) s
  overlaps : (roles members).Pairwise D.overlaps
  meets : ∀ m ∈ members,
    (M.relying (D.rely m.role)).meets .none (D.demand m.role) m.rest (D.post m.role) s

variable {D}

/-- The other members of a configuration overlap with the one that acts. -/
theorem Holds.others {before after : List (Member Op Res Role α)} {m m' : Member Op Res Role α}
    {s : σ} (h : D.Holds (before ++ m :: after) s) (hm' : m' ∈ before ++ after) :
    D.overlaps m.role m'.role := by
  have hpairs := h.overlaps
  simp only [roles_append, roles_cons, List.pairwise_append, List.pairwise_cons,
    List.mem_cons] at hpairs
  obtain ⟨_, ⟨hafter, _⟩, hbefore⟩ := hpairs
  rcases List.mem_append.mp hm' with hmem | hmem
  · exact D.overlaps_symm _ _ (hbefore _ (role_mem hmem) _ (.inl rfl))
  · exact hafter _ (role_mem hmem)

theorem mem_insert {before after : List (Member Op Res Role α)} {m m' : Member Op Res Role α} :
    m' ∈ before ++ m :: after ↔ m' = m ∨ m' ∈ before ++ after := by
  simp only [List.mem_append, List.mem_cons]
  tauto

theorem Holds.step {c d : List (Member Op Res Role α) × σ} (h : D.Holds c.1 c.2)
    (hstep : P.Step M c d) : D.Holds d.1 d.2 := by
  cases hstep with
  | @act before after role o next s t result hexec =>
    have hmember := h.meets ⟨role, .op o next⟩ (mem_insert.mpr (.inl rfl))
    obtain ⟨hdemand, hnext⟩ := hmember s .refl trivial
    constructor
    · have hinv := h.inv
      simp only [roles_append, roles_cons] at hinv ⊢
      apply D.inv_act _ role o s result t _ hinv hdemand hexec
      simp
    · have hpairs := h.overlaps
      simpa only [roles_append, roles_cons] using hpairs
    · intro m hm
      rcases mem_insert.mp hm with heq | hother
      · subst heq
        exact hnext result t (Machine.relying_exec.mpr hexec)
      · apply Machine.meets_env (h.meets m (mem_insert.mpr (.inr hother)))
        have hoverlaps := h.others hother
        exact .single (Machine.relying_env.mpr
          (D.rely_act role m.role o s result t hoverlaps hdemand hexec))
  | @env members s t henv =>
    constructor
    · exact D.inv_env _ _ _ h.inv henv
    · exact h.overlaps
    · intro m hm
      apply Machine.meets_env (h.meets m hm)
      exact .single (Machine.relying_env.mpr (D.rely_env m.role s t henv))
  | @enter members role s hadmits =>
    constructor
    · exact D.inv_enter _ role s h.inv
    · apply List.pairwise_cons.mpr
      exact ⟨fun r' hr' => D.admits_overlaps _ role r' hadmits hr', h.overlaps⟩
    · intro m hm
      rcases List.mem_cons.mp hm with heq | hmem
      · subst heq
        exact D.enter _ role s h.inv hadmits
      · exact h.meets m hmem
  | @leave before after role value s =>
    have hpost := h.meets ⟨role, .ret value⟩ (mem_insert.mpr (.inl rfl)) s .refl
    constructor
    · have hinv := h.inv
      simp only [roles_append, roles_cons] at hinv ⊢
      exact D.inv_leave _ role _ value s hinv hpost
    · have hpairs := h.overlaps
      simp only [roles_append, roles_cons] at hpairs ⊢
      exact hpairs.sublist (List.sublist_cons_self ..|>.append_left _)
    · intro m hm
      exact h.meets m (mem_insert.mpr (.inr hm))

/-- Everything a pool reaches from a configuration in order is in order. -/
theorem Holds.steps {c d : List (Member Op Res Role α) × σ} (h : D.Holds c.1 c.2)
    (hsteps : P.Steps M c d) : D.Holds d.1 d.2 := by
  induction hsteps with
  | refl => exact h
  | tail _ hstep ih => exact ih.step hstep

theorem holds_empty {s : σ} (h : D.inv [] s) : D.Holds [] s where
  inv := h
  overlaps := List.Pairwise.nil
  meets := fun _ hm => absurd hm List.not_mem_nil

/-- What a member that has returned leaves behind. -/
theorem Holds.returned {members : List (Member Op Res Role α)} {s : σ} {role : Role} {value : α}
    (h : D.Holds members s) (hmem : (⟨role, .ret value⟩ : Member Op Res Role α) ∈ members) :
    D.post role value s :=
  h.meets _ hmem s .refl

/-- The demand of the operation a member is about to perform. -/
theorem Holds.demanded {members : List (Member Op Res Role α)} {s : σ} {role : Role} {o : Op}
    {next : Res o → Prog Op Res α} (h : D.Holds members s)
    (hmem : (⟨role, .op o next⟩ : Member Op Res Role α) ∈ members) : D.demand role o s :=
  (h.meets _ hmem s .refl trivial).1

end Discipline

/-! ### Schedules -/

/-- A move of a schedule: an operation of the member at a position, with the choice of the
outside world, a turn of another thread, an entry, or the departure of the member at a
position. -/
inductive Move (Choice Turn Role : Type) where
  | act (position : Nat) (choice : Choice)
  | env (turn : Turn)
  | enter (role : Role)
  | leave (position : Nat)

/-- Play one move. -/
def move : Move Choice Turn Role → List (Member Op Res Role α) × σ →
    Option (List (Member Op Res Role α) × σ)
  | .act position choice, (members, s) =>
      match members.drop position with
      | ⟨role, .op o next⟩ :: after =>
          match M.perform o choice s with
          | some (result, t) => some (members.take position ++ ⟨role, next result⟩ :: after, t)
          | none => none
      | _ => none
  | .env turn, (members, s) =>
      match M.interfere turn s with
      | some t => some (members, t)
      | none => none
  | .enter role, (members, s) =>
      if P.admits (roles members) role then some (⟨role, P.body role⟩ :: members, s) else none
  | .leave position, (members, s) =>
      match members.drop position with
      | ⟨_, .ret _⟩ :: after => some (members.take position ++ after, s)
      | _ => none

/-- Play a schedule. -/
def play : List (Move Choice Turn Role) → List (Member Op Res Role α) × σ →
    Option (List (Member Op Res Role α) × σ)
  | [], c => some c
  | m :: moves, c =>
      match move P M m c with
      | some d => play moves d
      | none => none

variable {P M}

theorem move_step {m : Move Choice Turn Role} {c d : List (Member Op Res Role α) × σ}
    (h : move P M m c = some d) : P.Step M c d := by
  obtain ⟨members, s⟩ := c
  cases m with
  | act position choice =>
    simp only [move] at h
    split at h
    · next role o next after hdrop =>
      split at h
      · next result t hperform =>
        cases h
        have hsplit : members.take position ++ ⟨role, .op o next⟩ :: after = members := by
          rw [← hdrop, List.take_append_drop]
        have hstep : P.Step M (members.take position ++ ⟨role, .op o next⟩ :: after, s)
            (members.take position ++ ⟨role, next result⟩ :: after, t) := .act ⟨choice, hperform⟩
        rwa [hsplit] at hstep
      · cases h
    · cases h
  | env turn =>
    simp only [move] at h
    split at h
    · next t hturn =>
      cases h
      exact .env ⟨turn, hturn⟩
    · cases h
  | enter role =>
    simp only [move] at h
    split at h
    · next hadmits =>
      cases h
      exact .enter hadmits
    · cases h
  | leave position =>
    simp only [move] at h
    split at h
    · next role value after hdrop =>
      cases h
      have hsplit : members.take position ++ ⟨role, .ret value⟩ :: after = members := by
        rw [← hdrop, List.take_append_drop]
      have hstep : P.Step M (members.take position ++ ⟨role, .ret value⟩ :: after, s)
          (members.take position ++ after, s) := .leave
      rwa [hsplit] at hstep
    · cases h

theorem play_steps {moves : List (Move Choice Turn Role)}
    {c d : List (Member Op Res Role α) × σ} (h : play P M moves c = some d) : P.Steps M c d := by
  induction moves generalizing c with
  | nil =>
    cases h
    exact .refl
  | cons m moves ih =>
    simp only [play] at h
    split at h
    · next e hmove => exact .head (move_step hmove) (ih h)
    · cases h

/-- A schedule whose outcome passes a test is a reachable configuration that passes it. -/
theorem play_visits (moves : List (Move Choice Turn Role))
    (c : List (Member Op Res Role α) × σ) (test : List (Member Op Res Role α) × σ → Bool)
    (h : (play P M moves c).any test = true) :
    ∃ d, P.Steps M c d ∧ test d = true := by
  obtain ⟨d, hplay, htest⟩ := (Option.any_eq_true _ _).mp h
  exact ⟨d, play_steps hplay, htest⟩

end Pool

end EmbeddedCar.Concurrent
