import EmbeddedCar.Video.Upkeep

/-!
# Starting and stopping the stream

Invocations of both controllers, in any interleaving. As long as no start or restart of a
controller overlaps another invocation of it, each controller has at most one pipeline, and a
stop that succeeds leaves it with none. Nothing keeps the two controllers apart: each has a PID
file of its own.
-/

namespace EmbeddedCar.Video

open EmbeddedCar.Concurrent Prog

/-- Invocations of the two controllers, at any time. -/
def invocations : Pool Op Op.Res Invocation Nat where
  body := Invocation.run
  admits := fun _ _ => true

/-- A start or restart of a controller comes where no other invocation of it is present, and no
other comes before it has left. -/
def apart (present : List Invocation) (i : Invocation) : Bool :=
  present.all fun j => i.controller != j.controller || !(i.starts || j.starts)

def turns : Pool Op Op.Res Invocation Nat := invocations.admitting apart

/-- Invocations that may be present together. -/
def Together (i j : Invocation) : Prop :=
  i.controller = j.controller → i.starts = false ∧ j.starts = false

/-- No invocation that is present starts a pipeline of the controller. -/
def Settled (c : Controller) (present : List Invocation) : Prop :=
  ∀ i ∈ present, i.controller = c → i.starts = false

/-- Each controller has at most one pipeline, recorded in its PID file while none of its
invocations may be starting one. -/
def InOrder (present : List Invocation) (s : Os) : Prop :=
  ∀ c, AtMostOne c s ∧ (Settled c present → Recorded c s)

theorem apart_together {present : List Invocation} {i j : Invocation}
    (h : apart present i = true) (hj : j ∈ present) : Together i j := by
  intro hc
  have hij := List.all_eq_true.mp h j hj
  simpa [hc] using hij

theorem turns_apart {present : List Invocation} {i : Invocation}
    (h : turns.admits present i = true) : apart present i = true := by
  have hboth : (true && apart present i) = true := h
  exact (Bool.and_eq_true_iff.mp hboth).2

variable {K : Kernel}

/-- How the invocations share the system. -/
def discipline (K : Kernel) (hwrites : K.writesFail = false) :
    Pool.Discipline turns (videoMachine K) where
  overlaps := Together
  rely := fun i => Keeps i.controller
  demand := Allowed
  post := Leaves
  inv := InOrder
  overlaps_symm := fun _ _ h hc => (h hc.symm).symm
  admits_overlaps := fun _ _ _ hadmits hj => apart_together (turns_apart hadmits) hj
  rely_env := fun i _ _ henv => env_keeps i.controller henv
  rely_act := fun i j o _ _ _ htogether hallowed hexec =>
    effect_keeps (exec_effect hexec) hallowed fun hc => (htogether hc).1
  inv_env := by
    intro present s t hs henv c
    have hkeeps := env_keeps c henv
    exact ⟨hkeeps.1.atMostOne (hs c).1, fun hsettled => hkeeps.recorded ((hs c).2 hsettled)⟩
  inv_act := by
    intro present i o s result t hi hs hallowed hexec c
    have heffect := exec_effect hexec
    constructor
    · exact effect_atMostOne heffect hallowed (hs c).1
    · intro hsettled
      exact (effect_keeps heffect hallowed (hsettled i hi)).recorded ((hs c).2 hsettled)
  inv_enter := by
    intro present i s hs c
    refine ⟨(hs c).1, fun hsettled => (hs c).2 ?_⟩
    exact fun j hj => hsettled j (List.mem_cons_of_mem _ hj)
  inv_leave := by
    intro before i after code s hs hleaves c
    refine ⟨(hs c).1, fun hsettled => ?_⟩
    by_cases hc : i.controller = c
    · subst hc
      exact hleaves.1
    · apply (hs c).2
      intro j hj
      simp only [List.mem_append, List.mem_cons] at hj
      rcases hj with hbefore | heq | hafter
      · exact hsettled j (List.mem_append_left _ hbefore)
      · exact fun hj => absurd (heq ▸ hj) hc
      · exact hsettled j (List.mem_append_right _ hafter)
  enter := by
    intro present i s hs hadmits
    apply upkeep_run hwrites i
    apply (hs i.controller).2
    intro j hj hc
    exact (apart_together (turns_apart hadmits) hj hc.symm).2

theorem inOrder_of_noPipeline {s : Os} (hs : ∀ c, NoPipeline c s) (present : List Invocation) :
    InOrder present s :=
  fun c => ⟨(hs c).atMostOne, fun _ => (hs c).recorded⟩

/-! ### After a stop -/

/-- Neither a start nor a restart of the controller. -/
def quiet (c : Controller) : List Invocation → Invocation → Bool :=
  fun _ i => i.controller != c || !i.starts

/-- While nothing starts a pipeline of the controller, it stays without one. -/
theorem noPipeline_step {hwrites : K.writesFail = false} {c : Controller}
    {x y : List (Member Op Op.Res Invocation Nat) × Os}
    (hholds : (discipline K hwrites).Holds x.1 x.2)
    (hstep : (turns.admitting (quiet c)).Step (videoMachine K) x y)
    (h : NoPipeline c x.2 ∧ Settled c (roles x.1)) :
    NoPipeline c y.2 ∧ Settled c (roles y.1) := by
  obtain ⟨hnone, hsettled⟩ := h
  cases hstep with
  | @act before after i o next s t result hexec =>
    have hmem : (⟨i, .op o next⟩ : Member Op Op.Res Invocation Nat) ∈
        before ++ ⟨i, .op o next⟩ :: after := by simp
    have hallowed : Allowed i o s := hholds.demanded hmem
    have hkeeps : Keeps c s t :=
      effect_keeps (exec_effect hexec) hallowed (hsettled i (role_mem hmem))
    refine ⟨hkeeps.1.noPipeline hnone, ?_⟩
    simpa [roles] using hsettled
  | env henv => exact ⟨(env_keeps c henv).1.noPipeline hnone, hsettled⟩
  | @enter members i s hadmits =>
    refine ⟨hnone, fun j hj => ?_⟩
    rcases List.mem_cons.mp hj with heq | hmem
    · subst heq
      intro hc
      have hquiet := (Bool.and_eq_true_iff.mp hadmits).2
      simpa [quiet, hc] using hquiet
    · exact hsettled j hmem
  | @leave before after i code s =>
    refine ⟨hnone, fun j hj => hsettled j ?_⟩
    simp only [roles_append, roles_cons, List.mem_append, List.mem_cons] at hj ⊢
    tauto

theorem noPipeline_steps {hwrites : K.writesFail = false} {c : Controller}
    {x y : List (Member Op Op.Res Invocation Nat) × Os}
    (hholds : (discipline K hwrites).Holds x.1 x.2)
    (hsteps : (turns.admitting (quiet c)).Steps (videoMachine K) x y)
    (h : NoPipeline c x.2 ∧ Settled c (roles x.1)) : NoPipeline c y.2 := by
  have hboth : NoPipeline c y.2 ∧ Settled c (roles y.1) := by
    induction hsteps with
    | refl => exact h
    | tail hsteps hstep ih =>
      exact noPipeline_step (hholds.steps (Pool.admitting_steps hsteps)) hstep ih
  exact hboth.1

/-- Where a stop is present, nothing of its controller starts. -/
theorem settled_of_stop {hwrites : K.writesFail = false}
    {members : List (Member Op Op.Res Invocation Nat)} {s : Os}
    {m : Member Op Op.Res Invocation Nat} (hholds : (discipline K hwrites).Holds members s)
    (hstop : m.role.command = .stop) (hmem : m ∈ members) :
    Settled m.role.controller (roles members) := by
  obtain ⟨before, after, rfl⟩ := List.append_of_mem hmem
  intro j hj hc
  obtain ⟨m', hm', rfl⟩ := List.mem_map.mp hj
  rcases Pool.Discipline.mem_insert.mp hm' with heq | hother
  · subst heq
    simp [Invocation.starts, hstop]
  · have htogether : Together m.role m'.role := hholds.others hother
    exact (htogether hc.symm).2

/-! ### Schedules -/

/-- A running pipeline of the controller, tested. -/
def Os.streams (s : Os) (c : Controller) (pid : Nat) : Bool :=
  match s.procs pid with
  | some ⟨.pipeline d _, .running⟩ => d == c
  | _ => false

theorem streams_pipeline {s : Os} {c : Controller} {pid : Nat} (h : s.streams c pid = true) :
    Pipeline c pid s := by
  unfold Os.streams at h
  split at h
  · next d parent hprocess =>
    cases eq_of_beq h
    exact ⟨parent, hprocess⟩
  · cases h

/-- One invocation after the other. -/
def alone (present : List Invocation) (_ : Invocation) : Bool := present.isEmpty

/-- One start or restart after the other; a stop or status may overlap it. -/
def oneStart (present : List Invocation) (i : Invocation) : Bool :=
  !i.starts || present.all fun j => !j.starts

abbrev Schedule := List (Pool.Move Answer Event Invocation)

/-- Operations of the last invocation that has come, all of which succeed. -/
def succeeds (n : Nat) : Schedule := List.replicate n (.act 0 .success)

/-- `gstreamer_controller start`, where there is no PID file. -/
def cppStarts (self pid : Nat) : Schedule :=
  .enter ⟨self, .cpp, .start⟩ :: succeeds 1 ++ .act 0 (.pid pid) :: succeeds 3 ++ [.leave 0]

/-- `gstreamer-video-streaming start`, where there is no PID file, with a test pipeline that
ends. -/
def scriptStarts (self test pid : Nat) : Schedule :=
  .enter ⟨self, .script, .start⟩ :: succeeds 7 ++ .act 0 (.pid test) :: .env (.exits test) ::
    succeeds 7 ++ .act 0 (.pid pid) :: succeeds 7 ++ [.leave 0]

/-- `gstreamer_controller stop`, where there is no PID file, up to its return. -/
def cppStops (self : Nat) : Schedule := .enter ⟨self, .cpp, .stop⟩ :: succeeds 2

/-- `gstreamer-video-streaming stop`, where the pipeline exits on `SIGTERM`, up to its return. -/
def scriptStops (self pid : Nat) : Schedule :=
  .enter ⟨self, .script, .stop⟩ :: succeeds 6 ++ .env (.exits pid) :: .env (.reaped pid) ::
    succeeds 5

/-- A start whose pipeline exits; a second start between the two operations of a status that
find the PID file stale and remove it; a third start. -/
def statusOverStart : Schedule :=
  cppStarts 0 10 ++ [.env (.exits 10), .env (.reaped 10)] ++
    .enter ⟨1, .cpp, .status⟩ :: succeeds 2 ++ .enter ⟨2, .cpp, .start⟩ :: succeeds 3 ++
    .act 0 (.pid 11) :: succeeds 3 ++ .leave 0 :: succeeds 2 ++ .leave 0 :: cppStarts 3 12

/-- A schedule after which two pipelines run. -/
theorem play_two {P : Pool Op Op.Res Invocation Nat} (moves : Schedule) (c d : Controller)
    (p q : Nat)
    (h : (Pool.play P (videoMachine strictKernel) moves ([], boot)).any
      (fun x => x.2.streams c p && x.2.streams d q) = true) :
    ∃ members t, P.Steps (videoMachine strictKernel) ([], boot) (members, t) ∧
      Pipeline c p t ∧ Pipeline d q t := by
  obtain ⟨⟨members, t⟩, hsteps, htest⟩ := Pool.play_visits moves _ _ h
  obtain ⟨hfirst, hsecond⟩ := Bool.and_eq_true_iff.mp htest
  exact ⟨members, t, hsteps, streams_pipeline hfirst, streams_pipeline hsecond⟩

/-- A schedule at whose end a stop has succeeded while a pipeline runs. -/
theorem play_stopped {P : Pool Op Op.Res Invocation Nat} (moves : Schedule) (c : Controller)
    (p : Nat)
    (h : (Pool.play P (videoMachine strictKernel) moves ([], boot)).any
      (fun x => x.1.any (fun m => m.role.command == .stop && m.rest.returned == some 0) &&
        x.2.streams c p) = true) :
    ∃ members t m, P.Steps (videoMachine strictKernel) ([], boot) (members, t) ∧
      m ∈ members ∧ m.role.command = .stop ∧ m.rest.returned = some 0 ∧ Pipeline c p t := by
  obtain ⟨⟨members, t⟩, hsteps, htest⟩ := Pool.play_visits moves _ _ h
  obtain ⟨hany, hpipeline⟩ := Bool.and_eq_true_iff.mp htest
  obtain ⟨m, hm, hstop⟩ := List.any_eq_true.mp hany
  obtain ⟨hcommand, hreturned⟩ := Bool.and_eq_true_iff.mp hstop
  exact ⟨members, t, m, hsteps, hm, eq_of_beq hcommand, eq_of_beq hreturned,
    streams_pipeline hpipeline⟩

theorem boot_noPipeline (c : Controller) : NoPipeline c boot := by
  intro pid hpid
  obtain ⟨parent, hprocess⟩ := hpid
  cases hprocess

/-! ### Every run -/

/-- At every moment each controller has at most one pipeline, and from the moment a stop has
succeeded until the next start or restart of that controller comes, it has none. -/
theorem one_pipeline_each (hwrites : K.writesFail = false) {s t : Os}
    (hs : ∀ c, NoPipeline c s) {members : List (Member Op Op.Res Invocation Nat)}
    (hsteps : turns.Steps (videoMachine K) ([], s) (members, t)) :
    (∀ c, AtMostOne c t) ∧
    ∀ m ∈ members, m.role.command = .stop → m.rest.returned = some 0 →
      ∀ members' u, (turns.admitting (quiet m.role.controller)).Steps (videoMachine K)
        (members, t) (members', u) → NoPipeline m.role.controller u := by
  have hempty : (discipline K hwrites).Holds [] s :=
    Pool.Discipline.holds_empty (inOrder_of_noPipeline hs [])
  have hholds : (discipline K hwrites).Holds members t := hempty.steps hsteps
  refine ⟨fun c => (hholds.inv c).1, fun m hm hstop hreturned members' u hquiet => ?_⟩
  have hsettled := settled_of_stop hholds hstop hm
  obtain ⟨i, rest⟩ := m
  cases eq_ret_of_returned hreturned
  have hleaves : Leaves i 0 t := hholds.returned hm
  exact noPipeline_steps hholds hquiet ⟨hleaves.2 hstop rfl, hsettled⟩

theorem one_pipeline_each_script :
    ∃ members t m, turns.Steps (videoMachine strictKernel) ([], boot) (members, t) ∧
      m ∈ members ∧ m.role.command = .stop ∧ m.rest.returned = some 0 ∧
      (∀ c, AtMostOne c t) ∧ NoPipeline m.role.controller t := by
  obtain ⟨members, t, m, hsteps, hm, hstop, hreturned, _⟩ :=
    play_stopped (P := turns) (cppStarts 0 10 ++ scriptStarts 1 15 20 ++ scriptStops 2 20) .cpp 10
      (by decide +kernel)
  have hboth := one_pipeline_each (K := strictKernel) rfl boot_noPipeline hsteps
  exact ⟨members, t, m, hsteps, hm, hstop, hreturned, hboth.1,
    hboth.2 m hm hstop hreturned members t .refl⟩

/-! ### What the controllers do to each other -/

/-- The script starts its pipeline, a stop of `gstreamer_controller` succeeds while it runs, and a
start adds a second one. Two starts that overlap both fork, and a status that overlaps a start
can remove its PID file. -/
theorem pipelines_side_by_side :
    (∃ members t m, (invocations.admitting alone).Steps (videoMachine strictKernel) ([], boot)
      (members, t) ∧ m ∈ members ∧ m.role.command = .stop ∧ m.rest.returned = some 0 ∧
      Pipeline .script 20 t) ∧
    (∃ members t, (invocations.admitting alone).Steps (videoMachine strictKernel) ([], boot)
      (members, t) ∧ Pipeline .script 20 t ∧ Pipeline .cpp 10 t) ∧
    (∃ members t, invocations.Steps (videoMachine strictKernel) ([], boot) (members, t) ∧
      Pipeline .cpp 10 t ∧ Pipeline .cpp 11 t) ∧
    ∃ members t, (invocations.admitting oneStart).Steps (videoMachine strictKernel) ([], boot)
      (members, t) ∧ Pipeline .cpp 11 t ∧ Pipeline .cpp 12 t := by
  refine ⟨?_, ?_, ?_, ?_⟩
  · apply play_stopped (scriptStarts 0 15 20 ++ cppStops 1)
    decide +kernel
  · apply play_two (scriptStarts 0 15 20 ++ cppStarts 1 10)
    decide +kernel
  · apply play_two (.enter ⟨0, .cpp, .start⟩ :: .act 0 .success :: cppStarts 1 10 ++
      [.act 0 (.pid 11)])
    decide +kernel
  · apply play_two statusOverStart
    decide +kernel

end EmbeddedCar.Video
