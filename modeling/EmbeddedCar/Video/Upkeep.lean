import EmbeddedCar.Video.Pipelines

/-!
# How an invocation keeps its PID file

The contract of each function of the two controllers: started where the PID file records the
pipeline, an invocation leaves it recorded, and a stop that succeeds leaves none.
-/

namespace EmbeddedCar.Video

open EmbeddedCar.Concurrent Prog

/-- What the rest of an invocation of the controller may rely on, step after step. -/
def Kept (c : Controller) (P : Os → Prop) : Prop := ∀ s t, P s → Keeps c s t → P t

/-- The PID file, read: no pipeline runs but the one it names, if it names one. -/
def Names (c : Controller) : Option Nat → Os → Prop
  | none => NoPipeline c
  | some pid => fun s => Recorded c s ∧ OnlyPipeline c pid s

theorem kept_recorded (c : Controller) : Kept c (Recorded c) := fun _ _ hs h => h.recorded hs

theorem kept_noPipeline (c : Controller) : Kept c (NoPipeline c) :=
  fun _ _ hs h => h.1.noPipeline hs

theorem kept_onlyPipeline (c : Controller) (pid : Nat) : Kept c (OnlyPipeline c pid) :=
  fun _ _ hs h => h.1.onlyPipeline hs

theorem kept_names (c : Controller) (pid : Option Nat) : Kept c (Names c pid) := by
  cases pid with
  | none => exact kept_noPipeline c
  | some pid => exact fun _ _ hs h => ⟨h.recorded hs.1, h.1.onlyPipeline hs.2⟩

theorem Names.recorded {c : Controller} {pid : Option Nat} {s : Os} (h : Names c pid s) :
    Recorded c s := by
  cases pid with
  | none => exact NoPipeline.recorded h
  | some pid => exact h.1

/-- What the PID file says where it records the pipeline. -/
theorem Recorded.names {c : Controller} {s : Os} (h : Recorded c s) :
    Names c (s.pidFile c).join s := by
  cases hfile : (s.pidFile c).join with
  | none =>
    intro pid hpid
    rw [h pid hpid] at hfile
    cases hfile
  | some held =>
    refine ⟨h, fun pid hpid => ?_⟩
    rw [h pid hpid] at hfile
    exact Option.some.inj hfile

/-- The outcome of a test of the process the PID file names. -/
def Found (c : Controller) (pid : Option Nat) : Bool → Os → Prop
  | true => Names c pid
  | false => NoPipeline c

theorem kept_found (c : Controller) (pid : Option Nat) (alive : Bool) :
    Kept c (Found c pid alive) := by
  cases alive with
  | true => exact kept_names c pid
  | false => exact kept_noPipeline c

theorem Names.found {c : Controller} {pid : Nat} {s : Os} (h : Names c (some pid) s) :
    Found c (some pid) (s.alive pid) s := by
  cases halive : s.alive pid with
  | true => exact h
  | false => exact h.2.none (not_pipeline_of_alive halive)

/-! ### Operations that demand nothing -/

/-- Neither a fork nor an operation on a PID file that changes it. -/
def Op.Harmless : Op → Prop
  | .fork _ _ | .truncatePid _ | .writePid _ _ | .unlink _ => False
  | _ => True

theorem harmless_allowed {o : Op} (h : o.Harmless) (i : Invocation) (s : Os) : Allowed i o s := by
  cases o <;> trivial

section

variable {K : Kernel} {c : Controller} {i : Invocation} {P : Os → Prop} {α : Type}

theorem harmless_keeps {o : Op} {s t : Os} (ho : o.Harmless) (h : Effect K o s t) :
    Keeps c s t := by
  cases h with
  | same => exact keeps_refl c _
  | truncatePid | writePid | unlink | fork => exact ho.elim
  | killed _ pid => exact keeps_advance (by simp)
  | reaped _ pid => exact keeps_advance (by simp)
  | exit self => exact ⟨fun _ hq => pipeline_adopt hq, .inl rfl⟩

/-- The controllers, as one invocation sees them: the others keep what its controller relies
on. -/
noncomputable abbrev among (K : Kernel) (c : Controller) :=
  (videoMachine K).relying (Keeps c)

/-- From `P` the program meets the demands of the invocation and ends in `Q`. -/
abbrev Upkeep (K : Kernel) (i : Invocation) (P : Os → Prop) (p : Program α)
    (Q : α → Os → Prop) : Prop :=
  (among K i.controller).Contract .none (Allowed i) P p Q

theorem Kept.stable (hP : Kept c P) : (among K c).Stable P := Machine.relying_stable hP

theorem among_effect {o : Op} {s t : Os} {result : o.Res}
    (h : (among K c).Exec o s result t) : Effect K o s t :=
  exec_effect (Machine.relying_exec.mp h)

variable {Q : α → Os → Prop}

theorem upkeep_ret (hP : Kept i.controller P) {value : α} (h : ∀ s, P s → Q value s) :
    Upkeep K i P (.ret value) Q :=
  Machine.contract_ret hP.stable h

/-- A harmless operation leaves a kept assertion as it is. -/
theorem upkeep_harmless_op (hP : Kept i.controller P) {o : Op} {next : o.Res → Program α}
    (ho : o.Harmless) (hnext : ∀ result, Upkeep K i P (next result) Q) :
    Upkeep K i P (.op o next) Q := by
  apply Machine.contract_op (N := fun _ => P) hP.stable
  · exact fun s _ _ => harmless_allowed ho i s
  · exact fun s _ t hs _ hexec => hP s t hs (harmless_keeps ho (among_effect hexec))
  · exact hnext

theorem upkeep_harmless (hP : Kept i.controller P) {p : Program α}
    (hp : p.Uses Op.Harmless) : Upkeep K i P p fun _ => P := by
  have hdemand : ∀ o, Op.Harmless o → ∀ s, P s → Allowed i o s :=
    fun o ho s _ => harmless_allowed ho i s
  have hkeep : ∀ o, Op.Harmless o → ∀ s result t, P s →
      (among K i.controller).Exec o s result t → P t :=
    fun o ho s _ t hs hexec => hP s t hs (harmless_keeps ho (among_effect hexec))
  exact Machine.contract_uses hP.stable hdemand hkeep hp

/-! ### The operations that look at processes and PID files -/

/-- Signal 0 tells whether the process the PID file names is there. -/
theorem upkeep_kill0 {pid : Nat} {next : Bool → Program α}
    (hnext : ∀ alive, Upkeep K i (Found i.controller (some pid) alive) (next alive) Q) :
    Upkeep K i (Names i.controller (some pid)) (.op (.kill0 pid) next) Q := by
  apply Machine.contract_op (N := Found i.controller (some pid)) (kept_names _ _).stable
  · exact fun _ _ _ => trivial
  · intro s alive t hs _ hexec
    obtain ⟨rfl, rfl⟩ := exec_kill0 (Machine.relying_exec.mp hexec)
    exact hs.found
  · exact hnext

theorem upkeep_sigterm {pid : Nat} {next : Bool → Program α}
    (hnext : ∀ sent, Upkeep K i (Found i.controller (some pid) sent) (next sent) Q) :
    Upkeep K i (Names i.controller (some pid)) (.op (.kill pid .term) next) Q := by
  apply Machine.contract_op (N := Found i.controller (some pid)) (kept_names _ _).stable
  · exact fun _ _ _ => trivial
  · intro s sent t hs _ hexec
    obtain ⟨rfl, rfl⟩ := exec_sigterm (Machine.relying_exec.mp hexec)
    exact hs.found
  · exact hnext

/-- `SIGKILL` to the process the PID file names leaves no pipeline. -/
theorem upkeep_sigkill {pid : Nat} {next : Bool → Program α}
    (hnext : ∀ sent, Upkeep K i (NoPipeline i.controller) (next sent) Q) :
    Upkeep K i (Names i.controller (some pid)) (.op (.kill pid .kill) next) Q := by
  apply Machine.contract_op (N := fun _ => NoPipeline i.controller) (kept_names _ _).stable
  · exact fun _ _ _ => trivial
  · intro s sent t hs _ hexec
    cases exec_sigkill (Machine.relying_exec.mp hexec)
    intro q hq
    obtain ⟨hrunning, hne⟩ := pipeline_advance (by simp) hq
    exact hne rfl (hs.2 q hrunning)
  · exact hnext

theorem upkeep_readPid {next : Option Nat → Program α} (hi : i.controller = c)
    (hnext : ∀ pid, Upkeep K i (Names i.controller pid) (next pid) Q) :
    Upkeep K i (Recorded i.controller) (.op (.readPid c) next) Q := by
  subst hi
  apply Machine.contract_op (N := Names i.controller) (kept_recorded _).stable
  · exact fun _ _ _ => trivial
  · intro s pid t hs _ hexec
    obtain ⟨rfl, rfl⟩ := exec_readPid (Machine.relying_exec.mp hexec)
    exact hs.names
  · exact hnext

/-- A PID file is removed where no pipeline runs. -/
theorem upkeep_unlink {next : Bool → Program α} (hi : i.controller = c)
    (hnext : ∀ ok, Upkeep K i (NoPipeline i.controller) (next ok) Q) :
    Upkeep K i (NoPipeline i.controller) (.op (.unlink c) next) Q := by
  subst hi
  apply Machine.contract_op (N := fun _ => NoPipeline i.controller) (kept_noPipeline _).stable
  · exact fun s hs _ => ⟨rfl, hs⟩
  · intro s ok t hs _ hexec
    cases among_effect hexec with
    | unlink => exact hs
    | same => exact hs
    | killed => exact (dies_advance (by simp)).noPipeline hs
    | reaped => exact (dies_advance (by simp)).noPipeline hs
  · exact hnext

/-- What a fork leaves behind, with the PID of the child. -/
def Forked (c : Controller) : Option Nat → Os → Prop
  | none => NoPipeline c
  | some pid => OnlyPipeline c pid

/-- A fork where no pipeline runs leaves at most the child. -/
theorem upkeep_fork {next : Option Nat → Program α} (hi : i.controller = c)
    (hstarts : i.starts = true)
    (hnone : Upkeep K i (NoPipeline i.controller) (next none) Q)
    (hsome : ∀ pid, Upkeep K i (OnlyPipeline i.controller pid) (next (some pid)) Q) :
    Upkeep K i (NoPipeline i.controller) (.op (.fork i.self c) next) Q := by
  subst hi
  apply Machine.contract_op (N := Forked i.controller) (kept_noPipeline _).stable
  · exact fun s hs _ => ⟨rfl, hstarts, hs⟩
  · intro s child t hs _ hexec
    rcases exec_fork (Machine.relying_exec.mp hexec) with ⟨rfl, rfl⟩ | ⟨p, rfl, _, rfl⟩
    · exact hs
    · intro q hq
      rcases pipeline_setProc hq with ⟨hqp, _⟩ | hrunning
      · exact hqp
      · exact absurd hrunning (hs q)
  · intro child
    cases child with
    | none => exact hnone
    | some pid => exact hsome pid

/-- Where writes succeed, truncating the PID file does. -/
theorem upkeep_truncatePid {pid : Nat} {next : Bool → Program α} (hwrites : K.writesFail = false)
    (hi : i.controller = c) (hstarts : i.starts = true)
    (hnext : Upkeep K i (OnlyPipeline i.controller pid) (next true) Q) :
    Upkeep K i (OnlyPipeline i.controller pid) (.op (.truncatePid c) next) Q := by
  subst hi
  apply Machine.contract_op (N := fun ok s => ok = true ∧ OnlyPipeline i.controller pid s)
    (kept_onlyPipeline _ _).stable
  · exact fun s _ _ => ⟨rfl, hstarts⟩
  · intro s ok t hs _ hexec
    rcases exec_truncatePid (Machine.relying_exec.mp hexec) with ⟨rfl, rfl⟩ | ⟨hfails, _⟩
    · exact ⟨rfl, hs⟩
    · rw [hwrites] at hfails
      cases hfails
  · intro ok
    cases ok with
    | true => exact Machine.contract_conseq hnext (fun s hs => hs.2) (fun _ _ h => h)
    | false => exact fun s hs => absurd hs.1 Bool.false_ne_true

/-- Once the PID file has been written, it records the pipeline. -/
theorem upkeep_writePid {pid : Nat} {next : Bool → Program α} (hwrites : K.writesFail = false)
    (hi : i.controller = c) (hstarts : i.starts = true)
    (hnext : Upkeep K i (Names i.controller (some pid)) (next true) Q) :
    Upkeep K i (OnlyPipeline i.controller pid) (.op (.writePid c pid) next) Q := by
  subst hi
  apply Machine.contract_op (N := fun ok s => ok = true ∧ Names i.controller (some pid) s)
    (kept_onlyPipeline _ _).stable
  · exact fun s _ _ => ⟨rfl, hstarts⟩
  · intro s ok t hs _ hexec
    rcases exec_writePid (Machine.relying_exec.mp hexec) with ⟨rfl, rfl⟩ | ⟨hfails, _⟩
    · refine ⟨rfl, fun q hq => ?_, hs⟩
      rw [hs q hq]
      exact if_pos rfl
    · rw [hwrites] at hfails
      cases hfails
  · intro ok
    cases ok with
    | true => exact Machine.contract_conseq hnext (fun s hs => hs.2) (fun _ _ h => h)
    | false => exact fun s hs => absurd hs.1 Bool.false_ne_true

end

/-! ### `gstreamer_controller` -/

/-- What `gstreamer_pid` holds between two calls. -/
def Holding (c : Controller) : Option Nat → Os → Prop
  | none => Recorded c
  | some pid => Names c (some pid)

/-- What `isStreaming` leaves behind, with its answer and `gstreamer_pid`. -/
def Streaming (c : Controller) : Bool × Option Nat → Os → Prop
  | (true, some pid) => Names c (some pid)
  | (false, none) => NoPipeline c
  | _ => fun _ => False

/-- What `stopStreaming` leaves behind, with its answer and `gstreamer_pid`. -/
def Stopped (c : Controller) : Bool × Option Nat → Os → Prop
  | (true, none) => NoPipeline c
  | (false, some pid) => Names c (some pid)
  | _ => fun _ => False

theorem Stopped.holding {c : Controller} {r : Bool × Option Nat} {s : Os} (h : Stopped c r s) :
    Holding c r.2 s ∧ (r.1 = true → NoPipeline c s) := by
  obtain ⟨stopped, held⟩ := r
  cases stopped with
  | true =>
    cases held with
    | none => exact ⟨NoPipeline.recorded h, fun _ => h⟩
    | some pid => exact h.elim
  | false =>
    cases held with
    | none => exact h.elim
    | some pid => exact ⟨h, fun hfalse => absurd hfalse Bool.false_ne_true⟩

theorem harmless_waitLoop (self pid n : Nat) : (waitLoop self pid n).Uses Op.Harmless := by
  induction n with
  | zero => trivial
  | succ n ih =>
    refine ⟨trivial, fun exited => ?_⟩
    cases exited with
    | true => trivial
    | false => exact ⟨trivial, fun _ => ih⟩

section

variable {K : Kernel} {i : Invocation} (hcpp : i.controller = .cpp)
include hcpp

theorem upkeep_heldPid (held : Option Nat) :
    Upkeep K i (Holding i.controller held) (heldPid held) (Names i.controller) := by
  cases held with
  | some pid => exact upkeep_ret (kept_names _ (some pid)) fun _ hs => hs
  | none =>
    apply upkeep_readPid hcpp
    intro pid
    exact upkeep_ret (kept_names _ pid) fun _ hs => hs

theorem upkeep_isStreaming (held : Option Nat) :
    Upkeep K i (Holding i.controller held) (isStreaming held) (Streaming i.controller) := by
  apply Machine.contract_bind (upkeep_heldPid hcpp held)
  intro pid
  cases pid with
  | none => exact upkeep_ret (kept_noPipeline _) fun _ hs => hs
  | some pid =>
    apply upkeep_kill0
    intro alive
    cases alive with
    | true => exact upkeep_ret (kept_names _ (some pid)) fun _ hs => hs
    | false =>
      apply upkeep_unlink hcpp
      intro _
      exact upkeep_ret (kept_noPipeline _) fun _ hs => hs

omit hcpp in
/-- What follows `isStreaming`: a pipeline may run and its PID is held, or none runs. -/
theorem upkeep_streaming {α : Type} {f : Bool × Option Nat → Program α} {Q : α → Os → Prop}
    (hstreaming : ∀ pid, Upkeep K i (Names i.controller (some pid)) (f (true, some pid)) Q)
    (hidle : Upkeep K i (NoPipeline i.controller) (f (false, none)) Q) (r : Bool × Option Nat) :
    Upkeep K i (Streaming i.controller r) (f r) Q := by
  obtain ⟨streaming, held⟩ := r
  cases streaming with
  | true =>
    cases held with
    | some pid => exact hstreaming pid
    | none => exact fun _ hs => hs.elim
  | false =>
    cases held with
    | none => exact hidle
    | some pid => exact fun _ hs => hs.elim

theorem upkeep_savePid (hwrites : K.writesFail = false) (hstarts : i.starts = true) (pid : Nat) :
    Upkeep K i (OnlyPipeline i.controller pid) (savePid pid)
      fun _ => Names i.controller (some pid) := by
  apply upkeep_truncatePid hwrites hcpp hstarts
  apply upkeep_writePid hwrites hcpp hstarts
  exact upkeep_ret (kept_names _ (some pid)) fun _ hs => hs

theorem upkeep_startStreaming (hwrites : K.writesFail = false) (hstarts : i.starts = true)
    (held : Option Nat) :
    Upkeep K i (Holding i.controller held) (startStreaming i.self held)
      fun _ => Recorded i.controller := by
  apply Machine.contract_bind (upkeep_isStreaming hcpp held)
  apply upkeep_streaming
  · intro pid
    exact upkeep_ret (kept_names _ (some pid)) fun _ hs => hs.recorded
  · apply upkeep_fork hcpp hstarts
    · exact upkeep_ret (kept_noPipeline _) fun _ hs => hs.recorded
    · intro pid
      apply Machine.contract_bind (upkeep_savePid hcpp hwrites hstarts pid)
      intro _
      exact upkeep_ret (kept_names _ (some pid)) fun _ hs => hs.recorded

theorem upkeep_terminate (pid : Nat) :
    Upkeep K i (Names i.controller (some pid)) (terminate i.self pid) (Stopped i.controller) := by
  simp only [terminate, call_bind]
  apply upkeep_sigterm
  intro sent
  cases sent with
  | false =>
    exact upkeep_ret (kept_noPipeline _) fun _ hs =>
      ⟨hs.recorded, fun q hq => absurd hq (hs q)⟩
  | true =>
    apply Machine.contract_bind (N := fun _ => Names i.controller (some pid))
    · exact upkeep_harmless (kept_names _ (some pid)) (harmless_waitLoop i.self pid 50)
    · intro _
      apply upkeep_kill0
      intro alive
      apply Machine.contract_bind (N := fun _ => NoPipeline i.controller)
      · cases alive with
        | true =>
          apply upkeep_sigkill
          intro _
          exact upkeep_ret (kept_noPipeline _) fun _ hs => hs
        | false => exact upkeep_ret (kept_noPipeline _) fun _ hs => hs
      · intro _
        apply upkeep_unlink hcpp
        intro _
        exact upkeep_ret (kept_noPipeline _) fun _ hs => hs

theorem upkeep_stopStreaming :
    Upkeep K i (Recorded i.controller) (stopStreaming i.self none)
      fun r s => Holding i.controller r.2 s ∧ (r.1 = true → NoPipeline i.controller s) := by
  apply Machine.contract_bind (upkeep_isStreaming hcpp none)
  apply upkeep_streaming
  · intro pid
    exact Machine.contract_conseq (upkeep_terminate hcpp pid) (fun _ hs => hs)
      fun _ _ hs => hs.holding
  · exact upkeep_ret (kept_noPipeline _) fun _ hs => ⟨hs.recorded, fun _ => hs⟩

end

/-! ### `gstreamer-video-streaming` -/

section

variable {K : Kernel} {i : Invocation} {P : Os → Prop}

theorem upkeep_logMessage (hP : Kept i.controller P) : Upkeep K i P logMessage fun _ => P :=
  upkeep_harmless hP ⟨trivial, fun _ => trivial⟩

theorem upkeep_check (hP : Kept i.controller P) (what : Check) :
    Upkeep K i P (call (.check what)) fun _ => P :=
  upkeep_harmless hP ⟨trivial, fun _ => trivial⟩

/-- A command under `set -e`: the script goes on, or ends there. -/
theorem upkeep_orExit {R : Os → Prop} (hR : Kept i.controller R) {command : Program Bool}
    {rest : Program Nat} {Q : Nat → Os → Prop} (hcommand : Upkeep K i P command fun _ => R)
    (hrest : Upkeep K i R rest Q) (hfails : ∀ s, R s → Q 1 s) :
    Upkeep K i P (orExit command rest) Q := by
  apply Machine.contract_bind hcommand
  intro ok
  cases ok with
  | true => exact hrest
  | false => exact upkeep_ret hR hfails

/-- A message of the script. -/
theorem upkeep_log (hP : Kept i.controller P) {rest : Program Nat} {Q : Nat → Os → Prop}
    (hrest : Upkeep K i P rest Q) (hfails : ∀ s, P s → Q 1 s) :
    Upkeep K i P (orExit logMessage rest) Q :=
  upkeep_orExit hP (upkeep_logMessage hP) hrest hfails

theorem upkeep_regardless {R : Os → Prop} (hR : Kept i.controller R) {command : Program Bool}
    (h : Upkeep K i P command fun _ => R) : Upkeep K i P (regardless command) fun _ => R := by
  apply Machine.contract_bind h
  intro _
  exact upkeep_ret hR fun _ hs => hs

theorem upkeep_killZero (pid : Option Nat) :
    Upkeep K i (Names i.controller pid) (killZero pid) (Found i.controller pid) := by
  cases pid with
  | none => exact upkeep_ret (kept_noPipeline _) fun _ hs => hs
  | some pid =>
    apply upkeep_kill0
    intro alive
    exact upkeep_ret (kept_found _ _ alive) fun _ hs => hs

theorem upkeep_killTerm (pid : Option Nat) :
    Upkeep K i (Names i.controller pid) (killSignal .term pid) (Found i.controller pid) := by
  cases pid with
  | none => exact upkeep_ret (kept_noPipeline _) fun _ hs => hs
  | some pid =>
    apply upkeep_sigterm
    intro sent
    exact upkeep_ret (kept_found _ _ sent) fun _ hs => hs

theorem upkeep_killKill (pid : Option Nat) :
    Upkeep K i (Names i.controller pid) (killSignal .kill pid)
      fun _ => NoPipeline i.controller := by
  cases pid with
  | none => exact upkeep_ret (kept_noPipeline _) fun _ hs => hs
  | some pid =>
    apply upkeep_sigkill
    intro _
    exact upkeep_ret (kept_noPipeline _) fun _ hs => hs

theorem harmless_killZero (pid : Option Nat) : (killZero pid).Uses Op.Harmless := by
  cases pid with
  | none => trivial
  | some pid => exact ⟨trivial, fun _ => trivial⟩

theorem harmless_awaitExit (pid : Option Nat) (n : Nat) :
    (awaitExit pid n).Uses Op.Harmless := by
  induction n with
  | zero => exact uses_bind (harmless_killZero pid) fun _ => trivial
  | succ n ih =>
    apply uses_bind (harmless_killZero pid)
    intro alive
    cases alive with
    | true => exact ⟨trivial, fun _ => ih⟩
    | false => trivial

end

section

variable {K : Kernel} {i : Invocation} (hscript : i.controller = .script)
include hscript

/-- `rm -f "$PID_FILE"`. -/
theorem upkeep_rm :
    Upkeep K i (NoPipeline i.controller) (call (.unlink .script))
      fun _ => NoPipeline i.controller := by
  apply upkeep_unlink hscript
  intro _
  exact upkeep_ret (kept_noPipeline _) fun _ hs => hs

/-- What `get_service_status` finds. -/
def Serving (c : Controller) : Bool → Os → Prop
  | true => Recorded c
  | false => NoPipeline c

theorem upkeep_getServiceStatus :
    Upkeep K i (Recorded i.controller) getServiceStatus (Serving i.controller) := by
  simp only [getServiceStatus, call_bind]
  apply Machine.contract_op (N := Serving i.controller) (kept_recorded _).stable
  · exact fun _ _ _ => trivial
  · intro s found t hs _ hexec
    obtain ⟨rfl, rfl⟩ := exec_fileExists (Machine.relying_exec.mp hexec)
    cases hfile : t.pidFile .script with
    | some content => exact hs
    | none =>
      intro pid hpid
      have hrecorded := hs pid hpid
      rw [hscript, hfile] at hrecorded
      cases hrecorded
  · intro found
    cases found with
    | false => exact upkeep_ret (kept_noPipeline _) fun _ hs => hs
    | true =>
      apply upkeep_readPid hscript
      intro pid
      apply Machine.contract_bind (upkeep_killZero pid)
      intro alive
      cases alive with
      | true => exact upkeep_ret (kept_names _ pid) fun _ hs => hs.recorded
      | false =>
        apply Machine.contract_bind (upkeep_regardless (kept_noPipeline _) (upkeep_rm hscript))
        intro _
        exact upkeep_ret (kept_noPipeline _) fun _ hs => hs

/-- The test pipeline has ended when the script goes on. -/
theorem upkeep_testPipeline (hstarts : i.starts = true) :
    Upkeep K i (NoPipeline i.controller) (testPipeline i.self)
      fun _ => NoPipeline i.controller := by
  apply upkeep_fork hscript hstarts
  · exact upkeep_ret (kept_noPipeline _) fun _ hs => hs
  · intro pid
    apply Machine.contract_op (N := fun _ => NoPipeline i.controller)
      (kept_onlyPipeline _ pid).stable
    · exact fun _ _ _ => trivial
    · intro s _ t hs _ hexec
      obtain ⟨hended, rfl⟩ := exec_await (Machine.relying_exec.mp hexec)
      have hnone : NoPipeline i.controller s := hs.none (not_pipeline_of_running hended)
      exact (dies_advance (by simp)).noPipeline hnone
    · intro _
      exact upkeep_ret (kept_noPipeline _) fun _ hs => hs

theorem upkeep_checkDependencies (hstarts : i.starts = true) :
    Upkeep K i (NoPipeline i.controller) (checkDependencies i.self)
      fun _ => NoPipeline i.controller := by
  have hlog : Upkeep K i (NoPipeline i.controller) (regardless logMessage)
      fun _ => NoPipeline i.controller :=
    upkeep_regardless (kept_noPipeline _) (upkeep_logMessage (kept_noPipeline _))
  have hret : ∀ ok, Upkeep K i (NoPipeline i.controller) (.ret ok : Program (Option Bool))
      fun _ => NoPipeline i.controller :=
    fun _ => upkeep_ret (kept_noPipeline _) fun _ hs => hs
  have hfails : Upkeep K i (NoPipeline i.controller)
      (do regardless logMessage; .ret (some false) : Program (Option Bool))
      fun _ => NoPipeline i.controller :=
    Machine.contract_bind hlog fun _ => hret (some false)
  apply Machine.contract_bind hlog
  intro _
  apply Machine.contract_bind (upkeep_check (kept_noPipeline _) .gstLaunch)
  intro found
  cases found with
  | false => exact hfails
  | true =>
    apply Machine.contract_bind (upkeep_check (kept_noPipeline _) .deviceExists)
    intro found
    cases found with
    | false => exact hfails
    | true =>
      apply Machine.contract_bind (upkeep_check (kept_noPipeline _) .deviceAccessible)
      intro accessible
      cases accessible with
      | false => exact hfails
      | true =>
        apply Machine.contract_bind hlog
        intro _
        apply Machine.contract_bind (upkeep_testPipeline hscript hstarts)
        intro tested
        cases tested with
        | false => exact hret none
        | true => exact Machine.contract_bind hlog fun _ => hret (some true)

theorem upkeep_confirmStart (gstPid : Nat) :
    Upkeep K i (Names i.controller (some gstPid)) (confirmStart gstPid)
      fun _ => Recorded i.controller := by
  have hsleep : Op.sleep.Harmless := trivial
  apply upkeep_harmless_op (kept_names _ (some gstPid)) hsleep
  intro _
  apply Machine.contract_bind (upkeep_killZero (some gstPid))
  intro alive
  cases alive with
  | true =>
    apply upkeep_log (kept_names _ (some gstPid))
    · apply upkeep_log (kept_names _ (some gstPid))
      · exact upkeep_ret (kept_names _ (some gstPid)) fun _ hs => hs.recorded
      · exact fun _ hs => hs.recorded
    · exact fun _ hs => hs.recorded
  | false =>
    apply upkeep_log (kept_noPipeline _)
    · apply upkeep_orExit (kept_noPipeline _) (upkeep_rm hscript)
      · exact upkeep_ret (kept_noPipeline _) fun _ hs => hs.recorded
      · exact fun _ hs => hs.recorded
    · exact fun _ hs => hs.recorded

theorem upkeep_launchPipeline (hwrites : K.writesFail = false) (hstarts : i.starts = true) :
    Upkeep K i (NoPipeline i.controller) (launchPipeline i.self)
      fun _ => Recorded i.controller := by
  apply upkeep_fork hscript hstarts
  · exact upkeep_ret (kept_noPipeline _) fun _ hs => hs.recorded
  · intro gstPid
    apply upkeep_truncatePid hwrites hscript hstarts
    apply upkeep_writePid hwrites hscript hstarts
    exact upkeep_confirmStart hscript gstPid

theorem upkeep_startService (hwrites : K.writesFail = false) (hstarts : i.starts = true) :
    Upkeep K i (Recorded i.controller) (startService i.self)
      fun _ => Recorded i.controller := by
  have hnone : Kept i.controller (NoPipeline i.controller) := kept_noPipeline _
  have hrecorded : ∀ s, NoPipeline i.controller s → Recorded i.controller s :=
    fun _ hs => hs.recorded
  apply Machine.contract_bind (upkeep_getServiceStatus hscript)
  intro running
  cases running with
  | true =>
    apply upkeep_log (kept_recorded _)
    · exact upkeep_ret (kept_recorded _) fun _ hs => hs
    · exact fun _ hs => hs
  | false =>
    apply upkeep_log hnone _ hrecorded
    apply Machine.contract_bind (upkeep_checkDependencies hscript hstarts)
    intro ok
    match ok with
    | none => exact upkeep_ret hnone hrecorded
    | some false => exact upkeep_log hnone (upkeep_ret hnone hrecorded) hrecorded
    | some true =>
      apply upkeep_log hnone _ hrecorded
      apply upkeep_orExit hnone (upkeep_check hnone .mkdir) _ hrecorded
      apply upkeep_orExit hnone (upkeep_check hnone .mkdir) _ hrecorded
      apply upkeep_log hnone _ hrecorded
      apply upkeep_log hnone _ hrecorded
      exact upkeep_launchPipeline hscript hwrites hstarts

/-- What `stop_service` leaves behind, with its status. -/
def Halted (c : Controller) (code : Nat) (s : Os) : Prop :=
  Recorded c s ∧ (code = 0 → NoPipeline c s)

theorem upkeep_removePidFile :
    Upkeep K i (NoPipeline i.controller) removePidFile (Halted i.controller) := by
  have hhalted : ∀ code s, NoPipeline i.controller s → Halted i.controller code s :=
    fun _ _ hs => ⟨hs.recorded, fun _ => hs⟩
  apply upkeep_orExit (kept_noPipeline _) (upkeep_rm hscript)
  · exact upkeep_log (kept_noPipeline _) (upkeep_ret (kept_noPipeline _) (hhalted 0)) (hhalted 1)
  · exact hhalted 1

theorem upkeep_stopPid (pid : Option Nat) :
    Upkeep K i (Names i.controller pid) (stopPid pid) (Halted i.controller) := by
  apply Machine.contract_bind (upkeep_killTerm pid)
  intro sent
  cases sent with
  | false => exact upkeep_removePidFile hscript
  | true =>
    apply Machine.contract_bind (upkeep_harmless (kept_names _ pid) (harmless_awaitExit pid 10))
    intro _
    apply Machine.contract_bind (upkeep_killZero pid)
    intro alive
    cases alive with
    | false => exact upkeep_removePidFile hscript
    | true =>
      apply upkeep_log (kept_names _ pid)
      · apply Machine.contract_bind
          (upkeep_regardless (kept_noPipeline _) (upkeep_killKill pid))
        exact fun _ => upkeep_removePidFile hscript
      · exact fun _ hs => ⟨hs.recorded, fun h => absurd h Nat.one_ne_zero⟩

theorem upkeep_stopService :
    Upkeep K i (Recorded i.controller) stopService (Halted i.controller) := by
  apply Machine.contract_bind (upkeep_getServiceStatus hscript)
  intro running
  cases running with
  | false =>
    have hhalted : ∀ code s, NoPipeline i.controller s → Halted i.controller code s :=
      fun _ _ hs => ⟨hs.recorded, fun _ => hs⟩
    exact upkeep_log (kept_noPipeline _) (upkeep_ret (kept_noPipeline _) (hhalted 0)) (hhalted 1)
  | true =>
    apply upkeep_readPid hscript
    intro pid
    apply upkeep_log (kept_names _ pid) (upkeep_stopPid hscript pid)
    exact fun _ hs => ⟨hs.recorded, fun h => absurd h Nat.one_ne_zero⟩

end

/-! ### Invocations -/

section

variable {K : Kernel} {i : Invocation}

/-- What an invocation leaves behind: its PID file records the pipeline, and a stop that succeeds
leaves none. -/
def Leaves (i : Invocation) (code : Nat) (s : Os) : Prop :=
  Recorded i.controller s ∧ (i.command = .stop → code = 0 → NoPipeline i.controller s)

theorem kept_leaves (i : Invocation) (code : Nat) : Kept i.controller (Leaves i code) :=
  fun _ _ hs h => ⟨h.recorded hs.1, fun hstop hcode => h.1.noPipeline (hs.2 hstop hcode)⟩

theorem exitCode_eq_zero {ok : Bool} (h : exitCode ok = 0) : ok = true := by
  cases ok with
  | true => rfl
  | false => cases h

theorem Streaming.recorded {c : Controller} {r : Bool × Option Nat} {s : Os}
    (h : Streaming c r s) : Recorded c s := by
  obtain ⟨streaming, held⟩ := r
  cases streaming with
  | true =>
    cases held with
    | some pid => exact h.1
    | none => exact h.elim
  | false =>
    cases held with
    | none => exact NoPipeline.recorded h
    | some pid => exact h.elim

theorem kept_holding (c : Controller) (held : Option Nat) : Kept c (Holding c held) := by
  cases held with
  | none => exact kept_recorded c
  | some pid => exact kept_names c (some pid)

theorem Holding.recorded {c : Controller} {held : Option Nat} {s : Os} (h : Holding c held s) :
    Recorded c s := by
  cases held with
  | none => exact h
  | some pid => exact h.1

theorem upkeep_controllerMain (hwrites : K.writesFail = false) (hcpp : i.controller = .cpp) :
    Upkeep K i (Recorded i.controller) (controllerMain i.self i.command) (Leaves i) := by
  cases hcommand : i.command with
  | start =>
    have hstarts : i.starts = true := by simp [Invocation.starts, hcommand]
    apply Machine.contract_bind (upkeep_startStreaming hcpp hwrites hstarts none)
    intro ok
    exact upkeep_ret (kept_recorded _) fun _ hs => ⟨hs, by simp [hcommand]⟩
  | stop =>
    apply Machine.contract_bind (N := fun r => Leaves i (exitCode r.1))
    · apply Machine.contract_conseq (upkeep_stopStreaming hcpp) (fun _ hs => hs)
      intro r s hs
      exact ⟨hs.1.recorded, fun _ hcode => hs.2 (exitCode_eq_zero hcode)⟩
    · intro r
      exact upkeep_ret (kept_leaves i _) fun _ hs => hs
  | restart =>
    have hstarts : i.starts = true := by simp [Invocation.starts, hcommand]
    have hsleep : Op.sleep.Harmless := trivial
    apply Machine.contract_bind (N := fun r => Holding i.controller r.2)
    · exact Machine.contract_conseq (upkeep_stopStreaming hcpp) (fun _ hs => hs)
        fun _ _ hs => hs.1
    · intro r
      apply upkeep_harmless_op (kept_holding _ r.2) hsleep
      intro _
      apply Machine.contract_bind (upkeep_startStreaming hcpp hwrites hstarts r.2)
      intro ok
      exact upkeep_ret (kept_recorded _) fun _ hs => ⟨hs, by simp [hcommand]⟩
  | status =>
    apply Machine.contract_bind (N := fun _ => Recorded i.controller)
    · exact Machine.contract_conseq (upkeep_isStreaming hcpp none) (fun _ hs => hs)
        fun _ _ hs => hs.recorded
    · intro _
      exact upkeep_ret (kept_recorded _) fun _ hs => ⟨hs, by simp [hcommand]⟩

theorem upkeep_serviceMain (hwrites : K.writesFail = false) (hscript : i.controller = .script) :
    Upkeep K i (Recorded i.controller) (serviceMain i.self i.command) (Leaves i) := by
  cases hcommand : i.command with
  | start =>
    have hstarts : i.starts = true := by simp [Invocation.starts, hcommand]
    apply Machine.contract_conseq (upkeep_startService hscript hwrites hstarts) (fun _ hs => hs)
    exact fun _ _ hs => ⟨hs, by simp [hcommand]⟩
  | stop =>
    apply Machine.contract_conseq (upkeep_stopService hscript) (fun _ hs => hs)
    exact fun _ _ hs => ⟨hs.1, fun _ => hs.2⟩
  | restart =>
    have hstarts : i.starts = true := by simp [Invocation.starts, hcommand]
    have hsleep : Op.sleep.Harmless := trivial
    have hleaves : ∀ code s, Recorded i.controller s → Leaves i code s :=
      fun _ _ hs => ⟨hs, by simp [hcommand]⟩
    apply upkeep_log (kept_recorded _) _ (hleaves 1)
    apply Machine.contract_bind (N := fun _ => Recorded i.controller)
    · exact Machine.contract_conseq (upkeep_stopService hscript) (fun _ hs => hs)
        fun _ _ hs => hs.1
    · intro code
      split
      · apply upkeep_harmless_op (kept_recorded _) hsleep
        intro _
        exact Machine.contract_conseq (upkeep_startService hscript hwrites hstarts)
          (fun _ hs => hs) hleaves
      · exact upkeep_ret (kept_recorded _) (hleaves code)
  | status =>
    have hread : (Op.readPid .script).Harmless := trivial
    apply Machine.contract_bind (N := fun _ => Recorded i.controller)
    · apply Machine.contract_conseq (upkeep_getServiceStatus hscript) (fun _ hs => hs)
      intro running s hs
      cases running with
      | true => exact hs
      | false => exact NoPipeline.recorded hs
    · intro running
      apply Machine.contract_bind (N := fun _ => Recorded i.controller)
      · cases running with
        | true =>
          apply upkeep_harmless_op (kept_recorded _) hread
          intro _
          exact upkeep_ret (kept_recorded _) fun _ hs => hs
        | false => exact upkeep_ret (kept_recorded _) fun _ hs => hs
      · intro _
        exact upkeep_ret (kept_recorded _) fun _ hs => ⟨hs, by simp [hcommand]⟩

/-- Where writes succeed, an invocation meets its demands and keeps its PID file in order. -/
theorem upkeep_run (hwrites : K.writesFail = false) (i : Invocation) :
    Upkeep K i (Recorded i.controller) i.run (Leaves i) := by
  have hexit : (Op.exit i.self).Harmless := trivial
  have hmain : Upkeep K i (Recorded i.controller) i.main (Leaves i) := by
    unfold Invocation.main
    split
    · next hcpp => exact upkeep_controllerMain hwrites hcpp
    · next hscript => exact upkeep_serviceMain hwrites hscript
  apply Machine.contract_bind hmain
  intro code
  apply upkeep_harmless_op (kept_leaves i code) hexit
  intro _
  exact upkeep_ret (kept_leaves i code) fun _ hs => hs

end

end EmbeddedCar.Video
