import EmbeddedCar.Concurrent.Program

/-!
# Processes, signals and PID files

What the two video controllers see of the system: the process table, the signals they send and
the PID file each of them keeps. An invocation of a controller performs one operation after
another; in between, processes exit, are reaped and appear. `sh -c` and `nohup` replace
themselves by `gst-launch-1.0`, so the process forked is the pipeline. The invocations run as
root: a signal fails only where there is no process.
-/

namespace EmbeddedCar.Video

open EmbeddedCar.Concurrent

/-- `gstreamer_controller` and the script `gstreamer-video-streaming`. -/
inductive Controller where
  | cpp
  | script
  deriving DecidableEq, Repr

/-- Who forked a process. The parent of a pipeline is an invocation of its controller, or `none`
when the invocation has exited and init has taken its place. -/
inductive Owner where
  | pipeline (controller : Controller) (parent : Option Nat)
  | other
  deriving DecidableEq, Repr

/-- A zombie has exited and still has its PID; the PID of a reaped process is free. -/
inductive Status where
  | running
  | zombie
  | reaped
  deriving DecidableEq, Repr

structure Process where
  owner : Owner
  status : Status
  deriving DecidableEq, Repr

inductive Signal where
  | term
  | kill
  deriving DecidableEq, Repr

/-- The process table, with the last process of each PID, and the PID files:
`/tmp/gstreamer_video.pid` and `/var/run/gstreamer-video.pid`. A file that holds no number is
`some none`. -/
structure Os where
  procs : Nat → Option Process := fun _ => none
  pidFile : Controller → Option (Option Nat) := fun _ => none

/-- What is left open about the system: whether the PID of a reaped process may be given to a
new process of this owner, and whether writing a PID file may fail. -/
structure Kernel where
  reuses : Owner → Os → Nat → Bool
  writesFail : Bool

/-- Nothing has been started yet. -/
def boot : Os := {}

/-- No PID is given twice, and writing a PID file succeeds. -/
def strictKernel : Kernel where
  reuses := fun _ _ _ => false
  writesFail := false

namespace Os

variable (s : Os)

/-- `kill(pid, 0) == 0`. -/
def alive (pid : Nat) : Bool :=
  match s.procs pid with
  | some process => process.status != .reaped
  | none => false

/-- May a new process of this owner get the PID? -/
def free (K : Kernel) (owner : Owner) (pid : Nat) : Bool :=
  match s.procs pid with
  | some process => process.status == .reaped && K.reuses owner s pid
  | none => 0 < pid

def setProc (pid : Nat) (process : Process) : Os :=
  { s with procs := fun q => if q = pid then some process else s.procs q }

def setFile (c : Controller) (content : Option (Option Nat)) : Os :=
  { s with pidFile := fun d => if d = c then content else s.pidFile d }

/-- The process goes from one status to another; nothing happens in any other status. -/
def advance (pid : Nat) (before after : Status) : Os :=
  match s.procs pid with
  | some process =>
      if process.status = before then s.setProc pid { process with status := after } else s
  | none => s

theorem procs_advance (s : Os) (pid q : Nat) (before after : Status) :
    (s.advance q before after).procs pid = (s.procs pid).map fun process =>
      if pid = q ∧ process.status = before then { process with status := after }
      else process := by
  unfold advance
  by_cases hpq : pid = q
  · subst hpq
    cases hprocess : s.procs pid with
    | none => simp [hprocess]
    | some process =>
      by_cases hstatus : process.status = before
      · simp [hstatus, setProc]
      · simp [hstatus, hprocess]
  · split
    · split
      · simp [setProc, hpq]
      · simp [hpq]
    · simp [hpq]

/-- Init adopts the children of an invocation. -/
def adopt (self : Nat) : Os :=
  { s with procs := fun q => (s.procs q).map fun process =>
      match process.owner with
      | .pipeline c parent =>
          { process with owner := .pipeline c (if parent = some self then none else parent) }
      | .other => process }

def running (pid : Nat) : Bool :=
  match s.procs pid with
  | some process => process.status == .running
  | none => false

/-- Is the process a zombie that its parent, this invocation, has not waited for? -/
def waitable (self : Nat) (pid : Nat) : Bool :=
  match s.procs pid with
  | some ⟨.pipeline _ parent, .zombie⟩ => parent == some self
  | _ => false

/-- May the process be reaped by another than the operations here? Init reaps what it has
adopted, bash its background jobs; an invocation of the C++ program reaps nothing unasked. -/
def unguarded (pid : Nat) : Bool :=
  match s.procs pid with
  | some ⟨.pipeline .cpp parent, _⟩ => parent == none
  | _ => true

end Os

/-- What the script asks for besides processes and PID files: `tee` to the log, `mkdir -p`, and
the tests of `check_dependencies`. -/
inductive Check where
  | log
  | mkdir
  | gstLaunch
  | deviceExists
  | deviceAccessible
  deriving DecidableEq, Repr

inductive Op where
  | fileExists (c : Controller)
  | readPid (c : Controller)
  | truncatePid (c : Controller)
  | writePid (c : Controller) (pid : Nat)
  | unlink (c : Controller)
  | kill0 (pid : Nat)
  | kill (pid : Nat) (signal : Signal)
  | fork (self : Nat) (c : Controller)
  | waitpid (self : Nat) (pid : Nat)
  | await (pid : Nat)
  | check (what : Check)
  | sleep
  | exit (self : Nat)

/-- A read gives the number in the file, if there is one; `fork` the PID of the child, or `none`
where it fails; the other operations whether they succeeded. -/
abbrev Op.Res : Op → Type
  | .readPid _ => Option Nat
  | .fork _ _ => Option Nat
  | .await _ => Unit
  | .sleep => Unit
  | .exit _ => Unit
  | _ => Bool

abbrev Program (α : Type) := Prog Op Op.Res α

/-- The answer of the system: a PID for `fork`, success or failure otherwise. -/
inductive Answer where
  | pid (p : Nat)
  | success
  | failure
  deriving DecidableEq, Repr

/-- What else happens: a process exits, is reaped, or a process of no controller appears. -/
inductive Event where
  | exits (pid : Nat)
  | reaped (pid : Nat)
  | appears (pid : Nat)
  deriving DecidableEq, Repr

/-- The operations of the controllers. `SIGKILL` ends a process at once, `SIGTERM` when the
process chooses to. -/
def perform (K : Kernel) : (o : Op) → Answer → Os → Option (o.Res × Os)
  | .fileExists c, _, s => some ((s.pidFile c).isSome, s)
  | .readPid c, _, s => some ((s.pidFile c).join, s)
  | .truncatePid c, answer, s =>
      if K.writesFail ∧ answer = .failure then some (false, s)
      else some (true, s.setFile c (some none))
  | .writePid c pid, answer, s =>
      if K.writesFail ∧ answer = .failure then some (false, s)
      else some (true, s.setFile c (some (some pid)))
  | .unlink c, answer, s =>
      if answer = .failure then some (false, s) else some (true, s.setFile c none)
  | .kill0 pid, _, s => some (s.alive pid, s)
  | .kill pid .term, _, s => some (s.alive pid, s)
  | .kill pid .kill, _, s => some (s.alive pid, s.advance pid .running .zombie)
  | .fork self c, .pid p, s =>
      if s.free K (.pipeline c (some self)) p then
        some (some p, s.setProc p ⟨.pipeline c (some self), .running⟩)
      else none
  | .fork _ _, _, s => some (none, s)
  | .waitpid self pid, _, s => some (s.waitable self pid,
      if s.waitable self pid then s.advance pid .zombie .reaped else s)
  | .await pid, _, s =>
      if s.running pid then none else some ((), s.advance pid .zombie .reaped)
  | .check _, answer, s => some (answer == .success, s)
  | .sleep, _, s => some ((), s)
  | .exit self, _, s => some ((), s.adopt self)

def happens (K : Kernel) : Event → Os → Option Os
  | .exits pid, s => some (s.advance pid .running .zombie)
  | .reaped pid, s => if s.unguarded pid then some (s.advance pid .zombie .reaped) else none
  | .appears pid, s =>
      if s.free K .other pid then some (s.setProc pid ⟨.other, .running⟩) else none

/-- The controllers on a system. -/
def videoMachine (K : Kernel) : Machine Op Op.Res Os Answer Event where
  perform := perform K
  interfere := happens K

/-! ### What an operation does -/

variable {K : Kernel}

/-- Everything an operation can do to the state. -/
inductive Effect (K : Kernel) : Op → Os → Os → Prop where
  | same (o : Op) (s : Os) : Effect K o s s
  | truncatePid (c : Controller) (s : Os) :
      Effect K (.truncatePid c) s (s.setFile c (some none))
  | writePid (c : Controller) (pid : Nat) (s : Os) :
      Effect K (.writePid c pid) s (s.setFile c (some (some pid)))
  | unlink (c : Controller) (s : Os) : Effect K (.unlink c) s (s.setFile c none)
  | fork {self : Nat} {c : Controller} {p : Nat} {s : Os} :
      s.free K (.pipeline c (some self)) p = true →
      Effect K (.fork self c) s (s.setProc p ⟨.pipeline c (some self), .running⟩)
  | killed (o : Op) (pid : Nat) (s : Os) : Effect K o s (s.advance pid .running .zombie)
  | reaped (o : Op) (pid : Nat) (s : Os) : Effect K o s (s.advance pid .zombie .reaped)
  | exit (self : Nat) (s : Os) : Effect K (.exit self) s (s.adopt self)

theorem exec_effect {o : Op} {s t : Os} {result : o.Res}
    (h : (videoMachine K).Exec o s result t) : Effect K o s t := by
  obtain ⟨answer, h⟩ := h
  cases o with
  | fileExists c =>
    cases h
    exact .same ..
  | readPid c =>
    cases h
    exact .same ..
  | truncatePid c =>
    simp only [videoMachine, perform] at h
    split at h
    · cases h
      exact .same ..
    · cases h
      exact .truncatePid c s
  | writePid c pid =>
    simp only [videoMachine, perform] at h
    split at h
    · cases h
      exact .same ..
    · cases h
      exact .writePid c pid s
  | unlink c =>
    simp only [videoMachine, perform] at h
    split at h
    · cases h
      exact .same ..
    · cases h
      exact .unlink c s
  | kill0 pid =>
    cases h
    exact .same ..
  | kill pid signal =>
    cases signal with
    | term =>
      cases h
      exact .same ..
    | kill =>
      cases h
      exact .killed _ pid s
  | fork self c =>
    cases answer with
    | pid p =>
      simp only [videoMachine, perform] at h
      split at h
      · next hfree =>
        cases h
        exact .fork hfree
      · cases h
    | success =>
      cases h
      exact .same ..
    | failure =>
      cases h
      exact .same ..
  | waitpid self pid =>
    simp only [videoMachine, perform] at h
    obtain ⟨-, rfl⟩ := Prod.mk.inj (Option.some.inj h)
    split
    · exact .reaped _ pid s
    · exact .same ..
  | await pid =>
    simp only [videoMachine, perform] at h
    split at h
    · cases h
    · cases h
      exact .reaped _ pid s
  | check what =>
    cases h
    exact .same ..
  | sleep =>
    cases h
    exact .same ..
  | exit self =>
    cases h
    exact .exit self s

/-- Everything that happens besides the operations: a process exits or is reaped by another than
the controllers, or one of no controller appears. -/
theorem env_event {s t : Os} (h : (videoMachine K).Env s t) :
    (∃ pid, t = s.advance pid .running .zombie) ∨
      (∃ pid, s.unguarded pid = true ∧ t = s.advance pid .zombie .reaped) ∨
      ∃ pid, s.free K .other pid = true ∧ t = s.setProc pid ⟨.other, .running⟩ := by
  obtain ⟨event, h⟩ := h
  cases event with
  | exits pid =>
    cases h
    exact .inl ⟨pid, rfl⟩
  | reaped pid =>
    simp only [videoMachine, happens] at h
    split at h
    · next hpid =>
      cases h
      exact .inr (.inl ⟨pid, hpid, rfl⟩)
    · cases h
  | appears pid =>
    simp only [videoMachine, happens] at h
    split at h
    · next hfree =>
      cases h
      exact .inr (.inr ⟨pid, hfree, rfl⟩)
    · cases h

section

variable {s t : Os}

theorem exec_fileExists {c : Controller} {found : Bool}
    (h : (videoMachine K).Exec (.fileExists c) s found t) :
    found = (s.pidFile c).isSome ∧ t = s := by
  obtain ⟨answer, h⟩ := h
  cases h
  exact ⟨rfl, rfl⟩

theorem exec_readPid {c : Controller} {pid : Option Nat}
    (h : (videoMachine K).Exec (.readPid c) s pid t) : pid = (s.pidFile c).join ∧ t = s := by
  obtain ⟨answer, h⟩ := h
  cases h
  exact ⟨rfl, rfl⟩

theorem exec_kill0 {pid : Nat} {alive : Bool} (h : (videoMachine K).Exec (.kill0 pid) s alive t) :
    alive = s.alive pid ∧ t = s := by
  obtain ⟨answer, h⟩ := h
  cases h
  exact ⟨rfl, rfl⟩

theorem exec_sigterm {pid : Nat} {sent : Bool}
    (h : (videoMachine K).Exec (.kill pid .term) s sent t) : sent = s.alive pid ∧ t = s := by
  obtain ⟨answer, h⟩ := h
  cases h
  exact ⟨rfl, rfl⟩

theorem exec_sigkill {pid : Nat} {sent : Bool}
    (h : (videoMachine K).Exec (.kill pid .kill) s sent t) :
    t = s.advance pid .running .zombie := by
  obtain ⟨answer, h⟩ := h
  cases h
  rfl

theorem exec_fork {self : Nat} {c : Controller} {child : Option Nat}
    (h : (videoMachine K).Exec (.fork self c) s child t) :
    (child = none ∧ t = s) ∨ ∃ p, child = some p ∧ s.free K (.pipeline c (some self)) p = true ∧
      t = s.setProc p ⟨.pipeline c (some self), .running⟩ := by
  obtain ⟨answer, h⟩ := h
  cases answer with
  | pid p =>
    simp only [videoMachine, perform] at h
    split at h
    · next hfree =>
      cases h
      exact .inr ⟨p, rfl, hfree, rfl⟩
    · cases h
  | success =>
    cases h
    exact .inl ⟨rfl, rfl⟩
  | failure =>
    cases h
    exact .inl ⟨rfl, rfl⟩

theorem exec_await {pid : Nat} {result : Unit}
    (h : (videoMachine K).Exec (.await pid) s result t) :
    s.running pid = false ∧ t = s.advance pid .zombie .reaped := by
  obtain ⟨answer, h⟩ := h
  simp only [videoMachine, perform] at h
  split at h
  · cases h
  · next hpid =>
    cases h
    exact ⟨Bool.eq_false_iff.mpr hpid, rfl⟩

theorem exec_writePid {c : Controller} {pid : Nat} {ok : Bool}
    (h : (videoMachine K).Exec (.writePid c pid) s ok t) :
    ok = true ∧ t = s.setFile c (some (some pid)) ∨
      K.writesFail = true ∧ ok = false ∧ t = s := by
  obtain ⟨answer, h⟩ := h
  simp only [videoMachine, perform] at h
  split at h
  · next hfails =>
    cases h
    exact .inr ⟨hfails.1, rfl, rfl⟩
  · cases h
    exact .inl ⟨rfl, rfl⟩

theorem exec_truncatePid {c : Controller} {ok : Bool}
    (h : (videoMachine K).Exec (.truncatePid c) s ok t) :
    ok = true ∧ t = s.setFile c (some none) ∨ K.writesFail = true ∧ ok = false ∧ t = s := by
  obtain ⟨answer, h⟩ := h
  simp only [videoMachine, perform] at h
  split at h
  · next hfails =>
    cases h
    exact .inr ⟨hfails.1, rfl, rfl⟩
  · cases h
    exact .inl ⟨rfl, rfl⟩

end

end EmbeddedCar.Video
