import EmbeddedCar.Video.Upkeep

/-!
# Whose process it is

`gstreamer_controller` knows a process by the number in its PID file: `kill(pid, 0)` tells that a
process has this PID, not whose it is. As long as a PID the file names is given to no other
process, the process it names is one the controller has forked.
-/

namespace EmbeddedCar.Video

open EmbeddedCar.Concurrent Prog

/-- The last process with this PID was forked by `gstreamer_controller`. -/
def Own (pid : Nat) (s : Os) : Prop :=
  ∃ parent status, s.procs pid = some ⟨.pipeline .cpp parent, status⟩

/-- What the PID file names is an own process. -/
def NamesOwn (s : Os) : Prop := ∀ pid, s.pidFile .cpp = some (some pid) → Own pid s

/-- A PID the PID file names is given to no other process. -/
def Kernel.Spares (K : Kernel) : Prop :=
  ∀ owner s pid, (∀ parent, owner ≠ .pipeline .cpp parent) → K.reuses owner s pid = true →
    s.pidFile .cpp ≠ some (some pid)

/-! ### What changes a process -/

section

variable {pid q : Nat} {s t : Os}

theorem own_advance {before after : Status} (h : Own pid s) :
    Own pid (s.advance q before after) := by
  obtain ⟨parent, status, hprocess⟩ := h
  rw [Own, Os.procs_advance, hprocess, Option.map_some]
  split
  · exact ⟨parent, after, rfl⟩
  · exact ⟨parent, status, rfl⟩

theorem own_adopt {self : Nat} (h : Own pid s) : Own pid (s.adopt self) := by
  obtain ⟨parent, status, hprocess⟩ := h
  simp [Own, Os.adopt, hprocess]

theorem own_setProc {process : Process} (h : pid ≠ q → Own pid s)
    (hprocess : pid = q → ∃ parent status, process = ⟨.pipeline .cpp parent, status⟩) :
    Own pid (s.setProc q process) := by
  by_cases hpq : pid = q
  · obtain ⟨parent, status, rfl⟩ := hprocess hpq
    exact ⟨parent, status, if_pos hpq⟩
  · obtain ⟨parent, status, hpid⟩ := h hpq
    refine ⟨parent, status, ?_⟩
    simp [Os.setProc, hpq, hpid]

/-- A child of the invocation that has not been waited for. -/
def Child (self pid : Nat) (s : Os) : Prop :=
  ∃ status, s.procs pid = some ⟨.pipeline .cpp (some self), status⟩ ∧ status ≠ .reaped

theorem Child.own {self : Nat} (h : Child self pid s) : Own pid s := by
  obtain ⟨status, hprocess, _⟩ := h
  exact ⟨some self, status, hprocess⟩

variable {K : Kernel}

/-- The PID of an own process is free only where it has been reaped. -/
theorem free_own {owner : Owner} (hfree : s.free K owner q = true) (h : Own q s) :
    K.reuses owner s q = true := by
  obtain ⟨parent, status, hprocess⟩ := h
  simp only [Os.free, hprocess, Bool.and_eq_true] at hfree
  exact hfree.2

/-- Other processes come and go; none of them takes the place of the one the file names. -/
theorem env_namesOwn (hspares : K.Spares) (hs : NamesOwn s) (h : (videoMachine K).Env s t) :
    t.pidFile = s.pidFile ∧ NamesOwn t := by
  rcases env_event h with ⟨q, rfl⟩ | ⟨q, _, rfl⟩ | ⟨q, hfree, rfl⟩
  · refine ⟨pidFile_advance, fun pid hpid => own_advance (hs pid ?_)⟩
    rwa [pidFile_advance] at hpid
  · refine ⟨pidFile_advance, fun pid hpid => own_advance (hs pid ?_)⟩
    rwa [pidFile_advance] at hpid
  · refine ⟨rfl, fun pid hpid => own_setProc (fun _ => hs pid hpid) fun hpq => ?_⟩
    subst hpq
    have hreuses := free_own hfree (hs pid hpid)
    exact absurd hpid (hspares .other s pid (by simp) hreuses)

/-- The invocation's own children are not reaped behind its back. -/
theorem env_child {self : Nat} (hs : Child self pid s) (h : (videoMachine K).Env s t) :
    Child self pid t := by
  obtain ⟨status, hprocess, hstatus⟩ := hs
  rcases env_event h with ⟨q, rfl⟩ | ⟨q, hunguarded, rfl⟩ | ⟨q, hfree, rfl⟩
  · rw [Child, Os.procs_advance, hprocess, Option.map_some]
    split
    · exact ⟨.zombie, rfl, by simp⟩
    · exact ⟨status, rfl, hstatus⟩
  · rw [Child, Os.procs_advance, hprocess, Option.map_some]
    split
    · next hpid =>
      rw [← hpid.1] at hunguarded
      simp [Os.unguarded, hprocess] at hunguarded
    · exact ⟨status, rfl, hstatus⟩
  · have hne : pid ≠ q := by
      intro hpq
      subst hpq
      simp [Os.free, hprocess, hstatus] at hfree
    refine ⟨status, ?_, hstatus⟩
    simp [Os.setProc, hne, hprocess]

/-- A harmless operation leaves the PID file and the owners as they are. -/
theorem harmless_namesOwn {o : Op} (ho : o.Harmless) (h : Effect K o s t) (hs : NamesOwn s) :
    t.pidFile = s.pidFile ∧ NamesOwn t := by
  cases h with
  | same => exact ⟨rfl, hs⟩
  | truncatePid | writePid | unlink | fork => exact ho.elim
  | killed _ q =>
    refine ⟨pidFile_advance, fun pid hpid => own_advance (hs pid ?_)⟩
    rwa [pidFile_advance] at hpid
  | reaped _ q =>
    refine ⟨pidFile_advance, fun pid hpid => own_advance (hs pid ?_)⟩
    rwa [pidFile_advance] at hpid
  | exit self => exact ⟨rfl, fun pid hpid => own_adopt (hs pid hpid)⟩

end

/-! ### What an invocation signals -/

/-- A signal goes to an own process only. -/
def SignalsOwn : Op → Os → Prop
  | .kill pid _, s => Own pid s
  | _, _ => True

/-- The PID held in `gstreamer_pid` is the one in the PID file, which names an own process. -/
def HoldsOwn (held : Option Nat) (s : Os) : Prop :=
  NamesOwn s ∧ ∀ pid ∈ held, s.pidFile .cpp = some (some pid)

theorem NamesOwn.holdsNone {s : Os} (h : NamesOwn s) : HoldsOwn none s :=
  ⟨h, fun pid hpid => absurd hpid (Option.not_mem_none pid)⟩

theorem HoldsOwn.forget {held : Option Nat} {s : Os} (h : HoldsOwn held s) : HoldsOwn none s :=
  h.1.holdsNone

/-- A PID file that names nothing names no other's process. -/
theorem namesOwn_setFile {s : Os} {content : Option (Option Nat)}
    (h : ∀ pid, content = some (some pid) → Own pid s) : NamesOwn (s.setFile .cpp content) := by
  intro pid hpid
  apply h pid
  simpa [Os.setFile] using hpid

/-- From `P` every signal the program sends goes to an own process, and it ends in `Q`. -/
abbrev Signalling {α : Type} (K : Kernel) (P : Os → Prop) (p : Program α)
    (Q : α → Os → Prop) : Prop :=
  (videoMachine K).Contract .none SignalsOwn P p Q

section

variable {K : Kernel} (hspares : K.Spares) {held : Option Nat} {α : Type} {Q : α → Os → Prop}
include hspares

theorem stable_holdsOwn (held : Option Nat) : (videoMachine K).Stable (HoldsOwn held) := by
  intro s t hs henv
  obtain ⟨hfile, hnames⟩ := env_namesOwn hspares hs.1 henv
  refine ⟨hnames, fun pid hpid => ?_⟩
  rw [hfile]
  exact hs.2 pid hpid

theorem stable_child (self pid : Nat) :
    (videoMachine K).Stable fun s => HoldsOwn none s ∧ Child self pid s :=
  fun s t hs henv => ⟨stable_holdsOwn hspares none s t hs.1 henv, env_child hs.2 henv⟩

theorem signalling_ret {value : α} (h : ∀ s, HoldsOwn held s → Q value s) :
    Signalling K (HoldsOwn held) (.ret value) Q :=
  Machine.contract_ret (stable_holdsOwn hspares held) h

/-- A harmless operation leaves what is held as it is. -/
theorem signalling_harmless {o : Op} {next : o.Res → Program α} (ho : o.Harmless)
    (hdemand : ∀ s, HoldsOwn held s → SignalsOwn o s)
    (hnext : ∀ result, Signalling K (HoldsOwn held) (next result) Q) :
    Signalling K (HoldsOwn held) (.op o next) Q := by
  apply Machine.contract_op (N := fun _ => HoldsOwn held) (stable_holdsOwn hspares held)
  · exact fun s hs _ => hdemand s hs
  · intro s _ t hs _ hexec
    obtain ⟨hfile, hnames⟩ := harmless_namesOwn ho (exec_effect hexec) hs.1
    refine ⟨hnames, fun pid hpid => ?_⟩
    rw [hfile]
    exact hs.2 pid hpid
  · exact hnext

/-- A signal to the process whose PID is held. -/
theorem signalling_kill {pid : Nat} {signal : Signal} {next : Bool → Program α}
    (hnext : ∀ sent, Signalling K (HoldsOwn (some pid)) (next sent) Q) :
    Signalling K (HoldsOwn (some pid)) (.op (.kill pid signal) next) Q := by
  have ho : (Op.kill pid signal).Harmless := trivial
  apply signalling_harmless hspares ho _ hnext
  exact fun s hs => hs.1 pid (hs.2 pid rfl)

theorem signalling_readPid {next : Option Nat → Program α}
    (hnext : ∀ pid, Signalling K (HoldsOwn pid) (next pid) Q) :
    Signalling K (HoldsOwn none) (.op (.readPid .cpp) next) Q := by
  apply Machine.contract_op (N := HoldsOwn) (stable_holdsOwn hspares none)
  · exact fun _ _ _ => trivial
  · intro s pid t hs _ hexec
    obtain ⟨rfl, rfl⟩ := exec_readPid hexec
    exact ⟨hs.1, fun q hq => Option.join_eq_some_iff.mp hq⟩
  · exact hnext

theorem signalling_unlink {next : Bool → Program α}
    (hnext : ∀ ok, Signalling K (HoldsOwn none) (next ok) Q) :
    Signalling K (HoldsOwn held) (.op (.unlink .cpp) next) Q := by
  apply Machine.contract_op (N := fun _ => HoldsOwn none) (stable_holdsOwn hspares held)
  · exact fun _ _ _ => trivial
  · intro s ok t hs _ hexec
    obtain ⟨answer, hperform⟩ := hexec
    simp only [videoMachine, perform] at hperform
    split at hperform
    · cases hperform
      exact hs.forget
    · cases hperform
      exact (namesOwn_setFile (by simp)).holdsNone
  · exact hnext

theorem signalling_fork {self : Nat} {next : Option Nat → Program α}
    (hnone : Signalling K (HoldsOwn none) (next none) Q)
    (hsome : ∀ pid, Signalling K (fun s => HoldsOwn none s ∧ Child self pid s)
      (next (some pid)) Q) :
    Signalling K (HoldsOwn none) (.op (.fork self .cpp) next) Q := by
  apply Machine.contract_op
    (N := fun child s => HoldsOwn none s ∧ ∀ pid ∈ child, Child self pid s)
    (stable_holdsOwn hspares none)
  · exact fun _ _ _ => trivial
  · intro s child t hs _ hexec
    rcases exec_fork hexec with ⟨rfl, rfl⟩ | ⟨p, rfl, _, rfl⟩
    · exact ⟨hs, fun pid hpid => absurd hpid (Option.not_mem_none pid)⟩
    · constructor
      · apply NamesOwn.holdsNone
        intro pid hpid
        exact own_setProc (fun _ => hs.1 pid hpid) fun _ => ⟨some self, .running, rfl⟩
      · intro pid hpid
        cases hpid
        exact ⟨.running, if_pos rfl, by simp⟩
  · intro child
    cases child with
    | none => exact Machine.contract_conseq hnone (fun s hs => hs.1) fun _ _ hs => hs
    | some pid =>
      exact Machine.contract_conseq (hsome pid) (fun s hs => ⟨hs.1, hs.2 pid rfl⟩)
        fun _ _ hs => hs

/-- The PID file of a start names its child. -/
theorem signalling_savePid (self pid : Nat) :
    Signalling K (fun s => HoldsOwn none s ∧ Child self pid s) (savePid pid)
      fun _ => HoldsOwn none := by
  have hdone : Signalling K (HoldsOwn none) (.ret ()) fun _ => HoldsOwn none :=
    signalling_ret hspares fun _ hs => hs
  simp only [savePid, call_bind]
  apply Machine.contract_op (N := fun _ s => HoldsOwn none s ∧ Child self pid s)
    (stable_child hspares self pid)
  · exact fun _ _ _ => trivial
  · intro s ok t hs _ hexec
    rcases exec_truncatePid hexec with ⟨rfl, rfl⟩ | ⟨_, rfl, rfl⟩
    · exact ⟨(namesOwn_setFile (by simp)).holdsNone, hs.2⟩
    · exact hs
  · intro isOpen
    cases isOpen with
    | false => exact Machine.contract_conseq hdone (fun s hs => hs.1) fun _ _ hs => hs
    | true =>
      apply Machine.contract_op (N := fun _ => HoldsOwn none) (stable_child hspares self pid)
      · exact fun _ _ _ => trivial
      · intro s ok t hs _ hexec
        rcases exec_writePid hexec with ⟨rfl, rfl⟩ | ⟨_, rfl, rfl⟩
        · apply NamesOwn.holdsNone
          apply namesOwn_setFile
          intro q hq
          cases hq
          exact hs.2.own
        · exact hs.1
      · exact fun _ => hdone

/-! ### `gstreamer_controller` -/

theorem signalling_isStreaming (held : Option Nat) :
    Signalling K (HoldsOwn held) (isStreaming held) fun r => HoldsOwn r.2 := by
  have hheld : Signalling K (HoldsOwn held) (heldPid held) HoldsOwn := by
    cases held with
    | some pid => exact signalling_ret hspares fun _ hs => hs
    | none =>
      apply signalling_readPid hspares
      exact fun pid => signalling_ret hspares fun _ hs => hs
  apply Machine.contract_bind hheld
  intro pid
  cases pid with
  | none => exact signalling_ret hspares fun _ hs => hs
  | some pid =>
    have ho : (Op.kill0 pid).Harmless := trivial
    apply signalling_harmless hspares ho fun _ _ => trivial
    intro alive
    cases alive with
    | true => exact signalling_ret hspares fun _ hs => hs
    | false =>
      apply signalling_unlink hspares
      exact fun _ => signalling_ret hspares fun _ hs => hs

theorem signalling_startStreaming (self : Nat) (held : Option Nat) :
    Signalling K (HoldsOwn held) (startStreaming self held) fun _ => HoldsOwn none := by
  apply Machine.contract_bind (signalling_isStreaming hspares held)
  intro r
  obtain ⟨streaming, held'⟩ := r
  cases streaming with
  | true => exact signalling_ret hspares fun _ hs => hs.forget
  | false =>
    refine Machine.contract_conseq (P := HoldsOwn none) ?_ (fun _ hs => hs.forget) fun _ _ hs => hs
    apply signalling_fork hspares
    · exact signalling_ret hspares fun _ hs => hs
    · intro pid
      apply Machine.contract_bind (signalling_savePid hspares self pid)
      exact fun _ => signalling_ret hspares fun _ hs => hs

theorem signalling_waitLoop (self pid n : Nat) :
    Signalling K (HoldsOwn held) (waitLoop self pid n) fun _ => HoldsOwn held := by
  induction n with
  | zero => exact signalling_ret hspares fun _ hs => hs
  | succ n ih =>
    have hwait : (Op.waitpid self pid).Harmless := trivial
    have hsleep : Op.sleep.Harmless := trivial
    apply signalling_harmless hspares hwait fun _ _ => trivial
    intro exited
    cases exited with
    | true => exact signalling_ret hspares fun _ hs => hs
    | false => exact signalling_harmless hspares hsleep (fun _ _ => trivial) fun _ => ih

theorem signalling_terminate (self pid : Nat) :
    Signalling K (HoldsOwn (some pid)) (terminate self pid) fun r => HoldsOwn r.2 := by
  have hkill0 : (Op.kill0 pid).Harmless := trivial
  simp only [terminate, call_bind]
  apply signalling_kill hspares
  intro sent
  cases sent with
  | false => exact signalling_ret hspares fun _ hs => hs
  | true =>
    apply Machine.contract_bind (signalling_waitLoop hspares self pid 50)
    intro _
    apply signalling_harmless hspares hkill0 fun _ _ => trivial
    intro alive
    apply Machine.contract_bind (N := fun _ => HoldsOwn (some pid))
    · cases alive with
      | true =>
        apply signalling_kill hspares
        exact fun _ => signalling_ret hspares fun _ hs => hs
      | false => exact signalling_ret hspares fun _ hs => hs
    · intro _
      apply signalling_unlink hspares
      exact fun _ => signalling_ret hspares fun _ hs => hs

theorem signalling_stopStreaming (self : Nat) :
    Signalling K (HoldsOwn none) (stopStreaming self none) fun r => HoldsOwn r.2 := by
  apply Machine.contract_bind (signalling_isStreaming hspares none)
  intro r
  obtain ⟨streaming, held⟩ := r
  cases streaming with
  | false => exact signalling_ret hspares fun _ hs => hs
  | true =>
    cases held with
    | none => exact signalling_ret hspares fun _ hs => hs
    | some pid => exact signalling_terminate hspares self pid

theorem signalling_controllerMain (self : Nat) (command : Command) :
    Signalling K (HoldsOwn none) (controllerMain self command) fun _ => HoldsOwn none := by
  cases command with
  | start =>
    apply Machine.contract_bind (signalling_startStreaming hspares self none)
    exact fun _ => signalling_ret hspares fun _ hs => hs
  | stop =>
    apply Machine.contract_bind (signalling_stopStreaming hspares self)
    exact fun _ => signalling_ret hspares fun _ hs => hs.forget
  | restart =>
    have hsleep : Op.sleep.Harmless := trivial
    apply Machine.contract_bind (signalling_stopStreaming hspares self)
    intro r
    apply signalling_harmless hspares hsleep fun _ _ => trivial
    intro _
    apply Machine.contract_bind (signalling_startStreaming hspares self r.2)
    exact fun _ => signalling_ret hspares fun _ hs => hs
  | status =>
    apply Machine.contract_bind (signalling_isStreaming hspares none)
    exact fun _ => signalling_ret hspares fun _ hs => hs.forget

theorem signalling_run (self : Nat) (command : Command) :
    Signalling K (HoldsOwn none) (Invocation.run ⟨self, .cpp, command⟩)
      fun _ => HoldsOwn none := by
  have hexit : (Op.exit self).Harmless := trivial
  apply Machine.contract_bind (signalling_controllerMain hspares self command)
  intro code
  apply signalling_harmless hspares hexit fun _ _ => trivial
  exact fun _ => signalling_ret hspares fun _ hs => hs

end

/-! ### Sequences of invocations -/

/-- `gstreamer_controller`, called with one command after another. -/
def session (calls : List (Nat × Command)) : Program Unit :=
  sequence <| calls.map fun call => do
    let _ ← Invocation.run ⟨call.1, .cpp, call.2⟩
    .ret ()

section

variable {K : Kernel}

theorem signalling_session (hspares : K.Spares) (calls : List (Nat × Command)) :
    Signalling K (HoldsOwn none) (session calls) fun _ => HoldsOwn none := by
  apply Machine.contract_sequence (stable_holdsOwn hspares none)
  intro p hp
  obtain ⟨call, _, rfl⟩ := List.mem_map.mp hp
  apply Machine.contract_bind (signalling_run hspares call.1 call.2)
  exact fun _ => signalling_ret hspares fun _ hs => hs

/-- A start that succeeds has found the process its PID file names, one of its own, or has just
forked one. -/
def Vouched {α : Type} (K : Kernel) (self : Nat) (p : Program α) (s : Os) (value : α)
    (t : Os) : Prop :=
  (∃ pid next u, (videoMachine K).Steps (p, s) (.op (.kill0 pid) next, u) ∧
    u.pidFile .cpp = some (some pid) ∧ u.alive pid = true ∧ Own pid u ∧
    (videoMachine K).Steps (next true, u) (.ret value, t)) ∨
  ∃ pid next u v, (videoMachine K).Steps (p, s) (.op (.fork self .cpp) next, u) ∧
    (videoMachine K).Exec (.fork self .cpp) u (some pid) v ∧
    (videoMachine K).Steps (next (some pid), v) (.ret value, t)

theorem vouched_bind {α β : Type} {self : Nat} {p : Program β} {f : β → Program α} {s t u : Os}
    {mid : β} {value : α} (h : Vouched K self p s mid t)
    (hf : (videoMachine K).Runs (f mid) t value u) : Vouched K self (p >>= f) s value u := by
  rcases h with ⟨pid, next, v, hp, hfile, halive, hown, hnext⟩ | ⟨pid, next, v, w, hp, hfork, hnext⟩
  · exact .inl ⟨pid, _, v, Machine.bind_steps hp, hfile, halive, hown,
      Machine.runs_append hnext hf⟩
  · exact .inr ⟨pid, _, v, w, Machine.bind_steps hp, hfork, Machine.runs_append hnext hf⟩

theorem isStreaming_vouched (hspares : K.Spares) {self : Nat} {held : Option Nat} {s t : Os}
    (hs : NamesOwn s) (h : (videoMachine K).Runs (isStreaming none) s (true, held) t) :
    Vouched K self (isStreaming none) s (true, held) t := by
  simp only [isStreaming, heldPid, call_bind] at h ⊢
  obtain ⟨s₁, pid, t₁, henv, hread, hrest⟩ := Machine.runs_op h
  have hs₁ := Machine.stable_envSteps (stable_holdsOwn hspares none) hs.holdsNone henv
  obtain ⟨rfl, rfl⟩ := exec_readPid hread
  cases hfile : (t₁.pidFile .cpp).join with
  | none =>
    rw [hfile] at hrest
    cases Machine.ret_runs hrest
  | some pid =>
    rw [hfile] at hread hrest
    have hholds : HoldsOwn (some pid) t₁ :=
      ⟨hs₁.1, fun q hq => Option.join_eq_some_iff.mp (hfile.trans hq)⟩
    obtain ⟨s₂, alive, t₂, henv₂, hkill0, hrest₂⟩ := Machine.runs_op hrest
    have hs₂ := Machine.stable_envSteps (stable_holdsOwn hspares (some pid)) hholds henv₂
    obtain ⟨rfl, rfl⟩ := exec_kill0 hkill0
    cases halive : t₂.alive pid with
    | false =>
      rw [halive] at hrest₂
      obtain ⟨_, _, _, _, _, hreturn⟩ := Machine.runs_op hrest₂
      cases Machine.ret_runs hreturn
    | true =>
      rw [halive] at hrest₂
      have hown : Own pid t₂ := hs₂.1 pid (hs₂.2 pid rfl)
      refine .inl ⟨pid, fun alive => if alive = true then .ret (true, some pid)
        else .op (.unlink .cpp) fun _ => .ret (false, none), t₂, ?_, hs₂.2 pid rfl, halive, hown,
        hrest₂⟩
      exact (Machine.steps_env henv).trans (.head (.op hread) (Machine.steps_env henv₂))

/-- A start that succeeds has found its own process or has just forked one. -/
theorem start_vouched (hspares : K.Spares) {self : Nat} {s t : Os} (hs : NamesOwn s)
    (h : (videoMachine K).Runs (startStreaming self none) s true t) :
    Vouched K self (startStreaming self none) s true t := by
  obtain ⟨⟨streaming, held⟩, u, hstreaming, hrest⟩ := Machine.runs_bind h
  cases streaming with
  | true => exact vouched_bind (isStreaming_vouched hspares hs hstreaming) hrest
  | false =>
    obtain ⟨v, child, w, henv, hfork, hruns⟩ := Machine.runs_op hrest
    cases child with
    | none => cases Machine.ret_runs hruns
    | some pid =>
      have hsteps : (videoMachine K).Steps (startStreaming self none, s)
          (.op (.fork self .cpp) _, v) :=
        (Machine.bind_steps hstreaming).trans (Machine.steps_env henv)
      exact .inr ⟨pid, _, v, w, hsteps, hfork, hruns⟩

/-- Every signal of a sequence of invocations goes to a process `gstreamer_controller` has
forked, and a start that succeeds has found such a process or has just forked one. -/
theorem controller_keeps_to_its_own (hspares : K.Spares) (calls : List (Nat × Command)) {s : Os}
    (hs : s.pidFile .cpp = none) :
    (∀ rest t, (videoMachine K).Steps (session calls, s) (rest, t) →
      ∀ pid signal next, rest = .op (.kill pid signal) next → Own pid t) ∧
    ∀ self t u, (videoMachine K).Runs (session calls) s () t →
      (videoMachine K).Runs (Invocation.run ⟨self, .cpp, .start⟩) t 0 u →
      Vouched K self (Invocation.run ⟨self, .cpp, .start⟩) t 0 u := by
  have hinit : HoldsOwn none s := NamesOwn.holdsNone fun pid hpid => by simp [hs] at hpid
  have hsession := signalling_session hspares calls
  constructor
  · intro rest t hsteps pid signal next hrest
    subst hrest
    have hdemand : SignalsOwn (.kill pid signal) t :=
      Machine.contract_demand hsession hinit (Machine.steps_stepsUnder hsteps) trivial
    exact hdemand
  · intro self t u hbefore hruns
    have hnames := Machine.contract_runs hsession hinit (Machine.steps_stepsUnder hbefore)
    obtain ⟨code, v, hmain, hexit⟩ := Machine.runs_bind hruns
    obtain ⟨ok, w, hstart, hcode⟩ := Machine.runs_bind hmain
    obtain ⟨_, _, _, _, _, hreturn⟩ := Machine.runs_op hexit
    have hzero : exitCode ok = 0 :=
      (Machine.ret_runs hcode).symm.trans (Machine.ret_runs hreturn).symm
    cases exitCode_eq_zero hzero
    exact vouched_bind (vouched_bind (start_vouched hspares hnames.1 hstart) hcode) hexit

end

/-! ### Runs -/

/-- The PID of any reaped process may be given again, but not to another process than a pipeline
of `gstreamer_controller` while its PID file names it. -/
def sparingKernel : Kernel where
  reuses := fun owner s pid =>
    match owner with
    | .pipeline .cpp _ => true
    | _ => s.pidFile .cpp != some (some pid)
  writesFail := true

theorem sparingKernel_spares : sparingKernel.Spares := by
  intro owner s pid howner hreuses
  cases owner with
  | other => simpa [sparingKernel] using hreuses
  | pipeline c parent =>
    cases c with
    | cpp => exact absurd rfl (howner parent)
    | script => simpa [sparingKernel] using hreuses

/-- `gstreamer_controller start`, where there is no PID file. -/
def startMoves (pid : Nat) : List (Answer ⊕ Event) :=
  .inl .success :: .inl (.pid pid) :: List.replicate 3 (.inl .success)

/-- The signal a program is about to send. -/
def aboutToSignal {α : Type} : Program α → Option (Nat × Signal)
  | .op (.kill pid signal) _ => some (pid, signal)
  | _ => none

theorem eq_of_aboutToSignal {α : Type} {p : Program α} {pid : Nat} {signal : Signal}
    (h : aboutToSignal p = some (pid, signal)) : ∃ next, p = .op (.kill pid signal) next := by
  unfold aboutToSignal at h
  split at h
  · cases h
    exact ⟨_, rfl⟩
  · cases h

/-- A schedule that leads a sequence of invocations to a signal. -/
theorem play_signal {K : Kernel} (moves : List (Answer ⊕ Event)) (calls : List (Nat × Command))
    (pid : Nat) (signal : Signal) (process : Process)
    (h : ((videoMachine K).play moves (session calls) boot).any
      (fun x => aboutToSignal x.1 == some (pid, signal) && x.2.procs pid == some process) = true) :
    ∃ next t, (videoMachine K).Steps (session calls, boot) (.op (.kill pid signal) next, t) ∧
      t.procs pid = some process := by
  obtain ⟨q, t, hsteps, htest⟩ := Machine.play_visits
    (fun q (t : Os) => aboutToSignal q == some (pid, signal) && t.procs pid == some process) h
  obtain ⟨hsignal, hprocess⟩ := Bool.and_eq_true_iff.mp htest
  obtain ⟨next, rfl⟩ := eq_of_aboutToSignal (eq_of_beq hsignal)
  exact ⟨next, t, hsteps, eq_of_beq hprocess⟩

theorem controller_keeps_to_its_own_stop :
    ∃ next t, (videoMachine sparingKernel).Steps (session [(0, .start), (1, .stop)], boot)
      (.op (.kill 10 .term) next, t) ∧ Own 10 t := by
  obtain ⟨next, t, hsteps, _⟩ := play_signal (K := sparingKernel)
    (startMoves 10 ++ List.replicate 2 (.inl .success)) [(0, .start), (1, .stop)] 10 .term
    ⟨.pipeline .cpp none, .running⟩ (by decide +kernel)
  have hown := controller_keeps_to_its_own sparingKernel_spares [(0, .start), (1, .stop)]
    (s := boot) rfl
  exact ⟨next, t, hsteps, hown.1 _ t hsteps 10 .term next rfl⟩

/-- Any PID may be given again once its process has been reaped. -/
def reusingKernel : Kernel where
  reuses := fun _ _ _ => true
  writesFail := false

/-- Pipeline 10 was started by invocation 0 and has exited; nobody has reaped it. -/
def exited : Os :=
  ((((boot.setProc 10 ⟨.pipeline .cpp (some 0), .running⟩).setFile .cpp (some none)).setFile .cpp
    (some (some 10))).adopt 0).advance 10 .running .zombie

theorem exited_noPipeline : NoPipeline .cpp exited := by
  intro pid hpid
  obtain ⟨hrunning, hne⟩ := pipeline_advance (by simp) hpid
  rcases pipeline_setProc (pipeline_adopt hrunning) with ⟨heq, _⟩ | hboot
  · exact hne rfl heq
  · obtain ⟨parent, hprocess⟩ := hboot
    cases hprocess

/-- Where the PID of a pipeline that has ended is given to another process, a stop sends that
process `SIGTERM`. A start succeeds although the pipeline has exited, as long as nobody has reaped
it, and forks none. -/
theorem signals_another_process :
    (∃ next t, (videoMachine reusingKernel).Steps (session [(0, .start), (1, .stop)], boot)
      (.op (.kill 10 .term) next, t) ∧ t.procs 10 = some ⟨.other, .running⟩) ∧
    ∃ t u, (videoMachine strictKernel).Runs (session [(0, .start)]) boot () t ∧
      (videoMachine strictKernel).Runs (Invocation.run ⟨1, .cpp, .start⟩) t 0 u ∧
      NoPipeline .cpp t ∧ NoPipeline .cpp u ∧
      ∀ pid, t.procs pid = none → u.procs pid = none := by
  constructor
  · exact play_signal (startMoves 10 ++
      [.inr (.exits 10), .inr (.reaped 10), .inr (.appears 10), .inl .success, .inl .success])
      _ 10 .term ⟨.other, .running⟩ (by decide +kernel)
  · have hbefore : (videoMachine strictKernel).play (startMoves 10 ++ [.inr (.exits 10)])
        (session [(0, .start)]) boot = some (.ret (), exited) := rfl
    have hruns : (videoMachine strictKernel).play (List.replicate 3 (.inl .success))
        (Invocation.run ⟨1, .cpp, .start⟩) exited = some (.ret 0, exited.adopt 1) := rfl
    refine ⟨exited, exited.adopt 1, Machine.play_steps hbefore, Machine.play_steps hruns,
      exited_noPipeline, ?_, ?_⟩
    · exact fun pid hpid => exited_noPipeline pid (pipeline_adopt hpid)
    · intro pid hpid
      simp [Os.adopt, hpid]

end EmbeddedCar.Video
