import EmbeddedCar.Concurrent.Pool
import EmbeddedCar.Video.Service

/-!
# One pipeline of each controller

The PID file of a controller records its pipeline: outside of a start or restart, a pipeline that
runs is the one the file names. Invocations of the controller that start nothing may overlap,
and those of the other controller touch neither the file nor what it records.
-/

namespace EmbeddedCar.Video

open EmbeddedCar.Concurrent Prog

/-- A running pipeline of the controller. -/
def Pipeline (c : Controller) (pid : Nat) (s : Os) : Prop :=
  ∃ parent, s.procs pid = some ⟨.pipeline c parent, .running⟩

def NoPipeline (c : Controller) (s : Os) : Prop := ∀ pid, ¬ Pipeline c pid s

/-- No pipeline of the controller but this one. -/
def OnlyPipeline (c : Controller) (pid : Nat) (s : Os) : Prop := ∀ q, Pipeline c q s → q = pid

def AtMostOne (c : Controller) (s : Os) : Prop :=
  ∀ p q, Pipeline c p s → Pipeline c q s → p = q

/-- A pipeline that runs is the one the PID file names. -/
def Recorded (c : Controller) (s : Os) : Prop :=
  ∀ pid, Pipeline c pid s → s.pidFile c = some (some pid)

/-! ### How pipelines change -/

section

variable {c d : Controller} {p pid q : Nat} {s t : Os}

theorem pipeline_setProc {process : Process} (h : Pipeline c q (s.setProc pid process)) :
    (q = pid ∧ ∃ parent, process = ⟨.pipeline c parent, .running⟩) ∨ Pipeline c q s := by
  obtain ⟨parent, h⟩ := h
  simp only [Os.setProc] at h
  split at h
  · next hq => exact .inl ⟨hq, parent, Option.some.inj h⟩
  · exact .inr ⟨parent, h⟩

theorem pipeline_advance {before after : Status} (hafter : after ≠ .running)
    (h : Pipeline c q (s.advance pid before after)) :
    Pipeline c q s ∧ (before = .running → q ≠ pid) := by
  obtain ⟨parent, h⟩ := h
  rw [Os.procs_advance, Option.map_eq_some_iff] at h
  obtain ⟨process, hprocess, h⟩ := h
  split at h
  · exact absurd (congrArg Process.status h) hafter
  · next hnot =>
    subst h
    refine ⟨⟨parent, hprocess⟩, fun hbefore hq => hnot ⟨hq, ?_⟩⟩
    exact hbefore.symm

theorem pipeline_adopt {self : Nat} (h : Pipeline c q (s.adopt self)) : Pipeline c q s := by
  obtain ⟨parent, h⟩ := h
  simp only [Os.adopt, Option.map_eq_some_iff] at h
  obtain ⟨⟨owner, status⟩, hprocess, h⟩ := h
  cases owner with
  | pipeline c' parent' =>
    cases h
    exact ⟨parent', hprocess⟩
  | other => cases h

theorem not_pipeline_of_alive (h : s.alive pid = false) : ¬ Pipeline c pid s := by
  intro hpid
  obtain ⟨parent, hprocess⟩ := hpid
  simp [Os.alive, hprocess] at h

theorem not_pipeline_of_running (h : s.running pid = false) : ¬ Pipeline c pid s := by
  intro hpid
  obtain ⟨parent, hprocess⟩ := hpid
  simp [Os.running, hprocess] at h

/-- The pipelines of the controller only come to an end. -/
def Dies (c : Controller) (s t : Os) : Prop := ∀ q, Pipeline c q t → Pipeline c q s

/-- What an invocation of the controller relies on: its pipelines only come to an end, and the PID
file changes only where none is left. -/
def Keeps (c : Controller) (s t : Os) : Prop :=
  Dies c s t ∧ (t.pidFile c = s.pidFile c ∨ NoPipeline c s)

theorem dies_refl (c : Controller) (s : Os) : Dies c s s := fun _ h => h

theorem keeps_refl (c : Controller) (s : Os) : Keeps c s s := ⟨dies_refl c s, .inl rfl⟩

theorem Dies.noPipeline (h : Dies c s t) (hs : NoPipeline c s) : NoPipeline c t :=
  fun q hq => hs q (h q hq)

theorem Dies.onlyPipeline (h : Dies c s t) (hs : OnlyPipeline c pid s) : OnlyPipeline c pid t :=
  fun q hq => hs q (h q hq)

theorem Dies.atMostOne (h : Dies c s t) (hs : AtMostOne c s) : AtMostOne c t :=
  fun p q hp hq => hs p q (h p hp) (h q hq)

theorem Keeps.recorded (h : Keeps c s t) (hs : Recorded c s) : Recorded c t := by
  intro pid hpid
  obtain ⟨hdies, hfile⟩ := h
  rcases hfile with hsame | hnone
  · rw [hsame]
    exact hs pid (hdies pid hpid)
  · exact absurd (hdies pid hpid) (hnone pid)

theorem NoPipeline.recorded (h : NoPipeline c s) : Recorded c s :=
  fun pid hpid => absurd hpid (h pid)

theorem NoPipeline.atMostOne (h : NoPipeline c s) : AtMostOne c s :=
  fun pid _ hpid _ => absurd hpid (h pid)

theorem OnlyPipeline.none (h : OnlyPipeline c pid s) (hpid : ¬ Pipeline c pid s) :
    NoPipeline c s := by
  intro q hq
  apply hpid
  rw [← h q hq]
  exact hq

/-- What an operation demands: a pipeline is started, and a PID file removed, only by the own
controller where no pipeline runs, and only an invocation that starts writes the file. -/
def Allowed (i : Invocation) : Op → Os → Prop
  | .fork _ c, s => c = i.controller ∧ i.starts = true ∧ NoPipeline c s
  | .truncatePid c, _ => c = i.controller ∧ i.starts = true
  | .writePid c _, _ => c = i.controller ∧ i.starts = true
  | .unlink c, s => c = i.controller ∧ NoPipeline c s
  | _, _ => True

theorem dies_advance {before after : Status} (hafter : after ≠ .running) :
    Dies c s (s.advance pid before after) :=
  fun _ hq => (pipeline_advance hafter hq).1

theorem pidFile_advance {before after : Status} :
    (s.advance pid before after).pidFile = s.pidFile := by
  unfold Os.advance
  split
  · split <;> rfl
  · rfl

theorem keeps_advance {before after : Status} (hafter : after ≠ .running) :
    Keeps c s (s.advance pid before after) :=
  ⟨dies_advance hafter, .inl (congrFun pidFile_advance c)⟩

theorem pidFile_setFile {content : Option (Option Nat)} (h : c ≠ d) :
    (s.setFile d content).pidFile c = s.pidFile c := if_neg h

variable {K : Kernel}

theorem env_keeps (c : Controller) (h : (videoMachine K).Env s t) : Keeps c s t := by
  rcases env_event h with ⟨pid, rfl⟩ | ⟨pid, _, rfl⟩ | ⟨pid, _, rfl⟩
  · apply keeps_advance
    simp
  · apply keeps_advance
    simp
  · refine ⟨fun q hq => ?_, .inl rfl⟩
    rcases pipeline_setProc hq with ⟨_, parent, heq⟩ | hrunning
    · cases heq
    · exact hrunning

/-- A controller is not disturbed by an operation of the other, nor by one of an invocation of
its own that starts nothing. -/
theorem effect_keeps {i : Invocation} {o : Op} (h : Effect K o s t) (hallowed : Allowed i o s)
    (hi : i.controller = c → i.starts = false) : Keeps c s t := by
  have hforeign : ∀ d, d = i.controller ∧ i.starts = true → c ≠ d := by
    intro d hown hcd
    obtain ⟨hd, hstarts⟩ := hown
    rw [hi (hd.symm.trans hcd.symm)] at hstarts
    cases hstarts
  cases h with
  | same => exact keeps_refl c _
  | truncatePid d => exact ⟨dies_refl c _, .inl (pidFile_setFile (hforeign d hallowed))⟩
  | writePid d pid => exact ⟨dies_refl c _, .inl (pidFile_setFile (hforeign d hallowed))⟩
  | unlink d =>
    refine ⟨dies_refl c _, ?_⟩
    by_cases hcd : c = d
    · subst hcd
      exact .inr hallowed.2
    · exact .inl (pidFile_setFile hcd)
  | @fork self d p hfree =>
    refine ⟨fun q hq => ?_, .inl rfl⟩
    rcases pipeline_setProc hq with ⟨_, parent, heq⟩ | hrunning
    · cases heq
      exact absurd rfl (hforeign c ⟨hallowed.1, hallowed.2.1⟩)
    · exact hrunning
  | killed _ pid =>
    apply keeps_advance
    simp
  | reaped _ pid =>
    apply keeps_advance
    simp
  | exit self => exact ⟨fun _ hq => pipeline_adopt hq, .inl rfl⟩

/-- No operation makes two pipelines of one. -/
theorem effect_atMostOne {i : Invocation} {o : Op} (h : Effect K o s t)
    (hallowed : Allowed i o s) (hs : AtMostOne c s) : AtMostOne c t := by
  cases h with
  | same => exact hs
  | truncatePid => exact hs
  | writePid => exact hs
  | unlink => exact hs
  | @fork self d p hfree =>
    by_cases hcd : d = c
    · subst hcd
      have honly : OnlyPipeline d p (s.setProc p ⟨.pipeline d (some self), .running⟩) := by
        intro q hq
        rcases pipeline_setProc hq with ⟨hqp, _⟩ | hrunning
        · exact hqp
        · exact absurd hrunning (hallowed.2.2 q)
      intro a b ha hb
      rw [honly a ha, honly b hb]
    · refine Dies.atMostOne (fun q hq => ?_) hs
      rcases pipeline_setProc hq with ⟨_, parent, heq⟩ | hrunning
      · cases heq
        exact absurd rfl hcd
      · exact hrunning
  | killed _ pid => exact (dies_advance (by simp)).atMostOne hs
  | reaped _ pid => exact (dies_advance (by simp)).atMostOne hs
  | exit self => exact Dies.atMostOne (fun _ hq => pipeline_adopt hq) hs

end

end EmbeddedCar.Video
