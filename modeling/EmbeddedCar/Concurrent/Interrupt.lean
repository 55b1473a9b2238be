import EmbeddedCar.Concurrent.Contract

/-!
# Interrupts

A signal may arrive between any two operations of a program. Its handler then runs in the place
of the program, together with the other threads, and the program goes on when the handler has
returned; the signal is blocked meanwhile, so handlers do not nest.
-/

namespace EmbeddedCar.Concurrent

variable {Op : Type} {Res : Op → Type} {σ Choice Turn Sig : Type} {α : Type}

/-- A handler that is running: its signal, the state it was entered in, and what is left. -/
structure Handler (Op : Type) (Res : Op → Type) (σ Sig : Type) where
  signal : Sig
  entry : σ
  rest : Prog Op Res Unit

/-- What is left of the program, the handler that interrupts it, and the state. -/
structure Interruptible (Op : Type) (Res : Op → Type) (σ Sig α : Type) where
  main : Prog Op Res α
  handler : Option (Handler Op Res σ Sig)
  state : σ

namespace Machine

variable (M : Machine Op Res σ Choice Turn) (handle : Sig → Prog Op Res Unit)
variable (arrives : Sig → σ → Prop)

/-- One step of a program with signals; `arrives` says which signals a state can receive. -/
inductive SignalStep : Interruptible Op Res σ Sig α → Interruptible Op Res σ Sig α → Prop where
  | main {p q : Prog Op Res α} {s t : σ} :
      M.Step (p, s) (q, t) → SignalStep ⟨p, none, s⟩ ⟨q, none, t⟩
  | enter {p : Prog Op Res α} {s : σ} {g : Sig} :
      arrives g s → SignalStep ⟨p, none, s⟩ ⟨p, some ⟨g, s, handle g⟩, s⟩
  | handler {p : Prog Op Res α} {g : Sig} {e : σ} {h h' : Prog Op Res Unit} {s t : σ} :
      M.Step (h, s) (h', t) → SignalStep ⟨p, some ⟨g, e, h⟩, s⟩ ⟨p, some ⟨g, e, h'⟩, t⟩
  | leave {p : Prog Op Res α} {g : Sig} {e s : σ} :
      SignalStep ⟨p, some ⟨g, e, .ret ()⟩, s⟩ ⟨p, none, s⟩

/-- A run of a program with signals. -/
def SignalSteps : Interruptible Op Res σ Sig α → Interruptible Op Res σ Sig α → Prop :=
  Relation.ReflTransGen (M.SignalStep handle arrives)

variable {M handle arrives}

/-- A running handler was entered by a signal that arrived, and has only run since. -/
theorem signalSteps_handler {p : Prog Op Res α} {s : σ} {c : Interruptible Op Res σ Sig α}
    (h : M.SignalSteps handle arrives ⟨p, none, s⟩ c) {r : Handler Op Res σ Sig}
    (hr : c.handler = some r) :
    arrives r.signal r.entry ∧ M.Steps (handle r.signal, r.entry) (r.rest, c.state) := by
  induction h generalizing r with
  | refl => cases hr
  | tail _ hstep ih =>
    cases hstep with
    | main hmain => cases hr
    | enter harrives =>
      cases hr
      exact ⟨harrives, .refl⟩
    | handler hhandler =>
      cases hr
      obtain ⟨harrives, hsteps⟩ := ih rfl
      exact ⟨harrives, hsteps.tail hhandler⟩
    | leave => cases hr

/-- A handler that leads from `P` back to it may interrupt a program whose operations keep `P`
anywhere; `G` is what holds meanwhile. -/
theorem signalSteps_guarantee {P G : σ → Prop} {allowed : Op → Prop} (hstable : M.Stable P)
    (hG : ∀ s, P s → G s)
    (hkeep : ∀ o, allowed o → ∀ s result t, P s → M.Exec o s result t → P t)
    (hhandle : ∀ g s, P s → M.wp G (handle g) (fun _ => P) s) {p : Prog Op Res α} {s : σ}
    (hp : p.Uses allowed) (hs : P s) {c : Interruptible Op Res σ Sig α}
    (h : M.SignalSteps handle arrives ⟨p, none, s⟩ c) : G c.state := by
  have hinvariant : c.main.Uses allowed ∧
      match c.handler with
      | none => P c.state
      | some r => M.wp G r.rest (fun _ => P) c.state := by
    induction h with
    | refl => exact ⟨hp, hs⟩
    | tail _ hstep ih =>
      cases hstep with
      | main hmain => exact uses_steps hstable hkeep ih.1 ih.2 (.single hmain)
      | enter _ => exact ⟨ih.1, hhandle _ _ ih.2⟩
      | handler hhandler => exact ⟨ih.1, wp_steps ih.2 (.single hhandler)⟩
      | leave => exact ⟨ih.1, (ih.2 _ .refl).2⟩
  obtain ⟨main, handler, t⟩ := c
  cases handler with
  | none => exact hG t hinvariant.2
  | some r => exact wp_guarantee hinvariant.2

section

variable {P : σ → Prop} {N : Machine Op Res σ Choice Turn}

theorem AgreeOn.signalStep (h : AgreeOn P N M) {c d : Interruptible Op Res σ Sig α}
    (hc : P c.state) (hstep : N.SignalStep handle arrives c d) :
    M.SignalStep handle arrives c d := by
  cases hstep with
  | main hmain => exact .main (h.step hc hmain)
  | enter harrives => exact .enter harrives
  | handler hhandler => exact .handler (h.step hc hhandler)
  | leave => exact .leave

/-- Where `M` stays in the states in which the machines agree, they have the same runs. -/
theorem AgreeOn.signalSteps (h : AgreeOn P N M) {c d : Interruptible Op Res σ Sig α}
    (hc : ∀ c', M.SignalSteps handle arrives c c' → P c'.state) :
    N.SignalSteps handle arrives c d ↔ M.SignalSteps handle arrives c d :=
  reflTransGen_congr fun _ _ hsteps =>
    ⟨h.signalStep (hc _ hsteps), h.symm.signalStep (hc _ hsteps)⟩

end

/-- A stretch without signals. -/
theorem signalSteps_main {p q : Prog Op Res α} {s t : σ} (h : M.Steps (p, s) (q, t)) :
    M.SignalSteps handle arrives ⟨p, none, s⟩ ⟨q, none, t⟩ := by
  generalize hc : (p, s) = c at h
  generalize hd : (q, t) = d at h
  induction h generalizing q t with
  | refl =>
    obtain ⟨rfl, rfl⟩ := Prod.mk.inj (hc.trans hd.symm)
    exact .refl
  | @tail c' d' _ hstep ih =>
    obtain ⟨q', t'⟩ := c'
    subst hd
    exact (ih rfl).tail (.main hstep)

/-- A stretch of a handler. -/
theorem signalSteps_interrupted {p : Prog Op Res α} {g : Sig} {e s t : σ}
    {h h' : Prog Op Res Unit} (hsteps : M.Steps (h, s) (h', t)) :
    M.SignalSteps handle arrives ⟨p, some ⟨g, e, h⟩, s⟩ ⟨p, some ⟨g, e, h'⟩, t⟩ := by
  generalize hc : (h, s) = c at hsteps
  generalize hd : (h', t) = d at hsteps
  induction hsteps generalizing h' t with
  | refl =>
    obtain ⟨rfl, rfl⟩ := Prod.mk.inj (hc.trans hd.symm)
    exact .refl
  | @tail c' d' _ hstep ih =>
    obtain ⟨q', t'⟩ := c'
    subst hd
    exact (ih rfl).tail (.handler hstep)

/-- A schedule of the program, and one of the handler that interrupts it there, whose outcome
passes a test: what is left of the handler, the state it was entered in and the state reached. -/
theorem play_interrupted {p : Prog Op Res α} {s : σ} {g : Sig}
    (before during : List (Choice ⊕ Turn))
    (test : Prog Op Res Unit → σ → σ → Bool)
    (harrives : ∀ r e t, test r e t = true → arrives g e)
    (h : (M.play before p s).any (fun c =>
      (M.play during (handle g) c.2).any fun d => test d.1 c.2 d.2) = true) :
    ∃ q e r t, M.SignalSteps handle arrives ⟨p, none, s⟩ ⟨q, some ⟨g, e, r⟩, t⟩ ∧
      test r e t = true := by
  obtain ⟨q, e, hbefore, hduring⟩ := play_visits
    (fun _ e => (M.play during (handle g) e).any fun d => test d.1 e d.2) h
  obtain ⟨r, t, hsteps, htest⟩ := play_visits (fun r t => test r e t) hduring
  refine ⟨q, e, r, t, ?_, htest⟩
  apply Relation.ReflTransGen.trans (signalSteps_main hbefore)
  exact .head (.enter (harrives r e t htest)) (signalSteps_interrupted hsteps)

end Machine

end EmbeddedCar.Concurrent
