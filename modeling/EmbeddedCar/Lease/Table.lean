import Mathlib.Algebra.Order.Ring.Int

/-!
# Leases

A table of leases: a key is held from a contact until a sweep finds that the last contact with it
is too long ago. Sweeps come at least once in a period. What is held was contacted recently, and
what was contacted recently is held on to.
-/

namespace EmbeddedCar.Lease

variable {κ : Type*}

/-- What is done to a table: there is contact with a key, which is held from then on; the table is
swept; or something else is done. -/
inductive Op (κ : Type*) where
  | contact (key : κ)
  | sweep
  | other

structure Event (κ : Type*) where
  time : ℤ
  op : Op κ

/-- The last contact with each key that is held, all contacts so far, and the times of the last
sweep and of the last event. -/
@[ext] structure Table (κ : Type*) where
  last : κ → Option ℤ
  contacts : List (κ × ℤ)
  swept : ℤ
  now : ℤ

/-- An empty table. -/
def Table.opened (time : ℤ) : Table κ := ⟨fun _ => none, [], time, time⟩

section

variable [DecidableEq κ] (ttl period : ℤ)

def Table.contact (s : Table κ) (key : κ) (time : ℤ) : Table κ :=
  { s with
    last := fun k => if k = key then some time else s.last k
    contacts := (key, time) :: s.contacts
    now := time }

/-- One event; a sweep lets go of what was contacted more than `ttl` ago. -/
def Table.step (s : Table κ) (e : Event κ) : Table κ :=
  match e.op with
  | .contact key => s.contact key e.time
  | .sweep =>
      { s with
        last := fun k => (s.last k).filter fun contact => e.time - contact ≤ ttl
        swept := e.time
        now := e.time }
  | .other => { s with now := e.time }

/-- Time does not go back, and the next sweep is not overdue. -/
def Table.Due (s : Table κ) (time : ℤ) : Prop := s.now ≤ time ∧ time ≤ s.swept + period

/-- The invariant of a table. -/
structure Table.Timely (s : Table κ) : Prop where
  known : ∀ k c, s.last k = some c → (k, c) ∈ s.contacts
  latest : ∀ k c, s.last k = some c → ∀ c', (k, c') ∈ s.contacts → c' ≤ c
  past : ∀ k c, (k, c) ∈ s.contacts → c ≤ s.now
  fresh : ∀ k c, s.last k = some c → s.swept - c ≤ ttl
  swept_le : s.swept ≤ s.now

variable {ttl period} {s : Table κ}

omit [DecidableEq κ] in
theorem Table.timely_opened (time : ℤ) : (Table.opened time : Table κ).Timely ttl where
  known := by simp [opened]
  latest := by simp [opened]
  past := by simp [opened]
  fresh := by simp [opened]
  swept_le := le_rfl

theorem Table.Timely.contact (h : s.Timely ttl) (httl : 0 ≤ ttl) {time : ℤ} (hnow : s.now ≤ time)
    (key : κ) : (s.contact key time).Timely ttl where
  known k c hk := by
    simp only [Table.contact] at hk ⊢
    split at hk
    · next heq =>
      cases hk
      rw [heq]
      exact List.mem_cons_self
    · exact List.mem_cons_of_mem _ (h.known k c hk)
  latest k c hk c' hmem := by
    simp only [Table.contact] at hk hmem
    rcases List.mem_cons.mp hmem with heq | hmem
    · obtain ⟨rfl, rfl⟩ := Prod.mk.inj heq
      rw [if_pos rfl] at hk
      cases hk
      exact le_rfl
    · split at hk
      · cases hk
        exact (h.past k c' hmem).trans hnow
      · exact h.latest k c hk c' hmem
  past k c hmem := by
    rcases List.mem_cons.mp hmem with heq | hmem
    · obtain ⟨rfl, rfl⟩ := Prod.mk.inj heq
      exact le_rfl
    · exact (h.past k c hmem).trans hnow
  fresh k c hk := by
    simp only [Table.contact] at hk
    show s.swept - c ≤ ttl
    split at hk
    · cases hk
      have hswept := h.swept_le
      omega
    · exact h.fresh k c hk
  swept_le := h.swept_le.trans hnow

omit [DecidableEq κ] in
theorem Table.Timely.wait (h : s.Timely ttl) {time : ℤ} (hnow : s.now ≤ time) :
    ({ s with now := time } : Table κ).Timely ttl where
  known := h.known
  latest := h.latest
  past k c hmem := (h.past k c hmem).trans hnow
  fresh := h.fresh
  swept_le := h.swept_le.trans hnow

theorem Table.Timely.step (h : s.Timely ttl) (httl : 0 ≤ ttl) {e : Event κ}
    (hdue : s.Due period e.time) : (s.step ttl e).Timely ttl := by
  unfold Table.step
  cases e.op with
  | contact key => exact h.contact httl hdue.1 key
  | sweep =>
    refine ⟨?_, ?_, ?_, ?_, le_rfl⟩
    · intro k c hk
      exact h.known k c (Option.filter_eq_some_iff.mp hk).1
    · intro k c hk
      exact h.latest k c (Option.filter_eq_some_iff.mp hk).1
    · intro k c hmem
      exact (h.past k c hmem).trans hdue.1
    · intro k c hk
      simpa using (Option.filter_eq_some_iff.mp hk).2
  | other => exact h.wait hdue.1

omit [DecidableEq κ] in
/-- What is held was contacted within the time to live and one period of sweeps. -/
theorem Table.Timely.held (h : s.Timely ttl) {time c : ℤ} {k : κ} (hdue : s.Due period time)
    (hk : s.last k = some c) : (k, c) ∈ s.contacts ∧ c ≤ time ∧ time - c ≤ ttl + period := by
  have hknown := h.known k c hk
  have hpast := h.past k c hknown
  have hfresh := h.fresh k c hk
  obtain ⟨hnow, hsweep⟩ := hdue
  exact ⟨hknown, by omega, by omega⟩

/-- A sweep holds on to what was contacted within the time to live. -/
theorem Table.Timely.kept (h : s.Timely ttl) {time c : ℤ} {k : κ} (hmem : (k, c) ∈ s.contacts)
    (hrecent : time - c ≤ ttl) : (s.step ttl ⟨time, .sweep⟩).last k = s.last k := by
  show (s.last k).filter _ = s.last k
  cases hk : s.last k with
  | none => rfl
  | some l =>
    have hlatest := h.latest k l hk c hmem
    rw [Option.filter_some, if_pos (by simp only [decide_eq_true_eq]; omega)]

end

end EmbeddedCar.Lease
