import EmbeddedCar.Gpio.BlinkTable
import EmbeddedCar.Gpio.FailSafe

/-!
# The LEDs

What an LED shows is its level, last written by the main thread or by the blink thread of its
slot, and whether its slot is active. `Steady` is an LED that no thread writes, `Lasting` one
whose blink does not run out; both last as long as the main thread leaves the LED and its slot
alone.
-/

namespace EmbeddedCar.Gpio

open EmbeddedCar.Concurrent EmbeddedCar.Text

/-! ### A machine without failures -/

/-- The blink of the thread is over: it is about to clear the `active` that is still set. -/
def State.runsOut (s : State) (tid : Nat) : Bool :=
  match s.workers[tid]? with
  | some ⟨.blink i .deactivate, _⟩ => (s.blinkPins i).active != 0
  | _ => false

/-- The machine on which every shell command and thread creation succeeds and no blink of a
`lasting` thread runs out. -/
def healthy (lasting : Nat → Bool) : Machine Op Op.Res State Unit Nat where
  perform := fun o _ s => perform o 0 s
  interfere := fun tid s => if lasting tid && s.runsOut tid then none else s.turn tid 0

theorem healthy_env {lasting : Nat → Bool} {s t : State} (h : (healthy lasting).Env s t) :
    ∃ tid, s.turn tid 0 = some t ∧ (lasting tid = true → s.runsOut tid = false) := by
  obtain ⟨tid, h⟩ := h
  simp only [healthy] at h
  split at h
  · cases h
  · next hlasts =>
    refine ⟨tid, h, fun hlasting => ?_⟩
    simpa [hlasting] using hlasts

theorem healthy_within (lasting : Nat → Bool) : (healthy lasting).Within machine where
  exec := fun _ _ _ _ ⟨_, h⟩ => ⟨0, h⟩
  env := by
    intro s t h
    obtain ⟨tid, hturn, -⟩ := healthy_env h
    exact ⟨(tid, 0), hturn⟩

theorem blinkThread_at_deactivate {b : Blink} {pc pc' : BlinkPc}
    (h : blinkThread b pc = some (pc', .deactivate)) : pc = .deactivate := by
  unfold blinkThread at h
  split at h <;> (try split at h) <;> cases h
  rfl

/-- A slot stays active until the thread that blinks on it runs out. -/
theorem turn_active {s t : State} {tid : Nat} {status : Int} (h : s.turn tid status = some t)
    {i : Nat} (hactive : (s.blinkPins i).active ≠ 0) :
    (t.blinkPins i).active ≠ 0 ∨ s.Blinks tid i ∧ s.runsOut tid = true := by
  unfold State.turn at h
  split at h
  · cases h
  next w hw =>
  split at h
  · cases h
  next task e hadvance =>
  cases h
  obtain ⟨taskOf, joined⟩ := w
  cases taskOf with
  | softPwm j pc => exact .inl (by cases e <;> exact hactive)
  | blink j pc =>
    cases e with
    | deactivate =>
      obtain ⟨pc', -, hthread⟩ := advance_blink hadvance
      obtain rfl := blinkThread_at_deactivate hthread
      by_cases hij : i = j
      · subst hij
        right
        refine ⟨⟨.deactivate, joined, hw, by simp⟩, ?_⟩
        simp [State.runsOut, hw, hactive]
      · left
        simpa [State.apply, State.setBlink, hij] using hactive
    | _ => exact .inl hactive

/-! ### What the LEDs show -/

def Blinking (s : State) (led : Int) : Prop := led ≤ 21 ∧ (s.blinkPins led.toNat).active ≠ 0

def Lit (s : State) (led : Int) : Prop := lastLevel led s.log = some .high

instance (s : State) (led : Int) : Decidable (Blinking s led) :=
  inferInstanceAs (Decidable (_ ∧ _))

instance (s : State) (led : Int) : Decidable (Lit s led) := inferInstanceAs (Decidable (_ = _))

/-- The LEDs blink and are lit as the signal says, and no other. -/
def Shows (sig : Signal) (s : State) : Prop :=
  ∀ led ∈ ledPins, (Blinking s led ↔ led ∈ sig.blinking) ∧
    (led ∉ sig.blinking → (Lit s led ↔ led ∈ sig.lit))

/-- Nothing keeps the LEDs from showing the signal: it stops, or its blinks are on pins with a
slot, and the LEDs that it does not let blink are not blinking, and not lit unless it lights
them. -/
def Ready (sig : Signal) (s : State) : Prop :=
  sig = .off ∨ (∀ led ∈ sig.blinking, led ≤ 21) ∧
    ∀ led ∈ ledPins, led ∉ sig.blinking → ¬ Blinking s led ∧ (Lit s led → led ∈ sig.lit)

instance (sig : Signal) (s : State) : Decidable (Shows sig s) :=
  inferInstanceAs (Decidable (∀ led ∈ ledPins, _))

instance (sig : Signal) (s : State) : Decidable (Ready sig s) :=
  inferInstanceAs (Decidable (_ ∨ _ ∧ ∀ led ∈ ledPins, _))

/-! ### What leaves an LED alone -/

/-- The operations of a tick that leave the slot of an LED alone. -/
def sparesSlot (led : Int) : Op → Prop
  | .storeBlink j field value => (j : Int) ≠ led ∧ (field = .pin → value = j)
  | .createBlink j => (j : Int) ≠ led
  | o => tickOp o

/-- The operations of a tick that leave an LED and its slot alone. -/
def sparesLed (led : Int) (o : Op) : Prop :=
  sparesSlot led o ∧ ∀ value, o ≠ .system (digitalWriteCommand led value)

theorem tickOp_of_sparesSlot {led : Int} {o : Op} (ho : sparesSlot led o) : tickOp o := by
  cases o <;> trivial

section

variable {s t : State} {led : Int} {o : Op} {r : o.Res}

theorem spares_slot (hled : 0 ≤ led) (ho : sparesSlot led o) (h : machine.Exec o s r t) :
    t.blinkPins led.toNat = s.blinkPins led.toNat := by
  have hne : ∀ j : Nat, (j : Int) ≠ led → led.toNat ≠ j := fun j hj => by omega
  cases o with
  | storeBlink j field value =>
    rw [exec_storeBlink h]
    simp [State.setBlink, hne j ho.1]
  | createBlink j =>
    rcases exec_createBlink h with ⟨-, rfl⟩ | ⟨-, rfl⟩
    · simp [State.setBlink, hne j ho]
    · rfl
  | _ => rw [exec_blinkPins (by trivial) h]

theorem spares_blinks (hled : 0 ≤ led) (ho : sparesSlot led o) (h : machine.Exec o s r t)
    {tid : Nat} (ht : t.Blinks tid led.toNat) : s.Blinks tid led.toNat := by
  cases o with
  | createBlink j =>
    rcases exec_createBlink h with ⟨-, rfl⟩ | ⟨-, rfl⟩
    · obtain ⟨pc, joined, hget, hlive⟩ := ht
      rcases getElem?_concat_some hget with hold | ⟨-, hnew⟩
      · exact ⟨pc, joined, hold, hlive⟩
      · have hj : led.toNat = j := by
          cases hnew
          rfl
        exact absurd (by omega : (j : Int) = led) ho
    · exact ht
  | _ => exact exec_blinks (by trivial) h ht

theorem spares_level (ho : sparesLed led o) (h : machine.Exec o s r t) :
    lastLevel led t.log = lastLevel led s.log := by
  rw [exec_log h]
  cases o with
  | system command =>
    cases command with
    | gpioSet pin setting =>
      by_cases hpin : pin = led
      · subst hpin
        cases setting with
        | dl => exact absurd rfl (ho.2 .low)
        | dh => exact absurd rfl (ho.2 .high)
        | _ => rfl
      · cases setting <;> simp [Op.calls, lastLevel, hpin]
    | _ => rfl
  | _ => rfl

end

/-- Every blink slot is for its own pin, or has not been used. -/
def Aimed (s : State) : Prop := ∀ i, (s.blinkPins i).pin = i ∨ (s.blinkPins i).pin = 0

theorem aimed_env {s t : State} (hs : Aimed s) (h : machine.Env s t) : Aimed t := by
  rcases env_blinkPins h with hsame | ⟨tid, j, -, -, hpins⟩
  · unfold Aimed
    rw [hsame]
    exact hs
  · intro i
    rw [hpins]
    by_cases hij : i = j
    · simpa [hij] using hs j
    · simpa [hij] using hs i

/-- The operations that keep the slots aimed. -/
def aims : Op → Prop
  | .storeBlink j field value => field = .pin → value = j
  | _ => True

theorem aims_of_sparesSlot {led : Int} {o : Op} (ho : sparesSlot led o) : aims o := by
  cases o with
  | storeBlink j field value => exact ho.2
  | _ => trivial

theorem aimed_exec {o : Op} (ho : aims o) {s t : State} {r : o.Res} (hs : Aimed s)
    (h : machine.Exec o s r t) : Aimed t := by
  cases o with
  | storeBlink j field value =>
    rw [exec_storeBlink h]
    intro i
    by_cases hij : i = j
    · subst hij
      cases field with
      | pin => exact .inl (by simpa [State.setBlink, Blink.set] using ho rfl)
      | _ => simpa [State.setBlink, Blink.set] using hs i
    · simpa [State.setBlink, hij] using hs i
  | createBlink j =>
    rcases exec_createBlink h with ⟨-, rfl⟩ | ⟨-, rfl⟩
    · intro i
      by_cases hij : i = j
      · simpa [State.setBlink, hij] using hs j
      · simpa [State.setBlink, hij] using hs i
    · exact hs
  | _ =>
    unfold Aimed
    rw [exec_blinkPins (by trivial) h]
    exact hs

/-! ### An LED at rest -/

/-- The LED has a level that no thread changes. -/
structure Steady (led : Int) (level : Option Level) (s : State) : Prop where
  apart : ApartFromLeds s
  aimed : Aimed s
  quiet : Quiet led.toNat s
  level : lastLevel led s.log = level

section

variable {led : Int} {level : Option Level}

theorem steady_stable (hled : led ∈ ledPins) : machine.Stable (Steady led level) := by
  intro s t hs henv
  refine ⟨apart_stable s t hs.apart henv, aimed_env hs.aimed henv,
    (kept_quiet _).stable s t hs.quiet henv, ?_⟩
  rcases env_log henv with hlog | ⟨tid, us, hlog⟩ | ⟨tid, pin, value, status, hlog, hwriter⟩
  · rw [hlog]
    exact hs.level
  · rw [hlog]
    exact hs.level
  · have hne : pin ≠ led := by
      rintro rfl
      rcases hwriter with ⟨i, hblinks, hpin⟩ | ⟨i, hpin⟩
      · have hzero : ∀ q ∈ ledPins, q ≠ 0 := by decide
        have hslot : pin.toNat = i := by
          have haimed := hs.aimed i
          rw [← hpin] at haimed
          have hpos := hzero pin hled
          omega
        exact hs.quiet tid (hslot ▸ hblinks)
      · exact hs.apart i (hpin ▸ hled)
    rw [hlog, lastLevel_digitalWrite, if_neg hne]
    exact hs.level

theorem ledPins_nonneg (hled : led ∈ ledPins) : 0 ≤ led := by
  have hall : ∀ q ∈ ledPins, 0 ≤ q := by decide
  exact hall led hled

theorem steady_exec (hled : led ∈ ledPins) {o : Op} (ho : sparesLed led o) {s t : State}
    {r : o.Res} (hs : Steady led level s) (h : machine.Exec o s r t) : Steady led level t where
  apart := apart_exec (tickOp_of_sparesSlot ho.1) hs.apart h
  aimed := aimed_exec (aims_of_sparesSlot ho.1) hs.aimed h
  quiet := fun tid ht => hs.quiet tid (spares_blinks (ledPins_nonneg hled) ho.1 h ht)
  level := (spares_level ho h).trans hs.level

theorem triple_steady {α : Type} {p : MainProg α} (hled : led ∈ ledPins)
    (hp : p.Uses (sparesLed led)) :
    machine.Triple (Steady led level) p fun _ => Steady led level :=
  Machine.triple_uses (steady_stable hled) (fun _ ho _ _ _ hs h => steady_exec hled ho hs h) hp

/-- Writing an LED at rest. -/
theorem triple_write (hled : led ∈ ledPins) (value : Level) :
    machine.Triple (Steady led level) (digitalWrite led value) fun _ =>
      Steady led (some value) := by
  apply Machine.triple_op (N := fun _ => Steady led (some value)) (steady_stable hled)
  · intro s r t hs h
    rw [exec_system h]
    refine ⟨hs.apart, hs.aimed, hs.quiet, ?_⟩
    simp [State.record]
  · exact fun _ => Machine.triple_ret (steady_stable hled) fun _ ht => ht

/-- The slot of the LED is not active. -/
def Inactive (led : Int) (s : State) : Prop := (s.blinkPins led.toNat).active = 0

theorem triple_inactive {α : Type} {p : MainProg α} (hled : 0 ≤ led)
    (hp : p.Uses (sparesSlot led)) :
    machine.Triple (Inactive led) p fun _ => Inactive led := by
  refine Machine.triple_uses (fun _ _ hs henv => blink_inactive_env henv hs) ?_ hp
  intro o ho s r t hs h
  exact (congrArg Blink.active (spares_slot hled ho h)).trans hs

end

/-! ### A running blink -/

/-- The slot of the LED is active, and only lasting threads blink on it. -/
structure Lasting (lasting : Nat → Bool) (led : Int) (s : State) : Prop where
  active : (s.blinkPins led.toNat).active ≠ 0
  lasts : ∀ tid, s.Blinks tid led.toNat → lasting tid = true

section

variable {lasting : Nat → Bool} {led : Int}

theorem lasting_stable : (healthy lasting).Stable (Lasting lasting led) := by
  intro s t hs henv
  obtain ⟨tid, hturn, hlasts⟩ := healthy_env henv
  have hold : ∀ tid', t.Blinks tid' led.toNat → s.Blinks tid' led.toNat :=
    fun tid' => env_blinks ((healthy_within lasting).env s t henv)
  refine ⟨?_, fun tid' ht => hs.lasts tid' (hold tid' ht)⟩
  rcases turn_active hturn hs.active with hactive | ⟨hblinks, hout⟩
  · exact hactive
  · rw [hlasts (hs.lasts tid hblinks)] at hout
    cases hout

theorem triple_lasting {α : Type} {p : MainProg α} (hled : 0 ≤ led)
    (hp : p.Uses (sparesSlot led)) :
    (healthy lasting).Triple (Lasting lasting led) p fun _ => Lasting lasting led := by
  refine Machine.triple_uses lasting_stable ?_ hp
  intro o ho s r t hs h
  have hexec := (healthy_within lasting).exec o s r t h
  refine ⟨?_, fun tid ht => hs.lasts tid (spares_blinks hled ho hexec ht)⟩
  rw [spares_slot hled ho hexec]
  exact hs.active

end

/-! ### Starting a blink -/

/-- `blinkStart` up to the configuration of its slot. -/
def prepareBlink (pin freq duration : Int) : MainProg Unit := do
  exec (.lock .blink)
  let active ← exec (.loadBlink pin.toNat .active)
  Prog.when (active ≠ 0) do
    exec (.storeBlink pin.toNat .active 0)
    exec (.joinBlink pin.toNat)
  exec (.storeBlink pin.toNat .pin pin)
  exec (.storeBlink pin.toNat .freq freq)
  exec (.storeBlink pin.toNat .duration duration)
  exec (.storeBlink pin.toNat .active 1)

/-- The rest of `blinkStart`. -/
def launchBlink (pin : Int) : MainProg Int := do
  let _ ← pinMode pin .output
  let result ← exec (.createBlink pin.toNat)
  if result ≠ 0 then do
    exec (.storeBlink pin.toNat .active 0)
    exec (.unlock .blink)
    return -1
  else do
    exec (.unlock .blink)
    return 0

theorem blinkStart_launch {pin : Int} (hpin : 0 ≤ pin ∧ pin ≤ 21) :
    blinkStart pin 2 3 = (do prepareBlink pin 2 3; launchBlink pin) := by
  rw [blinkStart_eq hpin (by decide) (by decide)]
  simp only [prepareBlink, testBlink, configureBlink, launchBlink, Prog.bind_assoc]

/-- At least `n` threads have been created. -/
def Grown (n : Nat) (s : State) : Prop := n ≤ s.workers.length

theorem length_le_of_getElem? {α : Type} {l l' : List α}
    (h : ∀ (i : Nat) a, l[i]? = some a → ∃ a', l'[i]? = some a') : l.length ≤ l'.length := by
  by_contra hlt
  have hlen : l'.length < l.length := by omega
  obtain ⟨a', ha'⟩ := h l'.length l[l'.length] (List.getElem?_eq_getElem hlen)
  simp at ha'

theorem triple_grown {α : Type} (n : Nat) (p : MainProg α) :
    machine.Triple (Grown n) p fun _ => Grown n := by
  have huses : p.Uses fun _ => True := by
    induction p with
    | ret value => trivial
    | op o next ih => exact ⟨trivial, ih⟩
  refine Machine.triple_uses ?_ ?_ huses
  · intro s t hs henv
    refine le_trans hs (length_le_of_getElem? fun i w hw => ?_)
    obtain ⟨w', hw', -⟩ := env_worker_next henv hw
    exact ⟨w', hw'⟩
  · intro o _ s r t hs h
    refine le_trans hs (length_le_of_getElem? fun i w hw => ?_)
    obtain ⟨w', hw', -⟩ := exec_task h hw
    exact ⟨w', hw'⟩

/-- The slot is ready for its thread. -/
structure Prepared (n : Nat) (i : Nat) (s : State) : Prop where
  tended : Tended none s
  quiet : Quiet i s
  active : (s.blinkPins i).active = 1
  grown : Grown n s

theorem prepared_kept (i : Nat) : Kept fun s => Tended none s ∧ Quiet i s ∧
    (s.blinkPins i).active = 1 :=
  kept_and (kept_tended none) (kept_active i 1)

theorem triple_prepareBlink (n : Nat) (pin freq duration : Int) :
    machine.Triple (fun s => Tended none s ∧ Grown n s) (prepareBlink pin freq duration)
      fun _ => Prepared n pin.toNat := by
  have hkept := kept_tended_quiet pin.toNat
  have hready := prepared_kept pin.toNat
  have hconfigure : machine.Triple (fun s => Tended none s ∧ Quiet pin.toNat s)
      (do exec (.storeBlink pin.toNat .pin pin)
          exec (.storeBlink pin.toNat .freq freq)
          exec (.storeBlink pin.toNat .duration duration)
          exec (.storeBlink pin.toNat .active 1))
      fun _ s => Tended none s ∧ Quiet pin.toNat s ∧ (s.blinkPins pin.toNat).active = 1 := by
    simp only [Prog.call_bind]
    apply triple_store
    apply triple_store
    apply triple_store
    apply Machine.triple_op (N := fun _ s => Tended none s ∧ Quiet pin.toNat s ∧
      (s.blinkPins pin.toNat).active = 1) hkept.stable
    · intro s r t hs h
      obtain ⟨ht, hquiet⟩ := tended_store hs.1 hs.2 h
      refine ⟨ht, hquiet, ?_⟩
      rw [exec_storeBlink h]
      simp [State.setBlink, Blink.set]
    · exact fun _ => Machine.triple_ret hready.stable fun _ h => h
  have htended : machine.Triple (Tended none) (prepareBlink pin freq duration)
      fun _ s => Tended none s ∧ Quiet pin.toNat s ∧ (s.blinkPins pin.toNat).active = 1 := by
    unfold prepareBlink
    simp only [Prog.call_bind]
    refine triple_leaves (kept_tended none) (by trivial) fun _ => ?_
    refine triple_load ?_ fun active hactive => ?_
    · unfold Prog.when
      rw [if_neg (by simp)]
      exact hconfigure
    · unfold Prog.when
      rw [if_pos hactive]
      exact triple_stop hconfigure
  refine Machine.triple_conseq (Machine.triple_and htended (triple_grown n _)) (fun _ hs => hs) ?_
  rintro _ t ⟨⟨ht, hquiet, hactive⟩, hgrown⟩
  exact ⟨ht, hquiet, hactive, hgrown⟩

/-- The threads created from the `n`-th on. -/
def fromThread (n : Nat) (tid : Nat) : Bool := n ≤ tid

/-- A blink whose thread does not run out is running when `blinkStart` returns. -/
theorem triple_blinkStart_lasting (n : Nat) {pin : Int} (hpin : 0 ≤ pin ∧ pin ≤ 21) :
    (healthy (fromThread n)).Triple (fun s => Tended none s ∧ Grown n s) (blinkStart pin 2 3)
      fun _ => Lasting (fromThread n) pin := by
  have hwithin := healthy_within (fromThread n)
  have hprepared : machine.Stable (Prepared n pin.toNat) := by
    intro s t hs henv
    obtain ⟨ht, hquiet, hactive⟩ :=
      (prepared_kept pin.toNat).stable s t ⟨hs.tended, hs.quiet, hs.active⟩ henv
    refine ⟨ht, hquiet, hactive, le_trans hs.grown (length_le_of_getElem? fun i w hw => ?_)⟩
    obtain ⟨w', hw', -⟩ := env_worker_next henv hw
    exact ⟨w', hw'⟩
  rw [blinkStart_launch hpin]
  refine Machine.triple_bind (hwithin.triple (triple_prepareBlink n pin 2 3)) fun _ => ?_
  simp only [launchBlink, pinMode, system, Prog.call_bind]
  refine Machine.triple_op (N := fun _ => Prepared n pin.toNat) (hwithin.stable hprepared) ?_
    fun _ => ?_
  · intro s r t hs h
    have hexec := hwithin.exec _ s r t h
    obtain ⟨ht, hquiet, hactive⟩ := (prepared_kept pin.toNat).keep _ (by trivial) s r t
      ⟨hs.tended, hs.quiet, hs.active⟩ hexec
    refine ⟨ht, hquiet, hactive, ?_⟩
    rw [exec_system hexec]
    exact hs.grown
  refine Machine.triple_op (N := fun result s => result = 0 ∧ Lasting (fromThread n) pin s)
    (hwithin.stable hprepared) ?_ fun result => ?_
  · rintro s result t hs ⟨_, h⟩
    cases h
    refine ⟨rfl, ?_, ?_⟩
    · simp [State.setBlink, hs.active]
    · rintro tid ⟨pc, joined, hget, hlive⟩
      rcases getElem?_concat_some hget with hold | ⟨hlen, -⟩
      · exact absurd ⟨pc, joined, hold, hlive⟩ (hs.quiet tid)
      · rw [hlen]
        exact decide_eq_true hs.grown
  · by_cases hresult : result = 0
    · rw [if_neg (by simpa using hresult)]
      refine Machine.triple_conseq (triple_lasting hpin.1 ?_) (fun _ hs => hs.2) fun _ _ h => h
      exact ⟨trivial, fun _ => trivial⟩
    · exact fun s hs => absurd hs.1 hresult

end EmbeddedCar.Gpio
