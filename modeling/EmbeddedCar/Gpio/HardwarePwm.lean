import EmbeddedCar.Gpio.Lib

/-!
# Hardware PWM

`pwmWrite` and `pwmSetFrequency` drive the two channels of the PWM chip through the files of
`/sys/class/pwm/pwmchip0`. The chip belongs to the kernel: what it answers to a write is a
parameter, and `PwmChip.Documented` states what the library relies on.
-/

namespace EmbeddedCar.Gpio

open EmbeddedCar.Concurrent Prog

/-! ### The chip -/

/-- A channel, as its files show it. -/
structure PwmChannel where
  exported : Bool := false
  period : Int := 0
  dutyCycle : Int := 0
  enabled : Bool := false
  deriving DecidableEq, Repr

abbrev Channels := Int → PwmChannel

/-- Nothing exported, nothing set. -/
def freshChannels : Channels := fun _ => {}

/-- What the chip does: the channels after a command that returned a status, and `none` where a
command does not return it. -/
structure PwmChip where
  respond : ShellCommand → Channels → Int → Option Channels

/-- The documented behaviour of the files. A write that fails changes nothing; the duty cycle
lies within the period, and a write that would break this fails. -/
structure PwmChip.Documented (chip : PwmChip) : Prop where
  failed : ∀ {command c status c'}, chip.respond command c status = some c' → status ≠ 0 → c' = c
  exports : ∀ {n c c'}, chip.respond (.pwmExport n) c 0 = some c' →
    c' = Function.update c n { c n with exported := true }
  period : ∀ {n ns c c'}, chip.respond (.pwmPeriod n ns) c 0 = some c' →
    0 < ns ∧ (c n).dutyCycle ≤ ns ∧ c' = Function.update c n { c n with period := ns }
  dutyCycle : ∀ {n ns c c'}, chip.respond (.pwmDutyCycle n ns) c 0 = some c' →
    0 ≤ ns ∧ ns ≤ (c n).period ∧ c' = Function.update c n { c n with dutyCycle := ns }
  enable : ∀ {n value c c'}, chip.respond (.pwmEnable n value) c 0 = some c' →
    c' = Function.update c n { c n with enabled := value ≠ 0 }
  takesExport : ∀ {n c status c'}, n = 0 ∨ n = 1 → (c n).exported = false →
    chip.respond (.pwmExport n) c status = some c' → status = 0
  takesPeriod : ∀ {n ns c status c'}, (c n).exported = true → 0 < ns → (c n).dutyCycle ≤ ns →
    chip.respond (.pwmPeriod n ns) c status = some c' → status = 0
  takesDutyCycle : ∀ {n ns c status c'}, (c n).exported = true → 0 < (c n).period → 0 ≤ ns →
    ns ≤ (c n).period → chip.respond (.pwmDutyCycle n ns) c status = some c' → status = 0

/-- The library on the chip: no other thread writes its files. -/
def pwmMachine (chip : PwmChip) : Machine Op Op.Res Channels Int Empty where
  perform
    | .system command, status, c => (chip.respond command c status).map fun c' => (status, c')
    | _, _, _ => none
  interfere := fun turn _ => turn.elim

section

variable {chip : PwmChip}

theorem pwm_exec {o : Op} {c c' : Channels} {r : o.Res} (h : (pwmMachine chip).Exec o c r c') :
    ∃ command status, o = .system command ∧ r ≍ status ∧
      chip.respond command c status = some c' := by
  obtain ⟨status, h⟩ := h
  cases o with
  | system command =>
    obtain ⟨c₁, hrespond, heq⟩ := Option.map_eq_some_iff.mp h
    obtain ⟨rfl, rfl⟩ := Prod.mk.inj heq
    exact ⟨command, status, rfl, HEq.rfl, hrespond⟩
  | _ => cases h

theorem pwm_stable (P : Channels → Prop) : (pwmMachine chip).Stable P := by
  rintro c c' _ ⟨turn, -⟩
  exact turn.elim

theorem pwm_system {command : ShellCommand} {c c' : Channels} {status : Int}
    (h : (pwmMachine chip).Exec (.system command) c status c') :
    chip.respond command c status = some c' := by
  obtain ⟨choice, h⟩ := h
  obtain ⟨c₁, hrespond, heq⟩ := Option.map_eq_some_iff.mp h
  obtain ⟨rfl, rfl⟩ := Prod.mk.inj heq
  exact hrespond

end

/-! ### Calls -/

/-- A call of `pwmSetFrequency` or `pwmWrite`. -/
inductive PwmCall where
  | setFrequency (pin frequency : Int)
  | write (pin dutyCycle : Int)
  deriving DecidableEq, Repr

namespace PwmCall

def program : PwmCall → MainProg Int
  | .setFrequency pin frequency => pwmSetFrequency pin frequency
  | .write pin dutyCycle => pwmWrite pin dutyCycle

def pin : PwmCall → Int
  | .setFrequency pin _ => pin
  | .write pin _ => pin

/-- The documented use: one of the PWM pins, and a positive frequency. -/
def Admissible : PwmCall → Prop
  | .setFrequency pin frequency => isPwmPin pin ∧ 0 < frequency
  | .write pin _ => isPwmPin pin

instance : DecidablePred Admissible
  | .setFrequency _ _ => inferInstanceAs (Decidable (_ ∧ _))
  | .write _ _ => inferInstanceAs (Decidable (isPwmPin _))

def statement (call : PwmCall) : MainProg Unit := do
  let _ ← call.program
  return ()

/-- The frequency asked for on a channel after a call. -/
def asked (channel : Int) (last : Option Int) : PwmCall → Option Int
  | .setFrequency pin frequency => if pwmChannel pin = channel then some frequency else last
  | .write _ _ => last

end PwmCall

def pwmCalls (calls : List PwmCall) : MainProg Unit :=
  Prog.sequence (calls.map PwmCall.statement)

/-- The frequency last asked for on a channel. -/
def lastFrequency (channel : Int) (calls : List PwmCall) : Option Int :=
  calls.foldl (PwmCall.asked channel) none

/-- The period of a frequency, 20 ms when none was asked for. -/
def requestedPeriod (frequency : Option Int) : Int :=
  frequency.elim 20000000 fun f => 1000000000 / f

/-- The channel of the pin is enabled with the period asked for, and its duty cycle is the
share `dutyCycle` of 1024 of it. -/
def FollowsSettings (calls : List PwmCall) (pin dutyCycle : Int) (c : Channels) : Prop :=
  let period := requestedPeriod (lastFrequency (pwmChannel pin) calls)
  (c (pwmChannel pin)).enabled = true ∧ (c (pwmChannel pin)).period = period ∧
    (c (pwmChannel pin)).dutyCycle = max 0 (min 1024 dutyCycle) * period / 1024

instance (calls : List PwmCall) (pin dutyCycle : Int) (c : Channels) :
    Decidable (FollowsSettings calls pin dutyCycle c) :=
  inferInstanceAs (Decidable (_ ∧ _ ∧ _))

/-! ### The duty cycle in nanoseconds -/

theorem pwmDutyNs_le (dutyCycle : Int) : pwmDutyNs dutyCycle ≤ 2097151 := by
  unfold pwmDutyNs int32
  generalize max 0 (min 1024 dutyCycle) * 20000000 = n
  have hlt : n.bmod (2 ^ 32) < (2 ^ 32 + 1) / 2 := Int.bmod_lt (by decide)
  generalize n.bmod (2 ^ 32) = m at hlt
  have hm : m ≤ 2147483647 := by omega
  calc m.tdiv 1024 ≤ Int.tdiv 2147483647 1024 := Int.tdiv_le_tdiv (by decide) hm
    _ = 2097151 := by decide

/-- Up to 107 the product fits an `int`. -/
theorem pwmDutyNs_of_le {dutyCycle : Int} (h : dutyCycle ≤ 107) :
    pwmDutyNs dutyCycle = max 0 (min 1024 dutyCycle) * 20000000 / 1024 := by
  unfold pwmDutyNs int32
  rw [Int.bmod_eq_of_le (by omega) (by omega), Int.tdiv_eq_ediv_of_nonneg (by omega)]

/-- From 108 on the duty cycle asked for is out of reach. -/
theorem dutyCycle_le_of_le {dutyCycle duty : Int} (hduty : duty ≤ 2097151)
    (h : duty = max 0 (min 1024 dutyCycle) * 20000000 / 1024) : dutyCycle ≤ 107 := by
  omega

theorem frequency_eq_fifty {f : Int} (hf : 0 < f) (h : 1000000000 / f = 20000000) : f = 50 := by
  have hlow := Int.ediv_mul_le 1000000000 (Int.ne_of_gt hf)
  have hhigh := Int.lt_ediv_add_one_mul_self 1000000000 hf
  rw [h] at hlow hhigh
  omega

/-! ### What the calls keep -/

/-- The operations of the two functions on a channel. -/
def onChannel (channel : Int) : Op → Prop
  | .system (.pwmExport n) | .system (.pwmPeriod n _) | .system (.pwmEnable n _) => n = channel
  | .system (.pwmDutyCycle n ns) => n = channel ∧ ns ≤ 2097151
  | _ => False

theorem uses_pwmWrite (pin dutyCycle : Int) :
    (pwmWrite pin dutyCycle).Uses (onChannel (pwmChannel pin)) := by
  have hns := pwmDutyNs_le dutyCycle
  exact ⟨rfl, fun _ => ⟨rfl, fun _ => ⟨⟨rfl, hns⟩, fun _ => ⟨rfl, fun _ => trivial⟩⟩⟩⟩

theorem uses_pwmSetFrequency (pin : Int) {frequency : Int} (hf : 0 < frequency) :
    (pwmSetFrequency pin frequency).Uses (onChannel (pwmChannel pin)) := by
  unfold pwmSetFrequency Prog.when
  rw [if_neg (by omega)]
  exact ⟨rfl, fun _ => ⟨rfl, fun _ => ⟨rfl, fun _ => trivial⟩⟩⟩

theorem uses_program {call : PwmCall} (h : call.Admissible) :
    call.program.Uses (onChannel (pwmChannel call.pin)) := by
  cases call with
  | setFrequency pin frequency => exact uses_pwmSetFrequency pin h.2
  | write pin dutyCycle => exact uses_pwmWrite pin dutyCycle

theorem uses_pwmCalls {calls : List PwmCall} (h : ∀ call ∈ calls, call.Admissible) :
    (pwmCalls calls).Uses fun o => ∃ channel, onChannel channel o := by
  induction calls with
  | nil => trivial
  | cons call calls ih =>
    refine uses_bind (uses_bind ?_ fun _ => trivial) fun _ => ?_
    · exact uses_mono (fun _ ho => ⟨_, ho⟩) (uses_program (h call List.mem_cons_self))
    · exact ih fun c hc => h c (List.mem_cons_of_mem _ hc)

/-- A duty cycle lies within its period, and none is longer than `pwmWrite` can write. -/
structure PwmChannel.Bounded (x : PwmChannel) : Prop where
  nonneg : 0 ≤ x.dutyCycle
  short : x.dutyCycle ≤ 2097151
  within : x.dutyCycle ≤ x.period

section

variable {chip : PwmChip} (hchip : chip.Documented)

include hchip

/-- A successful command changes its channel only, and keeps it bounded. -/
theorem respond_channel {channel : Int} {command : ShellCommand}
    (ho : onChannel channel (.system command)) {c c' : Channels} {status : Int}
    (h : chip.respond command c status = some c') :
    ∃ x, c' = Function.update c channel x ∧ ((c channel).Bounded → x.Bounded) := by
  by_cases hstatus : status = 0
  · subst hstatus
    cases command with
    | gpioSet pin setting => exact ho.elim
    | pwmExport n =>
      obtain rfl : n = channel := ho
      exact ⟨_, hchip.exports h, fun hb => ⟨hb.nonneg, hb.short, hb.within⟩⟩
    | pwmPeriod n ns =>
      obtain rfl : n = channel := ho
      obtain ⟨-, hle, heq⟩ := hchip.period h
      exact ⟨_, heq, fun hb => ⟨hb.nonneg, hb.short, hle⟩⟩
    | pwmDutyCycle n ns =>
      obtain ⟨rfl, hns⟩ : n = channel ∧ ns ≤ 2097151 := ho
      obtain ⟨hpos, hle, heq⟩ := hchip.dutyCycle h
      exact ⟨_, heq, fun _ => ⟨hpos, hns, hle⟩⟩
    | pwmEnable n value =>
      obtain rfl : n = channel := ho
      exact ⟨_, hchip.enable h, fun hb => ⟨hb.nonneg, hb.short, hb.within⟩⟩
  · obtain rfl := hchip.failed h hstatus
    exact ⟨c' channel, (Function.update_eq_self channel c').symm, id⟩

theorem exec_channel {channel : Int} {o : Op} (ho : onChannel channel o) {c c' : Channels}
    {r : o.Res} (h : (pwmMachine chip).Exec o c r c') :
    ∃ x, c' = Function.update c channel x ∧ ((c channel).Bounded → x.Bounded) := by
  obtain ⟨command, status, rfl, -, hrespond⟩ := pwm_exec h
  exact respond_channel hchip ho hrespond

/-- Every channel stays bounded. -/
theorem bounded_steps {calls : List PwmCall} (hcalls : ∀ call ∈ calls, call.Admissible)
    {q : MainProg Unit} {c : Channels}
    (h : (pwmMachine chip).Steps (pwmCalls calls, freshChannels) (q, c)) (n : Int) :
    (c n).Bounded := by
  have hkeep : ∀ o, (∃ channel, onChannel channel o) → ∀ (d : Channels) (r : o.Res) d',
      (∀ n, (d n).Bounded) → (pwmMachine chip).Exec o d r d' → ∀ n, (d' n).Bounded := by
    rintro o ⟨channel, ho⟩ d r d' hd hexec n
    obtain ⟨x, rfl, hx⟩ := exec_channel hchip ho hexec
    by_cases hn : n = channel
    · subst hn
      simpa using hx (hd n)
    · simpa [hn] using hd n
  have hfresh : ∀ n, (freshChannels n).Bounded := by
    intro n
    constructor <;> simp [freshChannels]
  exact (Machine.uses_steps (pwm_stable _) hkeep (uses_pwmCalls hcalls) hfresh h).2 n

/-- A call leaves the other channels alone, at every step. -/
theorem other_steps {call : PwmCall} (hcall : call.Admissible) {q : MainProg Int}
    {c c' : Channels} (h : (pwmMachine chip).Steps (call.program, c) (q, c')) {n : Int}
    (hn : n ≠ pwmChannel call.pin) : c' n = c n := by
  have hkeep : ∀ o, onChannel (pwmChannel call.pin) o → ∀ (d : Channels) (r : o.Res) d',
      d n = c n → (pwmMachine chip).Exec o d r d' → d' n = c n := by
    intro o ho d r d' hd hexec
    obtain ⟨x, rfl, -⟩ := exec_channel hchip ho hexec
    simpa [hn] using hd
  exact (Machine.uses_steps (pwm_stable fun d => d n = c n) hkeep (uses_program hcall) rfl h).2

/-- What a successful `pwmWrite` leaves of a bounded channel: the period is 20 ms, and the duty
cycle stays as it was when the product overflowed to a negative one. -/
theorem runs_pwmWrite {pin dutyCycle : Int} {c c' : Channels}
    (hb : (c (pwmChannel pin)).Bounded)
    (h : (pwmMachine chip).Runs (pwmWrite pin dutyCycle) c 0 c') :
    c' (pwmChannel pin) =
      { exported := true
        period := 20000000
        dutyCycle :=
          if 0 ≤ pwmDutyNs dutyCycle then pwmDutyNs dutyCycle else (c (pwmChannel pin)).dutyCycle
        enabled := true } := by
  have hchannel : pwmChannel pin = 0 ∨ pwmChannel pin = 1 := by
    unfold pwmChannel
    split
    · exact .inl rfl
    split
    · exact .inr rfl
    · exact .inl rfl
  generalize hn : pwmChannel pin = n at hb hchannel ⊢
  have hns := pwmDutyNs_le dutyCycle
  have hshort := hb.short
  have hstable : ∀ P, (pwmMachine chip).Stable P := pwm_stable
  have htriple : (pwmMachine chip).Triple (fun d => d = c) (pwmWrite pin dutyCycle)
      fun status d => status = 0 → d n =
        { exported := true
          period := 20000000
          dutyCycle := if 0 ≤ pwmDutyNs dutyCycle then pwmDutyNs dutyCycle else (c n).dutyCycle
          enabled := true } := by
    unfold pwmWrite
    rw [hn]
    refine Machine.triple_op
      (N := fun _ d => (d n).exported = true ∧ (d n).dutyCycle = (c n).dutyCycle) (hstable _) ?_
      fun _ => ?_
    · rintro d status d' rfl hexec
      have hrespond := pwm_system hexec
      by_cases hstatus : status = 0
      · subst hstatus
        simp [hchip.exports hrespond]
      · obtain rfl := hchip.failed hrespond hstatus
        refine ⟨?_, rfl⟩
        by_contra hnot
        exact hstatus (hchip.takesExport hchannel (by simpa using hnot) hrespond)
    refine Machine.triple_op (N := fun _ d => (d n).exported = true ∧
      (d n).dutyCycle = (c n).dutyCycle ∧ (d n).period = 20000000) (hstable _) ?_ fun _ => ?_
    · rintro d status d' ⟨hexported, hduty⟩ hexec
      have hrespond := pwm_system hexec
      obtain rfl := hchip.takesPeriod hexported (by decide) (by omega) hrespond
      obtain ⟨-, -, rfl⟩ := hchip.period hrespond
      simp [hexported, hduty]
    refine Machine.triple_op (N := fun _ d => (d n).exported = true ∧ (d n).period = 20000000 ∧
      (d n).dutyCycle = if 0 ≤ pwmDutyNs dutyCycle then pwmDutyNs dutyCycle
        else (c n).dutyCycle) (hstable _) ?_ fun _ => ?_
    · rintro d status d' ⟨hexported, hduty, hperiod⟩ hexec
      have hrespond := pwm_system hexec
      by_cases hpos : 0 ≤ pwmDutyNs dutyCycle
      · obtain rfl := hchip.takesDutyCycle hexported (by omega) hpos (by omega) hrespond
        obtain ⟨-, -, rfl⟩ := hchip.dutyCycle hrespond
        simp [hexported, hperiod, hpos]
      · have hstatus : status ≠ 0 := by
          rintro rfl
          exact hpos (hchip.dutyCycle hrespond).1
        obtain rfl := hchip.failed hrespond hstatus
        simp [hexported, hperiod, hduty, hpos]
    refine Machine.triple_op (N := fun status d => status = 0 → d n =
      { exported := true
        period := 20000000
        dutyCycle := if 0 ≤ pwmDutyNs dutyCycle then pwmDutyNs dutyCycle else (c n).dutyCycle
        enabled := true }) (hstable _) ?_ fun _ => Machine.triple_ret (hstable _) fun _ hd => hd
    rintro d status d' ⟨hexported, hperiod, hduty⟩ hexec rfl
    rw [hchip.enable (pwm_system hexec)]
    simp [hexported, hperiod, hduty]
  exact Machine.triple_runs htriple rfl h rfl

end

theorem lastFrequency_pos {calls : List PwmCall} (h : ∀ call ∈ calls, call.Admissible)
    {channel f : Int} (hf : lastFrequency channel calls = some f) : 0 < f := by
  have hfold : ∀ last : Option Int, (∀ g, last = some g → 0 < g) →
      ∀ g, calls.foldl (PwmCall.asked channel) last = some g → 0 < g := by
    clear hf
    induction calls with
    | nil => exact fun _ hlast => hlast
    | cons call calls ih =>
      intro last hlast
      apply ih fun c hc => h c (List.mem_cons_of_mem _ hc)
      have hcall := h call List.mem_cons_self
      intro g hg
      cases call with
      | setFrequency pin frequency =>
        simp only [PwmCall.asked] at hg
        split at hg
        · cases hg
          exact hcall.2
        · exact hlast g hg
      | write pin dutyCycle => exact hlast g hg
  exact hfold none (by simp) f hf

/-- The requested period is the one `pwmWrite` writes for 50 Hz only. -/
theorem requestedPeriod_eq {frequency : Option Int} (hpos : ∀ f, frequency = some f → 0 < f) :
    requestedPeriod frequency = 20000000 ↔ frequency = none ∨ frequency = some 50 := by
  cases frequency with
  | none => simp [requestedPeriod]
  | some f =>
    simp only [requestedPeriod, Option.elim_some, reduceCtorEq, Option.some.injEq, false_or]
    constructor
    · exact frequency_eq_fifty (hpos f rfl)
    · rintro rfl
      decide

/-- After any calls: the duty cycles lie within their periods at every step, and a call leaves
the other channel alone. A `pwmWrite` that returns 0 leaves what the settings ask for exactly
when the last frequency asked for, if any, was 50 Hz and the duty cycle is at most 107. -/
theorem pwmWrite_follows_iff (chip : PwmChip) (hchip : chip.Documented) (calls : List PwmCall)
    (hcalls : ∀ call ∈ calls, call.Admissible) :
    (∀ q c, (pwmMachine chip).Steps (pwmCalls calls, freshChannels) (q, c) →
      ∀ n, (c n).dutyCycle ≤ (c n).period) ∧
    ∀ c, (pwmMachine chip).Runs (pwmCalls calls) freshChannels () c →
      (∀ call : PwmCall, call.Admissible →
        ∀ q c', (pwmMachine chip).Steps (call.program, c) (q, c') →
          ∀ n, n ≠ pwmChannel call.pin → c' n = c n) ∧
      ∀ pin dutyCycle c', (pwmMachine chip).Runs (pwmWrite pin dutyCycle) c 0 c' →
        (FollowsSettings calls pin dutyCycle c' ↔
          (lastFrequency (pwmChannel pin) calls = none ∨
            lastFrequency (pwmChannel pin) calls = some 50) ∧ dutyCycle ≤ 107) := by
  refine ⟨fun q c h n => (bounded_steps hchip hcalls h n).within, fun c hc => ⟨?_, ?_⟩⟩
  · exact fun call hcall q c' h n hn => other_steps hchip hcall h hn
  intro pin dutyCycle c' h
  have hb := bounded_steps hchip hcalls hc (pwmChannel pin)
  have hperiod : requestedPeriod (lastFrequency (pwmChannel pin) calls) = 20000000 ↔ _ :=
    requestedPeriod_eq fun f hf => lastFrequency_pos hcalls hf
  unfold FollowsSettings
  rw [runs_pwmWrite hchip hb h, ← hperiod]
  constructor
  · rintro ⟨-, hasked, hduty⟩
    have hasked : requestedPeriod (lastFrequency (pwmChannel pin) calls) = 20000000 := hasked.symm
    rw [hasked] at hduty
    refine ⟨hasked, dutyCycle_le_of_le ?_ hduty⟩
    have hns := pwmDutyNs_le dutyCycle
    have hshort := hb.short
    show (if _ then _ else _ : Int) ≤ 2097151
    split <;> omega
  · rintro ⟨hasked, hle⟩
    have hns := pwmDutyNs_of_le hle
    rw [hasked]
    refine ⟨rfl, rfl, ?_⟩
    show (if _ then _ else _ : Int) = _
    rw [if_pos (by omega), hns]

/-! ### A chip -/

/-- The answer to a write that changes a channel, if the chip takes it; `system` returns 256 for
an `echo` that fails. -/
def answer (takes : Prop) [Decidable takes] (c : Channels) (n : Int) (x : PwmChannel)
    (status : Int) : Option Channels :=
  if takes then if status = 0 then some (Function.update c n x) else none
  else if status = 256 then some c else none

theorem answer_some {takes : Prop} [Decidable takes] {c c' : Channels} {n status : Int}
    {x : PwmChannel} (h : answer takes c n x status = some c') :
    takes ∧ status = 0 ∧ c' = Function.update c n x ∨ ¬ takes ∧ status = 256 ∧ c' = c := by
  unfold answer at h
  split at h
  · next htakes =>
    split at h
    · next hstatus =>
      cases h
      exact .inl ⟨htakes, hstatus, rfl⟩
    · cases h
  · next hrefuses =>
    split at h
    · next hstatus =>
      cases h
      exact .inr ⟨hrefuses, hstatus, rfl⟩
    · cases h

/-- The two channels of the board. -/
def boardChip : PwmChip where
  respond
    | .pwmExport n, c, status =>
        answer ((n = 0 ∨ n = 1) ∧ (c n).exported = false) c n { c n with exported := true } status
    | .pwmPeriod n ns, c, status =>
        answer ((c n).exported = true ∧ 0 < ns ∧ (c n).dutyCycle ≤ ns) c n
          { c n with period := ns } status
    | .pwmDutyCycle n ns, c, status =>
        answer ((c n).exported = true ∧ 0 < (c n).period ∧ 0 ≤ ns ∧ ns ≤ (c n).period) c n
          { c n with dutyCycle := ns } status
    | .pwmEnable n value, c, status =>
        answer ((c n).exported = true ∧ 0 < (c n).period) c n
          { c n with enabled := value ≠ 0 } status
    | .gpioSet .., c, status => if status = 0 then some c else none

theorem boardChip_documented : boardChip.Documented where
  failed := by
    intro command c status c' h hstatus
    cases command with
    | gpioSet pin setting =>
      simp only [boardChip, ite_eq_iff] at h
      simp_all
    | _ =>
      rcases answer_some h with ⟨-, hzero, -⟩ | ⟨-, -, heq⟩
      · exact absurd hzero hstatus
      · exact heq
  exports := by
    intro n c c' h
    rcases answer_some h with ⟨-, -, heq⟩ | ⟨-, hstatus, -⟩
    · exact heq
    · cases hstatus
  period := by
    intro n ns c c' h
    rcases answer_some h with ⟨⟨-, hpos, hle⟩, -, heq⟩ | ⟨-, hstatus, -⟩
    · exact ⟨hpos, hle, heq⟩
    · cases hstatus
  dutyCycle := by
    intro n ns c c' h
    rcases answer_some h with ⟨⟨-, -, hpos, hle⟩, -, heq⟩ | ⟨-, hstatus, -⟩
    · exact ⟨hpos, hle, heq⟩
    · cases hstatus
  enable := by
    intro n value c c' h
    rcases answer_some h with ⟨-, -, heq⟩ | ⟨-, hstatus, -⟩
    · exact heq
    · cases hstatus
  takesExport := by
    intro n c status c' hn hexported h
    rcases answer_some h with ⟨-, hzero, -⟩ | ⟨hrefuses, -, -⟩
    · exact hzero
    · exact absurd ⟨hn, hexported⟩ hrefuses
  takesPeriod := by
    intro n ns c status c' hexported hpos hle h
    rcases answer_some h with ⟨-, hzero, -⟩ | ⟨hrefuses, -, -⟩
    · exact hzero
    · exact absurd ⟨hexported, hpos, hle⟩ hrefuses
  takesDutyCycle := by
    intro n ns c status c' hexported hperiod hpos hle h
    rcases answer_some h with ⟨-, hzero, -⟩ | ⟨hrefuses, -, -⟩
    · exact hzero
    · exact absurd ⟨hexported, hperiod, hpos, hle⟩ hrefuses

/-- Commands that return these statuses. -/
def statuses (l : List Int) : List (Int ⊕ Empty) := l.map .inl

/-- 50 Hz and the middle position of a servo. -/
theorem pwmWrite_follows_iff_servo :
    ∃ c c', (pwmMachine boardChip).Runs (pwmCalls [.setFrequency 12 50]) freshChannels () c ∧
      (pwmMachine boardChip).Runs (pwmWrite 12 77) c 0 c' ∧
      FollowsSettings [.setFrequency 12 50] 12 77 c' := by
  obtain ⟨_, c, hc, hplay⟩ := (pwmMachine boardChip).play_runs (statuses [0, 256, 0])
    (pwmCalls [.setFrequency 12 50]) freshChannels
    (fun _ c => ((pwmMachine boardChip).play (statuses [256, 0, 0, 0]) (pwmWrite 12 77) c).any
      fun d => d.1.returned.any fun status => decide (status = 0)) (by decide +kernel)
  obtain ⟨status, c', hc', htest⟩ := (pwmMachine boardChip).play_runs (statuses [256, 0, 0, 0])
    (pwmWrite 12 77) c (fun status _ => decide (status = 0)) hplay
  obtain rfl : status = 0 := of_decide_eq_true htest
  have hcalls : ∀ call ∈ [PwmCall.setFrequency 12 50], call.Admissible := by decide
  have hafter := (pwmWrite_follows_iff boardChip boardChip_documented _ hcalls).2 c hc
  have hiff := hafter.2 12 77 c' hc'
  exact ⟨c, c', hc, hc', hiff.mpr ⟨.inr (by decide), by decide⟩⟩

/-- 1000 Hz and one half: the period written is that of 50 Hz. -/
theorem pwmWrite_ignores_frequency :
    ∃ c c', (pwmMachine boardChip).Runs (pwmCalls [.setFrequency 18 1000]) freshChannels () c ∧
      (pwmMachine boardChip).Runs (pwmWrite 18 512) c 0 c' ∧
      ¬ FollowsSettings [.setFrequency 18 1000] 18 512 c' ∧ (c' 0).period = 20000000 := by
  obtain ⟨_, c, hc, hplay⟩ := (pwmMachine boardChip).play_runs (statuses [0, 256, 0])
    (pwmCalls [.setFrequency 18 1000]) freshChannels
    (fun _ c => ((pwmMachine boardChip).play (statuses [256, 0, 0, 0]) (pwmWrite 18 512) c).any
      fun d => d.1.returned.any fun status => decide (status = 0 ∧
        ¬ FollowsSettings [.setFrequency 18 1000] 18 512 d.2 ∧ (d.2 0).period = 20000000))
    (by decide +kernel)
  obtain ⟨status, c', hc', htest⟩ := (pwmMachine boardChip).play_runs (statuses [256, 0, 0, 0])
    (pwmWrite 18 512) c (fun status d => decide (status = 0 ∧
      ¬ FollowsSettings [.setFrequency 18 1000] 18 512 d ∧ (d 0).period = 20000000)) hplay
  obtain ⟨rfl, hnot, hperiod⟩ := of_decide_eq_true htest
  exact ⟨c, c', hc, hc', hnot, hperiod⟩

end EmbeddedCar.Gpio
