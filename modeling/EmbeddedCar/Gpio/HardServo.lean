import EmbeddedCar.Gpio.HardwarePwm
import EmbeddedCar.Gpio.SoftServo

/-!
# Servos with hardware PWM

The servo functions drive the two channels of the PWM chip, and the pins 12 and 18, as well as 13
and 19, share one. What the functions are for is where the servos of a channel stand. They refine
that on any chip that behaves as documented, while other threads set other pins.
-/

namespace EmbeddedCar.Gpio

open EmbeddedCar.Concurrent EmbeddedCar.Reactive Prog

/-! ### The board -/

/-- The channels of the chip, and the function that was last set for each pin. -/
structure Board where
  channels : Channels := freshChannels
  function : Int → Option PinSetting := fun _ => none

/-- The library on the board. A command for a pin that fails changes nothing; the other threads
set pins that are no PWM pins. -/
def boardMachine (chip : PwmChip) : Machine Op Op.Res Board Int (Int × PinSetting) where
  perform
    | .system (.gpioSet pin setting), status, b =>
        some (status,
          if status = 0 then { b with function := Function.update b.function pin (some setting) }
          else b)
    | .system command, status, b =>
        (chip.respond command b.channels status).map fun c => (status, { b with channels := c })
    | .usleep _, _, b => some ((), b)
    | _, _, _ => none
  interfere turn b :=
    if isPwmPin turn.1 then none
    else some { b with function := Function.update b.function turn.1 (some turn.2) }

/-- A channel with a period can be enabled and disabled. -/
structure PwmChip.Enables (chip : PwmChip) : Prop where
  takesEnable : ∀ {n value c status c'}, (c n).exported = true → 0 < (c n).period →
    chip.respond (.pwmEnable n value) c status = some c' → status = 0

theorem boardChip_enables : boardChip.Enables where
  takesEnable := by
    intro n value c status c' hexported hperiod h
    rcases answer_some h with ⟨-, hzero, -⟩ | ⟨hrefuses, -, -⟩
    · exact hzero
    · exact absurd ⟨hexported, hperiod⟩ hrefuses

/-! ### The servos of a board -/

/-- An angle that a servo can stand at. -/
abbrev Angle := Fin 181

/-- The clamps of `angle_to_duty_cycle`. -/
def clampAngle (angle : Int) : Angle := ⟨(max 0 (min 180 angle)).toNat, by omega⟩

/-- The pins that were given to the chip, and where the servos of each channel stand. -/
structure ServoBoard where
  attached : Int → Bool
  angle : Int → Option Angle

/-- A call of the servo functions. -/
inductive HardServoCall where
  | init (pin : Int)
  | write (pin angle : Int)
  | writeLimited (pin angle minAngle maxAngle : Int)
  | stop (pin : Int)
  deriving DecidableEq, Repr

namespace HardServoCall

def program : HardServoCall → MainProg Int
  | .init pin => servoInit pin
  | .write pin angle => servoWrite pin angle
  | .writeLimited pin angle minAngle maxAngle => servoWriteLimited pin angle minAngle maxAngle
  | .stop pin => servoStop pin

/-- The calls that do something. -/
def Accepted : HardServoCall → Prop
  | .init pin => isPwmPin pin
  | .write pin _ => isPwmPin pin
  | .writeLimited pin angle minAngle maxAngle => isPwmPin pin ∧ minAngle ≤ angle ∧ angle ≤ maxAngle
  | .stop pin => isPwmPin pin

/-- The pin and the angle of a call that moves servos. -/
def target : HardServoCall → Option (Int × Int)
  | .write pin angle => some (pin, angle)
  | .writeLimited pin angle _ _ => some (pin, angle)
  | _ => none

end HardServoCall

namespace ServoBoard

/-- The servos of a pin's channel move. -/
def move (m : ServoBoard) (pin : Int) (angle : Option Angle) : ServoBoard :=
  { m with angle := Function.update m.angle (pwmChannel pin) angle }

def attach (m : ServoBoard) (pin : Int) : ServoBoard :=
  { m with attached := Function.update m.attached pin true }

/-- A call, what it returned, and the servos before and after it. -/
inductive Step : ServoBoard → HardServoCall × Int → ServoBoard → Prop where
  | refused {m : ServoBoard} {call : HardServoCall} : ¬ call.Accepted → Step m (call, -1) m
  /-- The pin could not be set. -/
  | notAttached {m : ServoBoard} {pin : Int} : isPwmPin pin → Step m (.init pin, -1) m
  | attached {m : ServoBoard} {pin : Int} : isPwmPin pin →
      Step m (.init pin, 0) ((m.attach pin).move pin (some 90))
  | moved {m : ServoBoard} {call : HardServoCall} {pin angle : Int} : call.Accepted →
      call.target = some (pin, angle) → Step m (call, 0) (m.move pin (some (clampAngle angle)))
  | stopped {m : ServoBoard} {pin : Int} : isPwmPin pin → Step m (.stop pin, 0) (m.move pin none)

end ServoBoard

/-- A channel that plays the pulse of an angle, or nothing. -/
def PwmChannel.Plays (x : PwmChannel) : Option Angle → Prop
  | none => x.enabled = false ∧ x.dutyCycle ≤ 20000000
  | some angle =>
      x = ⟨true, 20000000, pwmDutyNs (angleToDutyCycle ((angle : ℕ) : Int)), true⟩

/-- The pins that are set to the chip's function. -/
def Attaches (attached : Int → Bool) (b : Board) : Prop :=
  ∀ pin, isPwmPin pin → (b.function pin = some .a0 ↔ attached pin = true)

/-- The board shows the servos. -/
structure ServoBoard.ShownBy (m : ServoBoard) (b : Board) : Prop where
  attaches : Attaches m.attached b
  plays : ∀ n, n = 0 ∨ n = 1 → (b.channels n).Plays (m.angle n)

/-! ### The commands -/

/-- What a run of the functions keeps track of. -/
def At (c : Channels) (attached : Int → Bool) (b : Board) : Prop :=
  b.channels = c ∧ Attaches attached b

section

variable {chip : PwmChip} {c : Channels} {attached : Int → Bool} {b b' : Board}

theorem board_stable (c : Channels) (attached : Int → Bool) :
    (boardMachine chip).Stable (At c attached) := by
  rintro b b' ⟨hc, hpins⟩ ⟨turn, hturn⟩
  change (if isPwmPin turn.1 then none else some _) = some b' at hturn
  split at hturn
  · cases hturn
  · next hother =>
    cases hturn
    refine ⟨hc, fun pin hpin => ?_⟩
    have hne : pin ≠ turn.1 := fun heq => hother (heq ▸ hpin)
    simpa [hne] using hpins pin hpin

/-- A command for the chip. -/
theorem at_respond {command : ShellCommand} {status : Int}
    (hcommand : ∀ pin setting, command ≠ .gpioSet pin setting) (hb : At c attached b)
    (h : (boardMachine chip).Exec (.system command) b status b') :
    ∃ c', chip.respond command c status = some c' ∧ At c' attached b' := by
  obtain ⟨rfl, hpins⟩ := hb
  obtain ⟨choice, h⟩ := h
  cases command with
  | gpioSet pin setting => exact absurd rfl (hcommand pin setting)
  | _ =>
    obtain ⟨c', hrespond, heq⟩ := Option.map_eq_some_iff.mp h
    obtain ⟨rfl, rfl⟩ := Prod.mk.inj heq
    exact ⟨c', hrespond, rfl, hpins⟩

variable {Q : Int → Board → Prop} {n : Int} {next : Int → MainProg Int}

/-- A command of which it is known what it leaves. -/
theorem triple_command {command : ShellCommand} {c' : Channels} {R : Int → Prop}
    (hcommand : ∀ pin setting, command ≠ .gpioSet pin setting)
    (hleaves : ∀ status d, chip.respond command c status = some d → R status ∧ d = c')
    (hnext : ∀ status, R status →
      (boardMachine chip).Triple (At c' attached) (next status) Q) :
    (boardMachine chip).Triple (At c attached) (.op (.system command) next) Q := by
  refine Machine.triple_op (N := fun status b => R status ∧ At c' attached b)
    (board_stable c attached) ?_ fun status => ?_
  · intro b status b' hb hexec
    obtain ⟨d, hrespond, hb'⟩ := at_respond hcommand hb hexec
    obtain ⟨hstatus, rfl⟩ := hleaves status d hrespond
    exact ⟨hstatus, hb'⟩
  · rintro b ⟨hstatus, hb⟩
    exact hnext status hstatus b hb

/-- The same of a command that the chip takes. -/
theorem triple_taken {command : ShellCommand} {c' : Channels}
    (hcommand : ∀ pin setting, command ≠ .gpioSet pin setting)
    (hleaves : ∀ status d, chip.respond command c status = some d → status = 0 ∧ d = c')
    (hnext : (boardMachine chip).Triple (At c' attached) (next 0) Q) :
    (boardMachine chip).Triple (At c attached) (.op (.system command) next) Q := by
  refine triple_command (R := (· = 0)) hcommand hleaves ?_
  rintro _ rfl
  exact hnext

theorem pwmChannel_cases (pin : Int) : pwmChannel pin = 0 ∨ pwmChannel pin = 1 := by
  unfold pwmChannel
  split
  · exact .inl rfl
  split
  · exact .inr rfl
  · exact .inl rfl

variable (hchip : chip.Documented) (henables : chip.Enables)

include hchip

theorem triple_export (hn : n = 0 ∨ n = 1)
    (hnext : ∀ status, (boardMachine chip).Triple
      (At (Function.update c n { c n with exported := true }) attached) (next status) Q) :
    (boardMachine chip).Triple (At c attached) (.op (.system (.pwmExport n)) next) Q := by
  refine triple_command (R := fun _ => True) nofun (fun status d h => ⟨trivial, ?_⟩)
    fun status _ => hnext status
  by_cases hstatus : status = 0
  · subst hstatus
    exact hchip.exports h
  · -- a channel that cannot be exported is exported
    have hexported : (c n).exported = true := by
      by_contra hnot
      exact hstatus (hchip.takesExport hn (by simpa using hnot) h)
    have hsame : { c n with exported := true } = c n := by rw [← hexported]
    rw [hchip.failed h hstatus, hsame, Function.update_eq_self]

theorem triple_period {ns : Int} (hexported : (c n).exported = true) (hpos : 0 < ns)
    (hle : (c n).dutyCycle ≤ ns) (hnext : (boardMachine chip).Triple
      (At (Function.update c n { c n with period := ns }) attached) (next 0) Q) :
    (boardMachine chip).Triple (At c attached) (.op (.system (.pwmPeriod n ns)) next) Q := by
  refine triple_taken nofun (fun status d h => ?_) hnext
  obtain rfl := hchip.takesPeriod hexported hpos hle h
  exact ⟨rfl, (hchip.period h).2.2⟩

theorem triple_dutyCycle {ns : Int} (hexported : (c n).exported = true)
    (hperiod : 0 < (c n).period) (hpos : 0 ≤ ns) (hle : ns ≤ (c n).period)
    (hnext : (boardMachine chip).Triple
      (At (Function.update c n { c n with dutyCycle := ns }) attached) (next 0) Q) :
    (boardMachine chip).Triple (At c attached) (.op (.system (.pwmDutyCycle n ns)) next) Q := by
  refine triple_taken nofun (fun status d h => ?_) hnext
  obtain rfl := hchip.takesDutyCycle hexported hperiod hpos hle h
  exact ⟨rfl, (hchip.dutyCycle h).2.2⟩

include henables

theorem triple_enable {value : Int} (hexported : (c n).exported = true) (hperiod : 0 < (c n).period)
    (hnext : (boardMachine chip).Triple
      (At (Function.update c n { c n with enabled := value ≠ 0 }) attached) (next 0) Q) :
    (boardMachine chip).Triple (At c attached) (.op (.system (.pwmEnable n value)) next) Q := by
  refine triple_taken nofun (fun status d h => ?_) hnext
  obtain rfl := henables.takesEnable hexported hperiod h
  exact ⟨rfl, hchip.enable h⟩

/-- What is disabled, or can be, is disabled afterwards. -/
theorem triple_disable (hoff : (c n).enabled = false ∨ (c n).exported = true ∧ 0 < (c n).period)
    (hnext : ∀ status, (boardMachine chip).Triple
      (At (Function.update c n { c n with enabled := false }) attached) (next status) Q) :
    (boardMachine chip).Triple (At c attached) (.op (.system (.pwmEnable n 0)) next) Q := by
  rcases hoff with hoff | ⟨hexported, hperiod⟩
  · refine triple_command (R := fun _ => True) nofun (fun status d h => ⟨trivial, ?_⟩)
      fun status _ => hnext status
    by_cases hstatus : status = 0
    · subst hstatus
      simpa using hchip.enable h
    · have hsame : { c n with enabled := false } = c n := by rw [← hoff]
      rw [hchip.failed h hstatus, hsame, Function.update_eq_self]
  · refine triple_enable hchip henables hexported hperiod ?_
    simpa using hnext 0

/-! ### The functions of the library -/

/-- A duty cycle within 20 ms is played, whatever the channel was set to. -/
theorem triple_pwmWrite {pin dutyCycle : Int} (hduty : (c (pwmChannel pin)).dutyCycle ≤ 20000000)
    (hns : 0 ≤ pwmDutyNs dutyCycle) :
    (boardMachine chip).Triple (At c attached) (pwmWrite pin dutyCycle) fun status b =>
      status = 0 ∧ At (Function.update c (pwmChannel pin)
        ⟨true, 20000000, pwmDutyNs dutyCycle, true⟩) attached b := by
  have hshort := pwmDutyNs_le dutyCycle
  unfold pwmWrite
  refine triple_export hchip (pwmChannel_cases pin) fun _ => ?_
  refine triple_period hchip (by simp) (by decide) (by simpa using hduty) ?_
  refine triple_dutyCycle hchip (by simp) (by simp) hns (by simp; omega) ?_
  refine triple_enable hchip henables (by simp) (by simp) ?_
  refine Machine.triple_ret (board_stable _ _) fun b hb => ⟨rfl, ?_⟩
  simpa using hb

/-- 50 Hz leave the channel disabled. -/
theorem triple_pwmSetFrequency {pin : Int} (hduty : (c (pwmChannel pin)).dutyCycle ≤ 20000000)
    (hoff : (c (pwmChannel pin)).enabled = false ∨
      (c (pwmChannel pin)).exported = true ∧ 0 < (c (pwmChannel pin)).period) :
    (boardMachine chip).Triple (At c attached) (pwmSetFrequency pin 50) fun status b =>
      status = 0 ∧ At (Function.update c (pwmChannel pin)
        ⟨true, 20000000, (c (pwmChannel pin)).dutyCycle, false⟩) attached b := by
  have hperiod : Int.tdiv 1000000000 50 = 20000000 := by decide
  unfold pwmSetFrequency Prog.when
  rw [if_neg (by decide), hperiod]
  refine triple_export hchip (pwmChannel_cases pin) fun _ => ?_
  refine triple_disable hchip henables (by simpa using hoff.imp_right And.right) fun _ => ?_
  refine triple_period hchip (by simp) (by decide) (by simpa using hduty) ?_
  refine Machine.triple_ret (board_stable _ _) fun b hb => ⟨rfl, ?_⟩
  simpa using hb

theorem triple_pwmStop {pin : Int} (hexported : (c (pwmChannel pin)).exported = true)
    (hperiod : 0 < (c (pwmChannel pin)).period) :
    (boardMachine chip).Triple (At c attached) (pwmStop pin) fun status b =>
      status = 0 ∧ At (Function.update c (pwmChannel pin)
        ⟨true, (c (pwmChannel pin)).period, 0, false⟩) attached b := by
  unfold pwmStop
  refine triple_disable hchip henables (.inr ⟨hexported, hperiod⟩) fun _ => ?_
  refine triple_dutyCycle hchip (by simpa using hexported) (by simpa using hperiod) le_rfl
    (by simp; omega) ?_
  refine Machine.triple_ret (board_stable _ _) fun b hb => ⟨rfl, ?_⟩
  simpa [hexported] using hb

end

/-! ### Angles -/

/-- The width in nanoseconds that `angle_to_duty_cycle` documents for an angle. -/
def pulseNs (angle : Angle) : ℚ := 1000000 + ((angle : ℕ) : ℚ) * 1000000 / 180

/-- A channel that plays the documented pulse of an angle, at 50 Hz, at most 21 us too short. -/
structure PwmChannel.Pulses (x : PwmChannel) (angle : Angle) : Prop where
  enabled : x.enabled = true
  period : x.period = 20000000
  pulse : x.dutyCycle ≤ pulseNs angle ∧ pulseNs angle < x.dutyCycle + 21000

theorem angle_pwmDutyNs (angle : Angle) :
    let ns := pwmDutyNs (angleToDutyCycle ((angle : ℕ) : Int))
    0 ≤ ns ∧ 180 * ns ≤ 180000000 + ((angle : ℕ) : Int) * 1000000 ∧
      180000000 + ((angle : ℕ) : Int) * 1000000 < 180 * (ns + 21000) := by
  revert angle
  decide +kernel

theorem angleToDutyCycle_clampAngle (angle : Int) :
    angleToDutyCycle (((clampAngle angle : Angle) : ℕ) : Int) = angleToDutyCycle angle := by
  have hclamp : (((clampAngle angle : Angle) : ℕ) : Int) = max 0 (min 180 angle) := by
    simp [clampAngle]
  have hagain : max 0 (min 180 (max 0 (min 180 angle))) = max 0 (min 180 angle) := by omega
  unfold angleToDutyCycle
  rw [hclamp, hagain]

theorem pulses_of_plays {x : PwmChannel} {angle : Angle} (h : x.Plays (some angle)) :
    x.Pulses angle := by
  obtain ⟨-, hbelow, habove⟩ := angle_pwmDutyNs angle
  obtain rfl := h
  refine ⟨rfl, rfl, ?_, ?_⟩
  · have hbelow' := (Int.cast_le (R := ℚ)).mpr hbelow
    push_cast at hbelow'
    rw [pulseNs]
    linarith
  · have habove' := (Int.cast_lt (R := ℚ)).mpr habove
    push_cast at habove'
    rw [pulseNs]
    linarith

theorem dutyCycle_le_of_plays {x : PwmChannel} {angle : Option Angle} (h : x.Plays angle) :
    x.dutyCycle ≤ 20000000 := by
  cases angle with
  | none => exact h.2
  | some angle =>
    obtain ⟨-, hbelow, -⟩ := angle_pwmDutyNs angle
    obtain rfl := h
    have hangle := angle.isLt
    show pwmDutyNs _ ≤ _
    omega

theorem off_or_period_of_plays {x : PwmChannel} {angle : Option Angle} (h : x.Plays angle) :
    x.enabled = false ∨ x.exported = true ∧ 0 < x.period := by
  cases angle with
  | none => exact .inl h.1
  | some angle =>
    obtain rfl := h
    exact .inr ⟨rfl, Int.sign_eq_one_iff_pos.mp rfl⟩

/-! ### The calls -/

section

variable {chip : PwmChip} {m : ServoBoard} {b b' : Board} {pin : Int}

theorem ServoBoard.ShownBy.at (h : m.ShownBy b) : At b.channels m.attached b := ⟨rfl, h.attaches⟩

theorem ServoBoard.ShownBy.channel (h : m.ShownBy b) (pin : Int) :
    (b.channels (pwmChannel pin)).Plays (m.angle (pwmChannel pin)) :=
  h.plays _ (pwmChannel_cases pin)

theorem shownBy_stable (m : ServoBoard) : (boardMachine chip).Stable m.ShownBy := by
  intro b b' hb henv
  obtain ⟨hchannels, hattaches⟩ := board_stable b.channels m.attached b b' hb.at henv
  exact ⟨hattaches, hchannels ▸ hb.plays⟩

theorem shownBy_move {c : Channels} {x : PwmChannel} {angle : Option Angle}
    (hplays : ∀ n, n = 0 ∨ n = 1 → (c n).Plays (m.angle n)) (hx : x.Plays angle)
    (hb : At (Function.update c (pwmChannel pin) x) m.attached b) :
    (m.move pin angle).ShownBy b := by
  obtain ⟨hchannels, hattaches⟩ := hb
  refine ⟨hattaches, fun n hn => ?_⟩
  rw [hchannels]
  by_cases heq : n = pwmChannel pin
  · subst heq
    simpa [ServoBoard.move] using hx
  · simpa [ServoBoard.move, heq] using hplays n hn

theorem move_move (m : ServoBoard) (pin : Int) (first second : Option Angle) :
    (m.move pin first).move pin second = m.move pin second := by
  simp [ServoBoard.move]

/-- The call is one step of the servos. -/
abbrev Turns (m : ServoBoard) (call : HardServoCall) (value : Int) (b : Board) : Prop :=
  ∃ m', ServoBoard.Step m (call, value) m' ∧ m'.ShownBy b

theorem turns_refused {call : HardServoCall} (h : ¬ call.Accepted) :
    (boardMachine chip).Triple m.ShownBy (.ret (-1)) (Turns m call) :=
  Machine.triple_ret (shownBy_stable m) fun _ hb => ⟨m, .refused h, hb⟩

variable (hchip : chip.Documented) (henables : chip.Enables)

include hchip henables

theorem triple_servoWrite (hpin : isPwmPin pin) (angle : Int) :
    (boardMachine chip).Triple m.ShownBy (servoWrite pin angle) fun status b =>
      status = 0 ∧ (m.move pin (some (clampAngle angle))).ShownBy b := by
  intro b hb
  have hns : 0 ≤ pwmDutyNs (angleToDutyCycle angle) := by
    rw [← angleToDutyCycle_clampAngle]
    exact (angle_pwmDutyNs (clampAngle angle)).1
  have hwrite : (boardMachine chip).Triple (At b.channels m.attached)
      (pwmWrite pin (angleToDutyCycle angle)) _ :=
    triple_pwmWrite hchip henables (dutyCycle_le_of_plays (hb.channel pin)) hns
  unfold servoWrite
  rw [if_neg (not_not_intro hpin)]
  refine Machine.triple_bind hwrite (fun status => ?_) b hb.at
  rintro b' ⟨rfl, hb'⟩
  rw [if_neg (by decide)]
  refine Machine.triple_ret (board_stable _ _) (fun t ht => ⟨rfl, ?_⟩) b' hb'
  refine shownBy_move hb.plays ?_ ht
  simp only [PwmChannel.Plays, angleToDutyCycle_clampAngle]

theorem turns_servoWriteLimited (pin angle minAngle maxAngle : Int) :
    (boardMachine chip).Triple m.ShownBy (servoWriteLimited pin angle minAngle maxAngle)
      (Turns m (.writeLimited pin angle minAngle maxAngle)) := by
  by_cases hlimits : minAngle ≤ angle ∧ angle ≤ maxAngle
  · unfold servoWriteLimited
    rw [if_neg (by omega), if_neg (by omega)]
    by_cases hpin : isPwmPin pin
    · refine Machine.triple_conseq (triple_servoWrite hchip henables hpin angle) (fun _ h => h) ?_
      rintro value b ⟨rfl, hb⟩
      exact ⟨_, .moved ⟨hpin, hlimits⟩ rfl, hb⟩
    · unfold servoWrite
      rw [if_pos hpin]
      exact turns_refused fun h => hpin h.1
  · have hrefused : (servoWriteLimited pin angle minAngle maxAngle) = .ret (-1) := by
      unfold servoWriteLimited
      split
      · rfl
      · rw [if_pos (by omega)]
        rfl
    rw [hrefused]
    exact turns_refused fun h => hlimits h.2

omit hchip henables in
/-- The command that gives a pin to the chip. -/
theorem shownBy_attach {status : Int} (hb : m.ShownBy b)
    (h : (boardMachine chip).Exec (.system (.gpioSet pin .a0)) b status b') :
    if status = 0 then (m.attach pin).ShownBy b' else m.ShownBy b' := by
  obtain ⟨choice, h⟩ := h
  obtain ⟨rfl, rfl⟩ := Prod.mk.inj (Option.some.inj h)
  by_cases hstatus : choice = 0
  · rw [if_pos hstatus, if_pos hstatus]
    refine ⟨fun other hother => ?_, hb.plays⟩
    by_cases heq : other = pin
    · subst heq
      simp [ServoBoard.attach]
    · simpa [ServoBoard.attach, heq] using hb.attaches other hother
  · rw [if_neg hstatus, if_neg hstatus]
    exact hb

/-- The frequency leaves the channel disabled, and a servo begins in the middle. -/
theorem triple_servoInit_rest (hpin : isPwmPin pin) :
    (boardMachine chip).Triple m.ShownBy (do
        let status ← pwmSetFrequency pin 50
        if status ≠ 0 then return -1
        else do
          let _ ← servoWrite pin 90
          return 0) fun value b => value = 0 ∧ (m.move pin (some 90)).ShownBy b := by
  intro b hb
  have hduty := dutyCycle_le_of_plays (hb.channel pin)
  have hfrequency : (boardMachine chip).Triple (At b.channels m.attached)
      (pwmSetFrequency pin 50) _ :=
    triple_pwmSetFrequency hchip henables hduty (off_or_period_of_plays (hb.channel pin))
  refine Machine.triple_bind hfrequency (fun status => ?_) b hb.at
  rintro b' ⟨rfl, hb'⟩
  let off : PwmChannel := ⟨true, 20000000, (b.channels (pwmChannel pin)).dutyCycle, false⟩
  have hplays : off.Plays none := ⟨rfl, hduty⟩
  have hoff : (m.move pin none).ShownBy b' := shownBy_move hb.plays hplays hb'
  rw [if_neg (by decide)]
  refine Machine.triple_bind (triple_servoWrite hchip henables hpin 90) (fun status => ?_) b' hoff
  refine Machine.triple_conseq (Machine.triple_ret (shownBy_stable _) fun _ h => ⟨rfl, h⟩) ?_
    fun _ _ h => h
  rintro t ⟨-, ht⟩
  rw [move_move] at ht
  exact ht

theorem turns_servoInit (pin : Int) :
    (boardMachine chip).Triple m.ShownBy (servoInit pin) (Turns m (.init pin)) := by
  unfold servoInit
  by_cases hpin : isPwmPin pin
  · rw [if_neg (not_not_intro hpin)]
    refine Machine.triple_op (N := fun status b =>
      if status = 0 then (m.attach pin).ShownBy b else m.ShownBy b) (shownBy_stable m)
      (fun b status b' hb hexec => shownBy_attach hb hexec) fun status => ?_
    change (boardMachine chip).Triple _ (if status ≠ 0 then _ else _) _
    by_cases hstatus : status = 0
    · rw [if_neg (not_not_intro hstatus)]
      simp only [if_pos hstatus]
      refine Machine.triple_conseq (triple_servoInit_rest hchip henables hpin) (fun _ h => h) ?_
      rintro value t ⟨rfl, ht⟩
      exact ⟨_, .attached hpin, ht⟩
    · rw [if_pos hstatus]
      simp only [if_neg hstatus]
      exact Machine.triple_ret (shownBy_stable m) fun t ht => ⟨m, .notAttached hpin, ht⟩
  · rw [if_pos hpin]
    exact turns_refused hpin

/-- A stop moves the servos to the middle first. -/
theorem turns_servoStop (pin : Int) :
    (boardMachine chip).Triple m.ShownBy (servoStop pin) (Turns m (.stop pin)) := by
  unfold servoStop
  by_cases hpin : isPwmPin pin
  · refine Machine.triple_bind (triple_servoWrite hchip henables hpin 90) fun status => ?_
    rintro b ⟨rfl, hb⟩
    rw [if_neg (by decide)]
    have hplays := hb.channel pin
    have hmiddle : (b.channels (pwmChannel pin)).Plays (some (clampAngle 90)) := by
      simpa [ServoBoard.move] using hplays
    have hstop : (boardMachine chip).Triple
        (At b.channels (m.move pin (some (clampAngle 90))).attached) (pwmStop pin) _ :=
      triple_pwmStop hchip henables (by rw [hmiddle]) (by rw [hmiddle]; decide)
    refine Machine.triple_op
      (N := fun _ => At b.channels (m.move pin (some (clampAngle 90))).attached)
      (board_stable _ _) ?_ (fun _ => ?_) b hb.at
    · rintro b₁ result b₂ hb₁ ⟨choice, hexec⟩
      obtain ⟨-, rfl⟩ := Prod.mk.inj (Option.some.inj hexec)
      exact hb₁
    · refine Machine.triple_conseq hstop (fun _ h => h) ?_
      rintro value t ⟨rfl, ht⟩
      refine ⟨_, .stopped hpin, ?_⟩
      rw [← move_move m pin (some (clampAngle 90)) none]
      let off : PwmChannel := ⟨true, (b.channels (pwmChannel pin)).period, 0, false⟩
      have hoff : off.Plays none := ⟨rfl, by simp [off]⟩
      exact shownBy_move hb.plays hoff ht
  · unfold servoWrite
    rw [if_pos hpin]
    exact turns_refused hpin

theorem turns_call (m : ServoBoard) (call : HardServoCall) :
    (boardMachine chip).Triple m.ShownBy call.program (Turns m call) := by
  cases call with
  | init pin => exact turns_servoInit hchip henables pin
  | write pin angle =>
    by_cases hpin : isPwmPin pin
    · refine Machine.triple_conseq (triple_servoWrite hchip henables hpin angle) (fun _ h => h) ?_
      rintro value b ⟨rfl, hb⟩
      exact ⟨_, .moved hpin rfl, hb⟩
    · have hrefused : servoWrite pin angle = .ret (-1) := if_pos hpin
      rw [HardServoCall.program, hrefused]
      exact turns_refused hpin
  | writeLimited pin angle minAngle maxAngle =>
    exact turns_servoWriteLimited hchip henables pin angle minAngle maxAngle
  | stop pin => exact turns_servoStop hchip henables pin

end

/-- The servo functions refine the servos of a board: any sequence of calls, with any arguments,
any pins that cannot be set and any steps of the other threads, is a run of them on the calls and
what they returned. The pins that the run attaches are set to the chip's function, a channel with
an angle plays its pulse, and one without is disabled. -/
theorem hardServo_refines (chip : PwmChip) (hchip : chip.Documented) (henables : chip.Enables)
    (calls : List HardServoCall) (m : ServoBoard) (b b' : Board) (values : List Int)
    (hb : m.ShownBy b)
    (h : (boardMachine chip).Runs (Prog.results HardServoCall.program calls) b values b') :
    values.length = calls.length ∧ ∃ m', Path ServoBoard.Step m (calls.zip values) m' ∧
      (∀ pin, isPwmPin pin → (b'.function pin = some .a0 ↔ m'.attached pin = true)) ∧
      ∀ pin, (m'.angle (pwmChannel pin) = none → (b'.channels (pwmChannel pin)).enabled = false) ∧
        ∀ angle, m'.angle (pwmChannel pin) = some angle →
          (b'.channels (pwmChannel pin)).Pulses angle := by
  have hcalls := Machine.triple_results shownBy_stable (turns_call hchip henables) calls m
  obtain ⟨hlength, m', hpath, hb'⟩ := Machine.wp_runs (hcalls b hb) h
  refine ⟨hlength, m', hpath, hb'.attaches, fun pin => ⟨fun hnone => ?_, fun angle hsome => ?_⟩⟩
  · have hplays := hb'.channel pin
    rw [hnone] at hplays
    exact hplays.1
  · have hplays := hb'.channel pin
    rw [hsome] at hplays
    exact pulses_of_plays hplays

/-- A servo on pin 12 that is moved through pin 18, and one on pin 13 that begins and stops. -/
theorem hardServo_refines_board :
    ∃ b', (boardMachine boardChip).Runs (Prog.results HardServoCall.program
        [.init 12, .write 18 200, .writeLimited 12 50 65 115, .init 13, .stop 13, .write 14 90])
        {} [0, 0, -1, 0, 0, -1] b' ∧
      ∃ m', Path ServoBoard.Step ⟨fun _ => false, fun _ => none⟩ [(.init 12, 0),
          (.write 18 200, 0), (.writeLimited 12 50 65 115, -1), (.init 13, 0), (.stop 13, 0),
          (.write 14 90, -1)] m' ∧
        (∀ pin, isPwmPin pin → (b'.function pin = some .a0 ↔ m'.attached pin = true)) ∧
        ∀ pin, (m'.angle (pwmChannel pin) = none →
            (b'.channels (pwmChannel pin)).enabled = false) ∧
          ∀ angle, m'.angle (pwmChannel pin) = some angle →
            (b'.channels (pwmChannel pin)).Pulses angle := by
  obtain ⟨values, b', hruns, hvalues⟩ := (boardMachine boardChip).play_runs
    (([0, 0, 256, 0, 256, 0, 0, 0, 256, 0, 0, 0, 0, 0, 256, 0, 256, 0, 0, 0, 256, 0, 0, 0, 0, 0,
      0] : List Int).map .inl)
    (Prog.results HardServoCall.program
      [.init 12, .write 18 200, .writeLimited 12 50 65 115, .init 13, .stop 13, .write 14 90])
    {} (fun values _ => decide (values = [0, 0, -1, 0, 0, -1])) (by decide +kernel)
  obtain rfl : values = [0, 0, -1, 0, 0, -1] := of_decide_eq_true hvalues
  have hfresh : (⟨fun _ => false, fun _ => none⟩ : ServoBoard).ShownBy {} :=
    ⟨fun _ _ => by simp, fun _ _ => ⟨rfl, by simp [freshChannels]⟩⟩
  exact ⟨b', hruns, (hardServo_refines boardChip boardChip_documented boardChip_enables _
    ⟨fun _ => false, fun _ => none⟩ {} b' _ hfresh hruns).2⟩

end EmbeddedCar.Gpio
