import EmbeddedCar.Gpio.BlinkTable
import EmbeddedCar.Gpio.Deadlock
import EmbeddedCar.Gpio.SlotThreads
import EmbeddedCar.Gpio.SoftPwmTable
import EmbeddedCar.Reactive.Run

/-!
# The wiring

What the board around the pins asks of the commands: the LEDs and the H-bridge inputs are outputs
before they are driven, the servo is a hardware PWM pin of 50 Hz that is turned between 65 and 115
degrees only, and no other pin is touched. The worker threads write pins on their own, and the
handler may interrupt the cleanup in the middle of a function.
-/

namespace EmbeddedCar.Gpio

open EmbeddedCar.Concurrent EmbeddedCar.Reactive EmbeddedCar.Text Prog

/-- The pins that are driven high and low. -/
def outputPins : List Int := ledPins ++ motorPins

/-- The function that each pin was last given; writing its level changes none. -/
def configured (f : Int → Option PinSetting) : ShellCommand → Int → Option PinSetting
  | .gpioSet pin setting =>
      if setting = .dl ∨ setting = .dh then f else Function.update f pin (some setting)
  | _ => f

/-- What the board permits where its pins have these functions. -/
def Permits (f : Int → Option PinSetting) : ShellCommand → Prop
  | .gpioSet _ .ip => False
  | .gpioSet pin .op => pin ∈ outputPins
  | .gpioSet pin .a0 => pin = pwmServo
  | .gpioSet pin .dl | .gpioSet pin .dh => pin ∈ outputPins ∧ f pin = some .op
  | .pwmExport channel => channel = 0 ∧ f pwmServo = some .a0
  | .pwmPeriod channel ns => channel = 0 ∧ f pwmServo = some .a0 ∧ ns = 20000000
  | .pwmDutyCycle channel ns =>
      channel = 0 ∧ f pwmServo = some .a0 ∧ (ns = 0 ∨ servoNs 65 ≤ ns ∧ ns ≤ servoNs 115)
  | .pwmEnable channel value => channel = 0 ∧ f pwmServo = some .a0 ∧ (value = 0 ∨ value = 1)

instance Permits.decidable (f : Int → Option PinSetting) :
    ∀ command, Decidable (Permits f command)
  | .gpioSet _ .ip => inferInstanceAs (Decidable False)
  | .gpioSet pin .op => inferInstanceAs (Decidable (pin ∈ outputPins))
  | .gpioSet pin .a0 => inferInstanceAs (Decidable (pin = pwmServo))
  | .gpioSet pin .dl | .gpioSet pin .dh =>
      inferInstanceAs (Decidable (pin ∈ outputPins ∧ f pin = some .op))
  | .pwmExport channel => inferInstanceAs (Decidable (channel = 0 ∧ f pwmServo = some .a0))
  | .pwmPeriod channel ns =>
      inferInstanceAs (Decidable (channel = 0 ∧ f pwmServo = some .a0 ∧ ns = 20000000))
  | .pwmDutyCycle channel ns =>
      inferInstanceAs (Decidable (channel = 0 ∧ f pwmServo = some .a0 ∧
        (ns = 0 ∨ servoNs 65 ≤ ns ∧ ns ≤ servoNs 115)))
  | .pwmEnable channel value =>
      inferInstanceAs (Decidable (channel = 0 ∧ f pwmServo = some .a0 ∧ (value = 0 ∨ value = 1)))

def LogEntry.command (e : LogEntry) : Option ShellCommand :=
  match e.call with
  | .system command _ => some command
  | .usleep _ => none

/-- The commands given to the shell, the first one first. -/
def State.commands (s : State) : List ShellCommand := (s.log.filterMap LogEntry.command).reverse

/-- The functions of the pins. -/
def State.functions (s : State) : Int → Option PinSetting :=
  s.commands.foldl configured fun _ => none

/-- Every command was permitted when it was given. -/
def Permitted (s : State) : Prop := Along configured Permits (fun _ => none) s.commands

/-- An LED that is lit before it is an output. -/
example : ¬ Along configured Permits (fun _ => none)
    [.gpioSet ledForwardLeft .dh, .gpioSet ledForwardLeft .op] := by decide

/-! ### A board that is set up -/

/-- The functions of the pins when `init_gpio_pins` has set them up. -/
def setUp (pin : Int) : Option PinSetting :=
  if pin ∈ outputPins then some .op else if pin = pwmServo then some .a0 else none

/-- No permitted command changes the functions again. -/
theorem configured_setUp {command : ShellCommand} (h : Permits setUp command) :
    configured setUp command = setUp := by
  cases command with
  | gpioSet pin setting =>
    cases setting with
    | ip => cases h
    | op =>
      have hpin : setUp pin = some .op := if_pos h
      rw [configured, if_neg (by decide), ← hpin, Function.update_eq_self]
    | a0 =>
      have hpin : setUp pin = some .a0 := by
        rw [show pin = pwmServo from h]
        decide
      rw [configured, if_neg (by decide), ← hpin, Function.update_eq_self]
    | dl => rw [configured, if_pos (by decide)]
    | dh => rw [configured, if_pos (by decide)]
  | _ => rfl

theorem permits_digitalWrite {pin : Int} (hpin : pin ∈ outputPins) (value : Level) :
    Permits setUp (digitalWriteCommand pin value) := by
  cases value <;> exact ⟨hpin, if_pos hpin⟩

/-- The board is set up, what was done to it was permitted, and the running threads write outputs;
so does the thread that is about to start. -/
structure Wired (starting : Option Slot) (s : State) : Prop where
  permitted : Permitted s
  functions : s.functions = setUp
  threads : ∀ c tid, s.Live c tid → s.pinOf c ∈ outputPins
  named : ∀ c ∈ starting, s.pinOf c ∈ outputPins

section

variable {s t : State}

theorem commands_grown {e : LogEntry} (h : t.log = e :: s.log) :
    t.commands = s.commands ++ e.command.toList := by
  unfold State.commands
  rw [h, List.filterMap_cons]
  cases e.command with
  | none => simp
  | some command => simp

theorem commands_congr (h : t.log = s.log) : t.commands = s.commands := by
  unfold State.commands
  rw [h]

/-- A permitted command. -/
theorem permitted_grown {f : Int → Option PinSetting} (hs : Permitted s) (hf : s.functions = f)
    {e : LogEntry} {command : ShellCommand} (h : t.log = e :: s.log)
    (hcommand : e.command = some command) (hpermits : Permits f command) :
    Permitted t ∧ t.functions = configured f command := by
  have hcommands : t.commands = s.commands ++ [command] := by
    rw [commands_grown h, hcommand]
    rfl
  unfold Permitted State.functions
  rw [hcommands, along_append, List.foldl_append]
  unfold State.functions at hf
  rw [hf]
  exact ⟨⟨hs, hpermits, trivial⟩, rfl⟩

theorem permitted_congr {f : Int → Option PinSetting} (hs : Permitted s) (hf : s.functions = f)
    (h : t.commands = s.commands) : Permitted t ∧ t.functions = f := by
  unfold Permitted State.functions at *
  rw [h]
  exact ⟨hs, hf⟩

/-- A command that the board permits once it is set up. -/
theorem permitted_setUp (hs : Permitted s) (hf : s.functions = setUp) {e : LogEntry}
    (h : t.log = e :: s.log) (hpermits : ∀ command ∈ e.command, Permits setUp command) :
    Permitted t ∧ t.functions = setUp := by
  cases hcommand : e.command with
  | none =>
    refine permitted_congr hs hf ?_
    rw [commands_grown h, hcommand]
    simp
  | some command =>
    have hcommand' := hpermits command hcommand
    rw [← configured_setUp hcommand']
    exact permitted_grown hs hf h hcommand hcommand'

theorem wired_stable (starting : Option Slot) : machine.Stable (Wired starting) := by
  intro s t hs henv
  have hgrown : Permitted t ∧ t.functions = setUp := by
    rcases env_log henv with hsame | ⟨tid, us, hlog⟩ | ⟨tid, pin, value, status, hlog, -⟩
    · exact permitted_congr hs.permitted hs.functions (commands_congr hsame)
    · exact permitted_setUp hs.permitted hs.functions hlog nofun
    · refine permitted_setUp hs.permitted hs.functions hlog ?_
      rintro _ ⟨rfl⟩
      rcases log_env henv with hsame | ⟨e, hlog', tid', c, -, hlive, hpin⟩
      · exact absurd (hlog.symm.trans hsame) (List.cons_ne_self _ _)
      · -- the entry is that of a running thread, so its pin is an output
        obtain rfl := (List.cons.inj (hlog.symm.trans hlog')).1
        have hslot : pin = s.pinOf c := by
          cases value
          · exact hpin _ _ _ rfl
          · exact hpin _ _ _ rfl
        rw [hslot]
        exact permits_digitalWrite (hs.threads c tid' hlive) value
  refine ⟨hgrown.1, hgrown.2, fun c tid ht => ?_, fun c hc => ?_⟩
  · rw [pinOf_env henv]
    exact hs.threads c tid (live_env henv ht)
  · rw [pinOf_env henv]
    exact hs.named c hc

/-- The operations that keep the wiring while a slot is being started. -/
def keepsWiring (starting : Option Slot) : Op → Prop
  | .system command => Permits setUp command
  | .storeSoftPwm _ field value => field = .pin → value ∈ outputPins
  | .storeBlink _ field value => field = .pin → value ∈ outputPins
  | .createSoftPwm i => starting = some (.softPwm i)
  | .createBlink i => starting = some (.blink i)
  | _ => True

variable {starting : Option Slot} {o : Op} {r : o.Res}

/-- A slot whose pin was an output still names an output. -/
theorem pinOf_keepsWiring (ho : keepsWiring starting o) (h : machine.Exec o s r t) {c : Slot}
    (hs : s.pinOf c ∈ outputPins) : t.pinOf c ∈ outputPins := by
  have hsame : t.softPwmPins = s.softPwmPins → t.blinkPins = s.blinkPins → t.pinOf c ∈ outputPins :=
    fun hsoft hblink => by rw [pinOf_congr hsoft hblink]; exact hs
  cases o with
  | storeSoftPwm i field value =>
    rw [exec_storeSoftPwm h, pinOf_setSoftPwm]
    split
    · next hc =>
      subst hc
      cases field with
      | pin => exact ho rfl
      | _ => exact hs
    · exact hs
  | storeBlink i field value =>
    rw [exec_storeBlink h, pinOf_setBlink]
    split
    · next hc =>
      subst hc
      cases field with
      | pin => exact ho rfl
      | _ => exact hs
    · exact hs
  | createSoftPwm i =>
    rcases creates_cases (c := .softPwm i) h with ⟨-, -, -, -, -, hpins⟩ | ⟨-, rfl⟩
    · rw [hpins]
      exact hs
    · exact hs
  | createBlink i =>
    rcases creates_cases (c := .blink i) h with ⟨-, -, -, -, -, hpins⟩ | ⟨-, rfl⟩
    · rw [hpins]
      exact hs
    · exact hs
  | joinSoftPwm i =>
    obtain ⟨w, -, -, -, rfl⟩ := join_some (exec_joinSoftPwm h)
    exact hsame rfl rfl
  | joinBlink i =>
    obtain ⟨w, -, -, -, rfl⟩ := join_some (exec_joinBlink h)
    exact hsame rfl rfl
  | _ =>
    obtain ⟨hsoft, hblink, -⟩ := exec_leavesTables (by trivial) h
    exact hsame hsoft hblink

theorem wired_exec (ho : keepsWiring starting o) (hs : Wired starting s)
    (h : machine.Exec o s r t) : Wired starting t := by
  have hgrown : Permitted t ∧ t.functions = setUp := by
    have hlog := exec_log h
    cases o with
    | system command =>
      refine permitted_setUp hs.permitted hs.functions hlog ?_
      rintro _ ⟨rfl⟩
      exact ho
    | usleep us => exact permitted_setUp hs.permitted hs.functions hlog nofun
    | _ => exact permitted_congr hs.permitted hs.functions (commands_congr hlog)
  refine ⟨hgrown.1, hgrown.2, fun c tid ht => ?_, fun c hc => ?_⟩
  · apply pinOf_keepsWiring ho h
    rcases live_exec h ht with hlive | ⟨-, hcreates⟩
    · exact hs.threads c tid hlive
    · apply hs.named c
      cases o with
      | createSoftPwm i =>
        cases hcreates
        exact ho
      | createBlink i =>
        cases hcreates
        exact ho
      | _ => cases hcreates
  · exact pinOf_keepsWiring ho h (hs.named c hc)

/-- A store to `pin` of the slot. -/
def storePin (value : Int) : Slot → Op
  | .softPwm i => .storeSoftPwm i .pin value
  | .blink i => .storeBlink i .pin value

/-- The slot that is given an output may be started. -/
theorem wired_storePin {c : Slot} {value : Int} (hvalue : value ∈ outputPins)
    (hs : Wired none s) {r : (storePin value c).Res} (h : machine.Exec (storePin value c) s r t) :
    Wired (some c) t := by
  have hkeeps : keepsWiring none (storePin value c) := by
    cases c <;> exact fun _ => hvalue
  have ht := wired_exec hkeeps hs h
  refine ⟨ht.permitted, ht.functions, ht.threads, ?_⟩
  rintro c' ⟨rfl⟩
  cases c with
  | softPwm i =>
    rw [exec_storeSoftPwm h, pinOf_setSoftPwm, if_pos rfl]
    exact hvalue
  | blink i =>
    rw [exec_storeBlink h, pinOf_setBlink, if_pos rfl]
    exact hvalue

theorem wired_none (hs : Wired starting s) : Wired none s :=
  ⟨hs.permitted, hs.functions, hs.threads, nofun⟩

end

/-! ### Programs that obey the board -/

/-- From `P` the program gives permitted commands only, and ends in `Q`. -/
def Obeys {α : Type} (P : State → Prop) (p : MainProg α) (Q : State → Prop) : Prop :=
  ∀ s, P s → machine.wp Permitted p (fun _ => Q) s

section

variable {α β : Type} {P N Q : State → Prop} {starting : Option Slot}

theorem obeys_bind {p : MainProg β} {f : β → MainProg α} (hp : Obeys P p N)
    (hf : ∀ value, Obeys N (f value) Q) : Obeys P (p >>= f) Q :=
  fun s hs => Machine.wp_bind
    (Machine.wp_mono (fun _ h => h) (fun value t ht => hf value t ht) (hp s hs))

theorem obeys_conseq {P' Q' : State → Prop} {p : MainProg α} (h : Obeys P p Q)
    (hP : ∀ s, P' s → P s) (hQ : ∀ s, Q s → Q' s) : Obeys P' p Q' :=
  fun s hs => Machine.wp_mono (fun _ h => h) (fun _ t ht => hQ t ht) (h s (hP s hs))

theorem obeys_op (hP : machine.Stable P) (hpermitted : ∀ s, P s → Permitted s) {o : Op}
    {next : o.Res → MainProg α} (hexec : ∀ s r t, P s → machine.Exec o s r t → N t)
    (hnext : ∀ r, Obeys N (next r) Q) : Obeys P (.op o next) Q :=
  fun _ hs => Machine.wp_op hP hpermitted hs fun t r u ht hu => hnext r u (hexec t r u ht hu)

theorem obeys_uses {p : MainProg α} (h : p.Uses (keepsWiring starting)) :
    Obeys (Wired starting) p (Wired starting) :=
  fun _ hs => Machine.wp_uses (wired_stable starting) (fun _ hs => hs.permitted)
    (fun _ ho _ _ _ hs h => wired_exec ho hs h) h hs

theorem uses_digitalWrite_wiring {pin : Int} (hpin : pin ∈ outputPins) (value : Level) :
    (digitalWrite pin value).Uses (keepsWiring starting) :=
  ⟨permits_digitalWrite hpin value, fun _ => trivial⟩

theorem uses_loadActive_wiring (c : Slot) : (loadActive c).Uses (keepsWiring starting) := by
  cases c <;> exact ⟨trivial, fun _ => trivial⟩

theorem uses_storeActive_wiring (value : Int) (c : Slot) :
    (storeActive value c).Uses (keepsWiring starting) := by
  cases c <;> exact ⟨nofun, fun _ => trivial⟩

theorem uses_joinThread_wiring (c : Slot) : (joinThread c).Uses (keepsWiring starting) := by
  cases c <;> exact ⟨trivial, fun _ => trivial⟩

theorem uses_createThread_wiring (c : Slot) : (createThread c).Uses (keepsWiring (some c)) := by
  cases c <;> exact ⟨rfl, fun _ => trivial⟩

theorem uses_unlock_wiring (m : Mutex) (value : Int) :
    (do exec (.unlock m); return value : MainProg Int).Uses (keepsWiring starting) :=
  ⟨trivial, fun _ => trivial⟩

theorem uses_stopSlot_wiring (c : Slot) {pin : Int} (hpin : pin ∈ outputPins) :
    (stopSlot c pin).Uses (keepsWiring starting) := by
  unfold stopSlot
  rw [call_bind]
  refine ⟨trivial, fun _ => uses_bind (uses_loadActive_wiring c) fun active => ?_⟩
  split
  · exact uses_unlock_wiring _ _
  · refine uses_bind (uses_storeActive_wiring 0 c) fun _ => ?_
    refine uses_bind (uses_joinThread_wiring c) fun _ => ?_
    exact uses_bind (uses_digitalWrite_wiring hpin .low) fun _ => uses_unlock_wiring _ _

theorem uses_launchSlot_wiring (c : Slot) {pin : Int} (hpin : pin ∈ outputPins)
    {configure : MainProg Unit} (hconfigure : configure.Uses (keepsWiring (some c))) :
    (launchSlot c pin configure).Uses (keepsWiring (some c)) := by
  unfold launchSlot
  refine uses_bind hconfigure fun _ => uses_bind (uses_storeActive_wiring 1 c) fun _ => ?_
  refine uses_bind ⟨hpin, fun _ => trivial⟩ fun _ => ?_
  refine uses_bind (uses_createThread_wiring c) fun result => ?_
  split
  · exact uses_bind (uses_storeActive_wiring 0 c) fun _ => uses_unlock_wiring _ _
  · exact uses_unlock_wiring _ _

/-- The first statements of a start, which end the thread of an active slot. -/
def claimSlot (c : Slot) : MainProg Unit := do
  exec (.lock c.mutex)
  let active ← loadActive c
  when (active ≠ 0) do
    storeActive 0 c
    joinThread c

theorem startSlot_eq_claimSlot (c : Slot) (pin : Int) (configure : MainProg Unit) :
    startSlot c pin configure = claimSlot c >>= fun _ => launchSlot c pin configure := by
  simp only [startSlot, claimSlot, Prog.bind_assoc]

theorem uses_claimSlot_wiring (c : Slot) : (claimSlot c).Uses (keepsWiring starting) := by
  unfold claimSlot
  rw [call_bind]
  refine ⟨trivial, fun _ => uses_bind (uses_loadActive_wiring c) fun active => ?_⟩
  unfold Prog.when
  split
  · exact uses_bind (uses_storeActive_wiring 0 c) fun _ => uses_joinThread_wiring c
  · trivial

/-- A start gives its slot the pin before it creates the thread. -/
theorem obeys_startSlot (c : Slot) {pin : Int} (hpin : pin ∈ outputPins)
    {configure : (storePin pin c).Res → MainProg Unit}
    (hconfigure : ∀ r, (configure r).Uses (keepsWiring (some c))) :
    Obeys (Wired none) (startSlot c pin (.op (storePin pin c) configure)) (Wired none) := by
  rw [startSlot_eq_claimSlot]
  refine obeys_bind (obeys_uses (uses_claimSlot_wiring c)) fun _ => ?_
  refine obeys_op (wired_stable none) (fun _ hs => hs.permitted)
    (fun s r t hs h => wired_storePin hpin hs h) fun r => ?_
  exact obeys_conseq (obeys_uses (uses_launchSlot_wiring c hpin (hconfigure r))) (fun _ hs => hs)
    fun _ => wired_none

theorem obeys_blinkStart {pin : Int} (hpin : pin ∈ outputPins) (freq duration : Int) :
    Obeys (Wired none) (blinkStart pin freq duration) (Wired none) := by
  by_cases hrange : (0 ≤ pin ∧ pin ≤ 21) ∧ 0 < freq ∧ 0 < duration
  · rw [blinkStart_eq_startSlot hrange.1 hrange.2.1 hrange.2.2]
    exact obeys_startSlot (.blink pin.toNat) hpin fun _ =>
      ⟨nofun, fun _ => ⟨nofun, fun _ => trivial⟩⟩
  · rw [blinkStart_rejected hrange]
    exact obeys_uses trivial

theorem obeys_softPwmStart {pin : Int} (hpin : pin ∈ outputPins) (dutyCycle frequency : Int) :
    Obeys (Wired none) (softPwmStart pin dutyCycle frequency) (Wired none) := by
  by_cases hcall : (SoftPwmCall.start pin dutyCycle frequency).InRange
  · rw [softPwmStart_eq_startSlot hcall.1 hcall.2.1 hcall.2.2]
    exact obeys_startSlot (.softPwm pin.toNat) hpin fun _ =>
      ⟨nofun, fun _ => ⟨nofun, fun _ => trivial⟩⟩
  · have hrejected : softPwmStart pin dutyCycle frequency = .ret (-1) :=
      SoftPwmCall.program_of_not_inRange hcall
    rw [hrejected]
    exact obeys_uses trivial

end

/-! ### The functions of the controller -/

section

variable {starting : Option Slot}

theorem keepsWiring_of_dutyOp {o : Op} (ho : dutyOp o) : keepsWiring starting o := by
  cases o with
  | storeSoftPwm i field value =>
    intro hfield
    rw [show field = .dutyCycle from ho] at hfield
    cases hfield
  | storeBlink i field value => cases ho
  | system command => cases ho
  | createSoftPwm i => cases ho
  | createBlink i => cases ho
  | _ => trivial

theorem uses_updateDuties_wiring (left1 left2 right1 right2 : Int) :
    (updateDuties left1 left2 right1 right2).Uses (keepsWiring starting) :=
  uses_mono (fun _ => keepsWiring_of_dutyOp) (uses_updateDuties left1 left2 right1 right2)

theorem uses_blinkStop_wiring {pin : Int} (hpin : pin ∈ outputPins) :
    (blinkStop pin).Uses (keepsWiring starting) := by
  by_cases hrange : 0 ≤ pin ∧ pin ≤ 21
  · rw [blinkStop_eq hrange]
    exact uses_stopSlot_wiring (.blink pin.toNat) hpin
  · unfold blinkStop
    rw [if_pos (by omega)]
    trivial

theorem uses_stopAll_wiring : stopAll.Uses (keepsWiring starting) := by
  unfold stopAll
  iterate 4 refine uses_bind (uses_blinkStop_wiring (by decide)) fun _ => ?_
  iterate 4 refine uses_bind (uses_digitalWrite_wiring (by decide) .low) fun _ => ?_
  exact uses_updateDuties_wiring 0 0 0 0

/-- Between the limits of the servo the pulses are in order. -/
theorem servoNs_limited {angle : Int} (hlow : 65 ≤ angle) (hhigh : angle ≤ 115) :
    servoNs 65 ≤ servoNs angle ∧ servoNs angle ≤ servoNs 115 := by
  have hall : ∀ n : Fin 51, servoNs 65 ≤ servoNs (65 + (n : ℕ)) ∧
      servoNs (65 + (n : ℕ)) ≤ servoNs 115 := by decide
  have hangle := hall ⟨(angle - 65).toNat, by omega⟩
  have heq : 65 + (((angle - 65).toNat : ℕ) : Int) = angle := by omega
  simpa only [heq] using hangle

theorem permits_pwm {channel : Int} (hchannel : channel = pwmChannel pwmServo) :
    channel = 0 ∧ setUp pwmServo = some .a0 :=
  ⟨hchannel, by decide⟩

theorem uses_servoWrite_wiring {angle : Int} (hlow : 65 ≤ angle) (hhigh : angle ≤ 115) :
    (servoWrite pwmServo angle).Uses (keepsWiring starting) := by
  have hpwm := permits_pwm rfl
  unfold servoWrite
  rw [if_neg (by decide)]
  refine uses_bind ?_ fun status => ?_
  · refine ⟨hpwm, fun _ => ⟨⟨hpwm.1, hpwm.2, rfl⟩, fun _ => ⟨⟨hpwm.1, hpwm.2, .inr ?_⟩, fun _ =>
      ⟨⟨hpwm.1, hpwm.2, .inr rfl⟩, fun _ => trivial⟩⟩⟩⟩
    exact servoNs_limited hlow hhigh
  · split <;> trivial

theorem uses_setSteeringDirection_wiring (direction : Bytes) :
    (setSteeringDirection direction).Uses (keepsWiring starting) := by
  have hwrite : ∀ angle, (servoWriteLimited pwmServo angle 65 115).Uses (keepsWiring starting) := by
    intro angle
    unfold servoWriteLimited
    split
    · trivial
    split
    · trivial
    · exact uses_servoWrite_wiring (by omega) (by omega)
  unfold setSteeringDirection
  split
  · exact uses_bind (hwrite 65) fun _ => trivial
  split
  · exact uses_bind (hwrite 115) fun _ => trivial
  · exact uses_bind (hwrite 90) fun _ => trivial

theorem uses_servoStop_wiring : (servoStop pwmServo).Uses (keepsWiring starting) := by
  have hpwm := permits_pwm rfl
  unfold servoStop
  refine uses_bind (uses_servoWrite_wiring (by decide) (by decide)) fun status => ?_
  split
  · trivial
  · refine ⟨trivial, fun _ => ⟨⟨hpwm.1, hpwm.2, .inl rfl⟩, fun _ => ?_⟩⟩
    exact ⟨⟨hpwm.1, hpwm.2, .inl rfl⟩, fun _ => trivial⟩

theorem uses_afterSetup_wiring (n : Nat) : (afterSetup n).Uses (keepsWiring starting) := by
  have hsleep : (Prog.sequence (List.replicate n (exec (.usleep 1000000)))).Uses
      (keepsWiring starting) := by
    induction n with
    | zero => trivial
    | succ n ih => exact ⟨trivial, fun _ => ih⟩
  unfold afterSetup
  refine uses_bind hsleep fun _ => uses_bind uses_stopAll_wiring fun _ => ?_
  refine uses_bind (uses_setSteeringDirection_wiring _) fun _ => ?_
  refine uses_bind ⟨trivial, fun _ => trivial⟩ fun _ => ?_
  exact uses_bind uses_servoStop_wiring fun _ => trivial

end

theorem obeys_executeCarCommand (cmd : CarCommand) :
    Obeys (Wired none) (executeCarCommand cmd) (Wired none) := by
  obtain ⟨body, heq, hbranch⟩ := executeCarCommand_branch cmd
  have hled : ∀ pin ∈ cmd.signal.blinking ++ cmd.signal.lit, pin ∈ outputPins :=
    fun pin hpin => List.mem_append_left _ ((signal_proper cmd).leds pin hpin)
  rw [heq]
  refine obeys_bind (obeys_uses (uses_setSteeringDirection_wiring _)) fun _ => ?_
  generalize cmd.signal = sig at hbranch hled
  cases hbranch with
  | @blinks first second rest hrest =>
    refine obeys_bind (obeys_blinkStart (hled first (by simp)) 2 3) fun _ => ?_
    refine obeys_bind (obeys_blinkStart (hled second (by simp)) 2 3) fun _ => ?_
    exact obeys_uses (uses_mono (fun _ => keepsWiring_of_dutyOp) hrest)
  | @blinksBack first second rest hrest =>
    refine obeys_bind (obeys_blinkStart (hled second (by simp)) 2 3) fun _ => ?_
    refine obeys_bind (obeys_blinkStart (hled first (by simp)) 2 3) fun _ => ?_
    exact obeys_uses (uses_mono (fun _ => keepsWiring_of_dutyOp) hrest)
  | @lights first second rest hrest =>
    apply obeys_uses
    refine uses_bind (uses_digitalWrite_wiring (hled first (by simp)) .high) fun _ => ?_
    refine uses_bind (uses_digitalWrite_wiring (hled second (by simp)) .high) fun _ => ?_
    exact uses_mono (fun _ => keepsWiring_of_dutyOp) hrest
  | stops => exact obeys_uses uses_stopAll_wiring

theorem obeys_timerCallback (jc : JsonC) (run : WgetRun) :
    Obeys (Wired none) (timerCallback jc run) (Wired none) := by
  have hexecute : ∀ cmd, Obeys (Wired none)
      (do executeCarCommand cmd; exec (.storeLastCommand cmd)) (Wired none) := fun cmd =>
    obeys_bind (obeys_executeCarCommand cmd) fun _ => obeys_uses ⟨trivial, fun _ => trivial⟩
  unfold timerCallback
  split
  · refine obeys_bind (obeys_uses ⟨trivial, fun _ => trivial⟩) fun last => ?_
    split
    · exact hexecute _
    · exact obeys_uses trivial
  · exact hexecute stopCommand
  · exact obeys_uses ⟨trivial, fun _ => trivial⟩

/-! ### Setting up -/

/-- No thread has been created, and the pins have these functions so far. -/
structure Preparing (f : Int → Option PinSetting) (s : State) : Prop where
  permitted : Permitted s
  functions : s.functions = f
  alone : s.workers = []

section

variable {α : Type} {f : Int → Option PinSetting} {Q : State → Prop}

theorem preparing_stable (f : Int → Option PinSetting) : machine.Stable (Preparing f) := by
  intro s t hs henv
  obtain ⟨tid, status, w, task, e, hw, -⟩ := env_iff.mp henv
  rw [hs.alone] at hw
  cases hw

theorem obeys_configure (command : ShellCommand) (hcommand : Permits f command) :
    Obeys (Preparing f) (system command) (Preparing (configured f command)) := by
  refine obeys_op (N := Preparing (configured f command)) (preparing_stable f)
    (fun _ hs => hs.permitted) ?_ fun r s hs => ?_
  · intro s r t hs h
    obtain ⟨hpermitted, hfunctions⟩ :=
      permitted_grown hs.permitted hs.functions (exec_log h) rfl hcommand
    have hworkers := (exec_leavesTables (o := .system command) trivial h).2.2
    exact ⟨hpermitted, hfunctions, hworkers.trans hs.alone⟩
  · exact Machine.wp_ret (preparing_stable _) (fun _ hs => hs.permitted) hs fun _ ht => ht

theorem obeys_output {pin : Int} (hpin : pin ∈ outputPins) {next : Int → MainProg α}
    (hnext : ∀ status, Obeys (Preparing (Function.update f pin (some .op))) (next status) Q) :
    Obeys (Preparing f) (pinMode pin .output >>= next) Q :=
  obeys_bind (obeys_configure (.gpioSet pin .op) hpin) hnext

/-- Without threads a board whose pins have their functions is wired. -/
theorem wired_of_preparing {s : State} (hs : Preparing setUp s) : Wired none s := by
  refine ⟨hs.permitted, hs.functions, ?_, nofun⟩
  rintro c tid ⟨w, hw, -⟩
  rw [hs.alone] at hw
  cases hw

/-- `servoInit` gives the servo pin its function first, and goes on if the command succeeds. -/
theorem obeys_servoInit (hsetUp : Function.update f pwmServo (some .a0) = setUp) :
    Obeys (Preparing f) (servoInit pwmServo) (Wired none) := by
  have hpwm := permits_pwm rfl
  unfold servoInit
  rw [if_neg (by decide)]
  refine obeys_bind (N := Wired none) ?_ fun status => obeys_uses ?_
  · refine obeys_conseq (obeys_configure (.gpioSet pwmServo .a0) rfl) (fun _ hs => hs) ?_
    intro s hs
    rw [configured, if_neg (by decide), hsetUp] at hs
    exact wired_of_preparing hs
  split
  · trivial
  refine uses_bind ?_ fun status => ?_
  · exact ⟨hpwm, fun _ => ⟨⟨hpwm.1, hpwm.2, .inl rfl⟩, fun _ => ⟨⟨hpwm.1, hpwm.2, rfl⟩, fun _ =>
      trivial⟩⟩⟩
  split
  · trivial
  · exact uses_bind (uses_servoWrite_wiring (by decide) (by decide)) fun _ => trivial

end

theorem preparing_boot : Preparing (fun _ => none) boot := ⟨trivial, rfl, rfl⟩

theorem obeys_initGpioPins :
    Obeys (Preparing fun _ => none) initGpioPins (Wired none) := by
  unfold initGpioPins
  iterate 8 refine obeys_output (by decide) fun _ => ?_
  refine obeys_bind (obeys_servoInit ?_) fun _ => ?_
  · funext pin
    simp only [Function.update_apply, setUp, outputPins, ledPins, motorPins, List.cons_append,
      List.nil_append, List.mem_cons, List.not_mem_nil, or_false, ledForwardLeft, ledForwardRight,
      ledBackwardLeft, ledBackwardRight, pwmMotorLeft1, pwmMotorLeft2, pwmMotorRight1,
      pwmMotorRight2, pwmServo]
    grind
  iterate 4 refine obeys_bind (obeys_uses (uses_digitalWrite_wiring (by decide) .low)) fun _ => ?_
  iterate 4 refine obeys_bind (obeys_softPwmStart (by decide) 0 500) fun _ => ?_
  exact obeys_uses trivial

/-! ### Whole runs -/

/-- Whatever the server sends, whatever fails and wherever a tick interrupts the controller: every
command it or one of its threads gives is one the board permits at that moment. -/
theorem commands_permitted (jc : JsonC) :
    (∀ q s, machine.Steps (initGpioPins, boot) (q, s) → Permitted s) ∧
    ∀ s n c, machine.Runs initGpioPins boot () s →
      machine.SignalSteps (timerCallback jc) (fun _ _ => True) ⟨afterSetup n, none, s⟩ c →
        Permitted c.state := by
  have hinit := obeys_initGpioPins boot preparing_boot
  refine ⟨fun q s h => Machine.wp_visited hinit h, fun s n c hs hc => ?_⟩
  exact Machine.signalSteps_guarantee (wired_stable none) (fun _ hs => hs.permitted)
    (fun _ ho _ _ _ hs h => wired_exec ho hs h) (obeys_timerCallback jc) (uses_afterSetup_wiring n)
    (Machine.wp_runs (Q := fun _ => Wired none) hinit hs) hc

/-- A command that arrives in the middle of the first `blinkStop` of the cleanup and turns the servo
to its limit. -/
theorem commands_permitted_left :
    ∃ s q e r t, machine.Runs initGpioPins boot () s ∧
      machine.SignalSteps (timerCallback forwardJsonC) (fun _ _ => True) ⟨afterSetup 0, none, s⟩
        ⟨q, some ⟨forwardRun, e, r⟩, t⟩ ∧
      .pwmDutyCycle 0 (servoNs 65) ∈ t.commands ∧ Permitted t := by
  let test : MainProg Unit → State → State → Bool := fun _ _ t =>
    decide (.pwmDutyCycle 0 (servoNs 65) ∈ t.commands)
  obtain ⟨_, s, hinit, hplay⟩ := machine.play_runs (calmMoves 80) initGpioPins boot
    (fun _ s => (machine.play (calmMoves 1) (afterSetup 0) s).any fun c =>
      (machine.play (calmMoves 5) (timerCallback forwardJsonC forwardRun) c.2).any fun d =>
        test d.1 c.2 d.2) (by decide +kernel)
  have hvisit : ∃ q e r t, machine.SignalSteps (timerCallback forwardJsonC) (fun _ _ => True)
      ⟨afterSetup 0, none, s⟩ ⟨q, some ⟨forwardRun, e, r⟩, t⟩ ∧ test r e t = true :=
    Machine.play_interrupted (calmMoves 1) (calmMoves 5) test (fun _ _ _ _ => trivial) hplay
  obtain ⟨q, e, r, t, hsteps, htest⟩ := hvisit
  exact ⟨s, q, e, r, t, hinit, hsteps, of_decide_eq_true htest,
    (commands_permitted forwardJsonC).2 s 0 _ hinit hsteps⟩

end EmbeddedCar.Gpio
