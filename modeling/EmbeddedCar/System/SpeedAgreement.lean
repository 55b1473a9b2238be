import EmbeddedCar.Backend.StoredCommand
import EmbeddedCar.Gpio.Tracking
import EmbeddedCar.JavaScript.Json

/-!
# The speed at both ends

The backend compares the Number of a speed with 0 and 100 and stores the speed as it came. The
controller polls the record and takes the `int` that json-c makes of the JSON text. The two
coercions differ on strings, and a `request_move_*` stores a default for a falsy speed.
-/

namespace EmbeddedCar.System

open EmbeddedCar.Concurrent EmbeddedCar.Text EmbeddedCar.JavaScript EmbeddedCar.Backend
open EmbeddedCar.Gpio

/-! ### From the store to the controller -/

/-- The bytes of a reply. -/
def replyText (r : Response) : Bytes := utf8 ((JsVal.object r.body).stringify.getD [])

/-- The bytes of `GET /car/movement`. -/
def recordText (values : GlobalName → JsVal) : Bytes := replyText ⟨200, fieldList values⟩

/-- What `wget -q -O -` makes of a reply: the body, or nothing and an error status. -/
def Polls (run : WgetRun) (r : Response) : Prop :=
  if r.status = 200 then run = ⟨true, replyText r, 0⟩
  else run.started = true ∧ run.output = [] ∧ run.status ≠ 0

/-- The value that the JSON text of a JavaScript value denotes. -/
inductive Denotes : JsVal → Json → Prop
  | null : Denotes .null .null
  | boolean (b : Bool) : Denotes (.boolean b) (.boolean b)
  | int (n : Int) : Denotes (.number (.fin n)) (.int n)
  | double (q : ℚ) : Denotes (.number (.fin q)) (.double q)
  | notFinite {n : JsNum} (h : ∀ q, n ≠ .fin q) : Denotes (.number n) .null
  | string (s : JsString) : Denotes (.string s) (.string (utf8 s))
  | array (vs : List JsVal) (elements : List Json) : Denotes (.array vs) (.array elements)
  | object (ps : List (JsString × JsVal)) (fields : List (Bytes × Json)) :
      Denotes (.object ps) (.object fields)

/-- json-c on the text of a record: it fails or finds the three values, and fails on a text cut
short. -/
structure Reads (jc : JsonC) (values : GlobalName → JsVal) : Prop where
  whole : ∀ root, jc.tokenerParse (recordText values) = some root →
    ∃ fields movement speed direction, root = .object fields ∧
      fields.lookup (ascii "movement") = some movement ∧
      fields.lookup (ascii "speed") = some speed ∧
      fields.lookup (ascii "direction") = some direction ∧
      Denotes (values .carMovement) movement ∧ Denotes (values .carSpeed) speed ∧
      Denotes (values .carDirection) direction
  cut : ∀ k < (recordText values).length, jc.tokenerParse ((recordText values).take k) = none

/-- The controller gets the record. -/
def Received (jc : JsonC) (values : GlobalName → JsVal) : Prop :=
  (recordText values).length ≤ 1023 ∧ jc.tokenerParse (recordText values) ≠ none

/-- The `int` the controller reads for a stored speed. -/
def readSpeed : JsVal → Int
  | .number (.fin q) => clampInt (truncate q)
  | .string s => clampInt ((strtoll (utf8 s)).getD 0)
  | _ => 0

/-- The bytes of a stored name. -/
def nameBytes : JsVal → Bytes
  | .string s => utf8 s
  | _ => []

/-- The command the controller reads in a record. -/
def recordCommand (values : GlobalName → JsVal) : CarCommand where
  movement := strncpy16 (nameBytes (values .carMovement))
  speed := readSpeed (values .carSpeed)
  direction := strncpy16 (nameBytes (values .carDirection))

theorem recordText_visible (values : GlobalName → JsVal) :
    ∀ b ∈ recordText values, b ≠ 0 ∧ b ≠ 10 := by
  apply utf8_visible
  cases h : (JsVal.object (fieldList values)).stringify with
  | none =>
    intro c hc
    cases hc
  | some text => exact JsVal.printable_stringify _ text h

theorem recordText_ne_nil (values : GlobalName → JsVal) : recordText values ≠ [] :=
  utf8_ne_nil (List.cons_ne_nil _ _)

theorem truncate_intCast (n : Int) : truncate (n : ℚ) = n := by
  simp [truncate]

theorem Denotes.getInt {jc : JsonC} (hjc : jc.Documented) {v : JsVal} {j : Json}
    (h : Denotes v j) : jc.getInt j = readSpeed v := by
  cases h with
  | null => exact hjc.getInt_null
  | boolean b => exact hjc.getInt_boolean b
  | int n =>
    rw [hjc.getInt_int, readSpeed, truncate_intCast]
  | double q => exact hjc.getInt_double q
  | @notFinite n hn =>
    rw [hjc.getInt_null]
    cases n with
    | fin q => exact absurd rfl (hn q)
    | _ => rfl
  | string s => exact hjc.getInt_string _
  | array vs elements => exact hjc.getInt_array elements
  | object ps fields => exact hjc.getInt_object fields

/-- The stored names are strings of the backend's lists. -/
structure NamedRecord (values : GlobalName → JsVal) : Prop where
  movement : ∃ s ∈ validMovements, values .carMovement = .string s
  direction : ∃ s ∈ validDirections, values .carDirection = .string s

theorem exists_of_isOneOf {v : JsVal} {strings : List JsString} (h : v.isOneOf strings = true) :
    ∃ s ∈ strings, v = .string s := by
  cases v with
  | string s => exact ⟨s, List.contains_iff_mem.mp h, rfl⟩
  | _ => cases h

theorem namedRecord_of_valid {g : Globals} (hg : ValidNames g) {values : GlobalName → JsVal}
    (hvalues : ∀ x, g.get x = some (values x)) : NamedRecord values :=
  ⟨exists_of_isOneOf (hg.movement _ (hvalues .carMovement)),
    exists_of_isOneOf (hg.direction _ (hvalues .carDirection))⟩

/-- A received record is the command it holds; otherwise the fetch fails. -/
theorem fetch_record {jc : JsonC} (hjc : jc.Documented) {values : GlobalName → JsVal}
    (hread : Reads jc values) (hnamed : NamedRecord values) :
    (Received jc values →
      fetchCarCommand jc ⟨true, recordText values, 0⟩ = .command (recordCommand values)) ∧
    (¬ Received jc values → fetchCarCommand jc ⟨true, recordText values, 0⟩ = .failed) := by
  have hline : fgetsLine 1024 (recordText values) = (recordText values).take 1023 :=
    fgetsLine_of_visible (recordText_visible values) 1024
  have hfetch : ∀ result, parseCarCommand jc ((recordText values).take 1023) = result →
      result ≠ .nullPointer → fetchCarCommand jc ⟨true, recordText values, 0⟩ = result := by
    intro result hparse hresult
    unfold fetchCarCommand
    rw [if_neg (by simp), if_neg (recordText_ne_nil values), hline, hparse]
    cases result with
    | nullPointer => exact absurd rfl hresult
    | failed => rfl
    | command cmd => rfl
  refine ⟨?_, ?_⟩
  · rintro ⟨hshort, hparsed⟩
    refine hfetch _ ?_ (by simp)
    rw [List.take_of_length_le hshort]
    obtain ⟨root, hroot⟩ := Option.ne_none_iff_exists'.mp hparsed
    obtain ⟨fields, movement, speed, direction, rfl, hmovement, hspeed, hdirection,
      hdenotesMovement, hdenotesSpeed, hdenotesDirection⟩ := hread.whole root hroot
    obtain ⟨m, -, hm⟩ := hnamed.movement
    obtain ⟨d, -, hd⟩ := hnamed.direction
    rw [hm] at hdenotesMovement
    rw [hd] at hdenotesDirection
    cases hdenotesMovement
    cases hdenotesDirection
    simp [parseCarCommand, hroot, parseString, parseSpeed, Json.objectGetEx, hmovement, hspeed,
      hdirection, hjc.getString_string, hdenotesSpeed.getInt hjc, recordCommand, nameBytes, hm, hd]
  · intro hno
    refine hfetch _ ?_ (by simp)
    have hnull : jc.tokenerParse ((recordText values).take 1023) = none := by
      by_cases hshort : (recordText values).length ≤ 1023
      · rw [List.take_of_length_le hshort]
        by_contra hparsed
        exact hno ⟨hshort, hparsed⟩
      · exact hread.cut 1023 (by omega)
    unfold parseCarCommand
    rw [hnull]

/-! ### One tick -/

/-- The duty is 0 or the integer part of the number. -/
def AgreesWith (n : JsNum) (duty : Int) : Prop :=
  duty = 0 ∨ ∃ q, n = .fin q ∧ duty = truncate q

/-- The H-bridge inputs a command sets to its speed. -/
def drivenPins (cmd : CarCommand) : List Int :=
  if cmd.movement.text = ascii "forward" then
    if cmd.direction.text = ascii "left" then [pwmMotorLeft2, pwmMotorRight1]
    else if cmd.direction.text = ascii "right" then [pwmMotorLeft1, pwmMotorRight2]
    else [pwmMotorLeft1, pwmMotorRight1]
  else if cmd.movement.text = ascii "backward" then
    if cmd.direction.text = ascii "left" then [pwmMotorLeft1, pwmMotorRight2]
    else if cmd.direction.text = ascii "right" then [pwmMotorLeft2, pwmMotorRight1]
    else [pwmMotorLeft2, pwmMotorRight2]
  else []

/-- The speed is one that `softPwmUpdateDuty` takes. -/
def InRange (speed : Int) : Prop := 0 ≤ speed ∧ speed ≤ 100

instance (speed : Int) : Decidable (InRange speed) := inferInstanceAs (Decidable (_ ∧ _))

/-- The duty is not left over: it is 0, or the one that the command gives this input. -/
def SetBy (cmd : CarCommand) (pin duty : Int) : Prop :=
  duty = 0 ∨ pin ∈ drivenPins cmd ∧ InRange cmd.speed ∧ duty = cmd.speed

/-- The command that a tick finds: a failed fetch is a stop. -/
def inForce : Fetch → CarCommand
  | .command cmd => cmd
  | _ => stopCommand

/-- A duty in line with the number, and not left over from a command before `cmd`. -/
def DutyShows (n : JsNum) (cmd : CarCommand) (pin duty : Int) : Prop :=
  AgreesWith n duty ∧ SetBy cmd pin duty

/-- Every motor duty is 0 or the integer part of the number, and none is left over. -/
def ShowsSpeed (n : JsNum) (cmd : CarCommand) (v : Drive) : Prop :=
  ∀ pin ∈ motorPins, DutyShows n cmd pin (v.dutyCycle pin)

/-- What it takes for a command to bring the duties in line with the number `n`: when it repeats
`last_command` they are in line already; otherwise the speed is, or it is out of range and the
inputs it drives are off. -/
def CommandAgrees (cmd : CarCommand) (n : JsNum) (v : Drive) : Prop :=
  if v.lastCommand = cmd then ShowsSpeed n cmd v
  else
    ∀ pin ∈ drivenPins cmd,
      if InRange cmd.speed then AgreesWith n cmd.speed else v.dutyCycle pin = 0

theorem dutyShows_zero (n : JsNum) (cmd : CarCommand) (pin : Int) : DutyShows n cmd pin 0 :=
  ⟨.inl rfl, .inl rfl⟩

theorem updated_inRange {v : Drive} (hactive : v.MotorsActive) {pin : Int} (hpin : pin ∈ motorPins)
    {x : Int} (hx : InRange x) : v.updated pin x = x :=
  if_pos ((Drive.accepts_iff v hpin x).mpr ⟨hx.1, hx.2, hactive pin hpin⟩)

theorem updated_outOfRange {v : Drive} {pin : Int} (hpin : pin ∈ motorPins) {x : Int}
    (hx : ¬ InRange x) : v.updated pin x = v.dutyCycle pin := by
  refine if_neg fun h => hx ?_
  obtain ⟨hlow, hhigh, -⟩ := (Drive.accepts_iff v hpin x).mp h
  exact ⟨hlow, hhigh⟩

/-- An input that a command drives: a speed out of range leaves the duty that was there. -/
theorem agrees_updated_iff {v : Drive} (hactive : v.MotorsActive) {cmd : CarCommand} {pin : Int}
    (hpin : pin ∈ motorPins) (hdriven : pin ∈ drivenPins cmd) (n : JsNum) :
    DutyShows n cmd pin (v.updated pin cmd.speed) ↔
      if InRange cmd.speed then AgreesWith n cmd.speed else v.dutyCycle pin = 0 := by
  by_cases hx : InRange cmd.speed
  · rw [updated_inRange hactive hpin hx, if_pos hx]
    constructor
    · intro h
      exact h.1
    · intro h
      exact ⟨h, .inr ⟨hdriven, hx, rfl⟩⟩
  · rw [updated_outOfRange hpin hx, if_neg hx]
    constructor
    · rintro ⟨-, hzero | ⟨-, hrange, -⟩⟩
      · exact hzero
      · exact absurd hrange hx
    · intro hzero
      rw [hzero]
      exact dutyShows_zero n cmd pin

/-- The duties of a drive, pin by pin. -/
theorem forall_motorPins {v : Drive} {d : Duties} (h : v.duties = d) (P : Int → Int → Prop) :
    (∀ pin ∈ motorPins, P pin (v.dutyCycle pin)) ↔
      P pwmMotorLeft1 d.left1 ∧ P pwmMotorLeft2 d.left2 ∧ P pwmMotorRight1 d.right1 ∧
        P pwmMotorRight2 d.right2 := by
  subst h
  simp [motorPins, Drive.duties]

theorem drivenPins_subset (cmd : CarCommand) : ∀ pin ∈ drivenPins cmd, pin ∈ motorPins := by
  unfold drivenPins
  split_ifs <;> decide

/-- The driven inputs are those whose duty is the speed; the others are set to 0. -/
theorem updated_duties_iff {v : Drive} (hactive : v.MotorsActive) {cmd : CarCommand} {d : Duties}
    (hd : cmd.duties = some d) {P : Int → Int → Prop} (hP : ∀ pin, P pin 0) :
    (P pwmMotorLeft1 (v.updated pwmMotorLeft1 d.left1) ∧
        P pwmMotorLeft2 (v.updated pwmMotorLeft2 d.left2) ∧
        P pwmMotorRight1 (v.updated pwmMotorRight1 d.right1) ∧
        P pwmMotorRight2 (v.updated pwmMotorRight2 d.right2)) ↔
      ∀ pin ∈ drivenPins cmd, P pin (v.updated pin cmd.speed) := by
  have hzero : ∀ pin ∈ motorPins, P pin (v.updated pin 0) := by
    intro pin hpin
    rw [updated_inRange hactive hpin ⟨le_rfl, by decide⟩]
    exact hP pin
  have hl1 := hzero pwmMotorLeft1 (by decide)
  have hl2 := hzero pwmMotorLeft2 (by decide)
  have hr1 := hzero pwmMotorRight1 (by decide)
  have hr2 := hzero pwmMotorRight2 (by decide)
  unfold CarCommand.duties movementDuties at hd
  unfold drivenPins
  split at hd
  · next hforward =>
    rw [if_pos hforward]
    split at hd
    · next hleft =>
      cases hd
      simp [if_pos hleft, hl1, hr2]
    next hleft =>
    split at hd
    · next hright =>
      cases hd
      simp [if_neg hleft, if_pos hright, hl2, hr1]
    · next hright =>
      cases hd
      simp [if_neg hleft, if_neg hright, hl2, hr2]
  next hforward =>
  rw [if_neg hforward]
  split at hd
  · next hbackward =>
    rw [if_pos hbackward]
    split at hd
    · next hleft =>
      cases hd
      simp [if_pos hleft, hl2, hr1]
    next hleft =>
    split at hd
    · next hright =>
      cases hd
      simp [if_neg hleft, if_pos hright, hl1, hr2]
    · next hright =>
      cases hd
      simp [if_neg hleft, if_neg hright, hl1, hr1]
  next hbackward =>
  rw [if_neg hbackward]
  split at hd
  · cases hd
  · cases hd
    simp [hl1, hl2, hr1, hr2]

/-- An executed command leaves duties in line exactly when those of the driven inputs are. -/
theorem agrees_execute_iff {v : Drive} (hactive : v.MotorsActive) {cmd : CarCommand} {d : Duties}
    (hd : cmd.duties = some d) (n : JsNum) :
    ShowsSpeed n cmd (outcome Drive.act (executeActions cmd ++ [.remember cmd]) v) ↔
      ∀ pin ∈ drivenPins cmd,
        if InRange cmd.speed then AgreesWith n cmd.speed else v.dutyCycle pin = 0 := by
  have hduties : (outcome Drive.act (executeActions cmd ++ [.remember cmd]) v).duties =
      v.dutiesUpdated d := by
    rw [Drive.duties_remember, Drive.duties_execute, hd, Option.elim_some]
  unfold ShowsSpeed
  rw [forall_motorPins hduties (DutyShows n cmd)]
  refine (updated_duties_iff hactive hd (dutyShows_zero n cmd)).trans
    (forall₂_congr fun pin hpin => ?_)
  exact agrees_updated_iff hactive (drivenPins_subset cmd pin hpin) hpin n

/-- A tick that fetches a command with duties. -/
theorem agrees_tick_iff {v : Drive} (hactive : v.MotorsActive) {cmd : CarCommand} {d : Duties}
    (hd : cmd.duties = some d) (n : JsNum) :
    ShowsSpeed n cmd (v.tick (.command cmd)) ↔ CommandAgrees cmd n v := by
  unfold Drive.tick tickActions CommandAgrees
  by_cases hsame : v.lastCommand = cmd
  · simp only [if_pos hsame, outcome_nil]
  · simp only [if_neg hsame]
    exact agrees_execute_iff hactive hd n

/-- A failed tick stops the motors. -/
theorem agrees_tick_failed {v : Drive} (hactive : v.MotorsActive) (n : JsNum) :
    ShowsSpeed n stopCommand (v.tick .failed) := by
  have hstop : stopCommand.duties = some ⟨0, 0, 0, 0⟩ := by decide
  have hpins : drivenPins stopCommand = [] := by decide
  refine (agrees_execute_iff hactive hstop n).mpr ?_
  rw [hpins]
  intro pin hpin
  cases hpin

/-- The movements of a record ask for duties. -/
theorem recordCommand_duties {values : GlobalName → JsVal} (hnamed : NamedRecord values) :
    ∃ d, (recordCommand values).duties = some d := by
  obtain ⟨s, hs, hmovement⟩ := hnamed.movement
  have htext : (recordCommand values).movement.text =
      (strncpy16 (utf8 s)).text := by
    unfold recordCommand nameBytes
    rw [hmovement]
  have hnames : ∀ s ∈ validMovements, (strncpy16 (utf8 s)).text ≠ ascii "left" ∧
      (strncpy16 (utf8 s)).text ≠ ascii "right" := by decide
  have hneither : ¬ ((recordCommand values).movement.text = ascii "left" ∨
      (recordCommand values).movement.text = ascii "right") := by
    rw [htext, not_or]
    exact hnames s hs
  unfold CarCommand.duties movementDuties
  simp only [if_neg hneither]
  split_ifs <;> exact ⟨_, rfl⟩

/-! ### One request and one poll -/

/-- The `speed` in the body of a request that can set one. -/
def givenSpeed : Request → Option JsVal
  | .moveForward body => some (body.get (lit "speed"))
  | .moveBackwards body => some (body.get (lit "speed"))
  | .moveLeft body => some (body.get (lit "speed"))
  | .moveRight body => some (body.get (lit "speed"))
  | .updateMovement body => some (body.get (lit "speed"))
  | _ => none

theorem givenSpeed_checked {req : Request} {w : JsVal} (hspeed : givenSpeed req = some w)
    (hrefusal : req.refusal = none) : speedOutOfRange w = .ok false := by
  cases req with
  | moveForward body =>
    cases hspeed
    exact (moveRefusal_eq_none hrefusal).2
  | moveBackwards body =>
    cases hspeed
    exact (moveRefusal_eq_none hrefusal).2
  | moveLeft body =>
    cases hspeed
    exact (moveRefusal_eq_none hrefusal).2
  | moveRight body =>
    cases hspeed
    exact (moveRefusal_eq_none hrefusal).2
  | updateMovement body =>
    cases hspeed
    exact (updateCheck_passed (updateRefusal_eq_none.mp hrefusal)).2.2
  | _ => cases hspeed

/-- A speed that passes the range check converts to a Number. -/
theorem toNumber_of_checked {w : JsVal} (h : speedOutOfRange w = .ok false) :
    ∃ n, w.toNumber = .ok n := by
  by_cases htruthy : w.truthy = true
  · rw [speedOutOfRange_eq, if_pos htruthy] at h
    cases hn : w.toNumber with
    | ok n => exact ⟨n, rfl⟩
    | error e =>
      rw [hn] at h
      cases h
  · cases w with
    | array elements => exact absurd rfl htruthy
    | object properties => exact absurd rfl htruthy
    | _ => exact ⟨_, rfl⟩

/-- When the duties come out in line with `n`: the controller does not get the record, and stops
the motors, or the command in the record brings them in line. -/
def SpeedAgrees (jc : JsonC) (record : Globals) (n : JsNum) (v : Drive) : Prop :=
  ∀ values, (∀ x, record.get x = some (values x)) → Received jc values →
    CommandAgrees (recordCommand values) n v

/-- The poll of a store with a field that was never assigned fails. -/
theorem fetch_undefined (jc : JsonC) {record : Globals} (hundefined : ¬ record.Defined)
    {now : JsString} {run : WgetRun}
    (hpoll : Polls run (answer (respond now .movement record).1)) :
    fetchCarCommand jc run = .failed := by
  obtain ⟨r, hreply, -, hiff⟩ := respond_accepted record now
    (show (Request.movement).refusal = none from rfl)
  have hsame : record.overwrite Request.movement.fields = record :=
    Globals.ext_get fun x => by simp [Request.fields]
  have hrejected : r.status ≠ 200 := by
    intro hok
    have hfinished := hiff.mp hok rfl
    rw [hsame] at hfinished
    exact hundefined hfinished
  rw [hreply] at hpoll
  unfold Polls at hpoll
  rw [if_neg (show (answer (.ok r)).status ≠ 200 from hrejected)] at hpoll
  obtain ⟨hstarted, houtput, hexit⟩ := hpoll
  simp [fetchCarCommand, hstarted, houtput, hexit]

/-- The duties after a tick that polls a store. -/
theorem agrees_poll_iff {jc : JsonC} (hjc : jc.Documented) {record : Globals}
    (hnames : ValidNames record)
    (hread : ∀ values, (∀ x, record.get x = some (values x)) → Reads jc values)
    {now : JsString} {run : WgetRun}
    (hpoll : Polls run (answer (respond now .movement record).1)) {v : Drive}
    (hactive : v.MotorsActive) (n : JsNum) :
    ShowsSpeed n (inForce (fetchCarCommand jc run)) (v.tick (fetchCarCommand jc run)) ↔
      SpeedAgrees jc record n v := by
  by_cases hdefined : record.Defined
  · obtain ⟨values, hvalues⟩ := Globals.defined_iff.mp hdefined
    have hreply : respond now .movement record = (.ok ⟨200, fieldList values⟩, record) :=
      requestCarMovement_defined hvalues
    rw [hreply] at hpoll
    have hrun : run = ⟨true, recordText values, 0⟩ := hpoll
    have hnamed := namedRecord_of_valid hnames hvalues
    have hfetch := fetch_record hjc (hread values hvalues) hnamed
    rw [hrun]
    have hsame : ∀ values', (∀ x, record.get x = some (values' x)) → values' = values := by
      intro values' hvalues'
      funext x
      exact Option.some.inj ((hvalues' x).symm.trans (hvalues x))
    by_cases hreceived : Received jc values
    · obtain ⟨d, hd⟩ := recordCommand_duties hnamed
      rw [hfetch.1 hreceived]
      refine (agrees_tick_iff hactive hd n).trans ?_
      constructor
      · intro hagrees values' hvalues' _
        rw [hsame values' hvalues']
        exact hagrees
      · intro h
        exact h values hvalues hreceived
    · rw [hfetch.2 hreceived]
      refine iff_of_true (agrees_tick_failed hactive n) ?_
      intro values' hvalues' hreceived'
      rw [hsame values' hvalues'] at hreceived'
      exact absurd hreceived' hreceived
  · rw [fetch_undefined jc hdefined hpoll]
    refine iff_of_true (agrees_tick_failed hactive n) ?_
    intro values hvalues _
    exact absurd (Globals.defined_iff.mpr ⟨values, hvalues⟩) hdefined

/-- After an accepted request with a speed and the poll that follows, every motor duty is 0 or
the integer part of the Number of the speed, and none is left over from an earlier command, exactly
when `SpeedAgrees` holds of the record and the state before the tick. -/
theorem duties_agree_iff (jc : JsonC) (hjc : jc.Documented) (earlier : Arrivals)
    (timestamp now : JsString) (req : Request) (w : JsVal) (hspeed : givenSpeed req = some w)
    (haccepted : (answer (respond timestamp req (after initialGlobals earlier)).1).status = 200)
    (hread : ∀ values,
      (∀ x, ((after initialGlobals earlier).overwrite req.fields).get x = some (values x)) →
        Reads jc values)
    (run : WgetRun)
    (hpoll : Polls run (answer
      (respond now .movement (respond timestamp req (after initialGlobals earlier)).2).1))
    (s t : State) (hactive : s.drive.MotorsActive)
    (htick : machine.Runs (timerCallback jc run) s () t) :
    ∃ n, w.toNumber = .ok n ∧
      (ShowsSpeed n (inForce (fetchCarCommand jc run)) t.drive ↔
        SpeedAgrees jc ((after initialGlobals earlier).overwrite req.fields) n s.drive) := by
  obtain ⟨r, hr, hcase⟩ := respond_cases (after initialGlobals earlier) timestamp req
  rw [hr] at haccepted
  have hstatus : r.status = 200 := haccepted
  rcases hcase with ⟨-, -, hrefusal, hstore⟩ | ⟨hbad, -, -⟩ | ⟨hbad, -, -⟩
  · obtain ⟨n, hn⟩ := toNumber_of_checked (givenSpeed_checked hspeed hrefusal)
    have hnames := (validNames_initial.after earlier).overwrite hrefusal
    rw [hstore] at hpoll
    refine ⟨n, hn, ?_⟩
    rw [timerCallback_drive htick]
    exact agrees_poll_iff hjc hnames hread hpoll hactive n
  · rw [hstatus] at hbad
    cases hbad
  · rw [hstatus] at hbad
    cases hbad

/-! ### Two updates -/

/-- An `update_movement` that drives forward. -/
def forwardUpdate (speed : JsVal) : Request :=
  .updateMovement (.object [(lit "movement", text "forward"), (lit "speed", speed),
    (lit "direction", text "none")])

/-- What it stores. -/
def forwardValues (speed : JsVal) : GlobalName → JsVal
  | .carMovement => text "forward"
  | .carSpeed => speed
  | .carDirection => text "none"

/-- The reply to the poll that follows, with the speed as it stands in the JSON text. -/
def forwardText (speed : String) : Bytes :=
  ascii "\x7b\"movement\":\"forward\",\"speed\":" ++ ascii speed ++
    ascii ",\"direction\":\"none\"\x7d"

/-- json-c, on this reply. -/
def forwardParser (speed : String) (value : Json) : JsonC :=
  JsonC.ofParser
    (fun reply =>
      if reply = forwardText speed then
        some (.object [(ascii "movement", .string (ascii "forward")), (ascii "speed", value),
          (ascii "direction", .string (ascii "none"))])
      else none)
    fun _ => []

theorem forward_fields (speed : JsVal) (hdefined : speed.isUndefined = false) (g : Globals)
    (x : GlobalName) :
    (g.overwrite (forwardUpdate speed).fields).get x = some (forwardValues speed x) := by
  have hspeed : (JsVal.object [(lit "movement", text "forward"), (lit "speed", speed),
      (lit "direction", text "none")]).get (lit "speed") = speed := rfl
  rw [Globals.get_overwrite]
  cases x with
  | carMovement => rfl
  | carDirection => rfl
  | carSpeed => simp [forwardUpdate, Request.fields, updateFields, hspeed, hdefined, forwardValues]

theorem forward_accepted {speed : JsVal} (hdefined : speed.isUndefined = false)
    (hrange : speedOutOfRange speed = .ok false) (g : Globals) (timestamp : JsString) :
    (answer (respond timestamp (forwardUpdate speed) g).1).status = 200 ∧
      (respond timestamp (forwardUpdate speed) g).2 =
        g.overwrite (forwardUpdate speed).fields := by
  have hspeed : (JsVal.object [(lit "movement", text "forward"), (lit "speed", speed),
      (lit "direction", text "none")]).get (lit "speed") = speed := rfl
  have hcheck : updateCheck (.object [(lit "movement", text "forward"), (lit "speed", speed),
      (lit "direction", text "none")]) = .ok none := by
    rw [updateCheck_eq (by simp [JsVal.isNullish]), hspeed, hrange]
    rfl
  obtain ⟨r, hrun, -, hiff⟩ := respond_accepted g timestamp
    (show (forwardUpdate speed).refusal = none from updateRefusal_eq_none.mpr hcheck)
  rw [hrun]
  refine ⟨hiff.mpr fun _ => ?_, rfl⟩
  exact Globals.defined_iff.mpr ⟨_, forward_fields speed hdefined g⟩

theorem forward_polls {speed : JsVal} {literal : String}
    (h : recordText (forwardValues speed) = forwardText literal) {record : Globals}
    (hrecord : ∀ x, record.get x = some (forwardValues speed x)) (now : JsString) :
    Polls ⟨true, forwardText literal, 0⟩ (answer (respond now .movement record).1) := by
  have hreply : respond now .movement record =
      (.ok ⟨200, fieldList (forwardValues speed)⟩, record) := requestCarMovement_defined hrecord
  rw [hreply, ← h]
  rfl

theorem forward_reads {speed : JsVal} {literal : String} {value : Json}
    (h : recordText (forwardValues speed) = forwardText literal) (hvalue : Denotes speed value) :
    Reads (forwardParser literal value) (forwardValues speed) := by
  refine ⟨fun root hroot => ?_, fun k hk => ?_⟩
  · rw [h] at hroot
    have hparse : (forwardParser literal value).tokenerParse (forwardText literal) =
        some (.object [(ascii "movement", .string (ascii "forward")), (ascii "speed", value),
          (ascii "direction", .string (ascii "none"))]) := if_pos rfl
    rw [hparse] at hroot
    cases hroot
    refine ⟨_, _, _, _, rfl, rfl, rfl, rfl, ?_, hvalue, ?_⟩
    · exact .string (lit "forward")
    · exact .string (lit "none")
  · refine if_neg fun heq => ?_
    rw [← h] at heq
    have hlength := congrArg List.length heq
    rw [List.length_take] at hlength
    omega

/-- Speed 40, as a number: both ends take it for 40. -/
theorem duties_agree_iff_forward :
    ∃ s t, machine.Runs initGpioPins boot () s ∧
      machine.Runs (timerCallback (forwardParser "40" (.int 40)) ⟨true, forwardText "40", 0⟩)
        s () t ∧
      ShowsSpeed (.fin 40)
        (inForce (fetchCarCommand (forwardParser "40" (.int 40)) ⟨true, forwardText "40", 0⟩))
        t.drive := by
  let speed : JsVal := .number (.fin 40)
  let cmd := recordCommand (forwardValues speed)
  have htext : recordText (forwardValues speed) = forwardText "40" := by decide +kernel
  obtain ⟨_, s, hinit, htest⟩ := machine.play_runs (calmMoves 80) initGpioPins boot
    (fun _ s => decide s.drive.MotorsActive && decide (s.drive.lastCommand ≠ cmd) &&
      (machine.play (calmMoves 40)
        (timerCallback (forwardParser "40" (.int 40)) ⟨true, forwardText "40", 0⟩) s).any
          fun c => c.1.returned.any fun _ => true) (by decide +kernel)
  simp only [Bool.and_eq_true, decide_eq_true_eq] at htest
  obtain ⟨⟨hactive, hlast⟩, hplay⟩ := htest
  obtain ⟨_, t, htick, -⟩ := machine.play_runs _ _ _ (fun _ _ => true) hplay
  have hrange : speedOutOfRange speed = .ok false := by decide
  obtain ⟨haccepted, hstore⟩ := forward_accepted rfl hrange initialGlobals []
  have hrecord := forward_fields speed rfl initialGlobals
  have hvalues : ∀ values, (∀ x, (initialGlobals.overwrite (forwardUpdate speed).fields).get x =
      some (values x)) → values = forwardValues speed := fun values hget =>
    funext fun x => Option.some.inj ((hget x).symm.trans (hrecord x))
  have hread : ∀ values, (∀ x, (initialGlobals.overwrite (forwardUpdate speed).fields).get x =
      some (values x)) → Reads (forwardParser "40" (.int 40)) values := by
    intro values hget
    rw [hvalues values hget]
    exact forward_reads htext (.int 40)
  have hpoll : Polls ⟨true, forwardText "40", 0⟩ (answer
      (respond [] .movement (respond [] (forwardUpdate speed) initialGlobals).2).1) := by
    rw [hstore]
    exact forward_polls htext hrecord []
  obtain ⟨n, hn, hiff⟩ := duties_agree_iff (forwardParser "40" (.int 40))
    (JsonC.documented_ofParser _ _) [] [] [] (forwardUpdate speed) speed rfl haccepted hread
    ⟨true, forwardText "40", 0⟩ hpoll s t hactive htick
  cases hn
  refine ⟨s, t, hinit, htick, hiff.mpr ?_⟩
  intro values hget _
  rw [hvalues values hget]
  unfold CommandAgrees
  rw [if_neg hlast]
  intro pin _
  have hspeed : cmd.speed = 40 := by decide
  change if InRange cmd.speed then AgreesWith _ cmd.speed else _
  rw [hspeed]
  exact .inr ⟨40, rfl, by decide⟩

/-- Speed `"1e1"`: the backend takes it for 10, the controller for 1. -/
theorem exponent_speed_differs :
    ∃ s t, machine.Runs initGpioPins boot () s ∧ s.drive.MotorsActive ∧
      (answer (respond [] (forwardUpdate (text "1e1")) initialGlobals).1).status = 200 ∧
      Polls ⟨true, forwardText "\"1e1\"", 0⟩ (answer (respond [] .movement
        (respond [] (forwardUpdate (text "1e1")) initialGlobals).2).1) ∧
      Reads (forwardParser "\"1e1\"" (.string (ascii "1e1"))) (forwardValues (text "1e1")) ∧
      machine.Runs (timerCallback (forwardParser "\"1e1\"" (.string (ascii "1e1")))
        ⟨true, forwardText "\"1e1\"", 0⟩) s () t ∧
      (text "1e1").toNumber = .ok (.fin 10) ∧
      ¬ AgreesWith (.fin 10) (t.drive.dutyCycle pwmMotorLeft1) := by
  have htext : recordText (forwardValues (text "1e1")) = forwardText "\"1e1\"" := by
    decide +kernel
  have hrange : speedOutOfRange (text "1e1") = .ok false := by decide +kernel
  have hnumber : stringToNumber (lit "1e1") = .fin 10 := by decide +kernel
  obtain ⟨haccepted, hstore⟩ := forward_accepted rfl hrange initialGlobals []
  have hrecord := forward_fields (text "1e1") rfl initialGlobals
  obtain ⟨_, s, hinit, htest⟩ := machine.play_runs (calmMoves 80) initGpioPins boot
    (fun _ s => decide s.drive.MotorsActive &&
      (machine.play (calmMoves 40) (timerCallback
        (forwardParser "\"1e1\"" (.string (ascii "1e1"))) ⟨true, forwardText "\"1e1\"", 0⟩) s).any
          fun c => c.1.returned.any fun _ =>
            decide (c.2.drive.dutyCycle pwmMotorLeft1 = 1)) (by decide +kernel)
  simp only [Bool.and_eq_true, decide_eq_true_eq] at htest
  obtain ⟨hactive, hplay⟩ := htest
  obtain ⟨_, t, htick, hduty⟩ := machine.play_runs _ _ _
    (fun _ t => decide (t.drive.dutyCycle pwmMotorLeft1 = 1)) hplay
  refine ⟨s, t, hinit, hactive, haccepted, ?_, forward_reads htext (.string _), htick,
    congrArg Except.ok hnumber, ?_⟩
  · rw [hstore]
    exact forward_polls htext hrecord []
  · rw [of_decide_eq_true hduty]
    rintro (hzero | ⟨q, hq, hten⟩)
    · cases hzero
    · cases hq
      have htruncate : truncate 10 = 10 := by decide
      rw [htruncate] at hten
      cases hten

end EmbeddedCar.System
