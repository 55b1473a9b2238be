import EmbeddedCar.Gpio.Process

/-!
# The address of the server

The first argument of the controller becomes the address that the `wget` command is built with.
Only a dotted quad is taken, so nothing else of the argument reaches the shell.
-/

namespace EmbeddedCar.Gpio

open EmbeddedCar.Text

/-- `'.'` -/
def dot : UInt8 := 46

/-- The loop of `is_valid_ip_format` (`gpio_controller.c:43-53`), with `dots` and `digit_count`;
`none` is a `return 0` inside the loop. -/
def ipLoop (dots digitCount : Nat) : Bytes → Option (Nat × Nat)
  | [] => some (dots, digitCount)
  | c :: rest =>
      if c = dot then
        if digitCount = 0 ∨ digitCount > 3 then none else ipLoop (dots + 1) 0 rest
      else if isDigit c then ipLoop dots (digitCount + 1) rest
      else none

/-- `is_valid_ip_format` (`gpio_controller.c:39-57`). -/
def isValidIpFormat (ip : Bytes) : Bool :=
  match ipLoop 0 0 (cstring ip) with
  | none => false
  | some (dots, digitCount) => dots = 3 && digitCount > 0 && digitCount ≤ 3

/-- The initial `server_ip` (`gpio_controller.c:31`). -/
def defaultIp : CharArray 16 := ⟨ascii "10.90.36.240", by decide, by decide⟩

/-- `server_ip` after the arguments have been read (`gpio_controller.c:354-368`). -/
def serverIp (argv : List Bytes) : CharArray 16 :=
  match argv with
  | _ :: arg :: _ =>
      if (cstring arg).length < 16 ∧ isValidIpFormat arg then strncpy16 arg else defaultIp
  | _ => defaultIp

/-- The command of `fetch_car_command` with all of its text (`gpio_controller.c:106`). -/
def wgetLine (ip : Bytes) : Bytes :=
  ascii "wget -q --timeout=2 --tries=1 \"http://" ++ ip ++
    ascii ":3000/api/car/movement\" -O -"

/-- `wget_command` (`gpio_controller.c:101-106`): what `snprintf` leaves in the buffer. -/
def wgetCommand (ip : CharArray 16) : CharArray 256 := snprintf 256 (wgetLine ip.text) (by decide)

/-! ### The format -/

/-- One to three digits. -/
structure IsGroup (g : Bytes) : Prop where
  nonempty : 0 < g.length
  short : g.length ≤ 3
  digits : ∀ c ∈ g, isDigit c

/-- Four groups of one to three digits with a dot between them. -/
def DottedQuad (text : Bytes) : Prop :=
  ∃ a b c d, IsGroup a ∧ IsGroup b ∧ IsGroup c ∧ IsGroup d ∧
    text = a ++ dot :: (b ++ dot :: (c ++ dot :: d))

/-- The rest of an address: the digits that are left of the present group, and the groups
after it. -/
def groupsText (g : Bytes) (gs : List Bytes) : Bytes := g ++ gs.flatMap (dot :: ·)

theorem dot_not_digit : ¬ isDigit dot := by decide

/-- A text that starts with a dot has no digits left in the present group. -/
theorem groupsText_eq_dot {g rest : Bytes} {gs : List Bytes} (hg : ∀ c ∈ g, isDigit c)
    (h : dot :: rest = groupsText g gs) :
    g = [] ∧ ∃ g' gs', gs = g' :: gs' ∧ rest = groupsText g' gs' := by
  cases g with
  | cons c g =>
    have hc : dot = c := (List.cons.inj h).1
    subst hc
    exact absurd (hg dot List.mem_cons_self) dot_not_digit
  | nil =>
    cases gs with
    | nil => cases h
    | cons g' gs' => exact ⟨rfl, g', gs', rfl, (List.cons.inj h).2⟩

/-- A text that starts with a digit starts with a digit of the present group. -/
theorem groupsText_eq_digit {c : UInt8} {g rest : Bytes} {gs : List Bytes} (hc : c ≠ dot)
    (h : c :: rest = groupsText g gs) : ∃ g', g = c :: g' ∧ rest = groupsText g' gs := by
  cases g with
  | cons c' g =>
    obtain ⟨rfl, hrest⟩ := List.cons.inj h
    exact ⟨g, rfl, hrest⟩
  | nil =>
    cases gs with
    | nil => cases h
    | cons g' gs' => exact absurd (List.cons.inj h).1 hc

/-- The rest of an address behind `dots` dots and `digitCount` digits: the present group ends with
one to three digits, and so many groups follow that there are three dots. -/
def AddressRest (dots digitCount : Nat) (rest : Bytes) : Prop :=
  ∃ g gs, rest = groupsText g gs ∧ (∀ c ∈ g, isDigit c) ∧ (∀ h ∈ gs, IsGroup h) ∧
    0 < digitCount + g.length ∧ digitCount + g.length ≤ 3 ∧ dots + gs.length = 3

section

variable {dots digitCount : Nat} {rest : Bytes} {c : UInt8}

theorem addressRest_nil :
    AddressRest dots digitCount [] ↔ dots = 3 ∧ 0 < digitCount ∧ digitCount ≤ 3 := by
  constructor
  · rintro ⟨g, gs, heq, -, -, hpos, hle, hdots⟩
    obtain ⟨rfl, hflat⟩ := List.append_eq_nil_iff.mp heq.symm
    cases gs with
    | cons g' gs' => cases hflat
    | nil => exact ⟨hdots, hpos, hle⟩
  · rintro ⟨hdots, hpos, hle⟩
    exact ⟨[], [], rfl, by simp, by simp, hpos, hle, hdots⟩

/-- A dot ends the present group. -/
theorem addressRest_dot :
    AddressRest dots digitCount (dot :: rest) ↔
      (0 < digitCount ∧ digitCount ≤ 3) ∧ AddressRest (dots + 1) 0 rest := by
  constructor
  · rintro ⟨g, gs, heq, hg, hgs, hpos, hle, hdots⟩
    obtain ⟨rfl, g', gs', rfl, rfl⟩ := groupsText_eq_dot hg heq
    have hgroup := hgs g' List.mem_cons_self
    have hpositive := hgroup.nonempty
    have hshort := hgroup.short
    rw [List.length_cons] at hdots
    exact ⟨⟨hpos, hle⟩, g', gs', rfl, hgroup.digits,
      fun h hmem => hgs h (List.mem_cons_of_mem _ hmem), by omega, by omega, by omega⟩
  · rintro ⟨hcount, g, gs, rfl, hg, hgs, hpos, hle, hdots⟩
    refine ⟨[], g :: gs, rfl, by simp, ?_, hcount.1, hcount.2, ?_⟩
    · intro h hmem
      rcases List.mem_cons.mp hmem with rfl | hmem
      · exact ⟨by omega, by omega, hg⟩
      · exact hgs h hmem
    · rw [List.length_cons]
      omega

/-- Anything else has to be a digit of it. -/
theorem addressRest_digit (hdot : c ≠ dot) :
    AddressRest dots digitCount (c :: rest) ↔
      isDigit c = true ∧ AddressRest dots (digitCount + 1) rest := by
  constructor
  · rintro ⟨g, gs, heq, hg, hgs, hpos, hle, hdots⟩
    obtain ⟨g', rfl, rfl⟩ := groupsText_eq_digit hdot heq
    rw [List.length_cons] at hpos hle
    exact ⟨hg c List.mem_cons_self, g', gs, rfl,
      fun c' hmem => hg c' (List.mem_cons_of_mem _ hmem), hgs, by omega, by omega, hdots⟩
  · rintro ⟨hdigit, g, gs, rfl, hg, hgs, hpos, hle, hdots⟩
    have hlength : (c :: g).length = g.length + 1 := List.length_cons
    refine ⟨c :: g, gs, rfl, ?_, hgs, by omega, by omega, hdots⟩
    intro c' hmem
    rcases List.mem_cons.mp hmem with rfl | hmem
    · exact hdigit
    · exact hg c' hmem

end

/-- The loop accepts the rests of addresses. -/
theorem ipLoop_accepts {dots digitCount : Nat} {rest : Bytes} :
    (∃ end', ipLoop dots digitCount rest = some (3, end') ∧ 0 < end' ∧ end' ≤ 3) ↔
      AddressRest dots digitCount rest := by
  induction rest generalizing dots digitCount with
  | nil =>
    rw [addressRest_nil]
    constructor
    · rintro ⟨_, heq, hcount⟩
      obtain ⟨rfl, rfl⟩ := Prod.mk.inj (Option.some.inj heq)
      exact ⟨rfl, hcount⟩
    · rintro ⟨rfl, hcount⟩
      exact ⟨digitCount, rfl, hcount⟩
  | cons c rest ih =>
    by_cases hdot : c = dot
    · subst hdot
      rw [addressRest_dot, ← ih]
      simp only [ipLoop, if_true]
      split
      · next hcount =>
        constructor
        · rintro ⟨_, heq, -⟩
          cases heq
        · rintro ⟨hgroup, -⟩
          omega
      · next hcount => exact (and_iff_right (by omega)).symm
    · rw [addressRest_digit hdot, ← ih]
      simp only [ipLoop, if_neg hdot]
      split
      · next hdigit => exact (and_iff_right hdigit).symm
      · next hdigit =>
        constructor
        · rintro ⟨_, heq, -⟩
          cases heq
        · exact fun h => absurd h.1 hdigit

theorem isValidIpFormat_iff (ip : Bytes) : isValidIpFormat ip ↔ DottedQuad (cstring ip) := by
  have hloop : isValidIpFormat ip ↔
      ∃ end', ipLoop 0 0 (cstring ip) = some (3, end') ∧ 0 < end' ∧ end' ≤ 3 := by
    unfold isValidIpFormat
    split
    · next hnone => simp [hnone]
    · next dots digitCount hsome =>
      rw [hsome]
      simp only [Option.some.injEq, Prod.mk.injEq]
      constructor
      · intro h
        simp only [Bool.and_eq_true, decide_eq_true_eq] at h
        exact ⟨digitCount, ⟨h.1.1, rfl⟩, h.1.2, h.2⟩
      · rintro ⟨end', ⟨rfl, rfl⟩, hpos, hle⟩
        simp [hpos, hle]
  rw [hloop, ipLoop_accepts]
  constructor
  · rintro ⟨a, gs, htext, ha, hgs, hpos, hle, hlength⟩
    obtain ⟨b, c, d, rfl⟩ : ∃ b c d, gs = [b, c, d] :=
      ⟨_, _, _, List.eq_getElem_of_length_eq_three gs (by omega)⟩
    refine ⟨a, b, c, d, ⟨by omega, by omega, ha⟩, hgs b (by simp), hgs c (by simp),
      hgs d (by simp), ?_⟩
    simpa [groupsText] using htext
  · rintro ⟨a, b, c, d, ha, hb, hc, hd, htext⟩
    refine ⟨a, [b, c, d], ?_, ha.digits, ?_, ?_, ?_, rfl⟩
    · simpa [groupsText] using htext
    · simp only [List.mem_cons, List.not_mem_nil, or_false]
      rintro h (rfl | rfl | rfl)
      · exact hb
      · exact hc
      · exact hd
    · simpa using ha.nonempty
    · simpa using ha.short

/-- The longest dotted quad fits into `server_ip`. -/
theorem dottedQuad_length {text : Bytes} (h : DottedQuad text) : text.length ≤ 15 := by
  obtain ⟨a, b, c, d, ha, hb, hc, hd, rfl⟩ := h
  have := ha.short
  have := hb.short
  have := hc.short
  have := hd.short
  simp only [List.length_append, List.length_cons]
  omega

theorem dottedQuad_chars {text : Bytes} (h : DottedQuad text) {c : UInt8} (hc : c ∈ text) :
    isDigit c ∨ c = dot := by
  obtain ⟨a, b, c', d, ha, hb, hc', hd, rfl⟩ := h
  simp only [List.mem_append, List.mem_cons] at hc
  rcases hc with hc | rfl | hc | rfl | hc | rfl | hc
  · exact .inl (ha.digits c hc)
  · exact .inr rfl
  · exact .inl (hb.digits c hc)
  · exact .inr rfl
  · exact .inl (hc'.digits c hc)
  · exact .inr rfl
  · exact .inl (hd.digits c hc)

/-! ### The address and the command -/

/-- A dotted quad is never too long, so the length test refuses nothing else. -/
theorem serverIp_eq (program arg : Bytes) (rest : List Bytes) :
    (DottedQuad (cstring arg) → (serverIp (program :: arg :: rest)).text = cstring arg) ∧
    (¬ DottedQuad (cstring arg) → serverIp (program :: arg :: rest) = defaultIp) := by
  constructor
  · intro h
    have hlength := dottedQuad_length h
    have htaken : (cstring arg).length < 16 ∧ isValidIpFormat arg :=
      ⟨by omega, (isValidIpFormat_iff arg).mpr h⟩
    simp only [serverIp, if_pos htaken]
    exact List.take_of_length_le hlength
  · intro h
    simp only [serverIp]
    rw [if_neg fun htaken => h ((isValidIpFormat_iff arg).mp htaken.2)]

theorem isGroup_of_all {g : Bytes} (h : 0 < g.length ∧ g.length ≤ 3 ∧ g.all isDigit = true) :
    IsGroup g :=
  ⟨h.1, h.2.1, List.all_eq_true.mp h.2.2⟩

theorem defaultIp_dottedQuad : DottedQuad defaultIp.text :=
  ⟨ascii "10", ascii "90", ascii "36", ascii "240", isGroup_of_all (by decide),
    isGroup_of_all (by decide), isGroup_of_all (by decide), isGroup_of_all (by decide), by decide⟩

theorem serverIp_dottedQuad (argv : List Bytes) : DottedQuad (serverIp argv).text := by
  unfold serverIp
  split
  · split
    · next program arg rest htaken =>
      have h := (isValidIpFormat_iff arg).mp htaken.2
      change DottedQuad ((cstring arg).take 15)
      rw [List.take_of_length_le (dottedQuad_length h)]
      exact h
    · exact defaultIp_dottedQuad
  · exact defaultIp_dottedQuad

/-- The buffer holds the whole command. -/
theorem wgetCommand_text (ip : CharArray 16) (h : DottedQuad ip.text) :
    (wgetCommand ip).text = wgetLine ip.text := by
  apply snprintf_text
  · intro hmem
    simp only [wgetLine, List.mem_append] at hmem
    rcases hmem with (hmem | hmem) | hmem
    · exact absurd hmem (by decide)
    · exact ip.noNul hmem
    · exact absurd hmem (by decide)
  · have hlength := dottedQuad_length h
    have hbefore : (ascii "wget -q --timeout=2 --tries=1 \"http://").length = 38 := by decide
    have hafter : (ascii ":3000/api/car/movement\" -O -").length = 28 := by decide
    simp only [wgetLine, List.length_append, hbefore, hafter]
    omega

/-- The first argument replaces `server_ip` exactly when it is a dotted quad; in every case
`server_ip` is at most 15 digits and dots, and the command is the whole `wget` line with it. -/
theorem only_dotted_quad_reaches_shell (program arg : Bytes) (rest : List Bytes) :
    let ip := serverIp (program :: arg :: rest)
    (DottedQuad (cstring arg) → ip.text = cstring arg) ∧
    (¬ DottedQuad (cstring arg) → ip = defaultIp) ∧
    0 ∉ ip.text ∧ ip.text.length ≤ 15 ∧ (∀ c ∈ ip.text, isDigit c ∨ c = dot) ∧
    (wgetCommand ip).text = wgetLine ip.text := by
  have hquad := serverIp_dottedQuad (program :: arg :: rest)
  obtain ⟨htaken, hdefault⟩ := serverIp_eq program arg rest
  refine ⟨htaken, hdefault, CharArray.noNul _, dottedQuad_length hquad, ?_, ?_⟩
  · exact fun c hc => dottedQuad_chars hquad hc
  · exact wgetCommand_text _ hquad

end EmbeddedCar.Gpio
