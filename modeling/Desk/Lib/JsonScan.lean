import Desk.Lib.JsonRound

/-!
# The scanner of JSON texts

`encoding/json` scans a text byte by byte (`Scanner.step`). Where a value ends
does not depend on what follows it, as long as that cannot go on with a number
(`readValue_append`), and a value is scanned alike inside a container
(`run_value`).
-/

namespace Desk

namespace JsonScan

/-! ## Bytes -/

def byte (c : Char) : UInt8 := UInt8.ofNat c.toNat

def quoteByte : UInt8 := 0x22

def backslash : UInt8 := 0x5c

def isSpace (c : UInt8) : Bool := c == byte ' ' || c == byte '\t' || c == byte '\r' || c == byte '\n'

def skipSpace (input : List UInt8) : List UInt8 := input.dropWhile isSpace

def isDigit (c : UInt8) : Bool := decide (byte '0' ≤ c ∧ c ≤ byte '9')

def isHex (c : UInt8) : Bool :=
  isDigit c || decide (byte 'a' ≤ c ∧ c ≤ byte 'f') || decide (byte 'A' ≤ c ∧ c ≤ byte 'F')

/-- A byte that goes on with a number that could end. -/
def isNumeric (c : UInt8) : Bool := isDigit c || c == byte '.' || c == byte 'e' || c == byte 'E'

/-! ## The scanner -/

/-- `scanner.step`. -/
inductive State where
  | beginValueOrEmpty | beginValue | beginStringOrEmpty | beginString | endValue
  | inString | inStringEsc | inStringEscU | inStringEscU1 | inStringEscU12 | inStringEscU123
  | neg | one | zero | dot | dot0 | e | eSign | e0
  | t | tr | tru | f | fa | fal | fals | n | nu | nul
deriving DecidableEq

/-- `parseObjectKey`, `parseObjectValue` and `parseArrayValue`. -/
inductive Level where
  | objectKey | objectValue | arrayValue
deriving DecidableEq

/-- `scanner`; the innermost level is the first. -/
structure Scanner where
  state : State
  levels : List Level
deriving DecidableEq

/-- What a byte is to the scanner: part of a value, the bracket that closes a container, what follows a value that has
ended, or an error. -/
inductive Outcome where
  | scanning (s : Scanner)
  | closed (s : Scanner)
  | ended
  | failed
deriving DecidableEq

namespace Scanner

def goto (s : Scanner) (q : State) : Outcome := .scanning { s with state := q }

def pushParseState (s : Scanner) (l : Level) (q : State) : Outcome :=
  if s.levels.length < Json.maxNesting then .scanning ⟨q, l :: s.levels⟩ else .failed

/-- `stateEndValue` and `stateEndTop`. -/
def endValue (levels : List Level) (c : UInt8) : Outcome :=
  match levels with
  | [] => .ended
  | l :: rest =>
    if isSpace c then .scanning ⟨.endValue, l :: rest⟩
    else match l with
      | .objectKey => if c = byte ':' then .scanning ⟨.beginValue, .objectValue :: rest⟩ else .failed
      | .objectValue =>
        if c = byte ',' then .scanning ⟨.beginString, .objectKey :: rest⟩
        else if c = byte '\x7d' then .closed ⟨.endValue, rest⟩
        else .failed
      | .arrayValue =>
        if c = byte ',' then .scanning ⟨.beginValue, .arrayValue :: rest⟩
        else if c = byte ']' then .closed ⟨.endValue, rest⟩
        else .failed

/-- The state after the first byte of a literal. -/
def beginLiteral (c : UInt8) : Option State :=
  if c = quoteByte then some .inString
  else if c = byte '-' then some .neg
  else if c = byte '0' then some .zero
  else if c = byte 't' then some .t
  else if c = byte 'f' then some .f
  else if c = byte 'n' then some .n
  else if isDigit c then some .one
  else none

def beginValue (s : Scanner) (c : UInt8) : Outcome :=
  if isSpace c then .scanning s
  else if c = byte '\x7b' then s.pushParseState .objectKey .beginStringOrEmpty
  else if c = byte '[' then s.pushParseState .arrayValue .beginValueOrEmpty
  else match beginLiteral c with
    | some q => s.goto q
    | none => .failed

def beginString (s : Scanner) (c : UInt8) : Outcome :=
  if isSpace c then .scanning s else if c = quoteByte then s.goto .inString else .failed

def hexDigit (s : Scanner) (c : UInt8) (q : State) : Outcome := if isHex c then s.goto q else .failed

def letter (s : Scanner) (c : UInt8) (l : Char) (q : State) : Outcome := if c = byte l then s.goto q else .failed

/-- `state0`: after the whole part of a number. -/
def afterWhole (s : Scanner) (c : UInt8) : Outcome :=
  if c = byte '.' then s.goto .dot
  else if c = byte 'e' ∨ c = byte 'E' then s.goto .e
  else endValue s.levels c

def step (s : Scanner) (c : UInt8) : Outcome :=
  match s.state with
  | .beginValueOrEmpty =>
    if isSpace c then .scanning s else if c = byte ']' then endValue s.levels c else s.beginValue c
  | .beginValue => s.beginValue c
  | .beginStringOrEmpty =>
    if isSpace c then .scanning s
    else if c = byte '\x7d' then endValue (.objectValue :: s.levels.tail) c
    else s.beginString c
  | .beginString => s.beginString c
  | .endValue => endValue s.levels c
  | .inString =>
    if c = quoteByte then s.goto .endValue
    else if c = backslash then s.goto .inStringEsc
    else if c < 0x20 then .failed
    else .scanning s
  | .inStringEsc =>
    if c = quoteByte ∨ c = backslash ∨ c = byte '/' ∨ c = byte 'b' ∨ c = byte 'f' ∨ c = byte 'n' ∨ c = byte 'r' ∨
      c = byte 't' then s.goto .inString
    else s.letter c 'u' .inStringEscU
  | .inStringEscU => s.hexDigit c .inStringEscU1
  | .inStringEscU1 => s.hexDigit c .inStringEscU12
  | .inStringEscU12 => s.hexDigit c .inStringEscU123
  | .inStringEscU123 => s.hexDigit c .inString
  | .neg => if c = byte '0' then s.goto .zero else if isDigit c then s.goto .one else .failed
  | .one => if isDigit c then .scanning s else s.afterWhole c
  | .zero => s.afterWhole c
  | .dot => if isDigit c then s.goto .dot0 else .failed
  | .dot0 =>
    if isDigit c then .scanning s
    else if c = byte 'e' ∨ c = byte 'E' then s.goto .e
    else endValue s.levels c
  | .e =>
    if c = byte '+' ∨ c = byte '-' then s.goto .eSign else if isDigit c then s.goto .e0 else .failed
  | .eSign => if isDigit c then s.goto .e0 else .failed
  | .e0 => if isDigit c then .scanning s else endValue s.levels c
  | .t => s.letter c 'r' .tr
  | .tr => s.letter c 'u' .tru
  | .tru => s.letter c 'e' .endValue
  | .f => s.letter c 'a' .fa
  | .fa => s.letter c 'l' .fal
  | .fal => s.letter c 's' .fals
  | .fals => s.letter c 'e' .endValue
  | .n => s.letter c 'u' .nu
  | .nu => s.letter c 'l' .nul
  | .nul => s.letter c 'l' .endValue

/-- `Decoder.readValue`: the bytes of the value, and what follows them. -/
def scan : Scanner → List UInt8 → Option (List UInt8 × List UInt8)
  | s, [] => if s.step (byte ' ') = .ended then some ([], []) else none
  | s, c :: rest => match s.step c with
    | .scanning s' => (scan s' rest).map fun r => (c :: r.1, r.2)
    | .closed s' => if s'.levels = [] then some ([c], rest) else (scan s' rest).map fun r => (c :: r.1, r.2)
    | .ended => some ([], c :: rest)
    | .failed => none

end Scanner

def begin_ : Scanner := ⟨.beginValue, []⟩

def readValue (input : List UInt8) : Option (List UInt8 × List UInt8) := begin_.scan input

/-! ## Where a value ends -/

/-- Nothing that goes on with a number. -/
def Stops (rest : List UInt8) : Prop := ∀ c, rest.head? = some c → isNumeric c = false

/-- A value may end here. -/
def State.ends : State → Bool
  | .endValue | .one | .zero | .dot0 | .e0 => true
  | _ => false

/-- What a byte leaves of the scanner. -/
def Outcome.left : Outcome → Option Scanner
  | .scanning s | .closed s => some s
  | .ended | .failed => none

/-- The outcome with containers open around what is scanned. -/
def Outcome.above (base : List Level) : Outcome → Outcome
  | .scanning s => .scanning ⟨s.state, s.levels ++ base⟩
  | .closed s => .closed ⟨s.state, s.levels ++ base⟩
  | .ended => .ended
  | .failed => .failed

namespace Scanner

/-- A container that may be empty is open. -/
def Fits (s : Scanner) : Prop := s.state = .beginValueOrEmpty ∨ s.state = .beginStringOrEmpty → s.levels ≠ []

theorem endValue_eq_ended {levels : List Level} {c : UInt8} : endValue levels c = .ended ↔ levels = [] := by
  cases levels with
  | nil => simp [endValue]
  | cons l rest =>
    simp only [endValue, reduceCtorEq, iff_false]
    cases l <;> (dsimp only; split_ifs <;> exact nofun)

theorem beginValue_ne_ended (s : Scanner) (c : UInt8) : s.beginValue c ≠ .ended := by
  unfold beginValue pushParseState goto
  cases beginLiteral c <;> (dsimp only; split_ifs <;> exact nofun)

theorem beginString_ne_ended (s : Scanner) (c : UInt8) : s.beginString c ≠ .ended := by
  unfold beginString goto
  split_ifs <;> exact nofun

theorem step_ends {s : Scanner} {c : UInt8} (hs : s.state.ends = true) (hc : isNumeric c = false) :
    s.step c = endValue s.levels c := by
  obtain ⟨q, levels⟩ := s
  simp only [isNumeric, Bool.or_eq_false_iff, beq_eq_false_iff_ne, ne_eq] at hc
  obtain ⟨⟨⟨hd, hdot⟩, he⟩, hE⟩ := hc
  cases q <;> first | exact absurd hs Bool.false_ne_true | simp [step, afterWhole, hd, hdot, he, hE]

theorem ends_of_step {s : Scanner} {c : UInt8} (hs : s.Fits) (h : s.step c = .ended) :
    s.state.ends = true ∧ s.levels = [] := by
  obtain ⟨q, levels⟩ := s
  have hletter : ∀ (l : Char) (q' : State), letter ⟨q, levels⟩ c l q' ≠ .ended := by
    intro l q'
    unfold letter goto
    split_ifs <;> exact nofun
  have hhex : ∀ q' : State, hexDigit ⟨q, levels⟩ c q' ≠ .ended := by
    intro q'
    unfold hexDigit goto
    split_ifs <;> exact nofun
  have hvalue := beginValue_ne_ended ⟨q, levels⟩ c
  have hstring := beginString_ne_ended ⟨q, levels⟩ c
  unfold Fits at hs
  cases q <;> simp only [step, afterWhole, goto] at h hletter hhex hvalue hstring ⊢
  all_goals
    first
    | exact absurd h (hletter _ _)
    | exact absurd h (hhex _)
    | exact absurd h hvalue
    | exact absurd h hstring
    | (split_ifs at h <;> first
        | exact ⟨rfl, endValue_eq_ended.mp h⟩
        | exact absurd h hvalue
        | exact absurd h hstring
        | exact absurd h (hletter _ _)
        | exact absurd (endValue_eq_ended.mp h) (hs (by simp))
        | exact absurd (endValue_eq_ended.mp h) (List.cons_ne_nil _ _))
    | exact ⟨rfl, endValue_eq_ended.mp h⟩

theorem fits_of_ne {s : Scanner} (h : s.state ≠ .beginValueOrEmpty) (h' : s.state ≠ .beginStringOrEmpty) : s.Fits :=
  fun hor => (hor.elim h h').elim

theorem fits_endValue {levels : List Level} {c : UInt8} {s : Scanner} (h : (endValue levels c).left = some s) : s.Fits := by
  cases levels with
  | nil => cases h
  | cons l rest =>
    unfold endValue at h
    dsimp only at h
    cases l <;> (dsimp only at h; split_ifs at h <;> cases h <;> exact fits_of_ne (by simp) (by simp))

theorem beginLiteral_fits {c : UInt8} {q : State} (h : beginLiteral c = some q) (levels : List Level) :
    (Scanner.mk q levels).Fits := by
  unfold beginLiteral at h
  split_ifs at h <;> cases h <;> exact fits_of_ne (by simp) (by simp)

theorem fits_beginValue {s s' : Scanner} {c : UInt8} (hs : s.Fits) (h : (s.beginValue c).left = some s') : s'.Fits := by
  unfold beginValue pushParseState goto at h
  cases hq : beginLiteral c with
  | none =>
    rw [hq] at h
    split_ifs at h <;> cases h
    · exact hs
    all_goals exact fun _ => List.cons_ne_nil _ _
  | some q =>
    rw [hq] at h
    split_ifs at h <;> cases h
    · exact hs
    · exact fun _ => List.cons_ne_nil _ _
    · exact fun _ => List.cons_ne_nil _ _
    · exact beginLiteral_fits hq _

theorem fits_step {s s' : Scanner} {c : UInt8} (hs : s.Fits) (h : (s.step c).left = some s') : s'.Fits := by
  obtain ⟨q, levels⟩ := s
  cases q <;> simp only [step, afterWhole, letter, hexDigit, beginString, goto] at h
  all_goals
    first
    | exact fits_beginValue hs h
    | exact fits_endValue h
    | (split_ifs at h <;> first
        | exact fits_beginValue hs h
        | exact fits_endValue h
        | (cases h <;> first | exact hs | exact fits_of_ne (by simp) (by simp)))

theorem closed_state {s s' : Scanner} {c : UInt8} (h : s.step c = .closed s') : s'.state = .endValue := by
  have hend : ∀ {levels : List Level}, endValue levels c = .closed s' → s'.state = .endValue := by
    intro levels h
    cases levels with
    | nil => cases h
    | cons l rest =>
      unfold endValue at h
      dsimp only at h
      cases l <;> (dsimp only at h; split_ifs at h <;> cases h <;> rfl)
  have hvalue : s.beginValue c ≠ .closed s' := by
    unfold beginValue pushParseState goto
    cases beginLiteral c <;> (dsimp only; split_ifs <;> exact nofun)
  obtain ⟨q, levels⟩ := s
  cases q <;> simp only [step, afterWhole, letter, hexDigit, beginString, goto] at h hvalue
  all_goals
    first
    | exact absurd h hvalue
    | exact hend h
    | (split_ifs at h <;> first
        | exact hend h
        | exact absurd h hvalue)

/-- A value ends in front of everything that cannot go on with it. -/
theorem scan_stops {s : Scanner} {input v rest rest' : List UInt8} (hs : s.Fits) (h : s.scan input = some (v, rest))
    (hr : Stops rest') : s.scan (v ++ rest') = some (v, rest') := by
  have hended : ∀ {s : Scanner} {c : UInt8}, s.Fits → s.step c = .ended → s.scan rest' = some ([], rest') := by
    intro s c hs h
    obtain ⟨hends, hlevels⟩ := ends_of_step hs h
    cases rest' with
    | nil => rw [scan, if_pos (by rw [step_ends hends rfl, endValue_eq_ended, hlevels])]
    | cons d rest' =>
      have hd : s.step d = .ended := by rw [step_ends hends (hr d rfl), endValue_eq_ended, hlevels]
      rw [scan, hd]
  induction input generalizing s v with
  | nil =>
    rw [scan] at h
    split at h
    · rename_i hstep
      cases h
      exact hended hs hstep
    · cases h
  | cons c input ih =>
    rw [scan] at h
    cases hstep : s.step c with
    | scanning s' =>
      rw [hstep] at h
      obtain ⟨⟨v', r⟩, hscan, hv⟩ := Option.map_eq_some_iff.mp h
      obtain ⟨rfl, rfl⟩ := Prod.mk.inj hv
      have hfits : s'.Fits := fits_step (c := c) hs (by rw [hstep]; rfl)
      rw [List.cons_append, scan, hstep]
      dsimp only
      rw [ih hfits hscan]
      rfl
    | closed s' =>
      rw [hstep] at h
      dsimp only at h
      split at h
      · rename_i hlevels
        cases h
        rw [List.singleton_append, scan, hstep]
        exact if_pos hlevels
      · rename_i hlevels
        obtain ⟨⟨v', r⟩, hscan, hv⟩ := Option.map_eq_some_iff.mp h
        obtain ⟨rfl, rfl⟩ := Prod.mk.inj hv
        have hfits : s'.Fits := fits_step (c := c) hs (by rw [hstep]; rfl)
        rw [List.cons_append, scan, hstep]
        dsimp only
        rw [if_neg hlevels, ih hfits hscan]
        rfl
    | ended =>
      rw [hstep] at h
      cases h
      exact hended hs hstep
    | failed =>
      rw [hstep] at h
      cases h

theorem scan_eq {s : Scanner} {input v rest : List UInt8} (h : s.scan input = some (v, rest)) : input = v ++ rest := by
  induction input generalizing s v with
  | nil =>
    rw [scan] at h
    split at h <;> cases h
    rfl
  | cons c input ih =>
    rw [scan] at h
    split at h
    · obtain ⟨⟨v', r⟩, hscan, hv⟩ := Option.map_eq_some_iff.mp h
      cases hv
      exact congrArg (c :: ·) (ih hscan)
    · split at h
      · cases h
        rfl
      · obtain ⟨⟨v', r⟩, hscan, hv⟩ := Option.map_eq_some_iff.mp h
        cases hv
        exact congrArg (c :: ·) (ih hscan)
    · cases h
      rfl
    · cases h

/-! ## Scanning inside a container -/

/-- The scanner after bytes that end nothing. -/
def run : Scanner → List UInt8 → Option Scanner
  | s, [] => some s
  | s, c :: rest => match s.step c with
    | .scanning s' => run s' rest
    | .closed s' => if s'.levels = [] then none else run s' rest
    | .ended | .failed => none

theorem run_append (s : Scanner) (v w : List UInt8) : s.run (v ++ w) = (s.run v).bind fun s' => s'.run w := by
  induction v generalizing s with
  | nil => rfl
  | cons c v ih =>
    rw [List.cons_append, run, run]
    split
    · exact ih _
    · split
      · rfl
      · exact ih _
    · rfl
    · rfl

theorem scan_run {s s' : Scanner} {v : List UInt8} (h : s.run v = some s') (rest : List UInt8) :
    s.scan (v ++ rest) = (s'.scan rest).map fun r => (v ++ r.1, r.2) := by
  induction v generalizing s with
  | nil =>
    cases h
    rw [List.nil_append]
    cases s'.scan rest <;> rfl
  | cons c v ih =>
    rw [run] at h
    rw [List.cons_append, scan]
    cases hstep : s.step c with
    | scanning s₁ =>
      rw [hstep] at h
      dsimp only
      rw [ih h, Option.map_map]
      rfl
    | closed s₁ =>
      rw [hstep] at h
      dsimp only at h ⊢
      split at h
      · cases h
      · rename_i hne
        rw [if_neg hne, ih h, Option.map_map]
        rfl
    | ended =>
      rw [hstep] at h
      cases h
    | failed =>
      rw [hstep] at h
      cases h

/-- The scanner with containers open around what it scans. -/
def above (base : List Level) (s : Scanner) : Scanner := ⟨s.state, s.levels ++ base⟩

@[simp] theorem over_state (base : List Level) (s : Scanner) : (s.above base).state = s.state := rfl

@[simp] theorem over_levels (base : List Level) (s : Scanner) : (s.above base).levels = s.levels ++ base := rfl

theorem endValue_over {levels : List Level} {c : UInt8} (base : List Level) (h : levels ≠ []) :
    endValue (levels ++ base) c = (endValue levels c).above base := by
  cases levels with
  | nil => exact absurd rfl h
  | cons l rest =>
    rw [List.cons_append]
    unfold endValue
    dsimp only
    cases l <;> (dsimp only; split_ifs <;> rfl)

theorem pushParseState_over (base : List Level) (s : Scanner) (l : Level) (q : State) :
    (s.above base).pushParseState l q = (s.pushParseState l q).above base ∨ (s.above base).pushParseState l q = .failed := by
  unfold pushParseState
  rw [over_levels, List.length_append]
  by_cases hdeep : s.levels.length + base.length < Json.maxNesting
  · have hless : s.levels.length < Json.maxNesting := by omega
    rw [if_pos hdeep, if_pos hless]
    exact .inl rfl
  · exact .inr (if_neg hdeep)

theorem beginValue_over (base : List Level) (s : Scanner) (c : UInt8) :
    (s.above base).beginValue c = (s.beginValue c).above base ∨ (s.above base).beginValue c = .failed := by
  have hpush := pushParseState_over base s
  unfold beginValue
  cases beginLiteral c <;> split_ifs
  all_goals first | with_reducible exact hpush _ _ | exact .inl rfl

/-- A byte does the same inside containers, as long as they do not stand too deep. -/
theorem step_over (base : List Level) {s : Scanner} {c : UInt8} (hs : s.Fits) (hended : s.step c ≠ .ended) :
    (s.above base).step c = (s.step c).above base ∨ (s.above base).step c = .failed := by
  obtain ⟨q, levels⟩ := s
  have hvalue := beginValue_over base ⟨q, levels⟩ c
  have hend : endValue levels c ≠ .ended → endValue (levels ++ base) c = (endValue levels c).above base := fun hne =>
    endValue_over base fun hnil => hne (endValue_eq_ended.mpr hnil)
  have hopen : q = .beginStringOrEmpty → levels ++ base ≠ [] ∧ (levels ++ base).tail = levels.tail ++ base := by
    rintro rfl
    cases levels with
    | nil => exact absurd rfl (hs (.inr rfl))
    | cons l rest => exact ⟨List.cons_ne_nil _ _, rfl⟩
  cases q <;>
    simp only [step, above, afterWhole, letter, hexDigit, beginString, goto] at hended hvalue ⊢
  all_goals
    first
    | exact hvalue
    | exact .inl (hend hended)
    | (split_ifs at hended ⊢ <;> first
        | exact .inl rfl
        | exact hvalue
        | exact .inl (hend hended)
        | (rw [(hopen rfl).2, ← List.cons_append]; exact .inl (endValue_over base (List.cons_ne_nil _ _))))

end Scanner

/-! ## Whole values -/

/-- The bytes of one value, from its first byte to its last. -/
def IsValue (v : List UInt8) : Prop := readValue v = some (v, []) ∧ ∀ c, v.head? = some c → isSpace c = false

instance (v : List UInt8) : Decidable (IsValue v) :=
  decidable_of_iff (readValue v = some (v, []) ∧ v.head?.all (fun c => !isSpace c) = true) <| by
    rw [IsValue, Option.all_eq_true]
    simp only [Bool.not_eq_true']

theorem fits_begin : begin_.Fits := Scanner.fits_of_ne (by simp [begin_]) (by simp [begin_])

theorem readValue_append {v rest : List UInt8} (h : IsValue v) (hr : Stops rest) : readValue (v ++ rest) = some (v, rest) :=
  Scanner.scan_stops fits_begin h.1 hr

theorem stops_nil : Stops [] := nofun

theorem stops_cons {c : UInt8} (h : isNumeric c = false) (rest : List UInt8) : Stops (c :: rest) := by
  intro d hd
  cases hd
  exact h

theorem ne_nil_of_read {input v rest : List UInt8} (h : readValue input = some (v, rest)) : v ≠ [] := by
  rintro rfl
  cases input with
  | nil => cases h
  | cons c input =>
    rw [readValue, Scanner.scan] at h
    have hne := Scanner.beginValue_ne_ended begin_ c
    change (match begin_.beginValue c with | .scanning s' => _ | .closed s' => _ | .ended => _ | .failed => _) = _ at h
    split at h
    · obtain ⟨_, _, heq⟩ := Option.map_eq_some_iff.mp h
      cases heq
    · split at h
      · cases h
      · obtain ⟨_, _, heq⟩ := Option.map_eq_some_iff.mp h
        cases heq
    · exact hne (by assumption)
    · cases h

theorem head_skipSpace {input : List UInt8} {c : UInt8} (h : (skipSpace input).head? = some c) : isSpace c = false := by
  rw [skipSpace] at h
  have := List.head?_dropWhile_not isSpace input
  rw [h] at this
  simpa using this

/-- What is read of a text is a whole value. -/
theorem isValue_of_read {input v rest : List UInt8} (h : readValue (skipSpace input) = some (v, rest)) :
    IsValue v ∧ skipSpace input = v ++ rest := by
  have htext := Scanner.scan_eq h
  have hread := Scanner.scan_stops fits_begin h stops_nil
  rw [List.append_nil] at hread
  refine ⟨⟨hread, fun c hc => ?_⟩, htext⟩
  have hhead : (skipSpace input).head? = some c := by
    rw [htext, List.head?_append_of_ne_nil _ (ne_nil_of_read h)]
    exact hc
  exact head_skipSpace hhead

/-! ## String literals -/

def IsLiteral (l : List UInt8) : Prop := IsValue l ∧ l.head? = some quoteByte

def State.isString : State → Bool
  | .inString | .inStringEsc | .inStringEscU | .inStringEscU1 | .inStringEscU12 | .inStringEscU123 => true
  | _ => false

namespace Scanner

/-- What a byte of a string does not depend on the containers around it. -/
theorem step_string {q : State} (hq : q.isString = true) (levels : List Level) (c : UInt8) :
    (∃ q', (q'.isString = true ∨ q' = .endValue) ∧ step ⟨q, []⟩ c = .scanning ⟨q', []⟩ ∧
      step ⟨q, levels⟩ c = .scanning ⟨q', levels⟩) ∨ step ⟨q, []⟩ c = .failed := by
  cases q <;> first | exact absurd hq Bool.false_ne_true | skip
  all_goals
    simp only [step, letter, hexDigit, goto]
    split_ifs <;> first | exact .inr rfl | exact .inl ⟨_, .inl rfl, rfl, rfl⟩ | exact .inl ⟨_, .inr rfl, rfl, rfl⟩

theorem run_string {q : State} (hq : q.isString = true) (levels : List Level) {body : List UInt8}
    (h : scan ⟨q, []⟩ body = some (body, [])) : run ⟨q, levels⟩ body = some ⟨.endValue, levels⟩ := by
  induction body generalizing q with
  | nil =>
    rw [scan] at h
    rcases step_string hq [] (byte ' ') with ⟨q', -, hstep, -⟩ | hstep
    · rw [hstep] at h
      cases h
    · rw [hstep] at h
      cases h
  | cons c body ih =>
    rw [scan] at h
    rcases step_string hq levels c with ⟨q', hor, hstep, hlevels⟩ | hstep
    · rw [hstep] at h
      obtain ⟨⟨body', r⟩, hscan, heq⟩ := Option.map_eq_some_iff.mp h
      simp only [Prod.mk.injEq, List.cons.injEq, true_and] at heq
      obtain ⟨rfl, rfl⟩ := heq
      rw [run, hlevels]
      rcases hor with hq' | rfl
      · exact ih hq' hscan
      · -- The closing quote ends the literal, so nothing is left of it.
        cases body' with
        | nil => rfl
        | cons d more =>
          rw [scan] at hscan
          cases hscan
    · rw [hstep] at h
      cases h

/-- A literal is read wherever a string may begin. -/
theorem run_literal {l : List UInt8} (h : IsLiteral l) (levels : List Level) {q : State}
    (hq : q = .beginValue ∨ q = .beginString ∨ q = .beginStringOrEmpty) : run ⟨q, levels⟩ l = some ⟨.endValue, levels⟩ := by
  obtain ⟨⟨hread, -⟩, hhead⟩ := h
  cases l with
  | nil => cases hhead
  | cons c body =>
    cases hhead
    have hbegin : begin_.step quoteByte = .scanning ⟨.inString, []⟩ := rfl
    have hstep : step ⟨q, levels⟩ quoteByte = .scanning ⟨.inString, levels⟩ := by
      rcases hq with rfl | rfl | rfl <;> rfl
    rw [readValue, scan, hbegin] at hread
    obtain ⟨⟨body', r⟩, hscan, heq⟩ := Option.map_eq_some_iff.mp hread
    simp only [Prod.mk.injEq, List.cons.injEq, true_and] at heq
    obtain ⟨rfl, rfl⟩ := heq
    rw [run, hstep]
    exact run_string rfl levels hscan

/-- Spaces change nothing where a value, a name or what follows a value is awaited. -/
theorem run_spaces {s : Scanner} (hs : s.state = .beginValue ∨ s.state = .beginString ∨ s.state = .beginStringOrEmpty ∨
    s.state = .endValue ∧ s.levels ≠ []) {l : List UInt8} (hl : l.all isSpace = true) : s.run l = some s := by
  induction l with
  | nil => rfl
  | cons c l ih =>
    rw [List.all_cons, Bool.and_eq_true] at hl
    have hstep : s.step c = .scanning s := by
      obtain ⟨q, levels⟩ := s
      rcases hs with rfl | rfl | rfl | ⟨rfl, hne⟩
      · exact if_pos hl.1
      · exact if_pos hl.1
      · exact if_pos hl.1
      · cases levels with
        | nil => exact absurd rfl hne
        | cons l rest => exact if_pos hl.1
    rw [run, hstep]
    exact ih hl.2

end Scanner

/-! ## What a string literal says -/

/-- `utf8.DecodeRune`. -/
def decodeRune (raw : List UInt8) : Char × Nat :=
  match ByteArray.utf8DecodeChar? ⟨raw.toArray⟩ 0 with
  | some c => (c, c.utf8Size)
  | none => ('\ufffd', 1)

/-- The characters of a text after its first `skip` bytes. -/
def runes : Nat → List UInt8 → List Char
  | _, [] => []
  | skip + 1, _ :: rest => runes skip rest
  | 0, b :: rest => (decodeRune (b :: rest)).1 :: runes ((decodeRune (b :: rest)).2 - 1) rest

/-- The text of a string literal. -/
def unquote (literal : List UInt8) : Option String :=
  (Json.readString (runes 0 literal.tail)).map fun r => String.ofList r.1

/-! ## Writing strings -/

/-- A character inside a string, without HTML escaping. -/
def escapeChar (c : Char) : List Char := if c = '<' ∨ c = '>' ∨ c = '&' then [c] else Json.escapeChar c

/-- A string as an encoder with `SetEscapeHTML(false)` writes it. -/
def encodeString (s : String) : List UInt8 := bytesOf (String.ofList (Json.quote escapeChar s))

theorem runes_skip {l : List UInt8} {k : Nat} (hk : l.length = k) (rest : List UInt8) : runes k (l ++ rest) = runes 0 rest := by
  induction l generalizing k with
  | nil =>
    subst hk
    rfl
  | cons b l ih =>
    subst hk
    exact ih rfl

/-- Characters are read back from their encoding. -/
theorem runes_encode (c : Char) (rest : List UInt8) : runes 0 (String.utf8EncodeChar c ++ rest) = c :: runes 0 rest := by
  have hdecode : decodeRune (String.utf8EncodeChar c ++ rest) = (c, c.utf8Size) := by
    have h := ByteArray.utf8DecodeChar?_utf8EncodeChar_append (b := ⟨rest.toArray⟩) (c := c)
    have harray : (String.utf8EncodeChar c).toByteArray ++ ⟨rest.toArray⟩ =
        ⟨(String.utf8EncodeChar c ++ rest).toArray⟩ := by
      apply ByteArray.ext
      simp
    rw [harray] at h
    rw [decodeRune, h]
  have hlength := String.length_utf8EncodeChar c
  cases hl : String.utf8EncodeChar c with
  | nil =>
    rw [hl] at hlength
    exact absurd hlength.symm (Nat.ne_of_gt c.utf8Size_pos)
  | cons b l =>
    rw [hl] at hdecode hlength
    rw [List.cons_append] at hdecode ⊢
    rw [runes, hdecode, runes_skip (by rw [← hlength]; rfl)]

theorem runes_encoded (l : List Char) : runes 0 (l.flatMap String.utf8EncodeChar) = l := by
  induction l with
  | nil => rfl
  | cons c l ih => rw [List.flatMap_cons, runes_encode, ih]

theorem runes_bytesOf (s : String) : runes 0 (bytesOf s) = s.toList := by
  have h := runes_encoded s.toList
  rw [← Json.bytesOf_ofList, String.ofList_toList] at h
  exact h

theorem readString_escaped (l rest : List Char) :
    Json.readString (l.flatMap escapeChar ++ Char.ofNat 0x22 :: rest) = some (l, rest) := by
  induction l with
  | nil => simp [Json.readString]
  | cons c l ih =>
    rw [List.flatMap_cons, List.append_assoc]
    by_cases hc : c = '<' ∨ c = '>' ∨ c = '&'
    · rw [escapeChar, if_pos hc]
      obtain rfl | rfl | rfl := hc <;> simp [Json.readString, ih]
    · rw [escapeChar, if_neg hc]
      refine Json.readString_escapeChar c ?_ ih
      cases l with
      | nil => exact Json.notHalf_quote rest
      | cons d l =>
        rw [List.flatMap_cons, List.append_assoc]
        by_cases hd : d = '<' ∨ d = '>' ∨ d = '&'
        · rw [escapeChar, if_pos hd]
          intro _ _ _ _ _ h
          obtain rfl | rfl | rfl := hd <;> exact absurd (List.head_eq_of_cons_eq h) (by decide)
        · rw [escapeChar, if_neg hd]
          exact Json.notHalf_escapeChar d _

/-- What is written of a string is read back. -/
theorem unquote_encodeString (s : String) : unquote (encodeString s) = some s := by
  have hbytes : (encodeString s).tail =
      (s.toList.flatMap escapeChar ++ [Char.ofNat 0x22]).flatMap String.utf8EncodeChar := by
    rw [encodeString, Json.bytesOf_ofList, Json.quote, List.flatMap_cons]
    rfl
  rw [unquote, hbytes, runes_encoded, readString_escaped, Option.map_some, String.ofList_toList]

/-- Bytes that are part of a string. -/
def Inside (l : List UInt8) : Prop := ∀ levels, Scanner.run ⟨.inString, levels⟩ l = some ⟨.inString, levels⟩

theorem inside_append {l l' : List UInt8} (h : Inside l) (h' : Inside l') : Inside (l ++ l') := fun levels => by
  rw [Scanner.run_append, h levels]
  exact h' levels

theorem inside_plain {l : List UInt8} (h : ∀ b ∈ l, b ≠ quoteByte ∧ b ≠ backslash ∧ ¬ b < 0x20) : Inside l := by
  intro levels
  induction l with
  | nil => rfl
  | cons b l ih =>
    obtain ⟨hquote, hback, hvisible⟩ := h b List.mem_cons_self
    have hstep : Scanner.step ⟨.inString, levels⟩ b = .scanning ⟨.inString, levels⟩ := by
      rw [Scanner.step]
      dsimp only
      rw [if_neg hquote, if_neg hback, if_neg hvisible]
    rw [Scanner.run, hstep]
    exact ih fun b hb => h b (List.mem_cons_of_mem _ hb)

/-- The bytes of a character from the space on are those of the character itself, or no ASCII. -/
theorem encode_plain {c : Char} (hvisible : 0x20 ≤ c.toNat) (hquote : c ≠ Char.ofNat 0x22) (hback : c ≠ Char.ofNat 0x5c) :
    Inside (String.utf8EncodeChar c) := by
  apply inside_plain
  have hv : c.val.toNat = c.toNat := rfl
  have hq : c.toNat ≠ 0x22 := fun h => hquote (Char.toNat_inj.mp h)
  have hb : c.toNat ≠ 0x5c := fun h => hback (Char.toNat_inj.mp h)
  have hbyte : ∀ n, 0x20 ≤ n % 256 → n % 256 ≠ 0x22 → n % 256 ≠ 0x5c →
      UInt8.ofNat n ≠ quoteByte ∧ UInt8.ofNat n ≠ backslash ∧ ¬ UInt8.ofNat n < 0x20 := by
    intro n h20 h22 h5c
    refine ⟨fun h => h22 ?_, fun h => h5c ?_, fun h => ?_⟩
    · have := congrArg UInt8.toNat h
      rwa [UInt8.toNat_ofNat'] at this
    · have := congrArg UInt8.toNat h
      rwa [UInt8.toNat_ofNat'] at this
    · rw [UInt8.lt_iff_toNat_lt, UInt8.toNat_ofNat'] at h
      exact absurd h (Nat.not_lt.mpr h20)
  have hvalid := c.valid
  unfold String.utf8EncodeChar
  dsimp only
  split_ifs <;> simp only [List.mem_cons, List.not_mem_nil, or_false]
  · rintro b rfl
    exact hbyte _ (by omega) (by omega) (by omega)
  · rintro b (rfl | rfl) <;> exact hbyte _ (by omega) (by omega) (by omega)
  · rintro b (rfl | rfl | rfl) <;> exact hbyte _ (by omega) (by omega) (by omega)
  · rintro b (rfl | rfl | rfl | rfl) <;> exact hbyte _ (by omega) (by omega) (by omega)

theorem inside_hex4 (n : Nat) :
    Inside (('\\' :: 'u' :: Json.hex4 n).flatMap String.utf8EncodeChar) := by
  have hbytes : ∀ d < 16, String.utf8EncodeChar (Desk.hexDigit d) = [byte (Desk.hexDigit d)] := by decide
  have hhex : ∀ d < 16, isHex (byte (Desk.hexDigit d)) = true := by decide
  have hmod : ∀ m, m % 16 < 16 := fun m => Nat.mod_lt m (by decide)
  intro levels
  simp only [Json.hex4, List.flatMap_cons, List.flatMap_nil, hbytes _ (hmod _), List.append_nil, List.singleton_append]
  show Scanner.run ⟨.inStringEscU, levels⟩ [_, _, _, _] = _
  simp only [Scanner.run, Scanner.step, Scanner.hexDigit, hhex _ (hmod _), if_true, Scanner.goto]

theorem inside_escapeChar (c : Char) : Inside ((escapeChar c).flatMap String.utf8EncodeChar) := by
  by_cases hc : c = '<' ∨ c = '>' ∨ c = '&'
  · rw [escapeChar, if_pos hc]
    obtain rfl | rfl | rfl := hc <;> exact fun _ => rfl
  · rw [escapeChar, if_neg hc]
    obtain ⟨h0, he⟩ | ⟨-, he⟩ | ⟨-, he⟩ | ⟨-, he⟩ | ⟨-, he⟩ | ⟨-, he⟩ | ⟨hlt, he⟩ | ⟨hq, hb, h20, he⟩ := Json.escapeChar_cases c
    all_goals rw [he]
    · obtain rfl | rfl := h0 <;> exact fun _ => rfl
    · exact fun _ => rfl
    · exact fun _ => rfl
    · exact fun _ => rfl
    · exact fun _ => rfl
    · exact fun _ => rfl
    · exact inside_hex4 _
    · rw [List.flatMap_cons, List.flatMap_nil, List.append_nil]
      exact encode_plain h20 hq hb

theorem isLiteral_of_inside {l : List UInt8} (h : Inside l) : IsLiteral (quoteByte :: (l ++ [quoteByte])) := by
  have hrun : begin_.run (quoteByte :: l) = some ⟨.inString, []⟩ := h []
  refine ⟨⟨?_, fun c hc => by cases hc; rfl⟩, rfl⟩
  rw [readValue, ← List.cons_append, Scanner.scan_run hrun]
  rfl

theorem isLiteral_encodeString (s : String) : IsLiteral (encodeString s) := by
  have hbytes : encodeString s =
      quoteByte :: ((s.toList.flatMap escapeChar).flatMap String.utf8EncodeChar ++ [quoteByte]) := by
    rw [encodeString, Json.bytesOf_ofList, Json.quote, List.flatMap_cons, List.flatMap_append]
    rfl
  have hinside : Inside ((s.toList.flatMap escapeChar).flatMap String.utf8EncodeChar) := by
    generalize s.toList = l
    induction l with
    | nil => exact fun _ => rfl
    | cons c l ih =>
      rw [List.flatMap_cons, List.flatMap_append]
      exact inside_append (inside_escapeChar c) ih
  rw [hbytes]
  exact isLiteral_of_inside hinside

end JsonScan

end Desk
