import Mathlib.Data.List.Sort
import Desk.Lib.JsonParse
import Desk.Packs.Pointers

/-!
# The text of a document

The desk's own reading of a JSON text: where each value and each member stands,
which names are repeated, and what the text says. An edit splices the text at
the places the index gives; the gate compares the reading with `JSON.parse`.

The scanner reads what is left of the text and keeps its position. A value
lists the members of an object in the order of the text.
-/

namespace Desk

namespace DocumentText

/-- What the language provides: `Number`, `Number.isNaN`, `===` of numbers and what `JSON.parse` throws. -/
structure Engine (ν : Type) where
  number : Units → ν
  isNaN : ν → Bool
  same : ν → ν → Bool
  syntaxError : Units → Units
  number_literal : ∀ {l : Units}, numberForm l = true → isNaN (number l) = false
  same_self : ∀ {n : ν}, isNaN n = false → same n n = true

/-- Where one value, and the member that carries it, stand in the text. -/
structure Span where
  pointer : Units
  valueStart : Nat
  valueEnd : Nat
  memberStart : Nat
  memberEnd : Nat
  deriving DecidableEq

structure DuplicateMember where
  pointer : Units
  name : Units
  deriving DecidableEq

/-- `reading` is `value`, or `parseError`; `spans` lists a map in the order of its insertions. -/
structure DocumentIndex (ν : Type) where
  spans : List Span
  duplicates : List DuplicateMember
  reading : Except Units (Value ν)

/-- The escaping is that of `pointers.ts`. -/
def pointerOf (parts : List Units) : Units := Pointers.pointer parts

/-! ## The scanner -/

/-- `at`, with what is left of the text there, and what is recorded so far. -/
structure Scanner where
  position : Nat
  rest : Units
  spans : List Span
  duplicates : List DuplicateMember

abbrev Scan : Type → Type := EStateM Units Scanner

def fail {α : Type} (why : String) : Scan α := do throw (wordText (why ++ " at byte " ++ toString (← get).position))

def advance (n : Nat) : Scan Unit := modify fun s => { s with position := s.position + n, rest := s.rest.drop n }

/-- `text[at]` -/
def char : Scan (Option UInt16) := do return (← get).rest.head?

def skip : Scan Unit := do advance ((← get).rest.takeWhile isLayout).length

/-- How far the loop over a string goes, and whether a quote ends it. -/
def stringEnd : Units → Nat × Bool
  | [] => (0, false)
  | c :: rest =>
    if c = escapeUnit then
      match rest with
      | [] => (2, false)
      | _ :: rest => ((stringEnd rest).1 + 2, (stringEnd rest).2)
    else if c = quoteUnit then (1, true)
    else ((stringEnd rest).1 + 1, (stringEnd rest).2)

/-- The units that the loop over a number takes. -/
def numberRun : Units → Units
  | [] => []
  | c :: rest => if c = unit '-' then c :: rest.takeWhile isNumeric else (c :: rest).takeWhile isNumeric

/-- The first occurrence wins. -/
def recordSpan (spans : List Span) (span : Span) : List Span :=
  if spans.any (fun s => s.pointer == span.pointer) then spans else spans ++ [span]

def record (path : List Units) (valueStart memberStart : Nat) : Scan Unit := modify fun s =>
  { s with spans := recordSpan s.spans ⟨pointerOf path, valueStart, s.position, memberStart, s.position⟩ }

section
variable {ν : Type} (e : Engine ν)

def literal (word : String) (value : Value ν) : Scan (Value ν) := do
  if startsWord word (← get).rest then
    advance word.length
    return value
  else fail "expected a value"

def readString : Scan Units := do
  let start ← get
  if start.rest.head? ≠ some quoteUnit then fail "expected a string"
  advance 1
  advance (stringEnd start.rest.tail).1
  if (stringEnd start.rest.tail).2 then
    let slice := start.rest.take (1 + (stringEnd start.rest.tail).1)
    match JsonParse.parse e.number slice with
    | some (.str s) => return s
    | _ => throw (e.syntaxError slice)
  else fail "the string does not end"

def readNumber : Scan ν := do
  let raw := numberRun (← get).rest
  advance raw.length
  if raw = [] ∨ e.isNaN (e.number raw) = true then fail "expected a number"
  return e.number raw

/-- A member after its name is read: the first of a name is kept, and the names kept are those seen. -/
def keepMember (path : List Units) (object : List (Units × Value ν)) (name : Units) (member : Value ν) :
    Scan (List (Units × Value ν)) :=
  if object.any (fun m => m.1 == name) then do
    modify fun s => { s with duplicates := s.duplicates ++ [⟨pointerOf (path ++ [name]), name⟩] }
    return object
  else return object ++ [(name, member)]

/-- The value that starts with `c`; `members` and `items` read on after the bracket of a container. -/
def readHere (members : Scan (List (Units × Value ν))) (items : Scan (List (Value ν))) (c : Option UInt16) :
    Scan (Value ν) := do
  if c = some (unit '\x7b') then
    advance 1
    skip
    if (← char) = some (unit '\x7d') then
      advance 1
      return .obj []
    else return .obj (← members)
  else if c = some (unit '[') then
    advance 1
    skip
    if (← char) = some (unit ']') then
      advance 1
      return .arr []
    else return .arr (← items)
  else if c = some quoteUnit then return .str (← readString e)
  else if c = some (unit 't') then literal "true" (.bool true)
  else if c = some (unit 'f') then literal "false" (.bool false)
  else if c = some (unit 'n') then literal "null" .null
  else return .num (← readNumber e)

mutual

/-- The fuel bounds the calls that are open. -/
def readValue : Nat → List Units → Nat → Scan (Value ν)
  | 0, _, _ => fail "the scanner stopped"
  | fuel + 1, path, memberStart => do
    skip
    let valueStart := (← get).position
    let value ← readHere e (readMembers fuel path []) (readItems fuel path []) (← char)
    record path valueStart memberStart
    return value

def readMembers : Nat → List Units → List (Units × Value ν) → Scan (List (Units × Value ν))
  | 0, _, _ => fail "the scanner stopped"
  | fuel + 1, path, object => do
    skip
    let nameStart := (← get).position
    let name ← readString e
    skip
    if (← char) ≠ some (unit ':') then fail "expected a member separator"
    advance 1
    let member ← readValue fuel (path ++ [name]) nameStart
    let object ← keepMember path object name member
    skip
    let c ← char
    if c = some (unit ',') then do
      advance 1
      readMembers fuel path object
    else if c = some (unit '\x7d') then do
      advance 1
      return object
    else fail "expected a comma or the end of the object"

def readItems : Nat → List Units → List (Value ν) → Scan (List (Value ν))
  | 0, _, _ => fail "the scanner stopped"
  | fuel + 1, path, array => do
    skip
    let elementStart := (← get).position
    let v ← readValue fuel (path ++ [natText array.length]) elementStart
    skip
    let c ← char
    if c = some (unit ',') then do
      advance 1
      readItems fuel path (array ++ [v])
    else if c = some (unit ']') then do
      advance 1
      return array ++ [v]
    else fail "expected a comma or the end of the array"

end

def readDocument (text : Units) : Scan (Value ν) := do
  skip
  let value ← readValue e (2 * text.length + 2) [] (← get).position
  skip
  if (← get).position ≠ text.length then fail "there are bytes after the document"
  return value

def indexDocument (text : Units) : DocumentIndex ν :=
  match readDocument e text ⟨0, text, [], []⟩ with
  | .ok value s => ⟨s.spans, s.duplicates, .ok value⟩
  | .error why s => ⟨s.spans, s.duplicates, .error why⟩

end

/-! ## Edits -/

def slice (text : Units) (start stop : Nat) : Units := (text.take stop).drop start

section
variable {ν : Type}

def spanAt (index : DocumentIndex ν) (pointer : Units) : Option Span := index.spans.find? fun s => s.pointer == pointer

def replaceValue (text : Units) (index : DocumentIndex ν) (pointer json : Units) : Units :=
  match spanAt index pointer with
  | none => text
  | some span => text.take span.valueStart ++ json ++ text.drop span.valueEnd

/-- How many units of layout end in front of a position. -/
def layoutBefore (text : Units) (position : Nat) : Nat := ((text.take position).reverse.takeWhile isLayout).length

/-- How many units of layout start at a position. -/
def layoutAfter (text : Units) (position : Nat) : Nat := ((text.drop position).takeWhile isLayout).length

/-- The run of layout in front of one member. -/
def leadingLayout (text : Units) (memberStart : Nat) : Units :=
  slice text (memberStart - layoutBefore text memberStart) memberStart

/-- The run of layout between one element and the comma after it. -/
def trailingLayout (text : Units) (memberEnd : Nat) (last : Bool) : Units :=
  if last then []
  else if text[memberEnd + layoutAfter text memberEnd]? = some (unit ',') then
    slice text memberEnd (memberEnd + layoutAfter text memberEnd)
  else []

/-- The range that goes with a member: its layout, and the comma behind it or the one in front. -/
def removedRange (text : Units) (span : Span) : Nat × Nat :=
  let layoutStart := span.memberStart - layoutBefore text span.memberStart
  let scan := span.memberEnd + layoutAfter text span.memberEnd
  if text[scan]? = some (unit ',') then (layoutStart, scan + 1)
  else if 0 < layoutStart ∧ text[layoutStart - 1]? = some (unit ',') then (layoutStart - 1, span.memberEnd)
  else (layoutStart, span.memberEnd)

def removeMember (text : Units) (index : DocumentIndex ν) (pointer : Units) : Units :=
  match spanAt index pointer with
  | none => text
  | some span =>
    if pointer = [] then text
    else text.take (removedRange text span).1 ++ text.drop (removedRange text span).2

/-- Where a member goes when it is added. -/
inductive Placement where
  | after (pointer : Units)
  | first
  | last

/-- The direct children of one container, in document order. -/
def childSpans (index : DocumentIndex ν) (container : Units) (array : Bool) : List Span :=
  let prefix_ := if container = [] then [unit '/'] else container ++ [unit '/']
  let found := index.spans.filter fun span =>
    prefix_.isPrefixOf span.pointer &&
      (!(span.pointer.drop prefix_.length).contains (unit '/') &&
        (!array || afterWhole (span.pointer.drop prefix_.length) == some []))
  found.insertionSort fun left right => left.memberStart ≤ right.memberStart

def placementIndex (members : List Span) : Placement → Nat
  | .first => 0
  | .after pointer =>
    match members.findIdx? fun span => span.pointer == pointer with
    | none => members.length
    | some found => found + 1
  | .last => members.length

def insertMember (text : Units) (index : DocumentIndex ν) (containerPointer : Units) (name : Option Units) (json : Units)
    (placement : Placement) : Units :=
  match spanAt index containerPointer with
  | none => text
  | some container =>
    let open_ := text[container.valueStart]?
    if open_ ≠ some (unit '\x7b') ∧ open_ ≠ some (unit '[') then text
    else if open_ = some (unit '\x7b') ∧ name = none then text
    else if open_ = some (unit '[') ∧ name ≠ none then text
    else
      let members := childSpans index containerPointer (open_ == some (unit '['))
      let written := match name with
        | none => json
        | some name => JsonParse.stringify name ++ wordText ": " ++ json
      let at_ := placementIndex members placement
      match members.getLast?, members[min at_ (members.length - 1)]? with
      | some last, some model =>
        let layout := leadingLayout text model.memberStart
        if at_ ≥ members.length then
          text.take last.memberEnd ++ [unit ','] ++ layout ++ written ++ text.drop last.memberEnd
        else
          let start := model.memberStart - layout.length
          text.take start ++ layout ++ written ++ [unit ','] ++ text.drop start
      | _, _ => text.take (container.valueStart + 1) ++ (wordText " " ++ written ++ wordText " ") ++
          text.drop (container.valueEnd - 1)

/-- The list with the element at `source` put at `target`: two calls of `splice`. -/
def moveTo {α : Type} (l : List α) (source target : Nat) : List α :=
  match l[source]? with
  | none => l
  | some moved => (l.eraseIdx source).insertIdx target moved

def moveElement (text : Units) (index : DocumentIndex ν) (arrayPointer : Units) (source target : Int) : Units :=
  match spanAt index arrayPointer with
  | none => text
  | some container =>
    if text[container.valueStart]? ≠ some (unit '[') then text
    else
      let elements := childSpans index arrayPointer true
      if source = target then text
      else if source < 0 ∨ target < 0 ∨ source ≥ elements.length ∨ target ≥ elements.length then text
      else
        let layouts := elements.map fun span => leadingLayout text span.memberStart
        let trails := elements.mapIdx fun position span =>
          trailingLayout text span.memberEnd (position == elements.length - 1)
        let bodies := moveTo (elements.map fun span => slice text span.memberStart span.memberEnd) source.toNat target.toNat
        let rebuilt := bodies.mapIdx fun position body =>
          layouts.getD position [] ++ body ++
            (if position = bodies.length - 1 then [] else trails.getD position [] ++ [unit ','])
        match elements.head?, elements.getLast? with
        | some first, some last =>
          text.take (first.memberStart - (layouts.getD 0 []).length) ++ rebuilt.flatten ++ text.drop last.memberEnd
        | _, _ => text

end

/-! ## The gate -/

structure Disagreement where
  pointer : Units
  reason : Units
  deriving DecidableEq

/-- Whether a name is an array index, which `Object.keys` lists before the others. -/
def isIndexName (name : Units) : Bool := afterWhole name == some [] && decide (digitsValue name < 4294967295)

/-- `Object.keys` of an object whose members were defined in this order. -/
def objectKeys (names : List Units) : List Units :=
  (names.filter isIndexName).insertionSort (fun a b => digitsValue a ≤ digitsValue b) ++
    names.filter fun name => !isIndexName name

section
variable {ν : Type} (e : Engine ν)

/-- `===` of values that are neither arrays nor objects. -/
def identical : Value ν → Value ν → Bool
  | .null, .null => true
  | .bool b, .bool b' => b == b'
  | .num n, .num n' => e.same n n'
  | .str s, .str s' => s == s'
  | _, _ => false

mutual

def firstDifference : Value ν → Value ν → List Units → Option Disagreement
  | .arr mine, .arr theirs, path =>
    if mine.length ≠ theirs.length then
      some ⟨pointerOf path, wordText "the two readings do not agree on this array"⟩
    else firstItemDifference mine theirs path 0
  | .arr _, _, path => some ⟨pointerOf path, wordText "the two readings do not agree on this array"⟩
  | .obj mine, .obj theirs, path =>
    let differences := memberDifferences mine theirs path
    let names := objectKeys (mine.map Prod.fst) ++
      (objectKeys (theirs.map Prod.fst)).filter fun name => !(mine.map Prod.fst).contains name
    names.findSome? fun name =>
      if (theirs.map Prod.fst).contains name && (mine.map Prod.fst).contains name then
        (differences.find? fun d => d.1 == name).bind Prod.snd
      else some ⟨pointerOf (path ++ [name]),
        wordText "only one reading carries the member " ++ JsonParse.stringify name⟩
  | .obj _, .arr _, path => some ⟨pointerOf path, wordText "the two readings do not agree on this array"⟩
  | .obj _, _, path => some ⟨pointerOf path, wordText "the two readings do not agree on this member"⟩
  | _, .arr _, path => some ⟨pointerOf path, wordText "the two readings do not agree on this array"⟩
  | _, .obj _, path => some ⟨pointerOf path, wordText "the two readings do not agree on this member"⟩
  | mine, theirs, path =>
    if identical e mine theirs then none
    else some ⟨pointerOf path, wordText "the two readings do not agree on this value"⟩

def firstItemDifference : List (Value ν) → List (Value ν) → List Units → Nat → Option Disagreement
  | mine :: mines, theirs :: more, path, index =>
    match firstDifference mine theirs (path ++ [natText index]) with
    | some found => some found
    | none => firstItemDifference mines more path (index + 1)
  | _, _, _, _ => none

/-- What each of my members differs in from theirs of the name. -/
def memberDifferences : List (Units × Value ν) → List (Units × Value ν) → List Units →
    List (Units × Option Disagreement)
  | [], _, _ => []
  | (name, mine) :: mines, theirs, path =>
    (name, (theirs.find? fun m => m.1 == name).bind fun m => firstDifference mine m.2 (path ++ [name])) ::
      memberDifferences mines theirs path

end

def agreesWithParse (text : Units) (index : DocumentIndex ν) : List Disagreement :=
  let problems := index.duplicates.map fun duplicate =>
    ⟨duplicate.pointer, wordText "the member " ++ JsonParse.stringify duplicate.name ++ wordText " appears more than once"⟩
  match index.reading with
  | .error why =>
    problems ++ [⟨[], (if (JsonParse.parse e.number text).isSome then wordText "the desk could not read these bytes: "
      else wordText "these bytes are not JSON: ") ++ why⟩]
  | .ok value =>
    match JsonParse.parse e.number text with
    | none => problems ++ [⟨[], wordText "these bytes are not JSON: " ++ e.syntaxError text⟩]
    | some parsed => problems ++ (firstDifference e value parsed []).toList

end

end DocumentText

end Desk
