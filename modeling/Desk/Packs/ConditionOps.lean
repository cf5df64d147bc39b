import Desk.Lib.JsonRelayout
import Desk.Packs.DocumentText

/-!
# What the builder does to a condition

A condition becomes another kind, or goes into a group. Each is a few splices
of the document, which is read again after each. New bytes take the indentation
and the line ending of the document.
-/

namespace Desk

namespace ConditionOps

open DocumentText

/-- A document and its reading. -/
structure Buffered (ν : Type) where
  text : Units
  index : DocumentIndex ν

/-! ## Kinds -/

/-- `CONDITION_MEMBERS`: the members of each kind, in their order. -/
def conditionMembers (kind : Units) : Option (List Units) :=
  if kind = wordText "literal" then some [wordText "op", wordText "value"]
  else if kind = wordText "all" then some [wordText "op", wordText "conditions"]
  else if kind = wordText "any" then some [wordText "op", wordText "conditions"]
  else if kind = wordText "not" then some [wordText "op", wordText "condition"]
  else if kind = wordText "fact" then some [wordText "op", wordText "path", wordText "operator", wordText "value"]
  else if kind = wordText "evidence-present" then some [wordText "op", wordText "evidenceRequirement"]
  else none

section
variable {ν : Type}

/-- The node the builder writes when it is asked for one it has no bytes for. -/
def newNode : Value ν := .obj [(wordText "op", .str (wordText "literal")), (wordText "value", .bool true)]

/-- What a member the old node had nothing for is written as. -/
def blank (name : Units) : Value ν :=
  if name = wordText "conditions" then .arr []
  else if name = wordText "condition" then newNode
  else if name = wordText "operator" then .str (wordText "equals")
  else .str []

/-- A whole node of one kind. -/
def skeleton (kind : Units) (members : List Units) : Value ν :=
  .obj (members.map fun name => (name, if name = wordText "op" then .str kind else blank name))

end

/-! ## The layout of a document -/

/-- Where a node sits: the indentation of its line, one level of the document's, empty for inline, and the line ending. -/
structure NodeLayout where
  base : Units
  step : Units
  eol : Units

/-- The document's line ending, from the first one it uses. -/
def lineEnding (text : Units) : Units :=
  match text.findIdx? (· == unit '\n') with
  | none => lineFeed
  | some found => if 0 < found ∧ text[found - 1]? = some (unit '\r') then carriageReturn else lineFeed

def isIndent (u : UInt16) : Bool := u == unit ' ' || u == unit '\t'

/-- `\s` -/
def isSpace (u : UInt16) : Bool :=
  decide (9 ≤ u ∧ u ≤ 13) || u == 32 || u == 0xa0 || u == 0x1680 || decide (0x2000 ≤ u ∧ u ≤ 0x200a) ||
    u == 0x2028 || u == 0x2029 || u == 0x202f || u == 0x205f || u == 0x3000 || u == 0xfeff

/-- The group of the first match of `\n([ \t]+)\S`. -/
def indentUnit : Units → Units
  | [] => wordText "  "
  | c :: rest =>
    if c = unit '\n' ∧ rest.takeWhile isIndent ≠ [] ∧ (rest.dropWhile isIndent).head?.any (fun u => !isSpace u) = true then
      rest.takeWhile isIndent
    else indentUnit rest

section
variable {ν : Type}

def layoutOf (current : Buffered ν) (pointer : Units) : NodeLayout :=
  match spanAt current.index pointer with
  | none => ⟨[], [], lineEnding current.text⟩
  | some span =>
    let leading := leadingLayout current.text span.memberStart
    if unit '\n' ∈ leading then
      ⟨(leading.reverse.takeWhile (· != unit '\n')).reverse, indentUnit current.text, lineEnding current.text⟩
    else ⟨[], [], lineEnding current.text⟩

end

/-- One level further in. -/
def deeper (layout : NodeLayout) : NodeLayout :=
  if layout.step = [] then layout else ⟨layout.base ++ layout.step, layout.step, layout.eol⟩

/-! ## Writing values -/

/-- Brackets around parts, each part on a line of its own when there is a gap. -/
def enclose (opens closes : UInt16) (gap indent : Units) (parts : List Units) : Units :=
  if parts = [] then [opens, closes]
  else if gap = [] then opens :: (List.intercalate [unit ','] parts ++ [closes])
  else
    let line := unit '\n' :: (indent ++ gap)
    opens :: (line ++ List.intercalate (unit ',' :: line) parts ++ (unit '\n' :: indent) ++ [closes])

mutual

/-- `JSON.stringify` of a value without numbers; a gap is what each level is indented by. -/
def stringifyValue (gap : Units) : Units → Value Empty → Units
  | _, .null => wordText "null"
  | _, .bool b => wordText (if b then "true" else "false")
  | _, .num n => nomatch n
  | _, .str s => JsonParse.stringify s
  | indent, .arr items => enclose (unit '[') (unit ']') gap indent (stringifyItems gap (indent ++ gap) items)
  | indent, .obj members =>
    enclose (unit '\x7b') (unit '\x7d') gap indent (stringifyMembers gap (indent ++ gap) members)

def stringifyItems (gap : Units) : Units → List (Value Empty) → List Units
  | _, [] => []
  | indent, v :: rest => stringifyValue gap indent v :: stringifyItems gap indent rest

def stringifyMembers (gap : Units) : Units → List (Units × Value Empty) → List Units
  | _, [] => []
  | indent, (name, v) :: rest =>
    (JsonParse.stringify name ++ (if gap = [] then wordText ":" else wordText ": ") ++ stringifyValue gap indent v) ::
      stringifyMembers gap indent rest

end

/-- Every line after the first moved right and ended as the document ends its lines. -/
def shift (text prefix_ eol : Units) : Units := replaceAll lineFeed (eol ++ prefix_) text

/-- One value in the document's layout; no gap is longer than ten units. -/
def serialize (value : Value Empty) (layout : NodeLayout) : Units :=
  if layout.step = [] then stringifyValue [] [] value
  else shift (stringifyValue (layout.step.take 10) [] value) layout.base layout.eol

/-- The author's bytes moved right, their line endings as they are. -/
def indent (text prefix_ eol : Units) : Units := replaceAll eol (eol ++ prefix_) text

/-! ## Edits -/

section
variable {ν : Type} (e : Engine ν)

def buffered (text : Units) : Buffered ν := ⟨text, indexDocument e text⟩

/-- The value a pointer names, by the reading of its bytes. -/
def nodeAt (current : Buffered ν) (pointer : Units) : Option (Value ν) :=
  (spanAt current.index pointer).bind fun span =>
    (indexDocument e (slice current.text span.valueStart span.valueEnd)).reading.toOption

/-- A node in a new group, its own bytes kept. -/
def wrapInGroup (current : Buffered ν) (pointer op : Units) : Buffered ν :=
  match spanAt current.index pointer with
  | none => current
  | some span =>
    let raw := slice current.text span.valueStart span.valueEnd
    let layout := layoutOf current pointer
    let written :=
      if layout.step = [] then
        wordText "\x7b\"op\": " ++ JsonParse.stringify op ++ wordText ", \"conditions\": [" ++ raw ++ wordText "]\x7d"
      else
        List.intercalate layout.eol [
          wordText "\x7b",
          layout.base ++ layout.step ++ wordText "\"op\": " ++ JsonParse.stringify op ++ wordText ",",
          layout.base ++ layout.step ++ wordText "\"conditions\": [",
          layout.base ++ layout.step ++ layout.step ++ indent raw (layout.step ++ layout.step) layout.eol,
          layout.base ++ layout.step ++ wordText "]",
          layout.base ++ wordText "\x7d"]
    buffered e (current.text.take span.valueStart ++ written ++ current.text.drop span.valueEnd)

/-- One member of a node, addressed. -/
def memberPointer (pointer name : Units) : Units :=
  match Pointers.parsePointer pointer with
  | none => pointer ++ unit '/' :: name
  | some parts => pointerOf (parts ++ [name])

/-- The node's `op` written, every other byte left. -/
def setOp (current : Buffered ν) (pointer kind : Units) : Buffered ν :=
  match spanAt current.index (pointer ++ wordText "/op") with
  | none => current
  | some span =>
    buffered e (current.text.take span.valueStart ++ JsonParse.stringify kind ++ current.text.drop span.valueEnd)

/-- After the nearest earlier member of the kind that the node has, first where it has none. -/
def placeAfter (current : Buffered ν) (pointer : Units) (members : List Units) (name : Units) : Placement :=
  match (members.takeWhile (· != name)).reverse.find? fun earlier =>
      (spanAt current.index (memberPointer pointer earlier)).isSome with
  | none => .first
  | some sibling => .after (memberPointer pointer sibling)

/-- One of the members that the new kind has nowhere to put. -/
def dropMember (pointer : Units) (members : List Units) (next : Buffered ν) (name : Units) : Buffered ν :=
  if name = wordText "op" ∨ name ∈ members then next
  else buffered e (removeMember next.text next.index (memberPointer pointer name))

/-- One of the members that the new kind requires and the node has nothing for. -/
def addMember (pointer : Units) (members present : List Units) (next : Buffered ν) (name : Units) : Buffered ν :=
  if name = wordText "op" ∨ name ∈ present then next
  else
    buffered e (insertMember next.text next.index pointer (some name)
      (serialize (blank name) (deeper (layoutOf next pointer))) (placeAfter next pointer members name))

/-- The node made another kind, with every value the new kind has somewhere to put. -/
def changeKind (current : Buffered ν) (pointer kind : Units) : Buffered ν :=
  match spanAt current.index pointer with
  | none => current
  | some span =>
    match conditionMembers kind with
    | none => current
    | some members =>
      match current.index.reading.toOption.bind fun _ => nodeAt e current pointer with
      | some (.obj fields) =>
        let present := objectKeys (fields.map Prod.fst)
        let named :=
          if wordText "op" ∈ present then setOp e current pointer kind
          else buffered e
            (insertMember current.text current.index pointer (some (wordText "op")) (JsonParse.stringify kind) .first)
        members.foldl (addMember e pointer members present) (present.foldl (dropMember e pointer members) named)
      | _ =>
        let written := serialize (skeleton kind members) (layoutOf current pointer)
        buffered e (current.text.take span.valueStart ++ written ++ current.text.drop span.valueEnd)

end

end ConditionOps

end Desk
