import Mathlib.Data.List.Infix
import Desk.Lib.JsonPieces
import Desk.Service.PathText

/-!
# What is shown of a graph answer

The runtime's answer with no path in it that reaches from a root. The paths are collected
from the answer as it is decoded, where a repeated name keeps its last value, and taken
out of it as it is written. `rehearsalText`, the redaction of one sentence, is given.
-/

namespace Desk

namespace GraphAnswer

open JsonScan PathText

abbrev Bytes : Type := List UInt8

/-! ## Paths -/

def graphPathMembers : List String := ["path", "rowsPath", "graphPath", "configPath"]

def graphMessageMembers : List String := ["message", "detail"]

/-- `^[A-Za-z]:[\\/]` -/
def drivePath (p : String) : Bool :=
  match p.toList with
  | c :: ':' :: d :: _ => c.isAlpha && (d == '\\' || d == '/')
  | _ => false

def startsFromARoot (p : String) : Bool := hasPrefix p "/" || hasPrefix p "\\" || drivePath p

def hidden : String := "\u2026"

/-- A path from a root, as it is given and as it is printed. -/
def spansOf (p : String) : List PathSpan :=
  if startsFromARoot p then
    ⟨p, hidden, false⟩ :: (if displayedPath p = p then [] else [⟨displayedPath p, hidden, false⟩])
  else []

def holds (text part : String) : Bool := decide (part.toList <:+: text.toList)

/-- `namesSpan` -/
def namesSpan (text : String) (spans : List PathSpan) : Bool := spans.any fun span => span.value != "" && holds text span.value

/-! ## The paths of an answer -/

/-- Numbers that fit a float; `strconv.ParseFloat` is given. -/
def decodes (inRange : Bytes → Bool) : Tree → Bool
  | .leaf raw => !(raw.head?.any fun c => c == byte '-' || JsonScan.isDigit c) || inRange raw
  | .str _ => true
  | .node _ members => decodesAll inRange members
where
  decodesAll (inRange : Bytes → Bool) : List (String × Tree) → Bool
    | [] => true
    | (_, v) :: rest => decodes inRange v && decodesAll inRange rest

/-- `json.Unmarshal` of a whole text. -/
def unmarshal (inRange : Bytes → Bool) (data : Bytes) : Option Tree :=
  let raw := trim JsonScan.isSpace data
  if IsValue raw then (treeOf (raw.length + 1) raw).filter (decodes inRange) else none

mutual

/-- The spans of the path members, of the last of members with one name. -/
def collect (key : String) : Tree → List PathSpan
  | .leaf _ => []
  | .str raw => match unquote raw with
    | some v => if key ∈ graphPathMembers then spansOf v else []
    | none => []
  | .node .array items => collectItems key items
  | .node .object members => collectMembers members

def collectItems (key : String) : List (String × Tree) → List PathSpan
  | [] => []
  | (_, v) :: rest => collect key v ++ collectItems key rest

def collectMembers : List (String × Tree) → List PathSpan
  | [] => []
  | (name, v) :: rest => (if rest.any (fun m => m.1 == name) then [] else collect name v) ++ collectMembers rest

end

/-! ## Redaction -/

/-- The paths that `jpack.json` declares for packs and for graphs and their rows. -/
structure Declared where
  packs : List String
  graphs : List (String × String)

/-- `graphRedaction` with its sentences redacted. -/
structure Redaction where
  host : Host
  spans : List PathSpan
  text : String → String

/-- `redactionFor`; none is a configuration that cannot be read. -/
def redactionFor (rehearsalText : List PathSpan → String → String) (host : Host) (config : Option Declared)
    (spans : List PathSpan) : Redaction :=
  let all := match config with
    | none => spans
    | some declared => spans ++ declared.packs.flatMap spansOf ++ declared.graphs.flatMap fun g => spansOf g.1 ++ spansOf g.2
  ⟨host, all, rehearsalText all⟩

def namesProject (host : Host) (text : String) : Bool :=
  (host.projectDir :: host.configuredDir :: (host.evalSymlinks host.projectDir).toList).any (fun name =>
    name != "" && (holds text name || holds text (displayedPath name))) || Host.procFDs 0 text.toList != []

namespace Redaction

variable (red : Redaction)

def shownPathMember (p : String) : String :=
  if startsFromARoot p then
    let names := [red.host.projectDir, red.host.configuredDir, displayedPath red.host.projectDir,
      displayedPath red.host.configuredDir]
    if names.any fun name => name != "" && hasPrefix p (name ++ "/") then red.text p else hidden
  else if red.text p ≠ p then hidden
  else p

/-- What is shown of a string under a name. -/
def shownText (key text : String) : String :=
  if key ∈ graphPathMembers then red.shownPathMember text
  else if key ∈ graphMessageMembers ∨ namesProject red.host text ∨ namesSpan text red.spans then red.text text
  else text

/-- A string literal; one that does not change is as it was written. -/
def shownString (key : String) (raw : Bytes) : Bytes :=
  match unquote raw with
  | none => raw
  | some text => if red.shownText key text = text then raw else encodeString (red.shownText key text)

/-- `bytes.TrimSpace` of a text that begins and ends in ASCII. -/
def trimSpace (raw : Bytes) : Bytes := trim asciiSpace raw

/-- `json.Unmarshal` into the items, each as it is written. -/
def unmarshalItems (raw : Bytes) : Option (List (String × Bytes)) :=
  if readValue raw = some (raw, []) then JsonScan.split .array raw else none

def joined (k : Kind) : List (String × Bytes) → Bytes
  | [] => []
  | [m] => item m
  | m :: rest => item m ++ byte ',' :: joined k rest
where
  item (m : String × Bytes) : Bytes :=
    match k with
    | .array => m.2
    | .object => encodeString m.1 ++ byte ':' :: m.2

/-- `joinJSON` -/
def joinJSON (k : Kind) (members : List (String × Bytes)) : Bytes := k.opening :: (joined k members ++ [k.closing])

/-- A container whose members were visited; it is written anew where one of them changed. -/
def rebuilt (k : Kind) (raw : Bytes) (members : List (String × Bytes)) (shown : String × Bytes → Bytes) : Bytes :=
  if members.all fun m => shown m == trimSpace m.2 then raw
  else joinJSON k (members.map fun m => (m.1, if k = .array ∧ shown m = trimSpace m.2 then m.2 else shown m))

/-- `shownGraphValue`; the fuel is past the nesting. -/
def shownGraphValue : Nat → String → Bytes → Bytes
  | 0, _, raw => raw
  | fuel + 1, key, raw =>
    let raw := trimSpace raw
    match raw.head? with
    | none => raw
    | some c =>
      if c = quoteByte then red.shownString key raw
      else if c = Kind.array.opening then
        match unmarshalItems raw with
        | none => raw
        | some items => rebuilt .array raw items fun m => shownGraphValue fuel key m.2
      else if c = Kind.object.opening then
        match JsonScan.split .object raw with
        | none => raw
        | some members => rebuilt .object raw members fun m => shownGraphValue fuel m.1 m.2
      else raw

end Redaction

/-- What an answer is redacted with. -/
def answerRedaction (rehearsalText : List PathSpan → String → String) (inRange : Bytes → Bool) (host : Host)
    (config : Option Declared) (answer : Bytes) : Redaction :=
  redactionFor rehearsalText host config <| match unmarshal inRange answer with
    | some decoded => collect "" decoded
    | none => []

def shownGraphAnswer (rehearsalText : List PathSpan → String → String) (inRange : Bytes → Bool) (host : Host)
    (config : Option Declared) (answer : Bytes) : Bytes :=
  (answerRedaction rehearsalText inRange host config answer).shownGraphValue (answer.length + 1) "" answer

/-- `rehearsalText` of an answer that no inputs came with. -/
def sentence (host : Host) (auditDir : String) (spans : List PathSpan) (message : String) : String :=
  withoutPathsUnder host (String.ofList (replaceSpans message.toList spans)) auditDir

end GraphAnswer

end Desk
