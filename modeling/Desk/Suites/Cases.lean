import Desk.Lib.Refusal
import Desk.Packs.ConditionOps
import Desk.Research.Identity

/-!
# Test cases

A case of a suite and the import of a test matrix: every row is checked before
any case is made of it.
-/

namespace Desk

namespace Suites

open DocumentText (objectKeys)
open Identity (jsonIdentity)

section
variable {ν : Type}

def member (members : List (Units × Value ν)) (name : Units) : Option (Value ν) :=
  (members.find? fun m => m.1 == name).map Prod.snd

/-- `value.name`, of what may not be an object. -/
def memberOf (value : Option (Value ν)) (name : Units) : Option (Value ν) :=
  match value with
  | some (.obj members) => member members name
  | _ => none

/-! ## Cases -/

inductive Origin where
  | manual | ai | draft | import_
deriving DecidableEq

def Origin.text : Origin → Units
  | .manual => wordText "manual"
  | .ai => wordText "ai"
  | .draft => wordText "draft"
  | .import_ => wordText "import"

/-- A row carries the id of its case: no other is read from storage or written to it. -/
structure TestCase (ν : Type) where
  id : Units
  name : Units
  revision : Int
  row : List (Units × Value ν)
  sources : List (Value ν)
  sourceMappings : List (Units × Value ν)
  intentionalFactTypes : Option (List (Value ν))
  origin : Origin
  rationale : Units
  inputSnapshot : Option (Value ν)
  row_id : member row (wordText "id") = some (.str id)

def optMember (name : String) : Option (Value ν) → List (Units × Value ν)
  | some v => [(wordText name, v)]
  | none => []

/-- The case as a JSON value. -/
def TestCase.value (N : Numbers ν) (c : TestCase ν) : Value ν :=
  .obj ([(wordText "id", .str c.id), (wordText "name", .str c.name), (wordText "revision", .num (N.ofInt c.revision)),
    (wordText "row", .obj c.row), (wordText "sources", .arr c.sources),
    (wordText "sourceMappings", .obj c.sourceMappings)] ++
    optMember "intentionalFactTypes" (c.intentionalFactTypes.map .arr) ++
    [(wordText "origin", .str c.origin.text), (wordText "rationale", .str c.rationale)] ++
    optMember "inputSnapshot" c.inputSnapshot)

/-- `jsonIdentity` of a case. -/
def TestCase.identity (N : Numbers ν) (c : TestCase ν) : Units := jsonIdentity N (c.value N)

/-- A value in the place of a condition. -/
def truthy (N : Numbers ν) : Value ν → Bool
  | .null => false
  | .bool b => b
  | .num n => (N.text n).1 != wordText "0"
  | .str s => !s.isEmpty
  | _ => true

def executable (N : Numbers ν) (row : List (Units × Value ν)) : Bool :=
  (member row (wordText "expectedDisposition")).isSome ||
    (member row (wordText "expectedErrorClass")).any (truthy N)

/-! ## Importing a matrix -/

def rowFields : List Units :=
  ["id", "origin", "facts", "evidenceAvailability", "supportedExtensions", "expectedDisposition",
    "expectedHandoffTarget", "expectedErrorClass", "expectedErrorPhase", "focus", "specSection", "cites"].map wordText

/-- `raw.focus` where it is text. -/
def focusOf (row : List (Units × Value ν)) : Option Units :=
  match member row (wordText "focus") with
  | some (.str s) => some s
  | _ => none

/-- One row; `ids` are those of the rows before it. -/
def importRow (origin : Origin) (ids : List Units) (index : Nat) (raw : Value ν) : Except Units (TestCase ν) :=
  let path := wordText "/cases/" ++ natText index
  match raw with
  | .obj row =>
    match h : member row (wordText "id") with
    | some (.str id) => do
      refuseWhen (id.all ConditionOps.isSpace = true) (path ++ wordText "/id: supply a nonempty case ID.")
      refuseWhen (id ∈ ids) (path ++ wordText "/id: duplicate case ID \"" ++ id ++ wordText "\".")
      refuseWhen (member row (wordText "facts")).isNone (path ++ wordText "/facts: supply the facts document.")
      let unsupported := (objectKeys (row.map Prod.fst)).filter fun k => !rowFields.contains k
      refuseWhen (unsupported ≠ []) (path ++ wordText ": unsupported fields " ++
        List.intercalate (wordText ", ") unsupported ++ wordText ". Use focus for the case name and rationale.")
      let errorClass := member row (wordText "expectedErrorClass")
      refuseWhen ((member row (wordText "expectedDisposition")).isSome = errorClass.isSome)
        (wordText "Each case must declare one expected disposition or expected error class.")
      refuseWhen (errorClass.any (fun v => match v with | .str _ => false | _ => true) = true)
        (wordText "Expected error class must be text.")
      return ⟨id, (focusOf row).getD id, 1, row, [], [], none, origin, (focusOf row).getD [], none, h⟩
    | _ => throw (path ++ wordText "/id: supply a nonempty case ID.")
  | _ => throw (path ++ wordText ": case must be an object.")

/-- The rows in their order. -/
def importRows (origin : Origin) : List Units → Nat → List (Value ν) → Except Units (List (TestCase ν))
  | _, _, [] => return []
  | ids, index, raw :: rest => do
    let c ← importRow origin ids index raw
    return c :: (← importRows origin (ids ++ [c.id]) (index + 1) rest)

def matrixVersions : List Units := ["1", "2", "3"].map wordText

def importMatrix (N : Numbers ν) (value : Option (Value ν)) (origin : Origin) : Except Units (List (TestCase ν)) :=
  match memberOf value (wordText "cases") with
  | some (.arr cases) => do
    refuseWhen (256 < cases.length) (wordText "Choose a matrix JSON document with up to 256 cases.")
    let version := memberOf value (wordText "matrixVersion")
    refuseWhen (version.any (fun v => !matrixVersions.contains (stringText N v)) = true)
      (wordText "This test matrix version is not supported.")
    importRows origin [] 0 cases
  | _ => throw (wordText "Choose a matrix JSON document with up to 256 cases.")

/-! ## Intentional fact types -/

def intentionalFields : List Units := ["caseId", "path", "within", "reason"].map wordText

def isString : Option (Value ν) → Bool
  | some (.str _) => true
  | _ => false

/-- An entry that says which fact of which case it is about, and why. -/
def describes (entry : Value ν) : Bool :=
  match entry with
  | .obj members =>
    members.all (fun m => intentionalFields.contains m.1) &&
    (match member members (wordText "caseId") with
      | some (.str id) => !id.isEmpty
      | _ => false) &&
    isString (member members (wordText "path")) &&
    ((member members (wordText "within")).isNone || isString (member members (wordText "within"))) &&
    (match member members (wordText "reason") with
      | some (.str reason) => !reason.all ConditionOps.isSpace && decide (reason.length ≤ 2000)
      | _ => false)
  | _ => false

def intentionalFactTypes (document : Option (Value ν)) : Except Units (List (Value ν)) :=
  match memberOf document (wordText "intentionalFactTypes") with
  | none => return []
  | some (.arr entries) => do
    refuseWhen (1024 < entries.length ∨ entries.all describes = false)
      (wordText "Describe each intentional fact type test with a caseId, fact path and nonempty reason.")
    return entries
  | some _ => throw (wordText "Describe each intentional fact type test with a caseId, fact path and nonempty reason.")

end

end Suites

end Desk
