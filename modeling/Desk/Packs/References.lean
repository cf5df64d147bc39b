import Desk.Lib.JsonPlaces
import Desk.Lib.JsonStringify
import Desk.Packs.Pointers
import Mathlib.Data.List.Infix

/-!
# References between the members of a pack

What one entry of a document refers to, and what refers back to it. The panel
reads documents as they are written, so a member may be missing or have any
shape; `none` stands for a thrown `TypeError`.
-/

namespace Desk

namespace References

open Pointers (pointer parsePointer)

/-- The relations, each with its own word. -/
inductive Relation where
  | outcome | evidence | sources | targetRule | citedBy | producedByRule | producedByException | fallbackOutcome
  | requiredByRule | testedByCondition | citedByRule | citedByException
deriving DecidableEq

def Relation.text : Relation → Units
  | .outcome => wordText "outcome"
  | .evidence => wordText "evidence"
  | .sources => wordText "sources"
  | .targetRule => wordText "target rule"
  | .citedBy => wordText "cited by"
  | .producedByRule => wordText "produced by rule"
  | .producedByException => wordText "produced by exception"
  | .fallbackOutcome => wordText "fallback outcome"
  | .requiredByRule => wordText "required by rule"
  | .testedByCondition => wordText "tested by condition"
  | .citedByRule => wordText "cited by rule"
  | .citedByException => wordText "cited by exception"

/-- One line of the panel; an id that is not there is undefined. -/
structure Reference (ν : Type) where
  relation : Relation
  id : Option (Value ν)
  target : Option Units
  candidates : Option (List Units)
  unresolved : Option Units

inductive Collection where
  | rules | exceptions | outcomes | evidenceRequirements | sources
deriving DecidableEq

def Collection.name : Collection → Units
  | .rules => wordText "rules"
  | .exceptions => wordText "exceptions"
  | .outcomes => wordText "outcomes"
  | .evidenceRequirements => wordText "evidenceRequirements"
  | .sources => wordText "sources"

/-- What is said where no entry of the collection declares an id. -/
def Collection.missing : Collection → Units
  | .rules => wordText "no declared rule carries this id"
  | .exceptions => []
  | .outcomes => wordText "no declared outcome carries this id"
  | .evidenceRequirements => wordText "no declared evidence requirement carries this id"
  | .sources => wordText "no declared source carries this id"

section
variable {ν : Type}

/-! ## Reading a document -/

def member (members : List (Units × Value ν)) (name : String) : Option (Value ν) :=
  (members.find? fun m => m.1 == wordText name).map Prod.snd

/-- `value.name` of what is not null. -/
def field (value : Value ν) (name : String) : Option (Value ν) :=
  match value with
  | .obj members => member members name
  | _ => none

def isNull : Value ν → Bool
  | .null => true
  | _ => false

def isText : Value ν → Bool
  | .str _ => true
  | _ => false

/-- `typeof value === 'object' && value !== null` -/
def isObject : Value ν → Bool
  | .arr _ => true
  | .obj _ => true
  | _ => false

/-- An array is entered at an index as it is printed. -/
def valueAt (document : Value ν) (at_ : Units) : Option (Value ν) := (parsePointer at_).bind document.find

def entryUnder (document : Value ν) (at_ : Units) (c : Collection) : Option (Value ν) :=
  match parsePointer at_ with
  | some (name :: part :: _) =>
    if name = c.name then (valueAt document (pointer [c.name, part])).filter isObject else none
  | _ => none

/-- `document.name ?? []`, walked by a method of arrays. -/
def entriesOf (document : List (Units × Value ν)) (c : Collection) : Option (List (Value ν)) :=
  match (document.find? fun m => m.1 == c.name).map Prod.snd with
  | none => some []
  | some .null => some []
  | some (.arr items) => some items
  | some _ => none

/-- What `for (const id of value ?? [])` walks; a string is walked by its characters. -/
def iterated : Option (Value ν) → Option (List (Value ν))
  | none => some []
  | some .null => some []
  | some (.arr items) => some items
  | some (.str s) => some ((codePoints s).map fun p => .str (unitsOfPoint p))
  | some _ => none

/-- `===`; two objects of a document are never one. -/
def strictEq (N : Numbers ν) : Option (Value ν) → Option (Value ν) → Bool
  | none, none => true
  | some .null, some .null => true
  | some (.bool a), some (.bool b) => a == b
  | some (.num m), some (.num n) => decide ((N.text m).1 = (N.text n).1)
  | some (.str s), some (.str t) => s == t
  | _, _ => false

/-- `String(value)` -/
def optionText (N : Numbers ν) : Option (Value ν) → Units
  | none => wordText "undefined"
  | some v => stringText N v

/-- `(value ?? []).includes(id)` -/
def includes (N : Numbers ν) (value id : Option (Value ν)) : Option Bool :=
  match value with
  | none => some false
  | some .null => some false
  | some (.arr items) => some (items.any fun item => strictEq N (some item) id)
  | some (.str s) => some (decide (optionText N id <:+: s))
  | some _ => none

/-! ## Declared ids -/

/-- Every place where an id is declared. -/
def declaredAt (entries : List (Value ν)) (c : Collection) (id : Units) : List Units :=
  entries.zipIdx.filterMap fun entry =>
    match field entry.1 "id" with
    | some (.str s) => if s = id then some (pointer [c.name, natText entry.2]) else none
    | _ => none

/-- The entries of one collection, where an id is looked up. -/
def targetsOf (entries : List (Value ν)) (c : Collection) : Value ν → List Units
  | .str s => declaredAt entries c s
  | _ => []

def named (relation : Relation) (id : Value ν) (entries : List (Value ν)) (c : Collection) : Reference ν :=
  match targetsOf entries c id with
  | [] => ⟨relation, some id, none, none, some c.missing⟩
  | [target] => ⟨relation, some id, some target, none, none⟩
  | targets => ⟨relation, some id, none, some targets, none⟩

/-! ## Conditions -/

structure EvidenceNode where
  id : Units
  pointer : Units

/-- What a condition itself says. -/
def nodeOf (members : List (Units × Value ν)) (path : List Units) : List EvidenceNode :=
  match member members "op", member members "evidenceRequirement" with
  | some (.str op), some (.str id) => if op = wordText "evidence-present" then [⟨id, pointer path⟩] else []
  | _, _ => []

mutual

def walk : Value ν → List Units → List EvidenceNode
  | .obj members, path => nodeOf members path ++ walkConditions members path ++ walkCondition members path
  | _, _ => []

/-- `conditions`, where it is an array. -/
def walkConditions : List (Units × Value ν) → List Units → List EvidenceNode
  | [], _ => []
  | (name, v) :: rest, path =>
    if name = wordText "conditions" then walkArray v (path ++ [wordText "conditions"]) else walkConditions rest path

def walkCondition : List (Units × Value ν) → List Units → List EvidenceNode
  | [], _ => []
  | (name, v) :: rest, path =>
    if name = wordText "condition" then walk v (path ++ [wordText "condition"]) else walkCondition rest path

def walkArray : Value ν → List Units → List EvidenceNode
  | .arr items, path => walkItems items 0 path
  | _, _ => []

def walkItems : List (Value ν) → Nat → List Units → List EvidenceNode
  | [], _, _ => []
  | v :: rest, index, path => walk v (path ++ [natText index]) ++ walkItems rest (index + 1) path

end

/-- The condition of each entry. -/
def walkEntries (c : Collection) (entries : List (Value ν)) : List EvidenceNode :=
  entries.zipIdx.flatMap fun entry =>
    match field entry.1 "when" with
    | some condition => walk condition [c.name, natText entry.2, wordText "when"]
    | none => []

def evidencePresentNodes (document : List (Units × Value ν)) (rules : List (Value ν)) : Option (List EvidenceNode) := do
  let exceptions ← entriesOf document .exceptions
  if rules.any isNull || exceptions.any isNull then none
  else
    let applicability := match member document "applicability" with
      | some condition => walk condition [wordText "applicability"]
      | none => []
    return applicability ++ walkEntries .rules rules ++ walkEntries .exceptions exceptions

/-! ## The lines -/

/-- The line of an entry that cites. -/
def backLine (relation : Relation) (c : Collection) (cites : Value ν → Option Bool) (entry : Value ν × Nat) :
    Option (List (Reference ν)) :=
  if isNull entry.1 then none
  else (cites entry.1).map fun cited =>
    if cited then [⟨relation, field entry.1 "id", some (pointer [c.name, natText entry.2]), none, none⟩] else []

def backLines (relation : Relation) (c : Collection) (entries : List (Value ν)) (cites : Value ν → Option Bool) :
    Option (List (Reference ν)) :=
  (entries.zipIdx.mapM (backLine relation c cites)).map List.flatten

variable (N : Numbers ν) (document : List (Units × Value ν))

def ruleLines (outcomes requirements sources : List (Value ν)) (rule : Value ν) : Option (List (Reference ν)) := do
  let outcome := match field rule "outcome" with
    | some (.str s) => [named .outcome (.str s) outcomes .outcomes]
    | _ => []
  let evidence := (← iterated (field rule "evidenceRequirementRefs")).filter isText
  let cited := (← iterated (field rule "sourceRefs")).filter isText
  let citing ← backLines .citedBy .exceptions (← entriesOf document .exceptions) fun exception =>
    some (strictEq N (field exception "targetRule") (field rule "id"))
  return outcome ++ evidence.map (fun id => named .evidence id requirements .evidenceRequirements) ++
    cited.map (fun id => named .sources id sources .sources) ++ citing

def exceptionLines (rules outcomes sources : List (Value ν)) (exception : Value ν) : Option (List (Reference ν)) := do
  let target := (field exception "targetRule").toList.map fun id => named .targetRule id rules .rules
  let outcome := (field exception "outcome").toList.map fun id => named .outcome id outcomes .outcomes
  let cited ← iterated (field exception "sourceRefs")
  return target ++ outcome ++ cited.map fun id => named .sources id sources .sources

def outcomeLines (rules : List (Value ν)) (outcome : Value ν) : Option (List (Reference ν)) := do
  let id := field outcome "id"
  let byRules ← backLines .producedByRule .rules rules fun rule => some (strictEq N (field rule "outcome") id)
  let byExceptions ← backLines .producedByException .exceptions (← entriesOf document .exceptions) fun exception =>
    some (strictEq N (field exception "outcome") id)
  let fallback := if strictEq N (member document "fallbackOutcome") id then
      [⟨.fallbackOutcome, id, some (pointer [wordText "fallbackOutcome"]), none, none⟩]
    else []
  return byRules ++ byExceptions ++ fallback

def requirementLines (rules : List (Value ν)) (requirement : Value ν) : Option (List (Reference ν)) := do
  let id := field requirement "id"
  let byRules ← backLines .requiredByRule .rules rules fun rule => includes N (field rule "evidenceRequirementRefs") id
  let nodes ← evidencePresentNodes document rules
  return byRules ++ (nodes.filter fun node => strictEq N (some (.str node.id)) id).map fun node =>
    ⟨.testedByCondition, id, some node.pointer, none, none⟩

def sourceLines (rules : List (Value ν)) (source : Value ν) : Option (List (Reference ν)) := do
  let id := field source "id"
  let byRules ← backLines .citedByRule .rules rules fun rule => includes N (field rule "sourceRefs") id
  let byExceptions ← backLines .citedByException .exceptions (← entriesOf document .exceptions) fun exception =>
    includes N (field exception "sourceRefs") id
  return byRules ++ byExceptions

/-- The lines of an entry the pointer is at or under. -/
def linesAt (at_ : Units) (c : Collection) (lines : Value ν → Option (List (Reference ν))) : Option (List (Reference ν)) :=
  match entryUnder (.obj document) at_ c with
  | none => some []
  | some entry => lines entry

def referencesFor (at_ : Units) : Option (List (Reference ν)) :=
  if at_ = [] then some []
  else if (valueAt (.obj document) at_).isNone then some []
  else do
    let outcomes ← entriesOf document .outcomes
    let requirements ← entriesOf document .evidenceRequirements
    let sources ← entriesOf document .sources
    let rules ← entriesOf document .rules
    let ruleLines ← linesAt document at_ .rules (ruleLines N document outcomes requirements sources)
    let exceptionLines ← linesAt document at_ .exceptions (exceptionLines rules outcomes sources)
    let outcomeLines ← linesAt document at_ .outcomes (outcomeLines N document rules)
    let requirementLines ← linesAt document at_ .evidenceRequirements (requirementLines N document rules)
    let sourceLines ← linesAt document at_ .sources (sourceLines N document rules)
    let fallback := if at_ = pointer [wordText "fallbackOutcome"] then
        (member document "fallbackOutcome").toList.map fun id => named .outcome id outcomes .outcomes
      else []
    return ruleLines ++ exceptionLines ++ outcomeLines ++ requirementLines ++ sourceLines ++ fallback

end

end References

end Desk
