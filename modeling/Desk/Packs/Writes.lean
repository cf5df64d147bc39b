import Desk.Packs.ConditionOps

/-!
# One form edit as text

A form field writes one member of the document: its value where the member is
there, a new member at the place of the schema's order where it is not, and
nothing where blanking the field means that the member goes.
-/

namespace Desk

namespace Writes

open DocumentText
open ConditionOps (Buffered buffered)

/-! ## Shapes of pointers -/

/-- One step of a shape: one of some names, or `\d+`. -/
inductive Step where
  | name (options : List String)
  | digits

def Step.test : Step → Units → Bool
  | .name options, token => options.any fun option => wordText option == token
  | .digits, token => token != [] && token.all isDigit

/-- A regular expression of the schema's tables: `^`, a `/` before each step, `$`. -/
abbrev Shape : Type := List Step

def Shape.test (shape : Shape) (pointer : Units) : Bool :=
  match pointer.splitOn (unit '/') with
  | [] :: tokens => shape.length == tokens.length && (shape.zip tokens).all fun (step, token) => step.test token
  | _ => false

/-- The members whose `$ref` is `#/$defs/nonEmptyString`. -/
def nonEmptyStrings : List Shape := [
  [.name ["title"]],
  [.name ["description"]],
  [.name ["decision"], .name ["intent", "question"]],
  [.name ["evidenceRequirements"], .digits, .name ["description"]],
  [.name ["sources"], .digits, .name ["title", "publisher", "rights"]],
  [.name ["sources"], .digits, .name ["locator"], .name ["value"]],
  [.name ["sources"], .digits, .name ["citation"], .name ["location", "excerpt"]],
  [.name ["outcomes"], .digits, .name ["label", "description"]],
  [.name ["rules"], .digits, .name ["description", "rationale"]],
  [.name ["exceptions"], .digits, .name ["description"]],
  [.name ["escalation"], .name ["message"]],
  [.name ["escalation"], .name ["target"], .name ["name"]],
  [.name ["metadata"], .name ["authors"], .digits],
  [.name ["metadata"], .name ["license"]],
  [.name ["metadata"], .name ["reviews"], .digits, .name ["reviewer", "note"]]]

/-- Whether blanking this member removes it rather than writing `""`. -/
def isNonEmptyString (pointer : Units) : Bool := nonEmptyStrings.any fun shape => shape.test pointer

/-! ## The schema's order -/

structure OrderEntry where
  shape : Shape
  members : List String

/-- `MEMBER_ORDER` -/
def memberOrders : List OrderEntry := [
  ⟨[], ["specVersion", "id", "version", "title", "description", "decision", "applicability", "evidenceRequirements", "sources",
    "outcomes", "rules", "exceptions", "fallbackOutcome", "escalation", "metadata", "extensions"]⟩,
  ⟨[.name ["decision"]], ["intent", "question", "extensions"]⟩,
  ⟨[.name ["evidenceRequirements"], .digits], ["id", "description", "required", "kind", "extensions"]⟩,
  ⟨[.name ["sources"], .digits],
    ["id", "title", "publisher", "publishedAt", "locator", "citation", "rights", "extensions"]⟩,
  ⟨[.name ["sources"], .digits, .name ["locator"]], ["kind", "value"]⟩,
  ⟨[.name ["sources"], .digits, .name ["citation"]], ["location", "excerpt"]⟩,
  ⟨[.name ["outcomes"], .digits], ["id", "label", "description", "extensions"]⟩,
  ⟨[.name ["rules"], .digits], ["id", "description", "when", "outcome", "onUnknown", "evidenceRequirementRefs", "sourceRefs",
    "rationale", "extensions"]⟩,
  ⟨[.name ["exceptions"], .digits], ["id", "description", "when", "effect", "targetRule", "outcome", "onUnknown", "sourceRefs",
    "extensions"]⟩,
  ⟨[.name ["escalation"]], ["triggers", "target", "message", "extensions"]⟩,
  ⟨[.name ["escalation"], .name ["target"]], ["kind", "name"]⟩,
  ⟨[.name ["metadata"]], ["authors", "createdAt", "license", "requiredExtensions", "reviews", "extensions"]⟩]

/-- The schema's member order for one container, or nothing where it declares none. -/
def memberOrder (containerPointer : Units) : List Units :=
  match memberOrders.find? fun entry => entry.shape.test containerPointer with
  | some entry => entry.members.map wordText
  | none => []

/-! ## Writes -/

section
variable {ν : Type} (e : Engine ν)

/-- After the nearest earlier member that the schema lists and the document has. -/
def placeFor (current : Buffered ν) (container name : Units) : Placement :=
  let order := memberOrder container
  if name ∈ order then
    let parts := (Pointers.parsePointer container).getD []
    match (order.take (order.idxOf name)).reverse.find? fun earlier =>
        (spanAt current.index (pointerOf (parts ++ [earlier]))).isSome with
    | some earlier => .after (pointerOf (parts ++ [earlier]))
    | none => .first
  else .last

/-- One member's bytes, wherever it is, including where it is not. -/
def place (current : Buffered ν) (pointer json : Units) : Buffered ν :=
  if (spanAt current.index pointer).isSome then buffered e (replaceValue current.text current.index pointer json)
  else
    match Pointers.parsePointer pointer with
    | none => current
    | some [] => current
    | some (part :: parts) =>
      let name := (part :: parts).getLast (List.cons_ne_nil part parts)
      let container := pointerOf (part :: parts).dropLast
      match spanAt current.index container with
      | none => current
      | some containerSpan =>
        if current.text[containerSpan.valueStart]? ≠ some (unit '\x7b') then current
        else
          buffered e (insertMember current.text current.index container (some name) json (placeFor current container name))

/-- One string member, or its removal where blanking means removal. -/
def setString (current : Buffered ν) (pointer value : Units) : Buffered ν :=
  if value = [] ∧ isNonEmptyString pointer = true then
    if (spanAt current.index pointer).isNone then current
    else buffered e (removeMember current.text current.index pointer)
  else place e current pointer (JsonParse.stringify value)

/-- One enum member; a closed enum has no empty member. -/
def setEnum (current : Buffered ν) (pointer value : Units) : Buffered ν :=
  if value = [] then
    if (spanAt current.index pointer).isNone then current
    else buffered e (removeMember current.text current.index pointer)
  else place e current pointer (JsonParse.stringify value)

def setBoolean (current : Buffered ν) (pointer : Units) (value : Bool) : Buffered ν :=
  place e current pointer (wordText (if value then "true" else "false"))

/-- Bytes the caller has already shaped. -/
def setRawJson (current : Buffered ν) (pointer json : Units) : Buffered ν := place e current pointer json

end

end Writes

end Desk
