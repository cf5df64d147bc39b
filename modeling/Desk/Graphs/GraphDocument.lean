import Desk.Lib.Layers
import Desk.Packs.DocumentText

/-!
# A served graph document and the layout of its walk

`readGraphDocument` reads the text of a graph document into the shape the views
draw from, and `deriveWalkLayout` lays its walk out: a node is below everything
that feeds it, and within a layer in the order of the coverage report. The
texts are those of `sourceMessage` with the values filled in.
-/

namespace Desk

namespace GraphDocument

open DocumentText (Engine objectKeys)

/-! ## The document -/

structure GraphDocumentNode where
  pack : Option Units
  description : Option Units
deriving DecidableEq

structure GraphDocumentEvidenceFeed where
  id : Units
  onUnresolved : Option Units
deriving DecidableEq

structure GraphDocumentEdge where
  from_ : Units
  to_ : Units
  fact : Option Units
  evidence : Option GraphDocumentEvidenceFeed
  description : Option Units
deriving DecidableEq

/-- `nodes` lists the members in the order of the text. -/
structure ReadGraphDocument where
  nodes : List (Units × GraphDocumentNode)
  edges : List GraphDocumentEdge
  result : Option Units
deriving DecidableEq

def ReadGraphDocument.declared (document : ReadGraphDocument) : List Units := document.nodes.map Prod.fst

/-- `Object.keys(document.nodes)`. -/
def ReadGraphDocument.ids (document : ReadGraphDocument) : List Units := objectKeys document.declared

/-! ## Reading it -/

section
variable {ν : Type}

def member (members : List (Units × Value ν)) (name : Units) : Option (Value ν) :=
  (members.find? fun m => m.1 == name).map Prod.snd

/-- True where a member is absent, or present with the type the format declares. -/
def optionalString : Option (Value ν) → Bool
  | none => true
  | some (.str _) => true
  | some _ => false

/-- The member where it is a string. -/
def stringOf : Option (Value ν) → Option Units
  | some (.str s) => some s
  | _ => none

def checkNode (id : Units) : Option (Value ν) → Except Units Unit
  | some (.obj node) =>
    if optionalString (member node (wordText "pack")) && optionalString (member node (wordText "description")) then return ()
    else throw (wordText "its node `" ++ id ++ wordText "` declares a member of the wrong type")
  | _ => throw (wordText "its node `" ++ id ++ wordText "` is not an object")

/-- What the views read of a node that passed its check. -/
def nodeOf : Value ν → GraphDocumentNode
  | .obj node => ⟨stringOf (member node (wordText "pack")), stringOf (member node (wordText "description"))⟩
  | _ => ⟨none, none⟩

def readEvidence (index : Nat) : Option (Value ν) → Except Units (Option GraphDocumentEvidenceFeed)
  | none => return none
  | some (.obj evidence) =>
    match member evidence (wordText "id") with
    | some (.str id) =>
      if optionalString (member evidence (wordText "onUnresolved")) then
        return some ⟨id, stringOf (member evidence (wordText "onUnresolved"))⟩
      else throw (wordText "its edge " ++ natText index ++ wordText " declares an onUnresolved that is not a string")
    | _ => throw (wordText "its edge " ++ natText index ++ wordText " declares an evidence feed with no requirement id")
  | some _ => throw (wordText "its edge " ++ natText index ++ wordText " declares an evidence feed with no requirement id")

def readEdge (index : Nat) : Value ν → Except Units GraphDocumentEdge
  | .obj edge =>
    match member edge (wordText "from"), member edge (wordText "to") with
    | some (.str from_), some (.str to_) => do
      if !(optionalString (member edge (wordText "fact")) && optionalString (member edge (wordText "description"))) then
        throw (wordText "its edge " ++ natText index ++ wordText " declares a member of the wrong type")
      let evidence ← readEvidence index (member edge (wordText "evidence"))
      return ⟨from_, to_, stringOf (member edge (wordText "fact")), evidence, stringOf (member edge (wordText "description"))⟩
    | _, _ => throw (wordText "its edge " ++ natText index ++ wordText " does not name both of its endpoints")
  | _ => throw (wordText "its edge " ++ natText index ++ wordText " is not an object")

def readEdges : Nat → List (Value ν) → Except Units (List GraphDocumentEdge)
  | _, [] => return []
  | index, edge :: edges => do return (← readEdge index edge) :: (← readEdges (index + 1) edges)

def readGraphDocument (e : Engine ν) (text : Units) : Except Units ReadGraphDocument :=
  match JsonParse.parse e.number text with
  | none => throw (wordText "the served text is not JSON (SyntaxError: " ++ e.syntaxError text ++ wordText ")")
  | some (.obj value) =>
    match member value (wordText "nodes") with
    | some (.obj nodes) => do
      let ids := objectKeys (nodes.map Prod.fst)
      if ids = [] then throw (wordText "it declares no node, and the format requires at least one")
      ids.forM fun id => checkNode id (member nodes id)
      let edges ←
        match member value (wordText "edges") with
        | some (.arr edges) => readEdges 0 edges
        | none => throw (wordText "it declares no `edges` member, which the format requires even when empty")
        | some _ => throw (wordText "its `edges` member is not an array")
      if !optionalString (member value (wordText "result")) then throw (wordText "its `result` member is not a node id")
      return ⟨nodes.map fun m => (m.1, nodeOf m.2), edges, stringOf (member value (wordText "result"))⟩
    | _ => throw (wordText "its `nodes` member is not a map of node ids")
  | some _ => throw (wordText "the served document is not a JSON object")

end

/-! ## The order of the walk -/

structure Probe where
  probe : Units

structure ParsedProbe where
  family : Units
  node : Option Units
  rest : Units

def bareReasons : List Units :=
  ["not-applicable", "missing-required-evidence", "unknown", "conflict", "exception-escalation", "no-match"].map wordText

/-- A probe that is namespaced to no node. -/
def parseBare (probe : Units) : ParsedProbe :=
  if (wordText "edge:").isPrefixOf probe then ⟨wordText "edge", none, probe.drop 5⟩
  else if (wordText "outcome:").isPrefixOf probe then ⟨wordText "outcome", none, probe.drop 8⟩
  else if (wordText "boundary:").isPrefixOf probe then ⟨wordText "boundary", none, probe.drop 9⟩
  else if probe ∈ bareReasons then ⟨wordText "reason", none, probe⟩
  else ⟨wordText "other", none, probe⟩

def parseProbe (probe : Units) : ParsedProbe :=
  if (wordText "node:").isPrefixOf probe then
    let rest := probe.drop 5
    let cut := rest.idxOf (unit ':')
    if h : 0 < cut ∧ cut < rest.length then
      let inner := parseProbe (rest.drop (cut + 1))
      ⟨inner.family, some (rest.take cut), inner.rest⟩
    else parseBare probe
  else parseBare probe
termination_by probe.length
decreasing_by
  have hlength : rest.length = probe.length - 5 := List.length_drop
  rw [List.length_drop, List.length_drop]
  omega

def nodesInWalkOrder (coverage : Option (List Probe)) : List Units :=
  (coverage.getD []).foldl (fun seen probe =>
    match (parseProbe probe.probe).node with
    | some node => if node ∈ seen then seen else seen ++ [node]
    | none => seen) []

/-! ## The layout -/

structure WalkEdge where
  edge : GraphDocumentEdge
  index : Nat
  drawable : Bool
deriving DecidableEq

structure WalkNode where
  id : Units
  pack : Option Units
  description : Option Units
  layer : Nat
  column : Nat
  isResult : Bool
  inCoverage : Bool
deriving DecidableEq

structure WalkShape where
  nodes : List WalkNode
  edges : List WalkEdge
  width : Nat
  depth : Nat
  result : Option Units
  resultDangling : Bool
deriving DecidableEq

inductive WalkLayout where
  | drawn (shape : WalkShape)
  | declined (reason : Units)
deriving DecidableEq

def walkEdges (document : ReadGraphDocument) : List WalkEdge :=
  document.edges.mapIdx fun index edge => ⟨edge, index, edge.from_ ∈ document.ids ∧ edge.to_ ∈ document.ids⟩

/-- The pairs the layering takes: the edges between declared nodes. -/
def structural (document : ReadGraphDocument) : List (Units × Units) :=
  ((walkEdges document).filter WalkEdge.drawable).map fun edge => (edge.edge.from_, edge.edge.to_)

def rank (walkOrder ids : List Units) (id : Units) : Nat :=
  if id ∈ walkOrder then walkOrder.idxOf id else walkOrder.length + ids.idxOf id

/-- The ids of a layer, sorted by rank. -/
def row (walkOrder ids : List Units) (layer : Units → Nat) (at_ : Nat) : List Units :=
  (ids.filter fun id => layer id = at_).insertionSort fun a b => rank walkOrder ids a ≤ rank walkOrder ids b

/-- One more than the greatest layer. -/
def depthOf (ids : List Units) (layer : Units → Nat) : Nat :=
  if ids = [] then 0 else (ids.map layer).foldl max 0 + 1

def walkNode (document : ReadGraphDocument) (walkOrder : List Units) (at_ column : Nat) (id : Units) : WalkNode :=
  let node := (document.nodes.find? fun m => m.1 == id).map Prod.snd
  { id, pack := node.bind GraphDocumentNode.pack, description := node.bind GraphDocumentNode.description,
    layer := at_, column, isResult := document.result = some id ∧ id ∈ document.ids, inCoverage := id ∈ walkOrder }

/-- `none` would be a walk that does not end. -/
def deriveWalkLayout (document : ReadGraphDocument) (coverage : Option (List Probe)) : Option WalkLayout := do
  let ids := document.ids
  let edges := walkEdges document
  match edges.find? fun edge => edge.drawable && edge.edge.from_ == edge.edge.to_ with
  | some selfLoop =>
    return .declined (wordText "the served document's edge " ++ natText selfLoop.index ++ wordText " names `" ++
      selfLoop.edge.from_ ++ wordText "` as both its endpoints, which no layering can place")
  | none =>
    let walk ← Layers.walk ids (structural document)
    let unplaced := ids.filter fun id => id ∉ walk.placed
    if unplaced ≠ [] then
      return .declined (wordText "the served document's edges cannot be layered: " ++
        (wordText ", ").intercalate unplaced ++ wordText (" could not be placed, which a cycle in those edges causes — " ++
          "a node inside one and a node fed by one are both unplaceable"))
    else
      let walkOrder := nodesInWalkOrder coverage
      let layer := fun id => (walk.layer id).getD 0
      let rows := (List.range (depthOf ids layer)).map (row walkOrder ids layer)
      return .drawn
        { nodes := rows.zipIdx.flatMap fun (row, at_) => row.mapIdx fun column id => walkNode document walkOrder at_ column id
          edges
          width := (rows.map List.length).foldl max 0
          depth := depthOf ids layer
          result := document.result
          resultDangling := document.result.any fun result => result ∉ ids }

end GraphDocument

end Desk
