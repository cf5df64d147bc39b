import Desk.Lib.Run
import Desk.Suites.Cases

/-!
# Proposed cases

A suite holds its cases and the proposals the assistant made for them. A
proposal keeps the identity of every case the suite had when it was made; the
reviewed cases of a proposal are saved, once each, where the suite still has
those cases. In between the user edits, deletes and imports cases and asks for
more proposals. A change that is refused leaves the suite as it was.
-/

namespace Desk

namespace Suites

open Identity (jsonIdentity)

inductive ProposalState where
  | generating | checking | correcting | ready | blocked | stopped | answered
deriving DecidableEq

/-- A recorded request; `caseSnapshots` and `savedCases` map case ids to identities. -/
structure TestProposal (ν : Type) where
  id : Units
  state : ProposalState
  packDigest : Units
  attempts : List (Value ν)
  sources : List (Value ν)
  caseSnapshots : List (Units × Units)
  savedCases : Option (List (Units × Units))
  additionsOnly : Bool

/-- `rest` is the history the suite keeps beside its cases and proposals. -/
structure TestSuite (ν : Type) where
  cases : List (TestCase ν)
  deleted : Option (List Units)
  proposals : Option (List (TestProposal ν))
  rest : List (Units × Value ν)

section
variable {ν : Type} (N : Numbers ν)

/-! ## Reviewed cases -/

/-- `sourceMappings[id]` where it is an object. -/
def mappingsOf (document : Option (Value ν)) (id : Units) : List (Units × Value ν) :=
  match memberOf (memberOf document (wordText "sourceMappings")) id with
  | some (.obj mappings) => mappings
  | _ => []

def isAbout (id : Units) (entry : Value ν) : Bool :=
  match memberOf (some entry) (wordText "caseId") with
  | some (.str caseId) => caseId == id
  | _ => false

def proposalCases (record : TestProposal ν) : Except Units (List (TestCase ν)) :=
  if record.state ≠ .ready then return []
  else do
    let document := memberOf record.attempts.getLast? (wordText "document")
    (← importMatrix N document .ai).mapM fun c => do
      let intentional ← intentionalFactTypes document
      return { c with
        sources := record.sources
        intentionalFactTypes := some (intentional.filter (isAbout c.id))
        sourceMappings := mappingsOf document c.id }

structure ProposalFinding where
  code : Units
  path : Units
  message : Units

def additionFindings (document : Value ν) (existing : List Units) : List ProposalFinding :=
  match memberOf (some document) (wordText "cases") with
  | some (.arr cases) =>
    cases.zipIdx.flatMap fun entry =>
      match memberOf (some entry.1) (wordText "id") with
      | some (.str id) =>
        if id ∈ existing then
          [⟨wordText "EXISTING-CASE", wordText "/cases/" ++ natText entry.2 ++ wordText "/id", wordText
            "Design missing tests must add a new case with a unique ID. Existing cases cannot be replaced."⟩]
        else []
      | _ => []
  | _ => []

/-- The entries of `savedCases`. -/
def TestProposal.saved (p : TestProposal ν) : List (Units × Units) := p.savedCases.getD []

/-- The case as it is saved where `current` is. -/
def TestCase.revised (test : TestCase ν) (current : Option (TestCase ν)) : TestCase ν :=
  { test with revision := (current.map TestCase.revision).getD 0 + 1 }

/-- The loop of `saveReviewedCases`: the cases so far and what `savedCases` says so far. -/
def saveEach (record : TestProposal ν) :
    List (TestCase ν) → List (TestCase ν) → List (Units × Units) → Except Units (List (TestCase ν) × List (Units × Units))
  | [], next, savedCases => return (next, savedCases)
  | test :: rest, next, savedCases => do
    refuseWhen (test.id ∈ savedCases.map Prod.fst) (wordText "This proposed case was already saved. Edit it in Cases.")
    let index := next.findIdx? fun c => c.id == test.id
    let current := index.bind fun i => next[i]?
    refuseWhen (current.map (TestCase.identity N) ≠ record.caseSnapshots.lookup test.id)
      (wordText "This case changed after the request. Ask for a new proposal.")
    let saved := test.revised current
    let next := match index with
      | none => next ++ [saved]
      | some i => next.set i saved
    saveEach record rest next (savedCases ++ [(test.id, saved.identity N)])

/-- `suite.proposals?.find` -/
def TestSuite.proposal (suite : TestSuite ν) (id : Units) : Option (TestProposal ν) :=
  (suite.proposals.getD []).find? fun p => p.id == id

def saveReviewedCases (suite : TestSuite ν) (proposal : TestProposal ν) (cases : List (TestCase ν)) (digest : Units) :
    Except Units (TestSuite ν) := do
  refuseWhen (proposal.state ≠ .ready ∨ proposal.packDigest ≠ digest)
    (wordText "The pack changed. Request new suggestions for this revision.")
  let record ← orRefuse (suite.proposal proposal.id) (wordText "The proposal changed. Reopen it before saving.")
  refuseWhen (record.state ≠ .ready ∨ jsonIdentity N (.arr record.attempts) ≠ jsonIdentity N (.arr proposal.attempts))
    (wordText "The proposal changed. Reopen it before saving.")
  refuseWhen (record.additionsOnly = true ∧
      additionFindings (.obj [(wordText "cases", .arr (cases.map fun c => .obj c.row))])
        (record.caseSnapshots.map Prod.fst ++ suite.cases.map TestCase.id) ≠ [])
    (wordText "Design missing tests cannot replace existing cases. Request new unique IDs.")
  let ids := (← proposalCases N record).map TestCase.id
  refuseWhen (cases = [] ∨ ¬ (cases.map TestCase.id).Nodup ∨ ∃ c ∈ cases, c.id ∉ ids)
    (wordText "Select distinct cases from this proposal.")
  let (next, savedCases) ← saveEach N record cases suite.cases record.saved
  refuseWhen (256 < next.length) (wordText "This suite has reached its 256-case limit.")
  return { suite with
    cases := next
    deleted := suite.deleted.map fun ids => ids.filter fun id => !cases.any fun c => c.id == id
    proposals := suite.proposals.map fun ps =>
      ps.map fun p => if p.id = record.id then { p with savedCases := some savedCases } else p }

/-! ## What else changes a suite -/

/-- What `save` makes of the stored suite. -/
def storeCase (suite : TestSuite ν) (held : TestCase ν) : Except Units (TestSuite ν) := do
  let current := suite.cases.find? fun c => c.id == held.id
  refuseWhen ((current.map TestCase.revision).getD 0 ≠ held.revision)
    (wordText "This case changed in another window. Reload before saving.")
  refuseWhen (current.isNone ∧ 256 ≤ suite.cases.length) (wordText "This suite has reached its 256-case limit.")
  let held := { held with revision := held.revision + 1 }
  return { suite with
    deleted := suite.deleted.map fun ids => ids.filter fun id => id != held.id
    cases :=
      if current.isSome then suite.cases.map fun c => if c.id = held.id then held else c else suite.cases ++ [held] }

/-- `save`: the case in the editor, its expectation in the form the runtime gave it. -/
def saveCase (suite : TestSuite ν) (held : TestCase ν) : Except Units (TestSuite ν) := do
  if executable N held.row then
    let _ ← importMatrix N (some (.obj [(wordText "matrixVersion", .str (wordText "3")),
      (wordText "cases", .arr [.obj held.row])])) .import_
  storeCase suite held

/-- `remove`: the case that was selected. -/
def removeCase (suite : TestSuite ν) (selected : TestCase ν) : Except Units (TestSuite ν) := do
  let current := suite.cases.find? fun c => c.id == selected.id
  refuseWhen (current.any (fun c => c.identity N != selected.identity N) = true)
    (wordText "This case changed in another window. Reload before deleting.")
  return { suite with
    deleted := some (suite.deleted.getD [] ++ [selected.id]).eraseDups
    cases := suite.cases.filter fun c => c.id != selected.id }

/-- `importCases`: the rows of a matrix document. -/
def importCases (suite : TestSuite ν) (document : Value ν) : Except Units (TestSuite ν) := do
  let rows ← importMatrix N (some document) .import_
  refuseWhen (∃ c ∈ rows, c.id ∈ suite.cases.map TestCase.id)
    (wordText "Some case IDs already exist. Rename them before importing.")
  refuseWhen (256 < suite.cases.length + rows.length) (wordText "This suite has reached its 256-case limit.")
  return { suite with cases := suite.cases ++ rows }

/-- What the chat keeps of a new proposal, made against the cases `expected`. -/
def propose (suite : TestSuite ν) (proposal : TestProposal ν) (expected : List (TestCase ν)) : Except Units (TestSuite ν) := do
  refuseWhen (jsonIdentity N (.arr (suite.cases.map (TestCase.value N))) ≠
      jsonIdentity N (.arr (expected.map (TestCase.value N))))
    (wordText "The test cases changed. Read them again before proposing changes.")
  return { suite with proposals := some (suite.proposals.getD [] ++ [proposal]) }

/-! ## Runs -/

/-- One change of the suite. -/
inductive Act (ν : Type) where
  | review (proposal : TestProposal ν) (cases : List (TestCase ν)) (digest : Units)
  | edit (held : TestCase ν)
  | remove (selected : TestCase ν)
  | import_ (document : Value ν)
  | propose (proposal : TestProposal ν) (expected : List (TestCase ν))

def Act.apply (suite : TestSuite ν) : Act ν → Except Units (TestSuite ν)
  | .review proposal cases digest => saveReviewedCases N suite proposal cases digest
  | .edit held => saveCase N suite held
  | .remove selected => removeCase N suite selected
  | .import_ document => importCases N suite document
  | .propose proposal expected => Suites.propose N suite proposal expected

/-- `updateTests`: what a refused change leaves is what was there. -/
def update (suite : TestSuite ν) (act : Act ν) : TestSuite ν :=
  match act.apply N suite with
  | .ok next => next
  | .error _ => suite

/-- What a change saves: the proposal and the case. -/
def Act.saves (suite : TestSuite ν) (act : Act ν) : List (Units × Units) :=
  match act, act.apply N suite with
  | .review proposal cases _, .ok _ => cases.map fun c => (proposal.id, c.id)
  | _, _ => []

/-- What a run saves, in its order. -/
def savesOf (suite : TestSuite ν) : List (Act ν) → List (Units × Units)
  | [] => []
  | act :: rest => act.saves N suite ++ savesOf (update N suite act) rest

end

end Suites

end Desk
