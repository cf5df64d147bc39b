import Desk.Policy.SourceStatus
import Desk.Service.Recovered

/-!
# Policy commands

Creating a policy, saving a draft, reviewing the candidate and publishing it.
The command is inspected on a view of the ledger, a version is checked by the
runtime outside of any lock, and the transaction makes every check again.
-/

namespace Desk

/-! ## Commands -/

inductive PolicyRequest where
  | create (q : PolicyEditRequest)
  | saveDraft (id : String) (q : PolicyEditRequest)
  | review (id : String) (q : PolicyReviewRequest)
  | publish (id : String) (q : PolicyPublishRequest)

namespace PolicyRequest

def kind : PolicyRequest → OperationKind
  | create _ => .create
  | saveDraft _ _ => .saveDraft
  | review _ _ => .review
  | publish _ _ => .publish

def policyID : PolicyRequest → String
  | create _ => ""
  | saveDraft id _ | review id _ | publish id _ => id

def operationID : PolicyRequest → String
  | create q | saveDraft _ q => q.operationID
  | review _ q => q.operationID
  | publish _ q => q.operationID

def baseRevision : PolicyRequest → String
  | create q | saveDraft _ q => q.baseRevision
  | review _ q => q.baseRevision
  | publish _ q => q.baseRevision

def toJson : PolicyRequest → Json
  | create q | saveDraft _ q => q.toJson
  | review _ q => q.toJson
  | publish _ q => q.toJson

/-- The kinds that the owner of a policy admits or refuses. -/
def admitted : PolicyRequest → AdmittedKind
  | create _ | saveDraft _ _ => .other
  | review _ _ => .review
  | publish _ _ => .publish

/-- The commands whose candidate the runtime has to accept. -/
def approving : PolicyRequest → Bool
  | create _ | saveDraft _ _ => false
  | review _ q => q.decision == "approve"
  | publish _ _ => true

def identity (c : PolicyRequest) (actor : PolicyActor) : PolicyCommandIdentity where
  kind := c.kind
  policyID := c.policyID
  operationID := c.operationID
  requestDigest := digestOf (Json.obj
    [("Kind", c.kind.toJson), ("PolicyID", .str c.policyID), ("Actor", actor.toJson), ("Request", c.toJson)]).marshal
  actor := actor

end PolicyRequest

/-! ## The checks of a command -/

def validatePolicyImport (imported : PolicyImport) : Except GoError Unit := do
  require (validPolicySourceName imported.name && validPolicySourceMediaType imported.mediaType &&
      decide (imported.data.length ≤ policySourceByteLimit) && (String.fromUTF8? ⟨imported.data.toArray⟩).isSome)
    (policyRefusal 400 "invalid-policy-source" "Import a UTF-8 .txt or .md file up to 128 KiB with a simple filename.")
  require ((String.fromUTF8? ⟨imported.data.toArray⟩).all fun text =>
      text.toList.all fun c => !isControl c || c == '\n' || c == '\r' || c == '\t')
    (policyRefusal 400 "invalid-policy-source" "Import plain UTF-8 text without binary or control characters.")

def policyCommandRecord (ledger : PolicyLedger) (c : PolicyRequest) : Except GoError PolicyStoredRecord :=
  match c with
  | .create q => do
    require (q.baseRevision == "") (policyRefusal 400 "bad-request" "A new policy cannot specify an existing revision.")
    return default
  | c => do
    let record ← found (ledger.policies.get? c.policyID) (policyRefusal 404 "not-found" "Policy not found.")
    let current := policyEffectiveRevision record (ledger.sourceAuthorities.get? record.id)
    require (c.baseRevision == current)
      { policyRefusal 409 "revision-conflict"
          "This policy changed. Keep your edits and reload the saved revision before continuing."
        with currentRevision := current }
    return record

/-- The candidate that is approved or published has to be the one reviewed, complete, and within the workflow. -/
def policyValidateCandidate (record : PolicyStoredRecord) (candidateDigest workflowDigest : String) (approving : Bool) :
    Except GoError Unit := do
  let head := policyHead record
  require (candidateDigest == head.digest && workflowDigest == head.workflowDigest)
    (policyRefusal 409 "revision-conflict" "Review the current policy candidate and workflow before continuing.")
  require (!approving || !head.workflow.independentReviewRequired) (policyRefusal 422 "unsupported-workflow"
    "Independent review requires another authorized reviewer. This local installation supports one administrator and cannot satisfy that workflow.")
  require (!approving || !blank head.title && !blank head.artifactVersion)
    (policyRefusal 422 "bad-request" "Provide a title and artifact version before approval or publication.")

def policyValidateEdit (q : PolicyEditRequest) (creating : Bool) : Except GoError Unit := do
  match q.import_ with
  | none => pure ()
  | some imported =>
    require creating
      (policyRefusal 400 "bad-request" "Original source import is supported only when creating a policy draft.")
    validatePolicyImport imported
  require (decide (len q.title ≤ 500) && decide (len q.narrative ≤ policyNarrativeLimit) &&
      decide (len q.artifactVersion ≤ policyArtifactVersionLimit))
    (policyRefusal 400 "bad-request" "The policy title, narrative or version exceeds its supported size.")

def policyValidateCommand (c : PolicyRequest) (record : PolicyStoredRecord)
    (authority : Option PolicySourceAuthorityStream) : Except GoError Unit :=
  match c with
  | .create q => policyValidateEdit q true
  | .saveDraft _ q => policyValidateEdit q false
  | .review _ q => do
    require ((Decision.ofText q.decision).isSome && decide (len q.comment ≤ 8192))
      (policyRefusal 400 "bad-request" "Provide an approval or request for changes with a bounded comment.")
    policyValidateCandidate record q.candidateDigest q.workflowDigest (q.decision == "approve")
  | .publish _ q => do
    policyValidateCandidate record q.candidateDigest q.workflowDigest true
    require ((policyAuthorityCurrentReview record authority).any fun review =>
        review.decision == .approve && review.id == q.reviewID)
      (policyRefusal 409 "review-incomplete" "Approve this exact current policy candidate before publishing it.")
    require (record.publications.all fun publication => publication.artifactVersion != (policyHead record).artifactVersion)
      (policyRefusal 409 "version-conflict"
        "This policy version is already published. Choose a new version and review the changed candidate.")

/-- What is checked of a command both before and inside its transaction. -/
def policyAdmitted (ledger : PolicyLedger) (c : PolicyRequest) : Except GoError PolicyStoredRecord := do
  let record ← policyCommandRecord ledger c
  refuseIf (policyAuthorityAdmission (ledger.sourceAuthorities.get? record.id) c.admitted)
  policyValidateCommand c record (ledger.sourceAuthorities.get? record.id)
  return record

/-! ## The record afterwards -/

/-- The record a command leaves, and the review or publication its receipt names. -/
structure PolicyChange where
  record : PolicyStoredRecord
  reviewID : String
  publicationID : String

def newPolicyRecord (id now : String) : PolicyStoredRecord where
  recovery := none
  schemaVersion := policyRecordSchemaVersion
  id := id
  createdAt := now
  updatedAt := now
  headRevisionID := ""
  currentReviewID := ""
  revisions := []
  reviews := []
  publications := []

namespace Call

/-- The original source of an edit: the one imported with it, or the one of the head. -/
def editSource (call : Call) (q : PolicyEditRequest) (record : PolicyStoredRecord) : Except GoError (Option PolicySource) :=
  match q.import_ with
  | none => .ok (policyHead record).source
  | some imported => do
    let retained ← call.put imported.data
    return some { name := imported.name, mediaType := imported.mediaType, origin := "user-upload", content := retained }

def editedContent (q : PolicyEditRequest) (source : Option PolicySource) : PolicyCandidateContent where
  source := source
  schemaVersion := 1
  title := q.title
  narrative := q.narrative
  artifactVersion := q.artifactVersion

def editedRevision (q : PolicyEditRequest) (record : PolicyStoredRecord) (source : Option PolicySource)
    (content : RetainedArtifactRef) (id now : String) (actor : PolicyActor) : PolicyRevision :=
  let workflow := q.workflow.getD (policyHead record).workflow
  { source := source, id := id, sequence := policyEventCount record + 1, digest := content.sha256, title := q.title
    artifactVersion := q.artifactVersion, content := content, workflow := workflow
    workflowDigest := policyWorkflowDigest workflow, at_ := now, actor := actor }

/-- A candidate equal to the head is not saved again. -/
def edit (call : Call) (q : PolicyEditRequest) (record : PolicyStoredRecord) (now : String) (actor : PolicyActor) :
    Except GoError PolicyChange := do
  let source ← call.editSource q record
  let content ← call.put (editedContent q source).toJson.marshal
  let head := policyHead record
  if head.digest != content.sha256 ||
      head.workflowDigest != policyWorkflowDigest (q.workflow.getD head.workflow) then
    require (decide (record.revisions.length < policyHistoryLimit))
      (policyRefusal 409 "storage-capacity" "This policy has reached its supported revision capacity.")
    let id ← call.newPolicyEventID 1 "revision"
    return { record := { record with
               revisions := record.revisions ++ [editedRevision q record source content id now actor]
               headRevisionID := id, currentReviewID := "", updatedAt := now }
             reviewID := "", publicationID := "" }
  else return { record := record, reviewID := "", publicationID := "" }

def reviewed (call : Call) (q : PolicyReviewRequest) (record : PolicyStoredRecord) (now : String) (actor : PolicyActor) :
    Except GoError PolicyChange := do
  require (decide (record.reviews.length < policyHistoryLimit))
    (policyRefusal 409 "storage-capacity" "This policy has reached its supported review capacity.")
  let id ← call.newPolicyEventID 1 "review"
  let head := policyHead record
  -- the command admits no other decision
  let review : PolicyReview :=
    { id := id, sequence := policyEventCount record + 1, candidateRevisionID := head.id, candidateDigest := head.digest
      workflowDigest := head.workflowDigest, decision := (Decision.ofText q.decision).getD .requestChanges
      comment := q.comment, at_ := now, actor := actor }
  return { record := { record with reviews := record.reviews ++ [review], currentReviewID := id, updatedAt := now }
           reviewID := id, publicationID := "" }

def published (call : Call) (q : PolicyPublishRequest) (record : PolicyStoredRecord) (now : String) (actor : PolicyActor) :
    Except GoError PolicyChange := do
  require (decide (record.publications.length < policyHistoryLimit))
    (policyRefusal 409 "storage-capacity" "This policy has reached its supported publication capacity.")
  let id ← call.newPolicyEventID 1 "publication"
  let head := policyHead record
  let publication : PolicyPublication :=
    { id := id, sequence := policyEventCount record + 1, candidateRevisionID := head.id, candidateDigest := head.digest
      workflowDigest := head.workflowDigest, content := head.content, artifactVersion := head.artifactVersion
      reviewID := q.reviewID, at_ := now, actor := actor }
  return { record := { record with publications := record.publications ++ [publication], updatedAt := now }
           reviewID := "", publicationID := id }

/-- The record a command works on: the one inspected, or a new one. -/
def policyTarget (call : Call) (ledger : PolicyLedger) (record : PolicyStoredRecord) (now : String) :
    PolicyRequest → Except GoError PolicyStoredRecord
  | .create _ => do
    require (decide (ledger.policies.size < policyCountLimit))
      (policyRefusal 409 "storage-capacity" "Policy storage has reached its supported capacity.")
    let id ← call.newPolicyEventID 0 "policy"
    return newPolicyRecord id now
  | _ => .ok record

def policyChange (call : Call) (record : PolicyStoredRecord) (now : String) (actor : PolicyActor) :
    PolicyRequest → Except GoError PolicyChange
  | .create q | .saveDraft _ q => call.edit q record now actor
  | .review _ q => call.reviewed q record now actor
  | .publish _ q => call.published q record now actor

/-! ## The answer -/

def reply (call : Call) (n : Nat) (record : PolicyStoredRecord) (stream : Option PolicySourceAuthorityStream) :
    Except GoError PolicyReply := do
  let head := policyHead record
  let candidate ← call.candidate head
  call.authorize n
  return {
    recovery := policyRecoveryProjection record stream
    currentCandidatePublished := some (policyAuthorityCurrentCandidatePublished record stream)
    sourceAuthority := policyAuthoritySummary stream
    revision := policyEffectiveRevision record stream
    document := {
      schemaVersion := 1, id := record.id, managementMode := (policyAuthorityOwnership stream).owner.mode
      createdAt := record.createdAt, updatedAt := record.updatedAt, candidate := candidate, workflow := head.workflow
      workflowDigest := head.workflowDigest, reviewState := policyAuthorityReviewState record stream
      currentReviewID := ((policyAuthorityCurrentReview record stream).map PolicyReview.id).getD ""
      revisions := record.revisions, reviews := record.reviews, publications := record.publications } }

def policyResult (c : PolicyRequest) (actor : PolicyActor) (change : PolicyChange) (reply : PolicyReply) (now : String) :
    PolicyMutationReply :=
  { (default : PolicyMutationReply) with
    delivery := .committed
    policy := reply
    receipt := { (default : PolicyOperationReceipt) with
      operationID := c.operationID, kind := c.kind, policyID := change.record.id
      requestDigest := (c.identity actor).requestDigest, at_ := now, actor := actor, revision := reply.revision
      candidateDigest := reply.document.candidate.digest, reviewID := change.reviewID
      publicationID := change.publicationID } }

end Call

/-! ## The transaction -/

namespace Call

/-- The operation itself, on a ledger where it has not been committed before. -/
def policyDecision (call : Call) (c : PolicyRequest) (actor : PolicyActor) (ledger : PolicyLedger) :
    Except GoError (Bool × PolicyLedger × PolicyMutationReply) := do
  require (decide (ledger.operations.size < policyOperationLimit))
    (policyRefusal 409 "storage-capacity" "Policy operation history has reached its supported capacity.")
  let record ← policyAdmitted ledger c
  require (c.kind != .publish || !policySourcePending record (ledger.sources.get? record.id))
    (policyRefusal 409 "source-update-unresolved"
      "Review the latest connected source update before publishing this candidate.")
  let now := call.clock.format
  let target ← call.policyTarget ledger record now c
  let change ← call.policyChange target now actor c
  let id := change.record.id
  let reply ← call.reply 5 change.record (ledger.sourceAuthorities.get? id)
  let result := policyResult c actor change reply now
  let ref ← call.put result.toJson.marshal
  call.authorize 6
  return (true, { ledger with
    policies := ledger.policies.set id change.record
    operations := ledger.operations.set c.operationID
      ⟨c.operationID, c.kind, id, (c.identity actor).requestDigest, ref⟩ }, result)

def policyUpdate (call : Call) (c : PolicyRequest) (actor : PolicyActor) : Transaction PolicyMutationReply := fun ledger => do
  call.authorize 3
  let recovered ← call.recovered 4 ledger (c.identity actor)
  match recovered with
  | some result => return (false, ledger, result)
  | none => call.policyDecision c actor ledger

end Call

namespace PolicyCall

/-- What the view answers: the retained reply, or the record the command was inspected on. -/
def inspect (call : PolicyCall) (c : PolicyRequest) (actor : PolicyActor) (ledger : PolicyLedger) :
    Except GoError (PolicyMutationReply ⊕ PolicyStoredRecord) := do
  call.authorize 1
  let recovered ← call.recovered 2 ledger (c.identity actor)
  match recovered with
  | some result => return .inl result
  | none => do
    let record ← policyAdmitted ledger c
    return .inr record

/-- The version the new one is compared with. -/
def versionBase (c : PolicyRequest) (inspected : PolicyStoredRecord) (candidate : PolicyCandidate) : String :=
  match c with
  | .publish _ _ => (inspected.publications.getLast?.map PolicyPublication.artifactVersion).getD candidate.artifactVersion
  | _ => candidate.artifactVersion

/-- The runtime's check of the candidate, made while nothing is held. -/
def runtimeAccepts (call : PolicyCall) (c : PolicyRequest) (inspected : PolicyStoredRecord) : Except GoError Unit :=
  if c.approving then do
    let candidate ← beforeCommit (call.candidate (policyHead inspected))
    require (!blank candidate.narrative)
      (policyRefusal 422 "bad-request" "Provide policy content before approval or publication.")
    let validateVersion ← found call.validateVersion (policyRefusal 503 "runtime-unavailable"
      "Runtime version checks are unavailable. Keep this policy draft and retry later.")
    beforeCommit (validateVersion (versionBase c inspected candidate) candidate.artifactVersion)
  else .ok ()

/-- The command is inspected on the ledger `seen` before its transaction meets `ledger`. -/
def execute (call : PolicyCall) (c : PolicyRequest) (actor : PolicyActor) (seen ledger : PolicyLedger) :
    Except GoError PolicyMutationReply × PolicyLedger :=
  let admitted : Except GoError Unit := do
    call.authorize 0
    require (policyOperationIDForm c.operationID) (policyRefusal 400 "bad-request"
      "Provide a unique operation ID of 16–128 letters, digits, hyphens or underscores.")
  match admitted with
  | .error e => (.error e, ledger)
  | .ok () => match call.reading.view (call.inspect c actor) seen with
    | .error e => (.error e, ledger)
    | .ok (.inl result) => (.ok result, ledger)
    | .ok (.inr inspected) => match call.runtimeAccepts c inspected with
      | .error e => (.error e, ledger)
      | .ok () => call.storage.update (call.policyUpdate c actor) ledger

end PolicyCall

end Desk
