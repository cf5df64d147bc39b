import Desk.Execution.Payload
import Desk.Policy.Validate

/-!
# Validation of the execution state and of the whole ledger
-/

namespace Desk

def policyExecutionProfile : String := "local-admin-manual-pack/1"

def policyExecutionLifecycle : String := "desk-managed-effective/1"

def policyExecutionResourceLimit : Nat := 256

def policyExecutionIntentLimit : Nat := 4096

def policyExecutionEpochLimit : Nat := 256

def policyAdoptionFormat : String := "1.0.0"

/-! ## Forms -/

def executionTime (s : String) : Bool :=
  decide (len s = 20) &&
    match Utc.parse s with
    | some t => decide (1970 ≤ t.year) && t.format == s
    | none => false

def executionWorkspace (s : String) : Bool := visibleForm 1 256 s

def executionKey (s : String) : Bool := visibleForm 1 128 s

def PolicyExecutionIdentity.valid (v : PolicyExecutionIdentity) : Bool :=
  retainedArtifactDigest v.installationID && retainedArtifactDigest v.machineWorkspace &&
    retainedArtifactDigest v.executorID && executionWorkspace v.runnerWorkspace

def executionBlockedReason : ExecutionReason → Bool
  | .reserved | .startCommitted | .eligible => false
  | _ => true

/-! ## Derived identities -/

def executionResourceID (i : PolicyExecutionIdentity) (job : String) : String :=
  digestOf (bytesOf (i.installationID ++ "\x00" ++ i.machineWorkspace ++ "\x00" ++ i.runnerWorkspace ++ "\x00" ++ job))

def executionCaller (i : PolicyExecutionIdentity) : String := "local-admin:" ++ i.installationID

def executionIntentID (i : PolicyExecutionIdentity) (job key : String) : String :=
  "intent_" ++ digestOf (bytesOf (executionResourceID i job ++ "\x00" ++ executionCaller i ++ "\x00" ++ key))

def activateDigest (q : PolicyExecutionActivateRequest) : String := executionRequestDigest "activate" q.toJson

def reserveDigest (q : PolicyExecutionReserveRequest) : String := executionRequestDigest "reserve" q.toJson

def commitStartDigest (q : PolicyExecutionStartRequest) : String := executionRequestDigest "commitStart" q.toJson

/-! ## Resources -/

/-- What the retained content of an adoption says of one dependency. -/
def adoptionDependencyConsistent (d : PolicyAdoptionDependency) : Bool :=
  validAdoptionSelection d.selection && d.candidateDigest == d.coverageContent.sha256 && d.coverageContent.valid &&
    d.coverageReview.id == d.selection.reviewID && d.coverageReview.candidateID == d.selection.candidateID &&
    d.coverageReview.candidateDigest == d.candidateDigest && d.coverageReview.decision == .approve &&
    d.coverageReview.check.isSome && d.coverageReview.policyRevision == d.policyRevision && d.statement.validate &&
    d.scope.kind == "whole-narrative" && d.statement.status != .awaitingInterpretation

def executionAdoptionSnapshot (l : PolicyLedger) (a : PolicyExecutionAdoption) : Bool :=
  match l.adoptions.get? a.id with
  | none => false
  | some r =>
    let c := a.content
    r.candidateID == a.candidateID && r.content == a.contentRef && decide (a.review ∈ r.reviews) &&
      c.schemaVersion == 1 && c.formatVersion == policyAdoptionFormat &&
      c.portableID == "urn:desk:adoption-candidate:" ++ a.candidateID && c.basisDigest == adoptionBasisDigest c.basis &&
      validCoveragePackSelector c.basis.pack && c.document.valid && c.check.valid && decide (c.materials.length ≤ 16) &&
      decide ((c.basis.dependencies.map fun d => d.selection.policyID).Nodup) &&
      c.basis.dependencies.all adoptionDependencyConsistent

def validExecutionResource (l : PolicyLedger) (e : PolicyExecutionState) (id : String)
    (r : PolicyExecutionRegisteredResource) : Bool :=
  let c := r.content
  let a := c.adoption
  id == executionResourceID e.identity c.resource.jobID && c.resourceID == id && c.resource.valid && r.registration.valid &&
    r.registration.digest == executionHash c.toJson && c.release.valid && decide (c.release.bytes ≤ 8 * 2 ^ 20) &&
    c.resource.releaseDigest == "sha256:" ++ c.release.sha256 && c.pack.valid && c.pack == a.content.basis.pack.content &&
    c.packID == a.content.basis.pack.artifactID && c.packVersion == a.content.basis.pack.version &&
    policyExecutionDigest c.runtimeDigest && c.lifecycleProfile == policyExecutionLifecycle &&
    c.callerDomain == executionCaller e.identity && executionTime c.at_ && decide (c.at_ ≤ e.lastTime) &&
    policyAdoptionIDForm a.id && policyAdoptionCandidateIDForm a.candidateID && a.contentRef.valid &&
    a.review.decision == .approve && a.review.candidateID == a.candidateID &&
    a.review.candidateDigest == a.contentRef.sha256 && a.review.basisDigest == a.content.basisDigest &&
    a.review.check.any RetainedArtifactRef.valid && decide (1 ≤ a.content.basis.dependencies.length) &&
    decide (a.content.basis.dependencies.length ≤ policyAdoptionSetLimit) &&
    a.content.basis.dependencies.all (fun d => validAdoptionSelection d.selection &&
      d.source.policyID == d.selection.policyID && d.source.publicationID == d.policyPublicationID) &&
    executionAdoptionSnapshot l a

def validRegistrationOperation (e : PolicyExecutionState) (id : String) (r : PolicyExecutionRegistrationReceipt) : Bool :=
  policyOperationIDForm id && policyExecutionDigest r.requestDigest &&
    ((e.resources.get? r.resourceID).map fun resource => resource.content.resourceID).getD "" == r.resourceID

/-! ## Intents, epochs, attempts -/

def validExecutionIntent (e : PolicyExecutionState) (id : String) (i : PolicyExecutionIntent) : Bool :=
  match e.resources.get? i.resourceID with
  | none => false
  | some r =>
    id == i.id && id == executionIntentID e.identity i.resource.jobID i.idempotencyKey && executionKey i.idempotencyKey &&
      i.callerDomain == executionCaller e.identity && i.resource == r.content.resource && i.registration == r.registration &&
      i.request.valid && i.facts.valid && decide (i.request.bytes ≤ 2 * 2 ^ 20) && decide (i.facts.bytes ≤ 2 * 2 ^ 20) &&
      i.evidence.all (fun v => v.valid && decide (v.bytes ≤ 2 * 2 ^ 20)) && executionTime i.at_ && decide (i.at_ ≤ e.lastTime)

def validExecutionEpoch (e : PolicyExecutionState) (id : String) (v : PolicyExecutionEpoch) : Bool :=
  id == v.epoch && executionPositive id && retainedArtifactDigest v.sessionID && retainedArtifactDigest v.challenge &&
    v.signing.valid && executionTime v.at_ && decide (v.at_ ≤ e.lastTime) &&
    v.requestDigest == activateDigest { challenge := v.challenge, signing := v.signing }

/-- The epochs are 1..N and the last one is current. -/
def validEpochNumbers (e : PolicyExecutionState) : Bool :=
  (e.currentEpoch == "" ||
      executionPositive e.currentEpoch && (e.epochs.get? e.currentEpoch).any fun v => v.epoch == e.currentEpoch) &&
    (e.epochs.size == 0 || e.currentEpoch == Nat.repr e.epochs.size) &&
    (List.range e.epochs.size).all fun n => (e.epochs.get? (Nat.repr (n + 1))).any fun v => v.epoch != ""

def PolicyExecutionAttempt.startRequest (a : PolicyExecutionAttempt) : PolicyExecutionStartRequest where
  intentID := a.reserve.intentID
  resource := a.reserve.resource
  registration := a.reserve.registration
  payload := a.reserve.payload
  operationID := a.reserved.operationID
  attemptID := a.reserved.attemptID
  epoch := a.reserved.epoch
  rawRequestDigest := a.reserve.rawRequestDigest

/-- State, reason and `Start` agree. -/
def validAttemptStart (a : PolicyExecutionAttempt) : Bool :=
  match a.start with
  | none => match a.state with
    | .reserved => a.reason == .reserved
    | .blocked => executionBlockedReason a.reason
    | .startCommitted => false
  | some s =>
    s.delivery == .committed && s.operationID == a.reserved.operationID && s.attemptID == a.reserved.attemptID &&
      s.epoch == a.reserved.epoch && s.requestDigest == commitStartDigest a.startRequest && s.decision == a.state &&
      s.reason == a.reason && s.at_ == a.at_ && retainedArtifactDigest s.authorityRevision &&
      match s.decision with
      | .reserved => false
      | .blocked => executionBlockedReason s.reason
      | .startCommitted => s.reason == .startCommitted

def validAttemptHold (e : PolicyExecutionState) (a : PolicyExecutionAttempt) : Bool :=
  match a.hold with
  | none => true
  | some hold => a.state == .reserved && a.start.isNone && hold.reason == .operationHeld && executionTime hold.at_ &&
      decide (a.at_ ≤ hold.at_) && decide (hold.at_ ≤ e.lastTime)

def validExecutionAttempt (e : PolicyExecutionState) (id : String) (a : PolicyExecutionAttempt) : Bool :=
  match e.intents.get? id, e.epochs.get? a.reserved.epoch with
  | some i, some ep =>
    a.reserve.rawRequestDigest == "sha256:" ++ i.request.sha256 && executionPositive a.reserved.epoch &&
      ep.epoch == a.reserved.epoch && retainedArtifactDigest a.sessionID &&
      (e.resources.get? i.resourceID).any (fun r => executionPayloadMatches a.reserve.payload r i ep) &&
      a.reserve.intentID == id && a.reserve.resource == i.resource && a.reserve.registration == i.registration &&
      policyExecutionID a.reserved.operationID && policyExecutionID a.reserved.attemptID &&
      a.reserved.delivery == .committed && a.reserved.requestDigest == reserveDigest a.reserve &&
      ep.sessionID == a.sessionID && executionTime a.at_ && decide (a.at_ ≤ e.lastTime) &&
      executionPayloadShape a.reserve.payload && validAttemptHold e a && validAttemptStart a
  | _, _ => false

def validExecutionState (l : PolicyLedger) (e : PolicyExecutionState) : Bool :=
  e.version == 1 && e.profile == policyExecutionProfile && e.identity.valid && executionTime e.lastTime &&
    decide (e.resources.size ≤ policyExecutionResourceLimit) &&
    decide (e.registrationOperations.size ≤ policyOperationLimit) &&
    decide (e.intents.size ≤ policyExecutionIntentLimit) && decide (e.epochs.size ≤ policyExecutionEpochLimit) &&
    decide (e.attempts.size ≤ policyExecutionIntentLimit) && validEpochNumbers e &&
    e.resources.all (validExecutionResource l e) && e.registrationOperations.all (validRegistrationOperation e) &&
    e.intents.all (validExecutionIntent e) && e.epochs.all (validExecutionEpoch e) &&
    decide ((e.epochs.entries.map fun v => v.2.sessionID).Nodup) && e.attempts.all (validExecutionAttempt e) &&
    decide ((e.attempts.entries.map fun a => a.2.reserved.operationID).Nodup) &&
    decide ((e.attempts.entries.map fun a => a.2.reserved.attemptID).Nodup)

def validatePolicyExecution (l : PolicyLedger) : Bool :=
  if l.schemaVersion == 2 then l.execution.isNone
  else l.schemaVersion == 3 && l.execution.any (validExecutionState l)

/-! ## The whole ledger -/

def validatePolicyLedger (ledger : PolicyLedger) : Bool :=
  (ledger.schemaVersion == policyStorageSchemaVersion || ledger.schemaVersion == policyExecutionLedgerSchemaVersion) &&
    decide (ledger.policies.size ≤ policyCountLimit) && decide (ledger.operations.size ≤ policyOperationLimit) &&
    validatePolicyExecution ledger && ledger.policies.all validatePolicyRecord &&
    ledger.operations.all (validPolicyOperation ledger) && validatePolicyLifecycles ledger && validatePolicySources ledger &&
    validatePolicySourceAuthorities ledger && validatePolicyCoverages ledger && validatePolicyAdoptions ledger &&
    validatePolicyRecovery ledger

end Desk
