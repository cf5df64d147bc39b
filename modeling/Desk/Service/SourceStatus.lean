import Desk.Policy.SourceStatus
import Desk.Service.Recovered

/-!
# Source status commands

An administrator configures what a connected source counts as, sets who manages
the policy, applies an external version or imports a new draft. Each decision is
one event of the authority stream of the policy.
-/

namespace Desk

/-- The digest of a request and what else names its operation. -/
def sourceStatusIdentity (id : String) (actor : PolicyActor) (q : PolicySourceStatusRequest) (kind : AuthorityKind) :
    PolicyCommandIdentity where
  kind := .authority kind
  policyID := id
  operationID := q.operationID
  requestDigest := bodyRequestDigest id actor q.toJson
  actor := actor

/-! ## The decision of one event -/

/-- What the switch over the actions leaves: the ledger and the two records it changes, the event, and
the references of the receipt. -/
structure StatusChange where
  ledger : PolicyLedger
  record : PolicyStoredRecord
  source : Option PolicyConnectedSource
  event : PolicySourceAuthorityEvent
  configurationID : String
  observationID : String
  externalVersionID : String

/-- An event as it is before the switch over the actions. -/
def statusEvent (record : PolicyStoredRecord) (stream : Option PolicySourceAuthorityStream) (kind : AuthorityKind)
    (q : PolicySourceStatusRequest) (actor : PolicyActor) (eventID now : String) : PolicySourceAuthorityEvent where
  id := eventID
  sequence := (authorityEvents stream).length + 1
  kind := kind
  at_ := now
  actor := actor
  rationale := q.rationale
  policySequence := policyEventCount record
  configuration := none
  managementMode := none
  externalVersion := none
  importedDraft := none

def authorityConflict (message : String) : PolicyFailure := policyRefusal 409 "authority-conflict" message

def statusOwnership (q : PolicySourceStatusRequest) (view : PolicySourceStatusReply) (c : StatusChange) :
    Except GoError StatusChange := do
  let mode ← found (ManagementMode.ofText q.managementMode)
    (policyRefusal 400 "bad-request" "Choose Desk-managed or externally managed ownership.")
  require (mode != view.ownership.mode || view.ownership.inherited)
    (authorityConflict "This ownership is already recorded.")
  return { c with event := { c.event with managementMode := some mode } }

namespace Call

def statusConfigure (call : Call) (q : PolicySourceStatusRequest) (view : PolicySourceStatusReply) (c : StatusChange) :
    Except GoError StatusChange := do
  require view.availability.usable (policyRefusal 409 "source-status-unavailable"
    "A current usable source observation is required to configure source status.")
  require (view.capability.kind == "not-exposed") (policyRefusal 409 "unsupported-lifecycle-mapping"
    "This Gateway lifecycle capability has no supported authority adapter.")
  -- a usable source is bound
  let binding := view.binding.getD default
  require (q.bindingID == binding.bindingID) (authorityConflict "Review the exact current source binding.")
  let fallback ← found (FallbackStatus.ofText (if q.fallbackStatus = "" then "draft" else q.fallbackStatus))
    (policyRefusal 400 "bad-request" "Choose Draft or an explicit administrator-configured Published fallback.")
  let configID ← call.newPolicyEventID 1 "configuration"
  let configuration : PolicySourceStatusConfiguration :=
    { id := configID, bindingID := q.bindingID, source := binding.source, capability := "not-exposed"
      fallbackStatus := fallback, at_ := c.event.at_, actor := c.event.actor }
  return { c with event := { c.event with configuration := some configuration }, configurationID := configID }

/-- The observation that is applied or imported: the latest one, retained whole. -/
def statusObservation (call : Call) (q : PolicySourceStatusRequest) (view : PolicySourceStatusReply)
    (source : Option PolicyConnectedSource) : Except GoError PolicySourceObservation := do
  let p := view.currentPreview
  require p.eligible (policyRefusal 409 "source-status-unavailable"
    "The current source status basis is unavailable or needs configuration review.")
  require (q.observationID == p.observationID && q.configurationID == p.configurationID)
    (authorityConflict "Review the exact current observation and configuration.")
  -- an eligible preview has an observation
  let observation := (latestObservation source).getD default
  let _ ← beforeCommit (call.get observation.original)
  let _ ← beforeCommit (call.get observation.document)
  return observation

def applyExternalRefusal (action : PolicySourceStatusAction) : PolicyFailure :=
  policyRefusal 409 (if action.reason = "external-ownership-required" then "external-ownership" else action.reason)
    "Review external ownership and an eligible unapplied non-Draft status."

def statusApplyExternal (call : Call) (q : PolicySourceStatusRequest) (view : PolicySourceStatusReply)
    (c : StatusChange) : Except GoError StatusChange := do
  let observation ← call.statusObservation q view c.source
  let action := (view.actions.get? "applyExternal").getD default
  require action.allowed (applyExternalRefusal action)
  let versionID ← call.newPolicyEventID 1 "external"
  let version : PolicyExternalVersion :=
    { id := versionID, eventID := c.event.id, configurationID := q.configurationID, observation := observation
      status := view.currentPreview.status, provenance := view.currentPreview.provenance, rawStatus := ""
      evidence := none, at_ := c.event.at_, actor := c.event.actor }
  return { c with event := { c.event with externalVersion := some version }, configurationID := q.configurationID
                  observationID := q.observationID, externalVersionID := versionID }

/-- The revision an import appends to the record. -/
def importedRevision (c : StatusChange) (draft : PolicySourceStatusDraft) (revisionID : String)
    (content : RetainedArtifactRef) : PolicyRevision where
  source := none
  id := revisionID
  sequence := policyEventCount c.record + 1
  digest := content.sha256
  title := draft.title
  artifactVersion := draft.artifactVersion
  content := content
  workflow := (policyHead c.record).workflow
  workflowDigest := (policyHead c.record).workflowDigest
  at_ := c.event.at_
  actor := c.event.actor

def statusImportDraft (call : Call) (id : String) (q : PolicySourceStatusRequest) (view : PolicySourceStatusReply)
    (c : StatusChange) : Except GoError StatusChange := do
  let observation ← call.statusObservation q view c.source
  require ((view.actions.get? "importDraft").getD default).allowed (policyRefusal 409 "draft-status-required"
    "Review a usable source status before explicitly importing a new Desk draft.")
  require (decide (c.record.revisions.length < policyHistoryLimit)) (policyRefusal 409 "storage-capacity"
    "This policy has reached its supported draft history capacity.")
  -- the command admits no import without a draft
  let draft := q.draft.getD ⟨"", "", ""⟩
  let candidate : PolicyCandidateContent :=
    { source := none, schemaVersion := 1, title := draft.title, narrative := draft.narrative
      artifactVersion := draft.artifactVersion }
  let content ← call.put candidate.toJson.marshal
  let revisionID ← call.newPolicyEventID 1 "revision"
  let revision := importedRevision c draft revisionID content
  let record := { c.record with revisions := c.record.revisions ++ [revision], headRevisionID := revision.id
                                currentReviewID := "", updatedAt := revision.at_ }
  let imported : PolicySourceImportedDraft :=
    { configurationID := q.configurationID, observation := observation, candidateRevisionID := revision.id
      candidateDigest := revision.digest, workflowDigest := revision.workflowDigest }
  let source := c.source.getD default
  require (decide (source.resolutions.length < policyHistoryLimit)) (policyRefusal 409 "storage-capacity"
    "Source resolution history has reached its supported capacity.")
  let resolution : PolicySourceResolution :=
    { observationID := observation.id, candidateRevisionID := revision.id, candidateDigest := revision.digest
      workflowDigest := revision.workflowDigest, at_ := revision.at_, actor := revision.actor, comment := q.rationale }
  let source := { source with resolutions := source.resolutions ++ [resolution] }
  return { c with
    ledger := { c.ledger with policies := c.ledger.policies.set id record, sources := c.ledger.sources.set id source }
    record := record, source := some source
    event := { c.event with policySequence := revision.sequence, importedDraft := some imported }
    configurationID := q.configurationID, observationID := q.observationID }

def statusChange (call : Call) (id : String) (q : PolicySourceStatusRequest) (view : PolicySourceStatusReply)
    (c : StatusChange) : AuthorityKind → Except GoError StatusChange
  | .setOwnership => statusOwnership q view c
  | .configure => call.statusConfigure q view c
  | .applyExternal => call.statusApplyExternal q view c
  | .importDraft => call.statusImportDraft id q view c

/-! ## The command -/

/-- The answer to a decision that has been appended to `stream`. -/
def statusResult (c : StatusChange) (stream : PolicySourceAuthorityStream) (command : PolicyCommandIdentity)
    (authority : String) : PolicyMutationReply :=
  let current := policySourceStatusView c.record c.source (some stream) authority
  { (default : PolicyMutationReply) with
    outcomeKind := "source-authority", delivery := .committed, policyID := command.policyID
    policyRevision := current.policyRevision, sourceStatus := some current
    receipt := { (default : PolicyOperationReceipt) with
      operationID := command.operationID, kind := command.kind, policyID := command.policyID
      requestDigest := command.requestDigest, at_ := c.event.at_, actor := command.actor
      configurationID := c.configurationID, observationID := c.observationID, externalVersionID := c.externalVersionID
      revision := current.policyRevision, candidateDigest := current.candidateDigest
      authorityRevision := current.revision, authorityEventID := c.event.id } }

/-- The operation itself, on a ledger where it has not been committed before. -/
def sourceStatusDecision (call : Call) (id : String) (actor : PolicyActor) (q : PolicySourceStatusRequest)
    (kind : AuthorityKind) (authority : String) (ledger : PolicyLedger) :
    Except GoError (Bool × PolicyLedger × PolicyMutationReply) := do
  let record ← found (ledger.policies.get? id) (policyRefusal 404 "not-found" "Policy not found.")
  let source := ledger.sources.get? id
  let stream := ledger.sourceAuthorities.get? id
  require (q.baseRevision == policyEffectiveRevision record stream && q.baseSourceRevision == policySourceRevision source &&
      q.baseAuthorityRevision == policyAuthorityRevision stream)
    (authorityConflict "The policy, source or authority configuration changed. Review the current basis.")
  require (decide (ledger.operations.size < policyOperationLimit) &&
      decide ((authorityEvents stream).length < policyHistoryLimit))
    (policyRefusal 409 "storage-capacity" "Source authority history has reached its supported capacity.")
  let view := policySourceStatusView record source stream authority
  let eventID ← call.newPolicyEventID 0 "authority"
  let event := statusEvent record stream kind q actor eventID call.lifecycleNow
  let c ← call.statusChange id q view ⟨ledger, record, source, event, "", "", ""⟩ kind
  let stream : PolicySourceAuthorityStream := { version := (stream.map PolicySourceAuthorityStream.version).getD 1
                                                events := authorityEvents stream ++ [c.event] }
  let command := sourceStatusIdentity id actor q kind
  let result := statusResult c stream command authority
  let ref ← call.put result.toJson.marshal
  call.authorize 4
  return (true, { c.ledger with
    sourceAuthorities := c.ledger.sourceAuthorities.set id stream
    operations := c.ledger.operations.set q.operationID ⟨q.operationID, command.kind, id, command.requestDigest, ref⟩ },
    result)

def sourceStatusUpdate (call : Call) (id : String) (actor : PolicyActor) (q : PolicySourceStatusRequest)
    (kind : AuthorityKind) (authority : String) : Transaction PolicyMutationReply := fun ledger => do
  call.authorize 2
  let recovered ← call.recovered 3 ledger (sourceStatusIdentity id actor q kind)
  match recovered with
  | some result => return (false, ledger, result)
  | none => call.sourceStatusDecision id actor q kind authority ledger

end Call

namespace PolicyCall

/-- The checks of an import that need no ledger. -/
def draftAdmitted (call : PolicyCall) (q : PolicySourceStatusRequest) : AuthorityKind → Except GoError Unit
  | .importDraft => do
    let draft ← found (q.draft.filter fun draft => decide (len draft.title ≤ 500) &&
        decide (len draft.narrative ≤ policyNarrativeLimit) && decide (len draft.artifactVersion ≤ policyArtifactVersionLimit))
      (policyRefusal 400 "bad-request" "Review bounded draft text and version before importing.")
    if blank draft.artifactVersion then return ()
    let validateVersion ← found call.validateVersion
      (policyRefusal 503 "runtime-unavailable" "Runtime version checks are unavailable.")
    beforeCommit (validateVersion draft.artifactVersion draft.artifactVersion)
  | _ => .ok ()

/-- The command views the ledger `seen` before its transaction meets `ledger`. -/
def sourceStatusCommand (call : PolicyCall) (id : String) (actor : PolicyActor) (q : PolicySourceStatusRequest)
    (authority : String) (seen ledger : PolicyLedger) : Except GoError PolicyMutationReply × PolicyLedger :=
  let refused := policyRefusal 400 "bad-request" "Review a valid source authority action and rationale."
  match AuthorityKind.ofText q.action with
  | none => (.error (.refusal refused), ledger)
  | some kind =>
    if !(policyOperationIDForm q.operationID) || blank q.rationale || decide (8192 < len q.rationale) then
      (.error (.refusal refused), ledger)
    else
      let completed := call.reading.view (fun l => do
        call.authorize 0
        call.recovered 1 l (sourceStatusIdentity id actor q kind)) seen
      match completed with
      | .error e => (.error e, ledger)
      | .ok (some result) => (.ok result, ledger)
      | .ok none => match call.draftAdmitted q kind with
        | .error e => (.error e, ledger)
        | .ok () => call.storage.update (call.sourceStatusUpdate id actor q kind authority) ledger

end PolicyCall

end Desk
