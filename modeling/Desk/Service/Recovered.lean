import Desk.Policy.Lifecycle
import Desk.Policy.Validate
import Desk.Service.Call
import Desk.Types.Request

/-!
# Repeated requests

A repeated request is answered from the retained answer to the first one, which
has to agree with its receipt member by member.
-/

namespace Desk

/-! ## Consistent answers -/

/-- Whether the policy member, the only one of the two identities, names the receipt. -/
def validPolicyMutationIdentity (result : PolicyMutationReply) : Bool :=
  let named := result.policyID == result.receipt.policyID && result.policyRevision == result.receipt.revision &&
    result.policy.document.id == "" && result.policy.revision == ""
  match result.receipt.kind with
  -- the answers of these two services are read by those services
  | .adoptionPrepare | .adoptionReview | .coverageSave | .coverageReview => false
  | .lifecycle _ => result.outcomeKind == "lifecycle" && named
  | .authority _ => result.outcomeKind == "source-authority" && named
  | _ => result.outcomeKind == "" && result.policyID == "" && result.policyRevision == "" &&
      result.policy.document.id == result.receipt.policyID && result.policy.revision == result.receipt.revision

def validPolicyLifecycleResult (result : PolicyMutationReply) : Bool :=
  match result.receipt.kind with
  | .lifecycle action =>
    result.lifecycle.any fun l => l.revision == result.receipt.lifecycleRevision &&
      l.policyRevision == result.receipt.revision && l.events.getLast?.any fun event =>
        event.id == result.receipt.lifecycleEventID && event.publicationID == result.receipt.publicationID &&
          event.candidateDigest == result.receipt.candidateDigest && event.actor == result.receipt.actor &&
          event.at_ == result.receipt.at_ && event.action == action
  | _ => result.lifecycle.isNone

def validPolicyAuthorityObservation (o : PolicySourceObservation) : Bool :=
  retainedArtifactDigest o.id && retainedArtifactDigest o.bindingID && validPolicyConnectedIdentity o.source &&
    o.sourceRevision != "" && decide (len o.sourceRevision ≤ 4096) && validPolicyTime o.observedAt &&
    validPolicyTime o.retainedAt && o.availability == "present" && o.coverage == "snapshot-only" &&
    o.lifecycle.kind == "not-exposed" && o.original.valid && o.document.valid &&
    o.content.bytesDigest == "sha256:" ++ o.original.sha256 && o.content.byteLength == o.original.bytes &&
    o.extraction.content.bytesDigest == "sha256:" ++ o.document.sha256 &&
    o.extraction.content.byteLength == o.document.bytes &&
    o.extraction.content.mediaType == "application/vnd.jpack.attachment+json" &&
    o.extraction.profile == "attachment-record-v1/canon" && retainedArtifactDigest o.semanticDigest &&
    validPolicyPrefixedDigest o.extraction.configurationDigest

/-- The loop over the events of an answered stream: the ids seen, the configurations, the mode. -/
structure AnsweredLoop where
  ids : List String
  configs : List PolicySourceStatusConfiguration
  mode : ManagementMode

def answeredBasis (s : AnsweredLoop) (configurationID : String) (o : PolicySourceObservation) :
    Option PolicySourceStatusConfiguration :=
  (lastWith PolicySourceStatusConfiguration.id s.configs configurationID).filter fun c =>
    c.bindingID == o.bindingID && c.source == o.source

def answeredStep (i : Nat) (s : AnsweredLoop) (e : PolicySourceAuthorityEvent) : Option AnsweredLoop :=
  if !(policyAuthorityIDForm e.id && hasPrefix e.id "authority_" && decide (e.id ∉ s.ids) && e.sequence == i + 1 &&
      validPolicyLifecycleTime e.at_ && validPolicyActor e.actor && !blank e.rationale &&
      decide (len e.rationale ≤ 8192) && e.fields == 1) then none
  else
    let s := { s with ids := e.id :: s.ids }
    match e.kind with
    | .configure => match e.configuration with
      | none => none
      | some c =>
        if policyAuthorityIDForm c.id && hasPrefix c.id "configuration_" && decide (c.id ∉ s.ids) &&
            retainedArtifactDigest c.bindingID && validPolicyConnectedIdentity c.source &&
            c.capability == "not-exposed" && c.at_ == e.at_ && c.actor == e.actor then
          some { s with ids := c.id :: s.ids, configs := s.configs ++ [c] }
        else none
    | .setOwnership => e.managementMode.map fun mode => { s with mode := mode }
    | .applyExternal => match e.externalVersion with
      | none => none
      | some v =>
        if s.mode == .externallyManaged && policyAuthorityIDForm v.id && hasPrefix v.id "external_" &&
            decide (v.id ∉ s.ids) && v.eventID == e.id && v.at_ == e.at_ && v.actor == e.actor &&
            v.status == "published" && v.provenance == "admin-configured" && v.rawStatus == "" && v.evidence.isNone &&
            validPolicyAuthorityObservation v.observation &&
            (answeredBasis s v.configurationID v.observation).any (·.fallbackStatus == .published) then
          some { s with ids := v.id :: s.ids }
        else none
    | .importDraft => match e.importedDraft with
      | none => none
      | some d =>
        if validPolicyAuthorityObservation d.observation && policyEventIDForm d.candidateRevisionID &&
            hasPrefix d.candidateRevisionID "revision_" && retainedArtifactDigest d.candidateDigest &&
            retainedArtifactDigest d.workflowDigest && (answeredBasis s d.configurationID d.observation).isSome then
          some { s with mode := .deskManaged }
        else none

def answeredLoop : Nat → AnsweredLoop → List PolicySourceAuthorityEvent → Option AnsweredLoop
  | _, s, [] => some s
  | i, s, e :: rest => (answeredStep i s e).bind fun s => answeredLoop (i + 1) s rest

/-- The configuration, observation and external version that the last event leaves in the receipt. -/
def receiptReferences (r : PolicySourceStatusReply) (e : PolicySourceAuthorityEvent) : Option (String × String × String) :=
  match e.kind with
  | .configure => e.configuration.map fun c => (c.id, "", "")
  | .setOwnership => e.managementMode.map fun _ => ("", "", "")
  | .applyExternal => (e.externalVersion.filter fun v =>
      v.eventID == e.id && v.actor == e.actor && v.at_ == e.at_).map fun v => (v.configurationID, v.observation.id, v.id)
  | .importDraft => (e.importedDraft.filter fun d => d.candidateDigest == r.candidateDigest &&
      d.candidateRevisionID == r.candidateRevisionID).map fun d => (d.configurationID, d.observation.id, "")

def validPolicySourceAuthorityResult (result : PolicyMutationReply) : Bool :=
  let receipt := result.receipt
  match receipt.kind, result.sourceStatus with
  | .authority kind, some r =>
    let stream : PolicySourceAuthorityStream := ⟨1, r.events⟩
    let configurations := r.events.filterMap PolicySourceAuthorityEvent.configuration
    let versions := r.events.filterMap PolicySourceAuthorityEvent.externalVersion
    retainedArtifactDigest r.candidateDigest && policyEventIDForm r.candidateRevisionID &&
      hasPrefix r.candidateRevisionID "revision_" && receipt.lifecycleEventID == "" && receipt.lifecycleRevision == "" &&
      receipt.reviewID == "" && receipt.publicationID == "" && result.outcomeKind == "source-authority" &&
      r.revision == receipt.authorityRevision && r.policyRevision == receipt.revision &&
      r.candidateDigest == receipt.candidateDigest && r.revision == policyAuthorityRevision (some stream) &&
      result.lifecycle.isNone && result.sourceSync.isNone &&
      (r.events.getLast?.any fun event => event.id == receipt.authorityEventID && event.kind == kind &&
        event.at_ == receipt.at_ && event.actor == receipt.actor &&
        receiptReferences r event == some (receipt.configurationID, receipt.observationID, receipt.externalVersionID)) &&
      (policyAuthorityOwnership (some stream)).owner == r.ownership && versions == r.externalVersions &&
      versions.getLast? == r.lastApplied && configurations == r.configurations &&
      configurations.getLast? == r.currentConfig && (answeredLoop 0 ⟨[], [], .deskManaged⟩ r.events).isSome
  | .authority _, none => false
  | _, status => status.isNone && receipt.authorityRevision == "" && receipt.authorityEventID == "" &&
      receipt.configurationID == "" && receipt.observationID == "" && receipt.externalVersionID == ""

def validPolicyCoverageResult (result : PolicyMutationReply) : Bool :=
  result.coverage.isNone && result.receipt.coverageID == "" && result.receipt.coverageRevision == "" &&
    result.receipt.coverageCandidateID == ""

def validPolicyAdoptionResult (result : PolicyMutationReply) : Bool :=
  result.adoption.isNone && result.receipt.adoptionID == "" && result.receipt.adoptionRevision == "" &&
    result.receipt.adoptionCandidateID == ""

/-! ## Recovery -/

/-- What of a command names its operation. -/
structure PolicyCommandIdentity where
  kind : OperationKind
  policyID : String
  operationID : String
  requestDigest : String
  actor : PolicyActor

def Call.retainedReply (call : Call) (ref : RetainedArtifactRef) : Except GoError PolicyMutationReply :=
  match call.get ref with
  | .ok raw => found (call.codec.reply raw) policyUncertainStorage
  | .error _ => .error (.refusal policyUncertainStorage)

/-- The retained answer to `command`, if its operation has been committed. -/
def Call.recovered (call : Call) (n : Nat) (ledger : PolicyLedger) (command : PolicyCommandIdentity) :
    Except GoError (Option PolicyMutationReply) :=
  match ledger.operations.get? command.operationID with
  | none => .ok none
  | some operation => do
    require (operation.kind == command.kind && operation.requestDigest == command.requestDigest &&
        (command.kind == .create || operation.policyID == command.policyID))
      (policyRefusal 409 "idempotency-conflict"
        "This operation ID was already used for a different request. Keep the original request or start a new reviewed operation.")
    let result ← call.retainedReply operation.result
    require (result.delivery == .committed && result.receipt.operationID == command.operationID &&
        result.receipt.kind == command.kind && result.receipt.requestDigest == command.requestDigest &&
        result.receipt.policyID == operation.policyID && result.receipt.actor == command.actor &&
        validPolicyMutationIdentity result && validPolicyLifecycleResult result &&
        validPolicySourceAuthorityResult result && validPolicyCoverageResult result && validPolicyAdoptionResult result)
      policyUncertainStorage
    call.authorize n
    return some { result with delivery := .recovered }

/-- An operation that was never committed is not recovered. -/
theorem Call.recovered_none {call : Call} {n : Nat} {ledger : PolicyLedger} {command : PolicyCommandIdentity}
    (h : call.recovered n ledger command = .ok none) : ledger.operations.get? command.operationID = none := by
  unfold recovered at h
  split at h
  · assumption
  · simp only [bind_eq_ok] at h
    obtain ⟨_, _, _, _, _, _, _, _, h⟩ := h
    cases h

end Desk
