import Desk.Service.Policy

/-!
# Source commands

Binding a connected source, pausing, resuming and revoking it, asking for a check
and keeping the current candidate. Every command is one step of the binding state
machine and starts a new generation of the source.
-/

namespace Desk

def sourceIdentity (id : String) (actor : PolicyActor) (q : PolicySourceSyncRequest) (action : SourceActionKind) :
    PolicyCommandIdentity where
  kind := .source action
  policyID := id
  operationID := q.operationID
  requestDigest := bodyRequestDigest id actor q.toJson
  actor := actor

def policySyncReply (record : PolicyStoredRecord) (source : PolicyConnectedSource) (supported : Bool) :
    PolicySourceSyncReply where
  recovery := policyRecoveryProjection record none
  revision := policySourceRevision (some source)
  supported := supported
  pending := policySourcePending record (some source)
  state := some (if policyRecoverySourceHeld (some source) then
    { source with state := .authorizationEnded, errorCode := "restored-source-consent-required", gap := true, poll := none
                  nextCheck := "" }
    else source)

/-! ## Transitions -/

def appendPolicySourceCleanup (ids : List String) (id : String) : List String := if id ∈ ids then ids else ids ++ [id]

/-- The current grant and binding are left for the next poll to take back. -/
def PolicyConnectedSource.released (source : PolicyConnectedSource) : PolicyConnectedSource :=
  { source with
    cleanupOperations := appendPolicySourceCleanup source.cleanupOperations source.grant.operationID
    cleanup := match source.binding with
      | some binding => appendPolicySourceCleanup source.cleanup binding.bindingID
      | none => source.cleanup }

def newConnectedSource : PolicyConnectedSource where
  recovery := none
  version := 1
  generation := 0
  state := .binding
  frequencyMinutes := 0
  grant := default
  binding := none
  cleanupOperations := []
  cleanup := []
  poll := none
  lastAttempt := ""
  lastSuccess := ""
  nextCheck := ""
  errorCode := ""
  gap := false
  observations := []
  resolutions := []
  actions := []

/-- What a command meets: the policy it names, the session's authority and what the Gateway supports. -/
structure SourceContext where
  id : String
  actor : PolicyActor
  q : PolicySourceSyncRequest
  authority : String
  supported : Bool
  now : String

def sourceConflict (message : String) : PolicyFailure := policyRefusal 409 "source-conflict" message

def sourceGrant (c : SourceContext) : PolicySourceGrant where
  authority := c.authority
  actor := c.actor
  at_ := c.now
  operationID := digestOf (bytesOf (c.id ++ "\x00" ++ c.q.operationID))
  resourceID := c.q.resourceID
  selectionContext := c.q.selectionContext

/-- What is kept of the source before a bind; only the first bind after a restore forgets the archived cleanup. -/
def sourceBefore (source : Option PolicyConnectedSource) : PolicyConnectedSource :=
  match source with
  | none => newConnectedSource
  | some s =>
    if policyRecoverySourceHeld (some s) then { s with cleanupOperations := [], cleanup := [], poll := none }
    else if s.grant.operationID == "" then
      { s with cleanup := match s.binding with
          | some binding => appendPolicySourceCleanup s.cleanup binding.bindingID
          | none => s.cleanup }
    else s.released

def sourceBind (c : SourceContext) (source : Option PolicyConnectedSource) : Except GoError PolicyConnectedSource := do
  require c.supported (policyRefusal 409 "source-unsupported"
    "The installed Gateway does not support automatic policy source checks.")
  require (retainedArtifactDigest c.authority && c.q.consent == "recurring-read-after-sign-out" &&
      retainedArtifactDigest c.q.selectionContext && c.q.resourceID != "" && decide (len c.q.resourceID ≤ 4096) &&
      policySourceFrequency c.q.frequencyMinutes.toNat)
    (policyRefusal 400 "bad-request" "Review recurring source access and choose a supported check frequency.")
  require (source.all fun s => policyRecoverySourceHeld (some s) || s.state == .revoked || s.state == .authorizationEnded)
    (sourceConflict "Revoke the current source before connecting another.")
  let before := sourceBefore source
  let grant := sourceGrant c
  return { before with
    grant := grant, recovery := before.recovery.map fun r => { r with consentOperationID := grant.operationID }
    state := .binding, frequencyMinutes := c.q.frequencyMinutes.toNat, binding := none, lastSuccess := "" }

def sourceKeepCurrent (c : SourceContext) (record : PolicyStoredRecord) (s : PolicyConnectedSource) :
    Except GoError PolicyConnectedSource := do
  let ended := s.state == .revoked || s.state == .authorizationEnded
  require ((s.observations.getLast?.any fun latest =>
        (policyRecoverySourceHeld (some s) || (s.binding.any fun b => latest.bindingID == b.bindingID) || ended) &&
          latest.id == c.q.observationID) &&
      decide (s.resolutions.length < policyHistoryLimit) && decide (len c.q.comment ≤ 8192))
    (sourceConflict "Review the latest retained source update before keeping the current candidate.")
  let head := policyHead record
  require (head.digest == c.q.candidateDigest && head.workflowDigest == c.q.workflowDigest)
    (sourceConflict "Review the current candidate and workflow.")
  let resolution : PolicySourceResolution :=
    { observationID := c.q.observationID, candidateRevisionID := head.id, candidateDigest := head.digest
      workflowDigest := head.workflowDigest, at_ := c.now, actor := c.actor, comment := c.q.comment }
  return { s with resolutions := s.resolutions ++ [resolution] }

def sourceTransition (c : SourceContext) (record : PolicyStoredRecord) (source : Option PolicyConnectedSource) :
    SourceActionKind → Except GoError PolicyConnectedSource
  | .bind => sourceBind c source
  | .pause => do
    let s ← found source (sourceConflict "Connect a policy source first.")
    require (s.state == .active || s.state == .binding) (sourceConflict "This source is not running.")
    return { s with state := .paused }
  | .resume => do
    let s ← found source (sourceConflict "Connect a policy source first.")
    require (s.state == .paused && s.grant.authority == c.authority && c.supported)
      (policyRefusal 409 "source-authorization-ended" "Reconnect this source with current administrator consent.")
    return { s with state := if s.binding.isNone then .binding else .active }
  | .revoke => do
    let s ← found source (sourceConflict "Connect a policy source first.")
    return { s.released with state := .revoked }
  | .checkNow => do
    let s ← found source (sourceConflict "Connect a policy source first.")
    require (s.state == .active || s.state == .binding) (sourceConflict "Resume this source before checking it.")
    return s
  | .keepCurrent => do
    let s ← found source (sourceConflict "Connect a policy source first.")
    sourceKeepCurrent c record s

/-- What every command does to the source it leaves. -/
def PolicyConnectedSource.acted (s : PolicyConnectedSource) (c : SourceContext) (action : SourceActionKind) :
    PolicyConnectedSource :=
  { s with generation := s.generation + 1, poll := none, nextCheck := c.now, errorCode := ""
           actions := s.actions ++ [⟨action, c.now, c.actor⟩] }

/-- Consent to a restored source is recorded on the policy too. -/
def consented (record : PolicyStoredRecord) : PolicyStoredRecord :=
  { record with recovery := record.recovery.map fun r => { r with sourceConsentRequired := false } }

/-! ## The command -/

namespace Call

def sourceResult (c : SourceContext) (action : SourceActionKind) (reply : PolicyReply) (sync : PolicySourceSyncReply) :
    PolicyMutationReply :=
  { (default : PolicyMutationReply) with
    delivery := .committed, policy := reply, sourceSync := some sync.toJson
    receipt := { (default : PolicyOperationReceipt) with
      operationID := c.q.operationID, kind := .source action, policyID := c.id
      requestDigest := (sourceIdentity c.id c.actor c.q action).requestDigest, at_ := c.now, actor := c.actor
      revision := reply.revision, candidateDigest := reply.document.candidate.digest } }

/-- The operation itself, on a ledger where it has not been committed before. -/
def sourceDecision (call : Call) (c : SourceContext) (action : SourceActionKind) (ledger : PolicyLedger) :
    Except GoError (Bool × PolicyLedger × PolicyMutationReply) := do
  let record ← found (ledger.policies.get? c.id) (policyRefusal 404 "not-found" "Policy not found.")
  let source := ledger.sources.get? c.id
  let stream := ledger.sourceAuthorities.get? c.id
  require (policyEffectiveRevision record stream == c.q.baseRevision && policySourceRevision source == c.q.baseSourceRevision)
    (sourceConflict "The policy or source changed. Review the latest source state before continuing.")
  require (decide (ledger.operations.size < policyOperationLimit) &&
      source.all fun s => decide (s.actions.length < policyHistoryLimit))
    (policyRefusal 409 "storage-capacity" "Policy source history has reached its supported capacity.")
  let held := policyRecoverySourceHeld source
  require (!held || action == .bind || action == .keepCurrent) (policyRefusal 409 "restored-source-consent-required"
    "Choose this source again with current administrator consent before provider actions. Retained observations remain historical.")
  let moved ← sourceTransition c record source action
  let next := moved.acted c action
  let consents := held && action == .bind
  let record := if consents then consented record else record
  let reply ← call.reply 2 record stream
  let sync := { policySyncReply record next c.supported with recovery := policyRecoveryProjection record stream }
  let result := sourceResult c action reply sync
  let ref ← call.put result.toJson.marshal
  call.authorize 3
  return (true, { ledger with
    policies := if consents then ledger.policies.set c.id record else ledger.policies
    sources := ledger.sources.set c.id next
    operations := ledger.operations.set c.q.operationID ⟨c.q.operationID, .source action, c.id,
      (sourceIdentity c.id c.actor c.q action).requestDigest, ref⟩ }, result)

def sourceUpdate (call : Call) (c : SourceContext) (action : SourceActionKind) : Transaction PolicyMutationReply :=
  fun ledger => do
    call.authorize 0
    let recovered ← call.recovered 1 ledger (sourceIdentity c.id c.actor c.q action)
    match recovered with
    | some result => return (false, ledger, result)
    | none => call.sourceDecision c action ledger

def sourceCommand (call : Call) (id : String) (actor : PolicyActor) (q : PolicySourceSyncRequest) (authority : String)
    (supported : Bool) (ledger : PolicyLedger) : Except GoError PolicyMutationReply × PolicyLedger :=
  let refused := policyRefusal 400 "bad-request" "Invalid source synchronization action."
  match SourceActionKind.ofText q.action with
  | none => (.error (.refusal refused), ledger)
  | some action =>
    if !(policyOperationIDForm q.operationID) then (.error (.refusal refused), ledger)
    else call.storage.update (call.sourceUpdate ⟨id, actor, q, authority, supported, call.clock.format⟩ action) ledger

end Call

end Desk
