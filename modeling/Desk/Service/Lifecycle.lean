import Desk.Execution.HighWater
import Desk.Service.Recovered

/-!
# Lifecycle commands

Activation and withdrawal of one publication. A ledger without execution
authority is changed as it is; one with it is changed under the high water.
-/

namespace Desk

/-- The digest of a request and what else names its operation. -/
def lifecycleIdentity (id : String) (actor : PolicyActor) (q : PolicyLifecycleRequest) (action : LifecycleAction) :
    PolicyCommandIdentity where
  kind := .lifecycle action
  policyID := id
  operationID := q.operationID
  requestDigest := bodyRequestDigest id actor q.toJson
  actor := actor

/-! ## The event of a command -/

/-- What an event schedules: nothing for a withdrawal. -/
structure LifecycleSchedule where
  effectiveAt : String
  expiresAt : String
  supersedesPublicationID : String

def publicationTooOld (record : PolicyStoredRecord) (publication : PolicyPublication) : PolicyFailure :=
  if record.recovery.any fun recovery => decide (publication.sequence ≤ recovery.policySequence) then
    policyRefusal 409 "restored-review-required"
      "Publish a newly reviewed candidate after restoring this snapshot before activating a release. Historical publications remain available."
  else
    policyRefusal 409 "ownership-review-required"
      "Publish under current Desk ownership before newly activating this release."

namespace Call

/-- The exact target of an activation has to be readable. -/
def activationCandidate (call : Call) (record : PolicyStoredRecord) (publication : PolicyPublication) :
    Except GoError Unit :=
  match record.revisions.find? fun revision => revision.id == publication.candidateRevisionID with
  | none => .ok ()
  | some revision => beforeCommit do
    let _ ← call.candidate revision
    return ()

def lifecycleSchedule (call : Call) (record : PolicyStoredRecord) (authority : Option PolicySourceAuthorityStream)
    (publication : PolicyPublication) (q : PolicyLifecycleRequest) (now : String) :
    LifecycleAction → Except GoError LifecycleSchedule
  | .activate => do
    refuseIf (policyAuthorityAdmission authority .activate)
    require (decide (policyBoundary record authority < publication.sequence)) (publicationTooOld record publication)
    let effectiveAt := if q.effectiveAt = "" then now else q.effectiveAt
    require (validPolicyLifecycleTime effectiveAt && decide (now ≤ effectiveAt) &&
        (q.expiresAt == "" || validPolicyLifecycleTime q.expiresAt && decide (effectiveAt < q.expiresAt)))
      (policyRefusal 400 "invalid-lifecycle-time"
        "Use UTC whole-second dates with expiry after effectiveness; activation cannot be backdated.")
    require (q.supersedesPublicationID == "" || (publicationOf record q.supersedesPublicationID).any fun older =>
        decide (older.sequence < publication.sequence))
      (policyRefusal 400 "bad-request" "Choose an older publication of this policy to supersede.")
    call.activationCandidate record publication
    return ⟨effectiveAt, q.expiresAt, q.supersedesPublicationID⟩
  | .withdraw => do
    require (!blank q.rationale && q.effectiveAt == "" && q.expiresAt == "" && q.supersedesPublicationID == "")
      (policyRefusal 400 "bad-request" "Withdrawal requires a rationale and cannot set an activation schedule.")
    return ⟨"", "", ""⟩

/-! ## The command -/

/-- The operation itself, on a ledger where it has not been committed before. -/
def lifecycleDecision (call : Call) (id : String) (actor : PolicyActor) (q : PolicyLifecycleRequest)
    (action : LifecycleAction) (ledger : PolicyLedger) (reading : String) :
    Except GoError (Bool × PolicyLedger × PolicyMutationReply) := do
  let record ← found (ledger.policies.get? id) (policyRefusal 404 "not-found" "Policy not found.")
  let authority := ledger.sourceAuthorities.get? id
  let stream := ledger.lifecycles.get? id
  require (q.baseRevision == policyEffectiveRevision record authority &&
      q.baseLifecycleRevision == policyLifecycleRevision stream)
    (policyRefusal 409 "lifecycle-conflict"
      "The policy or lifecycle changed. Review its current state before continuing.")
  require (decide (ledger.operations.size < policyOperationLimit) &&
      decide ((lifecycleEvents stream).length < policyHistoryLimit))
    (policyRefusal 409 "storage-capacity" "Policy lifecycle history has reached its supported capacity.")
  let publication ← found (publicationOf record q.publicationID)
    (policyRefusal 404 "not-found" "Policy publication not found.")
  require ((lifecycleEvents stream).all fun event =>
      event.publicationID != publication.id || event.action != .withdraw && event.action != action)
    (policyRefusal 409 "lifecycle-conflict" "This release already has that lifecycle decision or was withdrawn.")
  let now := if reading = "" then call.lifecycleNow else reading
  require (decide (len q.rationale ≤ 8192) && validPolicyLifecycleTime now)
    (policyRefusal 400 "bad-request" "Invalid policy lifecycle details.")
  let schedule ← call.lifecycleSchedule record authority publication q now action
  let eventID ← call.newPolicyEventID 0 "lifecycle"
  let event : PolicyLifecycleEvent :=
    { id := eventID, sequence := (lifecycleEvents stream).length + 1, action := action, publicationID := publication.id
      candidateDigest := publication.candidateDigest, at_ := now, actor := actor, provenance := "admin-configured"
      effectiveAt := schedule.effectiveAt, expiresAt := schedule.expiresAt
      supersedesPublicationID := schedule.supersedesPublicationID, rationale := q.rationale }
  let stream : PolicyLifecycleStream := { version := (stream.map PolicyLifecycleStream.version).getD 1
                                          events := lifecycleEvents stream ++ [event] }
  let lifecycle := policyLifecycleView record (some stream) now authority
  let command := lifecycleIdentity id actor q action
  let result : PolicyMutationReply :=
    { (default : PolicyMutationReply) with
      delivery := .committed, outcomeKind := "lifecycle", policyID := id, policyRevision := lifecycle.policyRevision
      lifecycle := some lifecycle
      receipt := { (default : PolicyOperationReceipt) with
        operationID := q.operationID, kind := command.kind, policyID := id, requestDigest := command.requestDigest
        at_ := now, actor := actor, revision := lifecycle.policyRevision, candidateDigest := event.candidateDigest
        publicationID := publication.id, lifecycleEventID := event.id, lifecycleRevision := lifecycle.revision } }
  let ref ← beforeCommit (call.put result.toJson.marshal)
  call.authorize 2
  return (true, { ledger with
    lifecycles := ledger.lifecycles.set id stream
    operations := ledger.operations.set q.operationID ⟨q.operationID, command.kind, id, command.requestDigest, ref⟩ },
    result)

def lifecycleUse (call : Call) (id : String) (actor : PolicyActor) (q : PolicyLifecycleRequest)
    (action : LifecycleAction) (ledger : PolicyLedger) (reading : String) :
    Except GoError (Bool × PolicyLedger × PolicyMutationReply) := do
  call.authorize 0
  let recovered ← call.recovered 1 ledger (lifecycleIdentity id actor q action)
  match recovered with
  | some result => return (false, ledger, result)
  | none => call.lifecycleDecision id actor q action ledger reading

end Call

/-! ## Under execution authority -/

/-- The checks that come before the clock is read. -/
def lifecycleRequestAdmitted (id : String) (actor : PolicyActor) (q : PolicyLifecycleRequest) : LifecycleAction → Bool
  | .withdraw => policyIDForm id && validPolicyActor actor && decide (len q.rationale ≤ 8192) && !blank q.rationale &&
      q.effectiveAt == "" && q.expiresAt == "" && q.supersedesPublicationID == ""
  | .activate => policyIDForm id && validPolicyActor actor && decide (len q.rationale ≤ 8192) &&
      (q.effectiveAt == "" || validPolicyLifecycleTime q.effectiveAt) &&
      (q.expiresAt == "" || validPolicyLifecycleTime q.expiresAt)

/-- The ledger written out and read again, which validates it. -/
def PolicyLedger.reread (l : PolicyLedger) : Except GoError PolicyLedger :=
  if decide (l.toJson.marshal.length ≤ policyLedgerLimit) && validatePolicyLedger l then .ok l
  else .error (.refusal (executionFailure "authority-unavailable"))

namespace Call

def lifecycleAuthorityUpdate (call : Call) (id : String) (actor : PolicyActor) (q : PolicyLifecycleRequest)
    (action : LifecycleAction) : Transaction (Except GoError PolicyMutationReply) := fun l =>
  match l.execution with
  | none => do
    let (changed, next, result) ← call.lifecycleUse id actor q action l ""
    return (changed, next, .ok result)
  | some e => do
    call.authorize 3
    require (lifecycleRequestAdmitted id actor q action) (executionFailure "invalid-request")
    let now := call.lifecycleNow
    require (validPolicyLifecycleTime now && decide (e.lastTime ≤ now)) (executionFailure "clock-unavailable")
    let work ← l.reread
    let outcome := observe (do
      let (changed, next, result) ← call.lifecycleUse id actor q action (work.observed now) now
      return (changed, next, .ok result)) e now work
    call.authorize 4
    return outcome

def lifecycleCommand (call : Call) (id : String) (actor : PolicyActor) (q : PolicyLifecycleRequest)
    (ledger : PolicyLedger) : Except GoError PolicyMutationReply × PolicyLedger :=
  match LifecycleAction.ofText q.action with
  | none => (.error (.refusal (policyRefusal 400 "bad-request" "Invalid policy lifecycle action.")), ledger)
  | some action =>
    if !(policyOperationIDForm q.operationID) then
      (.error (.refusal (policyRefusal 400 "bad-request" "Invalid policy lifecycle action.")), ledger)
    else call.storage.command (call.lifecycleAuthorityUpdate id actor q action) ledger

end Call

end Desk
