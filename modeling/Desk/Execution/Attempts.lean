import Desk.Execution.Service

/-!
# Sessions, reservations and starts

A session activates one epoch; in the current epoch it reserves an intent once
and starts what it has reserved once.
-/

namespace Desk

/-- A connected session. `owned n` answers the `n`-th time its ownership is verified. -/
structure PolicyExecutionSession where
  identity : PolicyExecutionIdentity
  id : String
  challenge : String
  owned : Option (Nat → Bool)

def PolicyExecutionStartRequest.reserve (q : PolicyExecutionStartRequest) : PolicyExecutionReserveRequest where
  intentID := q.intentID
  resource := q.resource
  registration := q.registration
  payload := q.payload
  rawRequestDigest := q.rawRequestDigest

structure PolicyExecutionActivateResult where
  delivery : Delivery
  epoch : String
  requestDigest : String

structure PolicyExecutionInspectResult where
  delivery : String
  registration : PolicyExecutionRegistration
  eligible : Bool
  reason : ExecutionReason
  at_ : String

structure PolicyExecutionHistoryResult where
  delivery : String
  intentID : String
  operationID : String
  attemptID : String
  epoch : String
  state : ExecutionState
  requestDigest : String
  reason : ExecutionReason
  at_ : String

namespace ExecutionCall

/-! ## Sessions and epochs -/

def session (c : ExecutionCall) (n : Nat) (s : PolicyExecutionSession) : Except GoError Unit := do
  require (s.identity == c.identity && retainedArtifactDigest s.id && retainedArtifactDigest s.challenge &&
    s.owned.isSome) (executionFailure "unauthorized")
  require (s.owned.any fun owned => owned n) (executionFailure "authority-unavailable")

/-- The current epoch, if it is the session's. A missing epoch is no session's. -/
def active (c : ExecutionCall) (n : Nat) (e : PolicyExecutionState) (s : PolicyExecutionSession) :
    Except GoError PolicyExecutionEpoch := do
  c.session n s
  let epoch ← found (e.epochs.get? e.currentEpoch) (executionFailure "stale-epoch")
  require (epoch.sessionID == s.id && epoch.challenge == s.challenge) (executionFailure "stale-epoch")
  return epoch

/-- The epoch a session has activated. -/
def epochOf (e : PolicyExecutionState) (sessionID : String) : Option PolicyExecutionEpoch :=
  (e.epochs.entries.find? fun entry => entry.2.sessionID == sessionID).map Prod.snd

def activateUse (c : ExecutionCall) (s : PolicyExecutionSession) (q : PolicyExecutionActivateRequest) :
    ExecutionUse PolicyExecutionActivateResult := fun _ e now => do
  c.session 1 s
  match epochOf e s.id with
  | some epoch => do
    require (epoch.epoch == e.currentEpoch) (executionFailure "stale-epoch")
    require (epoch.requestDigest == activateDigest q && epoch.challenge == s.challenge)
      (executionFailure "binding-conflict")
    return (false, e, .ok ⟨.recovered, epoch.epoch, activateDigest q⟩)
  | none => do
    require (decide (e.epochs.size < policyExecutionEpochLimit)) (executionFailure "capacity")
    let epoch := Nat.repr (e.epochs.size + 1)
    return (true, { e with
      epochs := e.epochs.set epoch { epoch := epoch, sessionID := s.id, challenge := s.challenge, signing := q.signing
                                     requestDigest := activateDigest q, at_ := now }
      currentEpoch := epoch }, .ok ⟨.committed, epoch, activateDigest q⟩)

def activateAdmission (c : ExecutionCall) (s : PolicyExecutionSession) (q : PolicyExecutionActivateRequest) :
    Except GoError (ExecutionUse PolicyExecutionActivateResult) := do
  c.session 0 s
  require (q.challenge == s.challenge && q.signing.valid) (executionFailure "invalid-request")
  return c.activateUse s q

def activate (c : ExecutionCall) (s : PolicyExecutionSession) (q : PolicyExecutionActivateRequest) (l : PolicyLedger) :
    Except GoError PolicyExecutionActivateResult × PolicyLedger := c.submit (c.activateAdmission s q) l

/-! ## Reservations -/

def readable (c : ExecutionCall) (ref : RetainedArtifactRef) : Bool := (c.get ref).toBool

def payload (c : ExecutionCall) (p : PolicyExecutionPayload) (r : PolicyExecutionRegisteredResource)
    (i : PolicyExecutionIntent) (epoch : PolicyExecutionEpoch) : Bool :=
  executionPayloadMatches p r i epoch && c.readable i.request && c.readable i.facts && i.evidence.all c.readable

/-- A repeated reservation is answered, and sealed: it is never started afterwards. -/
def recoverReservation (s : PolicyExecutionSession) (q : PolicyExecutionReserveRequest) (epoch : PolicyExecutionEpoch)
    (old : PolicyExecutionAttempt) (e : PolicyExecutionState) (now : String) :
    Except GoError (Bool × PolicyExecutionState × Except GoError PolicyExecutionReserveResult) := do
  require (old.sessionID == s.id && old.reserved.epoch == epoch.epoch) (executionFailure "operation-held")
  require (old.reserved.requestDigest == reserveDigest q) (executionFailure "binding-conflict")
  require (old.state != .blocked) (executionFailure "operation-held")
  let result := { old.reserved with delivery := .recovered }
  if old.state = .reserved ∧ old.hold = none then
    return (true, { e with attempts := e.attempts.set q.intentID { old with hold := some ⟨.operationHeld, now⟩ } },
      .ok result)
  else return (false, e, .ok result)

/-- The attempt of a reservation that is eligible for `reason`, or is blocked for it. -/
def reservedAttempt (s : PolicyExecutionSession) (q : PolicyExecutionReserveRequest)
    (result : PolicyExecutionReserveResult) (reason : ExecutionReason) (now : String) : PolicyExecutionAttempt :=
  let a : PolicyExecutionAttempt :=
    { reserve := q, reserved := result, sessionID := s.id, state := .reserved, reason := .reserved, at_ := now
      start := none, hold := none }
  if reason = .eligible then a else { a with state := .blocked, reason := reason }

def newReservation (c : ExecutionCall) (s : PolicyExecutionSession) (q : PolicyExecutionReserveRequest)
    (epoch : PolicyExecutionEpoch) (l : PolicyLedger) (e : PolicyExecutionState) (now : String) :
    Except GoError (Bool × PolicyExecutionState × Except GoError PolicyExecutionReserveResult) := do
  let i ← found (e.intents.get? q.intentID) (executionFailure "intent-unavailable")
  let r ← found (e.resources.get? i.resourceID) (executionFailure "resource-unregistered")
  require (i.resource == q.resource && i.registration == q.registration && r.content.resource == q.resource &&
    r.registration == q.registration && q.rawRequestDigest == "sha256:" ++ i.request.sha256)
    (executionFailure "binding-conflict")
  require (c.payload q.payload r i epoch) (executionFailure "binding-conflict")
  require (decide (e.attempts.size < policyExecutionIntentLimit)) (executionFailure "capacity")
  let op ← c.newToken 0
  let attempt ← c.newToken 1
  let result : PolicyExecutionReserveResult :=
    { delivery := .committed, operationID := "operation_" ++ op, attemptID := "attempt_" ++ attempt
      epoch := epoch.epoch, requestDigest := reserveDigest q }
  let reason := c.eligible l r now
  return (true, { e with attempts := e.attempts.set q.intentID (reservedAttempt s q result reason now) },
    if reason = .eligible then .ok result else .error (.refusal (executionFailure "eligibility-blocked")))

def reserveUse (c : ExecutionCall) (s : PolicyExecutionSession) (q : PolicyExecutionReserveRequest) :
    ExecutionUse PolicyExecutionReserveResult := fun l e now => do
  let epoch ← c.active 1 e s
  match e.attempts.get? q.intentID with
  | some old => recoverReservation s q epoch old e now
  | none => c.newReservation s q epoch l e now

def reserveAdmission (c : ExecutionCall) (s : PolicyExecutionSession) (q : PolicyExecutionReserveRequest) :
    Except GoError (ExecutionUse PolicyExecutionReserveResult) := do
  require (policyExecutionID q.intentID && q.resource.valid && q.registration.valid && executionPayloadShape q.payload &&
    policyExecutionDigest q.rawRequestDigest) (executionFailure "invalid-request")
  c.session 0 s
  return c.reserveUse s q

def reserve (c : ExecutionCall) (s : PolicyExecutionSession) (q : PolicyExecutionReserveRequest) (l : PolicyLedger) :
    Except GoError PolicyExecutionReserveResult × PolicyLedger := c.submit (c.reserveAdmission s q) l

/-! ## Starts -/

/-- The reason for which a start is blocked, or that it is eligible with its payload at hand. -/
def startReason (c : ExecutionCall) (l : PolicyLedger) (e : PolicyExecutionState) (q : PolicyExecutionStartRequest)
    (epoch : PolicyExecutionEpoch) (now : String) : ExecutionReason :=
  let i := (e.intents.get? q.intentID).getD default
  let r := (e.resources.get? i.resourceID).getD default
  if c.payload q.payload r i epoch then c.eligible l r now else .dependencyUnavailable

/-- The decision and the reason a start is recorded with. -/
def startDecision (reason : ExecutionReason) : ExecutionState × ExecutionReason :=
  if reason = .eligible then (.startCommitted, .startCommitted) else (.blocked, reason)

def startResult (q : PolicyExecutionStartRequest) (reason : ExecutionReason) (now authorityRevision : String) :
    PolicyExecutionStartResult where
  delivery := .committed
  operationID := q.operationID
  attemptID := q.attemptID
  epoch := q.epoch
  requestDigest := commitStartDigest q
  decision := (startDecision reason).1
  reason := (startDecision reason).2
  at_ := now
  authorityRevision := authorityRevision

/-- The attempt once its start has been decided. -/
def startedAttempt (a : PolicyExecutionAttempt) (start : PolicyExecutionStartResult) : PolicyExecutionAttempt :=
  { a with state := start.decision, reason := start.reason, at_ := start.at_, start := some start }

/-- The answer to a start of an attempt that has not been started. -/
def newStart (c : ExecutionCall) (q : PolicyExecutionStartRequest) (epoch : PolicyExecutionEpoch)
    (a : PolicyExecutionAttempt) (l : PolicyLedger) (e : PolicyExecutionState) (now : String) :
    Except GoError (Bool × PolicyExecutionState × Except GoError PolicyExecutionStartResult) := do
  require (a.state == .reserved && a.hold.isNone) (executionFailure "operation-held")
  let reason := c.startReason l e q epoch now
  require (retainedArtifactDigest l.authorityRevision) (executionFailure "authority-unavailable")
  let result := startResult q reason now l.authorityRevision
  return (true, { e with attempts := e.attempts.set q.intentID (startedAttempt a result) }, .ok result)

/-- The answer to a start that has been decided before. -/
def recoverStart (q : PolicyExecutionStartRequest) (start : PolicyExecutionStartResult) (e : PolicyExecutionState) :
    Except GoError (Bool × PolicyExecutionState × Except GoError PolicyExecutionStartResult) := do
  require (start.requestDigest == commitStartDigest q) (executionFailure "binding-conflict")
  return (false, e, .ok { start with delivery := .recovered })

def commitStartUse (c : ExecutionCall) (s : PolicyExecutionSession) (q : PolicyExecutionStartRequest) :
    ExecutionUse PolicyExecutionStartResult := fun l e now => do
  let epoch ← c.active 1 e s
  require (epoch.epoch == q.epoch) (executionFailure "stale-epoch")
  let a ← found (e.attempts.get? q.intentID) (executionFailure "operation-held")
  require (a.sessionID == s.id && a.reserved.epoch == q.epoch && a.reserved.operationID == q.operationID &&
    a.reserved.attemptID == q.attemptID && a.reserve == q.reserve) (executionFailure "binding-conflict")
  match a.start with
  | some start => recoverStart q start e
  | none => c.newStart q epoch a l e now

def commitStartAdmission (c : ExecutionCall) (s : PolicyExecutionSession) (q : PolicyExecutionStartRequest) :
    Except GoError (ExecutionUse PolicyExecutionStartResult) := do
  require (policyExecutionID q.intentID && q.resource.valid && q.registration.valid && executionPayloadShape q.payload &&
    policyExecutionID q.operationID && policyExecutionID q.attemptID && executionPositive q.epoch &&
    policyExecutionDigest q.rawRequestDigest) (executionFailure "invalid-request")
  c.session 0 s
  return c.commitStartUse s q

def commitStart (c : ExecutionCall) (s : PolicyExecutionSession) (q : PolicyExecutionStartRequest) (l : PolicyLedger) :
    Except GoError PolicyExecutionStartResult × PolicyLedger := c.submit (c.commitStartAdmission s q) l

/-! ## Reading -/

def inspect (c : ExecutionCall) (s : PolicyExecutionSession) (resource : PolicyExecutionResource) (l : PolicyLedger) :
    Except GoError PolicyExecutionInspectResult := do
  require resource.valid (executionFailure "invalid-request")
  c.permitted 0
  c.reading.view (fun l => do
    c.permitted 1
    let e ← c.scopedState l
    let _ ← c.active 0 e s
    let now ← c.now
    require (decide (e.lastTime ≤ now)) (executionFailure "clock-unavailable")
    let r ← found (e.resources.get? (executionResourceID c.identity resource.jobID))
      (executionFailure "resource-unregistered")
    require (r.content.resource == resource) (executionFailure "resource-changed")
    let reason := c.eligible l r now
    c.permitted 2
    return ⟨"observed", r.registration, reason == .eligible, reason, now⟩) l

/-- What history shows of an attempt: a held one shows as blocked. -/
def attemptHistory (intentID : String) (a : PolicyExecutionAttempt) : PolicyExecutionHistoryResult where
  delivery := "observed"
  intentID := intentID
  operationID := a.reserved.operationID
  attemptID := a.reserved.attemptID
  epoch := a.reserved.epoch
  state := if a.hold.isSome then .blocked else a.state
  requestDigest := (a.start.map PolicyExecutionStartResult.requestDigest).getD a.reserved.requestDigest
  reason := (a.hold.map PolicyExecutionHold.reason).getD a.reason
  at_ := (a.hold.map PolicyExecutionHold.at_).getD a.at_

def history (c : ExecutionCall) (s : PolicyExecutionSession) (intentID : String) (l : PolicyLedger) :
    Except GoError PolicyExecutionHistoryResult := do
  require (policyExecutionID intentID) (executionFailure "invalid-request")
  c.permitted 0
  c.reading.view (fun l => do
    c.permitted 1
    let e ← c.scopedState l
    let _ ← c.active 0 e s
    let a ← found (e.attempts.get? intentID) (executionFailure "history-unavailable")
    c.permitted 2
    return attemptHistory intentID a) l

end ExecutionCall

end Desk
