import Desk.Types.Policy

/-!
# Execution data and the ledger

The execution authority's state and the one ledger every transaction rewrites.
-/

namespace Desk

/-! ## Execution authority -/

structure PolicyExecutionIdentity where
  installationID : String
  machineWorkspace : String
  runnerWorkspace : String
  executorID : String
deriving DecidableEq, Inhabited

structure PolicyExecutionResource where
  jobID : String
  jobRevision : String
  releaseID : String
  releaseProfile : String
  releaseDigest : String
deriving DecidableEq, Inhabited

structure PolicyExecutionRegistration where
  revision : String
  digest : String
deriving DecidableEq, Inhabited

inductive SigningMode where
  | off | ed25519
deriving DecidableEq, Inhabited

def SigningMode.text : SigningMode → String
  | .off => "off"
  | .ed25519 => "ed25519"

structure PolicyExecutionSigning where
  mode : SigningMode
  publicKey : String
deriving DecidableEq, Inhabited

structure PolicyExecutionPayload where
  profile : String
  digest : String
  bytes : String
deriving DecidableEq, Inhabited

structure PolicyExecutionAdoption where
  id : String
  candidateID : String
  contentRef : RetainedArtifactRef
  content : PolicyAdoptionContent
  review : PolicyAdoptionReview
deriving DecidableEq, Inhabited

structure PolicyExecutionRegistrationContent where
  resourceID : String
  resource : PolicyExecutionResource
  release : RetainedArtifactRef
  pack : RetainedArtifactRef
  packID : String
  packVersion : String
  runtimeDigest : String
  adoption : PolicyExecutionAdoption
  lifecycleProfile : String
  callerDomain : String
  at_ : String
deriving DecidableEq, Inhabited

structure PolicyExecutionRegisteredResource where
  registration : PolicyExecutionRegistration
  content : PolicyExecutionRegistrationContent
deriving DecidableEq, Inhabited

structure PolicyExecutionRegistrationReceipt where
  requestDigest : String
  resourceID : String
deriving DecidableEq, Inhabited

structure PolicyExecutionIntent where
  id : String
  resourceID : String
  callerDomain : String
  idempotencyKey : String
  resource : PolicyExecutionResource
  registration : PolicyExecutionRegistration
  request : RetainedArtifactRef
  facts : RetainedArtifactRef
  evidence : Option RetainedArtifactRef
  at_ : String
deriving DecidableEq, Inhabited

structure PolicyExecutionEpoch where
  epoch : String
  sessionID : String
  challenge : String
  signing : PolicyExecutionSigning
  requestDigest : String
  at_ : String
deriving DecidableEq, Inhabited

structure PolicyExecutionActivateRequest where
  challenge : String
  signing : PolicyExecutionSigning
deriving DecidableEq, Inhabited

structure PolicyExecutionReserveRequest where
  intentID : String
  resource : PolicyExecutionResource
  registration : PolicyExecutionRegistration
  payload : PolicyExecutionPayload
  rawRequestDigest : String
deriving DecidableEq, Inhabited

structure PolicyExecutionStartRequest where
  intentID : String
  resource : PolicyExecutionResource
  registration : PolicyExecutionRegistration
  payload : PolicyExecutionPayload
  operationID : String
  attemptID : String
  epoch : String
  rawRequestDigest : String
deriving DecidableEq, Inhabited

inductive Delivery where
  | committed | recovered
deriving DecidableEq, Inhabited

def Delivery.text : Delivery → String
  | .committed => "committed"
  | .recovered => "recovered"

structure PolicyExecutionReserveResult where
  delivery : Delivery
  operationID : String
  attemptID : String
  epoch : String
  requestDigest : String
deriving DecidableEq, Inhabited

inductive ExecutionState where
  | reserved | startCommitted | blocked
deriving DecidableEq, Inhabited

def ExecutionState.text : ExecutionState → String
  | .reserved => "reserved"
  | .startCommitted => "start-committed"
  | .blocked => "blocked"

inductive ExecutionReason where
  | reserved | startCommitted | eligible | resourceChanged | unsupportedProfile | withdrawn | notEffective | expired | superseded | adoptionChangesRequested | dependencyUnavailable | authorityUnavailable | clockUnavailable | operationHeld
deriving DecidableEq, Inhabited

def ExecutionReason.text : ExecutionReason → String
  | .reserved => "reserved"
  | .startCommitted => "start-committed"
  | .eligible => "eligible"
  | .resourceChanged => "resource-changed"
  | .unsupportedProfile => "unsupported-profile"
  | .withdrawn => "withdrawn"
  | .notEffective => "not-effective"
  | .expired => "expired"
  | .superseded => "superseded"
  | .adoptionChangesRequested => "adoption-changes-requested"
  | .dependencyUnavailable => "dependency-unavailable"
  | .authorityUnavailable => "authority-unavailable"
  | .clockUnavailable => "clock-unavailable"
  | .operationHeld => "operation-held"

structure PolicyExecutionStartResult where
  delivery : Delivery
  operationID : String
  attemptID : String
  epoch : String
  requestDigest : String
  decision : ExecutionState
  reason : ExecutionReason
  at_ : String
  authorityRevision : String
deriving DecidableEq, Inhabited

structure PolicyExecutionHold where
  reason : ExecutionReason
  at_ : String
deriving DecidableEq, Inhabited

structure PolicyExecutionAttempt where
  reserve : PolicyExecutionReserveRequest
  reserved : PolicyExecutionReserveResult
  sessionID : String
  state : ExecutionState
  reason : ExecutionReason
  at_ : String
  start : Option PolicyExecutionStartResult
  hold : Option PolicyExecutionHold
deriving DecidableEq, Inhabited

structure PolicyExecutionState where
  version : Nat
  profile : String
  identity : PolicyExecutionIdentity
  lastTime : String
  currentEpoch : String
  resources : Table PolicyExecutionRegisteredResource
  registrationOperations : Table PolicyExecutionRegistrationReceipt
  intents : Table PolicyExecutionIntent
  epochs : Table PolicyExecutionEpoch
  attempts : Table PolicyExecutionAttempt
deriving Inhabited

/-! ## The ledger -/

/-- `authorityRevision` is the digest of the exact bytes the ledger was read from. -/
structure PolicyLedger where
  execution : Option PolicyExecutionState
  authorityRevision : String
  adoptions : Table PolicyAdoptionRecord
  coverages : Table PolicyCoverageRecord
  recoveries : List PolicyRecoverySnapshot
  sourceAuthorities : Table PolicySourceAuthorityStream
  lifecycles : Table PolicyLifecycleStream
  sources : Table PolicyConnectedSource
  schemaVersion : Nat
  policies : Table PolicyStoredRecord
  operations : Table PolicyStoredOperation
deriving Inhabited

def policyStorageSchemaVersion : Nat := 2

def policyExecutionLedgerSchemaVersion : Nat := 3

def emptyPolicyLedger : PolicyLedger where
  execution := none
  authorityRevision := ""
  adoptions := Table.empty
  coverages := Table.empty
  recoveries := []
  sourceAuthorities := Table.empty
  lifecycles := Table.empty
  sources := Table.empty
  schemaVersion := policyStorageSchemaVersion
  policies := Table.empty
  operations := Table.empty

end Desk
