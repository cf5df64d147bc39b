import Desk.Execution.Eligible

/-!
# The execution service

Each operation is one transaction on the execution state at one reading of the
clock, which stays in the ledger whatever the operation comes to.
-/

namespace Desk

/-! ## The service of one call -/

structure PolicyExecutionResolvedRelease where
  workspace : String
  resource : PolicyExecutionResource
  bytes : List UInt8

/-- The service and all that one call of it takes from outside; `reading` is the storage around a read. -/
structure ExecutionCall extends Call where
  reading : Storage
  identity : PolicyExecutionIdentity
  anchor : Option PolicyAuthorityAnchorIdentity
  hasArtifacts : Bool
  hasClock : Bool
  resolveRelease : Option (String → Except GoError PolicyExecutionResolvedRelease)
  resolveAdoption : Option (PolicyLedger → String → String → Except GoError PolicyExecutionAdoption)

/-- What an operation does to the execution state at a reading: an error is a denial that changes nothing. -/
abbrev ExecutionUse (α : Type) : Type :=
  PolicyLedger → PolicyExecutionState → String → Except GoError (Bool × PolicyExecutionState × Except GoError α)

namespace ExecutionCall

def permitted (c : ExecutionCall) (n : Nat) : Except GoError Unit := do
  require (c.authorized n) (executionFailure "unauthorized")
  require (c.anchor.any (fun anchor => anchor.installationID == c.identity.installationID &&
      anchor.workspaceID == c.identity.machineWorkspace) && c.hasArtifacts && c.identity.valid)
    (executionFailure "authority-unavailable")

def now (c : ExecutionCall) : Except GoError String := do
  require (c.hasClock && decide (1970 ≤ c.clock.year ∧ c.clock.year ≤ 9999)) (executionFailure "clock-unavailable")
  return c.clock.format

def scopedState (c : ExecutionCall) (l : PolicyLedger) : Except GoError PolicyExecutionState :=
  found ((if l.schemaVersion = 3 then l.execution else none).filter (·.identity == c.identity))
    (executionFailure "authority-unavailable")

/-- The answer of `use` on the ledger, written back into it. -/
def outcome {α : Type} (use : ExecutionUse α) (l : PolicyLedger) (e : PolicyExecutionState) (now : String) :
    Except GoError (Bool × PolicyLedger × Except GoError α) := do
  let (changed, next, answer) ← use (l.observed now) { e with lastTime := now } now
  return (changed, { l with execution := some next }, answer)

def transaction {α : Type} (c : ExecutionCall) (use : ExecutionUse α) : Transaction (Except GoError α) := fun l => do
  c.permitted 1
  let e ← c.scopedState l
  match c.now with
  | .error denial => return (false, l, .error denial)
  | .ok now =>
    if now < e.lastTime then return (false, l, .error (.refusal (executionFailure "clock-unavailable")))
    else do
      let decided := observe (outcome use l e now) e now l
      c.permitted 2
      return decided

def update {α : Type} (c : ExecutionCall) (use : ExecutionUse α) (l : PolicyLedger) : Except GoError α × PolicyLedger :=
  match c.permitted 0 with
  | .error e => (.error e, l)
  | .ok _ => c.storage.command (c.transaction use) l

/-- An operation: what it checks before the transaction decides what the transaction runs. -/
def submit {α : Type} (c : ExecutionCall) (admission : Except GoError (ExecutionUse α)) (l : PolicyLedger) :
    Except GoError α × PolicyLedger :=
  match admission with
  | .error e => (.error e, l)
  | .ok use => c.update use l

/-- `Put`, with the reference checked. -/
def retain (c : ExecutionCall) (raw : List UInt8) : Except GoError RetainedArtifactRef :=
  match c.put raw with
  | .ok ref => .ok ref
  | .error _ => .error (.refusal policyUncertainStorage)

def newToken (c : ExecutionCall) (n : Nat) : Except GoError String :=
  found ((c.token n).map Token.text) (executionFailure "authority-unavailable")

/-! ## Initialization -/

/-- The first state of an execution authority. -/
def initialState (identity : PolicyExecutionIdentity) (now : String) : PolicyExecutionState where
  version := 1
  profile := policyExecutionProfile
  identity := identity
  lastTime := now
  currentEpoch := ""
  resources := Table.empty
  registrationOperations := Table.empty
  intents := Table.empty
  epochs := Table.empty
  attempts := Table.empty

def initializePolicyExecutionLedger (l : PolicyLedger) (identity : PolicyExecutionIdentity) (now : String) :
    Except GoError PolicyLedger := do
  require (l.schemaVersion == 2 && l.execution.isNone && identity.valid && executionTime now)
    (executionFailure "authority-unavailable")
  return { l with schemaVersion := 3, execution := some (initialState identity now) }

def initializeUse (c : ExecutionCall) : Transaction Unit := fun l => do
  c.permitted 1
  match l.execution with
  | some _ => do
    let _ ← c.scopedState l
    return (false, l, ())
  | none => do
    require (l.schemaVersion == 2) (executionFailure "authority-unavailable")
    let now ← c.now
    let next ← initializePolicyExecutionLedger l c.identity now
    c.permitted 2
    return (true, next, ())

def initializeExecution (c : ExecutionCall) (l : PolicyLedger) : Except GoError Unit × PolicyLedger :=
  match c.permitted 0 with
  | .error e => (.error e, l)
  | .ok _ => c.storage.update c.initializeUse l

end ExecutionCall

end Desk
