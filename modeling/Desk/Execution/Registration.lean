import Desk.Execution.Service

/-!
# Registrations and intents

A resource is registered once, with the release its Runner shows and the
adoption that covers it. Before that the ledger is read once, to answer a
repeated registration without the Runner. An intent is prepared once for a key.
-/

namespace Desk

/-! ## Registration -/

structure PolicyExecutionRegisterRequest where
  operationID : String
  jobID : String
  adoptionID : String
  reviewID : String
deriving DecidableEq

def PolicyExecutionRegisterRequest.toJson (x : PolicyExecutionRegisterRequest) : Json := .obj
  [("operationId", .str x.operationID), ("jobId", .str x.jobID), ("adoptionId", .str x.adoptionID),
   ("reviewId", .str x.reviewID)]

structure PolicyExecutionRegisteredResult where
  delivery : Delivery
  resource : PolicyExecutionResource
  registration : PolicyExecutionRegistration

structure PolicyExecutionReleaseMaterial where
  pack : List UInt8
  packID : String
  packVersion : String
  runtimeDigest : String

def releaseTextMembers : List String :=
  ["schemaVersion", "id", "pack", "packDigest", "packId", "packVersion", "title", "runtimeDigest", "createdAt", "config",
   "lock", "tests"]

def releaseMembers : List String := releaseTextMembers ++ ["validation", "sample", "preview"]

/-- The members of a release document: those required are there and not null, no other is but `testEvidence`. -/
def releaseFields (lower : Char → Char) (raw : List UInt8) : Option (List (String × Json)) :=
  match Json.strict lower raw with
  | some (.obj fields) =>
    if releaseTextMembers.all (fun name => ((Json.field fields name).bind Json.text).isSome) &&
        releaseMembers.all (fun name => match Json.field fields name with
          | none | some .null => false
          | some _ => true) &&
        fields.all (fun f => decide (f.1 ∈ releaseMembers ++ ["testEvidence"])) then some fields
    else none
  | _ => none

def releaseText (fields : List (String × Json)) (name : String) : String :=
  ((Json.field fields name).bind Json.text).getD ""

/-- The sample of a release has no other members than a request. -/
def releaseSample (fields : List (String × Json)) : Bool :=
  match Json.field fields "sample" with
  | some (.obj sample) => sample.all fun f => f.1 == "facts" || f.1 == "evidence"
  | _ => false

def validateExecutionRelease (lower : Char → Char) (v : PolicyExecutionResolvedRelease)
    (identity : PolicyExecutionIdentity) : Option PolicyExecutionReleaseMaterial :=
  if v.workspace != identity.runnerWorkspace || !v.resource.valid || v.bytes.isEmpty ||
      decide (8 * 2 ^ 20 < v.bytes.length) || v.resource.releaseDigest != "sha256:" ++ digestOf v.bytes then none
  else match releaseFields lower v.bytes with
    | none => none
    | some fields =>
      let pack := bytesOf (releaseText fields "pack")
      let packID := releaseText fields "packId"
      let packVersion := releaseText fields "packVersion"
      let runtimeDigest := releaseText fields "runtimeDigest"
      if releaseText fields "schemaVersion" == "1" && releaseText fields "id" == v.resource.releaseID && !pack.isEmpty &&
          decide (pack.length ≤ 2 ^ 20) && (Json.parse pack).isSome &&
          releaseText fields "packDigest" == "sha256:" ++ digestOf pack && packID != "" && decide (len packID ≤ 500) &&
          packVersion != "" && decide (len packVersion ≤ 256) && policyExecutionDigest runtimeDigest &&
          releaseSample fields then
        some ⟨pack, packID, packVersion, runtimeDigest⟩
      else none

/-- The digest of a registration request, which its caller is part of. -/
def registerDigest (identity : PolicyExecutionIdentity) (q : PolicyExecutionRegisterRequest) : String :=
  executionHash (.obj [("Caller", .str (executionCaller identity)), ("Request", q.toJson)])

namespace ExecutionCall

/-- The answer to a registration that has been committed before. -/
def registered (e : PolicyExecutionState) (receipt : PolicyExecutionRegistrationReceipt) (digest : String) :
    Except GoError (Bool × PolicyExecutionState × Except GoError PolicyExecutionRegisteredResult) := do
  require (receipt.requestDigest == digest) (executionFailure "binding-conflict")
  let r := (e.resources.get? receipt.resourceID).getD default
  return (false, e, .ok ⟨.recovered, r.content.resource, r.registration⟩)

def registeredUse (c : ExecutionCall) (q : PolicyExecutionRegisterRequest) :
    ExecutionUse PolicyExecutionRegisteredResult := fun _ e _ => do
  let receipt ← found (e.registrationOperations.get? q.operationID) (executionFailure "authority-unavailable")
  registered e receipt (registerDigest c.identity q)

/-- The first registration of a job under its released material. -/
def newRegistration (c : ExecutionCall) (q : PolicyExecutionRegisterRequest) (resource : PolicyExecutionResource)
    (release : RetainedArtifactRef) (material : PolicyExecutionReleaseMaterial)
    (resolve : PolicyLedger → String → String → Except GoError PolicyExecutionAdoption) :
    ExecutionUse PolicyExecutionRegisteredResult := fun l e now => do
  let id := executionResourceID c.identity q.jobID
  require (e.resources.get? id).isNone (executionFailure "resource-changed")
  require (decide (e.resources.size < policyExecutionResourceLimit) &&
      decide (e.registrationOperations.size < policyOperationLimit)) (executionFailure "capacity")
  let adoption ← found (resolve l q.adoptionID q.reviewID).toOption (executionFailure "authority-unavailable")
  require (c.retainedAdoption l adoption) (executionFailure "binding-conflict")
  require (adoption.id == q.adoptionID && adoption.review.id == q.reviewID &&
      adoption.content.basis.pack.content == artifactReference material.pack &&
      adoption.content.basis.pack.artifactID == material.packID &&
      adoption.content.basis.pack.version == material.packVersion) (executionFailure "binding-conflict")
  let content : PolicyExecutionRegistrationContent :=
    { resourceID := id, resource := resource, release := release, pack := artifactReference material.pack
      packID := material.packID, packVersion := material.packVersion, runtimeDigest := material.runtimeDigest
      adoption := adoption, lifecycleProfile := policyExecutionLifecycle, callerDomain := executionCaller c.identity
      at_ := now }
  let r : PolicyExecutionRegisteredResource := ⟨⟨"1", executionHash content.toJson⟩, content⟩
  require (c.eligible l r now == .eligible) (executionFailure "eligibility-blocked")
  return (true, { e with
    resources := e.resources.set id r
    registrationOperations := e.registrationOperations.set q.operationID ⟨registerDigest c.identity q, id⟩ },
    .ok ⟨.committed, resource, r.registration⟩)

def registerUse (c : ExecutionCall) (q : PolicyExecutionRegisterRequest) (resource : PolicyExecutionResource)
    (release : RetainedArtifactRef) (material : PolicyExecutionReleaseMaterial)
    (resolve : PolicyLedger → String → String → Except GoError PolicyExecutionAdoption) :
    ExecutionUse PolicyExecutionRegisteredResult := fun l e now =>
  match e.registrationOperations.get? q.operationID with
  | some receipt => registered e receipt (registerDigest c.identity q)
  | none => c.newRegistration q resource release material resolve l e now

/-- Whether the operation has been committed, as read before the Runner is asked. -/
def registrationSeen (c : ExecutionCall) (q : PolicyExecutionRegisterRequest) (seen : PolicyLedger) : Except GoError Bool :=
  c.reading.view (fun l => do
    c.permitted 4
    let e ← c.scopedState l
    return e.registrationOperations.has q.operationID) seen

/-- What the Runner releases, retained. -/
def resolvedRelease (c : ExecutionCall) (q : PolicyExecutionRegisterRequest)
    (resolve : String → Except GoError PolicyExecutionResolvedRelease) :
    Except GoError (PolicyExecutionResource × RetainedArtifactRef × PolicyExecutionReleaseMaterial) := do
  let release ← resolve q.jobID
  let material ← found (validateExecutionRelease c.codec.lower release c.identity)
    (executionFailure "unsupported-profile")
  require (release.resource.jobID == q.jobID) (executionFailure "resource-changed")
  let ref ← c.retain release.bytes
  return (release.resource, ref, material)

/-- The transaction of a registration that has not been committed. -/
def firstRegistration (c : ExecutionCall) (q : PolicyExecutionRegisterRequest) :
    Except GoError (ExecutionUse PolicyExecutionRegisteredResult) :=
  match c.resolveRelease, c.resolveAdoption with
  | some resolveRelease, some resolveAdoption => do
    let (resource, release, material) ← c.resolvedRelease q resolveRelease
    return c.registerUse q resource release material resolveAdoption
  | _, _ => .error (.refusal (executionFailure "authority-unavailable"))

/-- `seen` is the ledger at the first of the two transactions. -/
def registerAdmission (c : ExecutionCall) (q : PolicyExecutionRegisterRequest) (seen : PolicyLedger) :
    Except GoError (ExecutionUse PolicyExecutionRegisteredResult) := do
  require (policyOperationIDForm q.operationID && policyExecutionID q.jobID && policyAdoptionIDForm q.adoptionID &&
    policyAdoptionReviewIDForm q.reviewID) (executionFailure "invalid-request")
  c.permitted 3
  let existing ← c.registrationSeen q seen
  if existing then return c.registeredUse q else c.firstRegistration q

def register (c : ExecutionCall) (q : PolicyExecutionRegisterRequest) (seen l : PolicyLedger) :
    Except GoError PolicyExecutionRegisteredResult × PolicyLedger := c.submit (c.registerAdmission q seen) l

/-! ## Intents -/

/-- The facts and the evidence of a request, as they are written in it. -/
structure RequestBody where
  facts : List UInt8
  evidence : Option (List UInt8)

def requestBody (c : ExecutionCall) (raw : List UInt8) : Except GoError RequestBody := do
  require (!raw.isEmpty && decide (raw.length ≤ 2 * 2 ^ 20) && (Json.strict c.codec.lower raw).isSome)
    (executionFailure "invalid-request")
  let members ← found ((Json.charsOf raw).bind Json.rawMembers) (executionFailure "invalid-request")
  let facts ← found (members.lookup "facts") (executionFailure "invalid-request")
  require (members.all fun m => m.1 == "facts" || m.1 == "evidence") (executionFailure "unsupported-profile")
  return { facts := bytesOf (String.ofList facts)
           evidence := (members.lookup "evidence").map fun text => bytesOf (String.ofList text) }

def retainOptional (c : ExecutionCall) : Option (List UInt8) → Except GoError (Option RetainedArtifactRef)
  | none => .ok none
  | some raw => do
    let ref ← c.retain raw
    return some ref

/-- The references of the three parts an intent is made of. -/
structure RetainedRequest where
  request : RetainedArtifactRef
  facts : RetainedArtifactRef
  evidence : Option RetainedArtifactRef

def retainRequest (c : ExecutionCall) (raw : List UInt8) (body : RequestBody) : Except GoError RetainedRequest := do
  let request ← c.retain raw
  let facts ← c.retain body.facts
  let evidence ← c.retainOptional body.evidence
  return ⟨request, facts, evidence⟩

def prepareIntentUse (c : ExecutionCall) (resource : PolicyExecutionResource) (registration : PolicyExecutionRegistration)
    (key : String) (refs : RetainedRequest) : ExecutionUse (PolicyExecutionIntent × Delivery) := fun l e now =>
  let id := executionIntentID c.identity resource.jobID key
  let rid := executionResourceID c.identity resource.jobID
  let candidate : PolicyExecutionIntent :=
    { id := id, resourceID := rid, callerDomain := executionCaller c.identity, idempotencyKey := key, resource := resource
      registration := registration, request := refs.request, facts := refs.facts, evidence := refs.evidence, at_ := now }
  match e.intents.get? id with
  | some old => do
    require (old == { candidate with at_ := old.at_ }) (executionFailure "binding-conflict")
    return (false, e, .ok (old, .recovered))
  | none => do
    let r ← found (e.resources.get? rid) (executionFailure "resource-unregistered")
    require (r.content.resource == resource && r.registration == registration) (executionFailure "resource-changed")
    require (decide (e.intents.size < policyExecutionIntentLimit)) (executionFailure "capacity")
    require (c.eligible l r now == .eligible) (executionFailure "eligibility-blocked")
    return (true, { e with intents := e.intents.set id candidate }, .ok (candidate, .committed))

def prepareIntentAdmission (c : ExecutionCall) (resource : PolicyExecutionResource)
    (registration : PolicyExecutionRegistration) (key : String) (raw : List UInt8) :
    Except GoError (ExecutionUse (PolicyExecutionIntent × Delivery)) := do
  require (resource.valid && registration.valid && executionKey key) (executionFailure "invalid-request")
  let body ← c.requestBody raw
  c.permitted 3
  let refs ← c.retainRequest raw body
  return c.prepareIntentUse resource registration key refs

def prepareIntent (c : ExecutionCall) (resource : PolicyExecutionResource) (registration : PolicyExecutionRegistration)
    (key : String) (raw : List UInt8) (l : PolicyLedger) : Except GoError (PolicyExecutionIntent × Delivery) × PolicyLedger :=
  c.submit (c.prepareIntentAdmission resource registration key raw) l

end ExecutionCall

end Desk
