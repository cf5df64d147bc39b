import Desk.Lib.Table

/-!
# Policy data

The private records of the policy ledger, field by field. A Go `int` is a `Nat`:
a negative value is refused wherever one is checked. A closed vocabulary is an
inductive type, so a record with a word outside it cannot be built; an absent
optional text is `""` as in the source, and a member named `at` is `at_`.
-/

namespace Desk

/-! ## Content and actors -/

inductive ActorKind where
  | local | oidc
deriving DecidableEq, Inhabited

def ActorKind.text : ActorKind → String
  | .local => "local"
  | .oidc => "oidc"

structure RetainedArtifactRef where
  sha256 : String
  bytes : Nat
deriving DecidableEq, Inhabited

structure PolicyActor where
  kind : ActorKind
  subject : String
  issuer : String
deriving DecidableEq, Inhabited

structure PolicyWorkflow where
  independentReviewRequired : Bool
deriving DecidableEq, Inhabited

structure PolicySource where
  name : String
  mediaType : String
  origin : String
  content : RetainedArtifactRef
deriving DecidableEq, Inhabited

structure PolicyCandidateContent where
  source : Option PolicySource
  schemaVersion : Nat
  title : String
  narrative : String
  artifactVersion : String
deriving DecidableEq, Inhabited

/-! ## The policy record -/

structure PolicyRevision where
  source : Option PolicySource
  id : String
  sequence : Nat
  digest : String
  title : String
  artifactVersion : String
  content : RetainedArtifactRef
  workflow : PolicyWorkflow
  workflowDigest : String
  at_ : String
  actor : PolicyActor
deriving DecidableEq, Inhabited

inductive Decision where
  | approve | requestChanges
deriving DecidableEq, Inhabited

def Decision.text : Decision → String
  | .approve => "approve"
  | .requestChanges => "request-changes"

structure PolicyReview where
  id : String
  sequence : Nat
  candidateRevisionID : String
  candidateDigest : String
  workflowDigest : String
  decision : Decision
  comment : String
  at_ : String
  actor : PolicyActor
deriving DecidableEq, Inhabited

structure PolicyPublication where
  id : String
  sequence : Nat
  candidateRevisionID : String
  candidateDigest : String
  workflowDigest : String
  content : RetainedArtifactRef
  artifactVersion : String
  reviewID : String
  at_ : String
  actor : PolicyActor
deriving DecidableEq, Inhabited

structure PolicyRecoverySnapshot where
  snapshotID : String
  archiveDigest : String
  ledgerDigest : String
  at_ : String
  actor : PolicyActor
deriving DecidableEq, Inhabited

structure PolicyRecoveryBoundary where
  snapshotID : String
  restoredAt : String
  policySequence : Nat
  sourceConsentRequired : Bool
deriving DecidableEq, Inhabited

structure PolicyRecoverySource where
  snapshotID : String
  consentOperationID : String
deriving DecidableEq, Inhabited

structure PolicyStoredRecord where
  recovery : Option PolicyRecoveryBoundary
  schemaVersion : Nat
  id : String
  createdAt : String
  updatedAt : String
  headRevisionID : String
  currentReviewID : String
  revisions : List PolicyRevision
  reviews : List PolicyReview
  publications : List PolicyPublication
deriving DecidableEq, Inhabited

/-! ## Release lifecycle -/

inductive LifecycleAction where
  | activate | withdraw
deriving DecidableEq, Inhabited

def LifecycleAction.text : LifecycleAction → String
  | .activate => "activate"
  | .withdraw => "withdraw"

structure PolicyLifecycleEvent where
  id : String
  sequence : Nat
  action : LifecycleAction
  publicationID : String
  candidateDigest : String
  at_ : String
  actor : PolicyActor
  provenance : String
  effectiveAt : String
  expiresAt : String
  supersedesPublicationID : String
  rationale : String
deriving DecidableEq, Inhabited

structure PolicyLifecycleStream where
  version : Nat
  events : List PolicyLifecycleEvent
deriving DecidableEq, Inhabited

/-! ## Connected sources -/

structure PolicyConnectedIdentity where
  provider : String
  accountID : String
  resourceID : String
deriving DecidableEq, Inhabited

structure PolicySourceLifecycle where
  kind : String
deriving DecidableEq, Inhabited

inductive BindingState where
  | active | revoked
deriving DecidableEq, Inhabited

def BindingState.text : BindingState → String
  | .active => "active"
  | .revoked => "revoked"

structure PolicySourceBinding where
  version : Nat
  operationID : String
  bindingID : String
  source : PolicyConnectedIdentity
  createdAt : String
  state : BindingState
  coverage : String
  lifecycle : PolicySourceLifecycle
deriving DecidableEq, Inhabited

structure PolicySourceContent where
  bytesDigest : String
  byteLength : Nat
  mediaType : String
deriving DecidableEq, Inhabited

structure PolicySourceExtraction where
  content : PolicySourceContent
  profile : String
  processor : String
  processorVersion : String
  configurationDigest : String
deriving DecidableEq, Inhabited

structure PolicySourceObservation where
  id : String
  bindingID : String
  source : PolicyConnectedIdentity
  sourceRevision : String
  observedAt : String
  retainedAt : String
  availability : String
  coverage : String
  lifecycle : PolicySourceLifecycle
  content : PolicySourceContent
  extraction : PolicySourceExtraction
  original : RetainedArtifactRef
  document : RetainedArtifactRef
  semanticDigest : String
  name : String
deriving DecidableEq, Inhabited

structure PolicySourceResolution where
  observationID : String
  candidateRevisionID : String
  candidateDigest : String
  workflowDigest : String
  at_ : String
  actor : PolicyActor
  comment : String
deriving DecidableEq, Inhabited

inductive SourceActionKind where
  | bind | pause | resume | revoke | checkNow | keepCurrent
deriving DecidableEq, Inhabited

def SourceActionKind.text : SourceActionKind → String
  | .bind => "bind"
  | .pause => "pause"
  | .resume => "resume"
  | .revoke => "revoke"
  | .checkNow => "check-now"
  | .keepCurrent => "keep-current"

structure PolicySourceAction where
  kind : SourceActionKind
  at_ : String
  actor : PolicyActor
deriving DecidableEq, Inhabited

structure PolicySourceGrant where
  authority : String
  actor : PolicyActor
  at_ : String
  operationID : String
  resourceID : String
  selectionContext : String
deriving DecidableEq, Inhabited

structure PolicySourcePoll where
  id : String
  owner : String
  deadline : String
  generation : Nat
deriving DecidableEq, Inhabited

inductive SourceState where
  | binding | active | paused | revoked | authorizationEnded
deriving DecidableEq, Inhabited

def SourceState.text : SourceState → String
  | .binding => "binding"
  | .active => "active"
  | .paused => "paused"
  | .revoked => "revoked"
  | .authorizationEnded => "authorization-ended"

structure PolicyConnectedSource where
  recovery : Option PolicyRecoverySource
  version : Nat
  generation : Nat
  state : SourceState
  frequencyMinutes : Nat
  grant : PolicySourceGrant
  binding : Option PolicySourceBinding
  cleanupOperations : List String
  cleanup : List String
  poll : Option PolicySourcePoll
  lastAttempt : String
  lastSuccess : String
  nextCheck : String
  errorCode : String
  gap : Bool
  observations : List PolicySourceObservation
  resolutions : List PolicySourceResolution
  actions : List PolicySourceAction
deriving DecidableEq, Inhabited

/-! ## Source authority -/

inductive FallbackStatus where
  | draft | published
deriving DecidableEq, Inhabited

def FallbackStatus.text : FallbackStatus → String
  | .draft => "draft"
  | .published => "published"

structure PolicySourceStatusConfiguration where
  id : String
  bindingID : String
  source : PolicyConnectedIdentity
  capability : String
  fallbackStatus : FallbackStatus
  at_ : String
  actor : PolicyActor
deriving DecidableEq, Inhabited

structure PolicyExternalVersion where
  id : String
  eventID : String
  configurationID : String
  observation : PolicySourceObservation
  status : String
  provenance : String
  rawStatus : String
  evidence : Option RetainedArtifactRef
  at_ : String
  actor : PolicyActor
deriving DecidableEq, Inhabited

structure PolicySourceImportedDraft where
  configurationID : String
  observation : PolicySourceObservation
  candidateRevisionID : String
  candidateDigest : String
  workflowDigest : String
deriving DecidableEq, Inhabited

inductive AuthorityKind where
  | configure | setOwnership | applyExternal | importDraft
deriving DecidableEq, Inhabited

def AuthorityKind.text : AuthorityKind → String
  | .configure => "configure"
  | .setOwnership => "set-ownership"
  | .applyExternal => "apply-external"
  | .importDraft => "import-draft"

inductive ManagementMode where
  | deskManaged | externallyManaged
deriving DecidableEq, Inhabited

def ManagementMode.text : ManagementMode → String
  | .deskManaged => "desk-managed"
  | .externallyManaged => "externally-managed"

structure PolicySourceAuthorityEvent where
  id : String
  sequence : Nat
  kind : AuthorityKind
  at_ : String
  actor : PolicyActor
  rationale : String
  policySequence : Nat
  configuration : Option PolicySourceStatusConfiguration
  managementMode : Option ManagementMode
  externalVersion : Option PolicyExternalVersion
  importedDraft : Option PolicySourceImportedDraft
deriving DecidableEq, Inhabited

structure PolicySourceAuthorityStream where
  version : Nat
  events : List PolicySourceAuthorityEvent
deriving DecidableEq, Inhabited

/-! ## Coverage -/

inductive ElementKind where
  | rule | exception | applicability | fallback
deriving DecidableEq, Inhabited

def ElementKind.text : ElementKind → String
  | .rule => "rule"
  | .exception => "exception"
  | .applicability => "applicability"
  | .fallback => "fallback"

structure PolicyCoverageElement where
  kind : ElementKind
  id : String
deriving DecidableEq, Inhabited

inductive StatementStatus where
  | implemented | manual | awaitingInterpretation | outOfScope
deriving DecidableEq, Inhabited

def StatementStatus.text : StatementStatus → String
  | .implemented => "implemented"
  | .manual => "manual"
  | .awaitingInterpretation => "awaiting-interpretation"
  | .outOfScope => "out-of-scope"

structure PolicyCoverageStatement where
  status : StatementStatus
  consumerElements : List PolicyCoverageElement
  basis : String
  handoff : String
  explanation : String
  rationale : String
deriving DecidableEq, Inhabited

structure PolicyCoverageScope where
  kind : String
deriving DecidableEq, Inhabited

structure PolicyCoveragePackSelector where
  publicationID : String
  artifactID : String
  version : String
  content : RetainedArtifactRef
deriving DecidableEq, Inhabited

structure PolicyCoverageCandidateMetadata where
  status : StatementStatus
  id : String
  sequence : Nat
  digest : String
  content : RetainedArtifactRef
  policyPublicationID : String
  pack : PolicyCoveragePackSelector
  at_ : String
  actor : PolicyActor
deriving DecidableEq, Inhabited

structure PolicyCoverageReview where
  id : String
  sequence : Nat
  candidateID : String
  candidateDigest : String
  policyRevision : String
  decision : Decision
  comment : String
  at_ : String
  actor : PolicyActor
  check : Option RetainedArtifactRef
deriving DecidableEq, Inhabited

structure PolicyCoverageRecovery where
  snapshotID : String
  restoredAt : String
  sequence : Nat
deriving DecidableEq, Inhabited

structure PolicyCoverageRecord where
  schemaVersion : Nat
  id : String
  policyID : String
  createdAt : String
  updatedAt : String
  headCandidateID : String
  currentReviewID : String
  candidates : List PolicyCoverageCandidateMetadata
  reviews : List PolicyCoverageReview
  recovery : Option PolicyCoverageRecovery
deriving DecidableEq, Inhabited

/-! ## Adoption -/

structure PolicyAuthoringSource where
  version : Nat
  policyID : String
  revisionID : String
  candidateDigest : String
  content : RetainedArtifactRef
  title : String
  artifactVersion : String
  narrative : String
  publicationID : String
deriving DecidableEq, Inhabited

structure PublishedDocument where
  kind : String
  alias_ : String
  id : String
  version : String
  path : String
  content : RetainedArtifactRef
deriving DecidableEq, Inhabited

structure DialectPublicationContext where
  preparationID : String
  revision : String
  variant : String
  recipe : RetainedArtifactRef
  pack : RetainedArtifactRef
  request : String
deriving DecidableEq, Inhabited

structure ArtifactPublication where
  id : String
  at_ : String
  imported : Bool
  config : Option RetainedArtifactRef
  dialect : Option DialectPublicationContext
  documents : List PublishedDocument
  review : Option RetainedArtifactRef
  reviews : List RetainedArtifactRef
deriving DecidableEq, Inhabited

structure PolicyAdoptionSelection where
  policyID : String
  coverageID : String
  revision : String
  candidateID : String
  reviewID : String
deriving DecidableEq, Inhabited

structure PolicyAdoptionDependency where
  selection : PolicyAdoptionSelection
  candidateDigest : String
  coverageContent : RetainedArtifactRef
  coverageReview : PolicyCoverageReview
  coverageRecovery : Option PolicyCoverageRecovery
  policyRevision : String
  lifecycleRevision : String
  sourceRevision : String
  authorityRevision : String
  policyPublicationID : String
  source : PolicyAuthoringSource
  scope : PolicyCoverageScope
  statement : PolicyCoverageStatement
deriving DecidableEq, Inhabited

structure PolicyAdoptionBasis where
  pack : PolicyCoveragePackSelector
  publication : ArtifactPublication
  dependencies : List PolicyAdoptionDependency
deriving DecidableEq, Inhabited

structure PolicyAdoptionContent where
  schemaVersion : Nat
  portableID : String
  formatVersion : String
  basisDigest : String
  basis : PolicyAdoptionBasis
  document : RetainedArtifactRef
  materials : List RetainedArtifactRef
  check : RetainedArtifactRef
deriving DecidableEq, Inhabited

structure PolicyAdoptionReview where
  id : String
  sequence : Nat
  candidateID : String
  candidateDigest : String
  basisDigest : String
  decision : Decision
  comment : String
  at_ : String
  actor : PolicyActor
  check : Option RetainedArtifactRef
deriving DecidableEq, Inhabited

structure PolicyAdoptionRecord where
  schemaVersion : Nat
  id : String
  createdAt : String
  updatedAt : String
  actor : PolicyActor
  candidateID : String
  content : RetainedArtifactRef
  currentReviewID : String
  reviews : List PolicyAdoptionReview
  recovery : Option PolicyCoverageRecovery
deriving DecidableEq, Inhabited

/-! ## Operation receipts -/

inductive OperationKind where
  | create | saveDraft | review | publish
  | coverageSave | coverageReview | adoptionPrepare | adoptionReview
  | source (action : SourceActionKind)
  | lifecycle (action : LifecycleAction)
  | authority (kind : AuthorityKind)
deriving DecidableEq, Inhabited

def OperationKind.text : OperationKind → String
  | .create => "create"
  | .saveDraft => "save-draft"
  | .review => "review"
  | .publish => "publish"
  | .coverageSave => "coverage-save"
  | .coverageReview => "coverage-review"
  | .adoptionPrepare => "adoption-prepare"
  | .adoptionReview => "adoption-review"
  | .source action => "source-" ++ action.text
  | .lifecycle action => "lifecycle-" ++ action.text
  | .authority kind => "authority-" ++ kind.text

structure PolicyStoredOperation where
  operationID : String
  kind : OperationKind
  policyID : String
  requestDigest : String
  result : RetainedArtifactRef
deriving DecidableEq, Inhabited

end Desk
