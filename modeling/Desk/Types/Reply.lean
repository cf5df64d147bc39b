import Desk.Types.Encode

/-!
# Replies

What the policy operations answer, and its text: a committed answer is retained
under its digest and read back for a repeated request.
-/

namespace Desk

/-! ## Data -/

inductive ReleaseStatus where
  | published | effective | superseded | expired | withdrawn
deriving DecidableEq, Inhabited

def ReleaseStatus.text : ReleaseStatus → String
  | .published => "published"
  | .effective => "effective"
  | .superseded => "superseded"
  | .expired => "expired"
  | .withdrawn => "withdrawn"

inductive ReviewState where
  | approved | changesRequested | unreviewed
deriving DecidableEq, Inhabited

def ReviewState.text : ReviewState → String
  | .approved => "approved"
  | .changesRequested => "changes-requested"
  | .unreviewed => "unreviewed"

structure PolicyRecoveryView where
  snapshotID : String
  restoredAt : String
  currentnessUnknown : Bool
  freshReviewRequired : Bool
  sourceConsentRequired : Bool
deriving DecidableEq, Inhabited

structure PolicySourceOwnership where
  mode : ManagementMode
  inherited : Bool
  eventID : String
  at_ : String
  actor : Option PolicyActor
deriving DecidableEq, Inhabited

structure PolicySourceAuthoritySummary where
  revision : String
  ownership : PolicySourceOwnership
  externalVersionCount : Nat
  lastApplied : Option PolicyExternalVersion
deriving DecidableEq, Inhabited

structure PolicyReleaseLifecycle where
  activationAllowed : Option Bool
  publicationID : String
  status : ReleaseStatus
  effectiveAt : String
  expiresAt : String
  supersededBy : String
  activationID : String
  withdrawalID : String
deriving DecidableEq, Inhabited

structure PolicyLifecycleReply where
  recovery : Option PolicyRecoveryView
  revision : String
  policyRevision : String
  observedAt : String
  releases : List PolicyReleaseLifecycle
  events : List PolicyLifecycleEvent
deriving DecidableEq, Inhabited

structure PolicyCandidate where
  source : Option PolicySource
  title : String
  narrative : String
  artifactVersion : String
  digest : String
  revisionID : String
  content : RetainedArtifactRef
deriving DecidableEq, Inhabited

structure PolicyDocument where
  schemaVersion : Nat
  id : String
  managementMode : ManagementMode
  createdAt : String
  updatedAt : String
  candidate : PolicyCandidate
  workflow : PolicyWorkflow
  workflowDigest : String
  reviewState : ReviewState
  currentReviewID : String
  revisions : List PolicyRevision
  reviews : List PolicyReview
  publications : List PolicyPublication
deriving DecidableEq, Inhabited

structure PolicyReply where
  recovery : Option PolicyRecoveryView
  currentCandidatePublished : Option Bool
  sourceAuthority : Option PolicySourceAuthoritySummary
  revision : String
  document : PolicyDocument
deriving DecidableEq, Inhabited

structure PolicySourceStatusAvailability where
  state : String
  usable : Bool
  gap : Bool
  errorCode : String
  lastSuccess : String
deriving DecidableEq, Inhabited

structure PolicySourceStatusCapability where
  kind : String
  mappingSupported : Bool
deriving DecidableEq, Inhabited

structure PolicySourceStatusPreview where
  eligible : Bool
  reason : String
  status : String
  provenance : String
  configurationID : String
  observationID : String
  bindingID : String
  sourceRevision : String
  source : Option PolicyConnectedIdentity
  content : Option PolicySourceContent
  rawStatus : String
  evidence : Option RetainedArtifactRef
deriving DecidableEq, Inhabited

structure PolicySourceStatusAction where
  allowed : Bool
  reason : String
deriving DecidableEq, Inhabited

structure PolicySourceStatusReply where
  recovery : Option PolicyRecoveryView
  revision : String
  policyRevision : String
  sourceRevision : String
  candidateDigest : String
  candidateRevisionID : String
  ownership : PolicySourceOwnership
  binding : Option PolicySourceBinding
  capability : PolicySourceStatusCapability
  availability : PolicySourceStatusAvailability
  currentConfig : Option PolicySourceStatusConfiguration
  currentPreview : PolicySourceStatusPreview
  lastApplied : Option PolicyExternalVersion
  configurations : List PolicySourceStatusConfiguration
  externalVersions : List PolicyExternalVersion
  events : List PolicySourceAuthorityEvent
  actions : Table PolicySourceStatusAction
deriving DecidableEq, Inhabited

structure PolicySourceSyncReply where
  recovery : Option PolicyRecoveryView
  revision : String
  supported : Bool
  pending : Bool
  state : Option PolicyConnectedSource
deriving DecidableEq, Inhabited

structure PolicyOperationReceipt where
  adoptionID : String
  adoptionRevision : String
  adoptionCandidateID : String
  coverageID : String
  coverageRevision : String
  coverageCandidateID : String
  authorityRevision : String
  authorityEventID : String
  configurationID : String
  observationID : String
  externalVersionID : String
  lifecycleRevision : String
  lifecycleEventID : String
  operationID : String
  kind : OperationKind
  policyID : String
  requestDigest : String
  at_ : String
  actor : PolicyActor
  revision : String
  candidateDigest : String
  reviewID : String
  publicationID : String
deriving DecidableEq, Inhabited

/-- An answer to a mutation. Of the members that the adoption, coverage and source operations
answer with, only the presence is read here. -/
structure PolicyMutationReply where
  adoption : Option Json
  coverage : Option Json
  sourceStatus : Option PolicySourceStatusReply
  outcomeKind : String
  policyID : String
  policyRevision : String
  lifecycle : Option PolicyLifecycleReply
  sourceSync : Option Json
  delivery : Delivery
  receipt : PolicyOperationReceipt
  policy : PolicyReply
deriving Inhabited

/-! ## Encoding -/

def ReleaseStatus.toJson (x : ReleaseStatus) : Json := .str x.text

def ReviewState.toJson (x : ReviewState) : Json := .str x.text

def PolicyRecoveryView.toJson (x : PolicyRecoveryView) : Json := .obj <|
  [("snapshotId", .str x.snapshotID), ("restoredAt", .str x.restoredAt),
   ("currentnessUnknown", .bool x.currentnessUnknown),
   ("freshReviewRequired", .bool x.freshReviewRequired),
   ("sourceConsentRequired", .bool x.sourceConsentRequired)]

def PolicySourceOwnership.toJson (x : PolicySourceOwnership) : Json := .obj <|
  [("mode", x.mode.toJson), ("inherited", .bool x.inherited)] ++ Json.optText "eventId" x.eventID ++
  Json.optText "at" x.at_ ++ Json.optMember "actor" x.actor PolicyActor.toJson

def PolicySourceAuthoritySummary.toJson (x : PolicySourceAuthoritySummary) : Json := .obj <|
  [("revision", .str x.revision), ("ownership", x.ownership.toJson),
   ("externalVersionCount", .nat x.externalVersionCount)] ++
  Json.optMember "lastApplied" x.lastApplied PolicyExternalVersion.toJson

def PolicyReleaseLifecycle.toJson (x : PolicyReleaseLifecycle) : Json := .obj <|
  Json.optMember "activationAllowed" x.activationAllowed .bool ++
  [("publicationId", .str x.publicationID), ("status", x.status.toJson)] ++
  Json.optText "effectiveAt" x.effectiveAt ++ Json.optText "expiresAt" x.expiresAt ++
  Json.optText "supersededBy" x.supersededBy ++ Json.optText "activationId" x.activationID ++
  Json.optText "withdrawalId" x.withdrawalID

def PolicyLifecycleReply.toJson (x : PolicyLifecycleReply) : Json := .obj <|
  Json.optMember "recovery" x.recovery PolicyRecoveryView.toJson ++ [("revision", .str x.revision),
   ("policyRevision", .str x.policyRevision), ("observedAt", .str x.observedAt),
   ("releases", .list PolicyReleaseLifecycle.toJson x.releases),
   ("events", .list PolicyLifecycleEvent.toJson x.events)]

def PolicyCandidate.toJson (x : PolicyCandidate) : Json := .obj <|
  Json.optMember "source" x.source PolicySource.toJson ++ [("title", .str x.title),
   ("narrative", .str x.narrative), ("artifactVersion", .str x.artifactVersion),
   ("digest", .str x.digest), ("revisionId", .str x.revisionID), ("content", x.content.toJson)]

def PolicyDocument.toJson (x : PolicyDocument) : Json := .obj <|
  [("schemaVersion", .nat x.schemaVersion), ("id", .str x.id),
   ("managementMode", x.managementMode.toJson), ("createdAt", .str x.createdAt),
   ("updatedAt", .str x.updatedAt), ("candidate", x.candidate.toJson), ("workflow", x.workflow.toJson),
   ("workflowDigest", .str x.workflowDigest), ("reviewState", x.reviewState.toJson)] ++
  Json.optText "currentReviewId" x.currentReviewID ++
  [("revisions", .list PolicyRevision.toJson x.revisions),
   ("reviews", .list PolicyReview.toJson x.reviews),
   ("publications", .list PolicyPublication.toJson x.publications)]

def PolicyReply.toJson (x : PolicyReply) : Json := .obj <|
  Json.optMember "recovery" x.recovery PolicyRecoveryView.toJson ++
  Json.optMember "currentCandidatePublished" x.currentCandidatePublished .bool ++
  Json.optMember "sourceAuthority" x.sourceAuthority PolicySourceAuthoritySummary.toJson ++
  [("revision", .str x.revision), ("document", x.document.toJson)]

def PolicySourceStatusAvailability.toJson (x : PolicySourceStatusAvailability) : Json := .obj <|
  [("state", .str x.state), ("usable", .bool x.usable), ("gap", .bool x.gap)] ++
  Json.optText "errorCode" x.errorCode ++ Json.optText "lastSuccess" x.lastSuccess

def PolicySourceStatusCapability.toJson (x : PolicySourceStatusCapability) : Json := .obj <|
  [("kind", .str x.kind), ("mappingSupported", .bool x.mappingSupported)]

def PolicySourceStatusPreview.toJson (x : PolicySourceStatusPreview) : Json := .obj <|
  [("eligible", .bool x.eligible)] ++ Json.optText "reason" x.reason ++ Json.optText "status" x.status ++
  Json.optText "provenance" x.provenance ++ Json.optText "configurationId" x.configurationID ++
  Json.optText "observationId" x.observationID ++ Json.optText "bindingId" x.bindingID ++
  Json.optText "sourceRevision" x.sourceRevision ++
  Json.optMember "source" x.source PolicyConnectedIdentity.toJson ++
  Json.optMember "content" x.content PolicySourceContent.toJson ++
  Json.optText "rawStatus" x.rawStatus ++ Json.optMember "evidence" x.evidence RetainedArtifactRef.toJson

def PolicySourceStatusAction.toJson (x : PolicySourceStatusAction) : Json := .obj <|
  [("allowed", .bool x.allowed)] ++ Json.optText "reason" x.reason

def PolicySourceStatusReply.toJson (x : PolicySourceStatusReply) : Json := .obj <|
  Json.optMember "recovery" x.recovery PolicyRecoveryView.toJson ++ [("revision", .str x.revision),
   ("policyRevision", .str x.policyRevision), ("sourceRevision", .str x.sourceRevision),
   ("candidateDigest", .str x.candidateDigest), ("candidateRevisionId", .str x.candidateRevisionID),
   ("ownership", x.ownership.toJson)] ++ Json.optMember "binding" x.binding PolicySourceBinding.toJson ++
  [("capability", x.capability.toJson), ("availability", x.availability.toJson)] ++
  Json.optMember "currentConfig" x.currentConfig PolicySourceStatusConfiguration.toJson ++
  [("currentPreview", x.currentPreview.toJson)] ++
  Json.optMember "lastApplied" x.lastApplied PolicyExternalVersion.toJson ++
  [("configurations", .list PolicySourceStatusConfiguration.toJson x.configurations),
   ("externalVersions", .list PolicyExternalVersion.toJson x.externalVersions),
   ("events", .list PolicySourceAuthorityEvent.toJson x.events),
   ("actions", .map PolicySourceStatusAction.toJson x.actions.entries)]

def PolicySourceSyncReply.toJson (x : PolicySourceSyncReply) : Json := .obj <|
  Json.optMember "recovery" x.recovery PolicyRecoveryView.toJson ++ [("revision", .str x.revision),
   ("supported", .bool x.supported), ("pending", .bool x.pending)] ++
  Json.optMember "state" x.state PolicyConnectedSource.toJson

def PolicyOperationReceipt.toJson (x : PolicyOperationReceipt) : Json := .obj <|
  Json.optText "adoptionId" x.adoptionID ++ Json.optText "adoptionRevision" x.adoptionRevision ++
  Json.optText "adoptionCandidateId" x.adoptionCandidateID ++ Json.optText "coverageId" x.coverageID ++
  Json.optText "coverageRevision" x.coverageRevision ++
  Json.optText "coverageCandidateId" x.coverageCandidateID ++
  Json.optText "authorityRevision" x.authorityRevision ++
  Json.optText "authorityEventId" x.authorityEventID ++
  Json.optText "configurationId" x.configurationID ++ Json.optText "observationId" x.observationID ++
  Json.optText "externalVersionId" x.externalVersionID ++
  Json.optText "lifecycleRevision" x.lifecycleRevision ++
  Json.optText "lifecycleEventId" x.lifecycleEventID ++ [("operationId", .str x.operationID),
   ("kind", x.kind.toJson), ("policyId", .str x.policyID), ("requestDigest", .str x.requestDigest),
   ("at", .str x.at_), ("actor", x.actor.toJson), ("revision", .str x.revision),
   ("candidateDigest", .str x.candidateDigest)] ++ Json.optText "reviewId" x.reviewID ++
  Json.optText "publicationId" x.publicationID

def PolicyMutationReply.toJson (x : PolicyMutationReply) : Json := .obj <|
  Json.optMember "adoption" x.adoption id ++ Json.optMember "coverage" x.coverage id ++
  Json.optMember "sourceStatus" x.sourceStatus PolicySourceStatusReply.toJson ++
  Json.optText "outcomeKind" x.outcomeKind ++ Json.optText "policyId" x.policyID ++
  Json.optText "policyRevision" x.policyRevision ++
  Json.optMember "lifecycle" x.lifecycle PolicyLifecycleReply.toJson ++
  Json.optMember "sourceSync" x.sourceSync id ++ [("delivery", x.delivery.toJson), ("receipt", x.receipt.toJson)] ++
  if x.policy = default then [] else [("policy", x.policy.toJson)]

end Desk
