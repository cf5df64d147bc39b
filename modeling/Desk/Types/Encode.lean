import Desk.Lib.Json
import Desk.Types.Ledger

/-!
# Encoding

Each record as `encoding/json` writes it: members in declaration order, empty
optional ones left out. The digests that name records are taken of this text.
-/

namespace Desk

/-! ## Content and actors -/

def ActorKind.toJson (x : ActorKind) : Json := .str x.text

def RetainedArtifactRef.toJson (x : RetainedArtifactRef) : Json := .obj <|
  [("sha256", .str x.sha256), ("bytes", .nat x.bytes)]

def PolicyActor.toJson (x : PolicyActor) : Json := .obj <|
  [("kind", x.kind.toJson), ("subject", .str x.subject)] ++ Json.optText "issuer" x.issuer

def PolicyWorkflow.toJson (x : PolicyWorkflow) : Json := .obj <|
  [("independentReviewRequired", .bool x.independentReviewRequired)]

def PolicySource.toJson (x : PolicySource) : Json := .obj <|
  [("name", .str x.name), ("mediaType", .str x.mediaType), ("origin", .str x.origin),
   ("content", x.content.toJson)]

def PolicyCandidateContent.toJson (x : PolicyCandidateContent) : Json := .obj <|
  Json.optMember "source" x.source PolicySource.toJson ++ [("schemaVersion", .nat x.schemaVersion),
   ("title", .str x.title), ("narrative", .str x.narrative), ("artifactVersion", .str x.artifactVersion)]

/-! ## The policy record -/

def PolicyRevision.toJson (x : PolicyRevision) : Json := .obj <|
  Json.optMember "source" x.source PolicySource.toJson ++ [("id", .str x.id),
   ("sequence", .nat x.sequence), ("digest", .str x.digest), ("title", .str x.title),
   ("artifactVersion", .str x.artifactVersion), ("content", x.content.toJson),
   ("workflow", x.workflow.toJson), ("workflowDigest", .str x.workflowDigest), ("at", .str x.at_),
   ("actor", x.actor.toJson)]

def Decision.toJson (x : Decision) : Json := .str x.text

def PolicyReview.toJson (x : PolicyReview) : Json := .obj <|
  [("id", .str x.id), ("sequence", .nat x.sequence), ("candidateRevisionId", .str x.candidateRevisionID),
   ("candidateDigest", .str x.candidateDigest), ("workflowDigest", .str x.workflowDigest),
   ("decision", x.decision.toJson)] ++ Json.optText "comment" x.comment ++ [("at", .str x.at_),
   ("actor", x.actor.toJson)]

def PolicyPublication.toJson (x : PolicyPublication) : Json := .obj <|
  [("id", .str x.id), ("sequence", .nat x.sequence), ("candidateRevisionId", .str x.candidateRevisionID),
   ("candidateDigest", .str x.candidateDigest), ("workflowDigest", .str x.workflowDigest),
   ("content", x.content.toJson), ("artifactVersion", .str x.artifactVersion),
   ("reviewId", .str x.reviewID), ("at", .str x.at_), ("actor", x.actor.toJson)]

def PolicyRecoverySnapshot.toJson (x : PolicyRecoverySnapshot) : Json := .obj <|
  [("snapshotId", .str x.snapshotID), ("archiveDigest", .str x.archiveDigest),
   ("ledgerDigest", .str x.ledgerDigest), ("at", .str x.at_), ("actor", x.actor.toJson)]

def PolicyRecoveryBoundary.toJson (x : PolicyRecoveryBoundary) : Json := .obj <|
  [("snapshotId", .str x.snapshotID), ("restoredAt", .str x.restoredAt),
   ("policySequence", .nat x.policySequence), ("sourceConsentRequired", .bool x.sourceConsentRequired)]

def PolicyRecoverySource.toJson (x : PolicyRecoverySource) : Json := .obj <|
  [("snapshotId", .str x.snapshotID), ("consentOperationId", .str x.consentOperationID)]

def PolicyStoredRecord.toJson (x : PolicyStoredRecord) : Json := .obj <|
  Json.optMember "recovery" x.recovery PolicyRecoveryBoundary.toJson ++
  [("schemaVersion", .nat x.schemaVersion), ("id", .str x.id), ("createdAt", .str x.createdAt),
   ("updatedAt", .str x.updatedAt), ("headRevisionId", .str x.headRevisionID)] ++
  Json.optText "currentReviewId" x.currentReviewID ++
  [("revisions", .list PolicyRevision.toJson x.revisions),
   ("reviews", .list PolicyReview.toJson x.reviews),
   ("publications", .list PolicyPublication.toJson x.publications)]

/-! ## Release lifecycle -/

def LifecycleAction.toJson (x : LifecycleAction) : Json := .str x.text

def PolicyLifecycleEvent.toJson (x : PolicyLifecycleEvent) : Json := .obj <|
  [("id", .str x.id), ("sequence", .nat x.sequence), ("action", x.action.toJson),
   ("publicationId", .str x.publicationID), ("candidateDigest", .str x.candidateDigest),
   ("at", .str x.at_), ("actor", x.actor.toJson), ("provenance", .str x.provenance)] ++
  Json.optText "effectiveAt" x.effectiveAt ++ Json.optText "expiresAt" x.expiresAt ++
  Json.optText "supersedesPublicationId" x.supersedesPublicationID ++
  Json.optText "rationale" x.rationale

def PolicyLifecycleStream.toJson (x : PolicyLifecycleStream) : Json := .obj <|
  [("version", .nat x.version), ("events", .list PolicyLifecycleEvent.toJson x.events)]

/-! ## Connected sources -/

def PolicyConnectedIdentity.toJson (x : PolicyConnectedIdentity) : Json := .obj <|
  [("provider", .str x.provider), ("accountId", .str x.accountID), ("resourceId", .str x.resourceID)]

def PolicySourceLifecycle.toJson (x : PolicySourceLifecycle) : Json := .obj <|
  [("kind", .str x.kind)]

def BindingState.toJson (x : BindingState) : Json := .str x.text

def PolicySourceBinding.toJson (x : PolicySourceBinding) : Json := .obj <|
  [("version", .nat x.version), ("operationId", .str x.operationID), ("bindingId", .str x.bindingID),
   ("source", x.source.toJson), ("createdAt", .str x.createdAt), ("state", x.state.toJson),
   ("coverage", .str x.coverage), ("lifecycle", x.lifecycle.toJson)]

def PolicySourceContent.toJson (x : PolicySourceContent) : Json := .obj <|
  [("bytesDigest", .str x.bytesDigest), ("byteLength", .nat x.byteLength),
   ("mediaType", .str x.mediaType)]

def PolicySourceExtraction.toJson (x : PolicySourceExtraction) : Json := .obj <|
  [("content", x.content.toJson), ("profile", .str x.profile), ("processor", .str x.processor),
   ("processorVersion", .str x.processorVersion), ("configurationDigest", .str x.configurationDigest)]

def PolicySourceObservation.toJson (x : PolicySourceObservation) : Json := .obj <|
  [("id", .str x.id), ("bindingId", .str x.bindingID), ("source", x.source.toJson),
   ("sourceRevision", .str x.sourceRevision), ("observedAt", .str x.observedAt),
   ("retainedAt", .str x.retainedAt), ("availability", .str x.availability),
   ("coverage", .str x.coverage), ("lifecycle", x.lifecycle.toJson), ("content", x.content.toJson),
   ("extraction", x.extraction.toJson), ("original", x.original.toJson), ("document", x.document.toJson),
   ("semanticDigest", .str x.semanticDigest), ("name", .str x.name)]

def PolicySourceResolution.toJson (x : PolicySourceResolution) : Json := .obj <|
  [("observationId", .str x.observationID), ("candidateRevisionId", .str x.candidateRevisionID),
   ("candidateDigest", .str x.candidateDigest), ("workflowDigest", .str x.workflowDigest),
   ("at", .str x.at_), ("actor", x.actor.toJson), ("comment", .str x.comment)]

def SourceActionKind.toJson (x : SourceActionKind) : Json := .str x.text

def PolicySourceAction.toJson (x : PolicySourceAction) : Json := .obj <|
  [("kind", x.kind.toJson), ("at", .str x.at_), ("actor", x.actor.toJson)]

def PolicySourceGrant.toJson (x : PolicySourceGrant) : Json := .obj <|
  [("authority", .str x.authority), ("actor", x.actor.toJson), ("at", .str x.at_),
   ("operationId", .str x.operationID), ("resourceId", .str x.resourceID),
   ("selectionContext", .str x.selectionContext)]

def PolicySourcePoll.toJson (x : PolicySourcePoll) : Json := .obj <|
  [("id", .str x.id), ("owner", .str x.owner), ("deadline", .str x.deadline),
   ("generation", .nat x.generation)]

def SourceState.toJson (x : SourceState) : Json := .str x.text

def PolicyConnectedSource.toJson (x : PolicyConnectedSource) : Json := .obj <|
  Json.optMember "recovery" x.recovery PolicyRecoverySource.toJson ++ [("version", .nat x.version),
   ("generation", .nat x.generation), ("state", x.state.toJson),
   ("frequencyMinutes", .nat x.frequencyMinutes), ("grant", x.grant.toJson)] ++
  Json.optMember "binding" x.binding PolicySourceBinding.toJson ++
  Json.optList "cleanupOperations" .str x.cleanupOperations ++ [("cleanup", .list .str x.cleanup)] ++
  Json.optMember "poll" x.poll PolicySourcePoll.toJson ++ Json.optText "lastAttempt" x.lastAttempt ++
  Json.optText "lastSuccess" x.lastSuccess ++ Json.optText "nextCheck" x.nextCheck ++
  Json.optText "errorCode" x.errorCode ++ [("gap", .bool x.gap),
   ("observations", .list PolicySourceObservation.toJson x.observations),
   ("resolutions", .list PolicySourceResolution.toJson x.resolutions),
   ("actions", .list PolicySourceAction.toJson x.actions)]

/-! ## Source authority -/

def FallbackStatus.toJson (x : FallbackStatus) : Json := .str x.text

def PolicySourceStatusConfiguration.toJson (x : PolicySourceStatusConfiguration) : Json := .obj <|
  [("id", .str x.id), ("bindingId", .str x.bindingID), ("source", x.source.toJson),
   ("capability", .str x.capability), ("fallbackStatus", x.fallbackStatus.toJson), ("at", .str x.at_),
   ("actor", x.actor.toJson)]

def PolicyExternalVersion.toJson (x : PolicyExternalVersion) : Json := .obj <|
  [("id", .str x.id), ("eventId", .str x.eventID), ("configurationId", .str x.configurationID),
   ("observation", x.observation.toJson), ("status", .str x.status),
   ("provenance", .str x.provenance)] ++ Json.optText "rawStatus" x.rawStatus ++
  Json.optMember "evidence" x.evidence RetainedArtifactRef.toJson ++ [("at", .str x.at_),
   ("actor", x.actor.toJson)]

def PolicySourceImportedDraft.toJson (x : PolicySourceImportedDraft) : Json := .obj <|
  [("configurationId", .str x.configurationID), ("observation", x.observation.toJson),
   ("candidateRevisionId", .str x.candidateRevisionID), ("candidateDigest", .str x.candidateDigest),
   ("workflowDigest", .str x.workflowDigest)]

def AuthorityKind.toJson (x : AuthorityKind) : Json := .str x.text

def ManagementMode.toJson (x : ManagementMode) : Json := .str x.text

def PolicySourceAuthorityEvent.toJson (x : PolicySourceAuthorityEvent) : Json := .obj <|
  [("id", .str x.id), ("sequence", .nat x.sequence), ("kind", x.kind.toJson), ("at", .str x.at_),
   ("actor", x.actor.toJson), ("rationale", .str x.rationale),
   ("policySequence", .nat x.policySequence)] ++
  Json.optMember "configuration" x.configuration PolicySourceStatusConfiguration.toJson ++
  Json.optMember "managementMode" x.managementMode ManagementMode.toJson ++
  Json.optMember "externalVersion" x.externalVersion PolicyExternalVersion.toJson ++
  Json.optMember "importedDraft" x.importedDraft PolicySourceImportedDraft.toJson

def PolicySourceAuthorityStream.toJson (x : PolicySourceAuthorityStream) : Json := .obj <|
  [("version", .nat x.version), ("events", .list PolicySourceAuthorityEvent.toJson x.events)]

/-! ## Coverage -/

def ElementKind.toJson (x : ElementKind) : Json := .str x.text

def PolicyCoverageElement.toJson (x : PolicyCoverageElement) : Json := .obj <|
  [("kind", x.kind.toJson)] ++ Json.optText "id" x.id

def StatementStatus.toJson (x : StatementStatus) : Json := .str x.text

def PolicyCoverageStatement.toJson (x : PolicyCoverageStatement) : Json := .obj <|
  [("status", x.status.toJson)] ++
  Json.optList "consumerElements" PolicyCoverageElement.toJson x.consumerElements ++
  Json.optText "basis" x.basis ++ Json.optText "handoff" x.handoff ++
  Json.optText "explanation" x.explanation ++ Json.optText "rationale" x.rationale

def PolicyCoverageScope.toJson (x : PolicyCoverageScope) : Json := .obj <|
  [("kind", .str x.kind)]

def PolicyCoveragePackSelector.toJson (x : PolicyCoveragePackSelector) : Json := .obj <|
  [("publicationId", .str x.publicationID), ("artifactId", .str x.artifactID),
   ("version", .str x.version), ("content", x.content.toJson)]

def PolicyCoverageCandidateMetadata.toJson (x : PolicyCoverageCandidateMetadata) : Json := .obj <|
  [("status", x.status.toJson), ("id", .str x.id), ("sequence", .nat x.sequence),
   ("digest", .str x.digest), ("content", x.content.toJson),
   ("policyPublicationId", .str x.policyPublicationID), ("pack", x.pack.toJson), ("at", .str x.at_),
   ("actor", x.actor.toJson)]

def PolicyCoverageReview.toJson (x : PolicyCoverageReview) : Json := .obj <|
  [("id", .str x.id), ("sequence", .nat x.sequence), ("candidateId", .str x.candidateID),
   ("candidateDigest", .str x.candidateDigest), ("policyRevision", .str x.policyRevision),
   ("decision", x.decision.toJson)] ++ Json.optText "comment" x.comment ++ [("at", .str x.at_),
   ("actor", x.actor.toJson)] ++ Json.optMember "check" x.check RetainedArtifactRef.toJson

def PolicyCoverageRecovery.toJson (x : PolicyCoverageRecovery) : Json := .obj <|
  [("snapshotId", .str x.snapshotID), ("restoredAt", .str x.restoredAt), ("sequence", .nat x.sequence)]

def PolicyCoverageRecord.toJson (x : PolicyCoverageRecord) : Json := .obj <|
  [("schemaVersion", .nat x.schemaVersion), ("id", .str x.id), ("policyId", .str x.policyID),
   ("createdAt", .str x.createdAt), ("updatedAt", .str x.updatedAt),
   ("headCandidateId", .str x.headCandidateID)] ++ Json.optText "currentReviewId" x.currentReviewID ++
  [("candidates", .list PolicyCoverageCandidateMetadata.toJson x.candidates),
   ("reviews", .list PolicyCoverageReview.toJson x.reviews)] ++
  Json.optMember "recovery" x.recovery PolicyCoverageRecovery.toJson

/-! ## Adoption -/

def PolicyAuthoringSource.toJson (x : PolicyAuthoringSource) : Json := .obj <|
  [("version", .nat x.version), ("policyId", .str x.policyID), ("revisionId", .str x.revisionID),
   ("candidateDigest", .str x.candidateDigest), ("content", x.content.toJson), ("title", .str x.title),
   ("artifactVersion", .str x.artifactVersion), ("narrative", .str x.narrative)] ++
  Json.optText "publicationId" x.publicationID

def PublishedDocument.toJson (x : PublishedDocument) : Json := .obj <|
  [("kind", .str x.kind), ("alias", .str x.alias_), ("id", .str x.id), ("version", .str x.version),
   ("path", .str x.path), ("content", x.content.toJson)]

def DialectPublicationContext.toJson (x : DialectPublicationContext) : Json := .obj <|
  [("preparationId", .str x.preparationID), ("revision", .str x.revision), ("variant", .str x.variant),
   ("recipe", x.recipe.toJson), ("pack", x.pack.toJson), ("request", .str x.request)]

def ArtifactPublication.toJson (x : ArtifactPublication) : Json := .obj <|
  [("id", .str x.id), ("at", .str x.at_)] ++
  (if x.imported then Json.member "imported" (.bool true) else []) ++
  Json.optMember "config" x.config RetainedArtifactRef.toJson ++
  Json.optMember "dialect" x.dialect DialectPublicationContext.toJson ++
  [("documents", .list PublishedDocument.toJson x.documents)] ++
  Json.optMember "review" x.review RetainedArtifactRef.toJson ++
  Json.optList "reviews" RetainedArtifactRef.toJson x.reviews

def PolicyAdoptionSelection.toJson (x : PolicyAdoptionSelection) : Json := .obj <|
  [("policyId", .str x.policyID), ("coverageId", .str x.coverageID), ("revision", .str x.revision),
   ("candidateId", .str x.candidateID), ("reviewId", .str x.reviewID)]

def PolicyAdoptionDependency.toJson (x : PolicyAdoptionDependency) : Json := .obj <|
  [("selection", x.selection.toJson), ("candidateDigest", .str x.candidateDigest),
   ("coverageContent", x.coverageContent.toJson), ("coverageReview", x.coverageReview.toJson)] ++
  Json.optMember "coverageRecovery" x.coverageRecovery PolicyCoverageRecovery.toJson ++
  [("policyRevision", .str x.policyRevision), ("lifecycleRevision", .str x.lifecycleRevision),
   ("sourceRevision", .str x.sourceRevision), ("authorityRevision", .str x.authorityRevision),
   ("policyPublicationId", .str x.policyPublicationID), ("source", x.source.toJson),
   ("scope", x.scope.toJson), ("statement", x.statement.toJson)]

def PolicyAdoptionBasis.toJson (x : PolicyAdoptionBasis) : Json := .obj <|
  [("pack", x.pack.toJson), ("publication", x.publication.toJson),
   ("dependencies", .list PolicyAdoptionDependency.toJson x.dependencies)]

def PolicyAdoptionContent.toJson (x : PolicyAdoptionContent) : Json := .obj <|
  [("schemaVersion", .nat x.schemaVersion), ("portableId", .str x.portableID),
   ("formatVersion", .str x.formatVersion), ("basisDigest", .str x.basisDigest),
   ("basis", x.basis.toJson), ("document", x.document.toJson),
   ("materials", .list RetainedArtifactRef.toJson x.materials), ("check", x.check.toJson)]

def PolicyAdoptionReview.toJson (x : PolicyAdoptionReview) : Json := .obj <|
  [("id", .str x.id), ("sequence", .nat x.sequence), ("candidateId", .str x.candidateID),
   ("candidateDigest", .str x.candidateDigest), ("basisDigest", .str x.basisDigest),
   ("decision", x.decision.toJson)] ++ Json.optText "comment" x.comment ++ [("at", .str x.at_),
   ("actor", x.actor.toJson)] ++ Json.optMember "check" x.check RetainedArtifactRef.toJson

def PolicyAdoptionRecord.toJson (x : PolicyAdoptionRecord) : Json := .obj <|
  [("schemaVersion", .nat x.schemaVersion), ("id", .str x.id), ("createdAt", .str x.createdAt),
   ("updatedAt", .str x.updatedAt), ("actor", x.actor.toJson), ("candidateId", .str x.candidateID),
   ("content", x.content.toJson)] ++ Json.optText "currentReviewId" x.currentReviewID ++
  [("reviews", .list PolicyAdoptionReview.toJson x.reviews)] ++
  Json.optMember "recovery" x.recovery PolicyCoverageRecovery.toJson

/-! ## Execution authority -/

def PolicyExecutionIdentity.toJson (x : PolicyExecutionIdentity) : Json := .obj <|
  [("installationId", .str x.installationID), ("machineWorkspace", .str x.machineWorkspace),
   ("runnerWorkspace", .str x.runnerWorkspace), ("executorId", .str x.executorID)]

def PolicyExecutionResource.toJson (x : PolicyExecutionResource) : Json := .obj <|
  [("jobId", .str x.jobID), ("jobRevision", .str x.jobRevision), ("releaseId", .str x.releaseID),
   ("releaseProfile", .str x.releaseProfile), ("releaseDigest", .str x.releaseDigest)]

def PolicyExecutionRegistration.toJson (x : PolicyExecutionRegistration) : Json := .obj <|
  [("revision", .str x.revision), ("digest", .str x.digest)]

def SigningMode.toJson (x : SigningMode) : Json := .str x.text

def PolicyExecutionSigning.toJson (x : PolicyExecutionSigning) : Json := .obj <|
  [("mode", x.mode.toJson)] ++ Json.optText "publicKey" x.publicKey

def PolicyExecutionPayload.toJson (x : PolicyExecutionPayload) : Json := .obj <|
  [("profile", .str x.profile), ("digest", .str x.digest), ("bytes", .str x.bytes)]

def PolicyExecutionAdoption.toJson (x : PolicyExecutionAdoption) : Json := .obj <|
  [("id", .str x.id), ("candidateId", .str x.candidateID), ("contentRef", x.contentRef.toJson),
   ("content", x.content.toJson), ("review", x.review.toJson)]

def PolicyExecutionRegistrationContent.toJson (x : PolicyExecutionRegistrationContent) : Json := .obj <|
  [("resourceId", .str x.resourceID), ("resource", x.resource.toJson), ("release", x.release.toJson),
   ("pack", x.pack.toJson), ("packId", .str x.packID), ("packVersion", .str x.packVersion),
   ("runtimeDigest", .str x.runtimeDigest), ("adoption", x.adoption.toJson),
   ("lifecycleProfile", .str x.lifecycleProfile), ("callerDomain", .str x.callerDomain),
   ("at", .str x.at_)]

def PolicyExecutionRegisteredResource.toJson (x : PolicyExecutionRegisteredResource) : Json := .obj <|
  [("registration", x.registration.toJson), ("content", x.content.toJson)]

def PolicyExecutionRegistrationReceipt.toJson (x : PolicyExecutionRegistrationReceipt) : Json := .obj <|
  [("requestDigest", .str x.requestDigest), ("resourceId", .str x.resourceID)]

def PolicyExecutionIntent.toJson (x : PolicyExecutionIntent) : Json := .obj <|
  [("id", .str x.id), ("resourceId", .str x.resourceID), ("callerDomain", .str x.callerDomain),
   ("idempotencyKey", .str x.idempotencyKey), ("resource", x.resource.toJson),
   ("registration", x.registration.toJson), ("request", x.request.toJson), ("facts", x.facts.toJson)] ++
  Json.optMember "evidence" x.evidence RetainedArtifactRef.toJson ++ [("at", .str x.at_)]

def PolicyExecutionEpoch.toJson (x : PolicyExecutionEpoch) : Json := .obj <|
  [("epoch", .str x.epoch), ("sessionId", .str x.sessionID), ("challenge", .str x.challenge),
   ("signing", x.signing.toJson), ("requestDigest", .str x.requestDigest), ("at", .str x.at_)]

def PolicyExecutionActivateRequest.toJson (x : PolicyExecutionActivateRequest) : Json := .obj <|
  [("challenge", .str x.challenge), ("signing", x.signing.toJson)]

def PolicyExecutionReserveRequest.toJson (x : PolicyExecutionReserveRequest) : Json := .obj <|
  [("intentId", .str x.intentID), ("resource", x.resource.toJson),
   ("registration", x.registration.toJson), ("payload", x.payload.toJson),
   ("rawRequestDigest", .str x.rawRequestDigest)]

def PolicyExecutionStartRequest.toJson (x : PolicyExecutionStartRequest) : Json := .obj <|
  [("intentId", .str x.intentID), ("resource", x.resource.toJson),
   ("registration", x.registration.toJson), ("payload", x.payload.toJson),
   ("operationId", .str x.operationID), ("attemptId", .str x.attemptID), ("epoch", .str x.epoch),
   ("rawRequestDigest", .str x.rawRequestDigest)]

def Delivery.toJson (x : Delivery) : Json := .str x.text

def PolicyExecutionReserveResult.toJson (x : PolicyExecutionReserveResult) : Json := .obj <|
  [("delivery", x.delivery.toJson), ("operationId", .str x.operationID), ("attemptId", .str x.attemptID),
   ("epoch", .str x.epoch), ("requestDigest", .str x.requestDigest)]

def ExecutionState.toJson (x : ExecutionState) : Json := .str x.text

def ExecutionReason.toJson (x : ExecutionReason) : Json := .str x.text

def PolicyExecutionStartResult.toJson (x : PolicyExecutionStartResult) : Json := .obj <|
  [("delivery", x.delivery.toJson), ("operationId", .str x.operationID), ("attemptId", .str x.attemptID),
   ("epoch", .str x.epoch), ("requestDigest", .str x.requestDigest), ("decision", x.decision.toJson),
   ("reason", x.reason.toJson), ("at", .str x.at_), ("authorityRevision", .str x.authorityRevision)]

def PolicyExecutionHold.toJson (x : PolicyExecutionHold) : Json := .obj <|
  [("reason", x.reason.toJson), ("at", .str x.at_)]

def PolicyExecutionAttempt.toJson (x : PolicyExecutionAttempt) : Json := .obj <|
  [("reserve", x.reserve.toJson), ("reserved", x.reserved.toJson), ("sessionId", .str x.sessionID),
   ("state", x.state.toJson), ("reason", x.reason.toJson), ("at", .str x.at_)] ++
  Json.optMember "start" x.start PolicyExecutionStartResult.toJson ++
  Json.optMember "hold" x.hold PolicyExecutionHold.toJson

def PolicyExecutionState.toJson (x : PolicyExecutionState) : Json := .obj <|
  [("version", .nat x.version), ("profile", .str x.profile), ("identity", x.identity.toJson),
   ("lastTime", .str x.lastTime), ("currentEpoch", .str x.currentEpoch),
   ("resources", .map PolicyExecutionRegisteredResource.toJson x.resources.entries),
   ("registrationOperations", .map PolicyExecutionRegistrationReceipt.toJson x.registrationOperations.entries),
   ("intents", .map PolicyExecutionIntent.toJson x.intents.entries),
   ("epochs", .map PolicyExecutionEpoch.toJson x.epochs.entries),
   ("attempts", .map PolicyExecutionAttempt.toJson x.attempts.entries)]

/-! ## Operation receipts and the ledger -/

def OperationKind.toJson (x : OperationKind) : Json := .str x.text

def PolicyStoredOperation.toJson (x : PolicyStoredOperation) : Json := .obj <|
  [("operationId", .str x.operationID), ("kind", x.kind.toJson), ("policyId", .str x.policyID),
   ("requestDigest", .str x.requestDigest), ("result", x.result.toJson)]

/-- An `omitempty` map. -/
def Json.optMap {V : Type} (name : String) (toJson : V → Json) (t : Table V) : List (String × Json) :=
  if t.size = 0 then [] else [(name, .map toJson t.entries)]

def PolicyLedger.toJson (x : PolicyLedger) : Json := .obj <|
  Json.optMember "execution" x.execution PolicyExecutionState.toJson ++
  Json.optMap "adoptions" PolicyAdoptionRecord.toJson x.adoptions ++
  Json.optMap "coverages" PolicyCoverageRecord.toJson x.coverages ++
  Json.optList "recoveries" PolicyRecoverySnapshot.toJson x.recoveries ++
  Json.optMap "sourceAuthorities" PolicySourceAuthorityStream.toJson x.sourceAuthorities ++
  Json.optMap "lifecycles" PolicyLifecycleStream.toJson x.lifecycles ++
  Json.optMap "sources" PolicyConnectedSource.toJson x.sources ++
  [("schemaVersion", .nat x.schemaVersion), ("policies", .map PolicyStoredRecord.toJson x.policies.entries),
   ("operations", .map PolicyStoredOperation.toJson x.operations.entries)]

/-! ## Digests -/

def policyRecordRevision (record : PolicyStoredRecord) : String := digestOf record.toJson.marshal

def policyWorkflowDigest (workflow : PolicyWorkflow) : String := digestOf workflow.toJson.marshal

/-- An absent stream or source is written `null`. -/
def nullable {α : Type} (toJson : α → Json) : Option α → Json
  | some x => toJson x
  | none => .null

def policyLifecycleRevision (stream : Option PolicyLifecycleStream) : String :=
  digestOf (nullable PolicyLifecycleStream.toJson stream).marshal

def policyAuthorityRevision (stream : Option PolicySourceAuthorityStream) : String :=
  digestOf (nullable PolicySourceAuthorityStream.toJson stream).marshal

/-- The observation fields do not take part in a source's revision. -/
def policySourceRevision (source : Option PolicyConnectedSource) : String :=
  digestOf (nullable PolicyConnectedSource.toJson (source.map fun s =>
    { s with poll := none, lastAttempt := "", lastSuccess := "", nextCheck := "", errorCode := "",
             gap := false })).marshal

def coverageRevision (record : PolicyCoverageRecord) : String := digestOf record.toJson.marshal

def adoptionRevision (r : PolicyAdoptionRecord) : String := digestOf r.toJson.marshal

def adoptionBasisDigest (b : PolicyAdoptionBasis) : String := digestOf b.toJson.marshal

def artifactReference (raw : List UInt8) : RetainedArtifactRef where
  sha256 := digestOf raw
  bytes := raw.length

def executionHash (v : Json) : String := "sha256:" ++ digestOf v.marshal

/-- The digest of the canonical text of `method` and `body`, `""` when it has none. -/
def executionRequestDigest (method : String) (body : Json) : String :=
  match Json.gatewayCanonicalJSON (Json.obj [("method", .str method), ("body", body)]).marshal with
  | some canonical => "sha256:" ++ digestOf canonical
  | none => ""

end Desk
