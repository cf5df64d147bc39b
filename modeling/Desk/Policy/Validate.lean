import Desk.Lib.Keyed
import Desk.Policy.Record

/-!
# Validation of the policy ledger

The validators of every part of the ledger but execution, one check per item.
A set the source fills to refuse a second id is a `Nodup` check of the ids.
-/

namespace Desk

/-! ## Records -/

def validPolicyRevision (revision : PolicyRevision) : Bool :=
  policyEventIDForm revision.id && hasPrefix revision.id "revision_" && validPolicySource revision.source &&
    revision.content.valid && decide (revision.content.bytes ≤ policyCandidateByteLimit) &&
    revision.digest == revision.content.sha256 && decide (len revision.title ≤ 500) &&
    decide (len revision.artifactVersion ≤ policyArtifactVersionLimit) &&
    revision.workflowDigest == policyWorkflowDigest revision.workflow && validPolicyTime revision.at_ &&
    validPolicyActor revision.actor

def revisionOf (record : PolicyStoredRecord) (id : String) : Option PolicyRevision :=
  lastWith PolicyRevision.id record.revisions id

def reviewOf (record : PolicyStoredRecord) (id : String) : Option PolicyReview :=
  lastWith PolicyReview.id record.reviews id

def publicationOf (record : PolicyStoredRecord) (id : String) : Option PolicyPublication :=
  lastWith PolicyPublication.id record.publications id

def validPolicyReview (record : PolicyStoredRecord) (review : PolicyReview) : Bool :=
  policyEventIDForm review.id && hasPrefix review.id "review_" &&
    match revisionOf record review.candidateRevisionID with
    | none => false
    | some revision =>
      review.candidateDigest == revision.digest && review.workflowDigest == revision.workflowDigest &&
        !(review.decision == .approve && revision.workflow.independentReviewRequired) &&
        decide (len review.comment ≤ 8192) && validPolicyTime review.at_ && validPolicyActor review.actor

def validPolicyPublication (record : PolicyStoredRecord) (publication : PolicyPublication) : Bool :=
  policyEventIDForm publication.id && hasPrefix publication.id "publication_" &&
    match revisionOf record publication.candidateRevisionID, reviewOf record publication.reviewID with
    | some revision, some review =>
      publication.candidateDigest == revision.digest && publication.workflowDigest == revision.workflowDigest &&
        publication.content == revision.content && publication.artifactVersion != "" &&
        publication.artifactVersion == revision.artifactVersion && review.decision == .approve &&
        review.candidateRevisionID == revision.id && validPolicyTime publication.at_ &&
        validPolicyActor publication.actor
    | _, _ => false

def validatePolicyRecord (id : String) (record : PolicyStoredRecord) : Bool :=
  record.schemaVersion == policyRecordSchemaVersion && record.id == id && policyIDForm id &&
    validPolicyTime record.createdAt && validPolicyTime record.updatedAt && !record.revisions.isEmpty &&
    decide (record.revisions.length ≤ policyHistoryLimit) && decide (record.reviews.length ≤ policyHistoryLimit) &&
    decide (record.publications.length ≤ policyHistoryLimit) &&
    record.revisions.all validPolicyRevision && decide ((record.revisions.map PolicyRevision.id).Nodup) &&
    (revisionOf record record.headRevisionID).isSome &&
    some record.createdAt == record.revisions.head?.map PolicyRevision.at_ &&
    record.reviews.all (validPolicyReview record) && decide ((record.reviews.map PolicyReview.id).Nodup) &&
    (record.currentReviewID == "" || (policyCurrentReview record).isSome) &&
    record.publications.all (validPolicyPublication record) &&
    decide ((record.publications.map PolicyPublication.id).Nodup) &&
    decide ((record.publications.map PolicyPublication.artifactVersion).Nodup) && validatePolicyEventOrder record

def validPolicyOperation (ledger : PolicyLedger) (key : String) (operation : PolicyStoredOperation) : Bool :=
  key == operation.operationID && policyOperationIDForm key && ledger.policies.has operation.policyID &&
    retainedArtifactDigest operation.requestDigest && operation.result.valid

/-! ## Release lifecycle -/

/-- The three sets of the validator's loop. -/
structure LifecycleSets where
  seen : List String
  activated : List String
  withdrawn : List String

def validLifecycleEvent (record : PolicyStoredRecord) (i : Nat) (sets : LifecycleSets)
    (event : PolicyLifecycleEvent) : Option LifecycleSets :=
  match publicationOf record event.publicationID with
  | none => none
  | some publication =>
    if !(policyLifecycleIDForm event.id) || event.id ∈ sets.seen || event.sequence != i + 1 ||
        event.candidateDigest != publication.candidateDigest || !(validPolicyLifecycleTime event.at_) ||
        !(validPolicyActor event.actor) || event.provenance != "admin-configured" || decide (8192 < len event.rationale) then
      none
    else
      let sets := { sets with seen := event.id :: sets.seen }
      match event.action with
      | .activate =>
        if event.publicationID ∈ sets.activated || event.publicationID ∈ sets.withdrawn ||
            !(validPolicyLifecycleTime event.effectiveAt) || decide (event.effectiveAt < event.at_) ||
            (event.expiresAt != "" &&
              (!(validPolicyLifecycleTime event.expiresAt) || decide (event.expiresAt ≤ event.effectiveAt))) then
          none
        else if event.supersedesPublicationID != "" &&
            !((publicationOf record event.supersedesPublicationID).any fun older =>
              decide (older.sequence < publication.sequence)) then
          none
        else some { sets with activated := event.publicationID :: sets.activated }
      | .withdraw =>
        if event.publicationID ∈ sets.withdrawn || blank event.rationale || event.effectiveAt != "" ||
            event.expiresAt != "" || event.supersedesPublicationID != "" then
          none
        else some { sets with withdrawn := event.publicationID :: sets.withdrawn }

def validLifecycleEvents (record : PolicyStoredRecord) :
    Nat → LifecycleSets → List PolicyLifecycleEvent → Option LifecycleSets
  | _, sets, [] => some sets
  | i, sets, event :: rest => (validLifecycleEvent record i sets event).bind fun sets =>
    validLifecycleEvents record (i + 1) sets rest

def validLifecycleStream (record : PolicyStoredRecord) (stream : PolicyLifecycleStream) : Bool :=
  stream.version == 1 && !stream.events.isEmpty && decide (stream.events.length ≤ policyHistoryLimit) &&
    (validLifecycleEvents record 0 ⟨[], [], []⟩ stream.events).isSome

def validatePolicyLifecycles (ledger : PolicyLedger) : Bool :=
  decide (ledger.lifecycles.size ≤ ledger.policies.size) &&
    ledger.lifecycles.all fun id stream => match ledger.policies.get? id with
      | none => false
      | some record => validLifecycleStream record stream

/-! ## Connected sources -/

def policySourceFrequency (n : Nat) : Bool := n == 5 || n == 15 || n == 60

def validPolicyConnectedIdentity (s : PolicyConnectedIdentity) : Bool :=
  s.provider == "google-drive" && s.accountID != "" && decide (len s.accountID ≤ 4096) && s.resourceID != "" &&
    decide (len s.resourceID ≤ 4096)

def validPolicyPrefixedDigest (s : String) : Bool := hexForm "sha256:" 64 s

def validPolicySourceBinding (b : PolicySourceBinding) : Bool :=
  b.version == 1 && retainedArtifactDigest b.operationID && retainedArtifactDigest b.bindingID &&
    validPolicyConnectedIdentity b.source && validPolicyTime b.createdAt && b.coverage == "snapshot-only" &&
    b.lifecycle.kind == "not-exposed"

def validSourceObservation (item : PolicySourceObservation) : Bool :=
  retainedArtifactDigest item.id && retainedArtifactDigest item.bindingID && validPolicyConnectedIdentity item.source &&
    item.sourceRevision != "" && decide (len item.sourceRevision ≤ 4096) && validPolicyTime item.observedAt &&
    validPolicyTime item.retainedAt && item.availability == "present" && item.coverage == "snapshot-only" &&
    item.lifecycle.kind == "not-exposed" && item.original.valid && decide (item.original.bytes ≤ 4 * 2 ^ 20) &&
    item.document.valid && decide (item.document.bytes ≤ 16 * 2 ^ 20) &&
    item.content.bytesDigest == "sha256:" ++ item.original.sha256 && item.content.byteLength == item.original.bytes &&
    item.extraction.content.bytesDigest == "sha256:" ++ item.document.sha256 &&
    item.extraction.content.byteLength == item.document.bytes &&
    item.extraction.content.mediaType == "application/vnd.jpack.attachment+json" &&
    item.extraction.profile == "attachment-record-v1/canon" && retainedArtifactDigest item.semanticDigest &&
    validPolicyPrefixedDigest item.extraction.configurationDigest && item.name != "" && decide (len item.name ≤ 255)

def validSourceResolution (record : PolicyStoredRecord) (source : PolicyConnectedSource)
    (item : PolicySourceResolution) : Bool :=
  decide (item.observationID ∈ source.observations.map PolicySourceObservation.id) && validPolicyActor item.actor &&
    validPolicyTime item.at_ && decide (len item.comment ≤ 8192) &&
    record.revisions.any fun rev =>
      item.candidateRevisionID == rev.id && item.candidateDigest == rev.digest && item.workflowDigest == rev.workflowDigest

def validConnectedSource (record : PolicyStoredRecord) (source : PolicyConnectedSource) : Bool :=
  source.version == 1 && decide (1 ≤ source.generation) && policySourceFrequency source.frequencyMinutes &&
    retainedArtifactDigest source.grant.authority && retainedArtifactDigest source.grant.operationID &&
    source.grant.resourceID != "" && decide (len source.grant.resourceID ≤ 4096) &&
    retainedArtifactDigest source.grant.selectionContext && validPolicyActor source.grant.actor &&
    validPolicyTime source.grant.at_ && decide (source.observations.length ≤ policyHistoryLimit) &&
    decide (source.resolutions.length ≤ policyHistoryLimit) && decide (source.actions.length ≤ policyHistoryLimit) &&
    decide (source.cleanup.length ≤ policyHistoryLimit) && decide (source.cleanupOperations.length ≤ policyHistoryLimit) &&
    [source.lastAttempt, source.lastSuccess, source.nextCheck].all (fun stamp => stamp == "" || validPolicyTime stamp) &&
    (match source.binding with
      | none => source.state != .active
      | some binding => validPolicySourceBinding binding && binding.operationID == source.grant.operationID &&
          binding.source.resourceID == source.grant.resourceID && (source.state != .active || binding.state == .active)) &&
    (source.cleanup ++ source.cleanupOperations).all retainedArtifactDigest &&
    (match source.poll with
      | none => true
      | some poll => retainedArtifactDigest poll.id && retainedArtifactDigest poll.owner && validPolicyTime poll.deadline &&
          poll.generation == source.generation) &&
    source.observations.all validSourceObservation &&
    decide ((source.observations.map PolicySourceObservation.id).Nodup) &&
    source.resolutions.all (validSourceResolution record source) &&
    source.actions.all (fun item => validPolicyTime item.at_ && validPolicyActor item.actor)

def validatePolicySources (ledger : PolicyLedger) : Bool :=
  decide (ledger.sources.size ≤ policyCountLimit) &&
    ledger.sources.all fun id source => match ledger.policies.get? id with
      | none => false
      | some record => validConnectedSource record source

/-! ## Source authority -/

/-- The variables of the validator's loop over the events of one stream. -/
structure AuthorityLoop where
  ids : List String
  configs : List PolicySourceStatusConfiguration
  applications : List String
  previousSequence : Nat
  mode : ManagementMode

/-- The members an event sets. -/
def PolicySourceAuthorityEvent.fields (e : PolicySourceAuthorityEvent) : Nat :=
  e.configuration.isSome.toNat + e.managementMode.isSome.toNat + e.externalVersion.isSome.toNat +
    e.importedDraft.isSome.toNat

/-- The configuration and retained observation an event builds on. -/
def authorityBasis (observations : List PolicySourceObservation) (s : AuthorityLoop) (configurationID : String)
    (observation : PolicySourceObservation) : Option PolicySourceStatusConfiguration :=
  match lastWith PolicySourceStatusConfiguration.id s.configs configurationID,
      lastWith PolicySourceObservation.id observations observation.id with
  | some c, some o =>
    if o == observation && c.bindingID == o.bindingID && c.source == o.source then some c else none
  | _, _ => none

/-- The checks every event passes, whatever its kind. -/
def validAuthorityEvent (record : PolicyStoredRecord) (i : Nat) (s : AuthorityLoop) (e : PolicySourceAuthorityEvent) : Bool :=
  policyAuthorityIDForm e.id && hasPrefix e.id "authority_" && decide (e.id ∉ s.ids) && e.sequence == i + 1 &&
    validPolicyLifecycleTime e.at_ && validPolicyActor e.actor && !blank e.rationale && decide (len e.rationale ≤ 8192) &&
    decide (s.previousSequence ≤ e.policySequence) && decide (e.policySequence ≤ policyEventCount record) &&
    e.fields == 1

def authorityStep (record : PolicyStoredRecord) (observations : List PolicySourceObservation) (i : Nat)
    (s : AuthorityLoop) (e : PolicySourceAuthorityEvent) : Option AuthorityLoop :=
  if !(validAuthorityEvent record i s e) then none
  else
    let s := { s with ids := e.id :: s.ids, previousSequence := e.policySequence }
    match e.kind with
    | .configure => match e.configuration with
      | none => none
      | some c =>
        if policyAuthorityIDForm c.id && hasPrefix c.id "configuration_" && decide (c.id ∉ s.ids) &&
            retainedArtifactDigest c.bindingID && validPolicyConnectedIdentity c.source && c.capability == "not-exposed" &&
            c.at_ == e.at_ && c.actor == e.actor then
          some { s with ids := c.id :: s.ids, configs := s.configs ++ [c] }
        else none
    | .setOwnership => match e.managementMode with
      | none => none
      | some mode => some { s with mode := mode }
    | .applyExternal => match e.externalVersion with
      | none => none
      | some v =>
        if s.mode == .externallyManaged && policyAuthorityIDForm v.id && hasPrefix v.id "external_" &&
            decide (v.id ∉ s.ids) && v.eventID == e.id && v.at_ == e.at_ && v.actor == e.actor then
          match authorityBasis observations s v.configurationID v.observation with
          | none => none
          | some c =>
            let application := v.configurationID ++ "\x00" ++ v.observation.id ++ "\x00" ++ v.status ++ "\x00" ++ v.provenance
            if c.fallbackStatus == .published && v.status == "published" && v.provenance == "admin-configured" &&
                v.rawStatus == "" && v.evidence == none && decide (application ∉ s.applications) then
              some { s with ids := v.id :: s.ids, applications := application :: s.applications }
            else none
        else none
    | .importDraft => match e.importedDraft with
      | none => none
      | some d => match authorityBasis observations s d.configurationID d.observation with
        | none => none
        | some _ =>
          if record.revisions.any fun r => r.id == d.candidateRevisionID && r.digest == d.candidateDigest &&
              r.workflowDigest == d.workflowDigest && r.sequence == e.policySequence && r.at_ == e.at_ &&
              r.actor == e.actor && r.source == none then
            some { s with mode := .deskManaged }
          else none

def authorityLoop (record : PolicyStoredRecord) (observations : List PolicySourceObservation) :
    Nat → AuthorityLoop → List PolicySourceAuthorityEvent → Option AuthorityLoop
  | _, s, [] => some s
  | i, s, e :: rest => (authorityStep record observations i s e).bind fun s =>
    authorityLoop record observations (i + 1) s rest

def validAuthorityStream (record : PolicyStoredRecord) (source : Option PolicyConnectedSource)
    (stream : PolicySourceAuthorityStream) : Bool :=
  stream.version == 1 && !stream.events.isEmpty && decide (stream.events.length ≤ policyHistoryLimit) &&
    (authorityLoop record ((source.map PolicyConnectedSource.observations).getD []) 0
      ⟨[], [], [], 0, .deskManaged⟩ stream.events).isSome

def validatePolicySourceAuthorities (ledger : PolicyLedger) : Bool :=
  decide (ledger.sourceAuthorities.size ≤ ledger.policies.size) &&
    ledger.sourceAuthorities.all fun id stream => match ledger.policies.get? id with
      | none => false
      | some record => validAuthorityStream record (ledger.sources.get? id) stream

/-! ## Coverage -/

def policyCoverageCountLimit : Nat := 256

def policyCoverageTextLimit : Nat := 4096

def policyCoverageCandidateLimit : Nat := 2 * 2 ^ 20

def policyCoverageCheckByteLimit : Nat := 2 * 2 ^ 20

def policyCoverageIDForm (s : String) : Bool := hexForm "coverage_" 48 s

def policyCoverageCandidateIDForm (s : String) : Bool := hexForm "coverage_candidate_" 48 s

def policyCoverageReviewIDForm (s : String) : Bool := hexForm "coverage_review_" 48 s

/-- The selector read back through its own closed decoder. -/
def validCoveragePackSelector (p : PolicyCoveragePackSelector) : Bool :=
  retainedArtifactDigest p.publicationID && p.artifactID != "" && decide (len p.artifactID ≤ 4096) && p.version != "" &&
    decide (len p.version ≤ policyArtifactVersionLimit) && p.content.valid && decide (1 ≤ p.content.bytes)

def validCoverageElement (el : PolicyCoverageElement) : Bool :=
  match el.kind with
  | .rule | .exception => el.id != "" && decide (len el.id ≤ 4096)
  | .applicability | .fallback => el.id == ""

def PolicyCoverageStatement.validate (v : PolicyCoverageStatement) : Bool :=
  let text := match v.status with
    | .implemented => v.basis
    | .manual => v.handoff
    | .awaitingInterpretation => v.explanation
    | .outOfScope => v.rationale
  (v.status != .implemented || decide (1 ≤ v.consumerElements.length ∧ v.consumerElements.length ≤ 64)) &&
    !blank text && decide (len text ≤ policyCoverageTextLimit) && v.consumerElements.all validCoverageElement &&
    decide v.consumerElements.Nodup && (v.status == .implemented || v.consumerElements.isEmpty && v.basis == "") &&
    (v.status == .manual || v.handoff == "") && (v.status == .awaitingInterpretation || v.explanation == "") &&
    (v.status == .outOfScope || v.rationale == "")

def validCoverageCandidate (record : PolicyStoredRecord) (c : PolicyCoverageCandidateMetadata) : Bool :=
  policyCoverageCandidateIDForm c.id && c.content.valid && decide (1 ≤ c.content.bytes) &&
    decide (c.content.bytes ≤ policyCoverageCandidateLimit) && c.digest == c.content.sha256 && validPolicyActor c.actor &&
    validPolicyTime c.at_ && validCoveragePackSelector c.pack &&
    record.publications.any fun p => p.id == c.policyPublicationID

def validCoverageReview (record : PolicyCoverageRecord) (r : PolicyCoverageReview) : Bool :=
  policyCoverageReviewIDForm r.id &&
    match lastWith PolicyCoverageCandidateMetadata.id record.candidates r.candidateID with
    | none => false
    | some c => r.candidateDigest == c.digest && retainedArtifactDigest r.policyRevision && validPolicyActor r.actor &&
        validPolicyTime r.at_ && decide (len r.comment ≤ 8192) && (r.decision == .approve) == r.check.isSome &&
        r.check.all fun check => check.valid && decide (check.bytes ≤ policyCoverageCheckByteLimit)

/-- A slot of the coverage history: a candidate or a review. -/
abbrev CoverageEvent := PolicyCoverageCandidateMetadata ⊕ PolicyCoverageReview

def CoverageEvent.sequence : CoverageEvent → Nat
  | .inl c => c.sequence
  | .inr r => r.sequence

/-- The replay's `current`, `review` and `at`. -/
structure CoverageReplay where
  current : String
  review : String
  at_ : String

def coverageReplay : List (Option CoverageEvent) → CoverageReplay → Option CoverageReplay
  | [], s => some s
  | none :: _, _ => none
  | some (.inl c) :: rest, _ => coverageReplay rest ⟨c.id, "", c.at_⟩
  | some (.inr r) :: rest, s =>
    if r.candidateID != s.current then none else coverageReplay rest { s with review := r.id, at_ := r.at_ }

def validCoverageOrder (record : PolicyCoverageRecord) : Bool :=
  match Slots.fill CoverageEvent.sequence [record.candidates.map .inl, record.reviews.map .inr]
      (List.replicate (record.candidates.length + record.reviews.length + 1) none) with
  | none => false
  | some events => match coverageReplay (events.drop 1) ⟨"", "", ""⟩ with
    | none => false
    | some s => s.current == record.headCandidateID && s.review == record.currentReviewID && s.at_ == record.updatedAt

def validCoverageRecord (ledger : PolicyLedger) (key : String) (record : PolicyCoverageRecord) : Bool :=
  record.schemaVersion == 1 && key == record.id && policyCoverageIDForm key &&
    (match ledger.policies.get? record.policyID with
      | none => false
      | some policy => record.candidates.all (validCoverageCandidate policy)) &&
    validPolicyTime record.createdAt && validPolicyTime record.updatedAt && decide (1 ≤ record.candidates.length) &&
    decide (record.candidates.length ≤ policyHistoryLimit) && decide (record.reviews.length ≤ policyHistoryLimit) &&
    decide ((record.candidates.map PolicyCoverageCandidateMetadata.id).Nodup) &&
    record.reviews.all (validCoverageReview record) && decide ((record.reviews.map PolicyCoverageReview.id).Nodup) &&
    validCoverageOrder record && some record.createdAt == record.candidates.head?.map PolicyCoverageCandidateMetadata.at_ &&
    match record.recovery with
    | none => true
    | some r => (lastWith PolicyRecoverySnapshot.snapshotID ledger.recoveries r.snapshotID).any (fun snap => snap.at_ == r.restoredAt) &&
        r.snapshotID != "" && decide (1 ≤ r.sequence ∧ r.sequence ≤ record.candidates.length + record.reviews.length)

def validatePolicyCoverages (ledger : PolicyLedger) : Bool :=
  decide (ledger.coverages.size ≤ policyCoverageCountLimit) && ledger.coverages.all (validCoverageRecord ledger)

/-! ## Adoption -/

def policyAdoptionCountLimit : Nat := 256

def policyAdoptionSetLimit : Nat := 16

def policyAdoptionContentLimit : Nat := 2 * 2 ^ 20

def policyAdoptionIDForm (s : String) : Bool := hexForm "adoption_" 48 s

def policyAdoptionCandidateIDForm (s : String) : Bool := hexForm "adoption_candidate_" 48 s

def policyAdoptionReviewIDForm (s : String) : Bool := hexForm "adoption_review_" 48 s

def validAdoptionSelection (p : PolicyAdoptionSelection) : Bool :=
  policyIDForm p.policyID && policyCoverageIDForm p.coverageID && retainedArtifactDigest p.revision &&
    policyCoverageCandidateIDForm p.candidateID && policyCoverageReviewIDForm p.reviewID

def validAdoptionReview (r : PolicyAdoptionRecord) (i : Nat) (v : PolicyAdoptionReview) : Bool :=
  policyAdoptionReviewIDForm v.id && v.sequence == i + 1 && v.candidateID == r.candidateID &&
    v.candidateDigest == r.content.sha256 && retainedArtifactDigest v.basisDigest && decide (len v.comment ≤ 8192) &&
    validPolicyActor v.actor && validPolicyTime v.at_ && (v.decision == .approve) == v.check.isSome &&
    v.check.all fun check => check.valid && decide (check.bytes ≤ policyCoverageCheckByteLimit)

def validAdoptionRecord (recoveries : List PolicyRecoverySnapshot) (key : String) (r : PolicyAdoptionRecord) : Bool :=
  r.schemaVersion == 1 && key == r.id && policyAdoptionIDForm key && policyAdoptionCandidateIDForm r.candidateID &&
    r.content.valid && decide (1 ≤ r.content.bytes) && decide (r.content.bytes ≤ policyAdoptionContentLimit) &&
    validPolicyActor r.actor && validPolicyTime r.createdAt && validPolicyTime r.updatedAt &&
    decide (r.reviews.length ≤ policyHistoryLimit) && (r.reviews.mapIdx (validAdoptionReview r)).all id &&
    decide ((r.reviews.map PolicyAdoptionReview.id).Nodup) &&
    r.updatedAt == (r.reviews.getLast?.map PolicyAdoptionReview.at_).getD r.createdAt &&
    r.currentReviewID == (r.reviews.getLast?.map PolicyAdoptionReview.id).getD "" &&
    match r.recovery with
    | none => true
    | some recovery => (recoveries.any fun v => v.snapshotID == recovery.snapshotID && v.at_ == recovery.restoredAt) &&
        decide (recovery.sequence ≤ r.reviews.length)

def validatePolicyAdoptions (l : PolicyLedger) : Bool :=
  decide (l.adoptions.size ≤ policyAdoptionCountLimit) && l.adoptions.all (validAdoptionRecord l.recoveries)

/-! ## Recovery -/

def validRecoverySnapshot (r : PolicyRecoverySnapshot) : Bool :=
  retainedArtifactDigest r.snapshotID && retainedArtifactDigest r.archiveDigest && retainedArtifactDigest r.ledgerDigest &&
    validPolicyTime r.at_ && validPolicyActor r.actor

def validRecordRecovery (ledger : PolicyLedger) (id : String) (record : PolicyStoredRecord) : Bool :=
  match record.recovery with
  | none => true
  | some r => match lastWith PolicyRecoverySnapshot.snapshotID ledger.recoveries r.snapshotID with
    | none => false
    | some snapshot => r.restoredAt == snapshot.at_ && decide (1 ≤ r.policySequence) &&
        decide (r.policySequence ≤ policyEventCount record) &&
        (!r.sourceConsentRequired || (ledger.sources.get? id).any fun source => source.recovery.any fun s =>
          s.snapshotID == r.snapshotID && s.consentOperationID == "")

def validSourceRecovery (ledger : PolicyLedger) (id : String) (source : PolicyConnectedSource) : Bool :=
  match source.recovery with
  | none => true
  | some r => match (ledger.policies.get? id).bind PolicyStoredRecord.recovery with
    | none => false
    | some boundary => r.snapshotID == boundary.snapshotID &&
        boundary.sourceConsentRequired == (r.consentOperationID == "") &&
        (r.consentOperationID == "" || r.consentOperationID == source.grant.operationID)

def validatePolicyRecovery (ledger : PolicyLedger) : Bool :=
  decide (ledger.recoveries.length ≤ 64) && ledger.recoveries.all validRecoverySnapshot &&
    decide ((ledger.recoveries.map PolicyRecoverySnapshot.snapshotID).Nodup) &&
    ledger.policies.all (validRecordRecovery ledger) && ledger.sources.all (validSourceRecovery ledger)

end Desk
