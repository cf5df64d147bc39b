import Desk.Execution.HighWater
import Desk.Policy.Lifecycle
import Desk.Service.Call

/-!
# Eligibility

A registered resource may run while the adoption it was registered under is
retained and every publication it depends on is effective, reviewed under
current Desk ownership. All of it is read from the ledger at one reading.
-/

namespace Desk

/-! ## The adoption of a resource -/

def policyArchiveInvalid : PolicyFailure :=
  policyRefusal 400 "archive-integrity" "The Policy archive is incomplete or inconsistent. No project was restored."

/-- The coverage as it stood when the dependency was selected. -/
def coveragePrefix (coverage : PolicyCoverageRecord) (d : PolicyAdoptionDependency)
    (metadata : PolicyCoverageCandidateMetadata) : PolicyCoverageRecord :=
  { coverage with
    recovery := d.coverageRecovery
    candidates := coverage.candidates.filter fun v => v.sequence ≤ d.coverageReview.sequence
    reviews := coverage.reviews.filter fun v => v.sequence ≤ d.coverageReview.sequence
    headCandidateID := metadata.id
    currentReviewID := d.selection.reviewID
    updatedAt := d.coverageReview.at_ }

/-- What the ledger has to say of one dependency. -/
def archivedDependency (l : PolicyLedger) (d : PolicyAdoptionDependency) : Bool :=
  match l.coverages.get? d.selection.coverageID with
  | none => false
  | some coverage =>
    coverage.policyID == d.selection.policyID &&
      match lastWith PolicyCoverageCandidateMetadata.id coverage.candidates d.selection.candidateID with
      | none => false
      | some metadata =>
        metadata.id != "" && metadata.digest == d.candidateDigest && metadata.content == d.coverageContent &&
          coverage.reviews.any (fun v => v.id == d.selection.reviewID && v == d.coverageReview) &&
          d.coverageRecovery.all (fun recovery => (l.recoveries.any fun snapshot =>
            snapshot.snapshotID == recovery.snapshotID && snapshot.at_ == recovery.restoredAt) &&
              decide (recovery.sequence < d.coverageReview.sequence)) &&
          coverageRevision (coveragePrefix coverage d metadata) == d.selection.revision

/-- The checks of the retained content itself. -/
def validAdoptionContent (r : PolicyAdoptionRecord) (c : PolicyAdoptionContent) : Bool :=
  c.schemaVersion == 1 && c.formatVersion == policyAdoptionFormat &&
    c.portableID == "urn:desk:adoption-candidate:" ++ r.candidateID && c.basisDigest == adoptionBasisDigest c.basis &&
    validCoveragePackSelector c.basis.pack && decide (1 ≤ c.basis.dependencies.length) &&
    decide (c.basis.dependencies.length ≤ policyAdoptionSetLimit) && c.document.valid && c.check.valid &&
    decide (c.materials.length ≤ 16) && decide ((c.basis.dependencies.map fun d => d.selection.policyID).Nodup) &&
    c.basis.dependencies.all fun d => validAdoptionSelection d.selection && d.candidateDigest == d.coverageContent.sha256 &&
      d.coverageContent.valid && d.coverageReview.id == d.selection.reviewID &&
      d.coverageReview.candidateID == d.selection.candidateID && d.coverageReview.candidateDigest == d.candidateDigest &&
      d.coverageReview.decision == .approve && d.coverageReview.check.isSome &&
      d.coverageReview.policyRevision == d.policyRevision && d.source.policyID == d.selection.policyID &&
      d.source.publicationID == d.policyPublicationID && d.scope.kind == "whole-narrative" &&
      d.statement.status != .awaitingInterpretation && d.statement.validate

namespace Call

def archivedAdoptionContent (call : Call) (l : PolicyLedger) (r : PolicyAdoptionRecord) (c : PolicyAdoptionContent) : Bool :=
  c.basis.dependencies.all (archivedDependency l) && call.codec.archived l r c &&
    r.reviews.all fun review => review.basisDigest == c.basisDigest

def adoptionContent (call : Call) (r : PolicyAdoptionRecord) : Except GoError PolicyAdoptionContent := do
  let raw ← call.get r.content
  match call.codec.adoption raw with
  | none => .error .other
  | some c =>
    if decide (raw.length ≤ policyAdoptionContentLimit) && validAdoptionContent r c then .ok c else .error .other

/-- The approval of the named review, the last of its id. -/
def approvedReview (r : PolicyAdoptionRecord) (reviewID : String) : Option PolicyAdoptionReview :=
  (lastWith PolicyAdoptionReview.id (r.reviews.filter (·.decision = .approve)) reviewID).filter fun review =>
    review.id != "" && review.check.isSome

def resolvePolicyExecutionAdoption (call : Call) (l : PolicyLedger) (id reviewID : String) :
    Except GoError PolicyExecutionAdoption := do
  let r ← found ((l.adoptions.get? id).filter fun r => r.recovery.isNone) (executionFailure "eligibility-blocked")
  let c ← call.adoptionContent r
  require (call.archivedAdoptionContent l r c) policyArchiveInvalid
  let approved ← found (approvedReview r reviewID) (executionFailure "eligibility-blocked")
  return { id := r.id, candidateID := r.candidateID, contentRef := r.content, content := c, review := approved }

def retainedAdoption (call : Call) (l : PolicyLedger) (a : PolicyExecutionAdoption) : Bool :=
  executionAdoptionSnapshot l a &&
    match call.get a.contentRef with
    | .error _ => false
    | .ok raw => match call.codec.adoption raw, l.adoptions.get? a.id with
      | some content, some r => content == a.content && call.archivedAdoptionContent l r content
      | _, _ => false

end Call

/-! ## The dependencies -/

/-- Why a release with this status does not carry its dependents. -/
def ReleaseStatus.refusal : ReleaseStatus → Option ExecutionReason
  | .effective => none
  | .withdrawn => some .withdrawn
  | .expired => some .expired
  | .superseded => some .superseded
  | .published => some .notEffective

/-- Why one dependency is not effective at the reading, if it is not. -/
def dependencyRefusal (l : PolicyLedger) (now : String) (d : PolicyAdoptionDependency) : Option ExecutionReason :=
  match l.policies.get? d.selection.policyID with
  | none => some .dependencyUnavailable
  | some p =>
    let authority := l.sourceAuthorities.get? p.id
    let named := p.publications.filter fun publication => publication.id = d.policyPublicationID
    let releases := (policyLifecycleView p (l.lifecycles.get? p.id) now authority).releases.filter fun view =>
      view.publicationID = d.policyPublicationID
    if (policyAuthorityOwnership authority).owner.mode ≠ .deskManaged then some .authorityUnavailable
    else if named.any fun publication => decide (publication.sequence ≤ policyBoundary p authority) then
      some .authorityUnavailable
    else if named.isEmpty then some .dependencyUnavailable
    else match releases.findSome? fun view => view.status.refusal with
      | some reason => some reason
      | none => if releases.isEmpty then some .notEffective else none

/-- `eligible`, the reason a start is refused or that it may go ahead. -/
def Call.eligible (call : Call) (l : PolicyLedger) (r : PolicyExecutionRegisteredResource) (now : String) : ExecutionReason :=
  let c := r.content
  if !(call.retainedAdoption l c.adoption) then .dependencyUnavailable
  else match call.get c.release, l.adoptions.get? c.adoption.id with
    | .ok _, some a =>
      if a.recovery.isSome then .authorityUnavailable
      else if a.reviews.any fun review => decide (c.adoption.review.sequence < review.sequence) &&
          review.decision == .requestChanges then .adoptionChangesRequested
      else (c.adoption.content.basis.dependencies.findSome? (dependencyRefusal l now)).getD .eligible
    | _, _ => .dependencyUnavailable

end Desk
