import Desk.Ledger.Failure
import Desk.Policy.Record
import Desk.Types.Reply

/-!
# Who manages a policy

Ownership is read off the authority stream event by event: the last mode set,
and the policy sequence of the last event that changed the mode. A review or a
publication at or below that boundary, or below a restored snapshot, no longer
counts.
-/

namespace Desk

/-! ## Ownership -/

/-- The variables of the loop over the events. -/
structure OwnershipLoop where
  owner : PolicySourceOwnership
  boundary : Nat

def inheritedOwnership : PolicySourceOwnership where
  mode := .deskManaged
  inherited := true
  eventID := ""
  at_ := ""
  actor := none

/-- The mode an event sets, if it sets one. -/
def PolicySourceAuthorityEvent.mode (event : PolicySourceAuthorityEvent) : Option ManagementMode :=
  if event.kind = .importDraft then some .deskManaged else event.managementMode

def ownershipStep (s : OwnershipLoop) (event : PolicySourceAuthorityEvent) : OwnershipLoop :=
  match event.mode with
  | none => s
  | some mode =>
    { owner := ⟨mode, false, event.id, event.at_, some event.actor⟩
      boundary := if mode = s.owner.mode then s.boundary else event.policySequence }

def authorityEvents (stream : Option PolicySourceAuthorityStream) : List PolicySourceAuthorityEvent :=
  (stream.map PolicySourceAuthorityStream.events).getD []

def policyAuthorityOwnership (stream : Option PolicySourceAuthorityStream) : OwnershipLoop :=
  (authorityEvents stream).foldl ownershipStep ⟨inheritedOwnership, 0⟩

/-- `policyRecoveryReviewBoundary`. -/
def policyRecoveryReviewBoundary (record : PolicyStoredRecord) (boundary : Nat) : Nat :=
  match record.recovery with
  | some recovery => if boundary < recovery.policySequence then recovery.policySequence else boundary
  | none => boundary

/-- The boundary of a record under its stream. -/
def policyBoundary (record : PolicyStoredRecord) (stream : Option PolicySourceAuthorityStream) : Nat :=
  policyRecoveryReviewBoundary record (policyAuthorityOwnership stream).boundary

def policyEffectiveRevision (record : PolicyStoredRecord) (stream : Option PolicySourceAuthorityStream) : String :=
  let owner := (policyAuthorityOwnership stream).owner
  if owner.eventID = "" then policyRecordRevision record
  else digestOf (bytesOf (policyRecordRevision record ++ "\x00" ++ owner.eventID))

def policyAuthoritySummary (stream : Option PolicySourceAuthorityStream) : Option PolicySourceAuthoritySummary :=
  stream.map fun s =>
    let applied := s.events.filterMap PolicySourceAuthorityEvent.externalVersion
    { revision := policyAuthorityRevision (some s)
      ownership := (policyAuthorityOwnership stream).owner
      externalVersionCount := applied.length
      lastApplied := applied.getLast? }

/-! ## What still counts under it -/

def policyAuthorityCurrentCandidatePublished (record : PolicyStoredRecord)
    (stream : Option PolicySourceAuthorityStream) : Bool :=
  let head := policyHead record
  (policyAuthorityOwnership stream).owner.mode == .deskManaged && record.publications.any fun publication =>
    decide (policyBoundary record stream < publication.sequence) && publication.candidateRevisionID == head.id &&
      publication.candidateDigest == head.digest && publication.workflowDigest == head.workflowDigest

def policyAuthorityCurrentReview (record : PolicyStoredRecord) (stream : Option PolicySourceAuthorityStream) :
    Option PolicyReview :=
  if (policyAuthorityOwnership stream).owner.mode = .deskManaged then
    (policyCurrentReview record).filter fun review => policyBoundary record stream < review.sequence
  else none

def policyAuthorityReviewState (record : PolicyStoredRecord) (stream : Option PolicySourceAuthorityStream) :
    ReviewState :=
  match policyAuthorityCurrentReview record stream with
  | some review => if review.decision = .approve then .approved else .changesRequested
  | none => .unreviewed

/-- The kinds that only the owner may decide. -/
inductive AdmittedKind where
  | review | publish | activate | other
deriving DecidableEq

def policyAuthorityAdmission (stream : Option PolicySourceAuthorityStream) (kind : AdmittedKind) : Option PolicyFailure :=
  if kind ≠ .other ∧ (policyAuthorityOwnership stream).owner.mode ≠ .deskManaged then
    some (policyRefusal 409 "external-ownership"
      "Import a reviewed Desk draft before reviewing, publishing or activating a local release.")
  else none

def policyRecoveryProjection (record : PolicyStoredRecord) (stream : Option PolicySourceAuthorityStream) :
    Option PolicyRecoveryView :=
  record.recovery.map fun recovery =>
    { snapshotID := recovery.snapshotID
      restoredAt := recovery.restoredAt
      currentnessUnknown := true
      freshReviewRequired := (policyAuthorityCurrentReview record stream).isNone
      sourceConsentRequired := recovery.sourceConsentRequired }

end Desk
