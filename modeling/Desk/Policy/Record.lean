import Desk.Lib.Slots
import Desk.Lib.Utc
import Desk.Types.Encode

/-!
# The policy record

Identifier forms, the fields a record is read by, and the order of its events.
-/

namespace Desk

/-! ## Limits -/

def policyLedgerLimit : Nat := 2 ^ 24

def policyCountLimit : Nat := 256

def policyHistoryLimit : Nat := 512

def policyRecordSchemaVersion : Nat := 2

def policyEventLimit : Nat := 3 * policyHistoryLimit

def policyOperationLimit : Nat := 4096

def policyNarrativeLimit : Nat := 128 * 2 ^ 10

def policyArtifactVersionLimit : Nat := 256

/-- Every accepted character may be escaped to six bytes. -/
def policyCandidateByteLimit : Nat := 6 * (policyNarrativeLimit + 500 + policyArtifactVersionLimit) + 4096

def policySourceByteLimit : Nat := 128 * 2 ^ 10

def retainedArtifactByteLimit : Nat := 32 * 2 ^ 20

/-! ## Forms -/

def retainedArtifactDigest (s : String) : Bool := hexForm "" 64 s

def policyIDForm (s : String) : Bool := hexForm "policy_" 48 s

def policyEventIDForm (s : String) : Bool :=
  hexForm "revision_" 48 s || hexForm "review_" 48 s || hexForm "publication_" 48 s

def policyOperationIDForm (s : String) : Bool := wordForm 16 128 s

def policyLifecycleIDForm (s : String) : Bool := hexForm "lifecycle_" 48 s

def policyAuthorityIDForm (s : String) : Bool :=
  hexForm "authority_" 48 s || hexForm "configuration_" 48 s || hexForm "external_" 48 s

def RetainedArtifactRef.valid (r : RetainedArtifactRef) : Bool :=
  retainedArtifactDigest r.sha256 && decide (r.bytes ≤ retainedArtifactByteLimit)

def validPolicyTime (value : String) : Bool := (Utc.parse value).isSome

def validPolicyLifecycleTime (value : String) : Bool :=
  decide (len value = 20) &&
    match Utc.parse value with
    | some parsed => decide (1 ≤ parsed.year) && parsed.format == value
    | none => false

def validPolicyActor (actor : PolicyActor) : Bool :=
  actor.subject != "" && decide (len actor.subject ≤ 1024) &&
    match actor.kind with
    | .local => actor.issuer == ""
    | .oidc => actor.issuer != "" && decide (len actor.issuer ≤ 4096)

/-- `unicode.IsControl`. -/
def isControl (c : Char) : Bool := decide (c.toNat < 0x20 ∨ 0x7f ≤ c.toNat ∧ c.toNat < 0xa0)

/-- `unicode.Cf`, the format characters, as ranges. -/
def isFormat (c : Char) : Bool :=
  [(0xad, 0xad), (0x600, 0x605), (0x61c, 0x61c), (0x6dd, 0x6dd), (0x70f, 0x70f), (0x890, 0x891), (0x8e2, 0x8e2),
   (0x180e, 0x180e), (0x200b, 0x200f), (0x202a, 0x202e), (0x2060, 0x2064), (0x2066, 0x206f), (0xfeff, 0xfeff),
   (0xfff9, 0xfffb), (0x110bd, 0x110bd), (0x110cd, 0x110cd), (0x13430, 0x1343f), (0x1bca0, 0x1bca3),
   (0x1d173, 0x1d17a), (0xe0001, 0xe0001), (0xe0020, 0xe007f)].any fun r => decide (r.1 ≤ c.toNat ∧ c.toNat ≤ r.2)

/-- The suffixes are ASCII, so only ASCII letters are folded. -/
def hasTextSuffix (name : String) : Bool :=
  let lower := name.toList.map Char.toLower
  ".txt".toList.isSuffixOf lower || ".md".toList.isSuffixOf lower

def validPolicySourceName (name : String) : Bool :=
  name != "" && decide (len name ≤ 255) && trimmed name &&
    name.toList.all (fun c => c != '/' && c != '\\' && c != ':') &&
    name.toList.all (fun c => !isControl c && !isFormat c) && hasTextSuffix name

def validPolicySourceMediaType (media : String) : Bool := media == "text/plain" || media == "text/markdown"

def validPolicySource : Option PolicySource → Bool
  | none => true
  | some source => source.origin == "user-upload" && validPolicySourceName source.name &&
      validPolicySourceMediaType source.mediaType && source.content.valid &&
      decide (source.content.bytes ≤ policySourceByteLimit)

/-! ## Reading a record -/

/-- The revision of that id; the zero revision when there is none. -/
def policyHead (record : PolicyStoredRecord) : PolicyRevision :=
  (record.revisions.find? fun revision => revision.id == record.headRevisionID).getD default

def policyCurrentReview (record : PolicyStoredRecord) : Option PolicyReview :=
  let head := policyHead record
  record.reviews.find? fun review =>
    review.id == record.currentReviewID && review.candidateRevisionID == head.id &&
      review.candidateDigest == head.digest && review.workflowDigest == head.workflowDigest

def policyEventCount (record : PolicyStoredRecord) : Nat :=
  record.revisions.length + record.reviews.length + record.publications.length

/-! ## Event order -/

/-- An entry of the one history the three lists of a record are parts of. -/
inductive PolicyEvent where
  | revision (item : PolicyRevision)
  | review (item : PolicyReview)
  | publication (item : PolicyPublication)

inductive EventKind where
  | revision | review | publication
deriving DecidableEq

namespace PolicyEvent

def kind : PolicyEvent → EventKind
  | revision _ => .revision
  | review _ => .review
  | publication _ => .publication

def sequence : PolicyEvent → Nat
  | revision item => item.sequence
  | review item => item.sequence
  | publication item => item.sequence

def at_ : PolicyEvent → String
  | revision item => item.at_
  | review item => item.at_
  | publication item => item.at_

@[simp] theorem kind_revision (item : PolicyRevision) : (revision item).kind = .revision := rfl

@[simp] theorem kind_review (item : PolicyReview) : (review item).kind = .review := rfl

@[simp] theorem kind_publication (item : PolicyPublication) : (publication item).kind = .publication := rfl

end PolicyEvent

def EventKind.all : List EventKind := [.revision, .review, .publication]

/-- The record's list of one kind. -/
def PolicyStoredRecord.events (record : PolicyStoredRecord) : EventKind → List PolicyEvent
  | .revision => record.revisions.map .revision
  | .review => record.reviews.map .review
  | .publication => record.publications.map .publication

/-- The replay's two variables. -/
structure Replay where
  currentRevision : String
  currentReview : String
deriving DecidableEq

def replayEvent (s : Replay) : PolicyEvent → Option Replay
  | .revision item => some ⟨item.id, ""⟩
  | .review item => if item.candidateRevisionID != s.currentRevision then none else some { s with currentReview := item.id }
  | .publication item =>
    if item.candidateRevisionID != s.currentRevision || item.reviewID != s.currentReview then none else some s

/-- An empty slot is a missing sequence number. -/
def replay : List (Option PolicyEvent) → Replay → Option Replay
  | [], s => some s
  | none :: _, _ => none
  | some e :: rest, s => (replayEvent s e).bind (replay rest)

def validatePolicyEventOrder (record : PolicyStoredRecord) : Bool :=
  let total := policyEventCount record
  decide (1 ≤ total ∧ total ≤ policyEventLimit) &&
    match Slots.fill PolicyEvent.sequence (EventKind.all.map record.events) (List.replicate (total + 1) none) with
    | none => false
    | some events =>
      match replay (events.drop 1) ⟨"", ""⟩ with
      | none => false
      | some s =>
        record.headRevisionID == s.currentRevision && record.currentReviewID == s.currentReview &&
          some record.updatedAt == (events[total]?.join).map PolicyEvent.at_

end Desk
