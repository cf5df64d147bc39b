import Desk.Execution.Validate
import Desk.Policy.HistorySound

/-!
# Valid ledgers

The checks of `validatePolicyLedger` by name, and what they say of the policies
of a committed ledger.
-/

namespace Desk

structure LedgerValid (ledger : PolicyLedger) : Prop where
  schema : ledger.schemaVersion = policyStorageSchemaVersion ∨ ledger.schemaVersion = policyExecutionLedgerSchemaVersion
  policyLimit : ledger.policies.size ≤ policyCountLimit
  operationLimit : ledger.operations.size ≤ policyOperationLimit
  execution : validatePolicyExecution ledger = true
  policies : ∀ id record, ledger.policies.get? id = some record → RecordValid id record
  operations : ∀ key operation, ledger.operations.get? key = some operation →
    validPolicyOperation ledger key operation = true
  lifecycles : validatePolicyLifecycles ledger = true
  sources : validatePolicySources ledger = true
  sourceAuthorities : validatePolicySourceAuthorities ledger = true
  coverages : validatePolicyCoverages ledger = true
  adoptions : validatePolicyAdoptions ledger = true
  recovery : validatePolicyRecovery ledger = true

theorem ledgerValid_iff {ledger : PolicyLedger} : validatePolicyLedger ledger = true ↔ LedgerValid ledger := by
  unfold validatePolicyLedger
  simp only [Bool.and_eq_true, Bool.or_eq_true, beq_iff_eq, decide_eq_true_eq, Table.all_iff, recordValid_iff]
  constructor
  · rintro ⟨⟨⟨⟨⟨⟨⟨⟨⟨⟨⟨h₁, h₂⟩, h₃⟩, h₄⟩, h₅⟩, h₆⟩, h₇⟩, h₈⟩, h₉⟩, h₁₀⟩, h₁₁⟩, h₁₂⟩
    exact ⟨h₁, h₂, h₃, h₄, h₅, h₆, h₇, h₈, h₉, h₁₀, h₁₁, h₁₂⟩
  · rintro ⟨h₁, h₂, h₃, h₄, h₅, h₆, h₇, h₈, h₉, h₁₀, h₁₁, h₁₂⟩
    exact ⟨⟨⟨⟨⟨⟨⟨⟨⟨⟨⟨h₁, h₂⟩, h₃⟩, h₄⟩, h₅⟩, h₆⟩, h₇⟩, h₈⟩, h₉⟩, h₁₀⟩, h₁₁⟩, h₁₂⟩

/-- Only reviewed content is published, in every policy of an accepted ledger. -/
theorem only_reviewed_content_is_published {ledger : PolicyLedger} (h : validatePolicyLedger ledger = true)
    {id : String} {record : PolicyStoredRecord} (hr : ledger.policies.get? id = some record) :
    ∃ history, ReviewedHistory record history :=
  ((ledgerValid_iff.mp h).policies id record hr).reviewedHistory

/-! ## A published policy -/

namespace Sample

def token (c : Char) : String := String.ofList (List.replicate 48 c)

def digest (c : Char) : String := String.ofList (List.replicate 64 c)

theorem hexForm_token : hexForm "" 48 (token 'e') = true := by decide

def clock : Utc := ⟨2026, 2, 1, 0, 0, 0, by decide, by decide, by decide⟩

def actor : PolicyActor := { kind := .local, subject := "admin", issuer := "" }

def content : RetainedArtifactRef := { sha256 := digest 'a', bytes := 64 }

def workflow : PolicyWorkflow := { independentReviewRequired := false }

def revision : PolicyRevision where
  source := none
  id := "revision_" ++ token 'a'
  sequence := 1
  digest := digest 'a'
  title := "Refunds"
  artifactVersion := "1.0.0"
  content := content
  workflow := workflow
  workflowDigest := policyWorkflowDigest workflow
  at_ := "2026-01-01T00:00:00Z"
  actor := actor

def review : PolicyReview where
  id := "review_" ++ token 'b'
  sequence := 2
  candidateRevisionID := revision.id
  candidateDigest := revision.digest
  workflowDigest := revision.workflowDigest
  decision := .approve
  comment := ""
  at_ := "2026-01-01T00:01:00Z"
  actor := actor

def publication : PolicyPublication where
  id := "publication_" ++ token 'c'
  sequence := 3
  candidateRevisionID := revision.id
  candidateDigest := revision.digest
  workflowDigest := revision.workflowDigest
  content := content
  artifactVersion := "1.0.0"
  reviewID := review.id
  at_ := "2026-01-01T00:02:00Z"
  actor := actor

def policyID : String := "policy_" ++ token 'd'

def record : PolicyStoredRecord where
  recovery := none
  schemaVersion := 2
  id := policyID
  createdAt := "2026-01-01T00:00:00Z"
  updatedAt := "2026-01-01T00:02:00Z"
  headRevisionID := revision.id
  currentReviewID := review.id
  revisions := [revision]
  reviews := [review]
  publications := [publication]

def ledger : PolicyLedger :=
  { emptyPolicyLedger with policies := Table.empty.set policyID record }

theorem ledger_valid : validatePolicyLedger ledger = true := by decide +kernel

end Sample

theorem only_reviewed_content_is_published_sample :
    validatePolicyLedger Sample.ledger = true ∧ ∃ history, ReviewedHistory Sample.record history :=
  ⟨Sample.ledger_valid, only_reviewed_content_is_published Sample.ledger_valid (Table.get?_set_self _ _ _)⟩

end Desk
