import Desk.Lib.Json
import Desk.Lib.Utc
import Mathlib.Data.Finmap

/-!
# Evaluations

A reviewed batch or subscription as its journal keeps it. A nil slice and an
empty one are one list, and the recipe is the text it is written as.
-/

namespace Desk

namespace Evaluation

/-! ## Raw messages -/

/-- `json.RawMessage`: none is nil, and a text has no layout between its tokens. -/
abbrev RawMessage : Type := Option String

namespace RawMessage

/-- `len(r) != 0` -/
def present (r : RawMessage) : Bool := r.getD "" != ""

/-- `json.Marshal`; none is an error. -/
def marshal : RawMessage → Option String
  | none => some "null"
  | some text => if (Json.parseChars text.toList).isSome then some text else none

/-- A member with `omitempty`, as it is read back; none is an error. -/
def written (r : RawMessage) : Option RawMessage := if r.present then r.marshal.map some else some none

end RawMessage

/-- `bytes.Equal` of what `json.Marshal` writes of two values. -/
def sameEvaluationValue {α : Type} [DecidableEq α] (a b : Option α) : Bool :=
  match a, b with
  | some x, some y => decide (x = y)
  | _, _ => false

/-! ## Documents -/

/-- `map[string]string` -/
abbrev Digests : Type := Finmap fun _ : String => String

structure InputEvaluationRow where
  recordDigest : String := ""
  eventID : String := ""
  eventAt : String := ""
  occurrenceID : String := ""
  recordID : String
  input : RawMessage := none
  runID : String := ""
  state : String
  result : RawMessage := none
  signing : RawMessage := none
  problem : String := ""
  deriving DecidableEq

structure InputUpgradeReview where
  retryAt : List String := []
  phase : String := ""
  problem : String := ""
  jobID : String
  baseReleaseID : String
  baseRevision : Int
  result : RawMessage := none
  deriving DecidableEq

structure SubscriptionUpgradeReview where
  sourceID : String
  sourceDigest : String
  sourceReleaseID : String
  jobID : String
  baseReleaseID : String
  baseRevision : Int
  triggerID : String
  mode : String
  sourceClass : String
  /-- None is a nil map. -/
  baseline : Option Digests
  policyDigest : String
  reviewedAt : String
  deriving DecidableEq

structure SubscriptionSuccessor where
  candidateID : String
  state : String
  deriving DecidableEq

structure InputSubscription where
  policyDigest : String := ""
  retryAt : String := ""
  failures : Int := 0
  capacityBackoff : Int := 0
  capacityRetryAt : String := ""
  mode : String
  includeExisting : Bool := false
  enabled : Bool := false
  statePending : Bool := false
  /-- None is a nil map. -/
  baseline : Option Digests := none
  initialized : Bool := false
  triggerID : String := ""
  sourceClass : String
  deriving DecidableEq

structure InputEvaluation where
  subscriptionUpgrade : Option SubscriptionUpgradeReview := none
  successors : List SubscriptionSuccessor := []
  upgrade : Option InputUpgradeReview := none
  subscription : Option InputSubscription := none
  version : Int := 1
  id : String
  preparationID : String
  revision : String
  recipeVersion : Int
  recipe : String
  name : String
  fingerprint : String
  release : RawMessage
  releaseID : String
  jobID : String := ""
  createdAt : String
  confirmedAt : String := ""
  state : String
  problem : String := ""
  rows : List InputEvaluationRow
  requireTested : Bool
  projectReviewed : Bool
  deriving DecidableEq

/-! ## Writing -/

/-- A row as it is read back; none cannot be written. -/
def InputEvaluationRow.written (row : InputEvaluationRow) : Option InputEvaluationRow := do
  let input ← row.input.written
  let result ← row.result.written
  let signing ← row.signing.written
  return { row with input, result, signing }

def InputUpgradeReview.written (u : InputUpgradeReview) : Option InputUpgradeReview := do
  let result ← u.result.written
  return { u with result }

/-- A subscription's empty baseline is left out, and read back as nil. -/
def InputSubscription.written (a : InputSubscription) : InputSubscription :=
  { a with baseline := a.baseline.filter (· ≠ ∅) }

/-- A document as it is read back; none cannot be written. -/
def InputEvaluation.written (b : InputEvaluation) : Option InputEvaluation := do
  let upgrade ← b.upgrade.mapM InputUpgradeReview.written
  let release ← b.release.written
  let rows ← b.rows.mapM InputEvaluationRow.written
  return { b with upgrade, subscription := b.subscription.map InputSubscription.written, release, rows }

/-! ## Forms -/

def inputEvaluationID (s : String) : Bool := hexForm "eval_" 32 s

def inputPreparationID (s : String) : Bool := hexForm "prep_" 32 s

def evaluationJobID (s : String) : Bool := hexForm "job_" 32 s

def referenceReleaseID (s : String) : Bool := hexForm "release_" 32 s

def inputRecordLimit : Nat := 1000

def inputEvaluationLimit : Nat := 32 * 2 ^ 20

def evaluationRowTerminal (state : String) : Bool :=
  ["completed", "failed", "interrupted", "expired", "skipped", "cancelled", "superseded"].contains state

end Evaluation

end Desk
