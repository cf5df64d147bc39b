import Desk.Evaluation.Types
import Desk.Signing.Keys

/-!
# The evaluation journal

What a journal accepts in place of what it holds: a document that is valid alone
and keeps what the one before it retained.
-/

namespace Desk

namespace Evaluation

/-! ## A document alone -/

/-- What Runner's receipt of a job upgrade says. -/
structure UpgradeReceipt where
  id : String := ""
  releaseID : String := ""
  revision : Int := 0

/-- One member of the object; a name no field has is passed over. -/
def UpgradeReceipt.setMember (j : UpgradeReceipt) (m : String × Json) : Option UpgradeReceipt :=
  if Signing.foldName m.1 = Signing.foldName "id" then (Signing.setText m.2 j.id).map fun v => { j with id := v }
  else if Signing.foldName m.1 = Signing.foldName "releaseId" then
    (Signing.setText m.2 j.releaseID).map fun v => { j with releaseID := v }
  else if Signing.foldName m.1 = Signing.foldName "revision" then
    (Signing.setInt m.2 j.revision).map fun v => { j with revision := v }
  else some j

/-- `json.Unmarshal` into a receipt. -/
def unmarshalReceipt (raw : RawMessage) : Option UpgradeReceipt :=
  match Json.parseChars (raw.getD "").toList with
  | some (.obj members) => members.foldlM UpgradeReceipt.setMember {}
  | some .null => some {}
  | _ => none

/-- The receipt is of this upgrade to the release. -/
def InputUpgradeReview.receipted (u : InputUpgradeReview) (releaseID : String) (raw : RawMessage) : Bool :=
  match unmarshalReceipt raw with
  | some j => j.id == u.jobID && j.releaseID == releaseID && decide (j.revision = u.baseRevision + 1)
  | none => false

def SubscriptionUpgradeReview.valid (r : SubscriptionUpgradeReview) (id : String) : Bool :=
  inputEvaluationID r.sourceID && r.sourceID != id && r.sourceDigest != "" && referenceReleaseID r.sourceReleaseID &&
    evaluationJobID r.jobID && referenceReleaseID r.baseReleaseID && decide (1 ≤ r.baseRevision) && r.triggerID != "" &&
    ["new", "changed"].contains r.mode && ["asserted", "generated"].contains r.sourceClass && r.policyDigest != "" &&
    decide ((r.baseline.getD ∅).keys.card ≤ inputRecordLimit) && rfc3339Nano r.reviewedAt &&
    (r.baseline.getD ∅).all fun id digest => id != "" && digest != ""

/-- The upgrade of a reviewed subscription. -/
def InputUpgradeReview.follows (u : InputUpgradeReview) (r : SubscriptionUpgradeReview) : Bool :=
  decide (u.retryAt.length ≤ 128) && u.retryAt.all rfc3339Nano && u.jobID == r.jobID &&
    decide (u.baseRevision = r.baseRevision) && u.baseReleaseID == r.baseReleaseID &&
    ["prepared", "submitted", "refused"].contains u.phase && ((u.phase == "refused") == (u.problem != "")) &&
    (!u.result.present || u.phase == "submitted")

/-- A reviewed subscription that is confirmed is the one its upgrade was accepted for. -/
def SubscriptionUpgradeReview.confirmedAs (r : SubscriptionUpgradeReview) (b : InputEvaluation) : Bool :=
  match b.subscription, b.upgrade with
  | some sub, some u =>
    b.confirmedAt != "" && b.jobID == r.jobID && u.result.present && sub.initialized && !sub.includeExisting &&
      sub.triggerID == r.triggerID && sub.mode == r.mode && sub.sourceClass == r.sourceClass &&
      sub.policyDigest == r.policyDigest && decide (sub.baseline = r.baseline)
  | _, _ => false

def SubscriptionSuccessor.valid (next : SubscriptionSuccessor) (id : String) : Bool :=
  inputEvaluationID next.candidateID && next.candidateID != id && ["pending", "complete", "refused"].contains next.state

def subscriptionReserved (b : InputEvaluation) : Bool :=
  match b.successors.getLast? with
  | some next => next.state != "refused"
  | none => false

/-- Only the last attempt may hold the source, and then nothing is delivered. -/
def successorsValid (b : InputEvaluation) : Bool :=
  decide (b.successors.length ≤ 128) && (b.successors.all fun next => next.valid b.id) &&
    decide (b.successors.map (·.candidateID)).Nodup && (b.successors.dropLast.all fun next => next.state == "refused") &&
    match b.subscription with
    | some a => !subscriptionReserved b || (!a.enabled && !a.statePending)
    | none => b.successors.isEmpty

def validateSubscriptionUpgradeJournal (b : InputEvaluation) : Option String :=
  let reviewed := match b.subscriptionUpgrade with
    | none => match b.upgrade with
      | some u => u.phase == "" && u.problem == "" && u.retryAt.isEmpty
      | none => true
    | some r =>
      r.valid b.id && (b.upgrade.all fun u => u.follows r) &&
        (b.subscription.isNone && b.confirmedAt == "" && b.jobID == "" || r.confirmedAs b)
  if reviewed && successorsValid b then none else some "Invalid retained subscription upgrade."

def upgradeProblem (b : InputEvaluation) : Option String :=
  match b.upgrade with
  | none => none
  | some u =>
    if b.subscriptionUpgrade.isNone && (b.confirmedAt != "" || b.subscription.isSome) || !evaluationJobID u.jobID ||
      !referenceReleaseID u.baseReleaseID || decide (u.baseRevision < 1) then some "Invalid upgrade review."
    else if u.result.present && !u.receipted b.releaseID u.result then some "Invalid upgrade receipt."
    else none

/-- A row's key: its event's in a subscription, its record's elsewhere. -/
def InputEvaluation.keyOf (b : InputEvaluation) (row : InputEvaluationRow) : String :=
  if b.subscription.isSome then row.eventID else row.recordID

def rowsProblem (b : InputEvaluation) : Option String :=
  if (b.rows.map b.keyOf).all (· != "") && decide (b.rows.map b.keyOf).Nodup then none
  else some "Invalid or duplicate evaluation row."

def subscriptionCapacityBackoffMax : Int := 256

/-- A row whose delivery waits for the queue. -/
def InputEvaluationRow.waits (row : InputEvaluationRow) : Bool :=
  row.state == "pending" && row.occurrenceID == "" && row.eventID != "" && row.eventAt != "" && row.input.present

def subscriptionProblem (b : InputEvaluation) : Option String :=
  match b.subscription with
  | none => none
  | some a =>
    let backoff := a.capacityBackoff
    if a.mode ≠ "new" ∧ a.mode ≠ "changed" then some "Invalid subscription mode."
    else if backoff ≠ 0 ∧ (backoff < 2 ∨ subscriptionCapacityBackoffMax < backoff ∨
        backoff.toNat &&& (backoff.toNat - 1) ≠ 0) ∨ ¬(backoff = 0 ↔ a.capacityRetryAt = "") then
      some "Invalid subscription capacity wait."
    else if backoff ≠ 0 ∧ (¬rfc3339Nano a.capacityRetryAt ∨ 64 < len a.capacityRetryAt ∨ a.retryAt ≠ "" ∨ ¬a.enabled ∨
        a.statePending ∨ b.state ≠ "queued" ∨ b.problem ≠ "" ∨ ¬b.rows.any InputEvaluationRow.waits) then
      some "Invalid subscription capacity wait."
    else none

def validateEvaluationJournal (b : InputEvaluation) (id : String) : Option String :=
  if b.version ≠ 1 ∨ ¬inputEvaluationID id ∨ b.id ≠ id ∨ ¬inputPreparationID b.preparationID ∨
      inputRecordLimit < b.rows.length then
    some "Invalid evaluation record."
  else
    validateSubscriptionUpgradeJournal b <|> upgradeProblem b <|> rowsProblem b <|> subscriptionProblem b

/-! ## A document after another -/

def frozenEvaluation (b : InputEvaluation) : InputEvaluation :=
  { b with
    jobID := "", confirmedAt := "", state := "", problem := "", rows := [], subscription := none, upgrade := none,
    successors := [] }

def validSubscriptionUpgradePhase (a b : InputUpgradeReview) : Bool :=
  a.retryAt.isPrefixOf b.retryAt && decide (b.retryAt.length ≤ a.retryAt.length + 1) &&
    !(decide (a.retryAt.length < b.retryAt.length) && (a.phase != "submitted" || b.phase != "submitted" || a.result.present)) &&
    if a.phase = b.phase then a.problem == b.problem
    else !a.result.present && (a.phase == "prepared" && (b.phase == "submitted" || b.phase == "refused") ||
      a.phase == "submitted" && b.phase == "refused")

def subscriptionSettled (b : InputEvaluation) : Option String :=
  match b.subscription with
  | none => some "Pause this subscription and wait for its trigger before reviewing an upgrade."
  | some a =>
    if b.confirmedAt = "" ∨ b.jobID = "" ∨ a.enabled ∨ a.statePending then
      some "Pause this subscription and wait for its trigger before reviewing an upgrade."
    else if b.rows.any fun row => !evaluationRowTerminal row.state then
      some "Wait for every retained delivery to settle before upgrading this subscription."
    else none

/-- The same candidate; only the last attempt's state may settle. -/
def successorKept (last : Bool) (old next : SubscriptionSuccessor) : Bool :=
  next.candidateID == old.candidateID &&
    (old.state == next.state || last && old.state == "pending" && ["complete", "refused"].contains next.state)

/-- The attempts kept, from the first on. -/
def successorsKept : List SubscriptionSuccessor → List SubscriptionSuccessor → Bool
  | [], _ => true
  | _ :: _, [] => false
  | old :: rest, next :: rest' => successorKept rest.isEmpty old next && successorsKept rest rest'

def validateSubscriptionSuccessors (before next : InputEvaluation) : Option String :=
  let added := decide (before.successors.length < next.successors.length)
  let reserves := !subscriptionReserved before && (subscriptionSettled before).isNone &&
    ((next.successors.getLast?.map (·.state)) == some "pending")
  let held := match next.subscription with
    | some a => !a.enabled && !a.statePending &&
      sameEvaluationValue (before.rows.mapM InputEvaluationRow.written) (next.rows.mapM InputEvaluationRow.written)
    | none => false
  if decide (next.successors.length ≤ before.successors.length + 1) && successorsKept before.successors next.successors &&
      (!added || reserves) && (!subscriptionReserved next || held) then none
  else some "Retained subscription handoffs cannot be replaced."

/-- What an upgrade keeps: all but its receipt, and a reviewed subscription's its phase and attempts. -/
def InputUpgradeReview.fixed (u : InputUpgradeReview) (reviewed : Bool) : InputUpgradeReview :=
  if reviewed then { u with result := none, phase := "", problem := "", retryAt := [] } else { u with result := none }

def upgradeKept (before next : InputEvaluation) : Bool :=
  let reviewed := before.subscriptionUpgrade.isSome
  match before.upgrade, next.upgrade with
  | some a, some b =>
    (!reviewed || validSubscriptionUpgradePhase a b) && decide (a.fixed reviewed = b.fixed reviewed) &&
      (!a.result.present || sameEvaluationValue a.result.marshal b.result.marshal)
  | some _, none => false
  | none, some _ => before.confirmedAt == "" && next.confirmedAt == "" && next.subscription.isNone
  | none, none => true

/-- Only control and scheduling metadata is mutable after initialization. -/
def InputSubscription.fixed (a : InputSubscription) (triggered initialized : Bool) : InputSubscription :=
  { a with
    enabled := false, statePending := false, failures := 0, retryAt := "", capacityBackoff := 0, capacityRetryAt := ""
    triggerID := if triggered then a.triggerID else ""
    initialized := initialized && a.initialized
    baseline := if initialized then a.baseline else none
    policyDigest := if initialized then a.policyDigest else "" }

def subscriptionKept (a b : InputSubscription) : Bool :=
  let triggered := a.triggerID != ""
  decide ((a.fixed triggered a.initialized).written = (b.fixed triggered a.initialized).written)

def inputKept (subscribed : Bool) (old row : InputEvaluationRow) : Bool :=
  sameEvaluationValue old.input.marshal row.input.marshal ||
    subscribed && !row.input.present && old.input.present && (row.occurrenceID != "" || row.state == "superseded")

def rowKept (subscribed : Bool) (old row : InputEvaluationRow) : Bool :=
  row.recordID == old.recordID && row.recordDigest == old.recordDigest && row.eventID == old.eventID &&
    row.eventAt == old.eventAt && (old.runID == "" || row.runID == old.runID) &&
    (old.occurrenceID == "" || row.occurrenceID == old.occurrenceID) && inputKept subscribed old row &&
    (!evaluationRowTerminal old.state || row.state == old.state &&
      sameEvaluationValue row.result.marshal old.result.marshal &&
      sameEvaluationValue row.signing.marshal old.signing.marshal)

/-- The rows kept, from the first on; a subscription's may be followed by others. -/
def rowsKept (subscribed : Bool) : List InputEvaluationRow → List InputEvaluationRow → Bool
  | [], rest => subscribed || rest.isEmpty
  | _ :: _, [] => false
  | old :: rest, row :: rest' => rowKept subscribed old row && rowsKept subscribed rest rest'

def validateEvaluationTransition (before next : InputEvaluation) : Option String :=
  let bad := some "Retained evaluation intent and results cannot be replaced."
  if !sameEvaluationValue (frozenEvaluation before).written (frozenEvaluation next).written ||
      before.confirmedAt != "" && before.confirmedAt != next.confirmedAt ||
      before.jobID != "" && before.jobID != next.jobID then bad
  else
    validateSubscriptionSuccessors before next <|>
      if !upgradeKept before next then bad
      else
        match before.subscription, next.subscription with
        | some a, some b => if subscriptionKept a b && rowsKept true before.rows next.rows then none else bad
        | some _, none => bad
        -- explicit subscription confirmation replaces the preview selection
        | none, some _ =>
          if before.confirmedAt == "" && next.confirmedAt != "" && next.rows.isEmpty then none else bad
        | none, none => if rowsKept false before.rows next.rows then none else bad

/-! ## The journal's file -/

/-- The JSON text of a document: its length and its digest. -/
structure Encoding where
  size : InputEvaluation → Nat
  digestOf : InputEvaluation → String

structure EvaluationSnapshot where
  document : InputEvaluation
  sha256 : String

/-- A file's document, where it is valid. -/
def decodeEvaluationSnapshot (e : Encoding) (saved : InputEvaluation) (id : String) : Except String EvaluationSnapshot :=
  if inputEvaluationLimit < e.size saved then .error "This evaluation exceeds its storage limit."
  else
    match validateEvaluationJournal saved id with
    | some problem => .error problem
    | none => .ok { document := saved, sha256 := e.digestOf saved }

/-- The document as the file will hold it. -/
def encodeEvaluationJournal (e : Encoding) (b : InputEvaluation) (id : String) : Except String InputEvaluation :=
  match validateEvaluationJournal b id with
  | some problem => .error problem
  | none =>
    match b.written with
    | none => .error "json: error calling MarshalJSON for type json.RawMessage"
    | some raw =>
      if inputEvaluationLimit < e.size raw then .error "This evaluation exceeds its storage limit." else .ok raw

def errEvaluationConflict : String := "Evaluation history changed. Reload before continuing."

/-- How the write of the file ended. -/
inductive Write where
  | done
  /-- The file may hold the new document, and an error was returned. -/
  | uncertain
  | failed
  deriving DecidableEq

/-- The file's write and the reading of it. -/
def writeEvaluationJournal (e : Encoding) (id : String) (file : Option InputEvaluation) (raw : InputEvaluation) :
    Write → Except String EvaluationSnapshot × Option InputEvaluation
  | .done => (decodeEvaluationSnapshot e raw id, some raw)
  | .uncertain => (.error "write", some raw)
  | .failed => (.error "write", file)

/-- The answer, and the file after it. -/
def compareAndSwap (e : Encoding) (id : String) (file : Option InputEvaluation) (b : InputEvaluation) (revision : String)
    (w : Write) : Except String EvaluationSnapshot × Option InputEvaluation :=
  match encodeEvaluationJournal e b id with
  | .error problem => (.error problem, file)
  | .ok raw =>
    match file with
    | none => if revision ≠ "" then (.error errEvaluationConflict, none) else writeEvaluationJournal e id none raw w
    | some saved =>
      match decodeEvaluationSnapshot e saved id with
      | .error problem => (.error problem, file)
      | .ok before =>
        if revision = "" ∨ before.sha256 ≠ revision then (.error errEvaluationConflict, file)
        else
          match validateEvaluationTransition before.document b with
          | some problem => (.error problem, file)
          | none => writeEvaluationJournal e id file raw w

/-- One call: what is proposed, over which revision, and how its write ended. -/
structure Call where
  document : InputEvaluation
  revision : String
  write : Write

/-- The file after a call. -/
def swap (e : Encoding) (id : String) (file : Option InputEvaluation) (c : Call) : Option InputEvaluation :=
  (compareAndSwap e id file c.document c.revision c.write).2

end Evaluation

end Desk
