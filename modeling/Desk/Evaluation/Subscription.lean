import Desk.Evaluation.Journal
import Desk.Lib.Fold
import Desk.Lib.Run

/-!
# Input subscriptions

The worker's pass over a reviewed subscription, and the requests that enable, pause
and resume it. What Runner, the project and the journal answer is given, an answer as
it is decoded; what a pass saves is read back as it was. Where a pass ends is told
for the proofs.
-/

namespace Desk.Evaluation

/-! ## Collections -/

structure InputReviewActor where
  kind : String
  subject : String
  issuer : Option String
  name : String
  deriving DecidableEq

structure InputRecordReview where
  recordID : String
  recordDigest : String
  recipeVersion : Int
  decision : String
  note : String
  reviewedAt : String
  reviewer : InputReviewActor
  deriving DecidableEq

/-- A record, with what its research retained. -/
structure PreparedInputRecord (R : Type) where
  review : Option InputRecordReview
  id : String
  research : Option R
  name : String
  values : Digests
  sourceID : String
  row : Int
  class_ : String
  status : String

structure InputRecordReviewEvent (R : Type) where
  review : InputRecordReview
  record : PreparedInputRecord R

structure InputQualification where
  key : String
  pack : String

structure InputPreparation (R : Type) where
  reviews : List (InputRecordReviewEvent R)
  recipeVersion : Int
  qualification : Option InputQualification
  records : List (PreparedInputRecord R)

/-- `digestOf` of the JSON of a record, and of the five values of an identity. -/
structure DigestOf (R : Type) where
  record : PreparedInputRecord R → String
  identity : String → String → String → Int → String → String

section
variable {R : Type} (d : DigestOf R)

def inputRecordDigest (record : PreparedInputRecord R) : String := d.record { record with review := none }

/-- None is no error. -/
def readyInputReview (doc : InputPreparation R) (record : PreparedInputRecord R) : Option String :=
  let unready := some "Mark every selected AI record Ready for evaluation for the current recipe. No records were skipped."
  match record.review with
  | none => unready
  | some r =>
    if record.research.isNone || r.decision != "accepted" || r.recipeVersion != doc.recipeVersion || r.recordID != record.id ||
        r.recordDigest != inputRecordDigest d record then unready
    -- a current pointer alone is insufficient: its retained human event is required
    else if doc.reviews.any fun event => event.review == r && inputRecordDigest d event.record == r.recordDigest then none
    else some "The saved input review is unavailable. Review the record again."

/-! ## Eligibility -/

def subscriptionIdentity (b : InputEvaluation) (r : PreparedInputRecord R) : String :=
  "input-" ++ d.identity b.preparationID r.id (inputRecordDigest d r) b.recipeVersion b.releaseID

def InputSubscription.baselineOf (a : InputSubscription) (id : String) : Option String := (a.baseline.getD ∅).lookup id

/-- Whether the baseline is what a record has to differ from: by its id where only new ones are taken. -/
def covered (a : InputSubscription) (r : PreparedInputRecord R) : Bool :=
  if a.mode = "new" then (a.baselineOf r.id).isSome else (a.baselineOf r.id).getD "" == inputRecordDigest d r

def ready (doc : InputPreparation R) (r : PreparedInputRecord R) : Bool :=
  r.class_ != "generated" || (readyInputReview d doc r).isNone

def subscriptionEligible (b : InputEvaluation) (a : InputSubscription) (doc : InputPreparation R)
    (r : PreparedInputRecord R) : Bool :=
  r.class_ == a.sourceClass && ready d doc r && !covered d a r &&
    !(a.mode == "new" && b.rows.any fun row => row.recordID == r.id) &&
    !(b.rows.any fun row => row.eventID == subscriptionIdentity d b r)

def initializeSubscription (a : InputSubscription) (doc : InputPreparation R) : InputSubscription :=
  if a.initialized then a
  else
    { a with
      initialized := true
      baseline := some (if a.includeExisting then ∅
        else doc.records.foldl (fun baseline r => baseline.insert r.id (inputRecordDigest d r)) ∅) }

def InputSubscription.clearCapacityWait (a : InputSubscription) : InputSubscription :=
  { a with capacityBackoff := 0, capacityRetryAt := "" }

/-! ## Answers -/

/-- An error; Runner's refusal has a status and a code. -/
structure Failure where
  message : String
  refusal : Option (Int × String) := none

/-- None is an answer that is not of the form. -/
abbrev Reply (α : Type) := Except Failure (Option α)

structure JobReply where
  id : String
  name : String
  releaseID : String
  initialTriggerID : String

structure Trigger where
  id : String
  revision : Int
  paused : Bool
  /-- Three members of its configuration, where the first two are strings and the last is a number. -/
  kind : Option String
  overlap : Option String
  queueSeconds : Option Rat

structure Occurrence where
  id : String
  jobID : String
  releaseID : String
  triggerID : String
  eventID : String
  state : String
  runID : String
  reason : String

structure RunReply where
  id : String
  state : String
  /-- The disposition and the handoff target, where the result has the form. -/
  result : Option RawMessage
  problem : String
  signing : RawMessage

/-- The project as a snapshot gives it: its packs, its policy and its release under test. -/
structure ProjectSnapshot where
  packs : List (String × String)
  policy : String
  fingerprint : Except Failure String

/-- What is read of the project and of the collection's file. -/
structure Project where
  get : Option Failure
  snapshot : Except Failure ProjectSnapshot

/-- Everything a pass is answered. What concerns a row is told by the row's place. -/
structure World (R : Type) where
  retains : Nat → Bool
  waits : String → Bool
  capacityWaits : Nat → String → Bool
  after : Int → String
  now : String
  job : Reply JobReply
  triggers : Reply (List Trigger)
  currentJob : Trigger → Reply (String × String)
  setState : Trigger → Option Failure
  recovered : Nat → Reply Occurrence
  delivery : Nat → Reply Occurrence
  runOf : Nat → Reply RunReply
  /-- `TryRead` -/
  busy : Bool
  project : Project
  receipt : Nat → Reply Occurrence
  delivered : Nat → Reply Occurrence
  /-- The conversion of a record, its review and Runner's preview. -/
  prepared : PreparedInputRecord R → Except Failure RawMessage

/-- The checks of the collection and the project before anything is delivered. -/
def subscriptionDocument (p : Project) (doc : InputPreparation R) (b : InputEvaluation) (a : InputSubscription) :
    Except Failure InputSubscription :=
  match p.get with
  | some f => .error f
  | none =>
    if doc.recipeVersion ≠ b.recipeVersion then
      .error { message := "The recipe changed. Review a new Dialects subscription before continuing." }
    else match doc.qualification with
      | none => .error { message := "The pack dialect was removed. Review a new subscription." }
      | some q => match p.snapshot with
        | .error f => .error f
        | .ok snap =>
          if ¬snap.packs.contains (q.key, q.pack) then
            .error { message := "The pack changed. Review a new subscription before continuing." }
          else if a.policyDigest ≠ "" ∧ snap.policy ≠ a.policyDigest then
            .error { message := "Project policy changed. Review a new Dialects subscription." }
          else if a.initialized then .ok a
          else match snap.fingerprint with
            | .error f => .error f
            | .ok fingerprint =>
              if fingerprint ≠ b.fingerprint then
                .error { message := "The reviewed release changed. Review a new Dialects subscription." }
              else .ok { a with policyDigest := snap.policy }

/-! ## A pass -/

/-- The document and its subscription in memory, what the journal retained, how often, and what is left to reconcile. -/
structure Held where
  b : InputEvaluation
  a : InputSubscription
  retained : InputEvaluation
  saves : Nat
  budget : Nat

def Held.document (h : Held) : InputEvaluation := { h.b with subscription := some h.a }

def Held.row (h : Held) (i : Nat) (row : InputEvaluationRow) : Held := { h with b := { h.b with rows := h.b.rows.set i row } }

inductive Ending where
  /-- It returned before its end. -/
  | early
  /-- It ended with a record's row. -/
  | appended
  /-- It went through everything and found nothing to append. -/
  | through
  deriving DecidableEq

/-- A pass that goes on, or what it retained and where it ended. -/
abbrev Pass := Except (InputEvaluation × Ending) Held

def stop (h : Held) : Pass := .error (h.retained, .early)

variable (w : World R)

def save (h : Held) : Pass :=
  if w.retains h.saves then .ok { h with retained := h.document, saves := h.saves + 1 } else stop h

/-- Runner may answer another time. -/
def Failure.retryable (f : Failure) : Bool :=
  match f.refusal with
  | some (status, _) => decide (status = 0 ∨ 500 ≤ status ∨ status = 429)
  | none => false

def problem (f : Failure) (h : Held) : Pass := do
  let failures := h.a.failures + 1
  let again := f.retryable && decide (failures < 5)
  let h ← save w { h with
    b := { h.b with problem := f.message, state := if again then "queued" else "blocked" }
    a := { h.a.clearCapacityWait with failures, retryAt := if again then w.after (2 ^ failures.toNat) else "" } }
  stop h

def triggerID (s : String) : Bool := hexForm "trg_" 32 s

def ensureEvaluationJob (h : Held) : Pass :=
  if h.b.jobID ≠ "" then .ok h
  else match w.job with
    | .error f => problem w f h
    | .ok none => problem w { message := "The job response does not match the reviewed evaluation." } h
    | .ok (some job) =>
      if ¬evaluationJobID job.id ∨ job.releaseID ≠ h.b.releaseID ∨
          job.name ≠ String.ofList (trim isSpace h.b.name.toList) then
        problem w { message := "The job response does not match the reviewed evaluation." } h
      else if ¬triggerID job.initialTriggerID then
        problem w { message := "The subscription job response has no valid trigger." } h
      else save w { h with b := { h.b with jobID := job.id }, a := { h.a with triggerID := job.initialTriggerID } }

/-- The trigger is as the subscription set it up. -/
def Trigger.reviewed (tr : Trigger) : Bool :=
  tr.kind == some "event" && tr.overlap == some "queue" && tr.queueSeconds == some 3600

/-- The pending state goes to Runner, an enabled one under the release that was reviewed. -/
def sendState (tr : Trigger) (h : Held) : Pass :=
  let changed : Pass := problem w { message := "The job release changed. Review a new subscription before enabling it." } h
  let pinned : Pass :=
    if h.a.enabled then
      match w.currentJob tr with
      | .error f => problem w f h
      | .ok none => changed
      | .ok (some (id, releaseID)) => if id ≠ h.b.jobID ∨ releaseID ≠ h.b.releaseID then changed else .ok h
    else .ok h
  pinned.bind fun h =>
    match if tr.paused = h.a.enabled then w.setState tr else none with
    | some f => problem w f h
    | none => save w { h with a := { h.a with statePending := false } }

def checkTrigger (h : Held) (tr : Trigger) : Pass :=
  if tr.id ≠ h.a.triggerID then .ok h
  else if ¬tr.reviewed then problem w { message := "The subscription trigger changed. Review a new subscription." } h
  else if h.a.statePending then sendState w tr h
  else if tr.paused ∧ h.a.enabled then
    (save w { h with b := { h.b with state := "paused" }, a := { h.a.clearCapacityWait with enabled := false } }).bind stop
  else .ok h

def checkTriggers (h : Held) : Pass :=
  match w.triggers with
  | .error f => problem w f h
  | .ok none => problem w { message := "The subscription trigger could not be read." } h
  | .ok (some items) => (items.foldlM (checkTrigger w) h).bind fun h =>
    if items.any fun tr => tr.id == h.a.triggerID then .ok h
    else problem w { message := "The subscription trigger is unavailable." } h

/-- Each row in turn, as it is when its turn comes. -/
def eachRow (step : Nat → InputEvaluationRow → Held → Pass) (h : Held) : Pass :=
  (List.range h.b.rows.length).foldlM (fun h i =>
    match h.b.rows[i]? with
    | some row => step i row h
    | none => .ok h) h

def isOccurrenceID (id : String) : Bool := hasPrefix id "occ_"

def occurrenceStates : List String :=
  ["accepted", "preparing", "ready", "submitted", "skipped", "failed", "expired", "needs-attention", "cancelled"]

/-- A refusal of that status. -/
def Failure.isStatus (f : Failure) (status : Int) : Bool := f.refusal.any fun refusal => refusal.1 == status

/-- `recoverPausedSubscriptionDelivery`; a receipt that is not there keeps the intent. -/
def recoverRow (i : Nat) (row : InputEvaluationRow) (h : Held) : Pass :=
  if row.state ≠ "pending" ∨ row.occurrenceID ≠ "" ∨ row.eventID = "" ∨ h.budget = 0 then .ok h
  else
    let h := { h with budget := h.budget - 1 }
    match w.recovered i with
    | .error f => if f.isStatus 404 then .ok h else problem w f h
    | .ok none => problem w { message := "The retained delivery could not be read." } h
    | .ok (some o) =>
      if ¬isOccurrenceID o.id ∨ o.jobID ≠ h.b.jobID ∨ o.releaseID ≠ h.b.releaseID ∨ o.triggerID ≠ h.a.triggerID ∨
          o.eventID ≠ row.eventID ∨ ¬occurrenceStates.contains o.state then
        problem w { message := "The retained delivery does not match the paused subscription." } h
      else save w (h.row i
        { row with occurrenceID := o.id, runID := o.runID, state := o.state, problem := o.reason, input := none })

def reconciled (state : String) : Bool :=
  ["completed", "failed", "expired", "skipped", "cancelled", "interrupted"].contains state

/-- A row that was delivered is told what became of it. -/
def reconcileRow (i : Nat) (row : InputEvaluationRow) (h : Held) : Pass :=
  if row.occurrenceID = "" ∨ reconciled row.state ∨ h.budget = 0 then .ok h
  else
    let h := { h with budget := h.budget - 1 }
    match w.delivery i with
    | .error f => problem w f h
    | .ok none => problem w { message := "The retained occurrence changed identity." } h
    | .ok (some o) =>
      if o.id ≠ row.occurrenceID then problem w { message := "The retained occurrence changed identity." } h
      else
        let row := { row with state := o.state, runID := o.runID, problem := o.reason }
        if o.runID = "" then save w (h.row i row)
        else match w.runOf i with
          | .error f => problem w f (h.row i row)
          | .ok none => problem w { message := "The retained run changed identity." } (h.row i row)
          | .ok (some run) =>
            if run.id ≠ row.runID then problem w { message := "The retained run changed identity." } (h.row i row)
            else
              let row := { row with result := run.result.getD row.result }
              if ¬["queued", "running", "completed", "failed", "interrupted"].contains run.state then
                problem w { message := "The retained run state is invalid." } (h.row i row)
              else save w (h.row i { row with state := run.state, problem := run.problem, signing := run.signing })

/-- The record a row was written for is still there as it was, and ready. -/
def stillEligible (doc : InputPreparation R) (row : InputEvaluationRow) : Bool :=
  doc.records.any fun record =>
    record.id == row.recordID && inputRecordDigest d record == row.recordDigest && ready d doc record

/-- A row whose record is no longer eligible is superseded, unless Runner has its delivery. -/
def retireRow (i : Nat) (row : InputEvaluationRow) (h : Held) : Pass :=
  let retire (row : InputEvaluationRow) : Pass :=
    save w ({ h with a := h.a.clearCapacityWait }.row i { row with input := none })
  match w.receipt i with
  | .error f => if f.isStatus 404 then retire { row with state := "superseded" } else problem w f h
  | .ok none => problem w { message := "The retained delivery could not be read." } h
  | .ok (some o) =>
    if ¬isOccurrenceID o.id then problem w { message := "The retained delivery could not be read." } h
    else retire { row with occurrenceID := o.id, state := o.state, runID := o.runID }

/-- Runner's full queue paces the outbox; it is no failure. -/
def waitForCapacity (h : Held) : Pass :=
  let backoff := if h.a.capacityBackoff = 0 then 2
    else if h.a.capacityBackoff < subscriptionCapacityBackoffMax then h.a.capacityBackoff * 2
    else h.a.capacityBackoff
  (save w { h with
    b := { h.b with state := "queued", problem := "" }
    a := { h.a with capacityBackoff := backoff, capacityRetryAt := w.after backoff, retryAt := "" } }).bind stop

def deliverRow (doc : InputPreparation R) (i : Nat) (row : InputEvaluationRow) (h : Held) : Pass :=
  if row.eventID = "" ∨ row.occurrenceID ≠ "" ∨ row.state ≠ "pending" then .ok h
  else if ¬stillEligible d doc row then retireRow w i row h
  else if w.capacityWaits i h.a.capacityRetryAt then stop h
  else match w.delivered i with
    | .error f => if f.refusal = some (429, "queue_full") then waitForCapacity w h else problem w f h
    | .ok none =>
      problem w { message := "The delivery acknowledgement is invalid. The same delivery will be reconciled." } h
    | .ok (some o) =>
      if ¬isOccurrenceID o.id then
        problem w { message := "The delivery acknowledgement is invalid. The same delivery will be reconciled." } h
      else save w ({ h with a := h.a.clearCapacityWait }.row i
        { row with input := none, occurrenceID := o.id, runID := o.runID, state := o.state })

def rowOf (h : Held) (record : PreparedInputRecord R) (input : RawMessage) : InputEvaluationRow :=
  { recordID := record.id, recordDigest := inputRecordDigest d record, input, state := "pending"
    eventID := subscriptionIdentity d h.b record, eventAt := w.now }

/-- The first record that is owed a row gets it; where none is, the pass is through. -/
def admitNext (doc : InputPreparation R) (h : Held) : Pass :=
  if inputRecordLimit ≤ h.b.rows.length then
    problem w { message := "This subscription reached its retained revision limit. Review a new subscription to continue." } h
  else match doc.records.find? (subscriptionEligible d h.b h.a doc) with
    | some record => match w.prepared record with
      | .error f => problem w f h
      | .ok input =>
        (save w { h with b := { h.b with rows := h.b.rows ++ [rowOf d w h record input], state := "watching", problem := "" } }).bind
          fun h => .error (h.retained, .appended)
    | none =>
      save w { h with
        b := { h.b with state := "watching", problem := "" }
        a := { h.a.clearCapacityWait with failures := 0, retryAt := "" } }

/-- What is left of a pass while the subscription is enabled. -/
def deliver (doc : InputPreparation R) (h : Held) : Pass :=
  if w.busy then stop h
  else match subscriptionDocument w.project doc h.b h.a with
    | .error f => problem w f h
    | .ok a => (eachRow (deliverRow d w doc) { h with a }).bind (admitNext d w doc)

/-- Pausing closes admission, not the recovery of receipts. -/
def reconcile (h : Held) : Pass :=
  (if h.a.enabled then .ok h else eachRow (recoverRow w) h : Pass).bind (eachRow (reconcileRow w))

def pass (doc : InputPreparation R) (h : Held) : Pass :=
  (ensureEvaluationJob w h).bind fun h => (checkTriggers w h).bind fun h => (reconcile w h).bind fun h =>
    if h.a.enabled then deliver d w doc h
    else (save w { h with b := { h.b with state := "paused", problem := "" }, a := h.a.clearCapacityWait }).bind stop

def advanceInputSubscription (doc : InputPreparation R) (b : InputEvaluation) : InputEvaluation × Ending :=
  match b.subscription with
  | none => (b, .early)
  | some a =>
    if subscriptionReserved b ∨ w.waits a.retryAt then (b, .early)
    else match pass d w doc ⟨b, a, b, 0, 20⟩ with
      | .ok h => (h.retained, .through)
      | .error ended => ended

/-! ## Runs -/

structure System (R : Type) where
  b : InputEvaluation
  doc : InputPreparation R

inductive Event (R : Type) where
  /-- The worker comes by. -/
  | pass (w : World R)
  /-- Any change of the collection, its records and their reviews. -/
  | edited (doc : InputPreparation R)
  /-- `subscription-state`, and whether it is retained. -/
  | setEnabled (enabled : Bool) (p : Project) (retained : Bool)
  /-- `resume` -/
  | resume (retained : Bool)

/-- What the worker passes by. -/
def finished (b : InputEvaluation) : Bool := b.confirmedAt == "" || ["completed", "partial", "blocked"].contains b.state

def setEnabled (doc : InputPreparation R) (enabled : Bool) (p : Project) (b : InputEvaluation) : InputEvaluation :=
  match b.subscription with
  | none => b
  | some a =>
    if b.confirmedAt = "" ∨ subscriptionReserved b then b
    else match if enabled then (subscriptionDocument p doc b a).map (initializeSubscription d · doc) else .ok a with
      | .error _ => b
      | .ok a => { b with
        subscription := some { a.clearCapacityWait with enabled, statePending := true, failures := 0, retryAt := "" }
        state := "queued"
        problem := "" }

def System.step (s : System R) : Event R → System R
  | .pass w => if finished s.b then s else { s with b := (advanceInputSubscription d w s.doc s.b).1 }
  | .edited doc => { s with doc }
  | .setEnabled enabled p retained => if retained then { s with b := setEnabled d s.doc enabled p s.b } else s
  | .resume retained =>
    if retained ∧ s.b.confirmedAt ≠ "" ∧ s.b.state = "blocked" ∧ ¬subscriptionReserved s.b then
      { s with b := { s.b with state := "queued", problem := "" } }
    else s

end

end Desk.Evaluation
