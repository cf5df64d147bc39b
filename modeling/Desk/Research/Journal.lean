import Desk.Lib.Json
import Desk.Lib.Text
import Mathlib.Algebra.Ring.Int.Defs

/-!
# Research attempts

The journal of one research run and the transactions that begin, retry, settle
and recover its attempts. Times are the texts the clock gave; an error leaves
the journal as it was.
-/

namespace Desk

namespace Research

inductive Kind where
  | model
  | search
  | page
  deriving DecidableEq

def Kind.text : Kind → String
  | .model => "model"
  | .search => "search"
  | .page => "page"

inductive AttemptState where
  | started
  | waiting
  | completed
  | uncertain
  | refused
  | notStarted
  deriving DecidableEq

/-- A failure the AI connection reported. -/
structure ModelFailure where
  code : String
  recovery : String
  deriving DecidableEq

structure Attempt where
  id : String
  kind : Kind
  digest : String
  state : AttemptState
  startedAt : String
  finishedAt : String := ""
  result : List UInt8 := []
  failure : Option ModelFailure := none
  problem : String := ""
  problemCode : String := ""
  recovery : String := ""
  url : String
  query : String
  number : Int
  retryOf : String := ""
  retryAt : String := ""
  retriedBy : String := ""
  retryNote : String := ""
  continued : Bool := false
  acquisitionRefusal : Bool := false
  reservedBytes : Int := 0
  actionProblem : String := ""
  deriving DecidableEq

structure PendingRetry where
  afterAttempt : String
  retryAt : String
  number : Int
  maxAttempts : Int
  problemCode : String
  deriving DecidableEq

structure Limits where
  records : Int
  searches : Int
  pages : Int
  modelCalls : Int
  deriving DecidableEq

def Limits.of (limits : Limits) : Kind → Int
  | .model => limits.modelCalls
  | .search => limits.searches
  | .page => limits.pages

structure RetryPolicy where
  /-- The mode is `temporary`, not `off`. -/
  temporary : Bool
  maxRetries : Int
  searchTimeouts : Bool
  deriving DecidableEq

/-- What the journal reads of a recipe. -/
structure Recipe where
  retries : Option RetryPolicy
  limits : Limits
  /-- A search connection is chosen. -/
  search : Bool
  /-- What the contract asks of a recipe beside its retries and its limits. -/
  otherwiseValid : Bool
  deriving DecidableEq

inductive RequestState where
  | pending
  | approved
  | declined
  deriving DecidableEq

structure BudgetRequest where
  id : String
  state : RequestState
  createdAt : String
  resolvedAt : Option String := none
  reviewer : Option String := none
  reason : String
  current : Limits
  proposed : Limits
  used : Limits
  deriving DecidableEq

/-- What the journal reads of a portable contract. -/
structure Portable where
  limits : Limits
  /-- The capabilities its arguments name, where they are read at all. -/
  capabilities : Option (List String)
  response : List UInt8
  deriving DecidableEq

inductive RunState where
  | review
  | queued
  | running
  | paused
  | interrupted
  | stopped
  | blocked
  | completed
  | completedWithGaps
  | partlyDone
  deriving DecidableEq

structure Run where
  id : String
  state : RunState
  stopRequested : Bool := false
  recipe : Recipe
  portable : Option Portable := none
  /-- A continuation of an earlier run, or a reprocessing of one. -/
  continues : Bool := false
  step : Nat := 0
  phase : String := ""
  phaseReason : String := ""
  problem : String := ""
  records : Nat := 0
  attempts : List Attempt := []
  pendingRetries : List PendingRetry := []
  pendingRetry : Option PendingRetry := none
  retrievedBytes : Int := 0
  budgetRequests : List BudgetRequest := []
  deriving DecidableEq

/-! ## Limits and reservations -/

def researchBaseLimits (run : Run) : Limits :=
  match run.portable with
  | some portable => portable.limits
  | none => run.recipe.limits

def researchApprovedLimits (run : Run) : Limits :=
  run.budgetRequests.foldl (fun limits request => if request.state = .approved then request.proposed else limits)
    (researchBaseLimits run)

def requestLimit : String := "The approved research request limit was reached."

/-- The requests of a kind that were admitted. -/
def admitted (attempts : List Attempt) (kind : Kind) : Nat :=
  (attempts.filter fun a => decide (a.kind = kind) && decide (a.state ≠ .notStarted)).length

def researchRequestBudget (run : Run) (kind : Kind) : Except String Unit :=
  if (researchApprovedLimits run).of kind ≤ admitted run.attempts kind ∨ 250 ≤ run.attempts.length then
    .error requestLimit
  else .ok ()

def inputResearchSourceResponseLimit : Int := 16 * 2 ^ 20 + 64 * 2 ^ 10

def inputResearchSourceProofLimit : Int := inputResearchSourceResponseLimit + 128 * 2 ^ 10

def inputResearchRetainedByteLimit : Int := 64 * 2 ^ 20

def researchReservedBytes (attempts : List Attempt) : Int := (attempts.map (·.reservedBytes)).sum

/-- What one acquisition may retain: a proof and bounded metadata. -/
def allowance : Int := inputResearchSourceProofLimit + 2 * 2 ^ 20

/-- The attempt with the bytes it may retain set aside. -/
def reserveResearchSource (run : Run) (attempt : Attempt) : Except String Attempt :=
  if attempt.kind = .model then .ok attempt
  else if run.retrievedBytes < 0 ∨
      inputResearchRetainedByteLimit < run.retrievedBytes + researchReservedBytes run.attempts + allowance then
    .error "The saved-source storage limit leaves no room for another request. Save records from retained evidence."
  else .ok { attempt with reservedBytes := allowance }

def researchAttemptByID (attempts : List Attempt) (id : String) : Except String Attempt :=
  match attempts.find? fun a => a.id == id with
  | some a => .ok a
  | none => .error "Research attempt not found."

/-- The first attempt of that id, changed in its place. -/
def changeAttempt (id : String) (change : Attempt → Except String Attempt) : List Attempt → Except String (List Attempt)
  | [] => .error "Research attempt not found."
  | a :: rest =>
    if a.id = id then do return (← change a) :: rest
    else do return a :: (← changeAttempt id change rest)

/-! ## Beginning and finishing -/

/-- What an attempt digests. -/
def attemptKey (kind : String) (args : List UInt8) : String := digestOf (bytesOf (kind ++ "\n") ++ args)

def researchContinuableAttempt (a : Attempt) : Bool :=
  if a.state ≠ .uncertain ∨ a.kind = .model then false
  else if a.problemCode = "source-response-too-large" ∨ a.problemCode = "source-empty-text" then true
  else if !a.acquisitionRefusal then false
  else if a.kind = .search then
    ["search-not-grounded", "search-timeout", "search-temporary", "search-invalid-response"].contains a.problemCode
  else
    ["web-over-limit", "web-unsupported-type", "web-redirect-limit", "web-processing-failed"].contains a.problemCode

def kindOf (kind : String) : Option Kind := [Kind.model, .search, .page].find? fun k => k.text == kind

/-- The run, the attempt and whether it is an earlier one that completed. The coordinates are
those the arguments of a source name. -/
def beginResearchAttempt (run : Run) (kind : String) (args : List UInt8) (url query now : String) :
    Except String (Run × Attempt × Bool) :=
  if run.stopRequested ∨ run.state ≠ .running then .error "Research is no longer running."
  else
    match kindOf kind with
    | none => .error "Unsupported research operation."
    | some k =>
      let key := attemptKey kind args
      match run.attempts.reverse.find? fun a => a.digest == key && decide (a.kind = k) with
      | some previous =>
        if previous.state = .completed then .ok (run, previous, true)
        else if previous.continued ∧ researchContinuableAttempt previous = true then
          .error "This source was already unavailable. Its request was not repeated."
        else
          .error "An earlier request has an uncertain or failed outcome. Review it before starting another attempt."
      | none => do
        researchRequestBudget run k
        let attempt ← reserveResearchSource run
          { id := "attempt_" ++ key, kind := k, digest := key, state := .started, number := 1, startedAt := now, url,
            query }
        return ({ run with attempts := run.attempts ++ [attempt] }, attempt, false)

def responseLimit : Nat := 2 * 2 ^ 20

def finishAttempt (result : List UInt8) (problem now : String) (a : Attempt) : Except String Attempt :=
  if a.state ≠ .started ∧ a.state ≠ .waiting then .error "Research attempt was already finalized."
  else if a.state = .waiting ∧ problem = "" then .error "An AI request cannot complete before admission."
  else if responseLimit < result.length then .error "Research response exceeds its byte limit."
  else if problem ≠ "" then
    .ok { a with
      reservedBytes := 0, finishedAt := now, problem,
      state := if a.state = .waiting then .notStarted else .uncertain }
  else .ok { a with reservedBytes := 0, finishedAt := now, state := .completed, result }

def finishResearchAttempt (run : Run) (id : String) (result : List UInt8) (problem now : String) : Except String Run := do
  return { run with attempts := ← changeAttempt id (finishAttempt result problem now) run.attempts }

def refuseAttempt (result : List UInt8) (code problem now : String) (a : Attempt) : Except String Attempt :=
  if a.state ≠ .started ∨ a.kind = .model ∨ result.length = 0 ∨ code = "" ∨ problem = "" then
    .error "Research attempt cannot be refused."
  else if responseLimit < result.length then .error "Research response exceeds its byte limit."
  else .ok { a with reservedBytes := 0, finishedAt := now, state := .refused, result, problem, problemCode := code }

def refuseResearchAttempt (run : Run) (id : String) (result : List UInt8) (code problem now : String) :
    Except String Run := do
  return { run with attempts := ← changeAttempt id (refuseAttempt result code problem now) run.attempts }

/-- Waiting precedes the admission of an AI request. -/
def admitAttempt (waiting : Bool) (a : Attempt) : Except String Attempt :=
  if a.kind ≠ .model ∨ (a.state ≠ .started ∧ a.state ≠ .waiting) then .error "Research attempt is no longer active."
  else .ok { a with state := if waiting then .waiting else .started }

def researchModelAvailability (run : Run) (id : String) (waiting : Bool) : Except String Run := do
  return { run with attempts := ← changeAttempt id (admitAttempt waiting) run.attempts }

/-! ## Retries -/

def researchRetryAllowed (recipe : Recipe) (a : Attempt) : Bool :=
  match recipe.retries with
  | none => false
  | some p =>
    if !p.temporary ∨ a.kind ≠ .search ∨ !a.acquisitionRefusal then false
    else
      a.problemCode == "search-temporary" || a.problemCode == "rate-limited" ||
        (a.problemCode == "search-timeout" && p.searchTimeouts)

def researchAttemptNumber (a : Attempt) : Int := max 1 a.number

/-- `strings.TrimSuffix` of the note that no retry was made. -/
def withoutNoResearchRetry (message : String) : String :=
  let suffix := " No automatic retry was made.".toList
  if suffix.isSuffixOf message.toList then String.ofList (message.toList.take (message.toList.length - suffix.length))
  else message

def researchPendingRetries (run : Run) : List PendingRetry :=
  if run.pendingRetries ≠ [] then run.pendingRetries else run.pendingRetry.toList

/-- The pending retry that is due first. -/
def firstDue (pending : List PendingRetry) : Option PendingRetry :=
  pending.foldl (fun due p =>
    match due with
    | none => some p
    | some q => if p.retryAt < q.retryAt then some p else some q) none

def setResearchPendingRetries (run : Run) (pending : List PendingRetry) : Run :=
  { run with pendingRetries := pending, pendingRetry := firstDue pending }

/-- The note on the attempt of that id, where there is one. -/
def noteAttempt (note id : String) : List Attempt → List Attempt
  | [] => []
  | a :: rest => if a.id = id then { a with retryNote := note } :: rest else a :: noteAttempt note id rest

/-- `after` empty removes them all. -/
def removeResearchRetry (run : Run) (after note : String) : Run :=
  let stays (p : PendingRetry) : Bool := after != "" && p.afterAttempt != after
  let removed := (researchPendingRetries run).filter fun p => !stays p
  let attempts :=
    if note = "" then run.attempts
    else removed.foldl (fun attempts p => noteAttempt note p.afterAttempt attempts) run.attempts
  setResearchPendingRetries { run with attempts } ((researchPendingRetries run).filter stays)

def cancelResearchRetry (run : Run) (note : String) : Run := removeResearchRetry run "" note

/-- `fmt.Sprintf("attempt_%s_%d", key, number)` -/
def retryID (key : String) (number : Int) : String := "attempt_" ++ key ++ "_" ++ toString number

def notAuthorized : String := "The saved retry policy does not authorize this attempt."

def beginResearchRetry (run : Run) (kind : String) (args : List UInt8) (after now : String) :
    Except String (Run × Attempt) :=
  if run.stopRequested ∨ run.state ≠ .running then .error "Research is no longer running."
  else
    match (researchPendingRetries run).find? fun p => p.afterAttempt == after with
    | none => .error "The scheduled retry is no longer available."
    | some pending =>
      if run.attempts.length = 0 then .error "The scheduled retry is no longer available."
      else do
        let previous ← researchAttemptByID run.attempts after
        let key := attemptKey kind args
        match run.recipe.retries with
        | none => .error notAuthorized
        | some policy =>
          if previous.kind.text ≠ kind ∨ previous.digest ≠ key ∨ previous.state ≠ .uncertain ∨
              previous.retriedBy ≠ "" ∨ researchRetryAllowed run.recipe previous = false ∨
              pending.number ≠ researchAttemptNumber previous + 1 ∨ policy.maxRetries + 1 < pending.number then
            .error notAuthorized
          else do
            researchRequestBudget run previous.kind
            let next ← reserveResearchSource run
              { id := retryID key pending.number, kind := previous.kind, digest := key, state := .started,
                number := pending.number, retryOf := previous.id, url := previous.url, query := previous.query,
                startedAt := now }
            let attempts ← changeAttempt after
              (fun a => .ok { a with
                retriedBy := next.id, retryNote := "This operation was retried under the saved recipe policy." })
              run.attempts
            return (removeResearchRetry { run with attempts := attempts ++ [next] } after "", next)

end Research

end Desk
