import Desk.Research.Journal

/-!
# The end of an attempt

The transactions that keep a reply, schedule a retry after it, and recover a
run whose process stopped. What a call returned is data: its bytes, what its
error says, and the proof it left.
-/

namespace Desk

namespace Research

/-- A refusal of the source, with what it authorizes. -/
structure SourceError where
  code : String
  recovery : String
  acquisitionRefusal : Bool

/-- What the error of a call says. -/
structure CallError where
  text : String
  deadlineExceeded : Bool := false
  canceled : Bool := false
  failure : Option ModelFailure := none
  refusal : Option SourceError := none
  /-- The code under which a completed acquisition was refused. -/
  refused : Option String := none

/-- The proof a failed acquisition left. -/
inductive ProofSize where
  | retained (bytes : Int)
  | absent
  | unreadable

/-- What a call returned. -/
structure Reply where
  raw : List UInt8
  error : Option CallError
  /-- The size in the metadata of a source, where the bytes are metadata. -/
  sourceBytes : Option Int
  proofSize : ProofSize

/-- The bytes a reply adds to those retained. -/
def Reply.size (reply : Reply) (portable : Bool) (kind : Kind) : Except String Int :=
  if kind = .model ∨ portable = true then .ok reply.raw.length
  else
    match reply.error with
    | none =>
      match reply.sourceBytes with
      | none => .error "Invalid source metadata."
      | some bytes => .ok (reply.raw.length + bytes)
    | some _ =>
      match reply.proofSize with
      | .retained bytes => .ok (reply.raw.length + bytes)
      | .absent => .ok reply.raw.length
      | .unreadable => .error "The retained proof cannot be read."

/-- The error of a call that was still waiting for the AI connection. -/
def waitingError (error : Option CallError) : CallError :=
  let error := error.getD { text := "The AI request was not admitted." }
  if error.deadlineExceeded then
    { text := "The AI connection stayed busy until the wait limit was reached. No AI request was sent. Try a new run when the other operation finishes." }
  else if error.canceled then
    { text := "Research stopped while waiting for the AI connection. No AI request was sent." }
  else error

/-- What the error of a call leaves on its attempt. -/
def noteFailure (error : Option CallError) (a : Attempt) : Attempt :=
  let a :=
    match error.bind (·.failure) with
    | some failure => { a with failure := some failure, problemCode := failure.code, recovery := failure.recovery }
    | none => a
  match error.bind (·.refusal) with
  | some refusal =>
    { a with problemCode := refusal.code, recovery := refusal.recovery, acquisitionRefusal := refusal.acquisitionRefusal }
  | none => a

/-- The code of a source call whose acquisition was refused, with the bytes it kept. -/
def refusedCode (kind : Kind) (reply : Reply) : Option String :=
  if kind = .model ∨ reply.raw.length = 0 then none else reply.error.bind (·.refused)

/-- The attempt after its reply: refused, or finished with what its error says. -/
def settleAttempt (kind : Kind) (reply : Reply) (now : String) (a : Attempt) : Except String Attempt :=
  let error := if a.state = .waiting then some (waitingError reply.error) else reply.error
  let problem := (error.map (·.text)).getD ""
  match refusedCode kind reply with
  | some code => refuseAttempt reply.raw code problem now a
  | none => (finishAttempt reply.raw problem now a).map (noteFailure error)

/-- The transaction that keeps a reply. -/
def settleResearchAttempt (run : Run) (id : String) (kind : Kind) (reply : Reply) (now : String) :
    Except String Run := do
  let current ← researchAttemptByID run.attempts id
  let size ← reply.size run.portable.isSome kind
  if responseLimit < reply.raw.length ∨ inputResearchRetainedByteLimit <
      run.retrievedBytes + researchReservedBytes run.attempts - current.reservedBytes + size then
    .error "Research response storage limit reached."
  else
    return { run with
      retrievedBytes := run.retrievedBytes + size
      attempts := ← changeAttempt id (settleAttempt kind reply now) run.attempts }

/-! ## Scheduling -/

/-- Why no retry is scheduled, and whether the attempt is left without a note. -/
def noRetryReason (run : Run) (kind : Kind) (ended : Bool) (a : Attempt) : Option String :=
  let number := researchAttemptNumber a
  match run.recipe.retries with
  | none =>
    if run.stopRequested ∨ ended = true then some "Research stopped. No further retry was made."
    else some "This failure is not eligible for automatic retry."
  | some policy =>
    if run.stopRequested ∨ ended = true then some "Research stopped. No further retry was made."
    else if researchRetryAllowed run.recipe a = false then some "This failure is not eligible for automatic retry."
    else if policy.maxRetries < number then some "The saved retry limit was reached."
    else
      match researchRequestBudget run kind with
      | .error _ => some "The saved request limit leaves no room for another retry."
      | .ok _ => none

/-- The transaction after a failed call: a retry at that time, or a note why there is none. -/
def scheduleResearchRetry (run : Run) (id : String) (kind : Kind) (ended : Bool) (retryAt : String) :
    Except String Run := do
  let a ← researchAttemptByID run.attempts id
  let number := researchAttemptNumber a
  match noRetryReason run kind ended a with
  | some reason =>
    -- A first failure that is not eligible is left as it is.
    if ¬(run.stopRequested ∨ ended = true) ∧ researchRetryAllowed run.recipe a = false ∧ number = 1 then return run
    else
      return { run with
        attempts := ← changeAttempt id (fun a => .ok { a with
          retryNote := reason, problem := if 1 < number then withoutNoResearchRetry a.problem else a.problem })
          run.attempts }
  | none =>
    let attempts ← changeAttempt id (fun a => .ok { a with
      problem := withoutNoResearchRetry a.problem, retryAt,
      retryNote := "A retry was scheduled under the saved recipe policy." }) run.attempts
    let maxRetries := (run.recipe.retries.map (·.maxRetries)).getD 0
    return setResearchPendingRetries { run with attempts } (researchPendingRetries run ++
      [⟨a.id, retryAt, number + 1, maxRetries + 1, a.problemCode⟩])

/-! ## Recovery -/

def recoverAttempt (now : String) (a : Attempt) : Attempt :=
  let a := { a with reservedBytes := 0 }
  let a :=
    if a.state = .waiting then
      { a with
        state := .notStarted, finishedAt := now,
        problem := "The process stopped while waiting for the AI connection. No AI request was sent." }
    else a
  if a.state = .started then
    { a with state := .uncertain, problem := "The process stopped before the response was retained." }
  else a

/-- Tasks and candidates are not modelled: a source kept for a candidate moves the phase. -/
def recoverInputResearch (run : Run) (keptPage : Bool) (now : String) : Run :=
  if run.state ≠ .running then run
  else
    let run := { run with state := .interrupted }
    let run :=
      if keptPage then
        { run with
          phase := "save"
          phaseReason := "Pages were retained. Save all supported candidates from these pages now, leaving unsupported fields missing, or finish with a reason explaining why the pages are insufficient. Queued candidates will be read after this checkpoint." }
      else run
    let run := cancelResearchRetry run "The process stopped before the scheduled retry. No further request was made."
    { run with
      problem := "Research stopped before completion. Saved records are available; outstanding requests will not be repeated automatically."
      attempts := run.attempts.map (recoverAttempt now) }

end Research

end Desk
