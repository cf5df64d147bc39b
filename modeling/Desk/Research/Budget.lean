import Desk.Research.Settle

/-!
# Research budgets

The offers to raise the limits of a run, the decisions on them and their
validation; then every transaction of a run as one call. A time the journal
wrote parses: the empty text is `none`.
-/

namespace Desk

namespace Research

def admittedUsage (attempts : List Attempt) (kind : Kind) : Nat :=
  (attempts.filter fun a => decide (a.kind = kind) && decide (a.state ≠ .waiting) && decide (a.state ≠ .notStarted)).length

def researchBudgetUsage (run : Run) : Limits where
  records := if run.portable.any (fun portable => portable.response ≠ []) then 1 else run.records
  modelCalls := admittedUsage run.attempts .model
  searches := admittedUsage run.attempts .search
  pages := admittedUsage run.attempts .page

def pendingResearchBudget (run : Run) : Option BudgetRequest :=
  run.budgetRequests.getLast?.filter fun request => decide (request.state = .pending)

/-! ## Valid limits -/

def validatePortableResearchLimits (limits : Limits) : Bool :=
  decide (limits.records = 1 ∧ 1 ≤ limits.modelCalls ∧ limits.modelCalls ≤ 30 ∧ 0 ≤ limits.searches ∧
    limits.searches ≤ 15 ∧ 0 ≤ limits.pages ∧ limits.pages ≤ 15 ∧
    limits.modelCalls + limits.searches + limits.pages ≤ 64)

def retriesValid : Option RetryPolicy → Bool
  | none => true
  | some p =>
    decide (0 ≤ p.maxRetries ∧ p.maxRetries ≤ 3 ∧ (p.temporary = true → 1 ≤ p.maxRetries) ∧
      (p.temporary = false → p.searchTimeouts = false))

def validateInputResearch (r : Recipe) : Bool :=
  let l := r.limits
  r.otherwiseValid && retriesValid r.retries &&
    decide (1 ≤ l.records ∧ l.records ≤ 50 ∧ 0 ≤ l.searches ∧ l.searches ≤ 30 ∧ 0 ≤ l.pages ∧ l.pages ≤ 100 ∧
      1 ≤ l.modelCalls ∧ l.modelCalls ≤ 60) &&
    !(decide (0 < l.searches) && !r.search)

def validateResearchProposedLimits (run : Run) (limits : Limits) : Bool :=
  if run.portable.isSome then validatePortableResearchLimits limits
  else validateInputResearch { run.recipe with limits }

/-! ## Valid requests -/

/-- What is checked of a request under the limits before it, wherever it stands. -/
def requestValid (run : Run) (seen : List String) (current : Limits) (request : BudgetRequest) : Bool :=
  let used := request.used
  let proposed := request.proposed
  (hasPrefix request.id "budget_" && decide (len request.id = 71) && !seen.contains request.id &&
    decide (request.current = current) &&
    decide (0 ≤ used.records ∧ 0 ≤ used.searches ∧ 0 ≤ used.pages ∧ 0 ≤ used.modelCalls) &&
    decide (used.records ≤ current.records ∧ used.searches ≤ current.searches ∧ used.pages ≤ current.pages ∧
      used.modelCalls ≤ current.modelCalls)) &&
  decide (proposed.records = current.records ∧ current.searches ≤ proposed.searches ∧ current.pages ≤ proposed.pages ∧
    current.modelCalls ≤ proposed.modelCalls ∧ proposed ≠ current) &&
  validateResearchProposedLimits run proposed && !run.continues

/-- The requests from the first unseen on. -/
def requestsValid (run : Run) : List String → Limits → List BudgetRequest → Bool
  | _, _, [] => true
  | seen, current, request :: rest =>
    requestValid run seen current request &&
      match request.state with
      | .pending =>
        rest.isEmpty && decide (run.state = .paused) && request.resolvedAt.isNone && request.reviewer.isNone
      | .approved =>
        request.resolvedAt.isSome && request.reviewer.isSome &&
          requestsValid run (request.id :: seen) request.proposed rest
      | .declined => request.resolvedAt.isSome && request.reviewer.isSome && rest.isEmpty

def validateResearchBudgets (run : Run) : Bool :=
  decide (run.budgetRequests.length ≤ 16) && requestsValid run [] (researchBaseLimits run) run.budgetRequests &&
    !(decide (run.state = .paused) && (pendingResearchBudget run).isNone)

/-! ## Offers -/

/-- `strings.TrimSpace` -/
def trimSpace (s : String) : String :=
  String.ofList ((s.toList.dropWhile isSpace).reverse.dropWhile isSpace).reverse

def int (n : Int) : Json := .num (toString n)

def Limits.json (limits : Limits) : Json :=
  .obj [("records", int limits.records), ("searches", int limits.searches), ("pages", int limits.pages),
    ("modelCalls", int limits.modelCalls)]

/-- What the id of an offer digests. -/
def offerBytes (run : Run) (current proposed used : Limits) : List UInt8 :=
  if run.portable.isSome then
    (Json.arr [.str run.id, .nat run.attempts.length, current.json, proposed.json, used.json]).marshal
  else
    (Json.arr [.str run.id, .nat run.step, .nat run.attempts.length, current.json, proposed.json, used.json]).marshal

/-- The limits of a portable offer, where one is made. -/
def portableProposed (run : Run) (portable : Portable) : Option Limits :=
  let current := researchApprovedLimits run
  let used := researchBudgetUsage run
  if run.stopRequested ∨ portable.response ≠ [] ∨ 16 ≤ run.budgetRequests.length ∨
      ¬(run.state = .running ∨ run.state = .partlyDone) ∨ run.problem ≠ requestLimit then none
  else if run.budgetRequests.any fun r => decide (r.state = .declined) then none
  else if run.attempts.any fun a =>
      decide (a.state ≠ .completed) && decide (a.state ≠ .notStarted) && decide (a.state ≠ .refused) then none
  else
    match portable.capabilities with
    | none => none
    | some capabilities =>
      let proposed : Limits :=
        { current with
          modelCalls := if current.modelCalls ≤ used.modelCalls then min 30 (current.modelCalls + 6) else current.modelCalls
          searches := if capabilities.contains "search" ∧ current.searches ≤ used.searches then
            min 15 (current.searches + 3) else current.searches
          pages := if capabilities.contains "page" ∧ current.pages ≤ used.pages then
            min 15 (current.pages + 3) else current.pages }
      if proposed = current ∨ validatePortableResearchLimits proposed = false then none else some proposed

/-- The limits of an offer on a recipe, where one is made. -/
def recipeProposed (run : Run) : Option Limits :=
  let current := researchApprovedLimits run
  let used := researchBudgetUsage run
  let remaining := current.records - run.records
  if run.stopRequested ∨ run.continues ∨ 16 ≤ run.budgetRequests.length ∨ run.recipe.limits.records ≤ run.records then
    none
  else if ¬(run.state = .running ∨ run.state = .completedWithGaps ∨ run.state = .partlyDone) then none
  else if run.budgetRequests.any fun r => decide (r.state = .declined) then none
  else if run.phase ≠ "finalize" ∧ used.modelCalls < current.modelCalls then none
  else if run.attempts.getLast?.any fun last =>
      last.actionProblem != "" ||
        decide (last.state ≠ .completed) && !(last.continued && researchContinuableAttempt last) then none
  else
    -- A run always needs room for a fresh AI action and its save checkpoint.
    let modelCalls := if current.modelCalls - used.modelCalls ≤ 2 then
      min 60 (current.modelCalls + min 20 (max 6 (remaining * 3 + 2))) else current.modelCalls
    if modelCalls - used.modelCalls ≤ 2 then none
    else
      let proposed : Limits :=
        { current with
          modelCalls
          pages := if current.pages - used.pages < min remaining 3 then
            min 100 (current.pages + max 1 (min 10 remaining - (current.pages - used.pages))) else current.pages
          searches := if run.recipe.search ∧ current.searches - used.searches = 0 then
            min 30 (current.searches + min 5 remaining) else current.searches }
      if proposed = current then none else some proposed

def offerReason (run : Run) : String :=
  if run.portable.isSome then
    "The reviewed portable research request limit was reached. Keep the retained acquisitions or approve this bounded increase for the same contract."
  else
    toString run.records ++ " of " ++ toString (researchApprovedLimits run).records ++
      " records are saved. The current request limits leave too little room for further discovery and saving. Review the additional allowance to continue; more records are not guaranteed."

/-- The request that is pending, or a new offer. It is an offer, never a grant. -/
def researchBudgetProposal (run : Run) (now : String) : Option BudgetRequest :=
  match pendingResearchBudget run with
  | some request => some request
  | none =>
    let proposed := match run.portable with
      | some portable => portableProposed run portable
      | none => recipeProposed run
    proposed.map fun proposed =>
      let current := researchApprovedLimits run
      let used := researchBudgetUsage run
      { id := "budget_" ++ digestOf (offerBytes run current proposed used), state := .pending, createdAt := now,
        reason := offerReason run, current, proposed, used }

def pauseResearchForBudget (run : Run) (now : String) : Run :=
  match researchBudgetProposal run now with
  | none => run
  | some request =>
    { run with
      budgetRequests :=
        if (pendingResearchBudget run).isNone then run.budgetRequests ++ [request] else run.budgetRequests
      state := .paused
      problem := trimSpace (run.phaseReason ++
        " Research paused at its approved request limits. Review an increase to continue, or keep the saved results.") }

/-- The note of a declined run; `responses` counts the acquisitions a portable run retains,
`sources` the sources of another. -/
def researchKeptResults (run : Run) (responses sources : Nat) : String :=
  if run.portable.isSome then
    "Research ended with " ++ toString responses ++ " retained acquisitions. No additional requests were authorized."
  else
    "Research ended. Saved records: " ++ toString run.records ++ ". Retained sources: " ++ toString sources ++
      ". No additional requests were authorized."

def decideResearchBudget (run : Run) (id decision actor : String) (responses sources : Nat) (now : String) :
    Except String Run :=
  match pendingResearchBudget run with
  | none => .error "This budget request was already resolved or changed. Reload research."
  | some request =>
    if run.state ≠ .paused ∨ run.stopRequested ∨ request.id ≠ id then
      .error "This budget request was already resolved or changed. Reload research."
    else if decision ≠ "approve" ∧ decision ≠ "decline" then
      .error "Choose whether to approve this increase or keep the saved results."
    else
      let held := { request with resolvedAt := some now, reviewer := some actor }
      if decision = "decline" then
        .ok { run with
          budgetRequests := run.budgetRequests.dropLast ++ [{ held with state := .declined }]
          state := if run.portable.isSome then .partlyDone else .completedWithGaps
          problem := researchKeptResults run responses sources }
      else
        .ok { run with
          budgetRequests := run.budgetRequests.dropLast ++ [{ held with state := .approved }]
          state := .queued, phase := "", phaseReason := "", problem := "" }

/-! ## Runs -/

/-- A transaction of the journal, with all that its caller, the clock and the providers chose. -/
inductive Call where
  | start
  | begin (kind : String) (args : List UInt8) (url query now : String)
  | retry (kind : String) (args : List UInt8) (after now : String)
  | finish (id : String) (result : List UInt8) (problem now : String)
  | refuse (id : String) (result : List UInt8) (code problem now : String)
  | availability (id : String) (waiting : Bool)
  | settle (id : String) (kind : Kind) (reply : Reply) (now : String)
  | schedule (id : String) (kind : Kind) (ended : Bool) (retryAt : String)
  | unschedule (after note : String)
  | recover (keptPage : Bool) (now : String)
  | work (step records : Nat) (phase phaseReason problem : String)
  | pause (now : String)
  | decide (id decision actor : String) (responses sources : Nat) (now : String)

/-- The worker takes up a queued run. -/
def startResearch (run : Run) : Except String Run :=
  if run.state ≠ .queued ∨ run.stopRequested then .error "Research is no longer queued."
  else .ok { run with state := .running }

/-- What the worker saves between the attempts; a portable run has no records. -/
def workResearch (run : Run) (step records : Nat) (phase phaseReason problem : String) : Run :=
  { run with
    step, phase, phaseReason, problem, records := if run.portable.isSome then run.records else records }

def transact (run : Run) : Call → Except String Run
  | .start => startResearch run
  | .begin kind args url query now => (beginResearchAttempt run kind args url query now).map (·.1)
  | .retry kind args after now => (beginResearchRetry run kind args after now).map (·.1)
  | .finish id result problem now => finishResearchAttempt run id result problem now
  | .refuse id result code problem now => refuseResearchAttempt run id result code problem now
  | .availability id waiting => researchModelAvailability run id waiting
  | .settle id kind reply now => settleResearchAttempt run id kind reply now
  | .schedule id kind ended retryAt => scheduleResearchRetry run id kind ended retryAt
  | .unschedule after note => .ok (removeResearchRetry run after note)
  | .recover keptPage now => .ok (recoverInputResearch run keptPage now)
  | .work step records phase phaseReason problem => .ok (workResearch run step records phase phaseReason problem)
  | .pause now => .ok (pauseResearchForBudget run now)
  | .decide id decision actor responses sources now =>
    decideResearchBudget run id decision actor responses sources now

/-- A transaction that fails leaves the journal as it was. -/
def perform (run : Run) (c : Call) : Run :=
  match transact run c with
  | .ok next => next
  | .error _ => run

end Research

end Desk
