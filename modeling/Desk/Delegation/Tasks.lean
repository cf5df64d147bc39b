import Desk.Lib.Refusal
import Desk.Lib.Run
import Desk.Lib.Utc

/-!
# Delegated tasks

A batch of independent tasks, run by one or two workers. A step is one move of a
worker, of the caller that waits for the workers, or of a context; what a hook
answers and the clock shows is chosen with the step. The log keeps what happened.
-/

namespace Desk.Delegation

inductive TaskState
  | queued
  | running
  | complete
  | failed
  | interrupted
deriving DecidableEq

structure Task where
  id : String
  title : String
  objective : String
  state : TaskState
  createdAt : String
  startedAt : String := ""
  finishedAt : String := ""
  problem : String := ""
deriving DecidableEq

/-- An error; it is fatal when its chain has a `*Fatal`. -/
structure Failure where
  text : String
  fatal : Bool := false
deriving DecidableEq

/-! ## Batches that are accepted -/

def Task.validate (t : Task) : Except String Unit := do
  refuseWhen (t.id = "" ∨ 128 < len t.id ∨ t.title = "" ∨ 512 < len t.title ∨ t.objective = "" ∨
    2000 < len t.objective ∨ 4000 < len t.problem) "Invalid delegated task."
  refuseWhen (∃ v ∈ [t.createdAt, t.startedAt, t.finishedAt], v ≠ "" ∧ rfc3339Nano v = false)
    "Invalid delegated task time."

def checkTasks : List String → List Task → Except String Unit
  | _, [] => .ok ()
  | seen, t :: rest => do
    t.validate
    refuseWhen (t.state ≠ .queued ∨ t.id ∈ seen) "Only distinct queued tasks may be dispatched."
    checkTasks (t.id :: seen) rest

/-- The checks of `Run`; both hooks are set. -/
def checkBatch (tasks : List Task) (concurrency : Int) : Except String Unit := do
  refuseWhen (concurrency < 1 ∨ 2 < concurrency ∨ 100 < tasks.length) "Invalid delegated task batch."
  checkTasks [] tasks

/-! ## Workers -/

/-- Where a worker stands, with the task it holds. -/
inductive Worker
  | ready
  | taken (t : Task)
  | entered (t : Task)
  | executing (t : Task)
  | executed (t : Task) (err : Option Failure)
  | settling (t : Task) (err : Option Failure)
  | failing (err : Failure)
  | cancelling
  | done
deriving DecidableEq

/-- What `Run` returns: nothing, the fatal error it wraps, or the error of the context. -/
inductive Outcome
  | ok
  | stopped (fatal : Failure)
  | context (err : String)
deriving DecidableEq

inductive Event
  | took (t : Task)
  | transition (t : Task) (err : Option Failure)
  | executes (t : Task)
  | executed (t : Task) (err : Option Failure)
  | failed (err : Failure)
  | contextEnded (err : String)
  | cancelled
  | left
  | returned (outcome : Outcome)
deriving DecidableEq

structure Batch where
  tasks : List Task
  workers : List Worker
  next : Nat := 0
  fatal : Option Failure := none
  /-- `batch.Err() != nil` -/
  cancelled : Bool := false
  /-- `ctx.Err()` -/
  context : Option String := none
  returned : Bool := false
  log : List Event := []

def start (tasks : List Task) (concurrency : Int) : Batch where
  tasks
  workers := List.replicate (min concurrency.toNat tasks.length) .ready

namespace Task

def started (t : Task) (now : String) : Task := { t with state := .running, startedAt := now }

def ended (t : Task) : Option Failure → Task
  | none => { t with state := .complete }
  | some err =>
    { t with
      state := .failed
      problem := if 4000 < len err.text then "The task failed; see its saved operations for details." else err.text }

/-- The last state of an executed task; a batch that is cancelled interrupts it. -/
def settled (t : Task) (cancelled : Bool) (now : String) : Task :=
  if cancelled then
    { t with
      state := .interrupted
      problem := if t.problem = "" then "Stopped before the task completed." else t.problem
      finishedAt := now }
  else { t with finishedAt := now }

def dropped (t : Task) (now : String) : Task :=
  { t with state := .interrupted, problem := "Stopped before the task started.", finishedAt := now }

end Task

namespace Batch

def note (b : Batch) (evs : List Event) : Batch := { b with log := b.log ++ evs }

def become (b : Batch) (k : Nat) (w : Worker) : Batch := { b with workers := b.workers.set k w }

/-- Where a worker goes when its last transition is through. -/
def after (err : Option Failure) : Worker :=
  match err with
  | some e => if e.fatal then .failing e else .ready
  | none => .ready

/-- A worker moves; `answer` is what the hook it calls returns. -/
def work (b : Batch) (k : Nat) (now : String) (answer : Option Failure) : Worker → Batch
  | .ready =>
    match b.cancelled, b.tasks[b.next]? with
    | false, some t =>
      (({ b with next := b.next + 1 } : Batch).note [.took (t.started now)]).become k (.taken (t.started now))
    | _, _ => (b.note [.left]).become k .done
  | .taken t =>
    (b.note [.transition t answer]).become k (match answer with | none => .entered t | some e => .failing e)
  | .entered t => (b.note [.executes t]).become k (.executing t)
  | .executing t => (b.note [.executed t answer]).become k (.executed (t.ended answer) answer)
  | .executed t err => b.become k (.settling (t.settled b.cancelled now) err)
  | .settling t err =>
    (b.note [.transition t answer]).become k (match answer with | none => after err | some e => .failing e)
  | .failing e => (({ b with fatal := b.fatal.or (some e) } : Batch).note [.failed e]).become k .cancelling
  | .cancelling => (({ b with cancelled := true } : Batch).note [.cancelled, .left]).become k .done
  | .done => b

def outcome (b : Batch) : Outcome :=
  match b.fatal, b.context with
  | some e, _ => .stopped e
  | none, some e => .context e
  | none, none => .ok

/-- The caller waits for the workers, gives the tasks nobody took their last transition, and returns. -/
def finish (b : Batch) (now : String) (answer : Option Failure) : Batch :=
  if b.workers.all (· == .done) then
    match b.tasks[b.next]? with
    | some t =>
      { b with
        next := b.next + 1
        fatal := b.fatal.or answer
        log := b.log ++ .transition (t.dropped now) answer :: (answer.map .failed).toList }
    | none => ({ b with returned := true } : Batch).note [.returned b.outcome]
  else b

end Batch

inductive Act
  | work (k : Nat) (now : String) (answer : Option Failure)
  | finish (now : String) (answer : Option Failure)
  /-- The context of the caller ends. -/
  | cancel (err : String)
  /-- The end of that context reaches the one of the batch. -/
  | propagate

def step (b : Batch) (a : Act) : Batch :=
  if b.returned then b
  else
    match a with
    | .work k now answer =>
      match b.workers[k]? with
      | some w => b.work k now answer w
      | none => b
    | .finish now answer => b.finish now answer
    | .cancel err =>
      if b.context.isSome then b else ({ b with context := some err } : Batch).note [.contextEnded err]
    | .propagate => if b.context.isSome then ({ b with cancelled := true } : Batch).note [.cancelled] else b

end Desk.Delegation
