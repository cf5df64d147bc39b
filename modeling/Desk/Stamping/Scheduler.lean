import Desk.Lib.Base64
import Desk.Lib.Json

/-!
# The stamp scheduler

The loop's wakes, the owner's requests, the changes of the settings and the checks
with roots, each in the steps between which another may come: one hold of a lock,
one reading, one answer of the runtime. The runs' records, which no step reads, are
left out.
-/

namespace Desk

namespace Stamping

/-! ## Checkpoints -/

structure CheckpointHead where
  identity : String
  sequence : Nat
  digest : String
deriving DecidableEq

/-- A checkpoint known without its digest is never another's. -/
def sameCheckpoint (known : Option CheckpointHead) (other : CheckpointHead) : Bool :=
  known.any fun k =>
    k.identity != "" && k.identity == other.identity && decide (1 ≤ k.sequence) && k.sequence == other.sequence &&
      k.digest != "" && k.digest == other.digest

/-! ## The stamps file -/

def stampsLineLimit : Nat := 2 * 2 ^ 20

def readerSize : Nat := 64 * 2 ^ 10

def sidecarIntegerLimit : Nat := 2 ^ 53 - 1

def keyIDForm (s : String) : Bool := hexForm "" 32 s

def recordForm (s : String) : Bool := hexForm "sha256:" 64 s

/-- The members of one JSON object, each given once. -/
def exactMembers (element : List Char) : Option (List (String × List Char)) := do
  let members ← Json.rawMembers element
  if (members.map Prod.fst).Nodup then some members else none

def memberText (members : List (String × List Char)) (name : String) : List Char :=
  ((members.find? fun m => m.1 == name).map Prod.snd).getD []

def sidecarString (raw : List Char) : Option String :=
  match Json.parseChars raw with
  | some (.str s) => some s
  | _ => none

def sidecarInteger (raw : List Char) : Option Nat :=
  if raw = [] ∨ raw.head? = some '0' ∨ ¬raw.all Char.isDigit then none
  else match (String.ofList raw).toNat? with
    | some n => if n < sidecarIntegerLimit then some n else none
    | none => none

def readCheckpointLine (document : List Char) : Option CheckpointHead := do
  if document = [] ∨ 4096 < len (String.ofList document) then none
  else do
    let members ← exactMembers document
    let version ← sidecarString (memberText members "checkpointVersion")
    let trail ← sidecarString (memberText members "trail")
    let sequence ← sidecarInteger (memberText members "sequence")
    let digest ← sidecarString (memberText members "recordDigest")
    if members.length = 4 ∧ version = "1" ∧ keyIDForm trail ∧ recordForm digest then some ⟨trail, sequence, digest⟩
    else none

/-- The checkpoint a line of the stamps file is for. -/
def stampLine (line : List UInt8) : Option CheckpointHead := do
  if line = [] ∨ stampsLineLimit < line.length then none
  else do
    let element ← Json.charsOf line
    let members ← exactMembers element
    let version ← sidecarString (memberText members "stampVersion")
    let token ← sidecarString (memberText members "token")
    let decoded ← Base64.decode token
    let named ← readCheckpointLine (memberText members "checkpoint")
    if members.length = 3 ∧ version = "1" ∧ decoded ≠ [] then some named else none

def stampLineNames (line : List UInt8) (checkpoint : CheckpointHead) : Bool :=
  (stampLine line).any fun named => sameCheckpoint (some checkpoint) named

/-- The lines a newline ends. -/
def wholeLines (file : List UInt8) : List (List UInt8) := (file.splitOn 10).dropLast

/-- The loop of `stampsHold` over the lines; `none` where it panics, at a line so long that its reader has let it go
before the newline. -/
def linesHold (checkpoint : CheckpointHead) : List (List UInt8) → Option Bool
  | [] => some false
  | line :: rest =>
    if stampsLineLimit + readerSize ≤ line.length then none
    else if stampLineNames line checkpoint then some true
    else linesHold checkpoint rest

/-- `stampsHold` of a stamps file, `none` where it could not be read. -/
def stampsHold (file : Option (List UInt8)) (checkpoint : CheckpointHead) : Option Bool :=
  match file with
  | none => some false
  | some file => linesHold checkpoint (wholeLines file)

/-! ## The scheduler -/

abbrev Time : Type := Nat

def minute : Time := 60 * 10 ^ 9

structure StampingSettings where
  raw : List UInt8
  authority : String
  intervalMinutes : Nat
deriving DecidableEq

/-- What `readStamping` answers: that it could not be read, or the settings there are. -/
inductive Reading where
  | failed
  | found (settings : Option StampingSettings)

inductive StampStatus where
  | stamped | already | refused | problem
deriving DecidableEq

/-- What the runtime answers to a stamp. -/
structure StampAnswer where
  status : StampStatus
  checkpoint : CheckpointHead

/-- What is known stamped, and how it came: from a run or a check, and how many stamps the runtime had answered when
it answered this run, or when it read the stamps for this check. -/
structure Known where
  checkpoint : CheckpointHead
  byRun : Bool
  asOf : Nat
deriving DecidableEq

/-- Where the loop is. `attempting` is in the turn. -/
inductive Loop where
  | idle
  | woke (reading : Reading)
  | due (settings : StampingSettings) (now : Time)
  | attempting

/-- Where an attempt is that has taken the turn. -/
inductive Stage where
  | taken
  | noted
  | asked
  | headed (head : CheckpointHead)
  | knowing (known : Option Known) (head : CheckpointHead)
  | checked
  | stamping (now : StampingSettings)
  | answered (answer : StampAnswer)

/-- An attempt in the turn, with the settings its caller read, and for a wake the time it decided at. -/
structure Attempt where
  requested : Bool
  settings : StampingSettings
  now : Time
  stage : Stage

/-- A check with roots: the runs' count as it began, and what the runtime told it of the stamps. -/
inductive Check where
  | begun (since : Nat)
  | read (since : Nat) (word : Option (Option CheckpointHead)) (asOf : Nat)

structure Scheduler where
  lastAttempt : Option Time := none
  stamped : Option Known := none
  generation : Nat := 0
  closed : Bool := false

/-- The scheduler, what is under way, and what it reads. `answers` are the runtime's to stamps, the last one last;
`unseen` says that a change of the settings was confirmed, and no attempt noted since with the settings in force. -/
structure State where
  now : Time
  settings : Option StampingSettings
  head : Option CheckpointHead
  stamps : Option (List UInt8)
  scheduler : Scheduler := {}
  loop : Loop := .idle
  turn : Option Attempt := none
  requests : List StampingSettings := []
  changes : Nat := 0
  checks : List Check := []
  crashed : Bool := false
  answers : List StampAnswer := []
  unseen : Bool := false

/-! ## What is known -/

def Scheduler.settingsChanged (st : Scheduler) : Scheduler := { st with lastAttempt := none }

def CheckpointHead.named (c : CheckpointHead) : Bool := c.identity != "" && decide (1 ≤ c.sequence)

/-- A run's word: it replaces what was known. -/
def Scheduler.knowStamped (st : Scheduler) (checkpoint : Option CheckpointHead) (asOf : Nat) : Scheduler :=
  { st with
    generation := st.generation + 1
    stamped := (checkpoint.filter CheckpointHead.named).map fun c => ⟨c, true, asOf⟩ }

/-- A check's word, read when the runs' count was `since`: it replaces what is known where no run answered since,
and otherwise only clears or lowers it. -/
def Scheduler.knowChecked (st : Scheduler) (checkpoint : Option CheckpointHead) (since asOf : Nat) : Scheduler :=
  match checkpoint.filter CheckpointHead.named with
  | none => { st with stamped := none }
  | some c =>
    if st.generation = since then { st with stamped := some ⟨c, false, asOf⟩ }
    else match st.stamped with
      | some known =>
        if known.checkpoint.identity = c.identity ∧ c.sequence < known.checkpoint.sequence then
          { st with stamped := some ⟨⟨c.identity, c.sequence, ""⟩, false, asOf⟩ }
        else st
      | none => st

/-- How the runtime's report says the stamps stand. -/
inductive Stamped where
  | through (sequence : Nat)
  | none
  | unchecked

structure AuditReport where
  trail : String
  stamped : Stamped
  head : CheckpointHead

/-- What `stampingAfterVerify` has the scheduler know. -/
def stampingAfterVerify (passed : Bool) (report : Option AuditReport) : Option (Option CheckpointHead) :=
  match passed, report with
  | true, some report =>
    match report.stamped with
    | .through sequence =>
      some (some ⟨report.trail, sequence,
        if report.head.identity = report.trail ∧ report.head.sequence = sequence then report.head.digest else ""⟩)
    | .none => some none
    | .unchecked => none
  | _, _ => none

/-! ## Steps -/

def StampAnswer.word (a : StampAnswer) : Option CheckpointHead :=
  if a.status = .stamped ∨ a.status = .already then some a.checkpoint else none

/-- The settings are held for reading while the runtime stamps, and by every check. -/
def State.held (s : State) : Bool :=
  !s.checks.isEmpty || s.turn.any fun a =>
    match a.stage with
    | .stamping _ | .answered _ => true
    | _ => false

def State.readStamping (s : State) (readable : Bool) : Reading := if readable then .found s.settings else .failed

/-- The attempt is over: the turn is free, and the loop sleeps again where it was the loop's. -/
def State.finish (s : State) : State :=
  { s with turn := none, loop := if s.turn.any (!·.requested) then .idle else s.loop }

def State.stage (s : State) (a : Attempt) (stage : Stage) : State := { s with turn := some { a with stage := stage } }

/-- `due` of a wake. -/
def Scheduler.due (st : Scheduler) (settings : StampingSettings) (now : Time) : Bool :=
  !st.closed && st.lastAttempt.all fun last => decide (last + settings.intervalMinutes * minute ≤ now)

/-- The time of an attempt is noted. -/
def State.note (s : State) (a : Attempt) : State :=
  if a.requested then
    if s.scheduler.closed then s.finish
    else { s with
      scheduler := { s.scheduler with lastAttempt := some s.now }
      unseen := s.unseen && decide (s.settings ≠ some a.settings)
      turn := some { a with stage := .checked } }
  else { s with
    scheduler := { s.scheduler with lastAttempt := some a.now }
    unseen := s.unseen && decide (s.settings ≠ some a.settings)
    turn := some { a with stage := .noted } }

/-- A scheduled attempt is over where the head is the last checkpoint known stamped, and the stamps file holds it. -/
def State.compare (s : State) (a : Attempt) (known : Option Known) (head : CheckpointHead) (readable : Bool) : State :=
  if sameCheckpoint (known.map Known.checkpoint) head then
    match stampsHold (if readable then s.stamps else none) head with
    | none => { s with crashed := true }
    | some true => s.finish
    | some false => s.stage a .checked
  else s.stage a .checked

/-- The settings are read again, and must be the very bytes read first. -/
def State.reread (s : State) (a : Attempt) (readable : Bool) : State :=
  match s.readStamping readable with
  | .found (some now) => if now.raw = a.settings.raw then s.stage a (.stamping now) else s.finish
  | _ => s.finish

/-- A step of the attempt in the turn, with what it is answered. -/
inductive AttemptStep where
  | note
  | runtime (ready : Bool)
  | head (readable : Bool)
  | known
  | compare (readable : Bool)
  | reread (readable : Bool)
  | answer (answer : StampAnswer)
  | know

def State.attempt (s : State) (a : Attempt) : AttemptStep → State
  | .note => match a.stage with
    | .taken => s.note a
    | _ => s
  | .runtime ready => match a.stage with
    | .noted => if ready then s.stage a .asked else s.finish
    | _ => s
  | .head readable => match a.stage with
    | .asked => match (if readable then s.head else none) with
      | some head => s.stage a (.headed head)
      | none => s.finish
    | _ => s
  | .known => match a.stage with
    | .headed head => s.stage a (.knowing s.scheduler.stamped head)
    | _ => s
  | .compare readable => match a.stage with
    | .knowing known head => s.compare a known head readable
    | _ => s
  | .reread readable => match a.stage with
    | .checked => s.reread a readable
    | _ => s
  | .answer answer => match a.stage with
    | .stamping _ => { s.stage a (.answered answer) with answers := s.answers ++ [answer] }
    | _ => s
  | .know => match a.stage with
    | .answered answer => { s with scheduler := s.scheduler.knowStamped answer.word s.answers.length }.finish
    | _ => s

/-- A step of the loop up to the turn. -/
inductive WakeStep where
  | read (readable : Bool)
  | decide
  | turn

def State.wake (s : State) : WakeStep → State
  | .read readable => match s.loop with
    | .idle => { s with loop := .woke (s.readStamping readable) }
    | _ => s
  | .decide => match s.loop with
    | .woke (.found (some settings)) =>
      { s with loop := if s.scheduler.due settings s.now then .due settings s.now else .idle }
    | .woke _ => { s with loop := .idle }
    | _ => s
  | .turn => match s.loop with
    | .due settings now =>
      if s.turn.isSome then { s with loop := .idle }
      else { s with loop := .attempting, turn := some ⟨false, settings, now, .taken⟩ }
    | _ => s

/-- A step of the check at an index. -/
inductive CheckStep where
  | read (passed : Bool) (report : Option AuditReport)
  | know
  | fail

def State.check (s : State) (i : Nat) : CheckStep → State
  | .read passed report => match s.checks[i]? with
    | some (.begun since) =>
      { s with checks := s.checks.set i (.read since (stampingAfterVerify passed report) s.answers.length) }
    | _ => s
  | .know => match s.checks[i]? with
    | some (.read since (some word) asOf) =>
      { s with scheduler := s.scheduler.knowChecked word since asOf, checks := s.checks.eraseIdx i }
    | some (.read _ none _) => { s with checks := s.checks.eraseIdx i }
    | _ => s
  | .fail => { s with checks := s.checks.eraseIdx i }

/-- A step of the loop, of the attempt in the turn, of a Stamp now, of a change of the settings, or of a check; the
clock's; what befalls the trail and the stamps file; and the close. -/
inductive Act where
  | tick (d : Time)
  | wake (w : WakeStep)
  | attempt (a : AttemptStep)
  | request (readable : Bool)
  | requestTurn (i : Nat)
  | change (settings : Option StampingSettings) (confirmed : Bool)
  | settingsChanged
  | checkBegin
  | check (i : Nat) (c : CheckStep)
  | trail (head : Option CheckpointHead)
  | stamps (file : Option (List UInt8))
  | close

def State.request (s : State) (readable : Bool) : State :=
  match s.readStamping readable with
  | .found (some settings) => { s with requests := s.requests ++ [settings] }
  | _ => s

def State.requestTurn (s : State) (i : Nat) : State :=
  match s.requests[i]? with
  | some settings =>
    { s with
      requests := s.requests.eraseIdx i
      turn := if s.turn.isSome then s.turn else some ⟨true, settings, s.now, .taken⟩ }
  | none => s

/-- The settings are written while nothing holds them for reading. -/
def State.change (s : State) (settings : Option StampingSettings) (confirmed : Bool) : State :=
  if s.held then s else { s with settings := settings, changes := if confirmed then s.changes + 1 else s.changes }

def State.settingsChanged (s : State) : State :=
  match s.changes with
  | 0 => s
  | changes + 1 => { s with scheduler := s.scheduler.settingsChanged, changes := changes, unseen := true }

def step (s : State) (act : Act) : State :=
  if s.crashed then s
  else match act with
    | .tick d => { s with now := s.now + d }
    | .wake w => s.wake w
    | .attempt a => match s.turn with
      | some attempt => s.attempt attempt a
      | none => s
    | .request readable => s.request readable
    | .requestTurn i => s.requestTurn i
    | .change settings confirmed => s.change settings confirmed
    | .settingsChanged => s.settingsChanged
    | .checkBegin => { s with checks := s.checks ++ [.begun s.scheduler.generation] }
    | .check i c => s.check i c
    | .trail head => { s with head := head }
    | .stamps file => { s with stamps := file }
    | .close => { s with scheduler := { s.scheduler with closed := true } }

/-- A scheduler as Desk starts it. -/
def State.start (now : Time) (settings : Option StampingSettings) (head : Option CheckpointHead)
    (stamps : Option (List UInt8)) : State :=
  { now := now, settings := settings, head := head, stamps := stamps }

end Stamping

end Desk
