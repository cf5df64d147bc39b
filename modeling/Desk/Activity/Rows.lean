import Mathlib.Data.List.Lex
import Mathlib.Data.List.Sort
import Mathlib.Data.Prod.Lex
import Mathlib.Order.WithBot
import Desk.Lib.JsonText

/-!
# The rows of the Activity tab

One row of each loaded run and occurrence, at the place of the journal entry that
created it or by the time it was first recorded, merged with the journal's entries;
what a record not yet loaded could stand above is held back. `Date.parse` is a given
function, and so is the filter of the rows.
-/

namespace Desk

namespace Activity

/-! ## Records -/

inductive StampName where
  | submitted | started | finished | interruption | received | scheduled | preparationStarted
deriving DecidableEq

/-- A stored time, and what it records. -/
structure Stamp where
  name : StampName
  at_ : Units
  time : Int
deriving DecidableEq

inductive Requester where
  | installation
  | trigger (triggerId : Units) (revision : Option Int) (triggerKind : Option Units)
  | unrecorded
deriving DecidableEq

structure TriggerOrigin where
  triggerId : Units
  triggerRevision : Int
  kind : Units
deriving DecidableEq

inductive RunState where
  | queued | running | completed | failed | interrupted
deriving DecidableEq

structure Run where
  id : Units
  releaseId : Units
  state : RunState
  createdAt : Units
  startedAt : Option Units
  finishedAt : Option Units
  requestedBy : Option Units
  trigger : Option TriggerOrigin
deriving DecidableEq

inductive OccurrenceState where
  | accepted | preparing | waiting | needsAttention | cancelled | submitted | skipped | failed | expired
deriving DecidableEq

/-- Of the preparation, the time it started at. -/
structure Occurrence where
  id : Units
  releaseId : Units
  triggerId : Units
  triggerRevision : Int
  kind : Units
  scheduledAt : Option Units
  receivedAt : Units
  state : OccurrenceState
  preparation : Option Units
deriving DecidableEq

inductive ActivityKind where
  | run | occurrence | preparation
deriving DecidableEq

inductive RowState where
  | queued | running | completed | failed | interrupted | received | skipped | expired | cancelled | waiting | needsAttention
deriving DecidableEq

structure ActivityRow where
  key : Units
  kind : ActivityKind
  state : RowState
  /-- The time Runner first recorded the record. -/
  first : Stamp
  also : List Stamp
  by_ : Requester
  releaseId : Units
  record : Run ⊕ Occurrence
deriving DecidableEq

section
variable (dateParse : Units → Option Int)

/-- A stored time, or nothing. -/
def stamp (name : StampName) (at_ : Option Units) : Option Stamp := do
  let at_ ← at_
  if at_ = [] then none
  return ⟨name, at_, ← dateParse at_⟩

def triggerWord : Units := wordText "trigger:"

def requesterOf (requestedBy : Option Units) (trigger : Option TriggerOrigin) : Requester :=
  let from_ := requestedBy.getD []
  if triggerWord.isPrefixOf from_ then
    let triggerId := from_.drop triggerWord.length
    let origin := trigger.filter fun origin => origin.triggerId == triggerId
    .trigger triggerId (origin.map TriggerOrigin.triggerRevision) (origin.map TriggerOrigin.kind)
  else if from_ = [] then .unrecorded
  else .installation

def RunState.row : RunState → RowState
  | .queued => .queued
  | .running => .running
  | .completed => .completed
  | .failed => .failed
  | .interrupted => .interrupted

def runKey (id : Units) : Units := wordText "run:" ++ id

def occurrenceKey (id : Units) : Units := wordText "occurrence:" ++ id

def runRow (run : Run) : Option ActivityRow := do
  let first ← stamp dateParse .submitted (some run.createdAt)
  let ended := match run.state with
    | .interrupted => stamp dateParse .interruption run.finishedAt
    | .completed | .failed => stamp dateParse .finished run.finishedAt
    | .queued | .running => none
  return {
    key := runKey run.id, kind := .run, state := run.state.row, first := first
    also := [stamp dateParse .started run.startedAt, ended].reduceOption
    by_ := requesterOf run.requestedBy run.trigger, releaseId := run.releaseId, record := .inl run }

/-- The state of an occurrence's row, and whether it reads as a preparation. -/
def Occurrence.row (o : Occurrence) : RowState × Bool :=
  match o.state with
  | .waiting => if o.preparation.isSome then (.waiting, true) else (.received, false)
  | .needsAttention => if o.preparation.isSome then (.needsAttention, true) else (.received, false)
  | .skipped => (.skipped, false)
  | .expired => (.expired, false)
  | .failed => (.failed, false)
  | .cancelled => (.cancelled, false)
  | .accepted | .preparing | .submitted => (.received, false)

def occurrenceRow (o : Occurrence) : Option ActivityRow := do
  let first ← stamp dateParse .received (some o.receivedAt)
  let (state, preparing) := o.row
  return {
    key := occurrenceKey o.id, kind := if preparing then .preparation else .occurrence, state := state, first := first
    also := [stamp dateParse .scheduled o.scheduledAt, stamp dateParse .preparationStarted o.preparation].reduceOption
    by_ := .trigger o.triggerId (some o.triggerRevision) (some o.kind), releaseId := o.releaseId, record := .inr o }

end

/-! ## The journal -/

/-- What the merge reads of an entry: its kind and the ids it concerns where they are strings, whether it is from
`null`, and its sequence as a template literal spells it. -/
structure JournalEntry where
  sequence : Units
  kind : Option Units
  fromNull : Bool
  run : Option Units
  occurrence : Option Units
deriving DecidableEq

/-- The key of the record that the entry created. -/
def JournalEntry.creates (entry : JournalEntry) : Option Units :=
  match entry.kind with
  | none => none
  | some kind =>
    if kind = wordText "run.queued" ∧ entry.run.isSome then entry.run.map runKey
    else if (wordText "occurrence.").isPrefixOf kind ∧ entry.fromNull = true then entry.occurrence.map occurrenceKey
    else none

/-- One step of `forEach`; a key keeps its first place. -/
def noteCreation (places : List (Units × Nat)) (entry : JournalEntry × Nat) : List (Units × Nat) :=
  match entry.1.creates with
  | some key => if (places.lookup key).isSome then places else places ++ [(key, entry.2)]
  | none => places

def creations (entries : List JournalEntry) : List (Units × Nat) := entries.zipIdx.foldl noteCreation []

/-- The entries kept, how many before them were not, the place of the oldest to show, and whether entries are rows. -/
structure JournalWindow where
  entries : List JournalEntry
  dropped : Nat
  from_ : Nat
  show_ : Bool
  sequence : Bool

/-! ## Places -/

/-- `(0, time)`, or `(1, place)` with the place counted in halves; more is newer. -/
abbrev Spot : Type := ℕ ×ₗ ℤ

/-- With what is above and what is below every place. -/
abbrev Place : Type := WithBot (WithTop Spot)

-- the order of the places is computed
instance : LinearOrder Spot := @Prod.Lex.instLinearOrder ℕ ℤ Nat.instLinearOrder Int.instLinearOrder

instance : PartialOrder Spot := LinearOrder.toPartialOrder

instance : Preorder Spot := PartialOrder.toPreorder

def timeSpot (time : Int) : Spot := toLex (0, time)

def entrySpot (place : Nat) : Spot := toLex (1, 2 * place)

def createdSpot (place : Nat) : Spot := toLex (1, 2 * place + 1)

def Spot.place (s : Spot) : Place := ((s : WithTop Spot) : Place)

/-- Where the row of a record stands, given where the journal created it. -/
def spotOf (created : Units → Option Nat) (row : ActivityRow) : Spot :=
  match created row.key with
  | none => timeSpot row.first.time
  | some place => createdSpot place

/-- Down to where a list with more pages is known: the creating entry of its oldest loaded record is not held. -/
def floorSpot (s : Spot) : Spot := if (ofLex s).1 = 1 then toLex (1, (ofLex s).2 - 1) else s

def lowest (a b : Place) : Place := if b < a then b else a

def nothingShown : Place := ((⊤ : WithTop Spot) : Place)

def floor (created : Units → Option Nat) (rows : List ActivityRow) : Place :=
  rows.foldl (fun oldest row => lowest oldest (floorSpot (spotOf created row)).place) nothingShown

/-! ## Merging -/

structure Loaded (T : Type) where
  records : List T
  more : Bool

inductive StreamName where
  | runs | occurrences
deriving DecidableEq

structure JournalRow where
  key : Units
  entry : JournalEntry
  place : Nat
deriving DecidableEq

inductive ShownRow where
  | record (row : ActivityRow)
  | journal (row : JournalRow)
deriving DecidableEq

def ShownRow.key : ShownRow → Units
  | .record row => row.key
  | .journal row => row.key

def ShownRow.record? : ShownRow → Option ActivityRow
  | .record row => some row
  | .journal _ => none

def ShownRow.isJournal : ShownRow → Bool
  | .record _ => false
  | .journal _ => true

structure Placed where
  row : ShownRow
  at_ : Spot
deriving DecidableEq

/-- Newest first, then by key as its code units compare. -/
def Placed.rank (p : Placed) : Spotᵒᵈ ×ₗ List ℕ := toLex (OrderDual.toDual p.at_, p.row.key.map UInt16.toNat)

def Placed.before (a b : Placed) : Prop := a.rank ≤ b.rank

instance : DecidableRel Placed.before := fun a b => inferInstanceAs (Decidable (a.rank ≤ b.rank))

structure Merged where
  rows : List ActivityRow
  shown : List ShownRow
  held : Nat
  heldEntries : Nat
  limiting : List StreamName

/-- Where the journal created a record, every entry counted, kept or not. -/
def createdIn (journal : Option JournalWindow) (key : Units) : Option Nat :=
  journal.bind fun journal => ((creations journal.entries).lookup key).map (journal.dropped + ·)

def placeRecord (created : Units → Option Nat) (row : ActivityRow) : Placed := ⟨.record row, spotOf created row⟩

def placeEntry (journal : JournalWindow) (entry : JournalEntry × Nat) : Placed :=
  let place := journal.dropped + entry.2
  ⟨.journal ⟨wordText "journal:" ++ if journal.sequence then entry.1.sequence else natText place, entry.1, place⟩,
    entrySpot place⟩

/-- The entries of the window, where entries are rows. -/
def windowed (journal : Option JournalWindow) : List Placed :=
  match journal with
  | none => []
  | some journal =>
    if journal.show_ then (journal.entries.zipIdx.drop (journal.from_ - journal.dropped)).map (placeEntry journal) else []

/-- The lists with more pages, each with its floor. -/
def floors (created : Units → Option Nat) (runs occurrences : List ActivityRow) (moreRuns moreOccurrences : Bool) :
    List (StreamName × Place) :=
  (if moreRuns then [(.runs, floor created runs)] else []) ++
    if moreOccurrences then [(.occurrences, floor created occurrences)] else []

def raise (boundary : Place) (floor : StreamName × Place) : Place := if boundary < floor.2 then floor.2 else boundary

def rowsOf {T : Type} (row : T → Option ActivityRow) (stream : Option (Loaded T)) : List ActivityRow :=
  ((stream.map Loaded.records).getD []).filterMap row

def hasMore {T : Type} (stream : Option (Loaded T)) : Bool := (stream.map Loaded.more).getD false

def mergeActivity (dateParse : Units → Option Int) (runs : Option (Loaded Run)) (occurrences : Option (Loaded Occurrence))
    (keep : ActivityRow → Bool) (journal : Option JournalWindow) : Merged :=
  let builtRuns := rowsOf (runRow dateParse) runs
  let builtOccurrences := rowsOf (occurrenceRow dateParse) occurrences
  let created := createdIn journal
  let floors := floors created builtRuns builtOccurrences (hasMore runs) (hasMore occurrences)
  let boundary := floors.foldl raise ⊥
  let records := ((builtRuns ++ builtOccurrences).filter keep).map (placeRecord created)
  let placed := (records ++ windowed journal).insertionSort Placed.before
  let shown := (placed.filter fun item => decide (boundary ≤ item.at_.place)).map Placed.row
  { rows := shown.filterMap ShownRow.record?
    shown := shown
    held := placed.length - shown.length
    heldEntries := (windowed journal).length - (shown.filter ShownRow.isJournal).length
    limiting := (floors.filter fun floor => floor.2 = boundary).map Prod.fst }

end Activity

end Desk
