import Desk.Stamping.Scheduler

/-!
# The checkpoints of a hand-over

`readCheckpoints` asks the runtime for the checkpoints after a cursor, batch
after batch, and joins what it prints. The runtime is asked again after the
last line received, and may answer from a longer trail each time.
-/

namespace Desk

namespace Handover

open Stamping (CheckpointHead)

def handoverBatch : Nat := 300

def handoverBatches : Nat := 20

def newline : UInt8 := 10

def readCheckpointLine (document : List UInt8) : Option CheckpointHead :=
  (Json.charsOf document).bind Stamping.readCheckpointLine

/-- `audit checkpoint --since n --limit k`. -/
structure Call where
  since : Int
  limit : Nat

/-- What each command answers: its output, or why it failed. -/
abbrev Runtime : Type := Nat → Call → Except String (List UInt8)

structure Checkpoints where
  data : List UInt8
  through : Int
  more : Bool
deriving DecidableEq

/-- `errCheckpointsChanged` -/
def checkpointsChanged : String := "the trail changed while Desk read its checkpoints"

/-- `bytes.SplitAfter` at newlines. -/
def splitAfter : List UInt8 → List (List UInt8)
  | [] => [[]]
  | c :: rest =>
    if c = newline then [c] :: splitAfter rest
    else match splitAfter rest with
      | [] => [[c]]
      | line :: lines => (c :: line) :: lines

/-- A batch that is read to its end, or one with the line asked for. -/
inductive Batch where
  | read (received : Nat) (data : List UInt8) (last : Int)
  | reached (checkpoints : Checkpoints)
deriving DecidableEq

/-- The loop over the lines of a batch. -/
def readLines (identity : String) (through : Int) : List (List UInt8) → Nat → List UInt8 → Int → Except String Batch
  | [], received, data, last => return .read received data last
  | line :: rest, received, data, last =>
    if line = [] then readLines identity through rest received data last
    else if line.getLast? ≠ some newline then throw "the runtime's audit checkpoint did not end its last line"
    else match readCheckpointLine line.dropLast with
      | none => throw "the runtime's audit checkpoint printed a line that is not a checkpoint"
      | some checkpoint =>
        if checkpoint.identity ≠ identity then throw checkpointsChanged
        else if checkpoint.sequence ≤ last then throw "the runtime's audit checkpoint printed its checkpoints out of order"
        -- past the record read first, which is then no longer a chained record of this trail
        else if through < checkpoint.sequence then throw checkpointsChanged
        else if checkpoint.sequence = through then return .reached ⟨data ++ line, checkpoint.sequence, false⟩
        else readLines identity through rest (received + 1) (data ++ line) checkpoint.sequence

/-- The loop over the batches: how many are left, and which command is next. -/
def readBatches (runtime : Runtime) (identity : String) (through : Int) :
    Nat → Nat → List UInt8 → Int → Except String Checkpoints
  | 0, _, data, last => return ⟨data, last, true⟩
  | left + 1, next, data, last => do
    let out ← runtime next ⟨last, handoverBatch⟩
    match ← readLines identity through (splitAfter out) 0 data last with
    | .reached checkpoints => return checkpoints
    | .read received data last =>
      if received < handoverBatch then throw checkpointsChanged
      else readBatches runtime identity through left (next + 1) data last

def readCheckpoints (runtime : Runtime) (identity : String) (from_ through : Int) : Except String Checkpoints :=
  readBatches runtime identity through handoverBatches 0 [] from_

/-! ## The runtime that is documented -/

/-- A chained record of a trail, and the checkpoint the runtime prints for it. -/
structure ChainedRecord where
  sequence : Nat
  checkpoint : List UInt8

/-- The chained records of a trail in the order of their sequences. -/
structure Trail (identity : String) where
  records : List ChainedRecord
  ordered : records.Pairwise fun r s => r.sequence < s.sequence
  printed : ∀ r ∈ records, newline ∉ r.checkpoint ∧
    ∃ digest, readCheckpointLine r.checkpoint = some ⟨identity, r.sequence, digest⟩

/-- The checkpoints of the records, a line each. -/
def linesOf (records : List ChainedRecord) : List UInt8 := records.flatMap fun r => r.checkpoint ++ [newline]

/-- The first checkpoints after a cursor. -/
def Trail.answer {identity : String} (T : Trail identity) (call : Call) : List UInt8 :=
  linesOf ((T.records.filter fun r => decide (call.since < r.sequence)).take call.limit)

/-- The runtime over a trail as it is at each command. -/
def trailRuntime {identity : String} (trails : Nat → Trail identity) : Runtime := fun next call =>
  .ok ((trails next).answer call)

/-- The records after one sequence, up to and with another. -/
def window (records : List ChainedRecord) (from_ through : Int) : List ChainedRecord :=
  records.filter fun r => decide (from_ < r.sequence ∧ (r.sequence : Int) ≤ through)

end Handover

end Desk
