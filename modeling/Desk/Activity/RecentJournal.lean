import Mathlib.Data.List.Sort
import Desk.Lib.Run
import Mathlib.Algebra.Group.Nat.Defs

/-!
# The window of recent activity

The reader of the newest pages of a job's journal (`useRecentJournal`): one
request at a time, towards older or newer entries, and a bound on what is kept.
Runner's journal grows while requests are under way.
-/

namespace Desk

namespace RecentJournal

/-! ## Pages -/

/-- An entry of the journal: its sequence and everything else. -/
structure Entry (α : Type) where
  sequence : Nat
  rest : α

/-- An entry as a page holds it; the sequence is absent where it is no safe integer from zero on. -/
structure JournalEntry (α : Type) where
  sequence : Option Nat
  rest : α

/-- A page as it is answered. A member is absent where it has another type than it should have. -/
structure JournalPage (α : Type) where
  journalBegan : String
  items : Option (List (JournalEntry α))
  next : Option Nat
  more : Option Bool
  before : Option Nat

inductive Direction where
  | tail | before | after
deriving DecidableEq

variable {α : Type}

/-- The loop over the items: the entries, and the sequence of the last one. -/
def readItems (direction : Direction) (cursor : Nat) : Nat → List (JournalEntry α) → Option (List (Entry α) × Nat)
  | previous, [] => some ([], previous)
  | previous, item :: items => do
    let sequence ← item.sequence
    if sequence ≤ previous ∨ direction = .before ∧ cursor ≤ sequence then none
    else
      let (entries, last) ← readItems direction cursor sequence items
      return (⟨sequence, item.rest⟩ :: entries, last)

def readRecentPage (page : JournalPage α) (direction : Direction) (cursor : Nat) : Option (List (Entry α)) := do
  let items ← page.items
  let next ← page.next
  let more ← page.more
  if 50 < items.length ∨ direction ≠ .after ∧ page.before = none then none
  else
    let (entries, previous) ← readItems direction cursor (if direction = .after then cursor else 0) items
    if items ≠ [] ∧ next ≠ previous ∨ direction = .after ∧ next < cursor ∨
      direction ≠ .after ∧ items ≠ [] ∧ page.before ≠ entries.head?.map Entry.sequence ∨ more = true ∧ items = [] then none
    else some entries

/-! ## The reader -/

structure Reader (α : Type) where
  entries : List (Entry α)
  next : Nat
  before : Nat
  more : Bool
  began : Option String
  /-- The direction of the read under way. -/
  busy : Option Direction
  initialized : Bool
  reason : Option String
  failed : Direction
  /-- A read of newer entries is due. -/
  timer : Bool

/-- What is told about older entries. -/
structure BackwardProgress where
  before : Nat
  more : Bool
  busy : Bool
  limit : Bool
  error : Option String

namespace Reader

def backward (keep : Nat) (r : Reader α) : BackwardProgress :=
  ⟨r.before, r.more, r.busy.isSome, decide (keep ≤ r.entries.length), r.reason⟩

def cursor (r : Reader α) : Direction → Nat
  | .before => r.before
  | _ => r.next

/-- The start of `read`. -/
def read (keep : Nat) (direction : Direction) (r : Reader α) : Reader α :=
  if r.busy.isSome ∨ direction = .before ∧ (r.more = false ∨ keep ≤ r.entries.length) then r
  else { r with busy := some direction, reason := none, timer := false }

/-- `Map.prototype.set` by sequence. -/
def setEntry (entries : List (Entry α)) (e : Entry α) : List (Entry α) :=
  if entries.any (fun x => x.sequence == e.sequence) then
    entries.map fun x => if x.sequence = e.sequence then e else x
  else entries ++ [e]

/-- Entries keyed by sequence, in its order. -/
def merged (entries : List (Entry α)) : List (Entry α) :=
  (entries.foldl setEntry []).mergeSort fun a b => decide (a.sequence ≤ b.sequence)

/-- `slice(-keep)`. -/
def newest (keep : Nat) (entries : List (Entry α)) : List (Entry α) :=
  if keep = 0 then entries else entries.drop (entries.length - keep)

/-- No more entries than are kept. -/
def trim (keep : Nat) (r : Reader α) : Reader α :=
  if keep < r.entries.length then
    { r with
      entries := newest keep r.entries
      before := ((newest keep r.entries).head?.map Entry.sequence).getD 0
      more := true }
  else r

/-- What a page that was read changes. -/
def received (keep : Nat) (direction : Direction) (page : JournalPage α) (items : List (Entry α)) (r : Reader α) : Reader α :=
  let r := { r with entries := merged (r.entries ++ items), began := some page.journalBegan }
  let r := if direction = .before then r else { r with next := page.next.getD 0 }
  let r := if direction = .after then r else { r with before := page.before.getD 0, more := page.more.getD false }
  { trim keep r with initialized := true }

/-- The end of a read that stopped. -/
def stopped (direction : Direction) (message : String) (r : Reader α) : Reader α :=
  { r with failed := direction, reason := some message, busy := none }

/-- The end of a page's request. A read of newer entries goes on while there are more. -/
def answered (keep : Nat) (page : JournalPage α) (r : Reader α) : Reader α :=
  match r.busy with
  | none => r
  | some direction =>
    match readRecentPage page direction (r.cursor direction) with
    | none => r.stopped direction "The activity page could not be read."
    | some items =>
      if direction = .after ∧ page.more = some true then received keep direction page items r
      else { received keep direction page items r with busy := none, timer := true }

/-- The end of a request that was not answered. -/
def unanswered (message : String) (r : Reader α) : Reader α :=
  match r.busy with
  | none => r
  | some direction => r.stopped direction message

/-- The timer runs out. -/
def refresh (keep : Nat) (r : Reader α) : Reader α :=
  if r.timer = true then read keep .after { r with timer := false } else r

/-- The retry is offered with a reason only. -/
def resume (keep : Nat) (r : Reader α) : Reader α := if r.reason.isSome then read keep r.failed r else r

/-- The reader before its first request. -/
def empty : Reader α := ⟨[], 0, 0, false, none, none, false, none, .tail, false⟩

end Reader

/-! ## Runner -/

/-- The job's journal, and a number that every later sequence is above. -/
structure Journal (α : Type) where
  entries : List (Entry α)
  head : Nat

/-- Strictly increasing positive sequences. -/
structure Journal.Valid (j : Journal α) : Prop where
  sorted : (j.entries.map Entry.sequence).Pairwise (· < ·)
  positive : ∀ e ∈ j.entries, 0 < e.sequence
  le_head : ∀ e ∈ j.entries, e.sequence ≤ j.head

/-- A number as it arrives. -/
def safe (n : Nat) : Option Nat := if n < 2 ^ 53 then some n else none

def serve (e : Entry α) : JournalEntry α := ⟨safe e.sequence, e.rest⟩

/-- Which entries the page holds, among all. -/
def Holds (direction : Direction) (cursor : Nat) (older items newer : List (Entry α)) : Prop :=
  match direction with
  | .tail => newer = [] ∧ (items = [] → older = [])
  | .before => (∀ e ∈ older ++ items, e.sequence < cursor) ∧ (∀ e ∈ newer, cursor ≤ e.sequence) ∧ (items = [] → older = [])
  | .after => (∀ e ∈ older, e.sequence ≤ cursor) ∧ (∀ e ∈ items ++ newer, cursor < e.sequence) ∧ (items = [] → newer = [])

/-- The page is a faithful answer. -/
def Answers (j : Journal α) (direction : Direction) (cursor : Nat) (page : JournalPage α) : Prop :=
  ∃ older items newer, j.entries = older ++ items ++ newer ∧ Holds direction cursor older items newer ∧ items.length ≤ 50 ∧
    page.items = some (items.map serve) ∧
    page.more = some (!(if direction = .after then newer else older).isEmpty) ∧
    (direction ≠ .after → ∀ e, items.head? = some e → page.before = safe e.sequence) ∧
    (∀ e, items.getLast? = some e → page.next = safe e.sequence) ∧
    (items = [] → ∃ n, page.next = some n ∧ n ≤ j.head ∧ (direction = .after → cursor ≤ n))

/-! ## The two together -/

structure World (α : Type) where
  journal : Journal α
  reader : Reader α

inductive Action (α : Type) where
  /-- Runner writes an entry. -/
  | grow (e : Entry α)
  /-- Runner uses a sequence elsewhere. -/
  | advance (n : Nat)
  | older
  | refresh
  | resume
  | answered (page : JournalPage α)
  | unanswered (message : String)

def step (keep : Nat) (w : World α) : Action α → World α
  | .grow e => { w with journal := ⟨w.journal.entries ++ [e], e.sequence⟩ }
  | .advance n => { w with journal := { w.journal with head := max w.journal.head n } }
  | .older => { w with reader := w.reader.read keep .before }
  | .refresh => { w with reader := w.reader.refresh keep }
  | .resume => { w with reader := w.reader.resume keep }
  | .answered page => { w with reader := w.reader.answered keep page }
  | .unanswered message => { w with reader := w.reader.unanswered message }

/-- What Runner may do. -/
def Faithful (w : World α) : Action α → Prop
  | .grow e => w.journal.head < e.sequence
  | .answered page => ∀ direction, w.reader.busy = some direction →
      Answers w.journal direction (w.reader.cursor direction) page
  | _ => True

/-- The page is opened: the tail is asked for. -/
def opened (keep : Nat) (j : Journal α) : World α := ⟨j, Reader.empty.read keep .tail⟩

end RecentJournal

end Desk
