import Desk.Lib.Run
import Desk.Lib.Units
import Mathlib.Algebra.Group.Nat.Defs

/-!
# The document buffer

`useDocumentBuffer` as its calls move it. React state is kept as the queued
updates leave it, a ref as it stands now, and `Drawn` is what the callbacks
read of the last render. The listeners a discard and an adoption tell hold no
part of the buffer.
-/

namespace Desk

/-- How many committed actions can be taken back. -/
def UNDO_DEPTH : Nat := 50

/-- What the buffer reads of a file. -/
structure FileContent where
  path : Units
  sha256 : Units
  content : Units
deriving DecidableEq

/-- Which document a buffer is holding, and which incarnation of it. -/
structure BufferIdentity where
  path : Units
  generation : Nat
  revision : Nat
deriving DecidableEq

/-- One entry on the stack: the bytes, and what was being typed into. -/
structure Snapshot where
  text : Units
  coalesceKey : Option Units
deriving DecidableEq

/-- The last render: the hook's arguments, the state it drew and the identity it handed out. -/
structure Drawn where
  loaded : Option FileContent
  otherWork : Bool
  base : Option FileContent
  stack : List Snapshot
  waiting : Option FileContent
  revision : Nat
  dirty : Bool
  identity : Option BufferIdentity
deriving DecidableEq

structure DocumentBuffer where
  base : Option FileContent
  text : Option Units
  /-- The top is last. -/
  stack : List Snapshot
  waiting : Option FileContent
  revision : Nat
  generation : Nat
  current : Option Units
  edits : Nat
  seeded : Option Units
  generationNow : Nat
  drawn : Drawn
deriving DecidableEq

/-- `n + 1` on a JavaScript number: from 2^53 on it stays where it is. -/
def increment (n : Nat) : Nat := if n < 2 ^ 53 then n + 1 else n

namespace DocumentBuffer

/-- The hook as it is mounted, before anything is loaded. -/
def mounted : DocumentBuffer where
  base := none
  text := none
  stack := []
  waiting := none
  revision := 0
  generation := 0
  current := none
  edits := 0
  seeded := none
  generationNow := 0
  drawn :=
    { loaded := none, otherWork := false, base := none, stack := [], waiting := none, revision := 0, dirty := false,
      identity := none }

/-- A byte comparison against the base. -/
def dirty (b : DocumentBuffer) : Bool :=
  match b.text, b.base with
  | some text, some base => text != base.content
  | _, _ => false

def canUndo (b : DocumentBuffer) : Bool := !b.drawn.stack.isEmpty

/-- What this buffer is about, from the refs. -/
def identityNow (b : DocumentBuffer) : Option BufferIdentity :=
  b.seeded.map fun path => ⟨path, b.generationNow, b.edits⟩

/-- What this buffer is about now, for a caller that must outlive an await. -/
def identity (b : DocumentBuffer) : Option BufferIdentity := b.drawn.identity

/-- React draws the queued state for these arguments. -/
def render (b : DocumentBuffer) (loaded : Option FileContent) (otherWork : Bool) : DocumentBuffer :=
  { b with
    current := b.text
    drawn :=
      { loaded, otherWork, base := b.base, stack := b.stack, waiting := b.waiting, revision := b.revision,
        dirty := b.dirty, identity := b.identityNow } }

def edited (b : DocumentBuffer) : DocumentBuffer :=
  { b with edits := increment b.edits, revision := increment b.edits }

def adopt (b : DocumentBuffer) (fresh : FileContent) : DocumentBuffer :=
  { b with
    seeded := some fresh.path, base := some fresh, current := some fresh.content, text := some fresh.content,
    stack := [], waiting := none }

/-- The effect that follows the file the last render was given. -/
def follow (b : DocumentBuffer) : DocumentBuffer :=
  match b.drawn.loaded with
  | none => b
  | some loaded =>
    if b.seeded = some loaded.path then { b with waiting := none }
    else if b.seeded.isSome && (b.drawn.dirty || b.drawn.otherWork) then { b with waiting := some loaded }
    else b.adopt loaded

/-- Whether the last entry is already about the field being typed into. -/
def coalesces (entries : List Snapshot) (key : Option Units) : Bool :=
  match key, entries.getLast? with
  | some key, some top => top.coalesceKey == some key
  | _, _ => false

/-- The stack with one more entry: past the depth the oldest goes. -/
def pushed (entries : List Snapshot) (previous : Units) (key : Option Units) : List Snapshot :=
  if coalesces entries key then entries
  else
    let grown := entries ++ [⟨previous, key⟩]
    if UNDO_DEPTH < grown.length then grown.drop (grown.length - UNDO_DEPTH) else grown

def commit (b : DocumentBuffer) (next : Units) (key : Option Units) : DocumentBuffer :=
  match b.current with
  | none => { b with text := some next }
  | some previous =>
    { b.edited with stack := pushed b.stack previous key, current := some next, text := some next }

def undo (b : DocumentBuffer) : DocumentBuffer :=
  match b.drawn.stack.getLast? with
  | none => b
  | some top =>
    { b.edited with current := some top.text, text := some top.text, stack := b.drawn.stack.dropLast }

def discard (b : DocumentBuffer) : DocumentBuffer :=
  match b.drawn.base with
  | none => { b.edited with stack := [] }
  | some base => { b.edited with current := some base.content, text := some base.content, stack := [] }

/-- Work this buffer cannot see. -/
def touch (b : DocumentBuffer) : DocumentBuffer := b.edited

def rebase (b : DocumentBuffer) (fresh : FileContent) (expect : Option BufferIdentity) : DocumentBuffer × Bool :=
  match expect with
  | none => (b.adopt fresh, true)
  | some expect =>
    if expect.generation ≠ b.generationNow then (b, false)
    else if expect.revision ≠ b.edits then (b, false)
    else if b.seeded ≠ none ∧ b.seeded ≠ some expect.path then (b, false)
    else if fresh.path ≠ expect.path then (b, false)
    else (b.adopt fresh, true)

/-- What a verified write made by another host surface is told to this hook. -/
def verifiedWrite (b : DocumentBuffer) (beforeSha256 : Units) (file : FileContent) : DocumentBuffer :=
  match b.drawn.base with
  | none => b
  | some base =>
    if b.drawn.loaded.map (·.path) ≠ some file.path ∨ b.seeded ≠ some file.path ∨ base.path ≠ file.path ∨
        base.sha256 ≠ beforeSha256 ∨ b.current ≠ some base.content ∨ b.drawn.otherWork = true ∨
        b.edits ≠ b.drawn.revision then b
    else (b.edited.rebase file (some ⟨base.path, b.edited.generationNow, b.edited.edits⟩)).1

/-- A save that was not refused. -/
def moved (b : DocumentBuffer) (fresh : FileContent) (submitted : Units) : DocumentBuffer :=
  let b := { b with seeded := some fresh.path, base := some fresh, waiting := none }
  -- Only a save that carried everything replaces the buffer.
  if b.current ≠ some submitted ∨ fresh.content ≠ submitted then b
  else { b with current := some fresh.content, text := some fresh.content, stack := [] }

def landed (b : DocumentBuffer) (fresh : FileContent) (submitted : Units) (expect : Option BufferIdentity) :
    DocumentBuffer × Bool :=
  match expect with
  | none => (b.moved fresh submitted, true)
  | some expect =>
    if expect.generation ≠ b.generationNow then (b, false)
    else if b.seeded ≠ none ∧ b.seeded ≠ some expect.path then (b, false)
    else if fresh.path ≠ expect.path then (b, false)
    else (b.moved fresh submitted, true)

def takeWaiting (b : DocumentBuffer) : DocumentBuffer :=
  match b.drawn.waiting with
  | none => b
  | some waiting => if b.drawn.loaded.map (·.path) ≠ some waiting.path then b else b.adopt waiting

def forget (b : DocumentBuffer) : DocumentBuffer :=
  { b with
    seeded := none, generationNow := increment b.generationNow, generation := increment b.generationNow,
    base := none, current := none, text := none, stack := [], waiting := none }

/-! ## Runs -/

/-- Whatever moves the buffer, with all that the page and the answers chose. -/
inductive Call where
  | render (loaded : Option FileContent) (otherWork : Bool)
  | follow
  | commit (next : Units) (key : Option Units)
  | undo
  | discard
  | touch
  | rebase (fresh : FileContent) (expect : Option BufferIdentity)
  | verifiedWrite (beforeSha256 : Units) (file : FileContent)
  | landed (fresh : FileContent) (submitted : Units) (expect : Option BufferIdentity)
  | takeWaiting
  | forget
deriving DecidableEq

def call (b : DocumentBuffer) : Call → DocumentBuffer
  | .render loaded otherWork => b.render loaded otherWork
  | .follow => b.follow
  | .commit next key => b.commit next key
  | .undo => b.undo
  | .discard => b.discard
  | .touch => b.touch
  | .rebase fresh expect => (b.rebase fresh expect).1
  | .verifiedWrite beforeSha256 file => b.verifiedWrite beforeSha256 file
  | .landed fresh submitted expect => (b.landed fresh submitted expect).1
  | .takeWaiting => b.takeWaiting
  | .forget => b.forget

/-- The buffer after these calls on a freshly mounted hook. -/
def after (calls : List Call) : DocumentBuffer := run call mounted calls

end DocumentBuffer

end Desk
