import Desk.Lib.Saves
import Desk.Publication.Snapshot

/-!
# Publication transactions

A lock found on disk is entered in the ledger before another takes its place,
the versions of a candidate are checked against it and the ledger, and the
reviews it was accepted with are staged before the Runtime writes its lock.
-/

namespace Desk

namespace Publication

open Saves

/-- A lock written over another: the other, what Desk accepted it with, and the ledger then. -/
structure Replaced where
  lock : Bytes
  accepted : Option (List RetainedArtifactRef)
  items : List ArtifactPublication

/-- The files of a project. No program reads the last two fields: what the lock was accepted
with, if Desk wrote it, and the locks written over. -/
structure Disk where
  history : Option PublicationLedger := none
  pending : Option ArtifactPublication := none
  lock : Option Bytes := none
  copies : Table Bytes := Table.empty
  accepted : Option (List RetainedArtifactRef) := none
  replaced : List Replaced := []

def Disk.ledger (d : Disk) : PublicationLedger := d.history.getD {}

def Disk.items (d : Disk) : List ArtifactPublication := d.ledger.items

/-- What a call takes from outside. -/
structure Outside where
  now : String
  clock : now ≠ ""
  /-- Whether the artifact store keeps a text. -/
  keeps : Bytes → Bool
  /-- A retained review, by its reference. -/
  retained : RetainedArtifactRef → Option ArtifactReview
  /-- Whether the latest review of a row can be read. -/
  latest : String → Bool

variable (e : Tools) (o : Outside)

def maxFileBytes : Nat := 4 * 2 ^ 20

def errRetainedArtifactChanged : String := "retained artifact does not match its content identity"

/-! ## The artifact store -/

def Outside.put (raw : Bytes) : Except String Unit :=
  if retainedArtifactByteLimit < raw.length then .error "retained artifact exceeds its storage limit"
  else if o.keeps raw then .ok () else .error errRetainedArtifactChanged

def putAll : List Bytes → Except String Unit
  | [] => .ok ()
  | raw :: rest => do
    o.put raw
    putAll rest

def retainPublicationSnapshot (snap : ReviewSnapshot) : Except String Unit :=
  putAll o (snap.config :: snap.docs.map (·.data))

/-! ## Reviewed copies -/

/-- The bytes of a digest: the snapshot's, or a copy's. -/
def readPrior (copies : Table Bytes) (snap : ReviewSnapshot) (digest : String) : Except String Bytes :=
  match snap.bytesOf digest with
  | some data => .ok data
  | none =>
    match copyName digest with
    | none => .error "Invalid reviewed content identity."
    | some name =>
      match copies.get? name with
      | none => .error "file does not exist"
      | some data =>
        if reviewTextLimit < data.length then .error "file is too large"
        else if e.sha256Digest data ≠ digest then .error errRetainedArtifactChanged
        else .ok data

/-- A copy of each locked text, under the name of its digest. -/
def storeCopies (snap : ReviewSnapshot) : List String → Saves Disk String Unit
  | [] => pure ()
  | digest :: rest =>
    match copyName digest, snap.bytesOf digest with
    | some name, some data => do
      if e.sha256Digest data ≠ digest then refuse s!"no verified bytes for {digest}"
      let disk ← load
      if (disk.copies.get? name).any fun kept => decide (kept.length ≤ maxFileBytes) && e.sha256Digest kept == digest then
        storeCopies snap rest
      else
        save fun d => { d with copies := d.copies.set name data }
        storeCopies snap rest
    | _, _ => refuse s!"no verified bytes for {digest}"

def storeReviewedCopies (snap : ReviewSnapshot) : Saves Disk String Unit :=
  storeCopies e snap (snap.set.config :: snap.set.entries.map (·.digest))

/-! ## The lock found -/

/-- The bytes a lock pins, and nothing in their place. -/
def priorSnapshot (copies : Table Bytes) (snap : ReviewSnapshot) (prior : ReviewSet) : Except String ReviewSnapshot := do
  let config ← readPrior e copies snap prior.config
  let docs ← prior.entries.mapM fun entry => do
    let data ← readPrior e copies snap entry.digest
    return ({ entry, data } : SnapshotDocument)
  return { set := prior, config, docs }

def readPendingPublication : Option ArtifactPublication → Except String (Option ArtifactPublication)
  | none => .ok none
  | some p =>
    if publicationLedgerLimit < e.publicationSize p then .error "file is too large"
    else if p.id ≠ publicationID e p ∨ p.dialect.isSome ∨ ¬p.config.any (·.valid) then
      .error "Pending publication review is unreadable."
    else if ¬p.reviews.all (·.valid) then .error errRetainedArtifactChanged
    else .ok (some p)

/-- The publication of the lock found: as it was staged, or as an import. -/
def savedPublication (pending : Option ArtifactPublication) (old : ReviewSnapshot) :
    Except String ArtifactPublication := do
  let saved ← publicationFromSnapshot e old o.now
  let pending ← readPendingPublication e pending
  match pending with
  | some p => if samePublicationContent e p saved then return p else return { saved with imported := true }
  | none => return { saved with imported := true }

def writePublicationLedger (ledger : PublicationLedger) : Saves Disk String Unit := do
  let ledger ← lift (encodePublicationLedger e ledger)
  let disk ← load
  if disk.history = some ledger then return ()
  save fun d => { d with history := some ledger }

/-- The ledger with the lock found, and its publication. -/
def recoverLock (snap : ReviewSnapshot) (ledger : PublicationLedger) :
    Saves Disk String (PublicationLedger × Option ArtifactPublication) :=
  match snap.lock.bind (lockedSet e) with
  | none => pure (ledger, none)
  | some prior => do
    let disk ← load
    let old ← lift (priorSnapshot e disk.copies snap prior)
    let saved ← lift (savedPublication e o disk.pending old)
    lift (retainPublicationSnapshot o old)
    match ledger.items.find? fun entry => samePublicationContent e entry saved with
    | some entry => pure (ledger, some entry)
    | none => do
      lift (admitPublication ledger saved.documents)
      let ledger := { ledger with items := ledger.items ++ [saved] }
      -- the lock is a durable publication already: it is entered before another replaces it
      writePublicationLedger e ledger
      pure (ledger, some saved)

structure Transaction where
  ledger : PublicationLedger
  candidate : ArtifactPublication
  base : Option ArtifactPublication := none

def beginPublication (snap : ReviewSnapshot) : Saves Disk String Transaction := do
  let disk ← load
  let ledger ← lift (readPublicationLedger e disk.history)
  let candidate ← lift (publicationFromSnapshot e snap o.now)
  let (ledger, base) ← recoverLock e o snap ledger
  lift (admitPublication ledger candidate.documents)
  lift (retainPublicationSnapshot o snap)
  storeReviewedCopies e snap
  let _ ← lift (encodePublicationLedger e (withCandidate ledger candidate))
  return { ledger, candidate, base }

def Transaction.commit (p : Transaction) : Saves Disk String Unit :=
  writePublicationLedger e (withCandidate p.ledger p.candidate)

/-! ## Versions -/

/-- The answers had so far, by the two texts joined. -/
abbrev Checked : Type := List (String × Comparison)

def compareVersions (rt : Runtime) (checked : Checked) (base candidate : String) : Except String (Comparison × Checked) :=
  let key := base ++ "/" ++ candidate
  match checked.lookup key with
  | some answer => .ok (answer, checked)
  | none =>
    if 256 ≤ checked.length then .error "Too many distinct artifact version comparisons in one publication."
    else
      match rt.compare base candidate with
      | none => .error "Runtime could not verify the artifact version change. Use a Runtime with artifact version tooling before publishing."
      | some answer => .ok (answer, (key, answer) :: checked)

/-- The candidate is later than every one of `bases`. -/
def checkFloor (rt : Runtime) (candidate : PublishedDocument) : List PublishedDocument → Checked → Except String Checked
  | [], checked => .ok checked
  | saved :: rest, checked => do
    let (answer, checked) ← compareVersions rt checked saved.version candidate.version
    if answer ≠ .greater then
      throw s!"The {candidate.kind} {candidate.id} needs a version greater than {saved.version}. Restoring earlier content also requires a new version."
    checkFloor rt candidate rest checked

def PublishedDocument.sameArtifact (a b : PublishedDocument) : Bool := a.kind == b.kind && a.id == b.id

/-- What a candidate's binding replaces in the lock found. -/
def replacedBy (base : Option ArtifactPublication) (candidate : PublishedDocument) : List PublishedDocument :=
  match base with
  | none => []
  | some base => base.documents.filter fun d =>
    (d.path == candidate.path || d.boundAs == candidate.boundAs) && d.sameArtifact candidate && d.content != candidate.content

def knownDocument (items : List ArtifactPublication) (candidate : PublishedDocument) : Bool :=
  (documentsOf items).any fun saved => saved.sameArtifact candidate && saved.content == candidate.content

def checkDocument (rt : Runtime) (p : Transaction) (candidate : PublishedDocument) (checked : Checked) :
    Except String Checked := do
  let (self, checked) ← compareVersions rt checked candidate.version candidate.version
  if self ≠ .equal then throw "Runtime returned an inconsistent artifact version comparison."
  let replaced := replacedBy p.base candidate
  let known := knownDocument p.ledger.items candidate
  if known && replaced.isEmpty then return checked
  -- an adopted release is later than what it replaces, a new one than every one published
  checkFloor rt candidate
    (if known then replaced else (documentsOf p.ledger.items).filter (·.sameArtifact candidate)) checked

def checkDocuments (rt : Runtime) (p : Transaction) : List PublishedDocument → Checked → Except String Unit
  | [], _ => .ok ()
  | candidate :: rest, checked => do
    let checked ← checkDocument rt p candidate checked
    checkDocuments rt p rest checked

def checkPublicationVersions (rt : Runtime) (p : Transaction) : Except String Unit :=
  checkDocuments rt p p.candidate.documents []

/-! ## Staging -/

def stageReview (candidate : ArtifactPublication) : Saves Disk String Unit := do
  if publicationLedgerLimit < e.publicationSize candidate then refuse "Publication review exceeds its storage limit."
  save fun d => { d with pending := some candidate }

end Publication

end Desk
