import Desk.Publication.Lock

/-!
# Published dialects

One executable translation enters the ledger with the recipe it was reviewed
with. A request is answered once, by its publication or its receipt.
-/

namespace Desk

namespace Publication

open Saves

variable (e : Tools) (o : Outside)

structure DialectPublicationRequest where
  publish : Bool
  revision : String
  variant : String
  version : String
  checkDigest : String := ""
  reviewed : Bool := false
  basePublication : Option String := none
  impact : ArtifactImpact
  review : Option RetainedArtifactRef := none

/-- A saved preparation: its text, its recipe's, and the pack it qualifies. -/
structure SavedPreparation where
  raw : Bytes
  recipe : Bytes
  pack : Bytes

/-- The Runtime's report on the executable form. -/
structure DialectReport where
  artifactID : String
  artifactVersion : String
  document : Bytes

/-- What a publication of a dialect takes from outside besides: the ledger as it was when it was
first read, the saved preparation, and the Runtime's report on it. -/
structure DialectOutside where
  seen : Option PublicationLedger
  saved : Option SavedPreparation
  checked : Option DialectReport

structure DialectPublicationAnswer where
  publication : ArtifactPublication
  saved : Bool := false
  basePublication : String := ""

def dialectArtifactID (id variant : String) : String := "urn:judgmentpack:dialect:" ++ id ++ ":" ++ variant

/-- The publication a request was completed by. -/
def completedBy (ledger : PublicationLedger) (request : String) : Option ArtifactPublication :=
  ledger.items.find? fun p => match p.dialect with
    | some c => c.request == request || ledger.receipts.lookup request == some p.id
    | none => false

def ofDialect (id variant : String) (p : ArtifactPublication) : Bool :=
  match p.dialect with
  | some c => c.preparationID == id && c.variant == variant
  | none => false

def latestDialectPublication (ledger : PublicationLedger) (id variant : String) : String :=
  ((ledger.items.reverse.find? (ofDialect id variant)).map (·.id)).getD ""

/-- The same recipe and document: no other release. -/
def sameRelease (prior candidate : ArtifactPublication) : Bool :=
  match prior.dialect, candidate.dialect, prior.documents.head?, candidate.documents.head? with
  | some a, some b, some x, some y => a.recipe == b.recipe && x == y
  | _, _, _, _ => false

/-- A request's completion, where no publication is made for it. -/
def retainPublicationReceipt (request id : String) : Saves Disk String Unit := do
  let disk ← load
  let ledger ← lift (readPublicationLedger e disk.history)
  match ledger.receipts.lookup request with
  | some existing => if existing ≠ id then refuse "Publication request already has another receipt." else return ()
  | none =>
    if ¬ledger.items.any (·.id == id) then refuse "Publication is no longer available."
    if receiptLimit ≤ ledger.receipts.keys.card then refuse "Artifact publication receipts reached their storage limit."
    writePublicationLedger e { ledger with receipts := ledger.receipts.insert request id }

/-- The publication a saved preparation and its report make. -/
def dialectCandidate (id : String) (req : DialectPublicationRequest) (saved : SavedPreparation) (checked : DialectReport) :
    ArtifactPublication :=
  let context : DialectPublicationContext :=
    { preparationID := id, revision := e.digestOf saved.raw, variant := req.variant, recipe := e.reference saved.recipe
      pack := e.reference saved.pack, request := e.requestDigest id req.revision req.variant req.version }
  let p : ArtifactPublication :=
    { at_ := o.now, dialect := some context
      documents := [{ kind := "dialect", boundAs := req.variant, id := checked.artifactID, version := req.version, path := ""
                      content := e.reference checked.document }] }
  { p with id := publicationID e p }

/-- What is to be published; the saved recipe is the one reviewed. -/
def checkedDialect (id : String) (req : DialectPublicationRequest) (d : DialectOutside) :
    Except String (SavedPreparation × DialectReport) :=
  if ¬inputPreparationID id then .error "invalid dialect collection identity"
  else
    match d.saved with
    | none => .error "file does not exist"
    | some saved =>
      if e.digestOf saved.raw ≠ req.revision then
        .error "The dialect changed. Refresh and review the saved recipe again."
      else if ¬["asserted", "generated"].contains req.variant then .error "Choose imported data or reviewed research."
      else
        match d.checked with
        | none => .error "Runtime dialect checks did not pass. Review the mapping and its pack coverage before saving."
        | some checked =>
          if checked.artifactID ≠ dialectArtifactID id req.variant ∨ checked.artifactVersion ≠ req.version then
            .error "Runtime dialect checks are unavailable. Check the Runtime installation before saving this mapping."
          else .ok (saved, checked)

/-- The review a candidate must have been given. -/
def dialectReview (id : String) (req : DialectPublicationRequest) (saved : SavedPreparation) (candidate : ArtifactPublication)
    (base : String) : Option ArtifactReview :=
  match candidate.dialect, candidate.documents.head? with
  | some context, some doc =>
    some { target := dialectArtifactID id req.variant, basePublication := base, storageRevision := e.digestOf saved.raw
           candidate := doc.content, proposedVersion := req.version, impact := req.impact
           dependencies := [context.recipe, context.pack] }
  | _, _ => none

/-- The commit of a reviewed dialect, over the ledger as it is then. -/
def commitDialect (id : String) (req : DialectPublicationRequest) (saved : SavedPreparation) (checked : DialectReport)
    (candidate : ArtifactPublication) (base : String) : Saves Disk String DialectPublicationAnswer := do
  let disk ← load
  let ledger ← lift (readPublicationLedger e disk.history)
  match completedBy ledger (e.requestDigest id req.revision req.variant req.version) with
  | some p => return { publication := p, saved := true }
  | none =>
    if latestDialectPublication ledger id req.variant ≠ base then
      refuse "Another version was published. Review against the new publication."
    let reviewed := { candidate with review := req.review }
    let reviewed := { reviewed with id := publicationID e reviewed }
    let transaction : Transaction := { ledger, candidate := reviewed }
    lift (admitPublication ledger reviewed.documents)
    lift (checkPublicationVersions e.runtime transaction)
    lift (putAll o [checked.document, saved.recipe, saved.pack])
    transaction.commit e
    return { publication := reviewed, saved := true, basePublication := base }

/-- A candidate of which there is no release yet. -/
def releaseDialect (id : String) (req : DialectPublicationRequest) (ledger : PublicationLedger) (saved : SavedPreparation)
    (checked : DialectReport) (candidate : ArtifactPublication) : Saves Disk String DialectPublicationAnswer := do
  let base := latestDialectPublication ledger id req.variant
  if req.publish ∧ (req.basePublication ≠ some base ∨ req.review.isNone) then
    refuse "The publication base changed or its review is missing. Check and review this version again."
  lift (checkPublicationVersions e.runtime { ledger, candidate })
  let baseVersion := (((ledger.items.find? (·.id == base)).bind (·.documents.head?)).map (·.version)).getD ""
  lift (checkArtifactImpact e.runtime baseVersion req.version req.impact)
  if ¬req.publish then
    -- a check retains the texts and their review, and enters nothing in the ledger
    lift (putAll o [checked.document, saved.recipe, saved.pack])
    return { publication := candidate, basePublication := base }
  if req.checkDigest ≠ e.sha256Digest checked.document then refuse "The checked document changed. Review it again."
  match req.review with
  | none => refuse "The publication base changed or its review is missing. Check and review this version again."
  | some ref => do
    let retained ← lift (artifactReview o ref)
    if dialectReview e id req saved candidate base ≠ some retained then
      refuse "The candidate or compatibility review changed. Check this version again."
    commitDialect e o id req saved checked candidate base

def publishCheckedDialect (id : String) (req : DialectPublicationRequest) (d : DialectOutside) :
    Saves Disk String DialectPublicationAnswer := do
  let ledger ← lift (readPublicationLedger e d.seen)
  let request := e.requestDigest id req.revision req.variant req.version
  match completedBy ledger request with
  | some p => return { publication := p, saved := true }
  | none =>
    if req.publish ∧ (¬req.reviewed ∨ req.checkDigest = "") then
      refuse "Check and review this exact version before publishing."
    if ¬req.impact.valid then refuse "Describe the compatibility impact before checking this version."
    let (saved, checked) ← lift (checkedDialect e id req d)
    let candidate := dialectCandidate e o id req saved checked
    lift (admitPublication ledger candidate.documents)
    match (ledger.items.reverse.find? (ofDialect id req.variant)).filter (sameRelease · candidate) with
    | some prior => do
      -- a record refreshed is no other release
      retainPublicationReceipt e request prior.id
      return { publication := prior, saved := true }
    | none => releaseDialect e o id req ledger saved checked candidate

end Publication

end Desk
