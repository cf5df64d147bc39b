import Desk.Publication.Transaction

/-!
# Compatibility reviews

Which documents of a candidate need a review, against which base, and whether
the reviews submitted are theirs.
-/

namespace Desk

namespace Publication

variable (e : Tools) (o : Outside)

/-- The Runtime owns the arithmetic; the classification is the reviewer's. -/
def checkArtifactImpact (rt : Runtime) (base version : String) (impact : ArtifactImpact) : Except String Unit :=
  if ¬impact.valid ∨ impact.classification = "unknown" then
    .error "Review the compatibility impact and explain the version before publishing."
  else if base = "" then
    if impact.classification ≠ "initial" then .error "Review this artifact as a first publication." else .ok ()
  else if impact.classification = "initial" then
    .error "This artifact already has a published version. Review the compatibility of this change."
  else if (rt.compare base version).isNone then .error "Runtime could not check the reviewed version change."
  else if rt.choice base impact.classification ≠ some version then
    .error "The proposed version does not match the reviewed compatibility impact. Choose the corresponding next version."
  else .ok ()

structure ProjectArtifactReview where
  key : String
  version : String
  baseVersion : String := ""
  baseArtifact : Option RetainedArtifactRef := none
  required : Bool := true

def projectReviewRevision (snap : ReviewSnapshot) : String :=
  e.revisionDigest snap.set (e.reference (snap.lock.getD [])) snap.lock.isSome

def projectReviewTarget (key : String) : String := "urn:judgmentpack:project-review:" ++ key

def projectReviewBase (snap : ReviewSnapshot) : String :=
  match snap.lock with
  | some raw => e.digestOf raw
  | none => ""

def projectReviewDependencies (manifest config : RetainedArtifactRef) (base : Option RetainedArtifactRef) :
    List RetainedArtifactRef := [manifest, config] ++ base.toList

def rowKey (doc : PublishedDocument) : String := doc.kind ++ ":" ++ doc.boundAs

/-- What the lock pins for a document. -/
def lockedDigest (lock : LockDocument) (doc : PublishedDocument) : String :=
  ((if doc.kind = "graph" then lock.graphs else lock.packs).get? doc.boundAs).elim "" (·.digest)

/-- Whether the candidate version is later, asked of the Runtime once a pair. -/
def higher (rt : Runtime) (checked : Checked) (base candidate : String) : Except String (Bool × Checked) :=
  if base = candidate then .ok (false, checked)
  else
    match checked.lookup (base ++ "/" ++ candidate) with
    | some answer => .ok (answer == .greater, checked)
    | none =>
      if 256 ≤ checked.length then .error "Too many artifact versions to compare in one review."
      else
        match rt.compare base candidate with
        | none => .error "Runtime could not check the reviewed version change."
        | some answer => .ok (answer == .greater, (base ++ "/" ++ candidate, answer) :: checked)

/-- The bytes a binding had in the lock. -/
def replacedBytes (copies : Table Bytes) (snap : ReviewSnapshot) (digest : String) : Except String Bytes :=
  match snap.bytesOf digest with
  | some data => .ok data
  | none =>
    match copyName digest with
    | none => .ok []
    | some name =>
      match copies.get? name with
      | none => .error "file does not exist"
      | some data => if reviewTextLimit < data.length then .error "file is too large" else .ok data

/-- The row with the binding it replaces, where the lock has one of the same artifact. -/
def replacedBase (copies : Table Bytes) (snap : ReviewSnapshot) (digest : String) (doc : PublishedDocument)
    (row : ProjectArtifactReview) : Except String ProjectArtifactReview :=
  if digest = "" then .ok row
  else do
    let old ← replacedBytes copies snap digest
    if e.sha256Digest old ≠ digest then throw errRetainedArtifactChanged
    match e.head old with
    | none => throw errRetainedArtifactChanged
    | some (id, version) =>
      if id = doc.id then return { row with baseVersion := version, baseArtifact := some (e.reference old) } else return row

/-- The row with the highest of the published versions. -/
def highestBase (rt : Runtime) : List PublishedDocument → ProjectArtifactReview → Checked →
    Except String (ProjectArtifactReview × Checked)
  | [], row, checked => .ok (row, checked)
  | prior :: rest, row, checked => do
    let (newer, checked) ← if row.baseVersion = "" then pure (true, checked) else higher rt checked row.baseVersion prior.version
    highestBase rt rest
      (if newer then { row with baseVersion := prior.version, baseArtifact := some prior.content } else row) checked

def projectReviewRow (copies : Table Bytes) (snap : ReviewSnapshot) (lock : LockDocument) (items : List ArtifactPublication)
    (doc : PublishedDocument) (checked : Checked) : Except String (ProjectArtifactReview × Checked) := do
  let row : ProjectArtifactReview := { key := rowKey doc, version := doc.version }
  let digest := lockedDigest lock doc
  if digest = "sha256:" ++ doc.content.sha256 then return ({ row with required := false }, checked)
  let row ← replacedBase e copies snap digest doc row
  let (row, checked) ←
    if knownDocument items doc then pure (if row.baseVersion = "" then { row with required := false } else row, checked)
    else highestBase e.runtime ((documentsOf items).filter (·.sameArtifact doc)) row checked
  if row.required ∧ ¬o.latest row.key then throw "Retained artifact reviews are unavailable."
  return (row, checked)

def projectReviewRows (copies : Table Bytes) (snap : ReviewSnapshot) (lock : LockDocument) (items : List ArtifactPublication) :
    List PublishedDocument → Checked → Except String (List ProjectArtifactReview)
  | [], _ => .ok []
  | doc :: rest, checked => do
    let (row, checked) ← projectReviewRow e o copies snap lock items doc checked
    let rows ← projectReviewRows copies snap lock items rest checked
    return row :: rows

/-! ## Admission -/

def artifactReviewLimit : Nat := 2 * 2 ^ 20

/-- A retained review, read under its reference. -/
def artifactReview (ref : RetainedArtifactRef) : Except String ArtifactReview :=
  if ¬ref.valid ∨ artifactReviewLimit < ref.bytes then .error errRetainedArtifactChanged
  else
    match o.retained ref with
    | none => .error errRetainedArtifactChanged
    | some review =>
      if review.proposedVersion = "" ∨ ¬review.candidate.valid ∨ ¬review.impact.valid then
        .error "The retained artifact review is unreadable."
      else .ok review

/-- The reference submitted for a row that needs one. -/
def admitRow (snap : ReviewSnapshot) (candidate : ArtifactPublication) (refs : Table RetainedArtifactRef)
    (row : ProjectArtifactReview) : Except String (Option RetainedArtifactRef) :=
  if ¬row.required then .ok none
  else
    match refs.get? row.key, candidate.documents.find? (rowKey · == row.key), candidate.config with
    | some ref, some doc, some config => do
      let review ← artifactReview o ref
      if review.target ≠ projectReviewTarget row.key ∨ review.storageRevision ≠ projectReviewRevision e snap ∨
          review.basePublication ≠ projectReviewBase e snap ∨ review.candidate ≠ doc.content ∨
          review.proposedVersion ≠ doc.version ∨
          review.dependencies ≠ projectReviewDependencies (e.manifest snap.set) config row.baseArtifact then
        throw "The artifact or its reviewed base changed. Review compatibility again."
      checkArtifactImpact e.runtime row.baseVersion row.version review.impact
      return some ref
    | _, _, _ => .error "Review each changed artifact’s compatibility before locking."

def admitRows (snap : ReviewSnapshot) (candidate : ArtifactPublication) (refs : Table RetainedArtifactRef) :
    List ProjectArtifactReview → Except String (List RetainedArtifactRef)
  | [] => .ok []
  | row :: rest => do
    let ref ← admitRow e o snap candidate refs row
    let accepted ← admitRows snap candidate refs rest
    return ref.toList ++ accepted

/-- The lock of a snapshot; an absent one is empty. -/
def lockOf (snap : ReviewSnapshot) : Except String LockDocument :=
  match snap.lock with
  | none => .ok {}
  | some raw =>
    match e.lockDocument raw with
    | none => .error "the lock is no lock"
    | some lock => .ok lock

/-- The references accepted for the candidate. -/
def acceptedReviews (copies : Table Bytes) (snap : ReviewSnapshot) (p : Transaction) (refs : Table RetainedArtifactRef) :
    Except String (List RetainedArtifactRef) := do
  let lock ← lockOf e snap
  let rows ← projectReviewRows e o copies snap lock p.ledger.items p.candidate.documents []
  let accepted ← admitRows e o snap p.candidate refs rows
  if accepted.length ≠ refs.size then throw "The compatibility review does not match the changed artifacts."
  return accepted

/-- The candidate with its reviews; one that needs none is the publication of its content, where there is one. -/
def acceptedCandidate (items : List ArtifactPublication) (candidate : ArtifactPublication) (accepted : List RetainedArtifactRef) :
    ArtifactPublication :=
  let reviewed := { candidate with reviews := accepted }
  let reviewed := { reviewed with id := publicationID e reviewed }
  if accepted.isEmpty then (items.find? fun prior => samePublicationContent e prior reviewed).getD reviewed else reviewed

end Publication

end Desk
