import Desk.Publication.Types

/-!
# The publication ledger

What `history.json` is read as, and what enters it.
-/

namespace Desk

namespace Publication

variable (e : Tools)

def publicationLedgerLimit : Nat := 8 * 2 ^ 20

def inputPreparationID (s : String) : Bool := hexForm "prep_" 32 s

def PublishedDocument.valid (d : PublishedDocument) : Bool :=
  d.id != "" && d.version != "" && ["pack", "graph", "dialect"].contains d.kind && d.content.valid

def DialectPublicationContext.valid (c : DialectPublicationContext) (p : ArtifactPublication) : Bool :=
  p.config.isNone && inputPreparationID c.preparationID && retainedArtifactDigest c.revision &&
    ["asserted", "generated"].contains c.variant && c.recipe.valid && c.pack.valid && retainedArtifactDigest c.request &&
    match p.documents with
    | [d] => d.kind == "dialect"
    | _ => false

/-- A publication says what it covers: a project's configuration, or a dialect. -/
def ArtifactPublication.covers (p : ArtifactPublication) : Bool :=
  match p.dialect with
  | none => p.config.any (·.valid)
  | some c => c.valid p

/-! ## One content a version -/

/-- What a document is known by. -/
def PublishedDocument.key (d : PublishedDocument) : String × String × String := (d.kind, d.id, d.version)

/-- `identities` holds the content of every key met. -/
def admitDocuments (identities : List ((String × String × String) × RetainedArtifactRef)) :
    List PublishedDocument → Except String Unit
  | [] => .ok ()
  | d :: rest =>
    if (identities.lookup d.key).all (· = d.content) then admitDocuments ((d.key, d.content) :: identities) rest
    else .error s!"The {d.kind} {d.id} version {d.version} already identifies different reviewed content. Choose a new artifact version before locking."

def documentsOf (items : List ArtifactPublication) : List PublishedDocument := items.flatMap (·.documents)

def admitPublication (ledger : PublicationLedger) (candidate : List PublishedDocument) : Except String Unit :=
  admitDocuments [] (documentsOf ledger.items ++ candidate)

/-! ## Reading -/

/-- `ids` are those of the items before. -/
def readItems (ids : List String) : List ArtifactPublication → Except String (List String)
  | [] => .ok ids
  | p :: rest =>
    if !p.review.all (·.valid) || p.id != publicationID e p || ids.contains p.id || !p.covers || p.at_ == "" then
      .error "Artifact version history is inconsistent."
    else if !p.reviews.all (·.valid) then .error "Artifact compatibility review is inconsistent."
    else if !p.documents.all PublishedDocument.valid then .error "Artifact version history is inconsistent."
    else readItems (p.id :: ids) rest

def receiptLimit : Nat := 4096

/-- An absent file is an empty ledger. -/
def readPublicationLedger : Option PublicationLedger → Except String PublicationLedger
  | none => .ok {}
  | some ledger => do
    if publicationLedgerLimit < e.ledgerSize ledger then throw "file is too large"
    if 4096 < ledger.items.length then throw "Artifact version history is unreadable."
    let ids ← readItems e [] ledger.items
    if receiptLimit < ledger.receipts.keys.card then
      throw "Artifact publication receipts reached their storage limit."
    if ¬∀ request ∈ ledger.receipts.keys, retainedArtifactDigest request = true ∧
        (ledger.receipts.lookup request).any ids.contains = true then
      throw "Artifact publication receipt is inconsistent."
    admitPublication ledger []
    return ledger

/-! ## Writing -/

/-- The ledger with the candidate, unless an item has its identity. -/
def withCandidate (ledger : PublicationLedger) (candidate : ArtifactPublication) : PublicationLedger :=
  if ledger.items.any (·.id == candidate.id) then ledger
  else { ledger with items := ledger.items ++ [candidate] }

def encodePublicationLedger (ledger : PublicationLedger) : Except String PublicationLedger :=
  if 4096 < ledger.items.length ∨ publicationLedgerLimit < e.ledgerSize ledger then
    .error "Artifact version history reached its storage limit."
  else .ok ledger

end Publication

end Desk
