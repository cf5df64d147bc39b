import Desk.Lib.Table
import Desk.Policy.Record
import Mathlib.Data.Finmap

/-!
# Publications

The ledger of reviewed project locks and published dialects: every item binds
artifact identities to retained bytes. A nil list and an empty one are one list.
-/

namespace Desk

namespace Publication

abbrev Bytes : Type := List UInt8

structure PublishedDocument where
  kind : String
  boundAs : String
  id : String
  version : String
  path : String
  content : RetainedArtifactRef
  deriving DecidableEq

structure DialectPublicationContext where
  preparationID : String
  revision : String
  variant : String
  recipe : RetainedArtifactRef
  pack : RetainedArtifactRef
  request : String
  deriving DecidableEq

structure ArtifactPublication where
  id : String := ""
  at_ : String
  imported : Bool := false
  config : Option RetainedArtifactRef := none
  dialect : Option DialectPublicationContext := none
  documents : List PublishedDocument
  review : Option RetainedArtifactRef := none
  reviews : List RetainedArtifactRef := []
  deriving DecidableEq

structure PublicationLedger where
  items : List ArtifactPublication := []
  receipts : Finmap fun _ : String => String := ∅
  deriving DecidableEq

/-! ## What a lock covers -/

structure ReviewEntry where
  kind : String
  id : String
  path : String
  digest : String
  deriving DecidableEq

structure ReviewSet where
  config : String
  entries : List ReviewEntry
  deriving DecidableEq

/-- `reviewSet.equal` -/
def ReviewSet.equal (a b : ReviewSet) : Bool := decide (a = b)

structure LockEntry where
  path : String
  digest : String

structure LockDocument where
  config : String := ""
  packs : Table LockEntry := Table.empty
  graphs : Table LockEntry := Table.empty

/-- The member paths of a configuration's packs and graphs. -/
structure Declared where
  packs : Table String := Table.empty
  graphs : Table String := Table.empty

/-! ## Compatibility -/

structure ArtifactImpact where
  classification : String
  rationale : String
  deriving DecidableEq

def ArtifactImpact.valid (i : ArtifactImpact) : Bool :=
  ["initial", "patch", "minor", "major", "unknown"].contains i.classification && decide (len i.rationale ≤ 4000) &&
    !blank i.rationale

structure ArtifactReview where
  target : String
  basePublication : String
  storageRevision : String
  candidate : RetainedArtifactRef
  proposedVersion : String
  impact : ArtifactImpact
  dependencies : List RetainedArtifactRef
  deriving DecidableEq

inductive Comparison where
  | lower | equal | greater
  deriving DecidableEq

/-! ## The outside -/

/-- The Runtime's arithmetic of versions. -/
structure Runtime where
  /-- How the candidate compares with the base; none is a refusal. -/
  compare : String → String → Option Comparison
  /-- The next version of a base, by classification. -/
  choice : String → String → Option String
  /-- It compares versions, which are `x.y.z`. -/
  version : ∀ base candidate answer, compare base candidate = some answer → '/' ∉ base.toList ∧ '/' ∉ candidate.toList

/-- Reading and digesting of texts: `encoding/json`, SHA-256 and the desk's MAC; and the Runtime. -/
structure Tools where
  digestOf : Bytes → String
  /-- `digestOf` of a publication's JSON text. -/
  publicationDigest : ArtifactPublication → String
  publicationSize : ArtifactPublication → Nat
  ledgerSize : PublicationLedger → Nat
  /-- The reference of the JSON text of a set. -/
  manifest : ReviewSet → RetainedArtifactRef
  /-- `digestOf` of the JSON text of a set, the reference of a lock and whether there is one. -/
  revisionDigest : ReviewSet → RetainedArtifactRef → Bool → String
  /-- `digestOf` of the JSON text of a preparation, revision, variant and version. -/
  requestDigest : String → String → String → String → String
  /-- The MAC over a set and the lock's digest. -/
  token : ReviewSet → String → String
  /-- `json.Unmarshal` of the id and version of a document. -/
  head : Bytes → Option (String × String)
  lockDocument : Bytes → Option LockDocument
  declared : Bytes → Option Declared
  wireRelativePath : String → Option String
  runtime : Runtime
  digestForm : ∀ raw, retainedArtifactDigest (digestOf raw) = true
  requestForm : ∀ id revision variant version, retainedArtifactDigest (requestDigest id revision variant version) = true
  configPath : wireRelativePath "jpack.json" = some "jpack.json"
  lockPath : wireRelativePath "jpack.lock.json" = some "jpack.lock.json"

variable (e : Tools)

/-- `artifactReference` -/
def Tools.reference (raw : Bytes) : RetainedArtifactRef := { sha256 := e.digestOf raw, bytes := raw.length }

def Tools.sha256Digest (raw : Bytes) : String := "sha256:" ++ e.digestOf raw

/-! ## Identity -/

/-- What a publication's identity is taken of. -/
def ArtifactPublication.bare (p : ArtifactPublication) : ArtifactPublication :=
  { p with id := "", at_ := "", imported := false }

/-- What is published, without the reviews it was accepted with. -/
def ArtifactPublication.content (p : ArtifactPublication) : ArtifactPublication :=
  { p.bare with review := none, reviews := [] }

def publicationID (p : ArtifactPublication) : String := e.publicationDigest p.bare

def samePublicationContent (a b : ArtifactPublication) : Bool :=
  publicationID e a.content == publicationID e b.content

@[simp] theorem bare_bare (p : ArtifactPublication) : p.bare.bare = p.bare := rfl

@[simp] theorem content_bare (p : ArtifactPublication) : p.bare.content = p.content := rfl

@[simp] theorem bare_content (p : ArtifactPublication) : p.content.bare = p.content := rfl

@[simp] theorem content_content (p : ArtifactPublication) : p.content.content = p.content := rfl

end Publication

end Desk
