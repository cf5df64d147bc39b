import Desk.Exchange.Catalog
import Desk.Lib.Refusal

/-!
# Release history

Named artifacts and upgrade notes are checked against the earlier releases. A
history that is missing or excessive is refused, never taken for a first release.
-/

namespace Desk

namespace Exchange

/-! ## Identities -/

/-- `json.Unmarshal` of a raw member into a string. -/
def looseVersion : Option Json → Option String
  | none => none
  | some .null => some ""
  | some (.str s) => some s
  | some _ => none

def checkInputReference (e : Preset) (raw : List UInt8) : Except String Unit :=
  match readDialect false raw with
  | none => .error "invalid dialect"
  | some d =>
    if (e.dialect.version == 0) == (e.dialect.formatVersion == "") then .error "dialect-reference-form"
    else if e.dialect.formatVersion ≠ "" then
      if e.dialect.formatVersion ≠ "2.0.0" ∧ e.dialect.formatVersion ≠ "3.0.0" then .error "dialect-reference-form"
      else if d.formatVersion ≠ e.dialect.formatVersion then .error "dialect-format-mismatch"
      else match e.artifact with
        | none => .error "artifact-required"
        | some artifact =>
          if looseVersion d.version = some artifact.version ∧ artifact.id = d.id then .ok ()
          else .error "artifact-mismatch"
    else if e.dialect.version < 2 then .error "dialect-reference-form"
    else match d.version with
      | some (.num literal) =>
        if d.formatVersion ≠ "" ∨ literal ≠ e.dialect.version.repr then .error "dialect-format-mismatch"
        else if e.artifact.isSome then .error "artifact-forbidden"
        else .ok ()
      | _ => .error "dialect-format-mismatch"

/-- A raw member is written `3`. -/
def writtenThree : Option Json → Bool
  | some (.num literal) => literal == "3"
  | _ => false

/-- The entry format that is read. -/
def entryFormat3 (ms : List (String × Json)) : Bool := writtenThree (ms.lookup "entryVersion")

/-- A member that is absent or of its form. -/
def memberOr {α : Type} (ms : List (String × Json)) (name : String) (read : Json → Option α) (why : String) :
    Except String (Option α) :=
  orRefuse (field ms name read) why

/-- The dialect and the artifact that a named reference tells, checked against the document. -/
def namedIdentity (e : Tools) (tree : Tree) (ms reference : List (String × Json)) (c : Candidate) : Except String Candidate :=
  match (ms.lookup "dialect").bind readDocument, (ms.lookup "artifact").bind readArtifact with
  | some dialect, some artifact => do
    refuseWhen (dialect.path ≠ "dialect.json" ∨ ¬digestPattern dialect.digest)
      "artifact-history-invalid: malformed named reference"
    refuseWhen ((reference.lookup "dialectVersion").isSome) "dialect-reference-form"
    let raw ← tree.Read (c.row.path ++ "/dialect.json") (128 * 2 ^ 10)
    refuseWhen (Digest raw ≠ c.row.dialectDigest) "artifact-history-invalid: dialect digest mismatch"
    let entry := { c.entry with dialect := dialect, artifact := some artifact }
    checkInputReference entry raw
    let check ← orRefuse e.check "Runtime document checks are unavailable"
    let (document, digest) ← check raw
    refuseWhen (digest ≠ dialect.digest) "artifact-history-invalid: canonical digest mismatch"
    return { c with entry := entry, document := document, digest := digest }
  | _, _ => .error "artifact-history-invalid: malformed named reference"

/-- What a row's entry is published as, before whether it is available. -/
def catalogIdentity (e : Tools) (tree : Tree) (row : Row) (metadata : List UInt8) (current : Bool) :
    Except String Candidate :=
  if Digest metadata ≠ row.entryDigest then .error "artifact-history-invalid: entry digest mismatch"
  else match (strict metadata).bind members with
    | none => .error "artifact-history-invalid: malformed entry"
    | some ms =>
      if entryFormat3 ms = false then .ok { row := row }
      else do
        let upgrade ← memberOr ms "upgrade" texts "invalid upgrade notes"
        let reference ← memberOr ms "dialect" members "artifact-history-invalid: malformed reference"
        let c : Candidate := { row := row, entry := { id := row.id, upgrade := upgrade } }
        if ((reference.getD []).lookup "formatVersion").isSome then namedIdentity e tree ms (reference.getD []) c
        else if current && (ms.lookup "artifact").isSome then .error "artifact-forbidden"
        else .ok c

/-! ## Pairs -/

def ArtifactIdentity.key (a : ArtifactIdentity) : String := a.id ++ "\x00" ++ a.version

/-- An artifact is pinned to its canonical digest. -/
def pinArtifact (pairs : Table String) (c : Candidate) : Except String (Table String) :=
  match c.entry.artifact with
  | none => .ok pairs
  | some artifact =>
    if (pairs.get? artifact.key).any (· != c.digest) then .error "artifact-content-changed"
    else .ok (pairs.set artifact.key c.digest)

/-- Artifact pairs are immutable within one release. -/
def checkArtifactPairs (seen : Table String) : List Candidate → Except String Unit
  | [] => .ok ()
  | c :: rest => do
    let seen ← pinArtifact seen c
    checkArtifactPairs seen rest

def CheckArtifactPairs (candidates : List Candidate) : Except String Unit := checkArtifactPairs Table.empty candidates

/-! ## Earlier releases -/

/-- What earlier releases hold: artifacts with their digests, the digests of each entry, and the bytes read. -/
structure Seen where
  pairs : Table String := Table.empty
  entries : Table (Table Unit) := Table.empty
  retained : Nat := 0

def Seen.holds (seen : Seen) (id digest : String) : Bool := (seen.entries.get? id).any (·.has digest)

def Seen.record (seen : Seen) (id digest : String) : Table (Table Unit) :=
  seen.entries.set id (((seen.entries.get? id).getD Table.empty).set digest ())

def historyByteLimit : Nat := 32 * 2 ^ 20

def historicalForm (previous : String) (row : Row) : Bool :=
  idPattern row.id && decide (previous < row.id) && row.path == entryPath row.id && digestPattern row.entryDigest

def historicalRow (e : Tools) (tree : Tree) (previous : String) (row : Row) (seen : Seen) : Except String Seen := do
  refuseWhen (¬historicalForm previous row) "Invalid historical entry"
  let metadata ← tree.Read (row.path ++ "/entry.json") (64 * 2 ^ 10)
  refuseWhen (Digest metadata ≠ row.entryDigest) "Historical entry digest mismatch"
  refuseWhen (historyByteLimit < seen.retained + metadata.length)
    "Catalog history exceeds its byte limit"
  let c ← catalogIdentity e tree row metadata false
  let pairs ← pinArtifact seen.pairs c
  return { pairs := pairs, entries := seen.record row.id row.entryDigest, retained := seen.retained + metadata.length }

def historicalRows (e : Tools) (tree : Tree) (previous : String) : List Row → Seen → Except String Seen
  | [], seen => .ok seen
  | row :: rest, seen => do
    let seen ← historicalRow e tree previous row seen
    historicalRows e tree row.id rest seen

def historicalRelease (e : Tools) (tag : String) (release : HistoricalTree) (seen : Seen) : Except String Seen := do
  refuseWhen (¬((CompareTags release.tag tag).toOption.any (· < 0) ∧ commitPattern release.commit))
    "Invalid prior catalog release"
  let raw ← release.tree.Read "manifest.json" (2 ^ 20)
  refuseWhen (historyByteLimit < seen.retained + raw.length) "Catalog history exceeds its byte limit"
  let rows ← orRefuse (readManifest raw) "Invalid historical manifest"
  historicalRows e release.tree "" rows { seen with retained := seen.retained + raw.length }

def historicalReleases (e : Tools) (tag : String) : List HistoricalTree → Seen → Except String Seen
  | [], seen => .ok seen
  | release :: rest, seen => do
    let seen ← historicalRelease e tag release seen
    historicalReleases e tag rest seen

/-! ## The current release -/

/-- The notes of an entry name digests that earlier releases recorded for it. -/
def notesHold (seen : Seen) (c : Candidate) : Bool :=
  (c.entry.upgrade.getD Table.empty).all fun digest _ => seen.holds c.entry.id digest

def checkCurrent (seen : Seen) (pairs : Table String) : List Candidate → Except String Unit
  | [] => .ok ()
  | c :: rest => do
    let pairs ← pinArtifact pairs c
    refuseWhen (¬notesHold seen c) "Upgrade note names no earlier entry digest for this entry"
    checkCurrent seen pairs rest

/-- A release that names an artifact or has upgrade notes is checked against its history. -/
def needed (current : List Candidate) : Bool :=
  current.any fun c => c.entry.artifact.isSome || c.entry.upgrade.isSome

def checkCatalogHistory (e : Tools) (tree : CatalogTree) (out : Release) (current : List Candidate) :
    Except String (List Pin) :=
  if needed current = false then do
    CheckArtifactPairs current
    return out.history
  else match tree.PriorReleases with
    | none => .error "Catalog history is unavailable for named artifacts"
    | some releases => do
      let prior ← releases out.tag
      refuseWhen (32 < prior.length) "Catalog history exceeds 32 releases"
      let seen ← historicalReleases e out.tag prior {}
      checkCurrent seen seen.pairs current
      return out.history ++ prior.map fun release => ⟨out.location, release.tag, release.commit⟩

end Exchange

end Desk
