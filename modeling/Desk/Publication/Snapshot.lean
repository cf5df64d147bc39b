import Desk.Publication.Ledger

/-!
# Snapshots

One reading of a project: its configuration, every document it declares, and
its lock. What a lock pins is a set in the same terms.
-/

namespace Desk

namespace Publication

variable (e : Tools)

def reviewTextLimit : Nat := 2 ^ 20

def reviewReadingLimit : Nat := 8 * 2 ^ 20

def reviewEntryLimit : Nat := 1024

def runtimeConfigName : String := "jpack.json"

def runtimeLockName : String := "jpack.lock.json"

structure SnapshotDocument where
  entry : ReviewEntry
  data : Bytes

structure ReviewSnapshot where
  set : ReviewSet
  config : Bytes := []
  docs : List SnapshotDocument := []
  lock : Option Bytes := none

/-- The bytes the snapshot holds under a digest. -/
def ReviewSnapshot.bytesOf (snap : ReviewSnapshot) (digest : String) : Option Bytes :=
  if digest = snap.set.config then some snap.config
  else (snap.docs.find? fun d => d.entry.digest == digest).map (·.data)

/-! ## Sets -/

/-- By kind, then by id. -/
def entryLe (a b : ReviewEntry) : Bool := if a.kind ≠ b.kind then decide (a.kind < b.kind) else decide (a.id ≤ b.id)

def sortEntries (entries : List ReviewEntry) : List ReviewEntry := entries.mergeSort entryLe

def lockEntries (kind : String) (entries : Table LockEntry) : List ReviewEntry :=
  entries.entries.map fun m => { kind, id := m.1, path := m.2.path, digest := m.2.digest }

/-- What a lock pins; none is a text that is no lock. -/
def lockedSet (raw : Bytes) : Option ReviewSet :=
  (e.lockDocument raw).map fun lock =>
    { config := lock.config, entries := sortEntries (lockEntries "pack" lock.packs ++ lockEntries "graph" lock.graphs) }

/-! ## Reading a project -/

/-- The texts read so far, and their length. -/
structure Reading where
  files : List (String × Bytes) := []
  retained : Nat := 0

/-- A file the project has, under its clean path. -/
abbrev Files : Type := String → Option Bytes

/-- A file once; an absent one is read as none where it may be absent. -/
def take (files : Files) (name : String) (absentOK : Bool) (r : Reading) : Except String (Option Bytes × Reading) :=
  match e.wireRelativePath name with
  | none => .error "path is outside the project"
  | some clean =>
    match r.files.lookup clean with
    | some data => .ok (some data, r)
    | none =>
      match files clean with
      | none => if absentOK then .ok (none, r) else .error "file does not exist"
      | some data =>
        if min reviewTextLimit (reviewReadingLimit - r.retained) < data.length then .error "more than Desk shows at once"
        else if (Json.charsOf data).isNone then .error s!"{clean} is not text Desk can show"
        else .ok (some data, { files := (clean, data) :: r.files, retained := r.retained + data.length })

/-- The documents declared of one kind, in the order of their ids. -/
def takeDocuments (files : Files) (kind : String) :
    List (String × String) → Reading → Except String (List SnapshotDocument × Reading)
  | [], r => .ok ([], r)
  | (id, path) :: rest, r => do
    let (data, r) ← take e files path false r
    let data := data.getD []
    let (docs, r) ← takeDocuments files kind rest r
    return ({ entry := { kind, id, path, digest := e.sha256Digest data }, data } :: docs, r)

def readSnapshot (files : Files) : Except String ReviewSnapshot := do
  let (config, r) ← take e files runtimeConfigName false {}
  let config := config.getD []
  match e.declared config with
  | none => throw "jpack.json is not a configuration Desk can read"
  | some declared =>
    if reviewEntryLimit < declared.packs.size + declared.graphs.size then
      throw "the project declares more documents than Desk reviews"
    let (graphs, r) ← takeDocuments e files "graph" (Json.sortMembers declared.graphs.entries) r
    let (packs, r) ← takeDocuments e files "pack" (Json.sortMembers declared.packs.entries) r
    let (lock, _) ← take e files runtimeLockName true r
    let docs := graphs ++ packs
    return { set := { config := e.sha256Digest config, entries := sortEntries (docs.map (·.entry)) }, config, docs, lock }

/-- What a confirmation is bound to. -/
def reviewToken (snap : ReviewSnapshot) : String :=
  e.token snap.set (match snap.lock with
    | some raw => e.sha256Digest raw
    | none => "absent")

/-! ## The publication of a snapshot -/

def publishedDocument (d : SnapshotDocument) : Option PublishedDocument :=
  match e.head d.data with
  | some (id, version) =>
    if id = "" ∨ version = "" then none
    else some { kind := d.entry.kind, boundAs := d.entry.id, id, version, path := d.entry.path, content := e.reference d.data }
  | none => none

def publicationFromSnapshot (snap : ReviewSnapshot) (now : String) : Except String ArtifactPublication :=
  match snap.docs.mapM (publishedDocument e) with
  | none => .error "Every reviewed pack and graph must have an artifact identity and version."
  | some documents =>
    let p : ArtifactPublication := { at_ := now, config := some (e.reference snap.config), documents }
    .ok { p with id := publicationID e p }

/-! ## Reviewed copies -/

/-- The name of a digest's copy. -/
def copyName (digest : String) : Option String :=
  if hexForm "sha256:" 64 digest then some (String.ofList (digest.toList.drop 7)) else none

end Publication

end Desk
