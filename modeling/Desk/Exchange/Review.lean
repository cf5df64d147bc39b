import Desk.Exchange.History
import Mathlib.Data.List.Sort
import Mathlib.Algebra.GroupWithZero.Nat

/-!
# Review

The entire manifest and its directories are verified before any preset is
offered. An entry that does not hold is unavailable, with why; a catalog that
does not hold is refused.
-/

namespace Desk

namespace Exchange

def assertion : String :=
  "The author asserts that these rules derive these facts and this evidence-availability from records of that shape, or these arguments from that disposition, and asserts nothing about any record's truth."

def fileLimit : Nat := 16 * 2 ^ 20

/-! ## Scans -/

/-- What follows a word. -/
def after (word : String) (l : List Char) : Option (List Char) :=
  if word.toList.isPrefixOf l then some (l.drop word.toList.length) else none

def atLeast (n : Nat) (p : Char → Bool) (l : List Char) : Bool := decide (n ≤ (l.takeWhile p).length)

def isBearerChar (c : Char) : Bool := c.isAlphanum || "._~+/=-".toList.contains c

/-- `[A-Z ]*PRIVATE KEY-----` -/
def privateKey (l : List Char) : Bool :=
  (after "PRIVATE KEY-----" l).isSome ||
    match l with
    | [] => false
    | c :: rest => (c.isUpper || c == ' ') && privateKey rest

/-- A recognized credential or local path begins here. -/
def scanned (l : List Char) : Bool :=
  (["Bearer", "bearer"].any fun word => (after word l).any fun rest =>
    atLeast 1 (fun c => c == ' ' || c == '\t') rest && atLeast 20 isBearerChar (rest.dropWhile fun c => c == ' ' || c == '\t')) ||
  (after "AKIA" l).any (atLeast 16 fun c => c.isDigit || c.isUpper) ||
  (["ghp_", "gho_", "ghu_", "ghs_", "ghr_"].any fun word => (after word l).any (atLeast 30 Char.isAlphanum)) ||
  (after "sk-" l).any (atLeast 20 fun c => c.isAlphanum || c == '_' || c == '-') ||
  (after "-----BEGIN " l).any privateKey || (after "/home/" l).isSome || (after "/tmp/" l).isSome

/-! ## Manifest rows -/

def fixtureFiles : List String := ["case.json", "profiles.json", "preparation.json", "sources.json", "binding.json"]

/-- The fixtures of a row, each of a name of its own and with the files a replay needs. -/
def checkManifestFixtures (names : List String) : List Fixture → Except String Unit
  | [] => .ok ()
  | fixture :: rest =>
    if ¬fixtureName fixture.name ∨ 64 < len fixture.name ∨ names.contains fixture.name ∨ fixture.files.length < 3 ∨
        5 < fixture.files.length then .error "invalid manifest fixture"
    else if ¬fixture.files.all fixtureFiles.contains ∨ ¬fixture.files.Nodup then .error "invalid fixture file list"
    else if ¬["case.json", "profiles.json", "preparation.json"].all fixture.files.contains then
      .error "incomplete fixture file list"
    else checkManifestFixtures (fixture.name :: names) rest

def Row.form (previous : String) (row : Row) : Bool :=
  idPattern row.id && decide (len row.id ≤ 128) && decide (previous < row.id) && row.path == entryPath row.id &&
    digestPattern row.entryDigest && row.fixtures.any (fun fixtures => decide (fixtures.length ≤ 64)) &&
    (row.kind == "preset" || row.kind == "dialect") && !(row.dialectDigest == "" && row.outputDigest == "")

def checkRow (previous : String) (row : Row) : Except String Unit :=
  if row.form previous = false then .error "invalid catalog manifest row"
  else if (row.members.contains "dialectDigest" ∧ ¬digestPattern row.dialectDigest) ∨
      (row.members.contains "outputDigest" ∧ ¬digestPattern row.outputDigest) then .error "invalid manifest digest"
  else if row.kind = "preset" ∧
      (row.dialectDigest = "" ∨ row.members.contains "outputDigest" ∨ ¬(row.fixtures.getD []).isEmpty) then
    .error "invalid preset manifest row"
  else checkManifestFixtures [] (row.fixtures.getD [])

/-- The rows are in order, each of a directory there is. -/
def checkRows (sets : Table (List String)) (previous : String) : List Row → Except String Unit
  | [] => .ok ()
  | row :: rest => do
    checkRow previous row
    refuseWhen (((sets.get? row.path).getD []).isEmpty) "manifest entry directory is missing"
    checkRows sets row.id rest

/-- The directory of a file under `entries`, by its first three parts. -/
def directoryOf (file : String) : Option String :=
  match file.toList.splitOn '/' with
  | a :: b :: c :: _ :: _ => some (String.ofList a ++ "/" ++ String.ofList b ++ "/" ++ String.ofList c)
  | _ => none

/-- The files of each entry directory; the catalog's index is outside them all. -/
def entrySets (tree : Tree) (sets : Table (List String)) : List String → Except String (Table (List String))
  | [] => .ok sets
  | file :: rest =>
    if file = "entries/README.md" then do
      let raw ← tree.Read file (64 * 2 ^ 10)
      refuseWhen (64 * 2 ^ 10 < raw.length ∨ (Json.charsOf raw).isNone)
        "catalog index README is oversized or not UTF-8"
      entrySets tree sets rest
    else if hasPrefix file "entries/" = false then entrySets tree sets rest
    else match directoryOf file with
      | none => .error "unexpected file under entries"
      | some path => entrySets tree (sets.set path (((sets.get? path).getD []) ++ [file])) rest

/-! ## The files of an entry -/

/-- The files a row declares, in its directory. -/
def wantNames (row : Row) : List String :=
  ["README.md", "dialect.json", "entry.json"] ++
    if row.kind = "dialect" then
      (row.fixtures.getD []).flatMap fun f => f.files.map fun name => "fixtures/" ++ f.name ++ "/" ++ name
    else []

def hasSuffix (s suffix : String) : Bool := suffix.toList.isSuffixOf s.toList

def nameLimit (name : String) : Nat :=
  if name = "dialect.json" then 128 * 2 ^ 10
  else if hasPrefix name "fixtures/" then
    if hasSuffix name "/profiles.json" || hasSuffix name "/binding.json" then 64 * 2 ^ 10
    else if hasSuffix name "/preparation.json" then 8 * 2 ^ 20
    else 2 * 2 ^ 20
  else 64 * 2 ^ 10

def readNames (tree : Tree) (path : String) (retained : Nat) (files : Table (List UInt8)) :
    List String → Except String (Table (List UInt8))
  | [] => .ok files
  | name :: rest => do
    let raw ← tree.Read (path ++ "/" ++ name) (nameLimit name)
    let chars ← orRefuse (Json.charsOf raw) "entry file is oversized or not UTF-8"
    refuseWhen (nameLimit name < raw.length) "entry file is oversized or not UTF-8"
    refuseWhen (chars.tails.any scanned) "entry contains a recognized credential or local path"
    refuseWhen (fileLimit < retained + raw.length) "entry exceeds the retained-file limit"
    readNames tree path (retained + raw.length) (files.set name raw) rest

def sorted (l : List String) : List String := l.insertionSort (· ≤ ·)

def readFiles (tree : Tree) (row : Row) (files : List String) : Except String (Table (List UInt8)) := do
  let names := sorted (wantNames row)
  refuseWhen (sorted files ≠ names.map (fun name => row.path ++ "/" ++ name))
    "entry files do not match its declared manifest"
  let read ← readNames tree row.path 0 Table.empty names
  refuseWhen (Digest ((read.get? "entry.json").getD []) ≠ row.entryDigest ∨
      Digest ((read.get? "dialect.json").getD []) ≠ row.dialectDigest)
    "entry file digest mismatch"
  return read

/-! ## The metadata of an entry -/

structure Verification where
  date : String
  runner : String
  runtime : String
  readers : List String
  result : String

def readVerification (v : Json) : Option Verification := do
  let ms ← closed ["date", "runner", "runtime", "readers", "result"] v
  return ⟨← textField ms "date", ← textField ms "runner", ← textField ms "runtime",
    (← field ms "readers" (each text)).getD [], ← textField ms "result"⟩

def Verification.valid (v : Verification) : Bool :=
  datePattern v.date && tagPattern v.runner && tagPattern v.runtime && v.result == "agree" &&
    decide (1 ≤ v.readers.length ∧ v.readers.length ≤ 8)

def checkVerification (raw : Json) : Except String Unit :=
  match (readVerification raw).filter Verification.valid with
  | none => .error "invalid verification record"
  | some v =>
    if v.readers.all fun reader => decide (len reader ≤ 256) && readerPattern reader then .ok ()
    else .error "invalid verifier locator"

def checkRequirement (name value : String) : Except String Unit :=
  if name = "platform" then
    if platformPattern value && decide (value.length ≤ 64) then .ok () else .error "invalid platform"
  else if name = "inputProfile" ∨ name = "connectionProfile" then
    if digestPattern value then .ok () else .error "invalid required profile digest"
  else .error "unknown installation requirement"

/-- `regexp` matches of `platform` in a preset, whose length is told apart. -/
def presetRequires (requires : Table String) : Bool :=
  requires.entries.all fun m => m.1 == "platform" && m.2 != "" && decide (len m.2 ≤ 64) && platformPattern m.2

def entryKindForm (e : Tools) (p : Preset) (ms : List (String × Json)) : Except String Unit :=
  if p.kind = "preset" then
    if ["pack", "artifact", "fixtures"].any fun key => (ms.lookup key).isSome then
      .error "a preset has no pack, artifact identity or fixtures"
    else .ok ()
  else match p.pack, p.fixtures with
    | some pack, some fixtures => do
      refuseWhen (fixtures.length < 1 ∨ 64 < fixtures.length)
        "an input dialect requires a pack reference and bounded fixtures"
      refuseWhen ((e.scheme pack.id).getD "" = "" ∨ 2048 < len pack.id) "invalid pack identity"
      refuseWhen ((pack.versions == "") == pack.digests.isNone ∨ 64 < len pack.versions ∨ 64 < (pack.digests.getD []).length)
        "a pack reference requires versions or digests"
      refuseWhen (¬(pack.digests.getD []).all digestPattern) "invalid pack digest"
      refuseWhen (pack.digests = some []) "empty pack digests"
      (p.requires.getD Table.empty).entries.forM fun m => checkRequirement m.1 m.2
      (p.verification.getD []).forM checkVerification
    | _, _ => .error "an input dialect requires a pack reference and bounded fixtures"

def Preset.valid (row : Row) (p : Preset) : Bool :=
  p.entryVersion == 3 && p.kind == row.kind && p.id == row.id && p.direction == "input" && bounded p.title 200 &&
    (p.description == "" || bounded p.description 4096) && p.dialect.path == "dialect.json" &&
    (row.kind != "preset" || (p.dialect.version == 3 && p.dialect.formatVersion == "")) && digestPattern p.dialect.digest &&
    bounded p.author 100 && p.assertion == Exchange.assertion && p.verification.any (fun v => decide (v.length ≤ 32)) &&
    (row.kind != "preset" || (p.verification.getD []).isEmpty) && p.requires.isSome && !p.sourceKinds.isEmpty &&
    decide (p.sourceKinds.length ≤ 16) && decide (len p.licence ≤ 64) && licencePattern p.licence

def compatible (compatibility : Table String) : Bool :=
  compatibility.size == 2 && validRange ((compatibility.get? "desk").getD "") &&
    validRange ((compatibility.get? "runner").getD "")

def checkUpgrade : Option (Table String) → Except String Unit
  | none => .ok ()
  | some upgrade => if upgrade.size < 1 ∨ 32 < upgrade.size then .error "invalid upgrade notes"
    else if upgrade.all fun digest note => digestPattern digest && bounded note 2048 then .ok ()
    else .error "invalid upgrade note"

/-- The metadata of an entry of format 3, of the row's kind and identity. -/
def readEntry (e : Tools) (row : Row) (raw : List UInt8) : Except String Preset :=
  match (strict raw).bind members with
  | none => .error "invalid preset metadata"
  | some ms =>
    if entryFormat3 ms = false then .error "entry-version-unread: this importer requires Exchange entry format 3"
    else match readPreset (.obj ms) with
      | none => .error "invalid preset metadata"
      | some entry => do
        refuseWhen ((ms.lookup "description").isSome ∧ ¬bounded entry.description 4096)
          "invalid preset description"
        refuseWhen (¬entry.valid row) "invalid preset metadata"
        refuseWhen (row.kind = "preset" ∧ ¬((entry.requires.getD Table.empty).size ≤ 1 ∧ presetRequires (entry.requires.getD Table.empty)))
          "a preset cannot carry installation profiles"
        refuseWhen (¬entry.compatibility.all compatible) "invalid compatibility statement"
        checkUpgrade entry.upgrade
        entryKindForm e entry ms
        return entry

/-- The kind of a source; a preset's sources are unbound. -/
def sourceKind (row : Row) (source : List (String × Json)) : Except String String := do
  let kind ← orRefuse (looseVersion (source.lookup "kind")) "invalid source kind"
  refuseWhen (row.kind = "preset" ∧ (kind = "operation" ∨ kind = "research") ∧
      (["profile", "profileDigest", "webProfiles"].any fun member => (source.lookup member).isSome))
    "preset sources must be unbound"
  return kind

/-- The sources of a dialect are of the kinds the entry tells. -/
def checkSources (row : Row) (entry : Preset) (raw : List UInt8) : Except String Unit := do
  let doc ← orRefuse (readDialect true raw) "a preset requires a version-3 dialect"
  refuseWhen (row.kind = "preset" ∧ ¬writtenThree doc.version) "a preset requires a version-3 dialect"
  let kinds ← doc.sources.mapM (sourceKind row)
  refuseWhen (kinds.dedup.length ≠ entry.sourceKinds.length ∨ ¬entry.sourceKinds.Nodup ∨ ¬entry.sourceKinds.all kinds.contains)
    "sourceKinds does not match the dialect"

/-! ## Fixtures -/

/-- The report of a replay that gave the expected preparation. -/
def reportHolds (raw : List UInt8) (expected : String) : Bool :=
  match (Json.parse raw).bind members with
  | none => false
  | some ms =>
    loose ms "result" "" looseText == some "reading" && loose ms "digest" "" looseText == some expected &&
      loose ms "binding" "" looseText == some "not-checked"

def replayInput (files : Table (List UInt8)) (fixture : EntryFixture) : ReplayInput where
  dialect := (files.get? "dialect.json").getD []
  case := (files.get? (fixture.path ++ "/case.json")).getD []
  acquisitions := files.get? (fixture.path ++ "/sources.json")
  profiles := (files.get? (fixture.path ++ "/profiles.json")).getD []
  preparation := (files.get? (fixture.path ++ "/preparation.json")).getD []
  binding := files.get? (fixture.path ++ "/binding.json")
  expectedDigest := fixture.preparationDigest

def replayEach (files : Table (List UInt8)) (declared : List Fixture) (replay : ReplayInput → Except String (List UInt8))
    (reports : Table (List UInt8)) : List EntryFixture → Except String (Table (List UInt8))
  | [] => .ok reports
  | fixture :: rest => do
    refuseWhen (fixture.path ≠ "fixtures/" ++ fixture.name ∨ ¬digestPattern fixture.preparationDigest ∨ reports.has fixture.name)
      "invalid fixture reference"
    refuseWhen (¬declared.any (·.name == fixture.name)) "undeclared fixture"
    let input := replayInput files fixture
    refuseWhen (Digest input.preparation ≠ input.expectedDigest) "fixture preparation digest mismatch"
    let raw ← (replay input).mapError fun why => "Fixture " ++ fixture.name ++ ": " ++ why
    refuseWhen (¬reportHolds raw input.expectedDigest)
      ("Fixture " ++ fixture.name ++ " did not replay to the expected preparation")
    replayEach files declared replay (reports.set fixture.name raw) rest

def replayFixtures (files : Table (List UInt8)) (row : Row) (entry : Preset)
    (replay : ReplayInput → Except String (List UInt8)) : Except String (Table (List UInt8)) :=
  if (row.fixtures.getD []).length ≠ (entry.fixtures.getD []).length then
    .error "manifest fixtures differ from the entry"
  else replayEach files (row.fixtures.getD []) replay Table.empty (entry.fixtures.getD [])

/-- The canonical document, by the Runtime. -/
def checkDocument (e : Tools) (entry : Preset) (raw : List UInt8) : Except String (List UInt8 × String) :=
  match e.check with
  | none => .error "Runtime document checks are unavailable"
  | some check => do
    let (document, digest) ← check raw
    refuseWhen (digest ≠ entry.dialect.digest ∨ Digest document ≠ digest)
      "canonical dialect digest mismatch"
    return (document, digest)

/-- A dialect's fixtures are replayed; a preset has none. -/
def checkFixtures (e : Tools) (row : Row) (entry : Preset) (files : Table (List UInt8)) : Except String (Table (List UInt8)) :=
  if row.kind ≠ "dialect" then .ok Table.empty
  else do
    checkInputReference entry ((files.get? "dialect.json").getD [])
    let replay ← orRefuse e.replay "Offline preparation verification is unavailable"
    replayFixtures files row entry replay

def reviewPreset (e : Tools) (tree : Tree) (row : Row) (files : List String) : Except String Candidate := do
  let read ← readFiles tree row files
  let entry ← readEntry e row ((read.get? "entry.json").getD [])
  checkSources row entry ((read.get? "dialect.json").getD [])
  let (document, digest) ← checkDocument e entry ((read.get? "dialect.json").getD [])
  let reports ← checkFixtures e row entry read
  return { row := row, entry := entry, files := read, document := document, digest := digest, fixtureReports := reports }

/-! ## Review -/

def identities (e : Tools) (tree : Tree) : List Row → Except String (List Candidate)
  | [] => .ok []
  | row :: rest => do
    let metadata ← tree.Read (row.path ++ "/entry.json") (64 * 2 ^ 10)
    let c ← catalogIdentity e tree row metadata true
    let cs ← identities e tree rest
    return c :: cs

def Candidate.bytes (c : Candidate) : Nat := (c.files.entries.map fun f => f.2.length).sum

/-- The candidates and what is unavailable, the files of all candidates bounded. -/
def reviewRows (e : Tools) (tree : Tree) (sets : Table (List String)) (total : Nat) :
    List Row → Except String (List Candidate × List Unavailable)
  | [] => .ok ([], [])
  | row :: rest =>
    if row.kind ≠ "preset" ∧ e.replay.isNone then do
      let (cs, us) ← reviewRows e tree sets total rest
      return (cs, ⟨row.id, "This entry requires fixture replay or output validation, which this importer does not yet support."⟩ :: us)
    else match reviewPreset e tree row ((sets.get? row.path).getD []) with
      | .error why => do
        let (cs, us) ← reviewRows e tree sets total rest
        return (cs, ⟨row.id, why⟩ :: us)
      | .ok c => do
        refuseWhen (fileLimit < total + c.bytes) "catalog import exceeds the retained-file limit"
        let (cs, us) ← reviewRows e tree sets (total + c.bytes) rest
        return (c :: cs, us)

def Review (e : Tools) (tree : CatalogTree) (location tag commit : String) : Except String Release := do
  let _ ← CompareTags tag tag
  refuseWhen (¬commitPattern commit) "release tag must resolve to a commit"
  let manifest ← tree.Read "manifest.json" (2 ^ 20)
  refuseWhen (2 ^ 20 < manifest.length) "manifest exceeds 1 MiB"
  let rows ← orRefuse (readManifest manifest) "invalid or oversized catalog manifest"
  let files ← tree.Files
  let sets ← entrySets tree.toTree Table.empty files
  checkRows sets "" rows
  refuseWhen (sets.size ≠ (rows.map Row.path).dedup.length) "manifest does not enumerate every entry directory"
  let current ← identities e tree.toTree rows
  let (candidates, unavailable) ← reviewRows e tree.toTree sets 0 rows
  let out : Release := { location, tag, commit, manifest, candidates, unavailable }
  let history ← checkCatalogHistory e tree out current
  return { out with history := history }

end Exchange

end Desk
