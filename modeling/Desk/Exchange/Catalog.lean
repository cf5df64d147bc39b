import Desk.Lib.Json
import Desk.Lib.Table
import Mathlib.Algebra.Ring.Int.Defs

/-!
# Catalogs

A release of a catalog: its manifest, the metadata of its entries, and how each
is read. Metadata has exact closed members, none of them null.
-/

namespace Desk

namespace Exchange

/-! ## Forms -/

/-- `fmt.Sprintf("sha256:%x", sha256.Sum256(raw))`. -/
def Digest (raw : List UInt8) : String := String.ofList ("sha256:".toList ++ hexOf (Sha256.sum raw))

def isLower (c : Char) : Bool := decide ('a' ≤ c ∧ c ≤ 'z')

def isLowerDigit (c : Char) : Bool := c.isDigit || isLower c

/-- One character or more, each of `p`. -/
def someOf (p : Char → Bool) (l : List Char) : Bool := !l.isEmpty && l.all p

/-- `^[a-z0-9]+(\.[a-z0-9-]+)+$` -/
def idPattern (s : String) : Bool :=
  match s.toList.splitOn '.' with
  | first :: second :: rest => someOf isLowerDigit first && (second :: rest).all (someOf fun c => isLowerDigit c || c == '-')
  | _ => false

def digestPattern (s : String) : Bool := hexForm "sha256:" 64 s

/-- `0|[1-9][0-9]*` -/
def decimal : List Char → Bool
  | [] => false
  | c :: rest => if c = '0' then rest.isEmpty else decide ('1' ≤ c ∧ c ≤ '9') && rest.all Char.isDigit

def tagPattern (s : String) : Bool :=
  match s.toList with
  | 'v' :: rest => match rest.splitOn '.' with
    | [major, minor, patch] => decimal major && decimal minor && decimal patch
    | _ => false
  | _ => false

def commitPattern (s : String) : Bool := s.toList.all isLowerHex && (s.length == 40 || s.length == 64)

/-- `^[a-z0-9]+(-[a-z0-9]+)*$` -/
def fixtureName (s : String) : Bool := (s.toList.splitOn '-').all (someOf isLowerDigit)

/-- `^[A-Za-z0-9][A-Za-z0-9.+-]*$` -/
def licencePattern (s : String) : Bool :=
  match s.toList with
  | [] => false
  | c :: rest => c.isAlphanum && rest.all fun c => c.isAlphanum || c == '.' || c == '+' || c == '-'

/-- `^[a-z][a-z0-9-]*$` -/
def platformPattern (s : String) : Bool :=
  match s.toList with
  | [] => false
  | c :: rest => isLower c && rest.all fun c => isLowerDigit c || c == '-'

/-- `^\d{4}-\d{2}-\d{2}$` -/
def datePattern (s : String) : Bool :=
  match s.toList.splitOn '-' with
  | [year, month, day] => [(year, 4), (month, 2), (day, 2)].all fun p => p.1.all Char.isDigit && p.1.length == p.2
  | _ => false

def isLocatorChar (c : Char) : Bool := c.isAlphanum || c == '_' || c == '.' || c == '-'

/-- An owner, a name and a file, and the revision after an `@`. -/
def readerPattern (s : String) : Bool :=
  match s.toList.splitOn '@' with
  | [path, revision] => revision.all isLowerHex && revision.length == 40 &&
    match path.splitOn '/' with
    | owner :: name :: file :: rest => someOf isLocatorChar owner && someOf isLocatorChar name &&
      (file :: rest).all (·.all isLocatorChar) && !(file.isEmpty && rest.isEmpty)
    | _ => false
  | _ => false

def bounded (s : String) (n : Nat) : Bool := s != "" && decide (s.length ≤ n)

/-- Decimal numbers without leading zeros, part by part. -/
def compareParts : List (List Char) → List (List Char) → Int
  | a :: as, b :: bs =>
    if a.length < b.length then -1
    else if b.length < a.length then 1
    else if a < b then -1
    else if b < a then 1
    else compareParts as bs
  | _, _ => 0

def CompareTags (a b : String) : Except String Int :=
  if 256 < len a ∨ 256 < len b ∨ ¬tagPattern a ∨ ¬tagPattern b then
    .error "choose release tags in vMAJOR.MINOR.PATCH form"
  else .ok (compareParts (a.toList.tail.splitOn '.') (b.toList.tail.splitOn '.'))

/-- A version, or a lower bound and a greater upper one. -/
def validRange (s : String) : Bool :=
  decide (len s ≤ 64) && ((CompareTags s s).isOk ||
    match s.toList.splitOn ' ' with
    | ['>' :: '=' :: low, '<' :: high] => match CompareTags (String.ofList low) (String.ofList high) with
      | .ok n => decide (n < 0)
      | .error _ => false
    | _ => false)

/-! ## Documents -/

mutual

/-- No null, no member twice, and the nesting bounded. -/
def walk : Nat → Json → Bool
  | depth, .arr items => match depth with
    | 0 => false
    | depth + 1 => walkItems depth items
  | depth, .obj members => match depth with
    | 0 => false
    | depth + 1 => decide ((members.map fun m => m.1).Nodup) && walkMembers depth members
  | _, .null => false
  | depth, _ => decide (0 < depth)

def walkItems : Nat → List Json → Bool
  | _, [] => true
  | depth, v :: rest => walk depth v && walkItems depth rest

def walkMembers : Nat → List (String × Json) → Bool
  | _, [] => true
  | depth, (_, v) :: rest => walk depth v && walkMembers depth rest

end

/-- Catalog metadata, before the members it may have are told. -/
def strict (raw : List UInt8) : Option Json := do
  let chars ← Json.charsOf raw
  let v ← Json.parseChars chars
  if Json.validateEscapes chars && walk 65 v then return v else none

def members : Json → Option (List (String × Json))
  | .obj ms => some ms
  | _ => none

def text : Json → Option String
  | .str s => some s
  | _ => none

/-- An `int`. -/
def integer : Json → Option Int
  | .num literal => literal.toInt?.filter fun n => decide (-2 ^ 63 ≤ n ∧ n < 2 ^ 63)
  | _ => none

def each {α : Type} (read : Json → Option α) : Json → Option (List α)
  | .arr items => items.mapM read
  | _ => none

/-- A `map[string]string`. -/
def texts (v : Json) : Option (Table String) := do
  let entries ← (← members v).mapM fun m => (text m.2).map fun s => (m.1, s)
  return entries.foldl (fun t m => t.set m.1 m.2) Table.empty

/-- The members of a struct that has only those of `allowed`. -/
def closed (allowed : List String) (v : Json) : Option (List (String × Json)) :=
  (members v).filter fun ms => ms.all fun m => allowed.contains m.1

/-- A member that may be absent. -/
def field {α : Type} (ms : List (String × Json)) (name : String) (read : Json → Option α) : Option (Option α) :=
  match ms.lookup name with
  | none => some none
  | some v => (read v).map some

def textField (ms : List (String × Json)) (name : String) : Option String := (field ms name text).map (·.getD "")

/-! ## Manifests -/

structure Fixture where
  name : String
  files : List String
  deriving DecidableEq

/-- A row of the manifest, with the names of the members it is written with. -/
structure Row where
  id : String
  kind : String
  path : String
  entryDigest : String
  dialectDigest : String
  outputDigest : String
  fixtures : Option (List Fixture)
  members : List String
  deriving DecidableEq

def readFixture (v : Json) : Option Fixture := do
  let ms ← closed ["name", "files"] v
  return ⟨← textField ms "name", (← field ms "files" (each text)).getD []⟩

def readRow (v : Json) : Option Row := do
  let ms ← closed ["id", "kind", "path", "entryDigest", "dialectDigest", "outputDigest", "fixtures"] v
  return {
    id := ← textField ms "id"
    kind := ← textField ms "kind"
    path := ← textField ms "path"
    entryDigest := ← textField ms "entryDigest"
    dialectDigest := ← textField ms "dialectDigest"
    outputDigest := ← textField ms "outputDigest"
    fixtures := ← field ms "fixtures" (each readFixture)
    members := ms.map fun m => m.1 }

/-- The rows of a manifest, at most 1024. -/
def readManifest (raw : List UInt8) : Option (List Row) :=
  ((strict raw).bind (each readRow)).filter fun rows => decide (rows.length ≤ 1024)

/-- The directory of an entry: its publisher and its name. -/
def entryPath (id : String) : String :=
  match id.toList.span (· != '.') with
  | (publisher, _ :: name) => "entries/" ++ String.ofList publisher ++ "/" ++ String.ofList name
  | (publisher, []) => "entries/" ++ String.ofList publisher

/-! ## Entries -/

structure Document where
  path : String := ""
  version : Int := 0
  formatVersion : String := ""
  digest : String := ""
  deriving DecidableEq

structure PackReference where
  id : String
  versions : String
  digests : Option (List String)

structure ArtifactIdentity where
  id : String
  version : String
  deriving DecidableEq

structure EntryFixture where
  name : String
  path : String
  preparationDigest : String

structure Preset where
  pack : Option PackReference := none
  artifact : Option ArtifactIdentity := none
  fixtures : Option (List EntryFixture) := none
  entryVersion : Int := 0
  kind : String := ""
  id : String := ""
  title : String := ""
  description : String := ""
  direction : String := ""
  dialect : Document := {}
  requires : Option (Table String) := none
  sourceKinds : List String := []
  licence : String := ""
  author : String := ""
  assertion : String := ""
  verification : Option (List Json) := none
  compatibility : Option (Table String) := none
  upgrade : Option (Table String) := none

def readDocument (v : Json) : Option Document := do
  let ms ← closed ["path", "dialectVersion", "formatVersion", "digest"] v
  return {
    path := ← textField ms "path"
    version := (← field ms "dialectVersion" integer).getD 0
    formatVersion := ← textField ms "formatVersion"
    digest := ← textField ms "digest" }

def readArtifact (v : Json) : Option ArtifactIdentity := do
  let ms ← closed ["id", "version"] v
  return ⟨← textField ms "id", ← textField ms "version"⟩

def readPack (v : Json) : Option PackReference := do
  let ms ← closed ["id", "versions", "digests"] v
  return ⟨← textField ms "id", ← textField ms "versions", ← field ms "digests" (each text)⟩

def readEntryFixture (v : Json) : Option EntryFixture := do
  let ms ← closed ["name", "path", "preparationDigest"] v
  return ⟨← textField ms "name", ← textField ms "path", ← textField ms "preparationDigest"⟩

def readPreset (v : Json) : Option Preset := do
  let ms ← closed ["pack", "artifact", "fixtures", "entryVersion", "kind", "id", "title", "description", "direction", "dialect",
    "requires", "sourceKinds", "licence", "author", "assertion", "verification", "compatibility", "upgrade"] v
  return {
    pack := ← field ms "pack" readPack
    artifact := ← field ms "artifact" readArtifact
    fixtures := ← field ms "fixtures" (each readEntryFixture)
    entryVersion := (← field ms "entryVersion" integer).getD 0
    kind := ← textField ms "kind"
    id := ← textField ms "id"
    title := ← textField ms "title"
    description := ← textField ms "description"
    direction := ← textField ms "direction"
    dialect := (← field ms "dialect" readDocument).getD {}
    requires := ← field ms "requires" texts
    sourceKinds := (← field ms "sourceKinds" (each text)).getD []
    licence := ← textField ms "licence"
    author := ← textField ms "author"
    assertion := ← textField ms "assertion"
    verification := ← field ms "verification" (each some)
    compatibility := ← field ms "compatibility" texts
    upgrade := ← field ms "upgrade" texts }

/-! ## Dialects -/

/-- A letter as `encoding/json` matches names: without its case. -/
def foldChar (c : Char) : Char :=
  if c = '\u017f' then 's' else if c = '\u212a' then 'k' else c.toLower

def foldsTo (name key : String) : Bool := key == name || key.toList.map foldChar == name.toList.map foldChar

/-- A member of no closed struct: the last of its name, read after those before it. -/
def loose {α : Type} (ms : List (String × Json)) (name : String) (zero : α) (read : α → Json → Option α) : Option α :=
  (ms.filter fun m => foldsTo name m.1).foldlM (fun held m => read held m.2) zero

/-- A string is left as it was by null. -/
def looseText (held : String) : Json → Option String
  | .null => some held
  | .str s => some s
  | _ => none

/-- One source: what a map held, with the members that come. -/
def looseSource (held : List (String × Json)) : Json → Option (List (String × Json))
  | .null => some []
  | .obj ms => some (ms.reverse ++ held)
  | _ => none

def looseSources (held : List (List (String × Json))) : Json → Option (List (List (String × Json)))
  | .null => some []
  | .arr items => items.zipIdx.mapM fun item => looseSource (held.getD item.2 []) item.1
  | _ => none

/-- What is read of a dialect. -/
structure DialectHead where
  version : Option Json := none
  formatVersion : String := ""
  id : String := ""
  sources : List (List (String × Json)) := []

/-- A document that `json.Unmarshal` reads into no more than these members. -/
def readDialect (withSources : Bool) (raw : List UInt8) : Option DialectHead := do
  match ← Json.parse raw with
  | .null => return {}
  | .obj ms => return {
      version := ← loose ms "version" none fun _ v => some (some v)
      formatVersion := ← loose ms "formatVersion" "" looseText
      id := ← loose ms "id" "" looseText
      sources := ← if withSources then loose ms "sources" [] looseSources else some [] }
  | _ => none

/-! ## Releases -/

/-- A pinned commit's blobs. -/
structure Tree where
  Files : Except String (List String)
  Read : String → Nat → Except String (List UInt8)

structure HistoricalTree where
  tag : String
  commit : String
  tree : Tree

/-- A tree, and the earlier releases where it has a history. -/
structure CatalogTree extends Tree where
  PriorReleases : Option (String → Except String (List HistoricalTree))

structure ReplayInput where
  dialect : List UInt8
  case : List UInt8
  acquisitions : Option (List UInt8)
  profiles : List UInt8
  preparation : List UInt8
  binding : Option (List UInt8)
  expectedDigest : String

/-- What a review is given: the Runtime's check and replay, and `url.Parse`, of which it reads the scheme. -/
structure Tools where
  check : Option (List UInt8 → Except String (List UInt8 × String))
  replay : Option (ReplayInput → Except String (List UInt8))
  scheme : String → Option String

structure Candidate where
  row : Row
  entry : Preset := {}
  files : Table (List UInt8) := Table.empty
  document : List UInt8 := []
  digest : String := ""
  fixtureReports : Table (List UInt8) := Table.empty

structure Unavailable where
  id : String
  reason : String

structure Pin where
  location : String
  tag : String
  commit : String

structure Release where
  history : List Pin := []
  location : String
  tag : String
  commit : String
  manifest : List UInt8 := []
  candidates : List Candidate := []
  unavailable : List Unavailable := []

end Exchange

end Desk
