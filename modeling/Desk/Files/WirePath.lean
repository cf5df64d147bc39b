import Desk.Lib.JsonScan
import Desk.Lib.Paths

/-!
# Paths from the wire

The chassis's lexical reading of a path that a request names.
-/

namespace Desk.WirePath

open JsonScan (byte)

abbrev Bytes : Type := List UInt8

/-! ## Refusals -/

inductive PathError where
  | required
  | outsideProject
  | stagingFile (clean : Bytes)
  | excludedDirectory (clean part : Bytes)
deriving DecidableEq

namespace PathError

def code : PathError → String
  | required => "bad-request"
  | outsideProject => "outside-root"
  | stagingFile _ => "staging-file"
  | excludedDirectory _ _ => "excluded-directory"

def message : PathError → Bytes
  | required => bytesOf "path is required"
  | outsideProject => bytesOf "path is not inside the project"
  | stagingFile clean => clean ++ bytesOf " is a staging file this desk owns, not a document"
  | excludedDirectory clean part => clean ++ bytesOf " is under " ++ part ++ bytesOf ", which this desk does not edit"

/-- A refusal for what the path names, not for how it is written. -/
def IsName : PathError → Prop
  | stagingFile _ | excludedDirectory _ _ => True
  | _ => False

end PathError

/-! ## Names -/

def slash : UInt8 := byte '/'

def dot : UInt8 := byte '.'

/-- `path.Clean`. -/
def clean (rel : Bytes) : Bytes := Paths.cleanInPlace slash dot rel

/-- `path.Base`. -/
def base (path : Bytes) : Bytes :=
  if path = [] then [dot]
  else
    let last := ((path.reverse.dropWhile (· == slash)).takeWhile (· != slash)).reverse
    if last = [] then [slash] else last

/-- `fs.ValidPath`. -/
def validPath (name : Bytes) : Bool :=
  ByteArray.validateUTF8 ⟨name.toArray⟩ &&
    (name == [dot] || (name.splitOn slash).all fun elem => elem != [] && elem != [dot] && elem != [dot, dot])

def stagingPrefix : Bytes := bytesOf ".jpack-desk-"

def skipDirs : List String := [".desk-private", ".git", "node_modules", "dist", ".venv", "vendor"]

/-- What a character folds to, among those that fold to an ASCII one. -/
def foldRune (c : Char) : Char := if c = '\u017f' then 's' else if c = '\u212a' then 'k' else c.toLower

/-- `strings.EqualFold`, where one side is ASCII. -/
def equalFold (name : Bytes) (ascii : String) : Bool :=
  (JsonScan.runes 0 name).map foldRune == ascii.toList.map foldRune

def isExcludedName (name : Bytes) : Bool := skipDirs.any (equalFold name)

/-! ## The path -/

def wireRelativePath (rel : Bytes) : Except PathError Bytes :=
  if rel = [] then .error .required
  else if 0 ∈ rel then .error .outsideProject
  else if byte '\\' ∈ rel then .error .outsideProject
  else if rel.head? = some slash ∨ byte ':' ∈ rel then .error .outsideProject
  else
    let clean := clean rel
    if clean = [dot] then .error .outsideProject
    else if !validPath clean then .error .outsideProject
    else if stagingPrefix <+: base clean then .error (.stagingFile clean)
    else
      match (clean.splitOn slash).find? isExcludedName with
      | some part => .error (.excludedDirectory clean part)
      | none => .ok clean

end Desk.WirePath
