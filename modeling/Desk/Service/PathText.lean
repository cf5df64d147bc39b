import Mathlib.Data.List.Destutter
import Mathlib.Data.List.DropRight
import Desk.Lib.Paths
import Desk.Lib.Replace
import Desk.Lib.Fold
import Desk.Lib.Text

/-!
# Sentences without paths

What a sentence says on the page in place of the paths in it: the paths that Desk knows
are replaced whole, the longest first, and every other path from a root up to where it ends.
-/

namespace Desk

namespace PathText

open Replace

abbrev Runes : Type := List Char

/-! ## Paths as they are printed -/

/-- `unicode.IsControl` -/
def isControl (r : Char) : Bool := decide (r.toNat < 0x20 ∨ 0x7f ≤ r.toNat ∧ r.toNat < 0xa0)

/-- The ranges of `unicode.Cf`, and the separators of lines and of paragraphs. -/
def formatRanges : List (Nat × Nat) :=
  [(0xad, 0xad), (0x600, 0x605), (0x61c, 0x61c), (0x6dd, 0x6dd), (0x70f, 0x70f), (0x890, 0x891), (0x8e2, 0x8e2),
    (0x180e, 0x180e), (0x200b, 0x200f), (0x2028, 0x202e), (0x2060, 0x2064), (0x2066, 0x206f), (0xfeff, 0xfeff),
    (0xfff9, 0xfffb), (0x110bd, 0x110bd), (0x110cd, 0x110cd), (0x13430, 0x1343f), (0x1bca0, 0x1bca3),
    (0x1d173, 0x1d17a), (0xe0001, 0xe0001), (0xe0020, 0xe007f)]

def isFormat (r : Char) : Bool := formatRanges.any fun e => decide (e.1 ≤ r.toNat ∧ r.toNat ≤ e.2)

def displayedRune (r : Char) : Char := if isControl r || isFormat r then '?' else r

/-- A path as the runtime prints it in a sentence. -/
def displayedPath (path : String) : String := String.ofList (path.toList.map displayedRune)

/-! ## Paths on a Unix system -/

/-- `filepath.IsAbs` -/
def isAbs (p : String) : Bool := hasPrefix p "/"

/-- `filepath.Clean` -/
def clean (p : String) : String := String.ofList (Paths.clean '/' '.' p.toList)

/-- `filepath.Join` of two elements. -/
def join (base name : String) : String :=
  if base = "" then if name = "" then "" else clean name
  else if name = "" then clean base
  else clean (base ++ "/" ++ name)

/-- `filepath.Base` -/
def base (p : String) : String :=
  if p = "" then "."
  else
    let last := (p.toList.rdropWhile (· == '/')).rtakeWhile (· != '/')
    if last = [] then "/" else String.ofList last

/-- What Desk runs on: its configuration, two settings of the environment, and where links lead. -/
structure Host where
  projectDir : String
  configuredDir : String
  jpackBin : String
  configDir : String
  signingKeyName : String
  signingKey : String
  config : String
  evalSymlinks : String → Option String

/-! ## Spans -/

structure PathSpan where
  value : String
  with_ : String
  directory : Bool
deriving DecidableEq

def isQuoteOrBracket (r : Char) : Bool := r ∈ ['"', '\'', '(', ')', '[', ']']

/-- `strings.TrimRight(_, ".,:;")` -/
def trimClause (text : Runes) : Runes := text.rdropWhile (· ∈ ['.', ',', ':', ';'])

def endsAPath (rest : Runes) : Bool :=
  match rest with
  | [] => true
  | next :: after =>
    isSpace next || next ∈ ['"', '\'', ')', ']', ';', ':'] ||
      (next == '.' || next == ',') && (after.head?.all isSpace)

/-- A directory where it stands as a path or with the rest of a path; the fuel is past the message's length. -/
def replaceDirectory (dir with_ : Runes) : Nat → Runes → Runes
  | 0, message => message
  | fuel + 1, message =>
    match cut dir message with
    | none => message
    | some (before, rest) =>
      let starts := before.getLast?.all fun r => isSpace r || r ∈ ['"', '(', '=', '[']
      if starts && rest.head?.any (fun r => r == '/' || r == '\\') then
        let tail := trimClause (rest.takeWhile fun r => !(isSpace r || isQuoteOrBracket r))
        before ++ (with_ ++ replaceDirectory dir with_ fuel (rest.drop tail.length))
      else if starts && endsAPath rest then before ++ (with_ ++ replaceDirectory dir with_ fuel rest)
      else before ++ (dir ++ replaceDirectory dir with_ fuel rest)

def replaceSpan (message : Runes) (span : PathSpan) : Runes :=
  if span.value = "" ∨ span.value = span.with_ then message
  else if span.directory then replaceDirectory span.value.toList span.with_.toList (message.length + 1) message
  else replaceEach span.value.toList span.with_.toList message

/-- The longest first, and of one length in the order given. -/
def longestFirst (spans : List PathSpan) : List PathSpan := spans.mergeSort fun a b => decide (len b.value ≤ len a.value)

def replaceSpans (message : Runes) (spans : List PathSpan) : Runes := (longestFirst spans).foldl replaceSpan message

namespace Host

variable (host : Host)

def pathSpellings (path : String) : List String := path :: clean path :: (host.evalSymlinks path).toList

/-- The beginnings of a path that end before a separator, less the root. -/
def foldersOf (path : Runes) : List Runes :=
  (List.range path.length).filterMap fun at_ =>
    if 1 ≤ at_ ∧ path[at_]? = some '/' ∧ (path.take at_).any (· != '/') then some (path.take at_) else none

def pathSpans (path : String) (directory : Bool) (with_ : String) : List PathSpan :=
  if isAbs path then
    ((host.pathSpellings path).flatMap fun spelling =>
      let forms (value : String) (directory : Bool) : List PathSpan :=
        [⟨value, with_, directory⟩, ⟨displayedPath value, with_, directory⟩]
      forms spelling directory ++ (foldersOf spelling.toList).flatMap fun folder => forms (String.ofList folder) true).eraseDups
  else []

def custodySpans (id with_ : String) : List PathSpan :=
  if isAbs host.configDir then
    let signing := join (join host.configDir "secrets") "signing"
    (if id = "" then [] else host.pathSpans (join signing (id ++ ".seed")) false with_ ++
      host.pathSpans (join signing (id ++ ".keys.jsonl")) false with_) ++
    host.pathSpans signing true with_ ++ host.pathSpans host.configDir true with_
  else []

/-- Every match of `/proc/self/fd/[0-9]+`; `skip` characters of the last one are still to come. -/
def procFDs : Nat → Runes → List String
  | _, [] => []
  | skip + 1, _ :: rest => procFDs skip rest
  | 0, c :: rest =>
    let name := "/proc/self/fd/".toList
    let digits := ((c :: rest).drop name.length).takeWhile Char.isDigit
    if name.isPrefixOf (c :: rest) ∧ digits ≠ [] then
      String.ofList (name ++ digits) :: procFDs (name.length + digits.length - 1) rest
    else procFDs 0 rest

def auditDirSpans (message : Runes) (auditDir : String) : List String :=
  if blank auditDir then []
  else
    let bases := [host.projectDir, host.configuredDir, "/proc/self/fd/3"] ++ (host.evalSymlinks host.projectDir).toList ++
      procFDs 0 message
    let spans := (bases.filter (· ≠ "")).map (join · auditDir) ++
      if isAbs auditDir then [clean auditDir, auditDir] ++ (host.evalSymlinks auditDir).toList else []
    ((spans ++ (spans.filter fun span => displayedPath span != span).map displayedPath).mergeSort fun a b =>
      decide (len b ≤ len a)).destutter (· ≠ ·)

/-- `strings.TrimSpace` -/
def trimmedText (s : String) : String := String.ofList (trim isSpace s.toList)

/-- The settings that a sentence names in place of their values. -/
def settings : List (String × String) :=
  [(trimmedText host.config, "JPACK_CONFIG"), (host.jpackBin, base host.jpackBin),
    (host.projectDir, "the project's folder"), (host.configuredDir, "the project's folder"),
    (displayedPath host.projectDir, "the project's folder"), (displayedPath host.configuredDir, "the project's folder")]

def held : Char := '\x00'

def knownSpans (message : Runes) (auditDir : String) : List PathSpan :=
  let key := trimmedText host.signingKey
  (host.auditDirSpans message auditDir).map (fun span => ⟨span, String.singleton held, false⟩) ++
    (if isAbs key then host.pathSpans key false (String.singleton held) else []) ++
    host.custodySpans host.signingKeyName (String.singleton held) ++
    (host.settings.filter fun path => path.1 != "" && path.1 != path.2 && isAbs path.1).map fun path => ⟨path.1, path.2, false⟩

end Host

/-! ## Every other path -/

/-- `\s` -/
def isBlank (r : Char) : Bool := r ∈ ['\t', '\n', '\x0c', '\r', ' ']

/-- `[\s"(=\[]`, after which a path may start. -/
def isBoundary (r : Char) : Bool := isBlank r || r ∈ ['"', '(', '=', '[']

/-- `[^\s"'()\[\]]` -/
def isPathRune (r : Char) : Bool := !(isBlank r || isQuoteOrBracket r)

/-- `/|[A-Za-z]:[\\/]`: how many characters of the text it takes. -/
def rootOf (text : Runes) : Option Nat :=
  match text with
  | '/' :: _ => some 1
  | c :: ':' :: d :: _ => if c.isAlpha && (d == '\\' || d == '/') then some 3 else none
  | _ => none

/-- A path at the start of the text: how long it is, and how much of the text the pattern takes. -/
abbrev Pattern : Type := Runes → Option (Nat × Nat)

def pathInMessage : Pattern := fun text =>
  (rootOf text).map fun _ => ((text.takeWhile isPathRune).length, (text.takeWhile isPathRune).length)

def runtimeFileNames : List Runes :=
  ["evaluations.jsonl".toList, "signatures.jsonl".toList, "stamps.jsonl".toList, "jpack.json".toList, "jpack.lock.json".toList]

/-- `[/\\](?:…)(?:$|[\s"'),.;:])`: how long the file's name is with its separator. -/
def fileName (text : Runes) : Option Nat :=
  match text with
  | [] => none
  | c :: rest =>
    if c == '/' || c == '\\' then
      (runtimeFileNames.find? fun name => name.isPrefixOf rest && (rest.drop name.length).head?.all fun r =>
        isBlank r || r ∈ ['"', '\'', ')', ',', '.', ';', ':']).map (·.length + 1)
    else none

/-- `[^\n":;]*?`, and the file's name. -/
def toFileName : Runes → Option Nat
  | [] => none
  | c :: rest =>
    match fileName (c :: rest) with
    | some n => some n
    | none => if c ∈ ['\n', '"', ':', ';'] then none else (toFileName rest).map (· + 1)

def pathToRuntimeFile : Pattern := fun text => do
  let root ← rootOf text
  let n ← toFileName (text.drop root)
  return (root + n, root + n + 1)

/-- What stands for a path, and the punctuation of the clause that it ends. -/
def shownPath (path : Runes) : Runes :=
  let kept := trimClause path
  let base := kept.rtakeWhile fun r => r != '/' && r != '\\'
  (if base ∈ runtimeFileNames then '\u2026' :: '/' :: base else ['\u2026']) ++ path.drop kept.length

/-- Every match from the left; `skip` characters of the last one are still to come. -/
def withoutFrom (pattern : Pattern) : Nat → Bool → Runes → Runes
  | _, _, [] => []
  | skip + 1, starts, _ :: rest => withoutFrom pattern skip starts rest
  | 0, starts, c :: rest =>
    match if starts then pattern (c :: rest) else none with
    | some (n, taken) =>
      shownPath ((c :: rest).take n) ++ (((c :: rest).take taken).drop n ++ withoutFrom pattern (taken - 1) false rest)
    | none => c :: withoutFrom pattern 0 (isBoundary c) rest

def withoutPathsMatching (message : Runes) (pattern : Pattern) : Runes := withoutFrom pattern 0 true message

def withoutAbsolutePaths (message : Runes) : Runes :=
  withoutPathsMatching (withoutPathsMatching message pathToRuntimeFile) pathInMessage

/-- A message for the page, where `auditDir` is the directory that `jpack.json` declares for the audit. -/
def withoutPathsUnder (host : Host) (message auditDir : String) : String :=
  let message := message.toList.filter (· != Host.held)
  String.ofList (replaceEach [Host.held] ['\u2026'] (withoutAbsolutePaths (replaceSpans message (host.knownSpans message auditDir))))

end PathText

end Desk
