import Mathlib.Data.List.Infix
import Desk.Lib.Fold
import Desk.Lib.JsonScan
import Desk.Lib.JsonTokens
import Desk.Stamping.Scheduler
import Mathlib.Algebra.Ring.Int.Defs

/-!
# The witness's answers

What Desk makes of an answer of the witness, and the scan that keeps the submitter's
token out of it. A time is in nanoseconds; a header is its canonical name with one of
its values.
-/

namespace Desk

namespace Witness

open Json (Decoder Token)
open JsonScan (runes)
open Stamping (sidecarString sidecarInteger memberText keyIDForm readCheckpointLine CheckpointHead)

/-! ## Statements -/

def witnessLineLimit : Nat := 4096

def signatureForm (s : String) : Bool := hexForm "" 128 s

/-- `^[0-9]{4}-[0-9]{2}-[0-9]{2}T[0-9]{2}:[0-9]{2}:[0-9]{2}Z$` -/
def witnessedAtForm (s : String) : Bool :=
  s.toList.map (fun c => if c.isDigit then '0' else c) == "0000-00-00T00:00:00Z".toList

def witnessKinds : List String := ["checkpoint", "conflict", "retirement"]

/-- The members of an object that come after its opening bracket. -/
def collectMembers : Nat → Decoder → List (String × List Char) → Option (List (String × List Char))
  | 0, _, _ => none
  | fuel + 1, d, members =>
    if d.more then
      match d.token with
      | some (.text name, d) =>
        if members.any (fun m => m.1 == name) then none
        else d.decodeRaw.bind fun r => collectMembers fuel r.2 (members ++ [(name, r.1)])
      | _ => none
    else
      match d.token with
      | some (.delim '\x7d', _) => some members
      | _ => none

/-- The members of the object a text begins with, each named once. -/
def exactMembers (element : List Char) : Option (List (String × List Char)) :=
  match (Decoder.open_ element).token with
  | some (.delim '\x7b', d) => collectMembers (element.length + 1) d []
  | _ => none

structure WitnessStatement where
  kind : String
  checkpoint : CheckpointHead
  index : Nat

/-- An index from 0 on. -/
def statementIndex (raw : List Char) : Option Nat := if raw = ['0'] then some 0 else sidecarInteger raw

def statementOf (members : List (String × List Char)) : Option WitnessStatement := do
  let text (name : String) (form : String → Bool) : Option String := (sidecarString (memberText members name)).filter form
  let _ ← text "witnessVersion" (· == "1")
  let kind ← text "kind" witnessKinds.contains
  let _ ← text "witnessedAt" witnessedAtForm
  let _ ← text "keyId" keyIDForm
  let _ ← text "signature" signatureForm
  let index ← statementIndex (memberText members "index")
  if memberText members "prevSignature" = "null".toList ∨ (text "prevSignature" signatureForm).isSome then do
    let checkpoint ← readCheckpointLine (memberText members "checkpoint")
    return ⟨kind, checkpoint, index⟩
  else none

/-- One line without its newline. -/
def readWitnessStatement (line : List UInt8) : Option WitnessStatement :=
  if line = [] ∨ witnessLineLimit < line.length then none
  else match Json.charsOf line with
    | none => none
    | some chars =>
      if (Json.parseChars chars).isNone then none
      else match exactMembers chars with
        | some members => if members.length = 8 then statementOf members else none
        | none => none

/-! ## Answers -/

structure WitnessOriginal where
  status : Int
  contentType : List UInt8
  retryAfter : List UInt8
  body : List UInt8

structure WitnessReply where
  reached : Bool := false
  status : Int := 0
  reason : String := ""
  error : String := ""
  /-- In seconds. -/
  retryAfter : Int := 0
  retryUntil : Option Int := none
  credential : Bool := false
  statements : List (List UInt8) := []
  original : Option WitnessOriginal := none

abbrev Header : Type := List (List UInt8 × List UInt8)

/-- `Get` of a canonical name. -/
def Header.get (h : Header) (name : String) : List UInt8 := ((h.find? fun e => e.1 == bytesOf name).map Prod.snd).getD []

def newline : UInt8 := 10

/-- The lines of a body that ends with a newline. -/
def linesOf (body : List UInt8) : List (List UInt8) := (body.splitOn newline).dropLast

/-- A list of statement lines, one at least. -/
def statementsBody (body : List UInt8) : Option (List (List UInt8)) :=
  if body = [] ∨ body.getLast? ≠ some newline then none
  else if (linesOf body).all fun line => (readWitnessStatement line).isSome then
    some ((linesOf body).map fun line => line ++ [newline])
  else none

/-- `unicode.ToLower`, as far as it leads to a letter of ASCII. -/
def lower (c : Char) : Char := if c = '\u0130' then 'i' else if c = '\u212a' then 'k' else c.toLower

/-- The media type of an answer. -/
def mediaOf (h : Header) : List Char :=
  (trim isSpace ((runes 0 (h.get "Content-Type")).takeWhile (· != ';'))).map lower

/-- `^[a-z][a-z0-9-]{0,63}$` -/
def witnessReasonForm (s : String) : Bool :=
  match s.toList with
  | [] => false
  | c :: rest => c.isLower && decide (rest.length ≤ 63) && rest.all fun c => c.isLower || c.isDigit || c == '-'

/-- `json.Unmarshal` into texts: null is none, and a null among them is an empty one. -/
def unmarshalTexts (raw : List Char) : Option (List String) :=
  match Json.parseChars raw with
  | some .null => some []
  | some (.arr items) => items.mapM fun v => match v with
    | .str s => some s
    | .null => some ""
    | _ => none
  | _ => none

/-- The statements up to the first text that is none, and whether there is no such text. -/
def statementTexts : List String → List (List UInt8) × Bool
  | [] => ([], true)
  | text :: rest =>
    if (readWitnessStatement (bytesOf text)).isSome then
      ((bytesOf text ++ [newline]) :: (statementTexts rest).1, (statementTexts rest).2)
    else ([], false)

/-- A refusal with its sentence and its reason. -/
def readRefusal (reply : WitnessReply) (status : Int) (members : List (String × List Char)) (sentence reason : String) :
    WitnessReply :=
  let told := { reply with reached := true, reason := reason, error := sentence }
  if members.any (fun m => m.1 == "statements") then
    if status ≠ 409 then reply
    else match unmarshalTexts (memberText members "statements") with
      | none => reply
      | some [] => reply
      | some texts =>
        let (statements, all) := statementTexts texts
        if ¬all then { reply with statements := statements }
        else if members.length ≠ 3 then reply
        else { told with statements := statements }
  else if members.length ≠ 2 then reply
  else told

def readWitnessReply (status : Int) (header : Header) (body : List UInt8) (empty : Bool) : WitnessReply :=
  let reply : WitnessReply := { status := status }
  if status = 200 then
    if mediaOf header ≠ "application/jsonl".toList then reply
    else if empty && body.isEmpty then { reply with reached := true }
    else match statementsBody body with
      | some lines => { reply with reached := true, statements := lines }
      | none => reply
  else if mediaOf header ≠ "application/json".toList ∨ (Json.parseChars (runes 0 body)).isNone then reply
  else match exactMembers (runes 0 body) with
    | none => reply
    | some members =>
      match sidecarString (memberText members "error"), sidecarString (memberText members "reason") with
      | some sentence, some reason =>
        if sentence = "" ∨ ¬witnessReasonForm reason then reply else readRefusal reply status members sentence reason
      | _, _ => reply

/-! ## Retry-After -/

def second : Int := 1000000000

def witnessRetryMost : Int := 10 * 365 * 24 * 3600 * second

/-- `strconv.ParseInt` in ten; none past 64 bits. -/
def parseInt (chars : List Char) : Option Int :=
  let (negative, digits) := match chars with
    | '-' :: rest => (true, rest)
    | '+' :: rest => (false, rest)
    | rest => (false, rest)
  if digits = [] ∨ ¬digits.all Char.isDigit then none
  else
    let n : Int := (digits.foldl (fun n c => n * 10 + (c.toNat - '0'.toNat)) 0 : Nat)
    if negative then if n ≤ 2 ^ 63 then some (-n) else none else if n < 2 ^ 63 then some n else none

/-- `http.ParseTime` is given. -/
def retryUntil (parseTime : List Char → Option Int) (value : List UInt8) (received : Int) : Option Int :=
  let value := trim isSpace (runes 0 value)
  if value = [] then none
  else match parseInt value with
    | some seconds =>
      if seconds < 0 then none
      else if witnessRetryMost / second < seconds then some (received + witnessRetryMost)
      else some (received + seconds * second)
    | none => (parseTime value).map fun at_ =>
      if at_ < received then received else if received + witnessRetryMost < at_ then received + witnessRetryMost else at_

/-! ## Credentials -/

/-- `[A-Za-z0-9]` where case is folded. -/
def isFolded (c : Char) : Bool := c.isAlphanum || c == '\u017f' || c == '\u212a'

def isBearerChar (c : Char) : Bool := isFolded c || "._~+/=-".toList.contains c

def isSegmentChar (c : Char) : Bool := isFolded c || c == '_' || c == '-'

def regexSpace (c : Char) : Bool := [' ', '\t', '\n', '\x0c', '\r'].contains c

/-- A text that begins with the letters, in either case, and what follows them. -/
def afterWord (word : List Char) (text : List Char) : Option (List Char) :=
  if (text.take word.length).map Char.toLower = word then some (text.drop word.length) else none

/-- `bearer\s+[A-Za-z0-9._~+/=-]{8,}` -/
def bearerHere (text : List Char) : Bool :=
  (afterWord "bearer".toList text).any fun rest =>
    rest.head?.any regexSpace && decide (8 ≤ ((rest.dropWhile regexSpace).takeWhile isBearerChar).length)

/-- `eyJ[A-Za-z0-9_-]{4,}\.[A-Za-z0-9_-]{4,}` -/
def segmentsHere (text : List Char) : Bool :=
  (afterWord "eyj".toList text).any fun rest =>
    decide (4 ≤ (rest.takeWhile isSegmentChar).length) &&
      match rest.dropWhile isSegmentChar with
      | '.' :: rest => decide (4 ≤ (rest.takeWhile isSegmentChar).length)
      | _ => false

/-- `bearerLike`, after a character that is of a word or is not. -/
def bearerFrom : Bool → List Char → Bool
  | _, [] => false
  | word, c :: rest => (!word && bearerHere (c :: rest)) || segmentsHere (c :: rest) || bearerFrom (c.isAlphanum || c == '_') rest

def bearerLike (text : List Char) : Bool := bearerFrom false text

/-- The token, and its parts of eight bytes and more. -/
def partsOf (token : List UInt8) : List (List UInt8) :=
  if token = [] then [] else token :: (token.splitOn 0x2e).filter fun part => decide (8 ≤ part.length)

def contains (parts : List (List UInt8)) (text : List UInt8) : Bool := parts.any fun part => decide (part <:+: text)

/-- A string as it is read again: without the spaces around it. -/
def nestedOf (text : String) : String := String.ofList (trim isSpace text.toList)

/-- It begins as an object, an array or a string does. -/
def begins (text : String) : Bool := text.toList.head?.any fun c => c == '\x7b' || c == '[' || c == Json.quoteChar

/-- Whether a string of the JSON texts, or of those in their strings, carries a part. -/
def logicalCredential (parts : List (List UInt8)) (data : List UInt8) : Bool :=
  (Decoder.open_ (runes 0 data)).texts.any fun text =>
    bearerLike text.toList || contains parts (bytesOf text) ||
      -- each nested text is shorter than the one it is in
      if _h : 1 < len (nestedOf text) ∧ len (nestedOf text) < data.length ∧ begins (nestedOf text) then
        logicalCredential parts (bytesOf (nestedOf text))
      else false
termination_by data.length
decreasing_by
  rw [length_bytesOf]
  omega

def headerLine (e : List UInt8 × List UInt8) : List UInt8 := e.1 ++ bytesOf ": " ++ e.2

def carriesCredential (token : List UInt8) (header : Header) (body : List UInt8) : Bool :=
  bearerLike (runes 0 body) || contains (partsOf token) body ||
    header.any (fun e => contains (partsOf token) (headerLine e)) || logicalCredential (partsOf token) body

def reasonOf (body token : List UInt8) : String :=
  match (exactMembers (runes 0 body)).bind fun members => sidecarString (memberText members "reason") with
  | some reason => if witnessReasonForm reason && !carriesCredential token [] (bytesOf reason) then reason else ""
  | none => ""

/-! ## Asking -/

def witnessAnswerLimit : Nat := 64 * 2 ^ 10

structure Response where
  status : Int
  header : Header
  /-- None is past its bound, or broke off. -/
  body : Option (List UInt8)
  received : Int

/-- `ask`; there is no response where the request failed. -/
def ask (parseTime : List Char → Option Int) (response : Option Response) (empty : Bool) (token : List UInt8) : WitnessReply :=
  match response with
  | none => {}
  | some r => match r.body with
    | none => { status := r.status }
    | some body =>
      let reply : WitnessReply :=
        if carriesCredential token r.header body then { status := r.status, credential := true, reason := reasonOf body token }
        else
          let reply := readWitnessReply r.status r.header body empty
          if reply.reached ∧ body.length ≤ witnessAnswerLimit then
            { reply with original := some ⟨r.status, r.header.get "Content-Type", r.header.get "Retry-After", body⟩ }
          else reply
      match retryUntil parseTime (r.header.get "Retry-After") r.received with
      | some until_ => { reply with retryUntil := some until_, retryAfter := (until_ - r.received) / second }
      | none => reply

/-- A submission is answered with one statement. -/
def submit (parseTime : List Char → Option Int) (response : Option Response) (token : List UInt8) : WitnessReply :=
  let reply := ask parseTime response false token
  if reply.reached ∧ reply.status = 200 ∧ reply.statements.length ≠ 1 then
    { status := reply.status, original := reply.original, retryUntil := reply.retryUntil, retryAfter := reply.retryAfter }
  else reply

end Witness

end Desk
