import Desk.Canon.Receipt
import Desk.Lib.Fold

/-!
# The source ledger

The searches and the reads of one run, the excerpts cited from them, what a
checkpoint saves of them and how they are restored. What a dialect reads out of an
answer is a given function, and a time stands for its ISO text, which `Date` reads
back. Subscribers and the derived views are left out.
-/

namespace Desk

namespace Sources

open Verify

/-! ## Records -/

inductive Kind where
  | search | page
deriving DecidableEq

structure Request where
  source : Units
  dialect : Units
  query : Option Units
  url : Option Units

/-- A page that was read: its text, and what else the reader told of it. -/
structure ReadDocument (D : Type) where
  text : Units
  told : D

/-- `READ_DIALECTS` and `SEARCH_DIALECTS`: what each dialect reads out of a result, `none` where it throws. -/
structure Dialects (H D : Type) where
  document : Units → Option (JsonNode → Option (ReadDocument D))
  hits : Units → Option (JsonNode → Option H)

structure Adapter where
  name : Units
  version : Units
  digest : Units

/-- The call index is the literal, which `Number` reads. -/
structure AcquisitionSummary where
  session : Units
  callIndex : Units
  signature : Units
  resultDigest : Units
  observedAt : Units
  endpoint : Option Units
  snapshot : Option Units
  peerIdentity : Option Units
  adapter : Option Adapter

/-- `[start, stop)` of the source's text. -/
structure Excerpt where
  id : Units
  sourceId : Units
  start : Nat
  stop : Nat
  text : Units

structure Response where
  text : Units
  result : JsonNode
  receipt : JsonNode
  salts : List (Units × Units)

inductive VerificationState where
  | unchecked
  | verified (time keyId : Units)
  | failed (time : Units) (findings : List Units)

structure SourceRecord (H D : Type) where
  id : Units
  kind : Kind
  session : Units
  requestedAt : Int
  request : Request
  response : Option Response
  acquisition : Option AcquisitionSummary
  failure : Option Units
  hits : Option H
  document : Option (ReadDocument D)
  verification : VerificationState
  excerpts : List Excerpt

/-- The receipt's own members, read for the record. -/
def summarize (receipt : JsonNode) : Option AcquisitionSummary :=
  let acquisition := memberOf receipt "acquisition"
  let told (name : String) : Option Units := acquisition.bind (stringMember · name)
  match stringMember receipt "sessionId", stringMember receipt "signature", stringMember receipt "resultDigest",
    memberOf receipt "callIndex" with
  | some session, some signature, some resultDigest, some (.num callIndex) =>
    some {
      session := session
      callIndex := callIndex
      signature := signature
      resultDigest := resultDigest
      observedAt := (told "observedAt").getD []
      endpoint := told "endpoint"
      snapshot := told "snapshot"
      peerIdentity := told "peerIdentity"
      adapter := (acquisition.bind (memberOf · "adapter")).map fun adapter =>
        ⟨(stringMember adapter "name").getD [], (stringMember adapter "version").getD [],
          (stringMember adapter "digest").getD []⟩ }
  | _, _, _, _ => none

/-! ## Citing -/

/-- `\s`, which is also what `trim` takes off. -/
def isSpace (u : UInt16) : Bool :=
  decide (9 ≤ u ∧ u ≤ 13) || u == 32 || u == 0xa0 || u == 0x1680 || decide (0x2000 ≤ u ∧ u ≤ 0x200a) ||
    u == 0x2028 || u == 0x2029 || u == 0x202f || u == 0x205f || u == 0x3000 || u == 0xfeff

def quoteLength : Nat := 8

def placeOf (folded : List (UInt16 × Nat)) (i : Nat) : Nat := (folded[i]?.map Prod.snd).getD 0

/-- Where a quote is: exactly as written, or with runs of whitespace folded on both sides. -/
def locate (text quote : Units) : Except Units (Nat × Nat) :=
  let wanted := trim isSpace quote
  if wanted.length < quoteLength then .error (wordText "a quote is at least eight characters")
  else match indexOf wanted text with
    | some start => .ok (start, start + wanted.length)
    | none =>
      let folded := fold isSpace (unit ' ') true 0 text
      let foldedQuote := squeeze isSpace (unit ' ') wanted
      match indexOf foldedQuote (folded.map Prod.fst) with
      | none => .error (wordText "the quote is not in the source text as written; quote it exactly")
      | some k => .ok (placeOf folded k, placeOf folded (k + foldedQuote.length - 1) + 1)

def slice (text : Units) (start stop : Nat) : Units := (text.drop start).take (stop - start)

/-! ## The ledger -/

section
variable {H D : Type}

structure Ledger (H D : Type) where
  records : List (SourceRecord H D)
  currentSession : Units

def Ledger.empty (session : Units) : Ledger H D := ⟨[], session⟩

/-- `src-<n>` -/
def sourceId (n : Nat) : Units := wordText "src-" ++ natText n

/-- `<sourceId>#e<n>` -/
def excerptId (sourceId : Units) (n : Nat) : Units := sourceId ++ (wordText "#e" ++ natText n)

def Ledger.openSession (l : Ledger H D) (id : Units) : Ledger H D := { l with currentSession := id }

def Ledger.byId (l : Ledger H D) (id : Units) : Option (SourceRecord H D) := l.records.find? fun r => r.id == id

/-- The record of an id is changed; no two have one id. -/
def Ledger.update (l : Ledger H D) (id : Units) (f : SourceRecord H D → SourceRecord H D) : Ledger H D :=
  { l with records := l.records.map fun r => if r.id = id then f r else r }

/-- `open` -/
def Ledger.openRecord (l : Ledger H D) (kind : Kind) (request : Request) (now : Int) : Ledger H D × SourceRecord H D :=
  let record : SourceRecord H D :=
    { id := sourceId (l.records.length + 1), kind := kind, session := l.currentSession, requestedAt := now
      request := request, response := none, acquisition := none, failure := none, hits := none, document := none
      verification := .unchecked, excerpts := [] }
  ({ l with records := l.records ++ [record] }, record)

inductive Outcome (H D : Type) where
  | failure (failure : Units)
  | response (response : Response) (hits : Option H) (document : Option (ReadDocument D))

def SourceRecord.settled (r : SourceRecord H D) : Outcome H D → SourceRecord H D
  | .failure failure => { r with failure := some failure }
  | .response response hits document =>
    { r with
      response := some response
      acquisition := summarize response.receipt
      hits := hits.or r.hits
      document := document.or r.document }

/-- `none` where there is no such source. -/
def Ledger.settle (l : Ledger H D) (id : Units) (outcome : Outcome H D) : Option (Ledger H D) :=
  if (l.byId id).isSome then some (l.update id (·.settled outcome)) else none

def Ledger.verified (l : Ledger H D) (id : Units) (verification : VerificationState) : Ledger H D :=
  l.update id ({ · with verification := verification })

/-- A quote that is not in the text is refused; one found where an excerpt is already is that excerpt. -/
def Ledger.cite (l : Ledger H D) (sourceId quote : Units) : Except Units (Excerpt × Ledger H D) :=
  match l.byId sourceId with
  | none => .error (wordText "no source " ++ sourceId ++ wordText " in this run")
  | some record =>
    match record.kind, record.document with
    | .page, some document =>
      match locate document.text quote with
      | .error refused => .error refused
      | .ok (start, stop) =>
        match record.excerpts.find? fun e => e.start == start && e.stop == stop with
        | some existing => .ok (existing, l)
        | none =>
          let excerpt : Excerpt :=
            ⟨excerptId sourceId (record.excerpts.length + 1), sourceId, start, stop, slice document.text start stop⟩
          .ok (excerpt, l.update sourceId fun r => { r with excerpts := r.excerpts ++ [excerpt] })
    | _, _ =>
      .error (sourceId ++
        wordText " is a search, not a page that was read; read the page and cite from its text")

/-! ## What the gateway answered -/

/-- The string members of the salts. -/
def saltsOf (parsed : JsonNode) : List (Units × Units) :=
  match memberOf parsed "salts" with
  | some (.obj members) => members.filterMap fun m =>
    match m.2 with
    | .str value => some (m.1, value)
    | _ => none
  | _ => []

def protoName : Units := wordText "__proto__"

/-- What `acquire` reads out of the gateway's answer. It assigns the salts one after another, and assigning a string
to `__proto__` does nothing. -/
def acquire (text : Units) : Option Response := do
  let parsed ← parseJsonText text
  let result ← memberOf parsed "result"
  let receipt ← memberOf parsed "receipt"
  return ⟨text, result, receipt, (saltsOf parsed).filter fun m => m.1 != protoName⟩

/-! ## Checkpoints -/

structure SavedSource where
  session : Units
  kind : Kind
  request : Request
  requestedAt : Int
  text : Option Units
  failure : Option Units
  quotes : List Units

/-- What a checkpoint saves of a source. -/
def SourceRecord.save (r : SourceRecord H D) : SavedSource :=
  { session := r.session, kind := r.kind, request := r.request, requestedAt := r.requestedAt
    text := r.response.map Response.text, failure := r.failure, quotes := r.excerpts.map Excerpt.text }

/-- The sources of `checkpoint`. -/
def checkpoint (sources : List (SourceRecord H D)) : List SavedSource := sources.map SourceRecord.save

def interrupted : Units := wordText "Interrupted before a response was saved."

/-- What the dialect of a saved source reads; `none` where it is not supported, or throws. -/
def Dialects.read (dialects : Dialects H D) (kind : Kind) (dialect : Units) (result : JsonNode) :
    Option (Option H × Option (ReadDocument D)) :=
  match kind with
  | .page => do
    let document ← dialects.document dialect
    return (none, some (← document result))
  | .search => do
    let hits ← dialects.hits dialect
    return (some (← hits result), none)

def Ledger.citeAll (l : Ledger H D) (id : Units) : List Units → Option (Ledger H D)
  | [] => some l
  | quote :: rest =>
    match l.cite id quote with
    | .error _ => none
    | .ok (_, l) => l.citeAll id rest

/-- One round of `restoreLedger`; `none` where it throws. -/
def restoreSource (dialects : Dialects H D) (l : Ledger H D) (source : SavedSource) : Option (Ledger H D) :=
  let (l, record) := (l.openSession source.session).openRecord source.kind source.request source.requestedAt
  match source.text with
  | none => l.settle record.id (.failure (source.failure.getD interrupted))
  | some text => do
    let parsed ← parseJsonText text
    let result ← memberOf parsed "result"
    let receipt ← memberOf parsed "receipt"
    let (hits, document) ← dialects.read source.kind source.request.dialect result
    let l ← l.settle record.id (.response ⟨text, result, receipt, saltsOf parsed⟩ hits document)
    l.citeAll record.id source.quotes

def restoreSources (dialects : Dialects H D) (l : Ledger H D) : List SavedSource → Option (Ledger H D)
  | [] => some l
  | source :: rest => (restoreSource dialects l source).bind fun l => restoreSources dialects l rest

/-- `none` where it throws; an active ledger is not replaced. -/
def restoreLedger (dialects : Dialects H D) (l : Ledger H D) (sources : List SavedSource) : Option (Ledger H D) :=
  if l.records.isEmpty then restoreSources dialects l sources else none

/-! ## Steps -/

inductive Act (H D : Type) where
  | openSession (id : Units)
  | openRecord (kind : Kind) (request : Request) (now : Int)
  | settle (id : Units) (outcome : Outcome H D)
  | cite (sourceId quote : Units)
  | verified (id : Units) (verification : VerificationState)

/-- A call that throws or is refused leaves the ledger as it was. -/
def step (l : Ledger H D) : Act H D → Ledger H D
  | .openSession id => l.openSession id
  | .openRecord kind request now => (l.openRecord kind request now).1
  | .settle id outcome => (l.settle id outcome).getD l
  | .cite sourceId quote =>
    match l.cite sourceId quote with
    | .ok (_, l) => l
    | .error _ => l
  | .verified id verification => l.verified id verification

end

end Sources

end Desk
