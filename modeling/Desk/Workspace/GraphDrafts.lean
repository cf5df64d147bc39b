import Desk.Lib.Table
import Desk.Lib.Utc
import Desk.Policy.Record

/-!
# Graph drafts

The drafts of graphs a workspace keeps apart from its conversations, with the
identities deleted. A client sends the whole document; a conversation's copies
enter it once. A text that is no such document is refused before.
-/

namespace Desk

namespace GraphDrafts

structure PolicyAuthoringSource where
  version : Int
  policyID : String
  revisionID : String
  candidateDigest : String
  content : RetainedArtifactRef
  title : String
  artifactVersion : String
  narrative : String
  publicationID : String
  deriving DecidableEq

/-- A draft. Its sources are nil or a list, as Go's slices are. -/
structure GraphDraft where
  draftID : String
  id : String
  path : String
  content : String
  description : String := ""
  baseSHA256 : String := ""
  createdAt : String
  saved : Bool := false
  writePending : Bool := false
  originChatID : String := ""
  policySources : Option (List PolicyAuthoringSource) := none
  deriving DecidableEq

structure GraphDraftDocument where
  drafts : List GraphDraft
  deleted : List String
  deriving DecidableEq

/-! ## Texts -/

/-- A draft as it is written: the members present, none of them null. -/
structure Row where
  draftID : Option String
  id : Option String
  path : Option String
  content : Option String
  description : Option String
  baseSHA256 : Option String
  createdAt : Option String
  saved : Option Bool
  writePending : Option Bool
  originChatID : Option String
  policySources : Option (List PolicyAuthoringSource)
  deriving DecidableEq

/-- A document as it is written, a null member as an absent one. -/
structure Text where
  version : Option Int
  drafts : Option (List Row)
  deleted : Option (List String)
  deriving DecidableEq

def Row.draft (row : Row) : GraphDraft where
  draftID := row.draftID.getD ""
  id := row.id.getD ""
  path := row.path.getD ""
  content := row.content.getD ""
  description := row.description.getD ""
  baseSHA256 := row.baseSHA256.getD ""
  createdAt := row.createdAt.getD ""
  saved := row.saved.getD false
  writePending := row.writePending.getD false
  originChatID := row.originChatID.getD ""
  policySources := row.policySources

def Text.document (text : Text) : GraphDraftDocument where
  drafts := (text.drafts.getD []).map Row.draft
  deleted := text.deleted.getD []

/-- `omitempty` -/
def omitEmpty (s : String) : Option String := if s = "" then none else some s

/-- A draft as `json.Marshal` writes it. -/
def GraphDraft.row (d : GraphDraft) : Row where
  draftID := some d.draftID
  id := some d.id
  path := some d.path
  content := some d.content
  description := omitEmpty d.description
  baseSHA256 := omitEmpty d.baseSHA256
  createdAt := some d.createdAt
  saved := if d.saved then some true else none
  writePending := if d.writePending then some true else none
  originChatID := omitEmpty d.originChatID
  policySources := d.policySources.filter (!·.isEmpty)

def GraphDraftDocument.text (doc : GraphDraftDocument) : Text where
  version := some 1
  drafts := some (doc.drafts.map GraphDraft.row)
  deleted := some doc.deleted

/-- `sameDraftValue` of two drafts: they are written alike. -/
def sameDraft (a b : GraphDraft) : Bool := decide (a.row = b.row)

/-! ## Forms -/

def graphDraftIdentity (d : GraphDraft) : String := d.originChatID ++ ":" ++ d.draftID

def isKeyChar (c : Char) : Bool := c.isAlphanum || c == '-'

def keyForm (lo : Nat) (l : List Char) : Bool := l.all isKeyChar && decide (lo ≤ l.length ∧ l.length ≤ 80)

def graphDraftKey (s : String) : Bool := keyForm 1 s.toList

def graphDraftDeletedKey (s : String) : Bool :=
  match s.toList.splitOn ':' with
  | [origin, draft] => keyForm 0 origin && keyForm 1 draft
  | _ => false

def graphDraftGraphID (s : String) : Bool :=
  (s.toList.head?.any fun c => decide ('a' ≤ c ∧ c ≤ 'z')) &&
    (s.toList.splitOn '-').all fun part => !part.isEmpty && part.all fun c => c.isDigit || decide ('a' ≤ c ∧ c ≤ 'z')

/-! ## Validation -/

/-- What a draft of Policy sources is admitted by, under its identity. -/
structure PolicyEntry where
  id : String
  policySources : Option (List PolicyAuthoringSource)

def graphPolicyWorkspace (text : Text) : List PolicyEntry :=
  (text.drafts.getD []).map fun row => ⟨graphDraftIdentity row.draft, row.policySources⟩

/-- The form of Policy sources, and the length of a document's text. -/
structure Tools where
  policyWorkspaceEntries : List PolicyEntry → Bool
  size : Text → Nat

inductive Code
  | badRequest
  | forbidden
  | stale
  | tooLarge
  deriving DecidableEq

structure Refusal where
  code : Code
  text : String
  deriving DecidableEq

def Row.valid (row : Row) : Bool :=
  row.draftID.isSome && row.id.isSome && row.path.isSome && row.content.isSome && row.createdAt.isSome &&
    row.baseSHA256.all retainedArtifactDigest

def GraphDraft.valid (d : GraphDraft) : Bool :=
  !(d.saved && d.writePending) && graphDraftKey d.draftID && graphDraftGraphID d.id && decide (len d.id ≤ 128) &&
    d.path != "" && decide (len d.path ≤ 1024) && decide (len d.content ≤ 2 ^ 20) && decide (len d.description ≤ 4096) &&
    (d.baseSHA256 == "" || retainedArtifactDigest d.baseSHA256) && graphDraftKey d.originChatID && rfc3339Nano d.createdAt

/-- The identities deleted, none twice; `seen` are those before. -/
def deletedSeen (seen : List String) : List String → Option (List String)
  | [] => some seen
  | id :: rest => if !graphDraftDeletedKey id || seen.contains id then none else deletedSeen (id :: seen) rest

/-- Each draft is valid and of an identity not yet seen. -/
def draftsSeen (seen : List String) : List GraphDraft → Bool
  | [] => true
  | d :: rest => d.valid && !seen.contains (graphDraftIdentity d) && draftsSeen (graphDraftIdentity d :: seen) rest

def validateGraphDrafts (e : Tools) (text : Text) : Bool :=
  match text.drafts, text.deleted with
  | some rows, some deleted =>
    text.version == some 1 && decide (rows.length ≤ 256) && decide (deleted.length ≤ 4096) && rows.all Row.valid &&
      ((deletedSeen [] deleted).any fun seen => draftsSeen seen (rows.map Row.draft)) &&
      e.policyWorkspaceEntries (graphPolicyWorkspace text)
  | _, _ => false

/-! ## Updates -/

structure Declaration where
  path : String
  description : String

/-- What a request carries and finds: the record its `If-Match` names, its rights, the project's files, the
graphs its configuration declares. -/
structure Request where
  ifMatch : Text → Bool
  authorizePrivateWorkspace : Except Refusal Unit
  admitPolicyWorkspaceUpdate : List PolicyEntry → List PolicyEntry → Except Refusal Unit
  readProjectFile : String → Option (List UInt8)
  graphs : Option (Table Declaration)

/-- The deletions take drafts out of the ones there were. -/
def takeDeleted : List String → Table GraphDraft → Except Refusal (Table GraphDraft)
  | [], prior => .ok prior
  | id :: rest, prior =>
    if (prior.get? id).any fun old => old.saved || old.writePending then
      .error ⟨.forbidden, "Saved graph basis cannot be deleted as a draft."⟩
    else takeDeleted rest (prior.delete id)

/-- The project has exactly the candidate, registered. -/
def reconciled (r : Request) (d : GraphDraft) : Except Refusal Unit :=
  match r.readProjectFile d.path, r.graphs with
  | some data, some graphs =>
    if data ≠ bytesOf d.content then
      .error ⟨.stale, "The exact saved graph and registration could not be reconciled; its private history is retained."⟩
    else
      match graphs.get? d.id with
      | some entry =>
        if entry.path = d.path ∧ entry.description = d.description then .ok ()
        else .error ⟨.stale, "The saved graph registration changed; preserve the pending candidate and review the project files."⟩
      | none => .error ⟨.stale, "The saved graph registration changed; preserve the pending candidate and review the project files."⟩
  | _, _ =>
    .error ⟨.stale, "The exact saved graph and registration could not be reconciled; its private history is retained."⟩

/-- A draft is replaced by its next. -/
def replaceDraft (r : Request) (old d : GraphDraft) : Except Refusal Unit :=
  if old.policySources ≠ d.policySources ∨ old.createdAt ≠ d.createdAt ∨ old.originChatID ≠ d.originChatID ∨
      (old.saved = true ∧ sameDraft old d = false) then
    .error ⟨.forbidden, "Retained graph identity, ownership and saved history cannot be replaced."⟩
  else if old.writePending = false then .ok ()
  else
    let frozen := { old with writePending := false }
    let next := { d with writePending := false, saved := false }
    if sameDraft frozen next = false ∨ (d.writePending = false ∧ d.saved = false) then
      .error ⟨.forbidden, "Reconcile the exact pending graph save before changing its retained candidate."⟩
    else if d.saved then reconciled r d
    else .ok ()

/-- The drafts that come take out the ones they replace. -/
def takeReplaced (r : Request) (deleted : List String) : List GraphDraft → Table GraphDraft →
    Except Refusal (Table GraphDraft)
  | [], prior => .ok prior
  | d :: rest, prior =>
    if deleted.contains (graphDraftIdentity d) then .error ⟨.stale, "This graph draft was deleted."⟩
    else
      match prior.get? (graphDraftIdentity d) with
      | none => takeReplaced r deleted rest prior
      | some old =>
        match replaceDraft r old d with
        | .error why => .error why
        | .ok () => takeReplaced r deleted rest (prior.delete (graphDraftIdentity d))

def priorDrafts (drafts : List GraphDraft) : Table GraphDraft :=
  drafts.foldl (fun prior d => prior.set (graphDraftIdentity d) d) Table.empty

def admitGraphDraftUpdate (r : Request) (previous incoming : Text) : Except Refusal Unit := do
  let before := previous.document
  let after := incoming.document
  let prior ← takeDeleted after.deleted (priorDrafts before.drafts)
  let prior ← takeReplaced r before.deleted after.drafts prior
  if 0 < prior.size then
    throw ⟨.badRequest, "Delete graph drafts explicitly using their retained identities."⟩
  if ¬before.deleted.all after.deleted.contains then
    throw ⟨.forbidden, "Keep deleted graph identities to prevent stale restoration."⟩
  r.admitPolicyWorkspaceUpdate (graphPolicyWorkspace previous) (graphPolicyWorkspace incoming)

def badGraphDrafts : Refusal :=
  ⟨.badRequest, "Graph drafts must retain unique identities, exact sources and bounded graph documents."⟩

/-- The record as it is read; an absent one is empty. -/
def readGraphDrafts (e : Tools) (stored : Option Text) : Except Refusal Text :=
  match stored with
  | none => .ok (GraphDraftDocument.text ⟨[], []⟩)
  | some text => if validateGraphDrafts e text then .ok text else .error badGraphDrafts

/-- An update of the record by a client. -/
def handleGraphDrafts (e : Tools) (r : Request) (stored : Option Text) (incoming : Text) : Except Refusal Text := do
  if ¬validateGraphDrafts e incoming then throw badGraphDrafts
  let previous ← readGraphDrafts e stored
  r.authorizePrivateWorkspace
  if ¬r.ifMatch previous then
    throw ⟨.stale, "history changed in another window; reload before saving"⟩
  admitGraphDraftUpdate r previous incoming
  return incoming

/-! ## Conversations -/

structure Chat where
  id : String
  drafts : List GraphDraft
  sources : Option (List PolicyAuthoringSource)

/-- A chat's copy, as it enters. -/
def Chat.own (chat : Chat) (d : GraphDraft) : GraphDraft :=
  { d with originChatID := chat.id, policySources := chat.sources }

/-- The copies of one document; a later copy of an identity is the one kept, in the earlier's place. -/
def collect (deleted : List String) (seen : List String) (candidates : Table GraphDraft) (order : List String) :
    List GraphDraft → Except Refusal (Table GraphDraft × List String)
  | [] => .ok (candidates, order)
  | d :: rest =>
    let key := graphDraftIdentity d
    if seen.contains key then .error ⟨.badRequest, "Duplicate graph draft identity in a conversation."⟩
    else if deleted.contains key then collect deleted (key :: seen) candidates order rest
    else collect deleted (key :: seen) (candidates.set key d) (if candidates.has key then order else order ++ [key]) rest

def collectAll (deleted : List String) (candidates : Table GraphDraft) (order : List String) :
    List (List Chat) → Except Refusal (Table GraphDraft × List String)
  | [] => .ok (candidates, order)
  | chats :: rest => do
    let (candidates, order) ← collect deleted [] candidates order (chats.flatMap fun chat => chat.drafts.map chat.own)
    collectAll deleted candidates order rest

/-- The candidates that are not there yet. -/
def newCandidates (doc : GraphDraftDocument) (candidates : Table GraphDraft) (order : List String) : List GraphDraft :=
  (order.filter fun key => !(doc.drafts.map graphDraftIdentity).contains key).filterMap candidates.get?

def maxConversationBytes : Nat := 16 * 2 ^ 20

/-- The record with the copies of the conversations, before and after a change of them; none where nothing changes. -/
def retainConversationGraphDrafts (e : Tools) (r : Request) (stored : Option Text)
    (documents : List (List Chat)) : Except Refusal (Option Text) := do
  let saved ← readGraphDrafts e stored
  let doc := saved.document
  let (candidates, order) ← collectAll doc.deleted Table.empty [] documents
  let entering := newCandidates doc candidates order
  if entering.isEmpty then return none
  r.authorizePrivateWorkspace
  let text := GraphDraftDocument.text { doc with drafts := doc.drafts ++ entering }
  if maxConversationBytes < e.size text then throw ⟨.tooLarge, "Graph draft storage is full."⟩
  if ¬validateGraphDrafts e text then throw badGraphDrafts
  admitGraphDraftUpdate r saved text
  return some text

/-! ## Steps -/

/-- A client's update of the record, or a retention from conversations. -/
inductive Act
  | update (r : Request) (incoming : Text)
  | retain (r : Request) (documents : List (List Chat))

def Act.request : Act → Request
  | .update r _ => r
  | .retain r _ => r

/-- What is stored after a step; a refusal leaves the record as it was. -/
def step (e : Tools) (stored : Option Text) : Act → Option Text
  | .update r incoming =>
    match handleGraphDrafts e r stored incoming with
    | .ok text => some text
    | .error _ => stored
  | .retain r documents =>
    match retainConversationGraphDrafts e r stored documents with
    | .ok (some text) => some text
    | .ok none => stored
    | .error _ => stored

/-- The document stored; an absent record is an empty one. -/
def documentOf (stored : Option Text) : GraphDraftDocument := (stored.map Text.document).getD ⟨[], []⟩

end GraphDrafts

end Desk
