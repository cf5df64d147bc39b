import Desk.Ledger.Repository
import Desk.Lib.Saves
import Desk.Types.Reply

/-!
# One call of a service

All that a call takes from outside: whether its session is still authorized
each time that is asked, the clock, random tokens, retained artifacts, and the
storage around its transaction. A Go error return is the left side of `Except`.
-/

namespace Desk

/-! ## Refusals in sequence -/

def require (holds : Bool) (f : PolicyFailure) : Except GoError Unit := if holds then .ok () else .error (.refusal f)

def found {α : Type} (o : Option α) (f : PolicyFailure) : Except GoError α :=
  match o with
  | some a => .ok a
  | none => .error (.refusal f)

def refuseIf (o : Option PolicyFailure) : Except GoError Unit :=
  match o with
  | some f => .error (.refusal f)
  | none => .ok ()

@[simp] theorem require_eq_ok {holds : Bool} {f : PolicyFailure} {u : Unit} :
    require holds f = .ok u ↔ holds = true := by
  cases holds
  · exact ⟨fun h => (by cases h), fun h => (by cases h)⟩
  · exact ⟨fun _ => rfl, fun _ => rfl⟩

@[simp] theorem found_eq_ok {α : Type} {o : Option α} {f : PolicyFailure} {a : α} :
    found o f = .ok a ↔ o = some a := by
  cases o with
  | none => exact ⟨fun h => (by cases h), fun h => (by cases h)⟩
  | some b => exact ⟨fun h => (by cases h; rfl), fun h => (by cases h; rfl)⟩

@[simp] theorem refuseIf_eq_ok {o : Option PolicyFailure} {u : Unit} : refuseIf o = .ok u ↔ o = none := by
  cases o with
  | none => exact ⟨fun _ => rfl, fun _ => rfl⟩
  | some b => exact ⟨fun h => (by cases h), fun h => (by cases h)⟩

def beforeCommit {α : Type} : Except GoError α → Except GoError α
  | .ok a => .ok a
  | .error e => .error (.refusal (policyBeforeCommitFailure e))

@[simp] theorem beforeCommit_eq_ok {α : Type} {x : Except GoError α} {a : α} : beforeCommit x = .ok a ↔ x = .ok a := by
  cases x with
  | error e => exact ⟨fun h => (by cases h), fun h => (by cases h)⟩
  | ok b => exact Iff.rfl

/-! ## The call -/

structure Token where
  text : String
  form : hexForm "" 48 text = true

/-- No identifier of the ledger was made from `token`. -/
structure Token.Fresh (token : Token) (l : PolicyLedger) : Prop where
  policy : ∀ id record, l.policies.get? id = some record → ∀ kind, id ≠ kind ++ "_" ++ token.text
  revision : ∀ id record, l.policies.get? id = some record → ∀ r ∈ record.revisions, ∀ kind, r.id ≠ kind ++ "_" ++ token.text
  review : ∀ id record, l.policies.get? id = some record → ∀ r ∈ record.reviews, ∀ kind, r.id ≠ kind ++ "_" ++ token.text
  publication : ∀ id record, l.policies.get? id = some record → ∀ p ∈ record.publications, ∀ kind,
    p.id ≠ kind ++ "_" ++ token.text
  authority : ∀ id stream, l.sourceAuthorities.get? id = some stream → ∀ e ∈ stream.events, ∀ kind,
    e.id ≠ kind ++ "_" ++ token.text
  configuration : ∀ id stream, l.sourceAuthorities.get? id = some stream → ∀ e ∈ stream.events, ∀ c,
    e.configuration = some c → ∀ kind, c.id ≠ kind ++ "_" ++ token.text
  external : ∀ id stream, l.sourceAuthorities.get? id = some stream → ∀ e ∈ stream.events, ∀ v,
    e.externalVersion = some v → ∀ kind, v.id ≠ kind ++ "_" ++ token.text

/-- Reading retained JSON back into records, Go's table of lower-case letters, and whether the documents,
materials and reports retained under an adoption agree with it. -/
structure Codec where
  candidate : List UInt8 → Option PolicyCandidateContent
  reply : List UInt8 → Option PolicyMutationReply
  adoption : List UInt8 → Option PolicyAdoptionContent
  lower : Char → Char
  archived : PolicyLedger → PolicyAdoptionRecord → PolicyAdoptionContent → Bool

/-- `authorized n` and `token n` answer the `n`-th time the call asks. -/
structure Call where
  codec : Codec
  authorized : Nat → Bool
  clock : Utc
  token : Nat → Option Token
  retained : RetainedArtifactRef → Option (List UInt8)
  stores : List UInt8 → Bool
  storage : Storage

/-- The policy service and all that one call of it takes from outside; `reading` is the storage around a view. -/
structure PolicyCall extends Call where
  reading : Storage
  validateVersion : Option (String → String → Except GoError Unit)

def verifyRetainedArtifact (ref : RetainedArtifactRef) (raw : List UInt8) : Bool :=
  ref.valid && ref == artifactReference raw

namespace Call

def authorize (call : Call) (n : Nat) : Except GoError Unit :=
  require (call.authorized n) (policyRefusal 401 "unauthorized" "Sign in again before accessing policies.")

def get (call : Call) (ref : RetainedArtifactRef) : Except GoError (List UInt8) :=
  match call.retained ref with
  | some raw => if verifyRetainedArtifact ref raw then .ok raw else .error .other
  | none => .error .other

def put (call : Call) (raw : List UInt8) : Except GoError RetainedArtifactRef :=
  if raw.length ≤ retainedArtifactByteLimit ∧ call.stores raw then .ok (artifactReference raw) else .error .other

def newPolicyEventID (call : Call) (n : Nat) (kind : String) : Except GoError String :=
  match call.token n with
  | some token => .ok (kind ++ "_" ++ token.text)
  | none => .error .other

def lifecycleNow (call : Call) : String := call.clock.format

theorem put_eq_ok {call : Call} {raw : List UInt8} {ref : RetainedArtifactRef} (h : call.put raw = .ok ref) :
    ref = artifactReference raw ∧ raw.length ≤ retainedArtifactByteLimit := by
  unfold put at h
  split at h
  · rename_i hs
    cases h; exact ⟨rfl, hs.1⟩
  · cases h

theorem newPolicyEventID_eq_ok {call : Call} {n : Nat} {kind id : String} (h : call.newPolicyEventID n kind = .ok id) :
    ∃ token : Token, call.token n = some token ∧ id = kind ++ "_" ++ token.text := by
  unfold newPolicyEventID at h
  split at h
  · rename_i token ht
    cases h; exact ⟨token, ht, rfl⟩
  · cases h

/-! ## The candidate of a revision -/

def getSource (call : Call) : Option PolicySource → Except GoError (List UInt8)
  | some source => call.get source.content
  | none => .ok []

def candidate (call : Call) (revision : PolicyRevision) : Except GoError PolicyCandidate := do
  let raw ← call.get revision.content
  match call.codec.candidate raw with
  | none => .error .other
  | some content =>
    if content.schemaVersion != 1 || content.source != revision.source || !validPolicySource content.source ||
        content.title != revision.title || content.artifactVersion != revision.artifactVersion ||
        revision.digest != digestOf raw || policyNarrativeLimit < len content.narrative then
      .error .other
    else do
      let _ ← call.getSource content.source
      return { source := content.source, title := content.title, narrative := content.narrative,
               artifactVersion := content.artifactVersion, digest := revision.digest,
               revisionID := revision.id, content := revision.content }

end Call

end Desk
