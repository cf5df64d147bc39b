import Desk.Lib.Base64
import Desk.Types.Encode
import Mathlib.Algebra.Ring.Int.Defs

/-!
# The execution payload

The descriptor a Runner presents with a reservation, read by a closed decoder:
exact member names, no null, nothing missing.
-/

namespace Desk

def policyExecutionPayloadProfile : String := "judgment-pack-runner/execution-payload/1"

def policyExecutionReleaseProfile : String := "judgment-pack-runner/canonical/1"

/-! ## Forms -/

def policyExecutionID (s : String) : Bool := wordForm 1 128 s

def policyExecutionDigest (s : String) : Bool := hexForm "sha256:" 64 s

def PolicyExecutionResource.valid (v : PolicyExecutionResource) : Bool :=
  policyExecutionID v.jobID && policyExecutionID v.releaseID && executionPositive v.jobRevision &&
    v.releaseProfile == policyExecutionReleaseProfile && policyExecutionDigest v.releaseDigest

def PolicyExecutionRegistration.valid (v : PolicyExecutionRegistration) : Bool :=
  v.revision == "1" && policyExecutionDigest v.digest

def PolicyExecutionSigning.valid (v : PolicyExecutionSigning) : Bool :=
  match v.mode with
  | .off => v.publicKey == ""
  | .ed25519 => hexForm "" 64 v.publicKey

/-! ## The closed decoder -/

namespace Json

/-- The members of an object with all of `required`, some of `optional` and no other. -/
def closed (required optional : List String) : Json → Option (List (String × Json))
  | obj members =>
    if (members.map Prod.fst).all (· ∈ required ++ optional) && required.all (· ∈ members.map Prod.fst) then some members
    else none
  | _ => none

def field (members : List (String × Json)) (name : String) : Option Json := members.lookup name

def text : Json → Option String
  | str s => some s
  | _ => none

/-- An integer a Go `int` can hold. -/
def int : Json → Option Int
  | num literal => match literal.toInt? with
    | some n => if -2 ^ 63 ≤ n ∧ n < 2 ^ 63 then some n else none
    | none => none
  | _ => none

end Json

structure PolicyExecutionExactBytes where
  encoding : String
  digest : String
  bytes : Int
deriving DecidableEq

structure PolicyExecutionEvidence where
  presence : String
  value : Option PolicyExecutionExactBytes
deriving DecidableEq

structure PolicyExecutionDescriptor where
  profile : String
  releaseDigest : String
  packDigest : String
  runtimeDigest : String
  facts : PolicyExecutionExactBytes
  evidence : PolicyExecutionEvidence
  signing : PolicyExecutionSigning
deriving DecidableEq

def PolicyExecutionExactBytes.ofJson (v : Json) : Option PolicyExecutionExactBytes := do
  let members ← v.closed ["encoding", "digest", "bytes"] []
  let encoding ← (← Json.field members "encoding").text
  let digest ← (← Json.field members "digest").text
  let bytes ← (← Json.field members "bytes").int
  return { encoding, digest, bytes }

def PolicyExecutionEvidence.ofJson (v : Json) : Option PolicyExecutionEvidence := do
  let members ← v.closed ["presence"] ["value"]
  let presence ← (← Json.field members "presence").text
  match Json.field members "value" with
  | none => return { presence, value := none }
  | some value => do
    let value ← PolicyExecutionExactBytes.ofJson value
    return { presence, value := some value }

/-- `UnmarshalJSON` of the signing choice: a key is present exactly when the mode needs one. -/
def PolicyExecutionSigning.ofJson (v : Json) : Option PolicyExecutionSigning := do
  let members ← v.closed ["mode"] ["publicKey"]
  let signing ← match Json.field members "mode", Json.field members "publicKey" with
    | some (.str "off"), none => some { mode := .off, publicKey := "" }
    | some (.str "ed25519"), some (.str key) => some { mode := .ed25519, publicKey := key }
    | _, _ => none
  if PolicyExecutionSigning.valid signing then return signing else none

def PolicyExecutionDescriptor.ofJson (v : Json) : Option PolicyExecutionDescriptor := do
  let members ← v.closed ["profile", "releaseDigest", "packDigest", "runtimeDigest", "facts", "evidence", "signing"] []
  let profile ← (← Json.field members "profile").text
  let releaseDigest ← (← Json.field members "releaseDigest").text
  let packDigest ← (← Json.field members "packDigest").text
  let runtimeDigest ← (← Json.field members "runtimeDigest").text
  let facts ← PolicyExecutionExactBytes.ofJson (← Json.field members "facts")
  let evidence ← PolicyExecutionEvidence.ofJson (← Json.field members "evidence")
  let signing ← PolicyExecutionSigning.ofJson (← Json.field members "signing")
  return { profile, releaseDigest, packDigest, runtimeDigest, facts, evidence, signing }

/-- `executionDecode`. Member names outside the closed sets are refused whatever their case. -/
def decodeDescriptor (raw : List UInt8) : Option PolicyExecutionDescriptor :=
  (Json.strict Char.toLower raw).bind PolicyExecutionDescriptor.ofJson

/-! ## The payload -/

/-- `executionPayloadShape`, with the descriptor it has read. -/
def payloadDescriptor (p : PolicyExecutionPayload) : Option PolicyExecutionDescriptor :=
  if p.profile != policyExecutionPayloadProfile || decide (5464 < len p.bytes) || !(policyExecutionDigest p.digest) then none
  else match Base64.decode p.bytes with
    | none => none
    | some raw =>
      if raw.isEmpty || decide (4096 < raw.length) || Base64.encode raw != p.bytes ||
          p.digest != "sha256:" ++ digestOf raw then
        none
      else match decodeDescriptor raw with
        | none => none
        | some d =>
          if d.profile == p.profile && d.signing.valid && Json.gatewayCanonicalJSON raw == some raw then some d else none

def executionPayloadShape (p : PolicyExecutionPayload) : Bool := (payloadDescriptor p).isSome

def exactBytes (v : RetainedArtifactRef) : PolicyExecutionExactBytes where
  encoding := "exact-bytes"
  digest := "sha256:" ++ v.sha256
  bytes := v.bytes

/-- The descriptor of one intent of a registered resource, under one epoch. -/
def wantedDescriptor (r : PolicyExecutionRegisteredResource) (i : PolicyExecutionIntent)
    (epoch : PolicyExecutionEpoch) : PolicyExecutionDescriptor where
  profile := policyExecutionPayloadProfile
  releaseDigest := r.content.resource.releaseDigest
  packDigest := "sha256:" ++ r.content.pack.sha256
  runtimeDigest := r.content.runtimeDigest
  facts := exactBytes i.facts
  evidence := match i.evidence with
    | none => { presence := "omitted", value := none }
    | some v => { presence := "supplied", value := some (exactBytes v) }
  signing := epoch.signing

def executionPayloadMatches (p : PolicyExecutionPayload) (r : PolicyExecutionRegisteredResource)
    (i : PolicyExecutionIntent) (epoch : PolicyExecutionEpoch) : Bool :=
  payloadDescriptor p == some (wantedDescriptor r i epoch)

end Desk
