import Desk.Canon.Verify

/-!
# Receipts

What a receipt's and a seal's signatures cover, and the structural conditions
a receipt of each version meets. Digests, signatures and key ids are given
functions.
-/

namespace Desk

/-- What the browser computes for the verifier. -/
structure Crypto where
  /-- `none` where the public key is not lowercase hex. -/
  keyIdOf : Units → Option Units
  sha256Hex : List UInt8 → Units
  verifyEd25519 : Units → List UInt8 → Units → Bool
  /-- `String.prototype.toLowerCase` -/
  toLowerCase : Units → Units

namespace Verify

abbrev JsonNode : Type := Value Units

/-! ## Members -/

/-- The named member of an object, the first of that name. -/
def memberOf (node : JsonNode) (name : String) : Option JsonNode :=
  match node with
  | .obj members => (members.find? fun m => m.1 == wordText name).map Prod.snd
  | _ => none

/-- A string's value, or undefined. -/
def stringOf : Option JsonNode → Option Units
  | some (.str s) => some s
  | _ => none

def stringMember (node : JsonNode) (name : String) : Option Units := stringOf (memberOf node name)

/-- The members as a `Map`, which keeps the last of a name. -/
structure Members where
  entries : List (Units × JsonNode)

def membersOf : JsonNode → Option Members
  | .obj members => some ⟨members⟩
  | _ => none

def Members.get (m : Members) (name : String) : Option JsonNode :=
  (m.entries.reverse.find? fun e => e.1 == wordText name).map Prod.snd

def Members.has (m : Members) (name : String) : Bool := (m.get name).isSome

/-! ## What signatures cover -/

inductive Version where
  | two
  | three
  deriving DecidableEq

def receiptPrefix : Version → String
  | .two => "judgment-pack-gateway/receipt/2:"
  | .three => "judgment-pack-gateway/receipt/3:"

def sealPrefix : String := "judgment-pack-gateway/seal/2:"

def withPrefix (head : String) (canonical : List UInt8) : List UInt8 := encode (wordText head) ++ canonical

/-- The canonical receipt without its top-level signature, every other member retained. -/
def receiptSigningInput (receipt : JsonNode) (version : Version) : Option (List UInt8) :=
  match receipt with
  | .obj members => do
    let canonical ← canonicalize (.obj (members.filter fun m => m.1 != wordText "signature"))
    return withPrefix (receiptPrefix version) canonical
  | _ => none

def sealSigningInput (sealNode : JsonNode) : Option (List UInt8) := do
  let members ← ["sessionId", "finalCount", "sealedAt", "keyId"].mapM fun name => do
    return (wordText name, ← memberOf sealNode name)
  return withPrefix sealPrefix (← canonicalize (.obj members))

/-! ## The shape of a receipt -/

def isLowerHex (u : UInt16) : Bool := isDigit u || decide (unit 'a' ≤ u ∧ u ≤ unit 'f')

def isHex (u : UInt16) : Bool := isLowerHex u || decide (unit 'A' ≤ u ∧ u ≤ unit 'F')

/-- The rest after a word, where the text starts with it. -/
def afterWord (w : String) (text : Units) : Option Units :=
  if (wordText w).isPrefixOf text then some (text.drop (wordText w).length) else none

/-- `/^sha256:[0-9a-f]{64}$/` -/
def digestText (text : Units) : Bool :=
  (afterWord "sha256:" text).any fun hex => decide (hex.length = 64) && hex.all isLowerHex

/-- `/^[0-9a-f]{128}$/` -/
def signature3 (text : Units) : Bool := decide (text.length = 128) && text.all isLowerHex

/-- `/^[0-9a-fA-F]+$/` -/
def hexText (text : Units) : Bool := !text.isEmpty && text.all isHex

/-- `/^hmac-sha256:[0-9a-fA-F]+$/` -/
def hmacDigest (text : Units) : Bool := (afterWord "hmac-sha256:" text).any hexText

def isTokenUnit (u : UInt16) : Bool :=
  isDigit u || decide (unit 'a' ≤ u ∧ u ≤ unit 'z') || decide (unit 'A' ≤ u ∧ u ≤ unit 'Z') ||
    u == unit '.' || u == unit '_' || u == unit '-'

/-- `/^[A-Za-z0-9._-]{1,128}$/`, and neither directory. -/
def sessionToken (text : Units) : Bool :=
  decide (1 ≤ text.length ∧ text.length ≤ 128) && text.all isTokenUnit && text != wordText "." && text != wordText ".."

def isString (node : Option JsonNode) : Bool := (stringOf node).isSome

def isNullOrString : Option JsonNode → Bool
  | some .null => true
  | node => isString node

def isDigest (node : Option JsonNode) : Bool := (stringOf node).any digestText

def isNullOrDigest : Option JsonNode → Bool
  | some .null => true
  | node => isDigest node

def isInteger : Option JsonNode → Bool
  | some (.num literal) => integerForm literal
  | _ => false

/-- An integer that is not negative. -/
def isIndex : Option JsonNode → Bool
  | some (.num literal) => integerForm literal && decide (0 ≤ literalInt literal)
  | _ => false

def isSessionToken (node : Option JsonNode) : Bool := (stringOf node).any sessionToken

def shapes : List Units := ["airbyte", "mcp", "http", "command"].map wordText

/-- The members of a member. -/
def Members.inner (m : Members) (name : String) : Option Members := (m.get name).bind membersOf

/-- The structural conditions of an adapter. -/
def adapterMalformed (a : Members) : Bool :=
  match a.inner "adapter" with
  | none => true
  | some adapter =>
    !isString (adapter.get "name") || !isString (adapter.get "version") || !isDigest (adapter.get "digest")

/-- The structural conditions of an `acquisition` object. -/
def acquisitionMalformed (node : Option JsonNode) : Bool :=
  match node.bind membersOf with
  | none => true
  | some a =>
    if adapterMalformed a then true
    else if !(stringOf (a.get "shape")).any shapes.contains then true
    else if !isNullOrString (a.get "endpoint") || !isNullOrDigest (a.get "statement") ||
        !isNullOrString (a.get "snapshot") then true
    else if !isNullOrString (a.get "peerIdentity") || !isNullOrDigest (a.get "schema") ||
        !isNullOrString (a.get "upstreamToken") then true
    else if !isString (a.get "observedAt") then true
    else
      match a.get "pageItems" with
      | none => false
      | some (.arr items) => !items.all fun item => isDigest (some item)
      | some _ => true

/-- An identity with the digest of the token that carried it. -/
def partyMalformed (party : Option Members) : Bool :=
  match party with
  | none => true
  | some p => !isString (p.get "issuer") || !isString (p.get "subject") || !isDigest (p.get "tokenDigest")

def citeMalformed (cite : JsonNode) : Bool :=
  match membersOf cite with
  | none => true
  | some c =>
    !isSessionToken (c.get "sessionId") || !isIndex (c.get "callIndex") ||
      !(stringOf (c.get "signature")).any signature3

/-- The structural conditions of an `action` object. -/
def actionMalformed (node : Option JsonNode) : Bool :=
  match node.bind membersOf with
  | none => true
  | some a =>
    if partyMalformed (a.inner "requester") then true
    else
      match a.inner "decision" with
      | none => true
      | some decision =>
        if !isDigest (decision.get "recordDigest") || !isDigest (decision.get "packDigest") then true
        else
          match a.get "cites" with
          | some (.arr cites) =>
            if cites.any citeMalformed then true
            else
              match a.inner "tool" with
              | none => true
              | some tool =>
                if !isString (tool.get "shape") || !isNullOrString (tool.get "endpoint") ||
                    !isString (tool.get "name") then true
                else if !isDigest (a.get "request") then true
                else if adapterMalformed a then true
                else !isString (a.get "observedAt")
          | _ => true

inductive Shape where
  | of (version : Version)
  | malformed
  | unsupportedVersion
  deriving DecidableEq

/-- The caller of a receipt: null, or an identity. -/
def callerMalformed : Option JsonNode → Bool
  | none => true
  | some .null => false
  | some caller => partyMalformed (membersOf caller)

/-- The conditions on the kind of a version 3 receipt. -/
def kindMalformed (r : Members) : Bool :=
  match stringOf (r.get "kind") with
  | none => true
  | some kind =>
    if kind = wordText "acquisition" then r.has "action" || acquisitionMalformed (r.get "acquisition")
    else if kind = wordText "action" then r.has "acquisition" || actionMalformed (r.get "action")
    else true

/-- The version of a well-formed receipt. -/
def shapeOf (receipt : JsonNode) : Shape :=
  match membersOf receipt with
  | none => .malformed
  | some r =>
    if (canonicalize receipt).isNone then .malformed
    else if !(stringOf (r.get "signature")).any hexText then .malformed
    else if !isIndex (r.get "callIndex") then .malformed
    else if !isDigest (r.get "resultDigest") then .malformed
    else
      match stringOf (r.get "receiptVersion") with
      | none => .malformed
      | some version =>
        if ["sessionId", "source", "servedAt", "authority", "keyId"].any fun name => !isString (r.get name) then
          .malformed
        else if !isSessionToken (r.get "sessionId") then .malformed
        else if !isNullOrString (r.get "prevSignature") then .malformed
        else if version = wordText "2" then
          if !(stringOf (r.get "argumentsDigest")).any hmacDigest then .malformed else .of .two
        else if version ≠ wordText "3" then .unsupportedVersion
        else if !(stringOf (r.get "signature")).any signature3 then .malformed
        else if r.has "argumentsDigest" then .malformed
        else if !isDigest (r.get "argumentsCommitment") then .malformed
        else if callerMalformed (r.get "caller") then .malformed
        else if kindMalformed r then .malformed
        else .of .three

end Verify

end Desk
