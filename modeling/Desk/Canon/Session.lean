import Desk.Canon.Receipt
import Mathlib.Data.List.Sort

/-!
# The verification of one session

The findings over the held receipts, their sequence and chain, and the seal
the registry carries.
-/

namespace Desk

namespace Verify

structure HeldReceipt where
  /-- The receipt as the acquire response carried it. -/
  receipt : JsonNode
  /-- The result beside it, or null where the page holds none. -/
  result : Option JsonNode

inductive Status where
  | ok
  | malformed
  | unsupportedVersion
  | keyMismatch
  | signatureMismatch
  | misfiled
  | authorityMismatch
  | actionUnchecked
  | artifactMissing
  | artifactMismatch
  | sequenceBroken
  | chainBroken
  | unregisteredSession
  | tailRollback
  | countExceedsSeal
  deriving DecidableEq

structure Finding where
  sessionId : Units
  /-- The receipt's index, or null for a session-level finding. -/
  callIndex : Option Int
  status : Status
  file : Option Units

structure SessionVerdict where
  ok : Bool
  findings : List Finding
  /-- Whether the registry carried a loadable seal for the session. -/
  sealed : Bool
  keyId : Units

structure SessionInput where
  sessionId : Units
  authority : Units
  publicKeyHex : Units
  /-- In the order they were held; position is the expected callIndex. -/
  receipts : List HeldReceipt
  registryText : Units

structure Passed where
  index : Nat
  callIndex : Int
  version : Version
  signature : Units
  prevSignature : Option Units

/-- `Number(BigInt(literal))`: exact, since the receipt is in the canonical domain. -/
def callIndexOf (r : Members) : Int :=
  match r.get "callIndex" with
  | some (.num literal) => literalInt literal
  | _ => 0

def digestOf (c : Crypto) (result : JsonNode) : Option Units :=
  (canonicalize result).map fun bytes => wordText "sha256:" ++ c.sha256Hex bytes

/-- One receipt down the ladder: the finding said, and what the chain needs of one that passed. -/
def checkReceipt (c : Crypto) (input : SessionInput) (keyId : Units) (index : Nat) (held : HeldReceipt) :
    Finding × Option Passed :=
  let say (callIndex : Option Int) (status : Status) : Finding × Option Passed :=
    (⟨input.sessionId, callIndex, status, none⟩, none)
  let malformed : Finding × Option Passed :=
    (⟨input.sessionId, none, .malformed, some (natText index ++ wordText ".json")⟩, none)
  match shapeOf held.receipt, membersOf held.receipt with
  | .of version, some r =>
    let callIndex := callIndexOf r
    if stringOf (r.get "keyId") ≠ some keyId then say (some callIndex) .keyMismatch
    else
      let signature := (stringOf (r.get "signature")).getD []
      match receiptSigningInput held.receipt version with
      | none => malformed
      | some input3 =>
        if !c.verifyEd25519 input.publicKeyHex input3 (c.toLowerCase signature) then
          say (some callIndex) .signatureMismatch
        else if callIndex ≠ index ∨ stringOf (r.get "sessionId") ≠ some input.sessionId then
          say (some callIndex) .misfiled
        else if stringOf (r.get "authority") ≠ some input.authority then say (some callIndex) .authorityMismatch
        else if stringMember held.receipt "kind" = some (wordText "action") then say (some callIndex) .actionUnchecked
        else
          match held.result with
          | none => say (some callIndex) .artifactMissing
          | some result =>
            match digestOf c result with
            | none => say (some callIndex) .artifactMismatch
            | some digest =>
              if some digest ≠ stringOf (r.get "resultDigest") then say (some callIndex) .artifactMismatch
              else
                (⟨input.sessionId, some callIndex, .ok, none⟩,
                  some ⟨index, callIndex, version, signature, stringMember held.receipt "prevSignature"⟩)
  | .unsupportedVersion, _ => say (some index) .unsupportedVersion
  | _, _ => malformed

def checkReceipts (c : Crypto) (input : SessionInput) (keyId : Units) : List (Finding × Option Passed) :=
  input.receipts.zipIdx.map fun (held, index) => checkReceipt c input keyId index held

/-- Sorted, the call indices are their own positions. -/
def contiguous (indices : List Int) : Bool :=
  ((indices.insertionSort (· ≤ ·)).zipIdx).all fun (value, position) => value == (position : Int)

/-- Each receipt names the signature before it, and all are of one version. -/
def chainHolds (version : Version) : Option Units → List Passed → Bool
  | _, [] => true
  | expectedPrev, current :: rest =>
    current.prevSignature == expectedPrev && current.version == version &&
      chainHolds version (some current.signature) rest

/-- What is said of the receipts that passed, together. -/
def sequenceFindings (input : SessionInput) (passed : List Passed) : List Finding :=
  if !contiguous (passed.map (·.callIndex)) then [⟨input.sessionId, none, .sequenceBroken, none⟩]
  else
    match passed with
    | [] => []
    | head :: _ =>
      if chainHolds head.version none passed then [] else [⟨input.sessionId, none, .chainBroken, none⟩]

/-- The white space and line terminators `trim` takes away. -/
def isTrimmed (u : UInt16) : Bool :=
  [0x09, 0x0a, 0x0b, 0x0c, 0x0d, 0x20, 0xa0, 0x1680, 0x2028, 0x2029, 0x202f, 0x205f, 0x3000, 0xfeff].contains u ||
    decide (0x2000 ≤ u ∧ u ≤ 0x200a)

/-- The count of the seal on a line, where it is a loadable seal for this session under the pinned key. -/
def sealCount (c : Crypto) (input : SessionInput) (keyId line : Units) : Option Int :=
  if line.all isTrimmed then none
  else
    match parseJsonText line with
    | none => none
    | some sealNode =>
      if stringMember sealNode "sessionId" ≠ some input.sessionId then none
      else if stringMember sealNode "keyId" ≠ some keyId then none
      else
        match memberOf sealNode "finalCount", stringMember sealNode "signature" with
        | some (.num count), some signature =>
          if !integerForm count then none
          else
            match sealSigningInput sealNode with
            | none => none
            | some sealInput =>
              if !c.verifyEd25519 input.publicKeyHex sealInput (c.toLowerCase signature) then none
              -- `Number(count.literal)` is exact: the seal's count is in the canonical domain.
              else some (literalInt count)
        | _, _ => none

/-- What is said of the count held against the count sealed. -/
def sealFindings (input : SessionInput) (finalCount : Option Int) : List Finding :=
  match finalCount with
  | none => [⟨input.sessionId, none, .unregisteredSession, none⟩]
  | some count =>
    if (input.receipts.length : Int) < count then [⟨input.sessionId, none, .tailRollback, none⟩]
    else if count < (input.receipts.length : Int) then [⟨input.sessionId, none, .countExceedsSeal, none⟩]
    else []

/-- `none` where the public key is no hex and its id cannot be computed. -/
def verifySession (c : Crypto) (input : SessionInput) : Option SessionVerdict := do
  let keyId ← c.keyIdOf input.publicKeyHex
  let checked := checkReceipts c input keyId
  let passed := checked.filterMap Prod.snd
  -- The first loadable seal for the session wins.
  let finalCount := (input.registryText.splitOn (unit '\n')).findSome? (sealCount c input keyId)
  let findings := checked.map Prod.fst ++ sequenceFindings input passed ++ sealFindings input finalCount
  return {
    ok := decide (0 < input.receipts.length) && findings.all fun finding => finding.status == .ok
    findings
    sealed := finalCount.isSome
    keyId }

end Verify

end Desk
