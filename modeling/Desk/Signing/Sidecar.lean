import Desk.Signing.Keys

/-!
# The signature sidecar

What Desk reads of a trail's signature sidecar, the rule a list of public keys
is held to beside it, and the keys of the trail it is.
-/

namespace Desk

namespace Signing

def sidecarLineLimit : Nat := 4096

def sidecarIntegerLimit : Nat := 2 ^ 53 - 1

def signatureForm (s : String) : Bool := hexForm "" 128 s

def recordForm (s : String) : Bool := hexForm "sha256:" 64 s

/-! ## Lines -/

structure SidecarRotation where
  at_ : Int
  keyID : String
  next : String
  deriving DecidableEq

/-- A line of one of the two shapes Desk reads. -/
inductive SidecarLine where
  | recordSignature (keyID trail : String)
  | keyRotation (rotation : SidecarRotation) (trail : String)
  deriving DecidableEq

/-- The members of an object with none named twice. -/
def exactMembers : Json → Option (List (String × Json))
  | .obj members => if (members.map (·.1)).Nodup then some members else none
  | _ => none

def sidecarString (members : List (String × Json)) (name : String) : Option String :=
  match members.lookup name with
  | some (.str s) => some s
  | _ => none

/-- An integer written in digits alone, from 1 to under the bound. -/
def sidecarInteger (members : List (String × Json)) (name : String) : Option Nat :=
  match members.lookup name with
  | some (.num literal) =>
    if literal.toList.head? = some '0' ∨ literal.toList.any (fun c => !c.isDigit) = true then none
    else
      match literal.toNat? with
      | some n => if sidecarIntegerLimit ≤ n then none else some n
      | none => none
  | _ => none

/-- A string member of a form. -/
def sidecarForm (members : List (String × Json)) (name : String) (form : String → Bool) : Option String :=
  (sidecarString members name).filter form

/-- One line without its newline; a line of no shape Desk reads names nothing. -/
def readSidecarLine (line : List UInt8) : Option SidecarLine :=
  if line.length = 0 ∨ sidecarLineLimit < line.length then none
  else do
    let members ← (Json.parse line).bind exactMembers
    if members.length ≠ 7 then none
    else do
      let _ ← sidecarForm members "sidecarVersion" (· == "1")
      let kind ← sidecarString members "kind"
      let keyID ← sidecarForm members "keyId" keyIDForm
      let trail ← sidecarForm members "trail" keyIDForm
      let _ ← sidecarForm members "signature" signatureForm
      if kind = "record-signature" then do
        let _ ← sidecarInteger members "sequence"
        let _ ← sidecarForm members "record" recordForm
        return .recordSignature keyID trail
      else if kind = "key-rotation" then do
        let at_ ← sidecarInteger members "at"
        let next ← sidecarForm members "next" publicKeyForm
        return .keyRotation { at_, keyID, next } trail
      else none

/-! ## Readings -/

structure SidecarReading where
  rotations : List SidecarRotation := []
  /-- The keys that made a record's signature, as they come. -/
  signers : List String := []
  signedSinceRotation : Bool := false
  trail : String := ""
  mixed : Bool := false
  deriving DecidableEq

namespace SidecarReading

/-- The trail one line names. -/
def noteTrail (r : SidecarReading) (trail : String) : SidecarReading :=
  if r.mixed then r
  else if r.trail = "" then { r with trail }
  else if r.trail ≠ trail then { r with trail := "", mixed := true }
  else r

/-- The trail the sidecar names, where it names one. -/
def oneTrail (r : SidecarReading) : Option String := if r.trail ≠ "" ∧ r.mixed = false then some r.trail else none

def last (r : SidecarReading) : Option SidecarRotation := r.rotations.getLast?

/-- A key a line names has been in force. -/
def names (r : SidecarReading) (key : DeskPublicKey) : Bool :=
  r.signers.contains key.keyID || r.rotations.any fun rotation => rotation.next == key.publicKey || rotation.keyID == key.keyID

def take (r : SidecarReading) : SidecarLine → SidecarReading
  | .recordSignature keyID trail =>
    { r with signers := r.signers ++ [keyID], signedSinceRotation := true }.noteTrail trail
  | .keyRotation rotation trail =>
    { r with rotations := r.rotations ++ [rotation], signedSinceRotation := false }.noteTrail trail

def read (r : SidecarReading) (line : List UInt8) : SidecarReading :=
  match readSidecarLine line with
  | some l => r.take l
  | none => r

end SidecarReading

/-- The lines a newline ends; what follows the last newline is no line. -/
def readSidecarLines (data : List UInt8) : SidecarReading :=
  (data.splitOn newline).dropLast.foldl SidecarReading.read {}

/-! ## The list against the sidecar -/

/-- The index of the last key whose rotation recorded another trail. -/
def lastOther (keys : List DeskPublicKey) (trail : String) : Nat :=
  (List.range keys.length).foldl
    (fun first i => if 1 ≤ i ∧ (keys.getD i {}).trail ≠ "" ∧ (keys.getD i {}).trail ≠ trail then i else first) 0

/-- The index of the first key of the trail the sidecar is; none is a sidecar that was not read. -/
def trailFirst (keys : List DeskPublicKey) (sidecar : Option SidecarReading) : Nat :=
  match sidecar with
  | none => 0
  | some r =>
    if keys.length < 2 then 0
    else
      match r.oneTrail with
      | none =>
        if r.mixed = false ∧ (keys.getD (keys.length - 1) {}).trail ≠ "" then keys.length - 1 else 0
      | some trail => lastOther keys trail

def errNotSeedsKey : String := "its last key is not the key Desk keeps for this desk"

/-- Rotation `i` of the sidecar against the keys from the trail's first. -/
def rotationProblem (keys : List DeskPublicKey) (first i : Nat) (rotation : SidecarRotation) : Option String :=
  let key := keys.getD (first + i + 1) {}
  let before := keys.getD (first + i) {}
  if rotation.next ≠ key.publicKey then
    some ("key " ++ toString (first + i + 2) ++ " of the list is not the key the sidecar's key rotation " ++
      toString (i + 1) ++ " hands over to")
  else if rotation.keyID ≠ before.keyID then
    some ("the sidecar's key rotation " ++ toString (i + 1) ++ " was made by a key other than key " ++
      toString (first + i + 1) ++ " of the list")
  else if rotation.at_ ≠ key.at_ then
    some ("key " ++ toString (first + i + 2) ++ " of the list takes over from sequence " ++ toString key.at_ ++
      ", and the sidecar's key rotation to it from " ++ toString rotation.at_)
  else none

/-- The first problem of the rotations from the `i`th on. -/
def rotationsProblem (keys : List DeskPublicKey) (first : Nat) : Nat → List SidecarRotation → Option String
  | _, [] => none
  | i, rotation :: rest =>
    match rotationProblem keys first i rotation with
    | some problem => some problem
    | none => rotationsProblem keys first (i + 1) rest

def checkKeysAgainst (keys : List DeskPublicKey) (current : DeskPublicKey) (sidecar : Option SidecarReading) :
    Except String Unit :=
  match keys.getLast? with
  | none => .error "it lists no key"
  | some last =>
    if last.publicKey ≠ current.publicKey ∨ last.keyID ≠ current.keyID then .error errNotSeedsKey
    else
      match sidecar with
      | none => .ok ()
      | some r =>
        if r.mixed then .error "the trail's signature sidecar names more than one trail"
        else
          let first := trailFirst keys sidecar
          let named : Int := (keys.length : Int) - 1 - first
          if (r.rotations.length : Int) ≠ named then
            .error ("the trail's signature sidecar records " ++ toString r.rotations.length ++
              " key rotations, and the list names " ++ toString named ++ " keys after this trail's first")
          else
            match rotationsProblem keys first 0 r.rotations with
            | some problem => .error problem
            | none => .ok ()

/-- The keys of the trail, its first taking over from 0. -/
def keysOfTrail (keys : List DeskPublicKey) (sidecar : Option SidecarReading) : List DeskPublicKey :=
  let first := trailFirst keys sidecar
  if first = 0 then keys
  else
    match keys.drop first with
    | [] => []
    | key :: rest => { key with at_ := 0 } :: rest

end Signing

end Desk
