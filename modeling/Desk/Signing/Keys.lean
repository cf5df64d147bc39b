import Desk.Lib.Json
import Mathlib.Algebra.Ring.Int.Defs

/-!
# The list of public keys

The keys a desk has had, one line each, in the one spelling Desk writes and
reads. The text of an error names no path.
-/

namespace Desk

namespace Signing

/-! ## Forms -/

def publicKeyForm (s : String) : Bool := hexForm "" 64 s

def keyIDForm (s : String) : Bool := hexForm "" 32 s

def newline : UInt8 := 10

def maxDeskKeys : Nat := 64

/-- `hex.DecodeString` -/
def decodeHex : List Char → Option (List UInt8)
  | [] => some []
  | [_] => none
  | a :: b :: rest => do
    let hi ← Json.hexValue a
    let lo ← Json.hexValue b
    return UInt8.ofNat (hi * 16 + lo) :: (← decodeHex rest)

/-- The runtime's name for a public key. -/
def keyIDOf (publicKey : String) : String :=
  match decodeHex publicKey.toList with
  | none => ""
  | some raw => String.ofList ((digestOf raw).toList.take 32)

/-! ## Keys -/

structure DeskPublicKey where
  publicKey : String := ""
  keyID : String := ""
  at_ : Int := 0
  trail : String := ""
  deriving DecidableEq

namespace DeskPublicKey

/-- Why a key is not one Desk keeps. -/
def check (k : DeskPublicKey) : Option String :=
  if !publicKeyForm k.publicKey then some "a public key is not 64 lowercase hexadecimal characters"
  else if !keyIDForm k.keyID || k.keyID != keyIDOf k.publicKey then some "a keyId is not the one its public key has"
  else if k.at_ < 0 then some "a key takes over from a sequence before the trail's first"
  else if k.trail != "" && !keyIDForm k.trail then some "a trail identity is not 32 lowercase hexadecimal characters"
  else none

def json (k : DeskPublicKey) : Json :=
  .obj ([("publicKey", .str k.publicKey), ("keyId", .str k.keyID), ("at", .num (toString k.at_))] ++
    Json.optText "trail" k.trail)

/-- The key's line, with its newline. -/
def line (k : DeskPublicKey) : List UInt8 := k.json.marshal ++ [newline]

end DeskPublicKey

/-- Whether two are one key taking over from one sequence. -/
def sameKey (a b : DeskPublicKey) : Bool := a.publicKey == b.publicKey && a.keyID == b.keyID && decide (a.at_ = b.at_)

/-! ## Reading a key -/

/-- The characters that fold to a letter of a member name. -/
def foldRune (c : Char) : Char :=
  if 'a' ≤ c ∧ c ≤ 'z' then c.toUpper
  else if c.toNat = 0x17f then 'S'
  else if c.toNat = 0x212a then 'K'
  else c

def foldName (name : String) : List Char := name.toList.map foldRune

def setText (v : Json) (old : String) : Option String :=
  match v with
  | .str s => some s
  | .null => some old
  | _ => none

/-- A Go `int64`. -/
def setInt (v : Json) (old : Int) : Option Int :=
  match v with
  | .num literal => match literal.toInt? with
    | some n => if -2 ^ 63 ≤ n ∧ n < 2 ^ 63 then some n else none
    | none => none
  | .null => some old
  | _ => none

/-- One member of the object; a name no field has is passed over. -/
def setMember (k : DeskPublicKey) (m : String × Json) : Option DeskPublicKey :=
  if foldName m.1 = foldName "publicKey" then (setText m.2 k.publicKey).map fun v => { k with publicKey := v }
  else if foldName m.1 = foldName "keyId" then (setText m.2 k.keyID).map fun v => { k with keyID := v }
  else if foldName m.1 = foldName "at" then (setInt m.2 k.at_).map fun v => { k with at_ := v }
  else if foldName m.1 = foldName "trail" then (setText m.2 k.trail).map fun v => { k with trail := v }
  else some k

/-- `json.Unmarshal` into a listed key. -/
def unmarshalKey (raw : List UInt8) : Option DeskPublicKey :=
  match Json.parse raw with
  | some (.obj members) => members.foldlM setMember {}
  | some .null => some {}
  | _ => none

/-! ## Reading the list -/

/-- A key takes over after the one before it: later on the same trail. -/
def takesOver (keys : List DeskPublicKey) (key : DeskPublicKey) : Bool :=
  match keys.getLast? with
  | none => decide (key.at_ = 0) && key.trail == ""
  | some before => decide (1 ≤ key.at_) && !(key.trail == before.trail && decide (key.at_ ≤ before.at_))

def lineProblem (n : Nat) (words : String) : String := "line " ++ toString (n + 1) ++ words

/-- The lines after those of `keys`. -/
def readKeys (keys : List DeskPublicKey) : List (List UInt8) → Except String (List DeskPublicKey)
  | [] => .ok keys
  | line :: rest =>
    match unmarshalKey line with
    | none => .error (lineProblem keys.length " is not in the form Desk writes")
    | some key =>
      if key.line ≠ line ++ [newline] then .error (lineProblem keys.length " is not in the form Desk writes")
      else
        match key.check with
        | some problem => .error (lineProblem keys.length (": " ++ problem))
        | none =>
          if !takesOver keys key then .error (lineProblem keys.length " does not take over after the key before it")
          else if keys.any fun k => k.publicKey == key.publicKey then
            .error (lineProblem keys.length " lists a key a second time")
          else readKeys (keys ++ [key]) rest

def parseDeskKeys (data : List UInt8) : Except String (List DeskPublicKey) :=
  if data.getLast? ≠ some newline then .error "it is empty, or its last line does not end"
  else
    let lines := data.dropLast.splitOn newline
    if maxDeskKeys < lines.length then .error ("it lists more than " ++ toString maxDeskKeys ++ " keys")
    else readKeys [] lines

/-- The list, as Desk writes it. -/
def keysLines (keys : List DeskPublicKey) : List UInt8 := keys.flatMap DeskPublicKey.line

end Signing

end Desk
