import Desk.Signing.KeysSound
import Desk.Lib.Run

/-!
# Histories of a list

A desk's keys and its trail over time: records are signed, keys are rotated,
and trails are moved aside and begun again. An event that cannot happen leaves
everything as it was.
-/

namespace Desk

namespace Signing

/-! ## Histories -/

structure History where
  keys : List DeskPublicKey
  /-- The sidecar's lines, without their newlines. -/
  lines : List (List UInt8)
  trail : String
  /-- The trails that were moved aside. -/
  past : List String
  /-- The key in force when the trail began, and those rotated to on it. -/
  opening : DeskPublicKey
  turned : List DeskPublicKey

inductive Event where
  | rotate (publicKey keyID : String) (at_ : Int) (line : List UInt8)
  | sign (line : List UInt8)
  | beginTrail (trail : String)

namespace History

def start (first : DeskPublicKey) (trail : String) : History where
  keys := [first]
  lines := []
  trail
  past := []
  opening := first
  turned := []

/-- The key in force: the last. -/
def current (h : History) : DeskPublicKey := h.keys.getLast?.getD {}

/-- What the signature sidecar holds. -/
def sidecar (h : History) : List UInt8 := h.lines.flatMap (· ++ [newline])

/-- A record was written after the last rotation on this trail. -/
def recordSince (h : History) (at_ : Int) : Bool :=
  match h.turned.getLast? with
  | none => decide (1 ≤ at_)
  | some key => decide (key.at_ < at_)

/-- The key a rotation lists. -/
def nextKey (h : History) (publicKey keyID : String) (at_ : Int) : DeskPublicKey :=
  { publicKey, keyID, at_, trail := h.trail }

def canRotate (h : History) (publicKey keyID : String) (at_ : Int) (line : List UInt8) : Bool :=
  decide (h.keys.length < maxDeskKeys) && (h.nextKey publicKey keyID at_).check.isNone &&
    !(h.keys.any fun k => k.publicKey == publicKey) && h.recordSince at_ && !line.contains newline &&
    readSidecarLine line == some (.keyRotation { at_, keyID := h.current.keyID, next := publicKey } h.trail)

def step (h : History) : Event → History
  | .rotate publicKey keyID at_ line =>
    if h.canRotate publicKey keyID at_ line then
      { h with
        keys := h.keys ++ [h.nextKey publicKey keyID at_], lines := h.lines ++ [line],
        turned := h.turned ++ [h.nextKey publicKey keyID at_] }
    else h
  | .sign line =>
    if !line.contains newline && readSidecarLine line == some (.recordSignature h.current.keyID h.trail) then
      { h with lines := h.lines ++ [line] }
    else h
  | .beginTrail trail =>
    if keyIDForm trail && !(h.trail :: h.past).contains trail then
      { h with lines := [], trail, past := h.trail :: h.past, opening := h.current, turned := [] }
    else h

end History

end Signing

end Desk
