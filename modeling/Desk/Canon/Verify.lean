import Desk.Lib.Text
import Desk.Lib.JsonWrite
import Mathlib.Algebra.Ring.Int.Defs

/-!
# The canonical form of the verifier

The strict parser over JSON text and the renderer of the gateway's canonical
form. A number is kept as the literal it was written as; an error is `none`.
-/

namespace Desk

/-- `TextEncoder.encode`: a lone surrogate is encoded as U+FFFD. -/
def encode (text : Units) : List UInt8 := bytesOf (String.ofList (charsOfUnits text))

namespace Verify

def maxNesting : Nat := 10000

def maxInteger : Int := 2 ^ 53 - 1

/-! ## The parser -/

/-- After the opening quote: escapes decoded, surrogates paired as they are written or refused. -/
def string : Units → Option (Units × Units)
  | [] => none
  | c :: rest =>
    if c = quoteUnit then some ([], rest)
    else if c < 0x20 then none
    else if c ≠ escapeUnit then
      if isHigh c then
        match rest with
        | [] => none
        | next :: rest =>
          if isLow next then (string rest).map fun (out, rest) => (c :: next :: out, rest) else none
      else if isLow c then none
      else (string rest).map fun (out, rest) => (c :: out, rest)
    else
      match rest with
      | [] => none
      | e :: rest =>
        if e ≠ unit 'u' then
          match shortEscape e with
          | none => none
          | some u => (string rest).map fun (out, rest) => (u :: out, rest)
        else
          match rest with
          | a :: b :: c :: d :: rest =>
            match hexUnits a b c d with
            | none => none
            | some high =>
              if isHigh high then
                match rest with
                | backslash :: u :: a :: b :: c :: d :: rest =>
                  if backslash = escapeUnit ∧ u = unit 'u' then
                    match hexUnits a b c d with
                    | none => none
                    | some low =>
                      if isLow low then (string rest).map fun (out, rest) => (high :: low :: out, rest) else none
                  else none
                | _ => none
              else if isLow high then none
              else (string rest).map fun (out, rest) => (high :: out, rest)
          | _ => none

/-- The literal of a number, as written. -/
def number (literal : Units) : Option Units := if numberForm literal then some literal else none

/-- The source refuses a repeated name when it meets it; here the object is refused at its end. -/
def parser : Reader Units where
  string := string
  number := readRun number
  nests depth := decide (depth < maxNesting)
  entries := refuseRepeats

def parseJsonText (text : Units) : Option (Value Units) := parser.parse text

/-! ## The renderer -/

/-- Ascending by code point: negative, zero or positive. -/
def compareCodePoints (a b : Units) : Int := comparePoints (codePoints a) (codePoints b)

def hexDigit (n : Nat) : UInt16 := if n < 10 then UInt16.ofNat (48 + n) else UInt16.ofNat (87 + n)

/-- One unit of a string. Every character above U+FFFF stands for itself, so its two units do. -/
def canonicalUnit (u : UInt16) : Units :=
  if u = quoteUnit then [escapeUnit, quoteUnit]
  else if u = escapeUnit then [escapeUnit, escapeUnit]
  else if u = 0x08 then [escapeUnit, unit 'b']
  else if u = 0x0c then [escapeUnit, unit 'f']
  else if u = 0x0a then [escapeUnit, unit 'n']
  else if u = 0x0d then [escapeUnit, unit 'r']
  else if u = 0x09 then [escapeUnit, unit 't']
  else if u < 0x20 then [escapeUnit, unit 'u', unit '0', unit '0', hexDigit (u.toNat / 16), hexDigit (u.toNat % 16)]
  else [u]

def canonicalString (s : Units) : Units := quoteUnit :: (s.flatMap canonicalUnit ++ [quoteUnit])

/-- Integers only, and within ±(2^53−1). -/
def renderNumber (literal : Units) : Option Units :=
  if integerForm literal then
    let magnitude := literalInt literal
    if magnitude > maxInteger ∨ magnitude < -maxInteger then none else some (intText magnitude)
  else none

def renderer : Writer Units where
  string s := some (canonicalString s)
  number := renderNumber
  nests _ := true
  before a b := decide (compareCodePoints a b ≤ 0)

def render (node : Value Units) : Option Units := renderer.render node 0

/-- The canonical bytes of a parsed document. -/
def canonicalize (node : Value Units) : Option (List UInt8) := (render node).map encode

/-- The canonical bytes of a JSON text. -/
def canonicalText (text : Units) : Option (List UInt8) := (parseJsonText text).bind canonicalize

end Verify

end Desk
