import Desk.Lib.JsonParse
import Desk.Lib.JsonWrite

/-!
# The canonical forms of the dialect

The reader of canonical-domain JSON and the two renderings, the gateway form
and the preparation form. An error is `none`. A JavaScript object is a list of
members with distinct names.
-/

namespace Desk

namespace Dialect

/-- A JavaScript number: an integer, `-0`, or a fraction, an infinity or `NaN`. -/
inductive Num where
  | int (n : Int)
  | negZero
  | other
  deriving DecidableEq

def maxSafeInteger : Int := 9007199254740991

def isSafeInteger : Num → Bool
  | .int n => decide (-maxSafeInteger ≤ n ∧ n ≤ maxSafeInteger)
  | .negZero => true
  | .other => false

/-- `unicode` passes: no code point is a surrogate. -/
def unicode (value : Units) : Bool := (codePoints value).all fun point => !decide (0xd800 ≤ point ∧ point ≤ 0xdfff)

/-- `Number(literal)` of an integer literal; one that is not safe is not looked at further. -/
def toNumber (literal : Units) : Num :=
  if literal.head? = some (unit '-') ∧ literalInt literal = 0 then .negZero else .int (literalInt literal)

def integer (literal : Units) : Option Num :=
  if integerForm literal then
    let value := toNumber literal
    if isSafeInteger value then some value else none
  else none

def nesting (depth : Nat) : Bool := decide (depth < 64)

/-! ## The reader -/

def string (input : Units) : Option (Units × Units) := do
  let (body, rest) ← JsonParse.token input
  match JsonParse.parse toNumber (quoteUnit :: body) with
  | some (.str value) => if unicode value then return (value, rest) else none
  | _ => none

/-- The source refuses a repeated name when it meets it; here the object is refused at its end. -/
def reader : Reader Num where
  string := string
  number := readRun integer
  nests := nesting
  entries := refuseRepeats

def parseJSON (text : Units) : Option (Value Num) := reader.parse text

/-! ## The renderings -/

def comparePoints : List Nat → List Nat → Int
  | left :: lefts, right :: rights =>
    let difference : Int := left - right
    if difference ≠ 0 then difference else comparePoints lefts rights
  | lefts, rights => lefts.length - rights.length

def compareNames (a b : Units) : Int := comparePoints (codePoints a) (codePoints b)

/-- `/[&<>\u2028\u2029]/g` -/
def isMarkup (u : UInt16) : Bool :=
  u == unit '&' || u == unit '<' || u == unit '>' || u == 0x2028 || u == 0x2029

def escapeMarkup (u : UInt16) : Units := if isMarkup u then escapeUnit :: unit 'u' :: JsonParse.hex4 u.toNat else [u]

def renderString (preparation : Bool) (value : Units) : Option Units :=
  if unicode value then
    let quoted := JsonParse.stringify value
    some (if preparation then quoted.flatMap escapeMarkup else quoted)
  else none

def renderNumber (preparation : Bool) (value : Num) : Option Units :=
  if isSafeInteger value then
    match value with
    | .int n => some (intText n)
    | .negZero => some (if preparation then [unit '-', unit '0'] else intText 0)
    | .other => none
  else none

def renderer (preparation : Bool) : Writer Num where
  string := renderString preparation
  number := renderNumber preparation
  nests := nesting
  before a b := decide (compareNames a b ≤ 0)

def render (value : Value Num) (preparation : Bool) : Option Units := (renderer preparation).render value 0

/-- Code point order, raw Unicode, `-0` becomes `0`. -/
def canonicalize (value : Value Num) : Option Units := render value false

/-- Markup and line separators escaped, `-0` retained. -/
def canonicalPreparation (value : Value Num) : Option Units := render value true

end Dialect

end Desk
