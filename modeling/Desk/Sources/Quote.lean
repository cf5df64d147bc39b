import Desk.Lib.Words
import Desk.Sources.Ledger

/-!
# Locating a quotation

The range of a quotation in a source's text: its literal span or, with whitespace
folded, the span that a walk over the words of the text finds; else the range of
the quotation without one balanced pair of marks around it.
-/

namespace Desk

namespace Sources

/-- The loop of `literalRange` over the words; a word begins at `cursor` in the folded text. -/
def walkWords (index length : Nat) : Nat → Option Nat → List (Nat × Units) → Option (Nat × Nat)
  | _, _, [] => none
  | cursor, start, (place, word) :: rest =>
    let start :=
      if start = none ∧ cursor ≤ index ∧ index < cursor + word.length then some (place + index - cursor) else start
    let stop := index + length
    match start with
    | some found =>
      if stop ≤ cursor + word.length then some (found, place + stop - cursor)
      else walkWords index length (cursor + word.length + 1) (some found) rest
    | none => walkWords index length (cursor + word.length + 1) none rest

def literalRange (text quote : Units) : Option (Nat × Nat) :=
  let trimmed := trim isSpace quote
  if trimmed = [] then none
  else match indexOf trimmed text with
    | some exact_ => some (exact_, exact_ + trimmed.length)
    | none =>
      let needle := squeeze isSpace (unit ' ') trimmed
      match indexOf needle (folded isSpace (unit ' ') text) with
      | none => none
      | some index => walkWords index needle.length 0 none (wordsOf isSpace text)

/-- The quotation marks that open a quotation, each with the one that closes it. -/
def pairs : List (UInt16 × UInt16) :=
  [(0x201c, 0x201d), (0x2018, 0x2019), (0x22, 0x22), (0x27, 0x27), (0xab, 0xbb), (0x2039, 0x203a), (0x300c, 0x300d),
    (0x300e, 0x300f), (0x201e, 0x201c)]

/-- One balanced pair of quotation marks is around the text. -/
def wrapped (trimmed : Units) : Bool :=
  decide (2 < trimmed.length) && (trimmed.head?.bind fun first => pairs.lookup first) == trimmed.getLast?

/-- `trimmed.slice(1, -1)` -/
def unwrap (trimmed : Units) : Units := (trimmed.drop 1).dropLast

def quoteRange (text quote : Units) : Option (Nat × Nat) :=
  let trimmed := trim isSpace quote
  match literalRange text trimmed with
  | some literal => some literal
  | none => if wrapped trimmed then literalRange text (unwrap trimmed) else none

end Sources

end Desk
