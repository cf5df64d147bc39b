import Desk.Lib.Wire

/-!
# Two spellings of one file

The page's reading of a declared path: cleaned, and compared by folding case.
-/

namespace Desk.PackPath

def slash : UInt16 := unit '/'

def dot : UInt16 := unit '.'

def backslash : UInt16 := unit '\\'

def colon : UInt16 := unit ':'

def clean (raw : Units) : Units := Paths.clean slash dot raw

/-- The cleaned form of a declared path; `none` where it is refused. -/
def cleanRelative (raw : Units) : Option Units :=
  if raw = [] ∨ 0 ∈ raw then none
  else if raw.head? = some slash ∨ raw.head? = some backslash ∨ colon ∈ raw then none
  else
    let cleaned := clean raw
    if cleaned = [dot, dot] ∨ [dot, dot] ++ [slash] <+: cleaned then none
    else if cleaned = [dot] then none
    else some cleaned

/-! ## Folding case -/

/-- `[...s]`. -/
def runes (s : Units) : List Units := (codePoints s).map unitsOfPoint

/-- The first of an orbit is what the others fold to. -/
def foldOrbits : List (List Units) := [
  [0x73, 0x53, 0x17f],
  [0x6b, 0x4b, 0x212a],
  [0xe5, 0xc5, 0x212b],
  [0x3c3, 0x3a3, 0x3c2],
  [0x3b2, 0x392, 0x3d0],
  [0x3b5, 0x395, 0x3f5],
  [0x3b8, 0x398, 0x3d1, 0x3f4],
  [0x3b9, 0x399, 0x345, 0x1fbe],
  [0x3ba, 0x39a, 0x3f0],
  [0x3bc, 0x39c, 0xb5],
  [0x3c0, 0x3a0, 0x3d6],
  [0x3c1, 0x3a1, 0x3f1],
  [0x3c6, 0x3a6, 0x3d5],
  [0x3c9, 0x3a9, 0x2126],
  [0x1e61, 0x1e60, 0x1e9b]].map fun orbit => orbit.map unitsOfPoint

/-- `ORBIT_OF.get`; a map keeps the last entry of a key. -/
def orbitOf (rune : Units) : Option Units :=
  (foldOrbits.flatMap fun orbit => orbit.map fun member => (member, orbit.headD [])).reverse.lookup rune

section
variable (toLowerCase : Units → Units)

def foldRune (rune : Units) : Units := (orbitOf rune).getD (toLowerCase rune)

def runeFolds (a b : Units) : Bool := a == b || foldRune toLowerCase a == foldRune toLowerCase b

def equalFold (a b : Units) : Bool :=
  if a = b then true
  else if (runes a).length ≠ (runes b).length then false
  else ((runes a).zip (runes b)).all fun pair => runeFolds toLowerCase pair.1 pair.2

/-- Whether two declared paths name one file. -/
def samePath (a b : Units) : Bool :=
  match cleanRelative a, cleanRelative b with
  | some left, some right => left == right || equalFold toLowerCase left right
  | _, _ => false

end

end Desk.PackPath
