import Desk.Lib.JsonParse
import Desk.Lib.JsonWrite

/-!
# JSON texts that identify values

`JSON.stringify` of a value whose numbers are numerals is read back as that value,
so the text identifies it, and the text of a value with its members arranged anew
identifies it up to the order of its members.
-/

namespace Desk

/-! ## JSON.stringify -/

mutual

def stringifyText : Value Numeral → Units
  | .null => wordText "null"
  | .bool b => wordText (if b then "true" else "false")
  | .num n => n.1
  | .str s => JsonParse.stringify s
  | .arr items => unit '[' :: (commas (stringifyItems items) ++ [unit ']'])
  | .obj members => unit '\x7b' :: (commas ((stringifyMembers members).map Prod.snd) ++ [unit '\x7d'])

def stringifyItems : List (Value Numeral) → List Units
  | [] => []
  | v :: rest => stringifyText v :: stringifyItems rest

/-- Each member with its name. -/
def stringifyMembers : List (Units × Value Numeral) → List (Units × Units)
  | [] => []
  | (name, v) :: rest => (name, JsonParse.stringify name ++ unit ':' :: stringifyText v) :: stringifyMembers rest

end

/-- A literal as a numeral; zero for what is none. -/
def toNumeral (l : Units) : Numeral := if h : numberForm l = true then ⟨l, h⟩ else ⟨wordText "0", by decide⟩

/-- Every value is read as it stands. -/
def plainSpelling : Spelling (JsonParse.readerWith toNumeral some) := JsonParse.spellingWith toNumeral some

mutual

theorem spells_stringify : ∀ (v : Value Numeral) (depth : Nat), Spells plainSpelling depth (stringifyText v) v
  | .null, _ => ⟨.null, rfl, rfl⟩
  | .bool b, _ => ⟨.bool b, rfl, rfl⟩
  | .num n, _ => by
    refine ⟨.num n, rfl, ?_⟩
    have hn : toNumeral n.1 = n := dif_pos n.2
    rw [Cst.build]
    show (some (toNumeral n.1)).map Value.num = _
    rw [hn]
    rfl
  | .str s, _ => by
    obtain ⟨ps, htext, hps⟩ := JsonParse.stringify_pieces s
    refine ⟨.str ps, htext.symm, ?_⟩
    rw [Cst.build]
    show (some (piecesUnits ps)).map Value.str = _
    rw [hps]
    rfl
  | .arr items, depth => by
    have hall := spells_stringifyItems items (depth + 1)
    cases items with
    | nil => exact ⟨.noItems noLayout, rfl, rfl⟩
    | cons v rest =>
      obtain ⟨c, hc, hb⟩ := spelled_items hall
      refine ⟨.arr c, by rw [Cst.text, hc]; rfl, ?_⟩
      rw [Cst.build, if_pos (by rfl), hb]
      rfl
  | .obj members, depth => by
    have hall := spells_stringifyMembers members (depth + 1)
    cases members with
    | nil => exact ⟨.noMembers noLayout, rfl, rfl⟩
    | cons m rest =>
      obtain ⟨c, hc, hb⟩ := spelled_members hall
      refine ⟨.obj c, by rw [Cst.text, hc]; rfl, ?_⟩
      rw [Cst.build, if_pos (by rfl), hb]
      rfl

theorem spells_stringifyItems : ∀ (items : List (Value Numeral)) (depth : Nat),
    List.Forall₂ (Spells plainSpelling depth) (stringifyItems items) items
  | [], _ => .nil
  | v :: rest, depth => .cons (spells_stringify v depth) (spells_stringifyItems rest depth)

theorem spells_stringifyMembers : ∀ (members : List (Units × Value Numeral)) (depth : Nat),
    List.Forall₂ (SpellsMember plainSpelling depth) (stringifyMembers members) members
  | [], _ => .nil
  | (name, v) :: rest, depth => by
    obtain ⟨ps, htext, hps⟩ := JsonParse.stringify_pieces name
    obtain ⟨c, hc, hb⟩ := spells_stringify v depth
    refine .cons ⟨rfl, ps, c, ?_, congrArg some hps, hb⟩ (spells_stringifyMembers rest depth)
    rw [htext, hc]

end

/-- What is written is read back. -/
theorem parse_stringify (v : Value Numeral) : (JsonParse.readerWith toNumeral some).parse (stringifyText v) = some v := by
  obtain ⟨c, hc, hb⟩ := spells_stringify v 0
  refine (Reader.parse_iff plainSpelling).mpr ⟨noLayout, c, noLayout, ?_, hb⟩
  rw [hc]
  simp [noLayout]

theorem stringifyText_injective {v v' : Value Numeral} (h : stringifyText v = stringifyText v') : v = v' := by
  have hv := parse_stringify v
  rw [h, parse_stringify v'] at hv
  exact (Option.some.inj hv).symm

/-! ## Numbers and texts of values -/

/-- What the language provides: `JSON.stringify` of a number, and the number of an integer. -/
structure Numbers (ν : Type) where
  text : ν → Numeral
  ofInt : Int → ν

section
variable {ν : Type}

mutual

/-- `String(value)` -/
def stringText (N : Numbers ν) : Value ν → Units
  | .null => wordText "null"
  | .bool b => wordText (if b then "true" else "false")
  | .num n => (N.text n).1
  | .str s => s
  | .arr items => List.intercalate [unit ','] (joinedTexts N items)
  | .obj _ => wordText "[object Object]"

/-- What an array joins: nothing for null. -/
def joinedTexts (N : Numbers ν) : List (Value ν) → List Units
  | [] => []
  | .null :: rest => [] :: joinedTexts N rest
  | v :: rest => stringText N v :: joinedTexts N rest

end

end

end Desk
