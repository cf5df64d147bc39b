import Desk.Lib.Sha256

/-!
# JSON

The documents the program writes (`marshal`, as `encoding/json` writes a value
whose members are in declaration order), the documents it reads (`parse`), and
the canonical form it hashes (`canonical`).
-/

namespace Desk

inductive Json where
  | null
  | bool (b : Bool)
  | num (literal : String)
  | str (s : String)
  | arr (items : List Json)
  | obj (members : List (String × Json))

namespace Json

def nat (n : Nat) : Json := num (Nat.repr n)

/-! ## Members of a written object -/

/-- A member written whatever its value. -/
def member (name : String) (v : Json) : List (String × Json) := [(name, v)]

/-- An `omitempty` string. -/
def optText (name s : String) : List (String × Json) := if s = "" then [] else [(name, str s)]

/-- An `omitempty` pointer. -/
def optMember {α : Type} (name : String) (v : Option α) (toJson : α → Json) : List (String × Json) :=
  match v with
  | some x => [(name, toJson x)]
  | none => []

def list {α : Type} (toJson : α → Json) (items : List α) : Json := arr (items.map toJson)

/-- An `omitempty` slice. -/
def optList {α : Type} (name : String) (toJson : α → Json) (items : List α) : List (String × Json) :=
  if items.isEmpty then [] else [(name, list toJson items)]

/-- Insertion by key, for the sorted members of a map. -/
def insertMember {α : Type} (e : String × α) : List (String × α) → List (String × α)
  | [] => [e]
  | f :: rest => if e.1 < f.1 then e :: f :: rest else f :: insertMember e rest

def sortMembers {α : Type} (members : List (String × α)) : List (String × α) :=
  members.foldr insertMember []

/-- A map, its keys sorted. -/
def map {α : Type} (toJson : α → Json) (entries : List (String × α)) : Json :=
  obj ((sortMembers entries).map fun e => (e.1, toJson e.2))

/-! ## Writing -/

def hex4 (n : Nat) : List Char :=
  [hexDigit (n / 4096 % 16), hexDigit (n / 256 % 16), hexDigit (n / 16 % 16), hexDigit (n % 16)]

/-- One character inside a string, with HTML escaping. -/
def escapeChar (c : Char) : List Char :=
  if c = Char.ofNat 0x22 ∨ c = Char.ofNat 0x5c then ['\\', c]
  else if c.toNat = 0x08 then ['\\', 'b']
  else if c.toNat = 0x0c then ['\\', 'f']
  else if c.toNat = 0x0a then ['\\', 'n']
  else if c.toNat = 0x0d then ['\\', 'r']
  else if c.toNat = 0x09 then ['\\', 't']
  else if c.toNat < 0x20 ∨ c = '<' ∨ c = '>' ∨ c = '&' ∨ c.toNat = 0x2028 ∨ c.toNat = 0x2029 then
    '\\' :: 'u' :: hex4 c.toNat
  else [c]

def quote (escape : Char → List Char) (s : String) : List Char :=
  Char.ofNat 0x22 :: (s.toList.flatMap escape ++ [Char.ofNat 0x22])

mutual

/-- The text of a value, strings written with `escape`. -/
def write (escape : Char → List Char) : Json → List Char
  | null => "null".toList
  | bool b => (if b then "true" else "false").toList
  | num literal => literal.toList
  | str s => quote escape s
  | arr items => '[' :: writeItems escape items
  | obj members => '\x7b' :: writeMembers escape members

def writeItems (escape : Char → List Char) : List Json → List Char
  | [] => [']']
  | [v] => write escape v ++ [']']
  | v :: rest => write escape v ++ ',' :: writeItems escape rest

def writeMembers (escape : Char → List Char) : List (String × Json) → List Char
  | [] => ['\x7d']
  | [(k, v)] => quote escape k ++ ':' :: (write escape v ++ ['\x7d'])
  | (k, v) :: rest => quote escape k ++ ':' :: (write escape v ++ ',' :: writeMembers escape rest)

end

/-- `json.Marshal`. -/
def marshal (v : Json) : List UInt8 := bytesOf (String.ofList (write escapeChar v))

/-! ## The length of what is written -/

theorem length_marshal (v : Json) : (marshal v).length = len (String.ofList (write escapeChar v)) := length_bytesOf _

theorem len_ofList_append (a b : List Char) : len (String.ofList (a ++ b)) = len (String.ofList a) + len (String.ofList b) := by
  rw [String.ofList_append, len_append]

theorem len_ofList_cons (c : Char) (a : List Char) : len (String.ofList (c :: a)) = c.utf8Size + len (String.ofList a) := by
  simp only [len, String.utf8ByteSize_ofList, String.utf8Len, Nat.add_comm]

/-- Objects whose members have the same names, and values of the same lengths, are written at the same length. -/
theorem length_marshal_obj {ms ms' : List (String × Json)}
    (h : List.Forall₂ (fun m m' => m.1 = m'.1 ∧ (marshal m.2).length = (marshal m'.2).length) ms ms') :
    (marshal (obj ms)).length = (marshal (obj ms')).length := by
  simp only [length_marshal, write, len_ofList_cons] at h ⊢
  congr 1
  induction h with
  | nil => rfl
  | @cons m m' rest rest' hm hrest ih =>
    obtain ⟨k, v⟩ := m
    obtain ⟨k', v'⟩ := m'
    obtain ⟨rfl, hlen⟩ := hm
    simp only at hlen
    cases hrest with
    | nil => simp only [writeMembers, len_ofList_append, len_ofList_cons, hlen]
    | cons _ _ => 
      simp only [writeMembers, len_ofList_append, len_ofList_cons, hlen]
      rw [ih]

/-- A text without characters to escape is written in quotes. -/
theorem length_marshal_str {s : String} (h : ∀ c ∈ s.toList, escapeChar c = [c]) : (marshal (str s)).length = len s + 2 := by
  have hflat : s.toList.flatMap escapeChar = s.toList := by
    generalize s.toList = l at h
    induction l with
    | nil => rfl
    | cons c rest ih =>
      rw [List.flatMap_cons, h c List.mem_cons_self, ih fun d hd => h d (List.mem_cons_of_mem _ hd)]
      rfl
  rw [length_marshal, write, quote, hflat, len_ofList_cons, len_ofList_append, String.ofList_toList]
  show 1 + (len s + 1) = _
  omega

theorem escapeChar_of_isDigit {c : Char} (h : c.isDigit = true) : escapeChar c = [c] := by
  simp only [Char.isDigit, Bool.and_eq_true, decide_eq_true_eq, ge_iff_le, UInt32.le_iff_toNat_le] at h
  have h₁ : 48 ≤ c.toNat := h.1
  have h₂ : c.toNat ≤ 57 := h.2
  have hne : ∀ d : Char, d.toNat < 48 ∨ 57 < d.toNat → c ≠ d := by
    rintro d hd rfl
    omega
  unfold escapeChar
  rw [if_neg, if_neg (by omega), if_neg (by omega), if_neg (by omega), if_neg (by omega), if_neg (by omega), if_neg]
  · simp only [not_or]
    exact ⟨by omega, hne _ (by decide), hne _ (by decide), hne _ (by decide), by omega, by omega⟩
  · simp only [not_or]
    exact ⟨hne _ (by decide), hne _ (by decide)⟩

mutual

/-- A bound on the length of what is written: no byte of a text takes more than six. -/
def room : Json → Nat
  | null => 4
  | bool _ => 5
  | num literal => len literal
  | str s => 6 * len s + 2
  | arr items => roomItems items + 2
  | obj members => roomMembers members + 2

def roomItems : List Json → Nat
  | [] => 0
  | v :: rest => room v + 1 + roomItems rest

def roomMembers : List (String × Json) → Nat
  | [] => 0
  | (k, v) :: rest => 6 * len k + 4 + room v + roomMembers rest

end

theorem roomMembers_append (a b : List (String × Json)) : roomMembers (a ++ b) = roomMembers a + roomMembers b := by
  induction a with
  | nil => rw [List.nil_append, roomMembers, Nat.zero_add]
  | cons m rest ih =>
    obtain ⟨k, v⟩ := m
    rw [List.cons_append, roomMembers, roomMembers, ih]
    omega

/-- What an `omitempty` string takes of the bound. -/
def optRoom (name s : String) : Nat := if s = "" then 0 else 6 * len name + 4 + (6 * len s + 2)

theorem roomMembers_optText (name s : String) : roomMembers (optText name s) = optRoom name s := by
  unfold optText optRoom
  split <;> rfl

theorem optRoom_of_ne {name s : String} (h : s ≠ "") : optRoom name s = 6 * len name + 4 + (6 * len s + 2) :=
  if_neg h

theorem len_hex4 (n : Nat) : len (String.ofList (hex4 n)) = 4 := by
  have hone : ∀ d < 16, (hexDigit d).utf8Size = 1 := by decide
  simp only [hex4, len_ofList_cons, hone _ (Nat.mod_lt _ (by decide))]
  rfl

theorem len_escapeChar (c : Char) : len (String.ofList (escapeChar c)) ≤ 6 * c.utf8Size := by
  have hpos := c.utf8Size_pos
  have hslash : ∀ d : Char, len (String.ofList ['\\', d]) = 1 + d.utf8Size := by
    intro d
    rw [len_ofList_cons, len_ofList_cons]
    rfl
  unfold escapeChar
  repeat' split
  · rw [hslash]; omega
  · rw [hslash, show 'b'.utf8Size = 1 from rfl]; omega
  · rw [hslash, show 'f'.utf8Size = 1 from rfl]; omega
  · rw [hslash, show 'n'.utf8Size = 1 from rfl]; omega
  · rw [hslash, show 'r'.utf8Size = 1 from rfl]; omega
  · rw [hslash, show 't'.utf8Size = 1 from rfl]; omega
  · rw [len_ofList_cons, len_ofList_cons, len_hex4]
    show 1 + (1 + 4) ≤ _
    omega
  · rw [len_ofList_cons]
    show c.utf8Size + 0 ≤ _
    omega

theorem len_quote (s : String) : len (String.ofList (quote escapeChar s)) ≤ 6 * len s + 2 := by
  have hflat : ∀ l : List Char, len (String.ofList (l.flatMap escapeChar)) ≤ 6 * len (String.ofList l) := by
    intro l
    induction l with
    | nil => exact Nat.zero_le _
    | cons c rest ih =>
      have := len_escapeChar c
      rw [List.flatMap_cons, len_ofList_append, len_ofList_cons]
      omega
  have := hflat s.toList
  rw [String.ofList_toList] at this
  rw [quote, len_ofList_cons, len_ofList_append]
  show 1 + (_ + 1) ≤ _
  omega

mutual

theorem len_write : ∀ v : Json, len (String.ofList (write escapeChar v)) ≤ room v
  | null => (by decide)
  | bool b => (by cases b <;> decide)
  | num literal => (by rw [write, String.ofList_toList]; exact Nat.le_refl _)
  | str s => len_quote s
  | arr items => by
    have := len_writeItems items
    rw [write, len_ofList_cons, room]
    show 1 + _ ≤ _
    omega
  | obj members => by
    have := len_writeMembers members
    rw [write, len_ofList_cons, room]
    show 1 + _ ≤ _
    omega

theorem len_writeItems : ∀ items : List Json, len (String.ofList (writeItems escapeChar items)) ≤ roomItems items + 1
  | [] => (by decide)
  | [v] => by
    have := len_write v
    rw [writeItems, len_ofList_append, roomItems, roomItems]
    show _ + 1 ≤ _
    omega
  | v :: w :: rest => by
    have := len_write v
    have := len_writeItems (w :: rest)
    rw [writeItems, len_ofList_append, len_ofList_cons, roomItems]
    · show _ + (1 + _) ≤ _
      omega
    · exact List.cons_ne_nil _ _

theorem len_writeMembers :
    ∀ members : List (String × Json), len (String.ofList (writeMembers escapeChar members)) ≤ roomMembers members + 1
  | [] => (by decide)
  | [(k, v)] => by
    have := len_write v
    have := len_quote k
    rw [writeMembers, len_ofList_append, len_ofList_cons, len_ofList_append, roomMembers, roomMembers]
    show _ + (1 + (_ + 1)) ≤ _
    omega
  | (k, v) :: m :: rest => by
    have := len_write v
    have := len_quote k
    have := len_writeMembers (m :: rest)
    rw [writeMembers, len_ofList_append, len_ofList_cons, len_ofList_append, len_ofList_cons, roomMembers]
    · show _ + (1 + (_ + (1 + _))) ≤ _
      omega
    · exact List.cons_ne_nil _ _

end

theorem length_marshal_le (v : Json) : (marshal v).length ≤ room v := by
  rw [length_marshal]
  exact len_write v

/-! ## Reading -/

def skipSpace : List Char → List Char
  | c :: rest => if c = ' ' ∨ c = '\n' ∨ c = '\r' ∨ c = '\t' then skipSpace rest else c :: rest
  | [] => []

def hexValue (c : Char) : Option Nat :=
  if c.isDigit then some (c.toNat - '0'.toNat)
  else if 'a' ≤ c ∧ c ≤ 'f' then some (c.toNat - 'a'.toNat + 10)
  else if 'A' ≤ c ∧ c ≤ 'F' then some (c.toNat - 'A'.toNat + 10)
  else none

def hexUnit (a b c d : Char) : Option Nat := do
  let a ← hexValue a
  let b ← hexValue b
  let c ← hexValue c
  let d ← hexValue d
  return ((a * 16 + b) * 16 + c) * 16 + d

/-- The rest of a string after its opening quote; a lone surrogate reads as U+FFFD. -/
def readString : List Char → Option (List Char × List Char)
  | [] => none
  | '\\' :: 'u' :: a :: b :: c :: d :: '\\' :: 'u' :: a' :: b' :: c' :: d' :: rest =>
    match hexUnit a b c d, hexUnit a' b' c' d' with
    | some hi, some lo =>
      if 0xd800 ≤ hi ∧ hi ≤ 0xdbff ∧ 0xdc00 ≤ lo ∧ lo ≤ 0xdfff then do
        let (s, rest) ← readString rest
        return (Char.ofNat (0x10000 + (hi - 0xd800) * 0x400 + (lo - 0xdc00)) :: s, rest)
      else do
        let (s, rest) ← readString ('\\' :: 'u' :: a' :: b' :: c' :: d' :: rest)
        return (if 0xd800 ≤ hi ∧ hi ≤ 0xdfff then '\ufffd' :: s else Char.ofNat hi :: s, rest)
    | _, _ => none
  | '\\' :: 'u' :: a :: b :: c :: d :: rest => do
    let unit ← hexUnit a b c d
    let (s, rest) ← readString rest
    return (if 0xd800 ≤ unit ∧ unit ≤ 0xdfff then '\ufffd' :: s else Char.ofNat unit :: s, rest)
  | '\\' :: c :: rest => do
    let ch ← match c with
      | '/' => some '/'
      | 'b' => some (Char.ofNat 8)
      | 'f' => some (Char.ofNat 12)
      | 'n' => some '\n'
      | 'r' => some '\r'
      | 't' => some '\t'
      | c => if c = Char.ofNat 0x22 ∨ c = Char.ofNat 0x5c then some c else none
    let (s, rest) ← readString rest
    return (ch :: s, rest)
  | c :: rest =>
    if c = Char.ofNat 0x22 then some ([], rest)
    else if c.toNat < 0x20 then none
    else do
      let (s, rest) ← readString rest
      return (c :: s, rest)

def readDigits : List Char → List Char × List Char
  | c :: rest => if c.isDigit then (c :: (readDigits rest).1, (readDigits rest).2) else ([], c :: rest)
  | [] => ([], [])

def readFraction : List Char → Option (List Char × List Char)
  | '.' :: rest => match readDigits rest with
    | ([], _) => none
    | (ds, rest) => some ('.' :: ds, rest)
  | rest => some ([], rest)

def readExponent : List Char → Option (List Char × List Char)
  | c :: rest =>
    if c = 'e' ∨ c = 'E' then
      let (sign, rest) := match rest with
        | s :: rest' => if s = '+' ∨ s = '-' then ([s], rest') else ([], rest)
        | [] => ([], [])
      match readDigits rest with
      | ([], _) => none
      | (ds, rest) => some (c :: sign ++ ds, rest)
    else some ([], c :: rest)
  | [] => some ([], [])

def readNumber (input : List Char) : Option (List Char × List Char) := do
  let (sign, input) := match input with
    | '-' :: rest => (['-'], rest)
    | rest => ([], rest)
  let (whole, rest) := readDigits input
  let (whole, rest) ← match whole with
    | [] => none
    | '0' :: more => some (['0'], more ++ rest)
    | ds => some (ds, rest)
  let (fraction, rest) ← readFraction rest
  let (exponent, rest) ← readExponent rest
  return (sign ++ whole ++ fraction ++ exponent, rest)

def readWord (word : String) (v : Json) (input : List Char) : Option (Json × List Char) :=
  if word.toList.isPrefixOf input then some (v, input.drop word.toList.length) else none

mutual

/-- One value; `fuel` bounds the steps and `depth` the nesting. -/
def readValue : Nat → Nat → List Char → Option (Json × List Char)
  | 0, _, _ => none
  | fuel + 1, depth, input => match skipSpace input with
    | [] => none
    | c :: rest =>
      if c = Char.ofNat 0x22 then do
        let (s, rest) ← readString rest
        return (str (String.ofList s), rest)
      else if c = '[' then
        match depth, skipSpace rest with
        | 0, _ => none
        | _ + 1, ']' :: rest => some (arr [], rest)
        | depth + 1, rest => do
          let (items, rest) ← readItems fuel depth rest
          return (arr items, rest)
      else if c = '\x7b' then
        match depth, skipSpace rest with
        | 0, _ => none
        | _ + 1, '\x7d' :: rest => some (obj [], rest)
        | depth + 1, rest => do
          let (members, rest) ← readMembers fuel depth rest
          return (obj members, rest)
      else if c = 't' then readWord "true" (bool true) (c :: rest)
      else if c = 'f' then readWord "false" (bool false) (c :: rest)
      else if c = 'n' then readWord "null" null (c :: rest)
      else do
        let (literal, rest) ← readNumber (c :: rest)
        return (num (String.ofList literal), rest)

def readItems : Nat → Nat → List Char → Option (List Json × List Char)
  | 0, _, _ => none
  | fuel + 1, depth, input => do
    let (v, rest) ← readValue fuel depth input
    match skipSpace rest with
    | ',' :: rest => do
      let (items, rest) ← readItems fuel depth rest
      return (v :: items, rest)
    | ']' :: rest => return ([v], rest)
    | _ => none

def readMembers : Nat → Nat → List Char → Option (List (String × Json) × List Char)
  | 0, _, _ => none
  | fuel + 1, depth, input => match skipSpace input with
    | q :: rest =>
      if q = Char.ofNat 0x22 then do
        let (key, rest) ← readString rest
        match skipSpace rest with
        | ':' :: rest => do
          let (v, rest) ← readValue fuel depth rest
          match skipSpace rest with
          | ',' :: rest => do
            let (members, rest) ← readMembers fuel depth rest
            return ((String.ofList key, v) :: members, rest)
          | '\x7d' :: rest => return ([(String.ofList key, v)], rest)
          | _ => none
        | _ => none
      else none
    | [] => none

end

/-- The nesting `encoding/json` accepts. -/
def maxNesting : Nat := 10000

def parseChars (input : List Char) : Option Json :=
  match readValue (2 * input.length + 2) maxNesting input with
  | some (v, rest) => if skipSpace rest = [] then some v else none
  | none => none

/-- The characters of a UTF-8 byte string. -/
def charsOf (raw : List UInt8) : Option (List Char) :=
  (String.fromUTF8? ⟨raw.toArray⟩).map String.toList

theorem length_charsOf {raw : List UInt8} {chars : List Char} (h : charsOf raw = some chars) :
    len (String.ofList chars) = raw.length := by
  rw [charsOf, Option.map_eq_some_iff] at h
  obtain ⟨s, hs, rfl⟩ := h
  rw [String.ofList_toList]
  unfold String.fromUTF8? at hs
  split at hs
  · cases hs; rfl
  · cases hs

def parse (raw : List UInt8) : Option Json := (charsOf raw).bind parseChars

/-! ## Members as they are written -/

/-- What has been read of `input` where `rest` is left to read, and what is left. -/
def consumed (input rest : List Char) : List Char × List Char := input.splitAt (input.length - rest.length)

/-- A member name after its opening quote. -/
def readName (input : List Char) : Option (String × List Char) := do
  let (s, rest) ← readString input
  return (String.ofList s, (consumed input rest).2)

/-- A value as it is written. -/
def readRaw (input : List Char) : Option (List Char × List Char) := do
  let (_, rest) ← readValue (2 * input.length + 2) maxNesting (skipSpace input)
  return consumed (skipSpace input) rest

def readRawMembers : Nat → List Char → Option (List (String × List Char))
  | 0, _ => none
  | fuel + 1, input => match skipSpace input with
    | q :: rest =>
      if q = Char.ofNat 0x22 then do
        let (name, rest) ← readName rest
        match skipSpace rest with
        | ':' :: rest => do
          let (text, rest) ← readRaw rest
          match skipSpace rest with
          | ',' :: rest => do
            let members ← readRawMembers fuel rest
            return (name, text) :: members
          | '\x7d' :: rest => if skipSpace rest = [] then some [(name, text)] else none
          | _ => none
        | _ => none
      else none
    | [] => none

/-- The members of an object, each value as it is written. -/
def rawMembers (input : List Char) : Option (List (String × List Char)) :=
  match skipSpace input with
  | '\x7b' :: rest => match skipSpace rest with
    | '\x7d' :: rest => if skipSpace rest = [] then some [] else none
    | rest => readRawMembers (rest.length + 1) rest
  | _ => none

theorem skipSpace_sublist (input : List Char) : (skipSpace input).Sublist input := by
  induction input with
  | nil => exact List.Sublist.refl _
  | cons c rest ih =>
    rw [skipSpace]
    split
    · exact ih.trans (List.sublist_cons_self c rest)
    · exact List.Sublist.refl _

theorem consumed_sublist (input rest : List Char) :
    (consumed input rest).1.Sublist input ∧ (consumed input rest).2.Sublist input := by
  rw [consumed, List.splitAt_eq]
  exact ⟨List.take_sublist _ _, List.drop_sublist _ _⟩

theorem readRaw_sublist {input text rest : List Char} (h : readRaw input = some (text, rest)) :
    text.Sublist input ∧ rest.Sublist input := by
  obtain ⟨⟨_, left⟩, _, h⟩ := Option.bind_eq_some_iff.mp h
  obtain ⟨h₁, h₂⟩ := consumed_sublist (skipSpace input) left
  rw [Option.some.inj h] at h₁ h₂
  exact ⟨h₁.trans (skipSpace_sublist input), h₂.trans (skipSpace_sublist input)⟩

theorem readRawMembers_sublist {fuel : Nat} {input : List Char} {members : List (String × List Char)}
    (h : readRawMembers fuel input = some members) : ∀ m ∈ members, m.2.Sublist input := by
  induction fuel generalizing input members with
  | zero => cases h
  | succ fuel ih =>
    have hspace := skipSpace_sublist input
    rw [readRawMembers] at h
    split at h
    · rename_i q rest hq
      rw [hq] at hspace
      have hrest := (List.sublist_cons_self q rest).trans hspace
      split at h
      · obtain ⟨⟨name, afterName⟩, hname, h⟩ := Option.bind_eq_some_iff.mp h
        obtain ⟨⟨_, left⟩, _, hread⟩ := Option.bind_eq_some_iff.mp hname
        have hafter : afterName.Sublist rest := by
          have := (consumed_sublist rest left).2
          rw [(Prod.mk.inj (Option.some.inj hread)).2] at this
          exact this
        simp only at h
        have hcolon := skipSpace_sublist afterName
        split at h
        · rename_i value hv
          rw [hv] at hcolon
          obtain ⟨⟨text, afterText⟩, hraw, h⟩ := Option.bind_eq_some_iff.mp h
          obtain ⟨htext, hleft⟩ := readRaw_sublist hraw
          have hvalue := ((List.sublist_cons_self ':' value).trans hcolon).trans (hafter.trans hrest)
          simp only at h
          have hnext := skipSpace_sublist afterText
          split at h
          · rename_i more hm
            rw [hm] at hnext
            obtain ⟨ms, hms, h⟩ := Option.bind_eq_some_iff.mp h
            cases h
            intro m hmem
            rcases List.mem_cons.mp hmem with rfl | hmem
            · exact htext.trans hvalue
            · exact ((ih hms m hmem).trans ((List.sublist_cons_self _ _).trans hnext)).trans (hleft.trans hvalue)
          · split at h
            · cases h
              intro m hmem
              rw [List.mem_singleton.mp hmem]
              exact htext.trans hvalue
            · cases h
          · cases h
        · cases h
      · cases h
    · cases h

/-- A member is no longer than its object. -/
theorem rawMembers_sublist {input : List Char} {members : List (String × List Char)}
    (h : rawMembers input = some members) : ∀ m ∈ members, m.2.Sublist input := by
  have hopen := skipSpace_sublist input
  rw [rawMembers] at h
  split at h
  · rename_i rest hr
    rw [hr] at hopen
    have hrest := (List.sublist_cons_self _ rest).trans hopen
    split at h
    · split at h
      · cases h
        intro m hm
        cases hm
      · cases h
    · rename_i hb
      intro m hm
      exact ((readRawMembers_sublist h m hm).trans (skipSpace_sublist rest)).trans hrest
  · cases h

/-- `jsonscalar.ValidateEscapes`: every escaped surrogate is one half of a pair. -/
def validateEscapes : List Char → Bool
  | [] => true
  | '\\' :: 'u' :: a :: b :: c :: d :: rest =>
    match hexUnit a b c d with
    | none => false
    | some unit =>
      if 0xdc00 ≤ unit ∧ unit ≤ 0xdfff then false
      else if 0xd800 ≤ unit ∧ unit ≤ 0xdbff then
        match rest with
        | '\\' :: 'u' :: a' :: b' :: c' :: d' :: rest =>
          match hexUnit a' b' c' d' with
          | some lo => decide (0xdc00 ≤ lo ∧ lo ≤ 0xdfff) && validateEscapes rest
          | none => false
        | _ => false
      else validateEscapes rest
  | ['\\'] => true
  | '\\' :: c :: rest => c != 'u' && validateEscapes rest
  | _ :: rest => validateEscapes rest

/-- `strings.ToLower`, over a table of lower-case letters. -/
def lowerWith (lower : Char → Char) (s : String) : String := String.ofList (s.toList.map lower)

mutual

/-- `rejectDuplicateMembers`: member names differ beyond case, and nesting is bounded. -/
def noDuplicates (lower : Char → Char) : Nat → Json → Bool
  | depth, arr items => match depth with
    | 0 => items.isEmpty
    | depth + 1 => noDuplicatesItems lower depth items
  | depth, obj members => decide ((members.map fun m => lowerWith lower m.1).Nodup) &&
    match depth with
    | 0 => members.isEmpty
    | depth + 1 => noDuplicatesMembers lower depth members
  | _, _ => true

def noDuplicatesItems (lower : Char → Char) : Nat → List Json → Bool
  | _, [] => true
  | depth, v :: rest => noDuplicates lower depth v && noDuplicatesItems lower depth rest

def noDuplicatesMembers (lower : Char → Char) : Nat → List (String × Json) → Bool
  | _, [] => true
  | depth, (_, v) :: rest => noDuplicates lower depth v && noDuplicatesMembers lower depth rest

end

/-! ## Canonical text -/

def canonicalEscape (c : Char) : List Char :=
  if c = Char.ofNat 0x22 ∨ c = Char.ofNat 0x5c then ['\\', c]
  else if c.toNat = 0x08 then ['\\', 'b']
  else if c.toNat = 0x0c then ['\\', 'f']
  else if c.toNat = 0x0a then ['\\', 'n']
  else if c.toNat = 0x0d then ['\\', 'r']
  else if c.toNat = 0x09 then ['\\', 't']
  else if c.toNat < 0x20 then '\\' :: 'u' :: hex4 c.toNat
  else [c]

/-- The integer a number literal denotes, inside the canonical domain. -/
def canonicalInt (literal : String) : Option Int :=
  match literal.toInt? with
  | some n => if -9007199254740991 ≤ n ∧ n ≤ 9007199254740991 then some n else none
  | none => none

mutual

/-- Members sorted and integers normalised; other numbers have no canonical form. -/
def canonical : Json → Option Json
  | null => some null
  | bool b => some (bool b)
  | str s => some (str s)
  | num literal => (canonicalInt literal).map fun n => num n.repr
  | arr items => (canonicalItems items).map arr
  | obj members => (canonicalMembers members).map fun ms => obj (sortMembers ms)

def canonicalItems : List Json → Option (List Json)
  | [] => some []
  | v :: rest => do
    let v ← canonical v
    let rest ← canonicalItems rest
    return v :: rest

def canonicalMembers : List (String × Json) → Option (List (String × Json))
  | [] => some []
  | (k, v) :: rest => do
    let v ← canonical v
    let rest ← canonicalMembers rest
    return (k, v) :: rest

end

/-- The nesting `rejectDuplicateMembers` accepts. -/
def nestingLimit : Nat := 64

/-- Valid UTF-8, paired escapes, no duplicate members. -/
def strict (lower : Char → Char) (raw : List UInt8) : Option Json := do
  let chars ← charsOf raw
  let v ← parseChars chars
  if validateEscapes chars && noDuplicates lower nestingLimit v then return v else none

/-- `gatewayCanonicalJSON`. -/
def gatewayCanonicalJSON (raw : List UInt8) : Option (List UInt8) := do
  let v ← strict Char.toLower raw
  let c ← canonical v
  return bytesOf (String.ofList (write canonicalEscape c))

end Json

end Desk
