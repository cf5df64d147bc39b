import Desk.Lib.Json

/-!
# Tokens of JSON texts

A decoder passes through a text token by token. It passes the strings and the names
of every value that can be read there (`texts_value`), each time they occur, and a
text is longer than the strings in it.
-/

namespace Desk

namespace Json

/-! ## The decoder -/

/-- `tokenState` -/
inductive TokenState where
  | topValue | arrayStart | arrayValue | arrayComma | objectStart | objectKey | objectColon | objectValue | objectComma
deriving DecidableEq

/-- `tokenValueAllowed` -/
def TokenState.allowsValue : TokenState → Bool
  | .topValue | .arrayStart | .arrayValue | .objectValue => true
  | _ => false

/-- `tokenValueEnd` -/
def TokenState.afterValue : TokenState → TokenState
  | .arrayStart | .arrayValue => .arrayComma
  | .objectValue => .objectComma
  | s => s

structure Decoder where
  state : TokenState
  stack : List TokenState
  input : List Char

inductive Token where
  | delim (c : Char)
  | text (s : String)
  /-- A number, a boolean or null. -/
  | other
deriving DecidableEq

def Token.ofValue : Json → Token
  | .str s => .text s
  | _ => .other

def Token.texts : Token → List String
  | .text s => [s]
  | _ => []

def quoteChar : Char := Char.ofNat 0x22

namespace Decoder

def open_ (input : List Char) : Decoder := ⟨.topValue, [], input⟩

/-- The decoder at its next byte that is no space, behind a colon or a comma that belongs there. -/
def separated (d : Decoder) : Option Decoder :=
  match skipSpace d.input with
  | [] => none
  | c :: rest =>
    if c = ':' then if d.state = .objectColon then some ⟨.objectValue, d.stack, skipSpace rest⟩ else none
    else if c = ',' then
      if d.state = .arrayComma then some ⟨.arrayValue, d.stack, skipSpace rest⟩
      else if d.state = .objectComma then some ⟨.objectKey, d.stack, skipSpace rest⟩
      else none
    else some ⟨d.state, d.stack, c :: rest⟩

/-- A bracket that opens a container. -/
def opened (d : Decoder) (c : Char) (s : TokenState) (rest : List Char) : Option (Token × Decoder) :=
  if d.state.allowsValue then some (.delim c, ⟨s, d.state :: d.stack, rest⟩) else none

/-- A bracket that closes one. -/
def closed (d : Decoder) (c : Char) (s s' : TokenState) (rest : List Char) : Option (Token × Decoder) :=
  if d.state = s ∨ d.state = s' then d.stack.head?.map fun outer => (.delim c, ⟨outer.afterValue, d.stack.tail, rest⟩) else none

/-- `Token`; none is an error, and the end of the text. -/
def token (d : Decoder) : Option (Token × Decoder) :=
  d.separated.bind fun d => match d.input with
    | [] => none
    | c :: rest =>
      if c = '[' then d.opened c .arrayStart rest
      else if c = '\x7b' then d.opened c .objectStart rest
      else if c = ']' then d.closed c .arrayStart .arrayComma rest
      else if c = '\x7d' then d.closed c .objectStart .objectComma rest
      else if c = ':' ∨ c = ',' then none
      else if c = quoteChar ∧ (d.state = .objectStart ∨ d.state = .objectKey) then
        (readString rest).map fun r => (.text (String.ofList r.1), ⟨.objectColon, d.stack, r.2⟩)
      else if d.state.allowsValue then
        -- no container begins here
        (readValue 1 0 (c :: rest)).map fun r => (.ofValue r.1, ⟨d.state.afterValue, d.stack, r.2⟩)
      else none

/-- `More` -/
def more (d : Decoder) : Bool :=
  match skipSpace d.input with
  | [] => false
  | c :: _ => c != ']' && c != '\x7d'

/-- The decoder behind the separator that its state awaits. -/
def expected (d : Decoder) (c : Char) (s : TokenState) : Option Decoder :=
  match skipSpace d.input with
  | [] => none
  | c' :: rest => if c' = c then some ⟨s, d.stack, rest⟩ else none

/-- `Decode` into a raw message. -/
def decodeRaw (d : Decoder) : Option (List Char × Decoder) :=
  let prepared := match d.state with
    | .arrayComma => d.expected ',' .arrayValue
    | .objectColon => d.expected ':' .objectValue
    | _ => some d
  prepared.bind fun d =>
    if d.state.allowsValue then (readRaw d.input).map fun r => (r.1, ⟨d.state.afterValue, d.stack, r.2⟩) else none

end Decoder

mutual

/-- The strings and the names of a value, at every depth. -/
def texts : Json → List String
  | null | bool _ | num _ => []
  | str s => [s]
  | arr items => textsItems items
  | obj members => textsMembers members

def textsItems : List Json → List String
  | [] => []
  | v :: rest => texts v ++ textsItems rest

def textsMembers : List (String × Json) → List String
  | [] => []
  | (name, v) :: rest => name :: (texts v ++ textsMembers rest)

end

/-! ## The size of what is read -/

/-- The bytes of a text. -/
def size (input : List Char) : Nat := len (String.ofList input)

@[simp] theorem size_nil : size [] = 0 := rfl
@[simp] theorem size_cons (c : Char) (input : List Char) : size (c :: input) = c.utf8Size + size input := len_ofList_cons c input

theorem size_append (a b : List Char) : size (a ++ b) = size a + size b := len_ofList_append a b

theorem size_pos {input : List Char} (h : input ≠ []) : 0 < size input := by
  obtain ⟨c, rest, rfl⟩ := List.exists_cons_of_ne_nil h
  have := c.utf8Size_pos
  rw [size_cons]
  omega

theorem size_skipSpace (input : List Char) : size (skipSpace input) ≤ size input := by
  induction input with
  | nil => exact Nat.le_refl _
  | cons c rest ih =>
    rw [skipSpace]
    split
    · exact Nat.le_trans ih (by rw [size_cons]; omega)
    · exact Nat.le_refl _

/-- A character is written with as many bytes as it has at least. -/
theorem size_escape {ch : Char} {rest s left : List Char} {n : Nat} (hn : ch.utf8Size ≤ n)
    (ih : ∀ {s left : List Char}, readString rest = some (s, left) → size s + size left + 1 ≤ size rest)
    (h : ((readString rest).bind fun r => some (ch :: r.1, r.2)) = some (s, left)) : size s + size left + 1 ≤ n + size rest := by
  obtain ⟨⟨s', left'⟩, hread, heq⟩ := Option.bind_eq_some_iff.mp h
  have hih := ih hread
  obtain ⟨rfl, rfl⟩ := Prod.mk.inj (Option.some.inj heq)
  show size (ch :: s') + size left' + 1 ≤ n + size rest
  rw [size_cons]
  omega

theorem readString_size {input s rest : List Char} (h : readString input = some (s, rest)) :
    size s + size rest + 1 ≤ size input := by
  have hpos : ∀ c : Char, 1 ≤ c.utf8Size := fun c => c.utf8Size_pos
  have hfour : ∀ c : Char, c.utf8Size ≤ 4 := fun c => c.utf8Size_le_four
  fun_induction readString input generalizing s rest with
  | case1 => cases h
  | case2 a b c d a' b' c' d' _ _ _ _ _ _ ih =>
    have hrest := size_escape (hfour _) ih h
    have := hpos a; have := hpos b; have := hpos c; have := hpos d
    simp only [size_cons]
    omega
  | case3 a b c d a' b' c' d' rest' hi lo _ _ _ ih =>
    have hrest : size s + size rest + 1 ≤ 4 + size ('\\' :: 'u' :: a' :: b' :: c' :: d' :: rest') := by
      by_cases hhalf : 0xd800 ≤ hi ∧ hi ≤ 0xdfff
      · simp only [if_pos hhalf] at h
        exact size_escape (hfour _) ih h
      · simp only [if_neg hhalf] at h
        exact size_escape (hfour _) ih h
    have := hpos a; have := hpos b; have := hpos c; have := hpos d
    simp only [size_cons] at hrest ⊢
    omega
  | case4 => cases h
  | case5 a b c d rest' _ ih =>
    obtain ⟨unit, _, h⟩ := Option.bind_eq_some_iff.mp h
    have hrest : size s + size rest + 1 ≤ 4 + size rest' := by
      by_cases hhalf : 0xd800 ≤ unit ∧ unit ≤ 0xdfff
      · simp only [if_pos hhalf] at h
        exact size_escape (hfour _) ih h
      · simp only [if_neg hhalf] at h
        exact size_escape (hfour _) ih h
    have := hpos a; have := hpos b; have := hpos c; have := hpos d
    simp only [size_cons] at hrest ⊢
    omega
  | case6 | case7 | case8 | case9 | case10 | case11 =>
    rename_i ih
    have hrest := size_escape (n := 1) (by decide) ih h
    have := hpos '\\'
    simp only [size_cons] at hrest ⊢
    omega
  | case12 rest' c =>
    rename_i ih
    have hrest := size_escape (Nat.le_refl _) ih h
    have := hpos '\\'
    simp only [size_cons] at hrest ⊢
    omega
  | case13 => cases h
  | case14 => 
    cases h
    simp only [size_cons, size_nil]
    have := hpos (Char.ofNat 34)
    omega
  | case15 => cases h
  | case16 rest' c  _ _ _ _ _ ih =>
    have hrest := size_escape (Nat.le_refl _) ih h
    simp only [size_cons] at hrest ⊢
    omega

theorem skipSpace_skipSpace (input : List Char) : skipSpace (skipSpace input) = skipSpace input := by
  induction input with
  | nil => rfl
  | cons c rest ih =>
    rw [skipSpace]
    split
    · exact ih
    · rename_i hc
      rw [skipSpace, if_neg hc]

theorem readDigits_eq (input : List Char) : (readDigits input).1 ++ (readDigits input).2 = input := by
  induction input with
  | nil => rfl
  | cons c rest ih =>
    rw [readDigits]
    split
    · exact congrArg (c :: ·) ih
    · rfl

theorem readFraction_eq {input literal rest : List Char} (h : readFraction input = some (literal, rest)) :
    literal ++ rest = input := by
  unfold readFraction at h
  split at h
  · rename_i rest'
    have hdigits := readDigits_eq rest'
    split at h
    · cases h
    · rename_i ds rest'' heq
      rw [heq] at hdigits
      cases h
      simpa using hdigits
  · cases h
    rfl

theorem readExponent_eq {input literal rest : List Char} (h : readExponent input = some (literal, rest)) :
    literal ++ rest = input := by
  unfold readExponent at h
  split at h
  · rename_i c rest'
    split at h
    · split at h
      rename_i sign rest₁ heq
      have hrest : sign ++ rest₁ = rest' := by
        split at heq
        · split at heq
          · cases heq; rfl
          · cases heq; rfl
        · cases heq; rfl
      have hdigits := readDigits_eq rest₁
      split at h
      · cases h
      · rename_i heq
        rw [heq] at hdigits
        cases h
        rw [List.cons_append, List.cons_append, List.append_assoc, hdigits, hrest]
    · cases h
      rfl
  · cases h
    rfl

theorem readDigits_digit (input : List Char) : ∀ c ∈ (readDigits input).1, c.isDigit = true := by
  induction input with
  | nil => exact fun c hc => (List.not_mem_nil hc).elim
  | cons c rest ih =>
    rw [readDigits]
    split
    · rename_i hc
      exact List.forall_mem_cons.mpr ⟨hc, ih⟩
    · exact fun c hc => (List.not_mem_nil hc).elim

/-- What begins a number. -/
def BeginsNumber (c : Char) : Prop := c = '-' ∨ c.isDigit = true

theorem readNumber_eq {input literal rest : List Char} (h : readNumber input = some (literal, rest)) :
    literal ++ rest = input ∧ ∃ c more, literal = c :: more ∧ BeginsNumber c := by
  unfold readNumber at h
  split at h
  rename_i sign input' heq
  have hsign : sign ++ input' = input ∧ (sign = [] ∨ sign = ['-']) := by
    split at heq
    · cases heq
      exact ⟨rfl, .inr rfl⟩
    · cases heq
      exact ⟨rfl, .inl rfl⟩
  split at h
  rename_i whole rest₀ hwhole
  have hdigits : whole ++ rest₀ = input' := by
    have := readDigits_eq input'
    rw [hwhole] at this
    exact this
  have hdigit : ∀ c ∈ whole, c.isDigit = true := by
    have := readDigits_digit input'
    rw [hwhole] at this
    exact this
  have hrest : ∀ d more rest₁, d.isDigit = true → (d :: more) ++ rest₁ = input' →
      ((readFraction rest₁).bind fun f => (readExponent f.2).bind fun e =>
        some (sign ++ (d :: more) ++ f.1 ++ e.1, e.2)) = some (literal, rest) →
      literal ++ rest = input ∧ ∃ c more, literal = c :: more ∧ BeginsNumber c := by
    intro d more rest₁ hd hwhole h
    obtain ⟨⟨f, rest₂⟩, hf, h⟩ := Option.bind_eq_some_iff.mp h
    obtain ⟨⟨e, rest₃⟩, he, h⟩ := Option.bind_eq_some_iff.mp h
    cases h
    have hf := readFraction_eq hf
    have he := readExponent_eq he
    simp only at he
    obtain ⟨hsign, hminus⟩ := hsign
    refine ⟨?_, ?_⟩
    · rw [← hsign, ← hwhole, ← hf, ← he]
      simp only [List.append_assoc]
    · rcases hminus with rfl | rfl
      · exact ⟨d, _, rfl, .inr hd⟩
      · exact ⟨'-', _, rfl, .inl rfl⟩
  simp only at h
  split at h
  · cases h
  · exact hrest '0' [] _ rfl hdigits h
  · rename_i hne _
    obtain ⟨d, more, rfl⟩ := List.exists_cons_of_ne_nil hne
    exact hrest d more _ (hdigit d List.mem_cons_self) hdigits h

theorem readWord_eq {word : String} {v v' : Json} {input rest : List Char} (h : readWord word v input = some (v', rest)) :
    v' = v ∧ word.toList ++ rest = input := by
  unfold readWord at h
  split at h
  · rename_i hword
    cases h
    refine ⟨rfl, ?_⟩
    obtain ⟨more, rfl⟩ := List.isPrefixOf_iff_prefix.mp hword
    rw [List.drop_left]
  · cases h

/-- What is no container is read without fuel and depth. -/
theorem readValue_scalar {fuel depth : Nat} {c : Char} {input rest : List Char} (hskip : skipSpace input = c :: rest)
    (harr : c ≠ '[') (hobj : c ≠ '\x7b') : readValue (fuel + 1) depth input = readValue 1 0 (c :: rest) := by
  have hskip' : skipSpace (c :: rest) = c :: rest := by
    rw [← hskip]
    exact skipSpace_skipSpace input
  rw [readValue, readValue, hskip, hskip']
  simp only [if_neg harr, if_neg hobj]

/-- A string is what begins with a quote. -/
theorem readValue_quote {fuel depth : Nat} {input rest : List Char} (hskip : skipSpace input = quoteChar :: rest) :
    readValue (fuel + 1) depth input = (readString rest).map fun r => (.str (String.ofList r.1), r.2) := by
  rw [readValue, hskip]
  cases hread : readString rest <;> simp [quoteChar, hread]

theorem readWord_shorter {word : String} {v v' : Json} {input rest : List Char} (hword : word.toList ≠ [])
    (h : readWord word v input = some (v', rest)) : v' = v ∧ size rest < size input := by
  obtain ⟨rfl, rfl⟩ := readWord_eq h
  have := size_pos hword
  rw [size_append]
  exact ⟨rfl, by omega⟩

/-- What begins with neither a quote nor a bracket is no string. -/
theorem readValue_plain {fuel depth : Nat} {c : Char} {input more rest : List Char} {v : Json}
    (hskip : skipSpace input = c :: more) (hquote : c ≠ quoteChar) (harr : c ≠ '[') (hobj : c ≠ '\x7b')
    (h : readValue (fuel + 1) depth input = some (v, rest)) :
    v.texts = [] ∧ size rest < size (c :: more) ∧ (c = 't' ∨ c = 'f' ∨ c = 'n' ∨ BeginsNumber c) := by
  rw [readValue, hskip] at h
  have hquote' : c ≠ Char.ofNat 0x22 := hquote
  simp only [if_neg hquote', if_neg harr, if_neg hobj] at h
  split at h
  · rename_i ht
    obtain ⟨rfl, hsize⟩ := readWord_shorter (by decide) h
    exact ⟨rfl, hsize, .inl ht⟩
  · split at h
    · rename_i hf
      obtain ⟨rfl, hsize⟩ := readWord_shorter (by decide) h
      exact ⟨rfl, hsize, .inr (.inl hf)⟩
    · split at h
      · rename_i hn
        obtain ⟨rfl, hsize⟩ := readWord_shorter (by decide) h
        exact ⟨rfl, hsize, .inr (.inr (.inl hn))⟩
      · obtain ⟨⟨literal, rest'⟩, hread, h⟩ := Option.bind_eq_some_iff.mp h
        cases h
        obtain ⟨heq, d, tail, hliteral, hd⟩ := readNumber_eq hread
        have hpos : 0 < size literal := size_pos (by rw [hliteral]; exact List.cons_ne_nil _ _)
        have hc : c = d := by
          rw [hliteral] at heq
          exact (List.cons.inj heq).1.symm
        refine ⟨rfl, ?_, .inr (.inr (.inr (hc ▸ hd)))⟩
        rw [← heq, size_append]
        show size rest' < _
        omega

theorem ofValue_texts {v : Json} (h : v.texts = []) : (Token.ofValue v).texts = [] := by
  cases v with
  | str s => rw [texts] at h; cases h
  | _ => rfl

namespace Decoder

theorem separated_size {d d' : Decoder} (h : d.separated = some d') :
    size d'.input ≤ size d.input ∧ skipSpace d'.input = d'.input := by
  have hsize := size_skipSpace d.input
  have hskip := skipSpace_skipSpace d.input
  unfold separated at h
  split at h
  · cases h
  · rename_i c rest heq
    rw [heq] at hsize hskip
    have hrest := size_skipSpace rest
    have hmore : size (skipSpace rest) ≤ size d.input := by
      rw [size_cons] at hsize
      omega
    split at h
    · split at h
      · cases h
        exact ⟨hmore, skipSpace_skipSpace rest⟩
      · cases h
    · split at h
      · split at h
        · cases h
          exact ⟨hmore, skipSpace_skipSpace rest⟩
        · split at h
          · cases h
            exact ⟨hmore, skipSpace_skipSpace rest⟩
          · cases h
      · cases h
        exact ⟨hsize, hskip⟩

theorem opened_eq {d d' : Decoder} {c : Char} {s : TokenState} {rest : List Char} {t : Token}
    (h : d.opened c s rest = some (t, d')) : t = .delim c ∧ d'.input = rest := by
  unfold opened at h
  split at h
  · cases h
    exact ⟨rfl, rfl⟩
  · cases h

theorem closed_eq {d d' : Decoder} {c : Char} {s s' : TokenState} {rest : List Char} {t : Token}
    (h : d.closed c s s' rest = some (t, d')) : t = .delim c ∧ d'.input = rest := by
  unfold closed at h
  split at h
  · obtain ⟨outer, _, h⟩ := Option.map_eq_some_iff.mp h
    cases h
    exact ⟨rfl, rfl⟩
  · cases h

theorem text_size {c : Char} {input rest s : List Char} (h : readString input = some (s, rest)) :
    size rest < size (c :: input) ∧ len (String.ofList s) + 2 + size rest ≤ size (c :: input) := by
  have hread : len (String.ofList s) + size rest + 1 ≤ size input := readString_size h
  have hc := c.utf8Size_pos
  rw [size_cons]
  exact ⟨by omega, by omega⟩

/-- A token leaves less to read, and its text fits what it took. -/
theorem token_size {d d' : Decoder} {t : Token} (h : d.token = some (t, d')) :
    size d'.input < size d.input ∧ ∀ s ∈ t.texts, len s + 2 + size d'.input ≤ size d.input := by
  obtain ⟨d₁, hsep, h⟩ := Option.bind_eq_some_iff.mp h
  obtain ⟨hsize, hskip⟩ := separated_size hsep
  split at h
  · cases h
  · rename_i c rest heq
    rw [heq] at hsize hskip
    have hc := c.utf8Size_pos
    have hdelim : size rest < size d.input := by
      rw [size_cons] at hsize
      omega
    have hbracket : t = .delim c ∧ d'.input = rest →
        size d'.input < size d.input ∧ ∀ s ∈ t.texts, len s + 2 + size d'.input ≤ size d.input := by
      rintro ⟨rfl, heq⟩
      rw [heq]
      exact ⟨hdelim, nofun⟩
    split at h
    · exact hbracket (opened_eq h)
    · rename_i harr
      split at h
      · exact hbracket (opened_eq h)
      · rename_i hobj
        split at h
        · exact hbracket (closed_eq h)
        · split at h
          · exact hbracket (closed_eq h)
          · split at h
            · cases h
            · split at h
              · obtain ⟨⟨s, left⟩, hread, h⟩ := Option.map_eq_some_iff.mp h
                cases h
                obtain ⟨hless, hfits⟩ := text_size (c := c) hread
                refine ⟨Nat.lt_of_lt_of_le hless hsize, List.forall_mem_singleton.mpr ?_⟩
                exact Nat.le_trans hfits hsize
              · split at h
                · obtain ⟨⟨v, left⟩, hread, h⟩ := Option.map_eq_some_iff.mp h
                  cases h
                  by_cases hquote : c = quoteChar
                  · rw [readValue_quote (hskip.trans (by rw [hquote]))] at hread
                    obtain ⟨⟨s, left'⟩, hstring, heq⟩ := Option.map_eq_some_iff.mp hread
                    cases heq
                    obtain ⟨hless, hfits⟩ := text_size (c := c) hstring
                    refine ⟨Nat.lt_of_lt_of_le hless hsize, List.forall_mem_singleton.mpr ?_⟩
                    exact Nat.le_trans hfits hsize
                  · obtain ⟨htexts, hless, _⟩ := readValue_plain hskip hquote harr hobj hread
                    rw [ofValue_texts htexts]
                    exact ⟨Nat.lt_of_lt_of_le hless hsize, nofun⟩
                · cases h

/-- The strings a decoder passes until there is an error. -/
def texts (d : Decoder) : List String :=
  match _h : d.token with
  | none => []
  | some (t, d') => t.texts ++ d'.texts
termination_by size d.input
decreasing_by exact (token_size _h).1

theorem texts_of_token {d d' : Decoder} {t : Token} (h : d.token = some (t, d')) : d.texts = t.texts ++ d'.texts := by
  rw [texts]
  split
  · rename_i heq
    rw [h] at heq
    cases heq
  · rename_i heq
    rw [h] at heq
    cases heq
    rfl

theorem texts_nil : (open_ []).texts = [] := by
  rw [texts]
  split
  · rfl
  · rename_i heq
    cases heq

/-- A text is longer than the strings in it. -/
theorem texts_size (d : Decoder) : ∀ s ∈ d.texts, len s + 2 ≤ size d.input := by
  fun_induction texts d with
  | case1 => exact nofun
  | case2 d t d' h ih =>
    obtain ⟨hless, hfits⟩ := token_size h
    intro s hs
    rcases List.mem_append.mp hs with hs | hs
    · have := hfits s hs
      omega
    · have := ih s hs
      omega

/-! ## A decoder passes what is read -/

/-- From one decoder to another, a token at least, with the strings between. -/
inductive Reads : Decoder → List String → Decoder → Prop
  | one {d d' : Decoder} {t : Token} (h : d.token = some (t, d')) : Reads d t.texts d'
  | more {d d' d'' : Decoder} {t : Token} {ss : List String} (h : d.token = some (t, d')) (hrest : Reads d' ss d'') :
      Reads d (t.texts ++ ss) d''

theorem Reads.append {d d' d'' : Decoder} {ss ss' : List String} (h : Reads d ss d') (h' : Reads d' ss' d'') :
    Reads d (ss ++ ss') d'' := by
  induction h with
  | one htoken => exact .more htoken h'
  | more htoken _ ih =>
    rw [List.append_assoc]
    exact .more htoken (ih h')

/-- Decoders with the same next token. -/
theorem Reads.resume {d e d' : Decoder} {ss : List String} (h : Reads d ss d') (heq : e.token = d.token) : Reads e ss d' := by
  cases h with
  | one htoken => exact .one (heq.trans htoken)
  | more htoken hrest => exact .more (heq.trans htoken) hrest

theorem texts_of_reads {d d' : Decoder} {ss : List String} (h : Reads d ss d') : d.texts = ss ++ d'.texts := by
  induction h with
  | one htoken => exact texts_of_token htoken
  | more htoken _ ih => rw [texts_of_token htoken, ih, List.append_assoc]

/-- Behind its separator. -/
def Behind (c : Char) (s s' : TokenState) : Prop :=
  (c = ',' ∧ s = .arrayComma ∧ s' = .arrayValue) ∨ (c = ',' ∧ s = .objectComma ∧ s' = .objectKey) ∨
    (c = ':' ∧ s = .objectColon ∧ s' = .objectValue)

/-- A separator is passed without a token. -/
theorem token_behind {c : Char} {s s' : TokenState} (hbehind : Behind c s s') (stack : List TokenState)
    {input rest : List Char} (hskip : skipSpace input = c :: rest) :
    token ⟨s, stack, input⟩ = token ⟨s', stack, rest⟩ := by
  have hsep : separated ⟨s, stack, input⟩ = some ⟨s', stack, skipSpace rest⟩ := by
    rcases hbehind with ⟨rfl, rfl, rfl⟩ | ⟨rfl, rfl, rfl⟩ | ⟨rfl, rfl, rfl⟩ <;> simp [separated, hskip]
  have hnext : (s' = .arrayValue ∨ s' = .objectKey ∨ s' = .objectValue) := by
    rcases hbehind with ⟨_, _, rfl⟩ | ⟨_, _, rfl⟩ | ⟨_, _, rfl⟩ <;> simp
  rw [token, token, hsep]
  cases hrest : skipSpace rest with
  | nil => simp [separated, hrest]
  | cons c' rest' =>
    by_cases hcolon : c' = ':'
    · subst hcolon
      rcases hnext with rfl | rfl | rfl <;> simp [separated, hrest]
    · by_cases hcomma : c' = ','
      · subst hcomma
        rcases hnext with rfl | rfl | rfl <;> simp [separated, hrest]
      · simp [separated, hrest, hcolon, hcomma]

theorem token_skipSpace (s : TokenState) (stack : List TokenState) (input : List Char) :
    token ⟨s, stack, input⟩ = token ⟨s, stack, skipSpace input⟩ := by
  simp only [token, separated, skipSpace_skipSpace]

theorem separated_next {c : Char} {input rest : List Char} (hskip : skipSpace input = c :: rest) (hcolon : c ≠ ':') (hcomma : c ≠ ',')
    (s : TokenState) (stack : List TokenState) : separated ⟨s, stack, input⟩ = some ⟨s, stack, c :: rest⟩ := by
  rw [separated]
  simp only [hskip, if_neg hcolon, if_neg hcomma]

theorem token_array {s : TokenState} {input rest : List Char} (hs : s.allowsValue = true) (hskip : skipSpace input = '[' :: rest)
    (stack : List TokenState) : token ⟨s, stack, input⟩ = some (.delim '[', ⟨.arrayStart, s :: stack, rest⟩) := by
  rw [token, separated_next hskip (by decide) (by decide)]
  simp [opened, hs]

theorem token_object {s : TokenState} {input rest : List Char} (hs : s.allowsValue = true) (hskip : skipSpace input = '\x7b' :: rest)
    (stack : List TokenState) : token ⟨s, stack, input⟩ = some (.delim '\x7b', ⟨.objectStart, s :: stack, rest⟩) := by
  rw [token, separated_next hskip (by decide) (by decide)]
  simp [opened, hs]

theorem token_arrayEnd {s : TokenState} {input rest : List Char} (hs : s = .arrayStart ∨ s = .arrayComma)
    (hskip : skipSpace input = ']' :: rest) (outer : TokenState) (stack : List TokenState) :
    token ⟨s, outer :: stack, input⟩ = some (.delim ']', ⟨outer.afterValue, stack, rest⟩) := by
  rw [token, separated_next hskip (by decide) (by decide)]
  simp [closed, hs]

theorem token_objectEnd {s : TokenState} {input rest : List Char} (hs : s = .objectStart ∨ s = .objectComma)
    (hskip : skipSpace input = '\x7d' :: rest) (outer : TokenState) (stack : List TokenState) :
    token ⟨s, outer :: stack, input⟩ = some (.delim '\x7d', ⟨outer.afterValue, stack, rest⟩) := by
  rw [token, separated_next hskip (by decide) (by decide)]
  simp [closed, hs]

theorem token_name {s : TokenState} {input more name rest : List Char} (hs : s = .objectStart ∨ s = .objectKey)
    (hskip : skipSpace input = quoteChar :: more) (hread : readString more = some (name, rest)) (stack : List TokenState) :
    token ⟨s, stack, input⟩ = some (.text (String.ofList name), ⟨.objectColon, stack, rest⟩) := by
  rw [token, separated_next hskip (by decide) (by decide)]
  simp [hs, hread, quoteChar]

/-- A value that is no container is one token. -/
theorem token_scalar {fuel depth : Nat} {s : TokenState} {c : Char} {input more rest : List Char} {v : Json}
    (hs : s.allowsValue = true) (hskip : skipSpace input = c :: more) (harr : c ≠ '[') (hobj : c ≠ '\x7b')
    (hread : readValue (fuel + 1) depth input = some (v, rest)) (stack : List TokenState) :
    token ⟨s, stack, input⟩ = some (.ofValue v, ⟨s.afterValue, stack, rest⟩) ∧ (Token.ofValue v).texts = v.texts := by
  have hbegins : c = quoteChar ∨ c = 't' ∨ c = 'f' ∨ c = 'n' ∨ BeginsNumber c := by
    by_cases hquote : c = quoteChar
    · exact .inl hquote
    · exact .inr (readValue_plain hskip hquote harr hobj hread).2.2
  have htexts : (Token.ofValue v).texts = v.texts := by
    by_cases hquote : c = quoteChar
    · rw [readValue_quote (hskip.trans (by rw [hquote]))] at hread
      obtain ⟨⟨s, left⟩, _, heq⟩ := Option.map_eq_some_iff.mp hread
      cases heq
      rfl
    · obtain ⟨htexts, _, _⟩ := readValue_plain hskip hquote harr hobj hread
      rw [ofValue_texts htexts, htexts]
  have hne : c ≠ ']' ∧ c ≠ '\x7d' ∧ c ≠ ':' ∧ c ≠ ',' := by
    rcases hbegins with rfl | rfl | rfl | rfl | rfl | hdigit
    · decide
    · decide
    · decide
    · decide
    · decide
    · refine ⟨?_, ?_, ?_, ?_⟩ <;> rintro rfl <;> exact absurd hdigit (by decide)
  have hstate : s ≠ .objectStart ∧ s ≠ .objectKey := by
    constructor <;> rintro rfl <;> cases hs
  refine ⟨?_, htexts⟩
  rw [token, separated_next hskip hne.2.2.1 hne.2.2.2]
  rw [readValue_scalar hskip harr hobj] at hread
  simp [harr, hobj, hne, hstate, hs, hread]

/-- With this much fuel, what the reader reads the decoder passes. -/
structure Passes (fuel : Nat) : Prop where
  value : ∀ {depth input v rest} {s : TokenState}, s.allowsValue = true → readValue fuel depth input = some (v, rest) →
    ∀ stack, Reads ⟨s, stack, input⟩ v.texts ⟨s.afterValue, stack, rest⟩
  items : ∀ {depth input items rest} {s : TokenState}, s = .arrayStart ∨ s = .arrayValue →
    readItems fuel depth input = some (items, rest) →
    ∀ outer stack, Reads ⟨s, outer :: stack, input⟩ (textsItems items) ⟨outer.afterValue, stack, rest⟩
  members : ∀ {depth input members rest} {s : TokenState}, s = .objectStart ∨ s = .objectKey →
    readMembers fuel depth input = some (members, rest) →
    ∀ outer stack, Reads ⟨s, outer :: stack, input⟩ (textsMembers members) ⟨outer.afterValue, stack, rest⟩

theorem reads_items {fuel depth : Nat} {input rest : List Char} {items : List Json} {s : TokenState} (ih : Passes fuel)
    (hs : s = .arrayStart ∨ s = .arrayValue) (h : readItems (fuel + 1) depth input = some (items, rest))
    (outer : TokenState) (stack : List TokenState) :
    Reads ⟨s, outer :: stack, input⟩ (textsItems items) ⟨outer.afterValue, stack, rest⟩ := by
  have hallows : s.allowsValue = true := by rcases hs with rfl | rfl <;> rfl
  have hafter : s.afterValue = .arrayComma := by rcases hs with rfl | rfl <;> rfl
  obtain ⟨⟨v, rest₁⟩, hv, h⟩ := Option.bind_eq_some_iff.mp h
  have hvalue := ih.value hallows hv (outer :: stack)
  rw [hafter] at hvalue
  simp only at h
  split at h
  · rename_i rest₂ hskip
    obtain ⟨⟨items', rest₃⟩, hitems, h⟩ := Option.bind_eq_some_iff.mp h
    cases h
    have hrest := (ih.items (.inr rfl) hitems outer stack).resume (token_behind (.inl ⟨rfl, rfl, rfl⟩) _ hskip)
    exact hvalue.append hrest
  · rename_i rest₂ hskip
    cases h
    have hclose := token_arrayEnd (.inr rfl) hskip outer stack
    exact hvalue.append (.one hclose)
  · cases h

theorem reads_members {fuel depth : Nat} {input rest : List Char} {members : List (String × Json)} {s : TokenState}
    (ih : Passes fuel) (hs : s = .objectStart ∨ s = .objectKey) (h : readMembers (fuel + 1) depth input = some (members, rest))
    (outer : TokenState) (stack : List TokenState) :
    Reads ⟨s, outer :: stack, input⟩ (textsMembers members) ⟨outer.afterValue, stack, rest⟩ := by
  rw [readMembers] at h
  split at h
  · rename_i q more hskip
    split at h
    · rename_i hq
      subst hq
      obtain ⟨⟨name, rest₁⟩, hname, h⟩ := Option.bind_eq_some_iff.mp h
      have htoken := token_name hs hskip hname (outer :: stack)
      simp only at h
      split at h
      · rename_i rest₂ hcolon
        obtain ⟨⟨v, rest₃⟩, hv, h⟩ := Option.bind_eq_some_iff.mp h
        have hvalue : Reads ⟨.objectColon, outer :: stack, rest₁⟩ v.texts ⟨.objectComma, outer :: stack, rest₃⟩ :=
          (ih.value rfl hv (outer :: stack)).resume (token_behind (.inr (.inr ⟨rfl, rfl, rfl⟩)) _ hcolon)
        simp only at h
        split at h
        · rename_i rest₄ hcomma
          obtain ⟨⟨members', rest₅⟩, hmembers, h⟩ := Option.bind_eq_some_iff.mp h
          cases h
          have hrest := (ih.members (.inr rfl) hmembers outer stack).resume (token_behind (.inr (.inl ⟨rfl, rfl, rfl⟩)) _ hcomma)
          exact .more htoken (hvalue.append hrest)
        · rename_i rest₄ hend
          cases h
          have hclose := token_objectEnd (.inr rfl) hend outer stack
          exact .more htoken (hvalue.append (.one hclose))
        · cases h
      · cases h
    · cases h
  · cases h

theorem reads_value {fuel depth : Nat} {input rest : List Char} {v : Json} {s : TokenState} (ih : Passes fuel)
    (hs : s.allowsValue = true) (h : readValue (fuel + 1) depth input = some (v, rest)) (stack : List TokenState) :
    Reads ⟨s, stack, input⟩ v.texts ⟨s.afterValue, stack, rest⟩ := by
  cases hskip : skipSpace input with
  | nil =>
    rw [readValue, hskip] at h
    cases h
  | cons c more =>
    by_cases harr : c = '['
    · subst harr
      have htoken := token_array hs hskip stack
      rw [readValue, hskip] at h
      simp only at h
      rw [if_neg (by decide), if_pos trivial] at h
      split at h
      · cases h
      · rename_i rest' heq
        cases h
        exact .more htoken (.one (token_arrayEnd (.inl rfl) heq s stack))
      · obtain ⟨⟨items, rest'⟩, hitems, h⟩ := Option.bind_eq_some_iff.mp h
        cases h
        have hrest := ih.items (.inl rfl) hitems s stack
        exact .more htoken (hrest.resume (token_skipSpace _ _ more))
    · by_cases hobj : c = '\x7b'
      · subst hobj
        have htoken := token_object hs hskip stack
        rw [readValue, hskip] at h
        simp only at h
        rw [if_neg (by decide), if_neg (by decide), if_pos trivial] at h
        split at h
        · cases h
        · rename_i rest' heq
          cases h
          exact .more htoken (.one (token_objectEnd (.inl rfl) heq s stack))
        · obtain ⟨⟨members, rest'⟩, hmembers, h⟩ := Option.bind_eq_some_iff.mp h
          cases h
          have hrest := ih.members (.inl rfl) hmembers s stack
          exact .more htoken (hrest.resume (token_skipSpace _ _ more))
      · obtain ⟨htoken, htexts⟩ := token_scalar hs hskip harr hobj h stack
        rw [← htexts]
        exact .one htoken

theorem passes (fuel : Nat) : Passes fuel := by
  induction fuel with
  | zero =>
    constructor
    all_goals
      intro depth input v rest s _ h
      cases h
  | succ fuel ih => exact ⟨reads_value ih, reads_items ih, reads_members ih⟩

end Decoder

/-- The decoder passes the strings of the value that is read, and goes on behind it. -/
theorem texts_value {fuel depth : Nat} {input rest : List Char} {v : Json} (h : readValue fuel depth input = some (v, rest)) :
    (Decoder.open_ input).texts = v.texts ++ (Decoder.open_ rest).texts :=
  Decoder.texts_of_reads ((Decoder.passes fuel).value rfl h [])

/-- A value among those that a text holds one after the other. -/
inductive ValueIn (v : Json) : List Char → Prop
  | head {fuel depth : Nat} {input rest : List Char} (h : readValue fuel depth input = some (v, rest)) : ValueIn v input
  | tail {fuel depth : Nat} {input rest : List Char} {v' : Json} (h : readValue fuel depth input = some (v', rest))
      (hrest : ValueIn v rest) : ValueIn v input

theorem texts_of_valueIn {input : List Char} {v : Json} (h : ValueIn v input) :
    ∀ s ∈ v.texts, s ∈ (Decoder.open_ input).texts := by
  induction h with
  | head hread =>
    rw [texts_value hread]
    exact fun s hs => List.mem_append_left _ hs
  | tail hread _ ih =>
    rw [texts_value hread]
    exact fun s hs => List.mem_append_right _ (ih s hs)

theorem valueIn_of_parse {input : List Char} {v : Json} (h : parseChars input = some v) : ValueIn v input := by
  unfold parseChars at h
  split at h
  · rename_i hread
    split at h
    · cases h
      exact .head hread
    · cases h
  · cases h

end Json

end Desk
