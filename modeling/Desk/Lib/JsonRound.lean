import Desk.Lib.Json

/-!
# What is written is read back

`parse` gives back every value `marshal` writes whose numbers are integers and
which is not nested too deep.
-/

namespace Desk

namespace Json

/-! ## Characters of a string -/

theorem hexValue_hexDigit : ∀ d, d < 16 → hexValue (hexDigit d) = some d := by decide

theorem hexUnit_hex4 {n : Nat} (h : n < 65536) :
    hexUnit (hexDigit (n / 4096 % 16)) (hexDigit (n / 256 % 16)) (hexDigit (n / 16 % 16)) (hexDigit (n % 16)) = some n := by
  rw [hexUnit, hexValue_hexDigit _ (Nat.mod_lt _ (by decide)), hexValue_hexDigit _ (Nat.mod_lt _ (by decide)),
    hexValue_hexDigit _ (Nat.mod_lt _ (by decide)), hexValue_hexDigit _ (Nat.mod_lt _ (by decide))]
  simp only [Option.bind_eq_bind, Option.bind_some, Option.pure_def, Option.some.injEq]
  omega

/-- What follows a unit that is written by its number is no unit that is not. -/
def NotHalf (t : List Char) : Prop :=
  ∀ a b c d rest, t = '\\' :: 'u' :: a :: b :: c :: d :: rest → (hexUnit a b c d).isSome = true

/-- The ways a character is written. -/
theorem escapeChar_cases (c : Char) :
    ((c = Char.ofNat 0x22 ∨ c = Char.ofNat 0x5c) ∧ escapeChar c = ['\\', c]) ∨
    (c = Char.ofNat 8 ∧ escapeChar c = ['\\', 'b']) ∨ (c = Char.ofNat 12 ∧ escapeChar c = ['\\', 'f']) ∨
    (c = '\n' ∧ escapeChar c = ['\\', 'n']) ∨ (c = '\r' ∧ escapeChar c = ['\\', 'r']) ∨
    (c = '\t' ∧ escapeChar c = ['\\', 't']) ∨
    (c.toNat < 0xd800 ∧ escapeChar c = '\\' :: 'u' :: hex4 c.toNat) ∨
    (c ≠ Char.ofNat 0x22 ∧ c ≠ Char.ofNat 0x5c ∧ 0x20 ≤ c.toNat ∧ escapeChar c = [c]) := by
  have hnat : ∀ {d : Char}, c.toNat = d.toNat → c = d := fun h => Char.toNat_inj.mp h
  unfold escapeChar
  by_cases h0 : c = Char.ofNat 0x22 ∨ c = Char.ofNat 0x5c
  · exact .inl ⟨h0, if_pos h0⟩
  rw [if_neg h0]
  by_cases h1 : c.toNat = 0x08
  · exact .inr (.inl ⟨hnat h1, if_pos h1⟩)
  rw [if_neg h1]
  by_cases h2 : c.toNat = 0x0c
  · exact .inr (.inr (.inl ⟨hnat h2, if_pos h2⟩))
  rw [if_neg h2]
  by_cases h3 : c.toNat = 0x0a
  · exact .inr (.inr (.inr (.inl ⟨hnat h3, if_pos h3⟩)))
  rw [if_neg h3]
  by_cases h4 : c.toNat = 0x0d
  · exact .inr (.inr (.inr (.inr (.inl ⟨hnat h4, if_pos h4⟩))))
  rw [if_neg h4]
  by_cases h5 : c.toNat = 0x09
  · exact .inr (.inr (.inr (.inr (.inr (.inl ⟨hnat h5, if_pos h5⟩)))))
  rw [if_neg h5]
  by_cases h6 : c.toNat < 0x20 ∨ c = '<' ∨ c = '>' ∨ c = '&' ∨ c.toNat = 0x2028 ∨ c.toNat = 0x2029
  · refine .inr (.inr (.inr (.inr (.inr (.inr (.inl ⟨?_, if_pos h6⟩))))))
    obtain h | rfl | rfl | rfl | h | h := h6
    · omega
    · decide
    · decide
    · decide
    · omega
    · omega
  · rw [if_neg h6]
    push Not at h0 h6
    exact .inr (.inr (.inr (.inr (.inr (.inr (.inr ⟨h0.1, h0.2, h6.1, rfl⟩))))))

/-- The text of characters, up to a closing quote. -/
def quoted (s rest : List Char) : List Char := s.flatMap escapeChar ++ Char.ofNat 0x22 :: rest

theorem notHalf_escapeChar (ch : Char) (t : List Char) : NotHalf (escapeChar ch ++ t) := by
  intro a b c d more h
  obtain ⟨h0, he⟩ | ⟨-, he⟩ | ⟨-, he⟩ | ⟨-, he⟩ | ⟨-, he⟩ | ⟨-, he⟩ | ⟨hlt, he⟩ | ⟨-, hne, -, he⟩ := escapeChar_cases ch
  all_goals rw [he] at h
  · have hu : ch = 'u' := List.head_eq_of_cons_eq (List.tail_eq_of_cons_eq h)
    rw [hu] at h0
    exact absurd h0 (by decide)
  · exact absurd (List.head_eq_of_cons_eq (List.tail_eq_of_cons_eq h)) (by decide)
  · exact absurd (List.head_eq_of_cons_eq (List.tail_eq_of_cons_eq h)) (by decide)
  · exact absurd (List.head_eq_of_cons_eq (List.tail_eq_of_cons_eq h)) (by decide)
  · exact absurd (List.head_eq_of_cons_eq (List.tail_eq_of_cons_eq h)) (by decide)
  · exact absurd (List.head_eq_of_cons_eq (List.tail_eq_of_cons_eq h)) (by decide)
  · simp only [hex4, List.cons_append, List.cons.injEq, true_and] at h
    obtain ⟨rfl, rfl, rfl, rfl, -⟩ := h
    rw [hexUnit_hex4 (by omega)]
    rfl
  · exact absurd (List.head_eq_of_cons_eq h) hne

theorem notHalf_quote (rest : List Char) : NotHalf (Char.ofNat 0x22 :: rest) := fun _ _ _ _ _ h =>
  absurd (List.head_eq_of_cons_eq h) (by decide)

theorem notHalf_quoted (s rest : List Char) : NotHalf (quoted s rest) := by
  cases s with
  | nil => exact notHalf_quote rest
  | cons ch s =>
    rw [quoted, List.flatMap_cons, List.append_assoc]
    exact notHalf_escapeChar ch _

theorem readString_escapeChar (c : Char) {t s rest : List Char} (ht : NotHalf t) (h : readString t = some (s, rest)) :
    readString (escapeChar c ++ t) = some (c :: s, rest) := by
  obtain ⟨h0, he⟩ | ⟨rfl, he⟩ | ⟨rfl, he⟩ | ⟨rfl, he⟩ | ⟨rfl, he⟩ | ⟨rfl, he⟩ | ⟨hlt, he⟩ | ⟨hq, hb, h20, he⟩ :=
    escapeChar_cases c
  all_goals rw [he]
  · obtain rfl | rfl := h0 <;> simp [readString, h]
  · simp [readString, h]
  · simp [readString, h]
  · simp [readString, h]
  · simp [readString, h]
  · simp [readString, h]
  · have hunit := hexUnit_hex4 (n := c.toNat) (by omega)
    have hc : Char.ofNat c.toNat = c := Char.ofNat_toNat c
    have hplane : ¬(0xd800 ≤ c.toNat ∧ c.toNat ≤ 0xdfff) := by omega
    simp only [hex4, List.cons_append, List.nil_append]
    by_cases hform : ∃ a b c d more, t = '\\' :: 'u' :: a :: b :: c :: d :: more
    · obtain ⟨a', b', c', d', more, rfl⟩ := hform
      obtain ⟨lo, hlo⟩ := Option.isSome_iff_exists.mp (ht a' b' c' d' more rfl)
      have hpair : ¬(0xd800 ≤ c.toNat ∧ c.toNat ≤ 0xdbff ∧ 0xdc00 ≤ lo ∧ lo ≤ 0xdfff) := by omega
      simp only [readString, hunit, hlo, if_neg hpair, h, if_neg hplane, hc, Option.bind_eq_bind, Option.bind_some,
        Option.pure_def]
    · rw [readString]
      · simp only [hunit, h, if_neg hplane, hc, Option.bind_eq_bind, Option.bind_some, Option.pure_def]
      · intro a' b' c' d' more heq
        exact hform ⟨a', b', c', d', more, heq⟩
  · have hlt : ¬c.toNat < 0x20 := by omega
    simp only [List.cons_append, List.nil_append]
    rw [readString]
    · simp only [if_neg hq, if_neg hlt, h, Option.bind_eq_bind, Option.bind_some, Option.pure_def]
    all_goals
      intros
      exact hb (by assumption)

theorem readString_quoted (s rest : List Char) : readString (quoted s rest) = some (s, rest) := by
  induction s with
  | nil => simp [quoted, readString]
  | cons c s ih =>
    have h := readString_escapeChar c (notHalf_quoted s rest) ih
    simpa [quoted] using h

/-! ## Integers -/

/-- The text after a number does not go on with it. -/
def Ends (rest : List Char) : Prop :=
  ∀ c ∈ rest.head?, c.isDigit = false ∧ c ≠ '.' ∧ c ≠ 'e' ∧ c ≠ 'E'

theorem ends_nil : Ends [] := by simp [Ends]

theorem ends_cons {c : Char} (h : c = ',' ∨ c = ']' ∨ c = '\x7d') (rest : List Char) : Ends (c :: rest) := by
  intro d hd
  obtain rfl : c = d := by simpa using hd
  obtain rfl | rfl | rfl := h <;> decide

theorem readDigits_append {ds rest : List Char} (hd : ∀ c ∈ ds, c.isDigit = true) (hr : Ends rest) :
    readDigits (ds ++ rest) = (ds, rest) := by
  induction ds with
  | nil =>
    cases rest with
    | nil => rfl
    | cons c rest =>
      have := (hr c (by simp)).1
      simp [readDigits, this]
  | cons c ds ih =>
    have hc := hd c (by simp)
    simp [readDigits, hc, ih fun x hx => hd x (by simp [hx])]

theorem readFraction_ends {rest : List Char} (h : Ends rest) : readFraction rest = some ([], rest) := by
  cases rest with
  | nil => rfl
  | cons c rest =>
    have hc := (h c (by simp)).2.1
    rw [readFraction]
    intro more heq
    exact hc (List.head_eq_of_cons_eq heq)

theorem readExponent_ends {rest : List Char} (h : Ends rest) : readExponent rest = some ([], rest) := by
  cases rest with
  | nil => rfl
  | cons c rest =>
    have hc := (h c (by simp)).2.2
    simp only [readExponent]
    rw [if_neg (by tauto)]

/-- Digits that no superfluous zero starts. -/
structure Whole (ds : List Char) : Prop where
  digits : ∀ c ∈ ds, c.isDigit = true
  first : ∃ c more, ds = c :: more ∧ (c = '0' → more = [])

/-- What `readNumber` does after the sign. -/
theorem readNumber_body {ds rest : List Char} (w : Whole ds) (hr : Ends rest) (sign : List Char) :
    (do
      let (whole, rest) ← match (readDigits (ds ++ rest)).1 with
        | [] => none
        | '0' :: more => some (['0'], more ++ (readDigits (ds ++ rest)).2)
        | ds' => some (ds', (readDigits (ds ++ rest)).2)
      let (fraction, rest) ← readFraction rest
      let (exponent, rest) ← readExponent rest
      return (sign ++ whole ++ fraction ++ exponent, rest)) = some (sign ++ ds, rest) := by
  rw [readDigits_append w.digits hr]
  obtain ⟨c, more, rfl, hzero⟩ := w.first
  by_cases hc : c = '0'
  · obtain rfl := hzero hc
    subst hc
    simp [readFraction_ends hr, readExponent_ends hr]
  · simp [hc, readFraction_ends hr, readExponent_ends hr]

theorem readNumber_whole {ds rest : List Char} (w : Whole ds) (hr : Ends rest) :
    readNumber (ds ++ rest) = some (ds, rest) := by
  have hbody := readNumber_body w hr []
  obtain ⟨c, more, rfl, hzero⟩ := w.first
  have hminus : c ≠ '-' := by
    rintro rfl
    exact absurd (w.digits '-' (by simp)) (by decide)
  rw [List.cons_append] at hbody ⊢
  rw [readNumber]
  · exact hbody
  · intro more' heq
    exact hminus (List.head_eq_of_cons_eq heq)

theorem readNumber_minus {ds rest : List Char} (w : Whole ds) (hr : Ends rest) :
    readNumber ('-' :: ds ++ rest) = some ('-' :: ds, rest) :=
  readNumber_body w hr ['-']

theorem digitChar_ne_zero : ∀ d, d < 10 → 0 < d → d.digitChar ≠ '0' := by decide

theorem toDigits_first {n : Nat} (h : 0 < n) : ∃ c more, Nat.toDigits 10 n = c :: more ∧ c ≠ '0' := by
  induction n using Nat.strong_induction_on with
  | _ n ih =>
    by_cases hlt : n < 10
    · exact ⟨n.digitChar, [], Nat.toDigits_of_lt_base hlt, digitChar_ne_zero n hlt h⟩
    · obtain ⟨c, more, heq, hc⟩ := ih (n / 10) (by omega) (by omega)
      rw [Nat.toDigits_of_base_le (by decide) (by omega), heq]
      exact ⟨c, _, rfl, hc⟩

theorem whole_repr (n : Nat) : Whole n.repr.toList := by
  rw [Nat.toList_repr]
  refine ⟨fun c hc => Nat.isDigit_of_mem_toDigits (by decide) (by decide) hc, ?_⟩
  by_cases h : n = 0
  · exact ⟨'0', [], by rw [h, Nat.toDigits_zero], fun _ => rfl⟩
  · obtain ⟨c, more, heq, hc⟩ := toDigits_first (Nat.pos_of_ne_zero h)
    exact ⟨c, more, heq, fun h0 => absurd h0 hc⟩

theorem readNumber_int (n : Int) {rest : List Char} (hr : Ends rest) :
    readNumber ((toString n).toList ++ rest) = some ((toString n).toList, rest) := by
  cases n with
  | ofNat a => exact readNumber_whole (whole_repr a) hr
  | negSucc a =>
    have h : (toString (Int.negSucc a)).toList = '-' :: (a + 1).repr.toList := by
      change ("-" ++ (a + 1).repr).toList = _
      rw [String.toList_append]
      rfl
    rw [h]
    exact readNumber_minus (whole_repr (a + 1)) hr

/-! ## Values -/

mutual

/-- All numbers are integers. -/
def Plain : Json → Prop
  | num literal => ∃ n : Int, literal = toString n
  | arr items => PlainItems items
  | obj members => PlainMembers members
  | _ => True

def PlainItems : List Json → Prop
  | [] => True
  | v :: rest => Plain v ∧ PlainItems rest

def PlainMembers : List (String × Json) → Prop
  | [] => True
  | (_, v) :: rest => Plain v ∧ PlainMembers rest

end

mutual

def nesting : Json → Nat
  | arr items => nestingItems items + 1
  | obj members => nestingMembers members + 1
  | _ => 0

def nestingItems : List Json → Nat
  | [] => 0
  | v :: rest => max (nesting v) (nestingItems rest)

def nestingMembers : List (String × Json) → Nat
  | [] => 0
  | (_, v) :: rest => max (nesting v) (nestingMembers rest)

end

/-- The first character of a value is no layout and ends nothing. -/
def Opens (c : Char) : Prop := c ≠ ' ' ∧ c ≠ '\n' ∧ c ≠ '\r' ∧ c ≠ '\t' ∧ c ≠ ']'

theorem opens_of_digit {c : Char} (h : c.isDigit = true) : Opens c := by
  refine ⟨?_, ?_, ?_, ?_, ?_⟩ <;> (rintro rfl; exact absurd h (by decide))

/-- The ways a number starts. -/
theorem int_first (n : Int) : ∃ c more, (toString n).toList = c :: more ∧ (c = '-' ∨ c.isDigit = true) := by
  cases n with
  | ofNat a =>
    obtain ⟨c, more, heq, -⟩ := (whole_repr a).first
    exact ⟨c, more, heq, .inr ((whole_repr a).digits c (by simp [heq]))⟩
  | negSucc a => exact ⟨'-', (a + 1).repr.toList, String.toList_append .., .inl rfl⟩

theorem write_first (v : Json) (h : v.Plain) : ∃ c more, write escapeChar v = c :: more ∧ Opens c := by
  cases v with
  | null => exact ⟨'n', _, rfl, by unfold Opens; decide⟩
  | bool b => cases b <;> exact ⟨_, _, rfl, by unfold Opens; decide⟩
  | num literal =>
    obtain ⟨n, rfl⟩ := h
    obtain ⟨c, more, heq, hc⟩ := int_first n
    refine ⟨c, more, heq, ?_⟩
    obtain rfl | hc := hc
    · unfold Opens
      decide
    · exact opens_of_digit hc
  | str s => exact ⟨_, _, rfl, by unfold Opens; decide⟩
  | arr items => exact ⟨'[', _, rfl, by unfold Opens; decide⟩
  | obj members => exact ⟨'\x7b', _, rfl, by unfold Opens; decide⟩

theorem skipSpace_opens {c : Char} (h : Opens c) (rest : List Char) : skipSpace (c :: rest) = c :: rest := by
  obtain ⟨h1, h2, h3, h4, -⟩ := h
  rw [skipSpace, if_neg (by tauto)]

theorem readValue_int (n : Int) (fuel depth : Nat) {rest : List Char} (hr : Ends rest) :
    readValue (fuel + 1) depth ((toString n).toList ++ rest) = some (num (toString n), rest) := by
  have hread := readNumber_int n hr
  obtain ⟨c, more, heq, hc⟩ := int_first n
  have hne : c ≠ Char.ofNat 0x22 ∧ c ≠ '[' ∧ c ≠ '\x7b' ∧ c ≠ 't' ∧ c ≠ 'f' ∧ c ≠ 'n' := by
    refine ⟨?_, ?_, ?_, ?_, ?_, ?_⟩ <;> (rintro rfl; exact absurd hc (by decide))
  have hopens : Opens c := by
    obtain rfl | hc := hc
    · unfold Opens
      decide
    · exact opens_of_digit hc
  obtain ⟨h1, h2, h3, h4, h5, h6⟩ := hne
  have htext : String.ofList (c :: more) = toString n := by rw [← heq, String.ofList_toList]
  rw [heq, List.cons_append] at hread ⊢
  rw [readValue, skipSpace_opens hopens]
  simp only [if_neg h1, if_neg h2, if_neg h3, if_neg h4, if_neg h5, if_neg h6, hread, Option.bind_eq_bind,
    Option.bind_some, Option.pure_def, htext]

theorem readWord_append (word : String) (v : Json) (rest : List Char) :
    readWord word v (word.toList ++ rest) = some (v, rest) := by
  rw [readWord, if_pos (List.isPrefixOf_iff_prefix.mpr (List.prefix_append ..)), List.drop_left]

theorem readValue_str (s : String) (fuel depth : Nat) (rest : List Char) :
    readValue (fuel + 1) depth (quote escapeChar s ++ rest) = some (str s, rest) := by
  have hquote : quote escapeChar s ++ rest = Char.ofNat 0x22 :: quoted s.toList rest := by simp [quote, quoted]
  have hopens : Opens (Char.ofNat 0x22) := by
    unfold Opens
    decide
  rw [hquote, readValue, skipSpace_opens hopens]
  simp only [if_true, readString_quoted, Option.bind_eq_bind, Option.bind_some, Option.pure_def, String.ofList_toList]

theorem skipSpace_write {v : Json} (h : v.Plain) (rest : List Char) :
    skipSpace (write escapeChar v ++ rest) = write escapeChar v ++ rest ∧
      ∀ more, write escapeChar v ++ rest ≠ ']' :: more := by
  obtain ⟨c, more, heq, hc⟩ := write_first v h
  rw [heq, List.cons_append]
  exact ⟨skipSpace_opens hc _, fun more' he => hc.2.2.2.2 (List.head_eq_of_cons_eq he)⟩

/-- The text of items starts with the first of them. -/
theorem writeItems_cons (v : Json) (items : List Json) :
    ∃ more, writeItems escapeChar (v :: items) = write escapeChar v ++ more ∧
      (items = [] ∧ more = [']'] ∨ items ≠ [] ∧ more = ',' :: writeItems escapeChar items) := by
  cases items with
  | nil => exact ⟨_, rfl, .inl ⟨rfl, rfl⟩⟩
  | cons w items => exact ⟨_, rfl, .inr ⟨by simp, rfl⟩⟩

theorem readValue_arr {items : List Json} {fuel depth : Nat} {rest : List Char} (hne : items ≠ []) (hp : PlainItems items)
    (h : readItems fuel depth (writeItems escapeChar items ++ rest) = some (items, rest)) :
    readValue (fuel + 1) (depth + 1) (write escapeChar (.arr items) ++ rest) = some (.arr items, rest) := by
  have hopens : Opens '[' := by
    unfold Opens
    decide
  rw [write, List.cons_append, readValue, skipSpace_opens hopens]
  cases items with
  | nil => exact absurd rfl hne
  | cons v items =>
    obtain ⟨more, heq, -⟩ := writeItems_cons v items
    have hskip := skipSpace_write hp.1 (more ++ rest)
    rw [← List.append_assoc, ← heq] at hskip
    have hc : ('[' : Char) ≠ Char.ofNat 0x22 := by decide
    simp only [if_neg hc, if_true, hskip.1]
    split
    · rename_i heq'
      cases heq'
    · rename_i heq'
      exact absurd heq' (hskip.2 _)
    · rename_i hdepth _
      cases hdepth
      simp only [h, Option.bind_eq_bind, Option.bind_some, Option.pure_def]

theorem writeMembers_cons (k : String) (v : Json) (members : List (String × Json)) :
    ∃ more, writeMembers escapeChar ((k, v) :: members) = quote escapeChar k ++ ':' :: (write escapeChar v ++ more) ∧
      (members = [] ∧ more = ['\x7d'] ∨ members ≠ [] ∧ more = ',' :: writeMembers escapeChar members) := by
  cases members with
  | nil => exact ⟨_, rfl, .inl ⟨rfl, rfl⟩⟩
  | cons m members => exact ⟨_, rfl, .inr ⟨by simp, rfl⟩⟩

theorem readValue_obj {members : List (String × Json)} {fuel depth : Nat} {rest : List Char} (hne : members ≠ [])
    (h : readMembers fuel depth (writeMembers escapeChar members ++ rest) = some (members, rest)) :
    readValue (fuel + 1) (depth + 1) (write escapeChar (.obj members) ++ rest) = some (.obj members, rest) := by
  have hopens : Opens '\x7b' := by
    unfold Opens
    decide
  have hquote : Opens (Char.ofNat 0x22) := by
    unfold Opens
    decide
  rw [write, List.cons_append, readValue, skipSpace_opens hopens]
  cases members with
  | nil => exact absurd rfl hne
  | cons m members =>
    obtain ⟨k, v⟩ := m
    obtain ⟨more, heq, -⟩ := writeMembers_cons k v members
    have htext : ∃ tail, writeMembers escapeChar ((k, v) :: members) ++ rest = Char.ofNat 0x22 :: tail := by
      rw [heq]
      exact ⟨_, rfl⟩
    obtain ⟨tail, htail⟩ := htext
    rw [htail] at h ⊢
    have hc : ('\x7b' : Char) ≠ Char.ofNat 0x22 := by decide
    have hb : ('\x7b' : Char) ≠ '[' := by decide
    simp only [if_neg hc, if_neg hb, if_true, skipSpace_opens hquote]
    split
    · rename_i heq'
      cases heq'
    · rename_i heq'
      exact absurd (List.head_eq_of_cons_eq heq') (by decide)
    · rename_i hdepth _
      cases hdepth
      simp only [h, Option.bind_eq_bind, Option.bind_some, Option.pure_def]

theorem one_le_write {v : Json} (h : v.Plain) : 1 ≤ (write escapeChar v).length := by
  obtain ⟨c, more, heq, -⟩ := write_first v h
  rw [heq]
  exact Nat.succ_pos _

set_option linter.unnecessarySeqFocus false in
/-- The name of a member, and what its value leaves. -/
theorem readMembers_name (k : String) (v : Json) (fuel depth : Nat) (tail : List Char)
    (h : readValue fuel depth (write escapeChar v ++ tail) = some (v, tail)) :
    readMembers (fuel + 1) depth (quote escapeChar k ++ ':' :: (write escapeChar v ++ tail)) =
      match skipSpace tail with
      | ',' :: rest => do
        let (members, rest) ← readMembers fuel depth rest
        return ((String.ofList k.toList, v) :: members, rest)
      | '\x7d' :: rest => return ([(String.ofList k.toList, v)], rest)
      | _ => none := by
  have hquote : quote escapeChar k ++ ':' :: (write escapeChar v ++ tail) =
      Char.ofNat 0x22 :: quoted k.toList (':' :: (write escapeChar v ++ tail)) := by simp [quote, quoted]
  have hopens : Opens (Char.ofNat 0x22) := by
    unfold Opens
    decide
  have hcolon : Opens ':' := by
    unfold Opens
    decide
  rw [hquote, readMembers, skipSpace_opens hopens]
  simp only [if_true, readString_quoted, Option.bind_eq_bind, Option.bind_some, skipSpace_opens hcolon, h] <;> rfl

mutual

/-- A value that is written is read back, whatever follows it. -/
theorem readValue_write : ∀ (v : Json) (fuel depth : Nat) (rest : List Char), v.Plain → nesting v ≤ depth →
    (write escapeChar v).length ≤ fuel → Ends rest → readValue fuel depth (write escapeChar v ++ rest) = some (v, rest)
  | v, 0, _, _, hp, _, hf, _ => by
    have := one_le_write hp
    omega
  | .null, fuel + 1, _, rest, _, _, _, _ => readWord_append "null" .null rest
  | .bool true, fuel + 1, _, rest, _, _, _, _ => readWord_append "true" (.bool true) rest
  | .bool false, fuel + 1, _, rest, _, _, _, _ => readWord_append "false" (.bool false) rest
  | .num literal, fuel + 1, depth, rest, hp, _, _, hr => by
    obtain ⟨n, rfl⟩ := hp
    exact readValue_int n fuel depth hr
  | .str s, fuel + 1, depth, rest, _, _, _, _ => readValue_str s fuel depth rest
  | .arr items, fuel + 1, 0, _, _, hd, _, _ => absurd hd (by simp [nesting])
  | .arr [], fuel + 1, depth + 1, rest, _, _, _, _ => rfl
  | .arr (v :: items), fuel + 1, depth + 1, rest, hp, hd, hf, hr => by
    refine readValue_arr (by simp) hp (readItems_write (v :: items) fuel depth rest (by simp) hp ?_ ?_)
    · exact Nat.le_of_succ_le_succ hd
    · simp only [write, List.length_cons] at hf
      omega
  | .obj members, fuel + 1, 0, _, _, hd, _, _ => absurd hd (by simp [nesting])
  | .obj [], fuel + 1, depth + 1, rest, _, _, _, _ => rfl
  | .obj (m :: members), fuel + 1, depth + 1, rest, hp, hd, hf, hr => by
    refine readValue_obj (by simp) (readMembers_write (m :: members) fuel depth rest (by simp) hp ?_ ?_)
    · exact Nat.le_of_succ_le_succ hd
    · simp only [write, List.length_cons] at hf
      omega

theorem readItems_write : ∀ (items : List Json) (fuel depth : Nat) (rest : List Char), items ≠ [] → PlainItems items →
    nestingItems items ≤ depth → (writeItems escapeChar items).length ≤ fuel →
    readItems fuel depth (writeItems escapeChar items ++ rest) = some (items, rest)
  | [], _, _, _, hne, _, _, _ => absurd rfl hne
  | v :: items, 0, _, _, _, hp, _, hf => by
    obtain ⟨more, heq, -⟩ := writeItems_cons v items
    have := one_le_write hp.1
    rw [heq, List.length_append] at hf
    omega
  | [v], fuel + 1, depth, rest, _, hp, hd, hf => by
    simp only [writeItems, List.length_append, List.length_singleton] at hf
    have hv := readValue_write v fuel depth (']' :: rest) hp.1 (Nat.le_trans (Nat.le_max_left ..) hd) (by omega)
      (ends_cons (by simp) rest)
    rw [readItems, writeItems, List.append_assoc, List.singleton_append, hv]
    rfl
  | v :: w :: items, fuel + 1, depth, rest, _, hp, hd, hf => by
    simp only [writeItems, List.length_append, List.length_cons] at hf
    have hv := readValue_write v fuel depth (',' :: (writeItems escapeChar (w :: items) ++ rest)) hp.1
      (Nat.le_trans (Nat.le_max_left ..) hd) (by omega) (ends_cons (by simp) _)
    have hrest := readItems_write (w :: items) fuel depth rest (by simp) hp.2 (Nat.le_trans (Nat.le_max_right ..) hd)
      (by omega)
    rw [readItems, writeItems, List.append_assoc, List.cons_append, hv]
    · simp only [Option.bind_eq_bind, Option.bind_some]
      change (readItems fuel depth (writeItems escapeChar (w :: items) ++ rest)).bind _ = _
      rw [hrest]
      rfl
    · simp

theorem readMembers_write : ∀ (members : List (String × Json)) (fuel depth : Nat) (rest : List Char), members ≠ [] →
    PlainMembers members → nestingMembers members ≤ depth → (writeMembers escapeChar members).length ≤ fuel →
    readMembers fuel depth (writeMembers escapeChar members ++ rest) = some (members, rest)
  | [], _, _, _, hne, _, _, _ => absurd rfl hne
  | (k, v) :: members, 0, _, _, _, hp, _, hf => by
    obtain ⟨more, heq, -⟩ := writeMembers_cons k v members
    rw [heq, List.length_append, List.length_cons] at hf
    omega
  | [(k, v)], fuel + 1, depth, rest, _, hp, hd, hf => by
    simp only [writeMembers, List.length_append, List.length_cons, List.length_nil] at hf
    have hv := readValue_write v fuel depth ('\x7d' :: rest) hp.1 (Nat.le_trans (Nat.le_max_left ..) hd) (by omega)
      (ends_cons (by simp) rest)
    have hname := readMembers_name k v fuel depth ('\x7d' :: rest) hv
    simp only [writeMembers, List.append_assoc, List.cons_append, List.nil_append] at hname ⊢
    rw [hname, String.ofList_toList]
    rfl
  | (k, v) :: m :: members, fuel + 1, depth, rest, _, hp, hd, hf => by
    simp only [writeMembers, List.length_append, List.length_cons] at hf
    have hv := readValue_write v fuel depth (',' :: (writeMembers escapeChar (m :: members) ++ rest)) hp.1
      (Nat.le_trans (Nat.le_max_left ..) hd) (by omega) (ends_cons (by simp) _)
    have hrest := readMembers_write (m :: members) fuel depth rest (by simp) hp.2
      (Nat.le_trans (Nat.le_max_right ..) hd) (by omega)
    have hname := readMembers_name k v fuel depth (',' :: (writeMembers escapeChar (m :: members) ++ rest)) hv
    rw [writeMembers, List.append_assoc, List.cons_append, List.append_assoc, List.cons_append, hname,
      String.ofList_toList]
    · change (readMembers fuel depth (writeMembers escapeChar (m :: members) ++ rest)).bind _ = _
      rw [hrest]
      rfl
    · simp

end

theorem charsOf_bytesOf (s : String) : charsOf (bytesOf s) = some s.toList := by
  have hraw : (⟨(bytesOf s).toArray⟩ : ByteArray) = s.toByteArray := by
    apply ByteArray.ext
    simp [bytesOf]
  have hvalid : String.fromUTF8? s.toByteArray = some s := by
    rw [String.fromUTF8?, dif_pos s.isValidUTF8]
    rfl
  rw [charsOf, hraw, hvalid]
  rfl

theorem parse_marshal {v : Json} (hp : v.Plain) (hd : nesting v ≤ maxNesting) : parse (marshal v) = some v := by
  rw [parse, marshal, charsOf_bytesOf, Option.bind_some, String.toList_ofList, parseChars]
  have h := readValue_write v (2 * (write escapeChar v).length + 2) maxNesting [] hp hd (by omega) ends_nil
  rw [List.append_nil] at h
  rw [h]
  rfl

/-! ## No line ends inside a value -/

theorem bytesOf_ofList (l : List Char) : bytesOf (String.ofList l) = l.flatMap String.utf8EncodeChar := by
  rw [bytesOf, String.toByteArray_ofList, List.utf8Encode]
  simp

theorem newline_not_mem_encode {c : Char} (h : 0x20 ≤ c.toNat) : (10 : UInt8) ∉ String.utf8EncodeChar c := by
  have hv : c.val.toNat = c.toNat := rfl
  have hne : ∀ n, n % 256 ≠ 10 → (10 : UInt8) ≠ UInt8.ofNat n := by
    intro n hn he
    have := congrArg UInt8.toNat he
    rw [UInt8.toNat_ofNat'] at this
    exact hn this.symm
  have hb := c.valid
  unfold String.utf8EncodeChar
  dsimp only
  split_ifs
  · simp only [List.mem_cons, List.not_mem_nil, or_false]
    exact hne _ (by omega)
  · simp only [List.mem_cons, List.not_mem_nil, or_false, not_or]
    exact ⟨hne _ (by omega), hne _ (by omega)⟩
  · simp only [List.mem_cons, List.not_mem_nil, or_false, not_or]
    exact ⟨hne _ (by omega), hne _ (by omega), hne _ (by omega)⟩
  · simp only [List.mem_cons, List.not_mem_nil, or_false, not_or]
    exact ⟨hne _ (by omega), hne _ (by omega), hne _ (by omega), hne _ (by omega)⟩

theorem escapeChar_visible {c d : Char} (h : d ∈ escapeChar c) : 0x20 ≤ d.toNat := by
  have hhex : ∀ n, n < 16 → 0x20 ≤ (hexDigit n).toNat := by decide
  obtain ⟨h0, he⟩ | ⟨-, he⟩ | ⟨-, he⟩ | ⟨-, he⟩ | ⟨-, he⟩ | ⟨-, he⟩ | ⟨-, he⟩ | ⟨-, -, h20, he⟩ := escapeChar_cases c
  all_goals
    rw [he] at h
    simp only [hex4, List.mem_cons, List.not_mem_nil, or_false] at h
  · obtain rfl | rfl := h
    · decide
    · obtain rfl | rfl := h0 <;> decide
  · obtain rfl | rfl := h <;> decide
  · obtain rfl | rfl := h <;> decide
  · obtain rfl | rfl := h <;> decide
  · obtain rfl | rfl := h <;> decide
  · obtain rfl | rfl := h <;> decide
  · obtain rfl | rfl | rfl | rfl | rfl | rfl := h
    · decide
    · decide
    all_goals exact hhex _ (Nat.mod_lt _ (by decide))
  · rw [h]
    exact h20

theorem quote_visible {s : String} {d : Char} (h : d ∈ quote escapeChar s) : 0x20 ≤ d.toNat := by
  simp only [quote, List.mem_cons, List.mem_append, List.mem_flatMap, List.not_mem_nil, or_false] at h
  obtain rfl | ⟨c, -, hd⟩ | rfl := h
  · decide
  · exact escapeChar_visible hd
  · decide

theorem int_visible {n : Int} {d : Char} (h : d ∈ (toString n).toList) : 0x20 ≤ d.toNat := by
  have hdigit : ∀ {c : Char}, c.isDigit = true → 0x20 ≤ c.toNat := by
    intro c hc
    simp only [Char.isDigit, Bool.and_eq_true, decide_eq_true_eq] at hc
    exact Nat.le_trans (by decide) (UInt32.le_iff_toNat_le.mp hc.1)
  cases n with
  | ofNat a => exact hdigit ((whole_repr a).digits d h)
  | negSucc a =>
    have h' : d ∈ ("-" ++ (a + 1).repr).toList := h
    rw [String.toList_append] at h'
    obtain h' | h' := List.mem_append.mp h'
    · obtain rfl : d = '-' := by simpa using h'
      decide
    · exact hdigit ((whole_repr (a + 1)).digits d h')

theorem visible_of_all {l : List Char} (h : (l.all fun d => decide (0x20 ≤ d.toNat)) = true) :
    ∀ d ∈ l, 0x20 ≤ d.toNat := by
  simpa using h

mutual

theorem write_visible : ∀ (v : Json), v.Plain → ∀ d ∈ write escapeChar v, 0x20 ≤ d.toNat
  | .null, _ => visible_of_all rfl
  | .bool true, _ => visible_of_all rfl
  | .bool false, _ => visible_of_all rfl
  | .num literal, hp => by
    obtain ⟨n, rfl⟩ := hp
    exact fun d hd => int_visible hd
  | .str s, _ => fun d hd => quote_visible hd
  | .arr items, hp => by
    intro d hd
    obtain rfl | hd := List.mem_cons.mp hd
    · decide
    · exact writeItems_visible items hp d hd
  | .obj members, hp => by
    intro d hd
    obtain rfl | hd := List.mem_cons.mp hd
    · decide
    · exact writeMembers_visible members hp d hd

theorem writeItems_visible : ∀ (items : List Json), PlainItems items → ∀ d ∈ writeItems escapeChar items, 0x20 ≤ d.toNat
  | [], _ => visible_of_all rfl
  | [v], hp => by
    intro d hd
    simp only [writeItems, List.mem_append, List.mem_singleton] at hd
    obtain hd | rfl := hd
    · exact write_visible v hp.1 d hd
    · decide
  | v :: w :: items, hp => by
    intro d hd
    simp only [writeItems, List.mem_append, List.mem_cons] at hd
    obtain hd | rfl | hd := hd
    · exact write_visible v hp.1 d hd
    · decide
    · exact writeItems_visible (w :: items) hp.2 d hd

theorem writeMembers_visible : ∀ (members : List (String × Json)), PlainMembers members →
    ∀ d ∈ writeMembers escapeChar members, 0x20 ≤ d.toNat
  | [], _ => visible_of_all rfl
  | [(k, v)], hp => by
    intro d hd
    simp only [writeMembers, List.mem_append, List.mem_cons, List.not_mem_nil, or_false] at hd
    obtain hd | rfl | hd | rfl := hd
    · exact quote_visible hd
    · decide
    · exact write_visible v hp.1 d hd
    · decide
  | (k, v) :: m :: members, hp => by
    intro d hd
    simp only [writeMembers, List.mem_append, List.mem_cons] at hd
    obtain hd | rfl | hd | rfl | hd := hd
    · exact quote_visible hd
    · decide
    · exact write_visible v hp.1 d hd
    · decide
    · exact writeMembers_visible (m :: members) hp.2 d hd

end

theorem newline_not_mem_marshal {v : Json} (hp : v.Plain) : (10 : UInt8) ∉ marshal v := by
  rw [marshal, bytesOf_ofList, List.mem_flatMap]
  rintro ⟨c, hc, hmem⟩
  exact newline_not_mem_encode (write_visible v hp c hc) hmem

end Json

end Desk
