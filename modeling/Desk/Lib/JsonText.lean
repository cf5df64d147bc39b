import Mathlib.Data.List.TakeWhile
import Desk.Lib.Units

/-!
# JSON texts

A JSON text as a tree that keeps every unit: its layout, the pieces of its
strings and the literals of its numbers.
-/

namespace Desk

/-! ## Units of a text -/

def isLayout (u : UInt16) : Bool := u == unit ' ' || u == unit '\t' || u == unit '\n' || u == unit '\r'

def isDigit (u : UInt16) : Bool := decide (unit '0' ≤ u ∧ u ≤ unit '9')

/-- What a number literal is made of. -/
def isNumeric (u : UInt16) : Bool :=
  isDigit u || u == unit 'e' || u == unit 'E' || u == unit '+' || u == unit '-' || u == unit '.'

/-- The quotation mark and the backslash. -/
def quoteUnit : UInt16 := 0x22

def escapeUnit : UInt16 := 0x5c

def hexDigitValue (u : UInt16) : Option Nat :=
  if isDigit u then some (u.toNat - 48)
  else if unit 'a' ≤ u ∧ u ≤ unit 'f' then some (u.toNat - 87)
  else if unit 'A' ≤ u ∧ u ≤ unit 'F' then some (u.toNat - 55)
  else none

/-- The unit that four hexadecimal digits denote. -/
def hexUnits (a b c d : UInt16) : Option UInt16 := do
  let a ← hexDigitValue a
  let b ← hexDigitValue b
  let c ← hexDigitValue c
  let d ← hexDigitValue d
  return UInt16.ofNat (((a * 16 + b) * 16 + c) * 16 + d)

/-- The unit that an escape of one character denotes. -/
def shortEscape (u : UInt16) : Option UInt16 :=
  if u = quoteUnit ∨ u = escapeUnit ∨ u = unit '/' then some u
  else if u = unit 'b' then some 0x08
  else if u = unit 'f' then some 0x0c
  else if u = unit 'n' then some 0x0a
  else if u = unit 'r' then some 0x0d
  else if u = unit 't' then some 0x09
  else none

/-- A unit that stands for itself inside a string. -/
def isPlain (u : UInt16) : Bool := decide (0x20 ≤ u) && u != quoteUnit && u != escapeUnit

/-! ## Number literals -/

/-- What is left after the digits of a whole number. -/
def afterWhole : Units → Option Units
  | [] => none
  | c :: rest =>
    if c = unit '0' then some rest
    else if isDigit c then some (rest.dropWhile isDigit)
    else none

/-- What is left after one digit or more. -/
def afterDigits : Units → Option Units
  | [] => none
  | c :: rest => if isDigit c then some (rest.dropWhile isDigit) else none

def afterFraction : Units → Option Units
  | [] => some []
  | c :: rest => if c = unit '.' then afterDigits rest else some (c :: rest)

def afterSign : Units → Units
  | [] => []
  | c :: rest => if c = unit '+' ∨ c = unit '-' then rest else c :: rest

def afterExponent : Units → Option Units
  | [] => some []
  | c :: rest => if c = unit 'e' ∨ c = unit 'E' then afterDigits (afterSign rest) else some (c :: rest)

def afterMinus : Units → Units
  | [] => []
  | c :: rest => if c = unit '-' then rest else c :: rest

/-- `^-?(0|[1-9][0-9]*)(\.[0-9]+)?([eE][+-]?[0-9]+)?$` -/
def numberForm (l : Units) : Bool :=
  ((afterWhole (afterMinus l)).bind fun l => (afterFraction l).bind afterExponent) == some []

/-- `^-?(0|[1-9][0-9]*)$` -/
def integerForm (l : Units) : Bool := afterWhole (afterMinus l) == some []

/-! ## The tree of a text -/

abbrev Layout : Type := { l : Units // l.all isLayout = true }

abbrev Numeral : Type := { l : Units // numberForm l = true }

/-- One unit of a string, as it is written. -/
inductive Piece where
  | plain (u : UInt16) (h : isPlain u = true)
  | short (e u : UInt16) (h : shortEscape e = some u)
  | hex (a b c d u : UInt16) (h : hexUnits a b c d = some u)

namespace Piece

def text : Piece → Units
  | plain u _ => [u]
  | short e _ _ => [escapeUnit, e]
  | hex a b c d _ _ => [escapeUnit, unit 'u', a, b, c, d]

/-- The unit that is meant. -/
def unit : Piece → UInt16
  | plain u _ => u
  | short _ u _ => u
  | hex _ _ _ _ u _ => u

end Piece

/-- The text of a string between its quotes, and the string. -/
def piecesText (ps : List Piece) : Units := ps.flatMap Piece.text

def piecesUnits (ps : List Piece) : Units := ps.map Piece.unit

mutual

inductive Cst where
  | null
  | bool (b : Bool)
  | num (n : Numeral)
  | str (ps : List Piece)
  | noItems (l : Layout)
  | arr (items : CstItems)
  | noMembers (l : Layout)
  | obj (members : CstMembers)

inductive CstItems where
  | last (pre : Layout) (v : Cst) (post : Layout)
  | cons (pre : Layout) (v : Cst) (post : Layout) (rest : CstItems)

inductive CstMembers where
  | last (pre : Layout) (name : List Piece) (mid sep : Layout) (v : Cst) (post : Layout)
  | cons (pre : Layout) (name : List Piece) (mid sep : Layout) (v : Cst) (post : Layout) (rest : CstMembers)

end

def noLayout : Layout := ⟨[], rfl⟩

/-- A string with its quotes. -/
def quotedText (ps : List Piece) : Units := quoteUnit :: (piecesText ps ++ [quoteUnit])

def wordText (w : String) : Units := w.toList.map unit

mutual

def Cst.text : Cst → Units
  | .null => wordText "null"
  | .bool b => wordText (if b then "true" else "false")
  | .num n => n.1
  | .str ps => quotedText ps
  | .noItems l => unit '[' :: (l.1 ++ [unit ']'])
  | .arr items => unit '[' :: items.text
  | .noMembers l => unit '\x7b' :: (l.1 ++ [unit '\x7d'])
  | .obj members => unit '\x7b' :: members.text

def CstItems.text : CstItems → Units
  | .last pre v post => pre.1 ++ (v.text ++ (post.1 ++ [unit ']']))
  | .cons pre v post rest => pre.1 ++ (v.text ++ (post.1 ++ (unit ',' :: rest.text)))

def CstMembers.text : CstMembers → Units
  | .last pre name mid sep v post =>
    pre.1 ++ (quotedText name ++ (mid.1 ++ (unit ':' :: (sep.1 ++ (v.text ++ (post.1 ++ [unit '\x7d']))))))
  | .cons pre name mid sep v post rest =>
    pre.1 ++ (quotedText name ++ (mid.1 ++ (unit ':' :: (sep.1 ++ (v.text ++ (post.1 ++ (unit ',' :: rest.text)))))))

end

theorem hexDigitValue_ne {u : UInt16} {n : Nat} (h : hexDigitValue u = some n) : u ≠ quoteUnit ∧ u ≠ escapeUnit := by
  constructor
  · rintro rfl
    have hnone : hexDigitValue quoteUnit = none := by decide
    rw [hnone] at h
    cases h
  · rintro rfl
    have hnone : hexDigitValue escapeUnit = none := by decide
    rw [hnone] at h
    cases h

/-! ## Number literals are runs of their units -/

theorem isNumeric_of_isLayout {u : UInt16} (h : isLayout u = true) : isNumeric u = false := by
  simp only [isLayout, Bool.or_eq_true, beq_iff_eq] at h
  rcases h with ((h | h) | h) | h <;> rw [h] <;> decide

theorem isDigit_iff {u : UInt16} : isDigit u = true ↔ 48 ≤ u.toNat ∧ u.toNat ≤ 57 := by
  simp [isDigit, UInt16.le_iff_toNat_le, unit]

/-- A number literal starts with its sign or with a digit. -/
theorem numeral_head (n : Numeral) : ∃ u rest, n.1 = u :: rest ∧ (u = unit '-' ∨ isDigit u = true) := by
  obtain ⟨l, hl⟩ := n
  cases l with
  | nil => exact absurd hl (by decide)
  | cons u rest =>
    refine ⟨u, rest, rfl, ?_⟩
    by_cases hu : u = unit '-'
    · exact Or.inl hu
    · refine Or.inr ?_
      rw [numberForm, afterMinus, if_neg hu, afterWhole] at hl
      split at hl
      · rename_i h0
        rw [h0]
        decide
      · split at hl
        · assumption
        · exact absurd hl (by decide)

theorem isNumeric_of_isDigit {u : UInt16} (h : isDigit u = true) : isNumeric u = true := by
  rw [isNumeric, h]
  rfl

/-- What a step of a literal takes. -/
def Takes (l rest : Units) : Prop := ∃ taken, l = taken ++ rest ∧ ∀ u ∈ taken, isNumeric u = true

theorem Takes.refl (l : Units) : Takes l l := ⟨[], rfl, nofun⟩

theorem Takes.trans {a b c : Units} (hab : Takes a b) (hbc : Takes b c) : Takes a c := by
  obtain ⟨p, rfl, hp⟩ := hab
  obtain ⟨q, rfl, hq⟩ := hbc
  refine ⟨p ++ q, by rw [List.append_assoc], fun u hu => ?_⟩
  rcases List.mem_append.mp hu with h | h
  · exact hp u h
  · exact hq u h

theorem takes_cons {u : UInt16} (h : isNumeric u = true) (rest : Units) : Takes (u :: rest) rest :=
  ⟨[u], rfl, fun _ hv => by rw [List.mem_singleton.mp hv, h]⟩

theorem takes_digits (l : Units) : Takes l (l.dropWhile isDigit) :=
  ⟨l.takeWhile isDigit, List.takeWhile_append_dropWhile.symm, fun _ hu =>
    isNumeric_of_isDigit (List.mem_takeWhile_imp hu)⟩

theorem takes_afterMinus (l : Units) : Takes l (afterMinus l) := by
  cases l with
  | nil => exact Takes.refl _
  | cons c rest =>
    rw [afterMinus]
    split
    · rename_i h
      exact takes_cons (by rw [h]; decide) _
    · exact Takes.refl _

theorem takes_afterSign (l : Units) : Takes l (afterSign l) := by
  cases l with
  | nil => exact Takes.refl _
  | cons c rest =>
    rw [afterSign]
    split
    · rename_i h
      rcases h with h | h <;> exact takes_cons (by rw [h]; decide) _
    · exact Takes.refl _

theorem takes_afterDigits {l rest : Units} (h : afterDigits l = some rest) : Takes l rest := by
  cases l with
  | nil => cases h
  | cons c more =>
    rw [afterDigits] at h
    split at h
    · rename_i hc
      rw [← Option.some.inj h]
      exact (takes_cons (isNumeric_of_isDigit hc) _).trans (takes_digits _)
    · cases h

theorem takes_afterWhole {l rest : Units} (h : afterWhole l = some rest) : Takes l rest := by
  cases l with
  | nil => cases h
  | cons c more =>
    rw [afterWhole] at h
    split at h
    · rename_i hc
      rw [← Option.some.inj h]
      exact takes_cons (by rw [hc]; decide) _
    · split at h
      · rename_i hc
        rw [← Option.some.inj h]
        exact (takes_cons (isNumeric_of_isDigit hc) _).trans (takes_digits _)
      · cases h

theorem takes_afterFraction {l rest : Units} (h : afterFraction l = some rest) : Takes l rest := by
  cases l with
  | nil => rw [← Option.some.inj h]; exact Takes.refl _
  | cons c more =>
    rw [afterFraction] at h
    split at h
    · rename_i hc
      exact (takes_cons (by rw [hc]; decide) _).trans (takes_afterDigits h)
    · rw [← Option.some.inj h]
      exact Takes.refl _

theorem takes_afterExponent {l rest : Units} (h : afterExponent l = some rest) : Takes l rest := by
  cases l with
  | nil => rw [← Option.some.inj h]; exact Takes.refl _
  | cons c more =>
    rw [afterExponent] at h
    split at h
    · rename_i hc
      have hcons : Takes (c :: more) more := by rcases hc with hc | hc <;> exact takes_cons (by rw [hc]; decide) _
      exact (hcons.trans (takes_afterSign _)).trans (takes_afterDigits h)
    · rw [← Option.some.inj h]
      exact Takes.refl _

theorem all_isNumeric {l : Units} (h : numberForm l = true) : ∀ u ∈ l, isNumeric u = true := by
  rw [numberForm, beq_iff_eq, Option.bind_eq_some_iff] at h
  obtain ⟨a, ha, h⟩ := h
  obtain ⟨b, hb, hc⟩ := Option.bind_eq_some_iff.mp h
  obtain ⟨taken, ht, hall⟩ := (takes_afterMinus l).trans ((takes_afterWhole ha).trans
    ((takes_afterFraction hb).trans (takes_afterExponent hc)))
  rw [List.append_nil] at ht
  rw [ht]
  exact hall

theorem numberForm_of_integerForm {l : Units} (h : integerForm l = true) : numberForm l = true := by
  rw [integerForm, beq_iff_eq] at h
  rw [numberForm, h]
  rfl

/-! ## Surrogates of a text -/

mutual

/-- Whether every string and every name is written as `p` wants. -/
def Cst.strings (p : List Piece → Bool) : Cst → Bool
  | .str ps => p ps
  | .arr items => items.strings p
  | .obj members => members.strings p
  | _ => true

def CstItems.strings (p : List Piece → Bool) : CstItems → Bool
  | .last _ v _ => v.strings p
  | .cons _ v _ rest => v.strings p && rest.strings p

def CstMembers.strings (p : List Piece → Bool) : CstMembers → Bool
  | .last _ name _ _ v _ => p name && v.strings p
  | .cons _ name _ _ v _ rest => p name && (v.strings p && rest.strings p)

end

theorem isPlane_iff {u : UInt16} : isPlane u = true ↔ u.toNat < 0xd800 ∨ 0xdfff < u.toNat := by
  rw [isPlane, Bool.and_eq_true, Bool.not_eq_true', Bool.not_eq_true', ← Bool.not_eq_true, ← Bool.not_eq_true,
    isHigh_iff, isLow_iff]
  omega

theorem isPlane_of_isLayout {u : UInt16} (h : isLayout u = true) : isPlane u = true := by
  simp only [isLayout, Bool.or_eq_true, beq_iff_eq] at h
  rcases h with ((h | h) | h) | h <;> rw [h] <;> decide

theorem isPlane_of_isNumeric {u : UInt16} (h : isNumeric u = true) : isPlane u = true := by
  simp only [isNumeric, Bool.or_eq_true, beq_iff_eq] at h
  rcases h with ((((h | h) | h) | h) | h) | h
  · rw [isDigit_iff] at h
    rw [isPlane_iff]
    omega
  all_goals rw [h]; decide

theorem paired_layout (l : Layout) (rest : Units) : paired (l.1 ++ rest) = paired rest :=
  paired_append (fun u hu => isPlane_of_isLayout (List.all_eq_true.mp l.2 u hu)) rest

theorem paired_quoted (ps : List Piece) (rest : Units) :
    paired (quotedText ps ++ rest) = (paired (piecesText ps) && paired rest) := by
  rw [quotedText, List.cons_append, paired_cons (by decide), List.append_assoc, List.singleton_append,
    paired_split _ (by decide)]

def pairedText (ps : List Piece) : Bool := paired (piecesText ps)

theorem word_plane {w : String} (h : (wordText w).all isPlane = true) (rest : Units) :
    paired (wordText w ++ rest) = paired rest :=
  paired_append (List.all_eq_true.mp h) rest

mutual

/-- The surrogates of a text are paired when those of its strings are. -/
theorem Cst.paired_text : ∀ (c : Cst) (rest : Units), paired (c.text ++ rest) = (c.strings pairedText && paired rest)
  | .null, rest => by
    rw [Cst.text, word_plane rfl]
    rfl
  | .bool b, rest => by
    cases b
    · exact word_plane rfl rest
    · exact word_plane rfl rest
  | .num n, rest => by rw [Cst.text, paired_append fun u hu => isPlane_of_isNumeric (all_isNumeric n.2 u hu)]; rfl
  | .str ps, rest => by rw [Cst.text, paired_quoted]; rfl
  | .noItems l, rest => by
    rw [Cst.text, List.cons_append, paired_cons (by decide), List.append_assoc, paired_layout, List.singleton_append,
      paired_cons (by decide)]
    rfl
  | .arr items, rest => by rw [Cst.text, List.cons_append, paired_cons (by decide), items.paired_text]; rfl
  | .noMembers l, rest => by
    rw [Cst.text, List.cons_append, paired_cons (by decide), List.append_assoc, paired_layout, List.singleton_append,
      paired_cons (by decide)]
    rfl
  | .obj members, rest => by rw [Cst.text, List.cons_append, paired_cons (by decide), members.paired_text]; rfl

theorem CstItems.paired_text : ∀ (c : CstItems) (rest : Units),
    paired (c.text ++ rest) = (c.strings pairedText && paired rest)
  | .last pre v post, rest => by
    simp only [CstItems.text, List.append_assoc, List.singleton_append]
    rw [paired_layout, v.paired_text, paired_layout, paired_cons (by decide)]
    rfl
  | .cons pre v post more, rest => by
    simp only [CstItems.text, List.append_assoc, List.cons_append]
    rw [paired_layout, v.paired_text, paired_layout, paired_cons (by decide), more.paired_text, ← Bool.and_assoc]
    rfl

theorem CstMembers.paired_text : ∀ (c : CstMembers) (rest : Units),
    paired (c.text ++ rest) = (c.strings pairedText && paired rest)
  | .last pre name mid sep v post, rest => by
    simp only [CstMembers.text, List.append_assoc, List.cons_append, List.nil_append]
    rw [paired_layout, paired_quoted, paired_layout, paired_cons (by decide), paired_layout, v.paired_text, paired_layout,
      paired_cons (by decide), ← Bool.and_assoc]
    rfl
  | .cons pre name mid sep v post more, rest => by
    simp only [CstMembers.text, List.append_assoc, List.cons_append]
    rw [paired_layout, paired_quoted, paired_layout, paired_cons (by decide), paired_layout, v.paired_text, paired_layout,
      paired_cons (by decide), more.paired_text, CstMembers.strings, Bool.and_assoc, Bool.and_assoc]
    rfl

end

/-! ## Integer literals -/

def digitsValue (l : Units) : Nat := l.foldl (fun n u => 10 * n + (u.toNat - 48)) 0

/-- `BigInt(literal)` for the literals of `integerForm`. -/
def literalInt : Units → Int
  | [] => 0
  | c :: rest => if c = unit '-' then -(digitsValue rest : Int) else digitsValue (c :: rest)

def natText (n : Nat) : Units := (Nat.toDigits 10 n).map unit

/-- `BigInt.prototype.toString`. -/
def intText (n : Int) : Units := if n < 0 then unit '-' :: natText n.natAbs else natText n.natAbs

theorem isDigit_unit {c : Char} (h : c.isDigit = true) : isDigit (unit c) = true := by
  simp only [Char.isDigit, Bool.and_eq_true, decide_eq_true_eq, UInt32.le_iff_toNat_le] at h
  have hc : c.toNat ≤ 57 := h.2
  have hu : (unit c).toNat = c.toNat := toNat_unit (by omega)
  rw [isDigit_iff, hu]
  exact h

theorem natText_digits (n : Nat) : ∀ u ∈ natText n, isDigit u = true := by
  intro u hu
  obtain ⟨c, hc, rfl⟩ := List.mem_map.mp hu
  exact isDigit_unit (Nat.isDigit_of_mem_toDigits (by decide) (by decide) hc)

theorem digitsValue_natText (n : Nat) : digitsValue (natText n) = n := by
  have hfold : ∀ (l : List Char) (a : Nat), (∀ c ∈ l, c.isDigit = true) →
      (l.map unit).foldl (fun n u => 10 * n + (u.toNat - 48)) a = Nat.ofDigitChars 10 l a := by
    intro l
    induction l with
    | nil => intro a _; rfl
    | cons c l ih =>
      intro a hl
      have hc := isDigit_iff.mp (isDigit_unit (hl c List.mem_cons_self))
      have hdigit := hl c List.mem_cons_self
      simp only [Char.isDigit, Bool.and_eq_true, decide_eq_true_eq, UInt32.le_iff_toNat_le] at hdigit
      have hle : c.toNat ≤ 57 := hdigit.2
      have hu : (unit c).toNat = c.toNat := toNat_unit (by omega)
      rw [List.map_cons, List.foldl_cons, Nat.ofDigitChars_cons, hu]
      exact ih _ fun d hd => hl d (List.mem_cons_of_mem _ hd)
  rw [digitsValue, natText, hfold _ _ fun c hc => Nat.isDigit_of_mem_toDigits (by decide) (by decide) hc]
  exact Nat.ofDigitChars_ten_toDigits

theorem digitChar_ne_zero : ∀ n < 10, 0 < n → unit (Nat.digitChar n) ≠ unit '0' := by decide

/-- No leading zero. -/
theorem natText_head (n : Nat) (h : 0 < n) : ∃ c rest, natText n = c :: rest ∧ c ≠ unit '0' := by
  induction n using Nat.strongRecOn with
  | ind n ih =>
    rw [natText, Nat.toDigits_eq_if (by decide)]
    split
    · rename_i hn
      exact ⟨unit n.digitChar, [], rfl, digitChar_ne_zero n hn h⟩
    · rename_i hn
      obtain ⟨c, rest, hc, hne⟩ := ih (n / 10) (by omega) (by omega)
      refine ⟨c, rest ++ [unit (n % 10).digitChar], ?_, hne⟩
      rw [natText] at hc
      rw [List.map_append, hc]
      rfl

theorem afterWhole_natText (n : Nat) : afterWhole (natText n) = some [] := by
  cases n with
  | zero => rfl
  | succ n =>
    have hall := natText_digits (n + 1)
    obtain ⟨c, rest, hc, hne⟩ := natText_head (n + 1) (Nat.succ_pos n)
    rw [hc] at hall ⊢
    have hdrop : rest.dropWhile isDigit = [] := by
      rw [List.dropWhile_eq_nil_iff]
      exact fun u hu => hall u (List.mem_cons_of_mem _ hu)
    rw [afterWhole, if_neg hne, if_pos (hall c List.mem_cons_self), hdrop]

theorem natText_ne_minus (n : Nat) : ∃ c rest, natText n = c :: rest ∧ c ≠ unit '-' := by
  have hne : natText n ≠ [] := by
    rw [natText, ne_eq, List.map_eq_nil_iff]
    exact Nat.toDigits_ne_nil
  obtain ⟨c, rest, hc⟩ := List.exists_cons_of_ne_nil hne
  refine ⟨c, rest, hc, fun h => ?_⟩
  have hd := natText_digits n c (hc ▸ List.mem_cons_self)
  rw [h] at hd
  exact absurd hd (by decide)

theorem integerForm_intText (n : Int) : integerForm (intText n) = true := by
  rw [integerForm, beq_iff_eq, intText]
  split
  · rw [afterMinus, if_pos rfl]
    exact afterWhole_natText _
  · obtain ⟨c, rest, hc, hne⟩ := natText_ne_minus n.natAbs
    have hw := afterWhole_natText n.natAbs
    rw [hc] at hw ⊢
    rw [afterMinus, if_neg hne]
    exact hw

theorem numberForm_intText (n : Int) : numberForm (intText n) = true := numberForm_of_integerForm (integerForm_intText n)

theorem literalInt_intText (n : Int) : literalInt (intText n) = n := by
  rw [intText]
  split
  · rw [literalInt, if_pos rfl, digitsValue_natText]
    omega
  · obtain ⟨c, rest, hc, hne⟩ := natText_ne_minus n.natAbs
    have hv := digitsValue_natText n.natAbs
    rw [hc] at hv ⊢
    rw [literalInt, if_neg hne, hv]
    omega

theorem intText_injective {m n : Int} (h : intText m = intText n) : m = n := by
  rw [← literalInt_intText m, h, literalInt_intText]

end Desk
