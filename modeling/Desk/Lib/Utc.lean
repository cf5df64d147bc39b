import Desk.Lib.Text
import Mathlib.Tactic.IntervalCases
import Mathlib.Data.List.Lex

/-!
# Whole-second UTC times

The source writes every time with the layout `2006-01-02T15:04:05Z` and compares
the texts. On four-digit years the text order is the chronological order
(`format_lt_format`).
-/

namespace Desk

def isLeap (y : Int) : Bool := y % 4 == 0 && (y % 100 != 0 || y % 400 == 0)

def daysIn (y : Int) (m : Nat) : Nat :=
  if m = 2 then (if isLeap y then 29 else 28) else if m ∈ [4, 6, 9, 11] then 30 else 31

/-- The civil fields of a `time.Time` in UTC. -/
structure Utc where
  year : Int
  month : Nat
  day : Nat
  hour : Nat
  minute : Nat
  second : Nat
  month_ok : 1 ≤ month ∧ month ≤ 12
  day_ok : 1 ≤ day ∧ day ≤ daysIn year month
  clock_ok : hour < 24 ∧ minute < 60 ∧ second < 60
deriving DecidableEq

theorem daysIn_le (y : Int) (m : Nat) : daysIn y m ≤ 31 := by
  unfold daysIn; split
  · split <;> decide
  · split <;> decide

/-! ## Writing -/

def two (n : Nat) : List Char := [Nat.digitChar (n / 10), Nat.digitChar (n % 10)]

def four (n : Nat) : List Char := two (n / 100) ++ two (n % 100)

def yearText (y : Int) : List Char :=
  if 0 ≤ y then (if y < 10000 then four y.toNat else (Nat.repr y.toNat).toList)
  else '-' :: (if -y < 10000 then four (-y).toNat else (Nat.repr (-y).toNat).toList)

namespace Utc

def chars (t : Utc) : List Char :=
  yearText t.year ++ '-' :: (two t.month ++ '-' :: (two t.day ++ 'T' :: (two t.hour ++ ':' ::
    (two t.minute ++ ':' :: (two t.second ++ ['Z'])))))

/-- `t.Format("2006-01-02T15:04:05Z")`. -/
def format (t : Utc) : String := String.ofList t.chars

end Utc

/-! ## Reading -/

def digit? (c : Char) : Option Nat := if c.isDigit then some (c.toNat - 48) else none

/-- `getnum` of Go's `time`: two digits, or one where the layout does not fix the width. -/
def getnum (fixed : Bool) : List Char → Option (Nat × List Char)
  | a :: b :: rest =>
    match digit? a, digit? b with
    | some x, some y => some (10 * x + y, rest)
    | some x, none => if fixed then none else some (x, b :: rest)
    | none, _ => none
  | [a] => if fixed then none else (digit? a).map (·, [])
  | [] => none

def getyear : List Char → Option (Nat × List Char)
  | a :: b :: c :: d :: rest => do
    let (x, _) ← getnum true [a, b]
    let (y, _) ← getnum true [c, d]
    pure (100 * x + y, rest)
  | _ => none

def skip (c : Char) : List Char → Option (List Char)
  | a :: rest => if a = c then some rest else none
  | [] => none

/-- `time.Parse` takes a fraction of a second even where the layout has none. -/
def skipFraction : List Char → List Char
  | c :: d :: rest =>
    if (c == '.' || c == ',') && d.isDigit then rest.dropWhile Char.isDigit else c :: d :: rest
  | l => l

def Utc.ofFields (y : Int) (mo d h mi s : Nat) : Option Utc :=
  if hm : 1 ≤ mo ∧ mo ≤ 12 then
    if hd : 1 ≤ d ∧ d ≤ daysIn y mo then
      if hc : h < 24 ∧ mi < 60 ∧ s < 60 then some ⟨y, mo, d, h, mi, s, hm, hd, hc⟩ else none
    else none
  else none

def Utc.parseChars (l : List Char) : Option Utc := do
  let (y, l) ← getyear l
  let l ← skip '-' l
  let (mo, l) ← getnum true l
  let l ← skip '-' l
  let (d, l) ← getnum true l
  let l ← skip 'T' l
  let (h, l) ← getnum false l
  let l ← skip ':' l
  let (mi, l) ← getnum true l
  let l ← skip ':' l
  let (s, l) ← getnum true l
  let l ← skip 'Z' (skipFraction l)
  if l.isEmpty then Utc.ofFields y mo d h mi s else none

/-- `time.Parse("2006-01-02T15:04:05Z", s)`, less the fraction of a second. -/
def Utc.parse (s : String) : Option Utc := Utc.parseChars s.toList

/-- A zone of the layout `Z07:00`. -/
def zoneForm : List Char → Bool
  | ['Z'] => true
  | [sign, a, b, ':', c, d] =>
    (sign == '+' || sign == '-') &&
      match getnum true [a, b], getnum true [c, d] with
      | some (h, _), some (m, _) => decide (h ≤ 24) && decide (m ≤ 60)
      | _, _ => false
  | _ => false

def rfc3339Chars (l : List Char) : Option Utc := do
  let (y, l) ← getyear l
  let l ← skip '-' l
  let (mo, l) ← getnum true l
  let l ← skip '-' l
  let (d, l) ← getnum true l
  let l ← skip 'T' l
  let (h, l) ← getnum false l
  let l ← skip ':' l
  let (mi, l) ← getnum true l
  let l ← skip ':' l
  let (s, l) ← getnum true l
  if zoneForm (skipFraction l) then Utc.ofFields y mo d h mi s else none

/-- `time.Parse(time.RFC3339Nano, s)` gives no error. -/
def rfc3339Nano (s : String) : Bool := (rfc3339Chars s.toList).isSome

/-! ## What is written is read back -/

theorem digit?_digitChar {n : Nat} (h : n < 10) : digit? (Nat.digitChar n) = some n := by
  interval_cases n <;> rfl

theorem getnum_two (fixed : Bool) {n : Nat} (h : n < 100) (rest : List Char) :
    getnum fixed (two n ++ rest) = some (n, rest) := by
  have h₁ : n / 10 < 10 := by omega
  have h₂ : n % 10 < 10 := by omega
  simp only [two, List.cons_append, List.nil_append, getnum, digit?_digitChar h₁, digit?_digitChar h₂]
  rw [Nat.div_add_mod]

theorem getyear_four {n : Nat} (h : n < 10000) (rest : List Char) :
    getyear (four n ++ rest) = some (n, rest) := by
  have h₁ := getnum_two true (show n / 100 < 100 by omega) []
  have h₂ := getnum_two true (show n % 100 < 100 by omega) []
  rw [List.append_nil] at h₁ h₂
  simp only [two] at h₁ h₂
  simp only [four, two, List.cons_append, List.nil_append, getyear, h₁, h₂, Option.bind_eq_bind,
    Option.bind_some, Option.pure_def]
  rw [Nat.div_add_mod]

theorem skip_cons (c : Char) (rest : List Char) : skip c (c :: rest) = some rest := by simp [skip]

namespace Utc

/-- A reading the layout writes with twenty characters. -/
def FourDigit (t : Utc) : Prop := 0 ≤ t.year ∧ t.year < 10000

instance (t : Utc) : Decidable t.FourDigit := inferInstanceAs (Decidable (_ ∧ _))

theorem ofFields_self (t : Utc) :
    ofFields t.year t.month t.day t.hour t.minute t.second = some t := by
  simp [ofFields, t.month_ok, t.day_ok, t.clock_ok]

theorem month_lt (t : Utc) : t.month < 100 := by have := t.month_ok; omega

theorem day_lt (t : Utc) : t.day < 100 := by
  have := t.day_ok; have := daysIn_le t.year t.month; omega

theorem parse_format {t : Utc} (h : t.FourDigit) : parse t.format = some t := by
  obtain ⟨h₀, h₁⟩ := h
  obtain ⟨hh, hm, hs⟩ := t.clock_ok
  have hy : t.year.toNat < 10000 := by omega
  have hf : skipFraction ['Z'] = ['Z'] := rfl
  simp only [parse, format, String.toList_ofList, chars, yearText, h₀, h₁, ite_true, parseChars,
    getyear_four hy, getnum_two _ t.month_lt, getnum_two _ t.day_lt,
    getnum_two _ (show t.hour < 100 by omega), getnum_two _ (show t.minute < 100 by omega),
    getnum_two _ (show t.second < 100 by omega), skip_cons, hf, Option.bind_eq_bind,
    Option.bind_some, List.isEmpty_nil, Int.toNat_of_nonneg h₀, ofFields_self]

theorem utf8Size_digitChar (n : Nat) : (Nat.digitChar n).utf8Size = 1 := by
  simp only [Nat.digitChar, apply_ite Char.utf8Size]
  simp [Char.utf8Size]

theorem len_format {t : Utc} (h : t.FourDigit) : len t.format = 20 := by
  rw [len, format, String.utf8ByteSize_ofList]
  simp [chars, yearText, h.1, h.2, four, two, String.utf8Len, utf8Size_digitChar]
  rfl

end Utc

/-! ## Text order and chronological order -/

theorem append_lt_append {a b r s : List Char} (h : a.length = b.length) :
    a ++ r < b ++ s ↔ a < b ∨ a = b ∧ r < s := by
  induction a generalizing b with
  | nil =>
    cases b with
    | nil => simp
    | cons _ _ => simp at h
  | cons x a ih =>
    cases b with
    | nil => simp at h
    | cons y b =>
      simp only [List.length_cons, Nat.add_right_cancel_iff] at h
      simp only [List.cons_append, List.cons_lt_cons_iff, ih h, List.cons.injEq]
      constructor
      · rintro (hl | ⟨rfl, hl | ⟨rfl, hl⟩⟩)
        · exact Or.inl (Or.inl hl)
        · exact Or.inl (Or.inr ⟨rfl, hl⟩)
        · exact Or.inr ⟨⟨rfl, rfl⟩, hl⟩
      · rintro ((hl | ⟨rfl, hl⟩) | ⟨⟨rfl, rfl⟩, hl⟩)
        · exact Or.inl hl
        · exact Or.inr ⟨rfl, Or.inl hl⟩
        · exact Or.inr ⟨rfl, Or.inr ⟨rfl, hl⟩⟩

theorem digitChar_lt {m n : Nat} (hm : m < 10) (hn : n < 10) :
    Nat.digitChar m < Nat.digitChar n ↔ m < n := by
  have key : ∀ m n : Fin 10, Nat.digitChar m < Nat.digitChar n ↔ m < n := by decide
  exact key ⟨m, hm⟩ ⟨n, hn⟩

theorem digitChar_inj {m n : Nat} (hm : m < 10) (hn : n < 10) :
    Nat.digitChar m = Nat.digitChar n ↔ m = n := by
  constructor
  · intro h
    have := digit?_digitChar hm
    rw [h, digit?_digitChar hn] at this
    exact (Option.some.inj this).symm
  · rintro rfl; rfl

theorem two_lt {m n : Nat} (hm : m < 100) (hn : n < 100) : two m < two n ↔ m < n := by
  have hm₁ : m / 10 < 10 := by omega
  have hn₁ : n / 10 < 10 := by omega
  have hm₂ : m % 10 < 10 := by omega
  have hn₂ : n % 10 < 10 := by omega
  simp only [two, List.cons_lt_cons_iff, digitChar_lt hm₁ hn₁, digitChar_lt hm₂ hn₂,
    digitChar_inj hm₁ hn₁, List.not_lt_nil, and_false, or_false]
  omega

theorem two_inj {m n : Nat} (hm : m < 100) (hn : n < 100) : two m = two n ↔ m = n := by
  constructor
  · intro h
    have := getnum_two true hm []
    rw [h, getnum_two true hn []] at this
    simpa using this.symm
  · rintro rfl; rfl

theorem four_lt {m n : Nat} (hm : m < 10000) (hn : n < 10000) : four m < four n ↔ m < n := by
  rw [four, four, append_lt_append (by simp [two]), two_lt (by omega) (by omega),
    two_inj (by omega) (by omega), two_lt (by omega) (by omega)]
  omega

theorem four_inj {m n : Nat} (hm : m < 10000) (hn : n < 10000) : four m = four n ↔ m = n := by
  constructor
  · intro h
    have := getyear_four hm []
    rw [h, getyear_four hn []] at this
    simpa using this.symm
  · rintro rfl; rfl

namespace Utc

/-- Chronological order. -/
instance : LT Utc where
  lt a b := a.year < b.year ∨ a.year = b.year ∧ (a.month < b.month ∨ a.month = b.month ∧
    (a.day < b.day ∨ a.day = b.day ∧ (a.hour < b.hour ∨ a.hour = b.hour ∧
      (a.minute < b.minute ∨ a.minute = b.minute ∧ a.second < b.second))))

theorem lt_def (a b : Utc) : a < b ↔ a.year < b.year ∨ a.year = b.year ∧ (a.month < b.month ∨
    a.month = b.month ∧ (a.day < b.day ∨ a.day = b.day ∧ (a.hour < b.hour ∨ a.hour = b.hour ∧
      (a.minute < b.minute ∨ a.minute = b.minute ∧ a.second < b.second)))) := Iff.rfl

theorem cons_lt_cons_self {c : Char} {r s : List Char} : c :: r < c :: s ↔ r < s := by
  simp

theorem format_lt_format {a b : Utc} (ha : a.FourDigit) (hb : b.FourDigit) :
    a.format < b.format ↔ a < b := by
  obtain ⟨ha₀, ha₁⟩ := ha
  obtain ⟨hb₀, hb₁⟩ := hb
  obtain ⟨hah, ham, has⟩ := a.clock_ok
  obtain ⟨hbh, hbm, hbs⟩ := b.clock_ok
  have hy : a.year < b.year ↔ a.year.toNat < b.year.toNat := by omega
  have hy' : a.year = b.year ↔ a.year.toNat = b.year.toNat := by omega
  have two_len : ∀ m n, (two m).length = (two n).length := fun _ _ => rfl
  have four_len : ∀ m n, (four m).length = (four n).length := fun _ _ => rfl
  rw [lt_def, String.lt_iff_toList_lt, hy, hy']
  simp only [format, String.toList_ofList, chars, yearText, ha₀, ha₁, hb₀, hb₁, ite_true]
  rw [append_lt_append (four_len _ _), four_lt (by omega) (by omega), four_inj (by omega) (by omega),
    cons_lt_cons_self, append_lt_append (two_len _ _), two_lt a.month_lt b.month_lt,
    two_inj a.month_lt b.month_lt, cons_lt_cons_self, append_lt_append (two_len _ _),
    two_lt a.day_lt b.day_lt, two_inj a.day_lt b.day_lt, cons_lt_cons_self,
    append_lt_append (two_len _ _), two_lt (by omega) (by omega), two_inj (by omega) (by omega),
    cons_lt_cons_self, append_lt_append (two_len _ _), two_lt (by omega) (by omega),
    two_inj (by omega) (by omega), cons_lt_cons_self, append_lt_append (two_len _ _),
    two_lt (by omega) (by omega), two_inj (by omega) (by omega)]
  simp

end Utc

end Desk
