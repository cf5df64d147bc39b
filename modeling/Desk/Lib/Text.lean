import Mathlib.Data.String.Basic
import Std.Data.String.ToNat

/-!
# Text as Go reads it

Go's `len` counts bytes of the UTF-8 encoding, so every length bound of the
source is a bound on `len`. Anchored regular expressions over one character
class become `hexForm` and `wordForm`.
-/

namespace Desk

def len (s : String) : Nat := s.utf8ByteSize

@[simp] theorem len_empty : len "" = 0 := rfl

@[simp] theorem len_append (s t : String) : len (s ++ t) = len s + len t :=
  String.utf8ByteSize_append

def bytesOf (s : String) : List UInt8 := s.toByteArray.data.toList

theorem length_bytesOf (s : String) : (bytesOf s).length = len s := by
  rw [bytesOf, Array.length_toList, len, ← String.size_toByteArray, ByteArray.size]

/-- Leaving characters out makes no text longer. -/
theorem bytesOf_injective {s t : String} (h : bytesOf s = bytesOf t) : s = t := by
  have hdata : s.toByteArray.data = t.toByteArray.data := Array.toList_inj.mp h
  exact String.toByteArray_inj.mp (ByteArray.ext hdata)

theorem len_ofList_le {l l' : List Char} (h : l.Sublist l') : len (String.ofList l) ≤ len (String.ofList l') := by
  unfold len
  rw [String.utf8ByteSize_ofList, String.utf8ByteSize_ofList]
  exact String.utf8Len_le_of_sublist h

def hasPrefix (s pre : String) : Bool := pre.toList.isPrefixOf s.toList

theorem hasPrefix_append (pre s : String) : hasPrefix (pre ++ s) pre = true := by
  simp [hasPrefix]

/-- `unicode.IsSpace`. -/
def isSpace (c : Char) : Bool :=
  c.toNat ∈ [0x09, 0x0A, 0x0B, 0x0C, 0x0D, 0x20, 0x85, 0xA0, 0x1680, 0x2028, 0x2029, 0x202F, 0x205F, 0x3000] ||
    decide (0x2000 ≤ c.toNat ∧ c.toNat ≤ 0x200A)

/-- `strings.TrimSpace(s) == ""`. -/
def blank (s : String) : Bool := s.toList.all isSpace

/-- `strings.TrimSpace(s) == s`. -/
def trimmed (s : String) : Bool :=
  !(s.toList.head?.any isSpace) && !(s.toList.getLast?.any isSpace)

/-! ## Forms -/

def isLowerHex (c : Char) : Bool := c.isDigit || decide ('a' ≤ c ∧ c ≤ 'f')

/-- `^pre[a-f0-9]{n}$`. -/
def hexForm (pre : String) (n : Nat) (s : String) : Bool :=
  hasPrefix s pre && decide ((s.toList.drop pre.toList.length).length = n) &&
    (s.toList.drop pre.toList.length).all isLowerHex

def isWordChar (c : Char) : Bool := c.isAlphanum || c == '_' || c == '-'

/-- `^[A-Za-z0-9_-]{lo,hi}$`. -/
def wordForm (lo hi : Nat) (s : String) : Bool :=
  decide (lo ≤ s.toList.length ∧ s.toList.length ≤ hi) && s.toList.all isWordChar

theorem hexForm_append (pre : String) {s : String} {n : Nat} (h : hexForm "" n s = true) :
    hexForm pre n (pre ++ s) = true := by
  simp only [hexForm, Bool.and_eq_true, decide_eq_true_eq] at h ⊢
  obtain ⟨⟨_, hl⟩, ha⟩ := h
  refine ⟨⟨hasPrefix_append pre s, ?_⟩, ?_⟩
  · simpa using hl
  · simpa using ha

theorem hasPrefix_of_hexForm {pre s : String} {n : Nat} (h : hexForm pre n s = true) :
    hasPrefix s pre = true := by
  simp only [hexForm, Bool.and_eq_true] at h
  exact h.1.1

theorem length_of_hexForm {pre s : String} {n : Nat} (h : hexForm pre n s = true) :
    s.toList.length = pre.toList.length + n := by
  simp only [hexForm, Bool.and_eq_true, decide_eq_true_eq, hasPrefix, List.isPrefixOf_iff_prefix] at h
  have hle := h.1.1.length_le
  have hn := h.1.2
  rw [List.length_drop] at hn
  omega

theorem utf8Size_of_isLowerHex {c : Char} (h : isLowerHex c = true) : c.utf8Size = 1 := by
  have hle : c.val ≤ 0x7f := by
    simp only [isLowerHex, Char.isDigit, Bool.or_eq_true, Bool.and_eq_true, decide_eq_true_eq] at h
    rcases h with h | h
    · exact UInt32.le_trans h.2 (by decide)
    · exact UInt32.le_trans h.2 (by decide)
  exact if_pos hle

theorem len_of_hexForm {s : String} {n : Nat} (h : hexForm "" n s = true) : len s = n := by
  have hlen := length_of_hexForm h
  have hall : ∀ c ∈ s.toList, c.utf8Size = 1 := by
    simp only [hexForm, Bool.and_eq_true] at h
    exact fun c hc => utf8Size_of_isLowerHex (List.all_eq_true.mp h.2 c hc)
  rw [show "".toList.length + n = n from Nat.zero_add n] at hlen
  rw [len, ← String.ofList_toList (s := s), String.utf8ByteSize_ofList, ← hlen]
  generalize s.toList = l at hall
  induction l with
  | nil => rfl
  | cons c rest ih =>
    rw [String.utf8Len, ih fun d hd => hall d (List.mem_cons_of_mem _ hd), hall c List.mem_cons_self, List.length_cons]

/-- Two prefixes of one text agree at the first character. -/
theorem head?_eq_of_hasPrefix {s p r : String} (hp : hasPrefix s p = true) (hr : hasPrefix s r = true)
    (hpe : p.toList ≠ []) (hre : r.toList ≠ []) : p.toList.head? = r.toList.head? := by
  simp only [hasPrefix, List.isPrefixOf_iff_prefix] at hp hr
  obtain ⟨t, ht⟩ := hp
  obtain ⟨u, hu⟩ := hr
  have h := congrArg List.head? (ht.trans hu.symm)
  rwa [List.head?_append_of_ne_nil _ hpe, List.head?_append_of_ne_nil _ hre] at h

theorem isWordChar_of_isLowerHex {c : Char} (h : isLowerHex c = true) : isWordChar c = true := by
  simp only [isLowerHex, Bool.or_eq_true, decide_eq_true_eq] at h
  simp only [isWordChar, Char.isAlphanum, Bool.or_eq_true]
  rcases h with h | ⟨h₁, h₂⟩
  · exact Or.inl (Or.inl (Or.inr h))
  · have hlower : c.isLower = true := Bool.and_eq_true_iff.mpr ⟨decide_eq_true h₁, decide_eq_true (le_trans h₂ (by decide))⟩
    exact Or.inl (Or.inl (Or.inl (Bool.or_eq_true_iff.mpr (Or.inr hlower))))

/-- A generated identifier is a word: `pre` is, and the token is hexadecimal. -/
theorem wordForm_append {pre s : String} {n lo hi : Nat} (hp : pre.toList.all isWordChar = true)
    (h : hexForm "" n s = true) (hlo : lo ≤ pre.toList.length + n) (hhi : pre.toList.length + n ≤ hi) :
    wordForm lo hi (pre ++ s) = true := by
  simp only [hexForm, Bool.and_eq_true, decide_eq_true_eq] at h
  obtain ⟨⟨_, hl⟩, ha⟩ := h
  have hl' : s.toList.length = n := by simpa using hl
  have ha' : s.toList.all isLowerHex = true := by simpa using ha
  simp only [wordForm, String.toList_append, List.length_append, hl', List.all_append, hp,
    Bool.true_and, Bool.and_eq_true, decide_eq_true_eq]
  refine ⟨⟨hlo, hhi⟩, List.all_eq_true.mpr fun c hc => ?_⟩
  exact isWordChar_of_isLowerHex (List.all_eq_true.mp ha' c hc)

/-- Visible ASCII of bounded length, the loop `c < 33 || c > 126`. -/
def visibleForm (lo hi : Nat) (s : String) : Bool :=
  decide (lo ≤ len s ∧ len s ≤ hi) && s.toList.all fun c => decide (33 ≤ c.toNat ∧ c.toNat ≤ 126)

/-! ## Decimal numbers -/

/-- `strconv.ParseUint(s, 10, 64)` gives a positive number that `FormatUint` writes back as `s`. -/
def executionPositive (s : String) : Bool :=
  match s.toNat? with
  | some n => decide (0 < n ∧ n < 2 ^ 64) && Nat.repr n == s
  | none => false

theorem executionPositive_repr {n : Nat} (h₀ : 0 < n) (h : n < 2 ^ 64) :
    executionPositive (Nat.repr n) = true := by
  simp only [executionPositive, Nat.toNat?_repr, h₀, h, and_self, decide_true, beq_self_eq_true, Bool.and_self]

end Desk
