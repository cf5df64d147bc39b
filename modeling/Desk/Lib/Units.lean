import Mathlib.Data.List.Basic

/-!
# Code units

A JavaScript string is a list of UTF-16 code units. A character outside the
basic plane takes two, a surrogate pair; a lone surrogate is a unit too.
-/

namespace Desk

abbrev Units : Type := List UInt16

-- under one name, so that a membership test is one term in every module
instance : LawfulBEq Units := inferInstance

/-- The unit of an ASCII character. -/
def unit (c : Char) : UInt16 := UInt16.ofNat c.toNat

def isHigh (u : UInt16) : Bool := decide (0xd800 ≤ u ∧ u ≤ 0xdbff)

def isLow (u : UInt16) : Bool := decide (0xdc00 ≤ u ∧ u ≤ 0xdfff)

/-! ## Characters -/

/-- The units of a character. -/
def unitsOfChar (c : Char) : Units :=
  if c.toNat < 0x10000 then [UInt16.ofNat c.toNat]
  else [UInt16.ofNat (0xd800 + (c.toNat - 0x10000) / 0x400), UInt16.ofNat (0xdc00 + (c.toNat - 0x10000) % 0x400)]

def unitsOf (chars : List Char) : Units := chars.flatMap unitsOfChar

/-- The code point of a surrogate pair. -/
def pairPoint (high low : UInt16) : Nat := 0x10000 + (high.toNat - 0xd800) * 0x400 + (low.toNat - 0xdc00)

/-- The code points of a string, a lone surrogate among them (`Array.from`, `codePointAt`). -/
def codePoints : Units → List Nat
  | [] => []
  | [u] => [u.toNat]
  | u :: v :: rest => if isHigh u && isLow v then pairPoint u v :: codePoints rest else u.toNat :: codePoints (v :: rest)

/-- Whether every surrogate is one half of a pair. -/
def paired : Units → Bool
  | [] => true
  | [u] => !isHigh u && !isLow u
  | u :: v :: rest => if isHigh u then isLow v && paired rest else !isLow u && paired (v :: rest)

/-- The characters of a string; a lone surrogate reads as U+FFFD. -/
def charsOfUnits (s : Units) : List Char := (codePoints s).map fun p => if p < 0xd800 ∨ 0xdfff < p then Char.ofNat p else '\ufffd'

@[simp] theorem unitsOf_nil : unitsOf [] = [] := rfl

@[simp] theorem unitsOf_cons (c : Char) (rest : List Char) : unitsOf (c :: rest) = unitsOfChar c ++ unitsOf rest := rfl

@[simp] theorem unitsOf_append (a b : List Char) : unitsOf (a ++ b) = unitsOf a ++ unitsOf b := List.flatMap_append

theorem toNat_unit {c : Char} (h : c.toNat < 0x10000) : (UInt16.ofNat c.toNat).toNat = c.toNat := by
  rw [UInt16.toNat_ofNat']
  exact Nat.mod_eq_of_lt h

theorem isHigh_iff {u : UInt16} : isHigh u = true ↔ 0xd800 ≤ u.toNat ∧ u.toNat ≤ 0xdbff := by
  simp [isHigh, UInt16.le_iff_toNat_le]

theorem isLow_iff {u : UInt16} : isLow u = true ↔ 0xdc00 ≤ u.toNat ∧ u.toNat ≤ 0xdfff := by
  simp [isLow, UInt16.le_iff_toNat_le]

/-- The halves of a pair, as arithmetic. -/
theorem pairPoint_split {p : Nat} (h : 0x10000 ≤ p) : 0x10000 + (0xd800 + (p - 0x10000) / 0x400 - 0xd800) * 0x400 +
    (0xdc00 + (p - 0x10000) % 0x400 - 0xdc00) = p := by
  omega

theorem high_of_point {a b : Nat} (ha : 0xd800 ≤ a ∧ a ≤ 0xdbff) (hb : 0xdc00 ≤ b ∧ b ≤ 0xdfff) :
    0xd800 + (0x10000 + (a - 0xd800) * 0x400 + (b - 0xdc00) - 0x10000) / 0x400 = a := by
  omega

theorem low_of_point {a b : Nat} (hb : 0xdc00 ≤ b ∧ b ≤ 0xdfff) :
    0xdc00 + (0x10000 + (a - 0xd800) * 0x400 + (b - 0xdc00) - 0x10000) % 0x400 = b := by
  omega

theorem point_range {a b : Nat} (ha : 0xd800 ≤ a ∧ a ≤ 0xdbff) (hb : 0xdc00 ≤ b ∧ b ≤ 0xdfff) :
    0x10000 ≤ 0x10000 + (a - 0xd800) * 0x400 + (b - 0xdc00) ∧
      0x10000 + (a - 0xd800) * 0x400 + (b - 0xdc00) < 0x110000 := by
  omega

theorem unit_range {n : Nat} (h : n < 0x10000) (hh : ¬ (0xd800 ≤ n ∧ n ≤ 0xdbff)) (hl : ¬ (0xdc00 ≤ n ∧ n ≤ 0xdfff)) :
    n < 0xd800 ∨ 0xdfff < n ∧ n < 0x110000 := by
  omega

theorem toNat_charOfNat {n : Nat} (h : n < 0xd800 ∨ 0xdfff < n ∧ n < 0x110000) : (Char.ofNat n).toNat = n := by
  have hv : n.isValidChar := h
  rw [Char.ofNat, dif_pos hv]
  exact UInt32.toNat_ofNatLT

theorem not_surrogate (c : Char) : c.toNat < 0xd800 ∨ 0xdfff < c.toNat ∧ c.toNat < 0x110000 := by
  have h := c.valid
  simp only [UInt32.isValidChar, Nat.isValidChar] at h
  exact h

/-- A character has one unit, which is no surrogate, or a surrogate pair. -/
theorem unitsOfChar_cases (c : Char) :
    (∃ u, unitsOfChar c = [u] ∧ u.toNat = c.toNat ∧ isHigh u = false ∧ isLow u = false) ∨
      ∃ u v, unitsOfChar c = [u, v] ∧ isHigh u = true ∧ isLow v = true ∧ pairPoint u v = c.toNat ∧ 0x10000 ≤ c.toNat := by
  have hc := not_surrogate c
  unfold unitsOfChar
  split
  · rename_i h
    refine Or.inl ⟨_, rfl, toNat_unit h, ?_, ?_⟩
    · rw [← Bool.not_eq_true, isHigh_iff, toNat_unit h]
      omega
    · rw [← Bool.not_eq_true, isLow_iff, toNat_unit h]
      omega
  · rename_i h
    have hhigh : (UInt16.ofNat (0xd800 + (c.toNat - 0x10000) / 0x400)).toNat = 0xd800 + (c.toNat - 0x10000) / 0x400 := by
      rw [UInt16.toNat_ofNat']
      omega
    have hlow : (UInt16.ofNat (0xdc00 + (c.toNat - 0x10000) % 0x400)).toNat = 0xdc00 + (c.toNat - 0x10000) % 0x400 := by
      rw [UInt16.toNat_ofNat']
      omega
    refine Or.inr ⟨_, _, rfl, ?_, ?_, ?_, by omega⟩
    · rw [isHigh_iff, hhigh]
      omega
    · rw [isLow_iff, hlow]
      omega
    · unfold pairPoint
      rw [hhigh, hlow]
      exact pairPoint_split (by omega)

theorem codePoints_pair {u v : UInt16} (hu : isHigh u = true) (hv : isLow v = true) (rest : Units) :
    codePoints (u :: v :: rest) = pairPoint u v :: codePoints rest := by
  rw [codePoints, hu, hv]
  rfl

theorem codePoints_single {u : UInt16} (hu : isHigh u = false) (rest : Units) :
    codePoints (u :: rest) = u.toNat :: codePoints rest := by
  cases rest with
  | nil => rfl
  | cons v rest => simp [codePoints, hu]

theorem codePoints_unitsOf (chars : List Char) : codePoints (unitsOf chars) = chars.map Char.toNat := by
  induction chars with
  | nil => rfl
  | cons c rest ih =>
    rw [unitsOf_cons]
    rcases unitsOfChar_cases c with ⟨u, hu, hn, hh, _⟩ | ⟨u, v, huv, hh, hl, hp, _⟩
    · rw [hu, List.singleton_append, codePoints_single hh, hn, ih]
      rfl
    · rw [huv, List.cons_append, List.singleton_append, codePoints_pair hh hl, hp, ih]
      rfl

theorem paired_unitsOf (chars : List Char) : paired (unitsOf chars) = true := by
  induction chars with
  | nil => rfl
  | cons c rest ih =>
    rw [unitsOf_cons]
    rcases unitsOfChar_cases c with ⟨u, hu, _, hh, hl⟩ | ⟨u, v, huv, hh, hl, _⟩
    · rw [hu, List.singleton_append]
      cases hr : unitsOf rest with
      | nil => rw [paired, hh, hl]; rfl
      | cons w more =>
        rw [hr] at ih
        rw [paired, hh, hl, ih]
        rfl
    · rw [huv, List.cons_append, List.singleton_append, paired, hh, hl, ih]
      rfl

theorem charsOfUnits_unitsOf (chars : List Char) : charsOfUnits (unitsOf chars) = chars := by
  rw [charsOfUnits, codePoints_unitsOf, List.map_map]
  conv_rhs => rw [← List.map_id chars]
  refine List.map_congr_left fun c _ => ?_
  have hc := not_surrogate c
  show (if c.toNat < 0xd800 ∨ 0xdfff < c.toNat then Char.ofNat c.toNat else '\ufffd') = c
  rw [if_pos (by omega), Char.ofNat_toNat]

/-! ## Strings of code points -/

/-- The units of a code point. -/
def unitsOfPoint (p : Nat) : Units :=
  if p < 0x10000 then [UInt16.ofNat p]
  else [UInt16.ofNat (0xd800 + (p - 0x10000) / 0x400), UInt16.ofNat (0xdc00 + (p - 0x10000) % 0x400)]

theorem unitsOfPoint_toNat (u : UInt16) : unitsOfPoint u.toNat = [u] := by
  rw [unitsOfPoint, if_pos u.toNat_lt, UInt16.ofNat_toNat]

theorem unitsOfPoint_pair {u v : UInt16} (hu : isHigh u = true) (hv : isLow v = true) :
    unitsOfPoint (pairPoint u v) = [u, v] := by
  rw [isHigh_iff] at hu
  rw [isLow_iff] at hv
  have hhigh : 0xd800 + (pairPoint u v - 0x10000) / 0x400 = u.toNat := high_of_point hu hv
  have hlow : 0xdc00 + (pairPoint u v - 0x10000) % 0x400 = v.toNat := low_of_point hv
  have hle : ¬ pairPoint u v < 0x10000 := Nat.not_lt.mpr (point_range hu hv).1
  rw [unitsOfPoint, if_neg hle, hhigh, hlow, UInt16.ofNat_toNat, UInt16.ofNat_toNat]

/-- A string is the units of its code points. -/
theorem flatMap_codePoints (s : Units) : (codePoints s).flatMap unitsOfPoint = s := by
  induction s using codePoints.induct with
  | case1 => rfl
  | case2 u => rw [codePoints, List.flatMap_cons, unitsOfPoint_toNat]; rfl
  | case3 u v rest h ih =>
    rw [Bool.and_eq_true] at h
    rw [codePoints_pair h.1 h.2, List.flatMap_cons, unitsOfPoint_pair h.1 h.2, ih]
    rfl
  | case4 u v rest h ih =>
    rw [codePoints, if_neg h, List.flatMap_cons, unitsOfPoint_toNat, ih]
    rfl

/-- Strings of the same code points are the same. -/
theorem codePoints_injective {s t : Units} (h : codePoints s = codePoints t) : s = t := by
  rw [← flatMap_codePoints s, h, flatMap_codePoints]

/-- The code points of a paired string are characters. -/
theorem codePoints_of_paired {s : Units} (h : paired s = true) :
    ∀ p ∈ codePoints s, p < 0xd800 ∨ 0xdfff < p ∧ p < 0x110000 := by
  have single : ∀ u : UInt16, isHigh u = false → isLow u = false →
      u.toNat < 0xd800 ∨ 0xdfff < u.toNat ∧ u.toNat < 0x110000 := by
    intro u hh hl
    rw [← Bool.not_eq_true, isHigh_iff] at hh
    rw [← Bool.not_eq_true, isLow_iff] at hl
    exact unit_range u.toNat_lt hh hl
  induction s using codePoints.induct with
  | case1 => intro p hp; cases hp
  | case2 u =>
    intro p hp
    simp only [paired, Bool.and_eq_true, Bool.not_eq_true'] at h
    rw [List.mem_singleton.mp hp]
    exact single u h.1 h.2
  | case3 u v rest huv ih =>
    rw [Bool.and_eq_true] at huv
    rw [paired, if_pos huv.1, huv.2, Bool.true_and] at h
    intro p hp
    rw [codePoints_pair huv.1 huv.2] at hp
    rcases List.mem_cons.mp hp with hp | hp
    · have hrange := point_range (isHigh_iff.mp huv.1) (isLow_iff.mp huv.2)
      rw [hp]
      exact Or.inr ⟨Nat.lt_of_lt_of_le (by decide) hrange.1, hrange.2⟩
    · exact ih h p hp
  | case4 u v rest huv ih =>
    rw [paired] at h
    by_cases hh : isHigh u = true
    · rw [if_pos hh, Bool.and_eq_true] at h
      exact absurd (by rw [hh, h.1]; rfl) huv
    · rw [if_neg hh, Bool.and_eq_true, Bool.not_eq_true'] at h
      intro p hp
      rw [codePoints, if_neg huv] at hp
      rcases List.mem_cons.mp hp with rfl | hp
      · exact single u (by simpa using hh) h.1
      · exact ih h.2 p hp

/-- A paired string is the units of its characters. -/
theorem unitsOf_charsOfUnits {s : Units} (h : paired s = true) : unitsOf (charsOfUnits s) = s := by
  conv_rhs => rw [← flatMap_codePoints s]
  rw [charsOfUnits, unitsOf, List.flatMap_map]
  refine List.flatMap_congr fun p hp => ?_
  have hvalid := codePoints_of_paired h p hp
  have hchar := toNat_charOfNat hvalid
  show unitsOfChar (if p < 0xd800 ∨ 0xdfff < p then Char.ofNat p else '\ufffd') = _
  rw [if_pos (by omega), unitsOfChar, unitsOfPoint, hchar]

theorem charsOfUnits_injective {s t : Units} (hs : paired s = true) (ht : paired t = true)
    (h : charsOfUnits s = charsOfUnits t) : s = t := by
  rw [← unitsOf_charsOfUnits hs, h, unitsOf_charsOfUnits ht]

/-! ## Pairs in a longer string -/

def isPlane (u : UInt16) : Bool := !isHigh u && !isLow u

theorem paired_cons {u : UInt16} (h : isPlane u = true) (rest : Units) : paired (u :: rest) = paired rest := by
  simp only [isPlane, Bool.and_eq_true, Bool.not_eq_true'] at h
  cases rest with
  | nil => simp [paired, h]
  | cons v rest => simp [paired, h]

theorem paired_append {a : Units} (h : ∀ u ∈ a, isPlane u = true) (rest : Units) : paired (a ++ rest) = paired rest := by
  induction a with
  | nil => rfl
  | cons u a ih =>
    rw [List.cons_append, paired_cons (h u List.mem_cons_self)]
    exact ih fun v hv => h v (List.mem_cons_of_mem _ hv)

/-- A unit that is no surrogate keeps what stands before it from what follows. -/
theorem paired_split (a : Units) {u : UInt16} (hu : isPlane u = true) (rest : Units) :
    paired (a ++ u :: rest) = (paired a && paired rest) := by
  induction a using paired.induct with
  | case1 => rw [List.nil_append, paired_cons hu]; rfl
  | case2 v =>
    have hu' := hu
    simp only [isPlane, Bool.and_eq_true, Bool.not_eq_true'] at hu'
    have hv : paired (v :: u :: rest) = if isHigh v then isLow u && paired rest else !isLow v && paired (u :: rest) := by
      rw [paired]
    rw [List.cons_append, List.nil_append, hv, paired_cons hu, paired, hu'.2]
    cases isHigh v <;> simp
  | case3 v w more hv ih => simp only [List.cons_append, paired, hv, if_true, ih, Bool.and_assoc]
  | case4 v w more hv ih =>
    rw [List.cons_append] at ih
    simp only [List.cons_append, paired, if_neg hv, ih, Bool.and_assoc]

end Desk
