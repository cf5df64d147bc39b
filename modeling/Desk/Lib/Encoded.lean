import Desk.Lib.JsonParse
import Desk.Lib.Wire
import Mathlib.Data.Nat.Find

/-!
# Bytes of JSON strings

How many bytes `JSON.stringify` of a string takes, and the longest prefix of a
string that takes no more than some.
-/

namespace Desk

open JsonParse (stringify stringifyPoint)

def utf8Bytes (s : Units) : Nat := (utf8 s).length

/-- The bytes of a string inside the quotes of its JSON. -/
def bodyBytes (s : Units) : Nat := utf8Bytes ((codePoints s).flatMap stringifyPoint)

/-- The bytes of the JSON of a string. -/
def encodedBytes (s : Units) : Nat := utf8Bytes (stringify s)

/-- The characters of a string; a lone surrogate is one. -/
def charsOf (s : Units) : List Units := (codePoints s).map unitsOfPoint

/-- The first character of a string, if it has one. -/
def firstChar (s : Units) : Units := ((charsOf s).take 1).flatten

/-- How many characters of a string fit into the bytes. -/
def fitting (s : Units) (bytes : Int) : Nat :=
  Nat.findGreatest (fun k => (encodedBytes ((charsOf s).take k).flatten : Int) ≤ bytes) (charsOf s).length

/-- The longest prefix of whole characters whose JSON takes that many bytes at most. -/
def encodedPrefix (s : Units) (bytes : Int) : Units := ((charsOf s).take (fitting s bytes)).flatten

/-! ## Code points -/

theorem codePoints_lt (s : Units) : ∀ p ∈ codePoints s, p < 0x110000 := by
  induction s using codePoints.induct with
  | case1 => exact fun _ hp => absurd hp List.not_mem_nil
  | case2 u =>
    intro p hp
    rw [show codePoints [u] = [u.toNat] from rfl, List.mem_singleton] at hp
    have hlt := u.toNat_lt
    omega
  | case3 u v rest huv ih =>
    obtain ⟨hu, hv⟩ := Bool.and_eq_true_iff.mp huv
    intro p hp
    rw [codePoints_pair hu hv, List.mem_cons] at hp
    rcases hp with heq | hp
    · rw [heq]
      exact (point_range (isHigh_iff.mp hu) (isLow_iff.mp hv)).2
    · exact ih p hp
  | case4 u v rest huv ih =>
    intro p hp
    rw [codePoints, if_neg huv, List.mem_cons] at hp
    rcases hp with rfl | hp
    · have hlt := u.toNat_lt
      omega
    · exact ih p hp

/-- What is split after whole characters has the characters of its parts. -/
theorem codePoints_append_paired {a : Units} (h : paired a = true) (b : Units) : codePoints (a ++ b) = codePoints a ++ codePoints b := by
  induction a using codePoints.induct with
  | case1 => rfl
  | case2 u =>
    have hu : isHigh u = false := by
      rw [paired, Bool.and_eq_true] at h
      simpa using h.1
    rw [List.singleton_append, codePoints_single hu]
    rfl
  | case3 u v rest huv ih =>
    obtain ⟨hu, hv⟩ := Bool.and_eq_true_iff.mp huv
    rw [paired, hu, if_pos rfl, hv, Bool.true_and] at h
    rw [List.cons_append, List.cons_append, codePoints_pair hu hv, codePoints_pair hu hv, ih h, List.cons_append]
  | case4 u v rest huv ih =>
    rw [paired] at h
    cases hu : isHigh u with
    | true =>
      rw [hu, if_pos rfl, Bool.and_eq_true] at h
      exact absurd (by rw [hu, h.1]; rfl) huv
    | false =>
      rw [hu, if_neg Bool.false_ne_true, Bool.and_eq_true] at h
      rw [codePoints_single hu, List.cons_append, codePoints_single hu, ih h.2, List.cons_append]

theorem utf8_append_paired {a : Units} (h : paired a = true) (b : Units) : utf8 (a ++ b) = utf8 a ++ utf8 b := by
  rw [utf8_eq, codePoints_append_paired h, List.flatMap_append, ← utf8_eq, ← utf8_eq]

theorem utf8Bytes_append {a : Units} (h : paired a = true) (b : Units) : utf8Bytes (a ++ b) = utf8Bytes a + utf8Bytes b := by
  rw [utf8Bytes, utf8_append_paired h, List.length_append]
  rfl

/-! ## Escapes -/

theorem hexDigit_ascii : ∀ n < 16, (JsonParse.hexDigit n).toNat < 0x80 := by decide

theorem both_ascii {u v : UInt16} (hu : u.toNat < 0x80) (hv : v.toNat < 0x80) : ∀ w ∈ [u, v], w.toNat < 0x80 := by
  intro w hw
  rcases List.mem_pair.mp hw with rfl | rfl
  · exact hu
  · exact hv

/-- A point is written as an escape, or stands for itself. -/
theorem stringifyPoint_cases (p : Nat) :
    (∀ u ∈ stringifyPoint p, u.toNat < 0x80) ∨
      stringifyPoint p = unitsOfPoint p ∧ (p < 0xd800 ∨ 0xdfff < p) := by
  unfold stringifyPoint
  repeat' split
  · exact Or.inl (both_ascii (by decide) (by decide))
  · exact Or.inl (both_ascii (by decide) (by decide))
  · exact Or.inl (both_ascii (by decide) (by decide))
  · exact Or.inl (both_ascii (by decide) (by decide))
  · exact Or.inl (both_ascii (by decide) (by decide))
  · exact Or.inl (both_ascii (by decide) (by decide))
  · exact Or.inl (both_ascii (by decide) (by decide))
  · have hdigit : ∀ n, (JsonParse.hexDigit (n % 16)).toNat < 0x80 := fun n => hexDigit_ascii _ (Nat.mod_lt _ (by decide))
    refine Or.inl fun u hu => ?_
    simp only [JsonParse.hex4, List.mem_cons, List.not_mem_nil, or_false] at hu
    rcases hu with rfl | rfl | rfl | rfl | rfl | rfl
    · decide
    · decide
    · exact hdigit _
    · exact hdigit _
    · exact hdigit _
    · exact hdigit _
  · exact Or.inr ⟨rfl, by omega⟩

theorem isPlane_ascii {u : UInt16} (h : u.toNat < 0x80) : isPlane u = true := by
  rw [isPlane, (ascii_plain h).1, (ascii_plain h).2]
  rfl

/-- A point that stands for itself is one character. -/
theorem codePoints_unitsOfPoint {p : Nat} (h : p < 0x110000) (hp : p < 0xd800 ∨ 0xdfff < p) :
    paired (unitsOfPoint p) = true ∧ codePoints (unitsOfPoint p) = [p] := by
  have hvalid : (Char.ofNat p).toNat = p := toNat_charOfNat (hp.imp_right fun hp => ⟨hp, h⟩)
  have hunits : unitsOfPoint p = unitsOf [Char.ofNat p] := by
    simp [unitsOfPoint, unitsOf, unitsOfChar, hvalid]
  rw [hunits, codePoints_unitsOf, List.map_singleton, hvalid]
  exact ⟨paired_unitsOf _, rfl⟩

theorem paired_stringifyPoint {p : Nat} (h : p < 0x110000) : paired (stringifyPoint p) = true := by
  rcases stringifyPoint_cases p with hascii | ⟨hself, hp⟩
  · rw [← List.append_nil (stringifyPoint p), paired_append fun u hu => isPlane_ascii (hascii u hu)]
    rfl
  · rw [hself]
    exact (codePoints_unitsOfPoint h hp).1

theorem paired_append_paired {a : Units} (h : paired a = true) (b : Units) : paired (a ++ b) = paired b := by
  induction a using paired.induct with
  | case1 => rfl
  | case2 u =>
    rw [paired] at h
    exact paired_cons h b
  | case3 u v rest hu ih =>
    rw [paired, if_pos hu, Bool.and_eq_true] at h
    rw [List.cons_append, List.cons_append, paired, if_pos hu, h.1, Bool.true_and, ih h.2]
  | case4 u v rest hu ih =>
    rw [paired, if_neg hu, Bool.and_eq_true] at h
    rw [List.cons_append, List.cons_append, paired, if_neg hu, h.1, Bool.true_and, ← List.cons_append, ih h.2]

/-! ## Bodies -/

/-- What is written inside the quotes has no half of a pair. -/
theorem paired_body (s : Units) : paired ((codePoints s).flatMap stringifyPoint) = true := by
  have hall : ∀ points : List Nat, (∀ p ∈ points, p < 0x110000) → paired (points.flatMap stringifyPoint) = true := by
    intro points
    induction points with
    | nil => exact fun _ => rfl
    | cons p points ih =>
      intro hlt
      rw [List.flatMap_cons]
      rw [paired_append_paired (paired_stringifyPoint (hlt p List.mem_cons_self))]
      exact ih fun q hq => hlt q (List.mem_cons_of_mem _ hq)
  exact hall _ (codePoints_lt s)

theorem encodedBytes_eq (s : Units) : encodedBytes s = bodyBytes s + 2 := by
  rw [encodedBytes, stringify, ← List.singleton_append, utf8Bytes_append (by decide), utf8Bytes_append (paired_body s), bodyBytes]
  have hquote : utf8Bytes [quoteUnit] = 1 := by decide
  omega

/-- A string is written in two parts where it is split behind an ASCII unit. -/
theorem body_split {u : UInt16} (h : u.toNat < 0x80) (a b : Units) : (codePoints (a ++ u :: b)).flatMap stringifyPoint =
    (codePoints (a ++ [u])).flatMap stringifyPoint ++ (codePoints b).flatMap stringifyPoint := by
  rw [codePoints_append (ascii_plain h).1 (ascii_plain h).2, codePoints_append (ascii_plain h).1 (ascii_plain h).2,
    List.flatMap_append, List.flatMap_append, List.flatMap_cons, List.flatMap_cons, List.append_assoc, List.append_assoc]
  rfl

/-! ## Prefixes -/

theorem flatten_charsOf (s : Units) : (charsOf s).flatten = s := by
  rw [charsOf, ← List.flatMap_def, flatMap_codePoints]

theorem unitsOfPoint_ne_nil (p : Nat) : unitsOfPoint p ≠ [] := by
  unfold unitsOfPoint
  split <;> exact List.cons_ne_nil _ _

theorem encodedBytes_nil : encodedBytes [] = 2 := by decide

theorem encodedPrefix_fits (s : Units) {bytes : Int} (h : 2 ≤ bytes) : (encodedBytes (encodedPrefix s bytes) : Int) ≤ bytes := by
  have hnone : (encodedBytes ((charsOf s).take 0).flatten : Int) ≤ bytes := by
    rw [List.take_zero, List.flatten_nil, encodedBytes_nil]
    exact h
  exact Nat.findGreatest_spec (P := fun k => (encodedBytes ((charsOf s).take k).flatten : Int) ≤ bytes) (Nat.zero_le _) hnone

theorem encodedPrefix_isPrefix (s : Units) (bytes : Int) : encodedPrefix s bytes <+: s := by
  have hjoin := flatten_charsOf s
  rw [← List.take_append_drop (fitting s bytes) (charsOf s), List.flatten_append] at hjoin
  exact ⟨_, hjoin⟩

/-- The first character fits where there is room for it. -/
theorem encodedPrefix_ne_nil {s : Units} (hs : s ≠ []) {bytes : Int} (h : (encodedBytes (firstChar s) : Int) ≤ bytes) :
    encodedPrefix s bytes ≠ [] := by
  cases hchars : charsOf s with
  | nil =>
    have hjoin := flatten_charsOf s
    rw [hchars] at hjoin
    exact absurd hjoin.symm hs
  | cons c rest =>
    have hlength : 1 ≤ (charsOf s).length := by
      rw [hchars]
      exact Nat.succ_le_succ (Nat.zero_le _)
    have hfitting : 1 ≤ fitting s bytes :=
      Nat.le_findGreatest (P := fun k => (encodedBytes ((charsOf s).take k).flatten : Int) ≤ bytes) hlength h
    obtain ⟨n, hn⟩ := Nat.exists_eq_add_of_le hfitting
    have hmem : c ∈ charsOf s := hchars ▸ List.mem_cons_self
    obtain ⟨p, -, rfl⟩ := List.mem_map.mp hmem
    rw [encodedPrefix, hchars, hn, Nat.add_comm, List.take_succ_cons, List.flatten_cons]
    exact fun hnil => unitsOfPoint_ne_nil p (List.append_eq_nil_iff.mp hnil).1

theorem stringifyPoint_ne_nil (p : Nat) : stringifyPoint p ≠ [] := by
  unfold stringifyPoint
  repeat' split
  all_goals first | exact List.cons_ne_nil _ _ | exact unitsOfPoint_ne_nil p

theorem bodyBytes_pos {s : Units} (hne : s ≠ []) : 0 < bodyBytes s := by
  refine Nat.pos_of_ne_zero fun hzero => ?_
  have hbody := (utf8_eq_ascii [] nofun).mp (List.length_eq_zero_iff.mp hzero)
  have hpoints := flatMap_codePoints s
  cases hp : codePoints s with
  | nil =>
    rw [hp] at hpoints
    exact hne hpoints.symm
  | cons p points =>
    rw [hp, List.flatMap_cons] at hbody
    exact stringifyPoint_ne_nil p (List.append_eq_nil_iff.mp hbody).1

/-- No prefix fits into two bytes but the empty one. -/
theorem three_le_of_ne_nil {s : Units} {bytes : Int} (h : 2 ≤ bytes) (hne : encodedPrefix s bytes ≠ []) : 3 ≤ bytes := by
  have hfits := encodedPrefix_fits s h
  have hpos := bodyBytes_pos hne
  rw [encodedBytes_eq] at hfits
  omega

end Desk
