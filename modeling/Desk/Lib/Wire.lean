import Desk.Lib.Units
import Desk.Lib.Paths

/-!
# Code units as UTF-8

A string goes over the wire as the UTF-8 of its characters. Every ASCII unit of
it is one byte there, and no other unit makes such a byte.
-/

namespace Desk

/-- The bytes of a string; a lone surrogate is encoded as U+FFFD. -/
def utf8 (s : Units) : List UInt8 := (charsOfUnits s).flatMap String.utf8EncodeChar

/-- The character of a code point, U+FFFD for a surrogate. -/
def charOfPoint (p : Nat) : Char := if p < 0xd800 ∨ 0xdfff < p then Char.ofNat p else '\ufffd'

/-! ## Characters -/

theorem encode_ascii {c : Char} (h : c.toNat < 0x80) : String.utf8EncodeChar c = [UInt8.ofNat c.toNat] := by
  have hval : c.val.toNat ≤ 0x7f := Nat.le_of_lt_succ h
  unfold String.utf8EncodeChar
  simp only [hval, if_true]
  rfl

theorem encode_high {c : Char} (h : 0x80 ≤ c.toNat) {b : UInt8} (hb : b ∈ String.utf8EncodeChar c) : 0x80 ≤ b.toNat := by
  have hval : ¬ c.val.toNat ≤ 0x7f := Nat.not_le_of_lt h
  have hbyte : ∀ n, 0x80 ≤ n → n < 0x100 → 0x80 ≤ (UInt8.ofNat n).toNat := by
    intro n hn hlt
    rw [UInt8.toNat_ofNat', Nat.mod_eq_of_lt hlt]
    exact hn
  unfold String.utf8EncodeChar at hb
  simp only [hval, if_false] at hb
  split_ifs at hb
  all_goals
    simp only [List.mem_cons, List.not_mem_nil, or_false] at hb
  · rcases hb with rfl | rfl <;> exact hbyte _ (by omega) (by omega)
  · rcases hb with rfl | rfl | rfl <;> exact hbyte _ (by omega) (by omega)
  · rcases hb with rfl | rfl | rfl | rfl <;> exact hbyte _ (by omega) (by omega)

theorem encode_ne_nil (c : Char) : String.utf8EncodeChar c ≠ [] := by
  have hlen := String.length_utf8EncodeChar c
  have hpos := c.utf8Size_pos
  intro hnil
  rw [hnil] at hlen
  exact absurd hlen (Nat.ne_of_lt hpos)

theorem toNat_charOfPoint {p : Nat} (h : p < 0xd800) : (charOfPoint p).toNat = p := by
  rw [charOfPoint, if_pos (Or.inl h)]
  exact toNat_charOfNat (Or.inl h)

theorem charOfPoint_high {p : Nat} (h : 0x80 ≤ p) (hlt : p < 0x110000) : 0x80 ≤ (charOfPoint p).toNat := by
  unfold charOfPoint
  split
  · rename_i hp
    rw [toNat_charOfNat (hp.imp_right fun hp => ⟨hp, hlt⟩)]
    exact h
  · decide

/-! ## Units -/

theorem utf8_eq (s : Units) : utf8 s = (codePoints s).flatMap fun p => String.utf8EncodeChar (charOfPoint p) := by
  unfold utf8 charsOfUnits
  rw [List.flatMap_map]
  rfl

theorem codePoints_append {u : UInt16} (hhigh : isHigh u = false) (hlow : isLow u = false) (a b : Units) :
    codePoints (a ++ u :: b) = codePoints a ++ u.toNat :: codePoints b := by
  induction a using codePoints.induct with
  | case1 => exact codePoints_single hhigh b
  | case2 v =>
    rw [show codePoints [v] = [v.toNat] from rfl, List.singleton_append, List.singleton_append, codePoints, hlow, Bool.and_false,
      if_neg Bool.false_ne_true, codePoints_single hhigh]
  | case3 v w rest hpair ih =>
    obtain ⟨hv, hw⟩ := Bool.and_eq_true_iff.mp hpair
    rw [List.cons_append, List.cons_append, codePoints_pair hv hw, codePoints_pair hv hw, ih, List.cons_append]
  | case4 v w rest hpair ih =>
    rw [List.cons_append, List.cons_append, codePoints, if_neg hpair, codePoints, if_neg hpair, ← List.cons_append, ih,
      List.cons_append]

theorem ascii_plain {u : UInt16} (h : u.toNat < 0x80) : isHigh u = false ∧ isLow u = false := by
  rw [← Bool.not_eq_true, ← Bool.not_eq_true, isHigh_iff, isLow_iff]
  omega

theorem encode_unit {u : UInt16} (h : u.toNat < 0x80) : String.utf8EncodeChar (charOfPoint u.toNat) = [u.toUInt8] := by
  have hpoint := toNat_charOfPoint (Nat.lt_trans h (by decide))
  rw [encode_ascii (by rw [hpoint]; exact h), hpoint]
  rfl

theorem utf8_append {u : UInt16} (h : u.toNat < 0x80) (a b : Units) : utf8 (a ++ u :: b) = utf8 a ++ u.toUInt8 :: utf8 b := by
  rw [utf8_eq, codePoints_append (ascii_plain h).1 (ascii_plain h).2, List.flatMap_append, List.flatMap_cons, encode_unit h,
    utf8_eq, utf8_eq]
  rfl

theorem utf8_cons {u : UInt16} (h : u.toNat < 0x80) (s : Units) : utf8 (u :: s) = u.toUInt8 :: utf8 s := utf8_append h [] s

@[simp] theorem utf8_nil : utf8 [] = [] := rfl

/-- What a unit outside ASCII starts: a character of one unit or of two, with no ASCII in its bytes. -/
theorem utf8_high {u : UInt16} (h : 0x80 ≤ u.toNat) (s : Units) : ∃ rest bytes, rest <:+ s ∧ utf8 (u :: s) = bytes ++ utf8 rest ∧
    bytes ≠ [] ∧ (∀ b ∈ bytes, 0x80 ≤ b.toNat) ∧ ∀ v, v.toNat < 0x80 → (v ∈ u :: s ↔ v ∈ rest) := by
  have hsingle : ∀ {v : UInt16}, v.toNat < 0x80 → v ≠ u := fun hv heq => absurd (heq ▸ hv) (Nat.not_lt_of_le h)
  by_cases hpair : ∃ w rest, s = w :: rest ∧ isHigh u = true ∧ isLow w = true
  · obtain ⟨w, rest, rfl, hu, hw⟩ := hpair
    have hpoint := point_range (isHigh_iff.mp hu) (isLow_iff.mp hw)
    refine ⟨rest, String.utf8EncodeChar (charOfPoint (pairPoint u w)), List.suffix_cons _ _, ?_, encode_ne_nil _, ?_, ?_⟩
    · rw [utf8_eq, codePoints_pair hu hw, List.flatMap_cons, utf8_eq]
    · intro b hb
      exact encode_high (charOfPoint_high (Nat.le_trans (by decide) hpoint.1) hpoint.2) hb
    · intro v hv
      have hvw : v ≠ w := by
        rintro rfl
        have := (isLow_iff.mp hw).1
        omega
      simp [hsingle hv, hvw]
  · refine ⟨s, String.utf8EncodeChar (charOfPoint u.toNat), List.suffix_refl _, ?_, encode_ne_nil _, ?_, ?_⟩
    · have hcons : codePoints (u :: s) = u.toNat :: codePoints s := by
        cases s with
        | nil => rfl
        | cons w rest =>
          rw [codePoints, if_neg]
          intro hboth
          exact hpair ⟨w, rest, rfl, Bool.and_eq_true_iff.mp hboth⟩
      rw [utf8_eq, hcons, List.flatMap_cons, utf8_eq]
    · intro b hb
      exact encode_high (charOfPoint_high h (Nat.lt_trans (UInt16.toNat_lt u) (by decide))) hb
    · intro v hv
      simp [hsingle hv]

/-- By the character a string starts with. -/
theorem units_induction {P : Units → Prop} (nil : P []) (ascii : ∀ u s, u.toNat < 0x80 → P s → P (u :: s))
    (high : ∀ u s, 0x80 ≤ u.toNat → (∀ rest, rest <:+ s → P rest) → P (u :: s)) (s : Units) : P s := by
  induction hn : s.length using Nat.strong_induction_on generalizing s with
  | _ n ih =>
    subst hn
    cases s with
    | nil => exact nil
    | cons u s =>
      rcases Nat.lt_or_ge u.toNat 0x80 with hu | hu
      · exact ascii u s hu (ih s.length (Nat.lt_succ_self _) s rfl)
      · exact high u s hu fun rest hrest => ih rest.length (Nat.lt_succ_of_le hrest.length_le) rest rfl

theorem toUInt8_toNat {u : UInt16} (h : u.toNat < 0x80) : u.toUInt8.toNat = u.toNat := by
  rw [UInt16.toNat_toUInt8]
  exact Nat.mod_eq_of_lt (Nat.lt_trans h (by decide))

theorem toUInt8_inj {u v : UInt16} (hu : u.toNat < 0x80) (hv : v.toNat < 0x80) : u.toUInt8 = v.toUInt8 ↔ u = v := by
  rw [← UInt8.toNat_inj, toUInt8_toNat hu, toUInt8_toNat hv, UInt16.toNat_inj]

theorem mem_utf8 {u : UInt16} (h : u.toNat < 0x80) (s : Units) : u.toUInt8 ∈ utf8 s ↔ u ∈ s := by
  induction s using units_induction with
  | nil => simp
  | ascii v s hv ih => rw [utf8_cons hv, List.mem_cons, List.mem_cons, toUInt8_inj h hv, ih]
  | high v s hv ih =>
    obtain ⟨rest, bytes, hrest, hutf8, -, hbytes, hmem⟩ := utf8_high hv s
    have hout : u.toUInt8 ∉ bytes := by
      intro hin
      have := hbytes _ hin
      rw [toUInt8_toNat h] at this
      omega
    rw [hutf8, List.mem_append, hmem u h, ← ih rest hrest]
    simp [hout]

/-- Only an ASCII text has its own bytes. -/
theorem utf8_eq_ascii (text : Units) (h : ∀ u ∈ text, u.toNat < 0x80) {s : Units} :
    utf8 s = text.map UInt16.toUInt8 ↔ s = text := by
  induction text generalizing s with
  | nil =>
    cases s with
    | nil => simp
    | cons v s =>
      refine iff_of_false (fun hnil => ?_) (List.cons_ne_nil _ _)
      rcases Nat.lt_or_ge v.toNat 0x80 with hv | hv
      · rw [utf8_cons hv] at hnil
        cases hnil
      · obtain ⟨rest, bytes, -, hutf8, hne, -, -⟩ := utf8_high hv s
        rw [hutf8, List.map_nil] at hnil
        exact hne (List.append_eq_nil_iff.mp hnil).1
  | cons u text ih =>
    have hu := h u List.mem_cons_self
    cases s with
    | nil => simp
    | cons v s =>
      rcases Nat.lt_or_ge v.toNat 0x80 with hv | hv
      · rw [utf8_cons hv, List.map_cons, List.cons_eq_cons, List.cons_eq_cons, toUInt8_inj hv hu,
          ih fun w hw => h w (List.mem_cons_of_mem _ hw)]
      · obtain ⟨rest, bytes, -, hutf8, hne, hbytes, -⟩ := utf8_high hv s
        refine iff_of_false (fun heq => ?_) (fun heq => ?_)
        · rw [hutf8] at heq
          cases bytes with
          | nil => exact hne rfl
          | cons b bytes =>
            have hb := hbytes b List.mem_cons_self
            rw [List.cons_append, List.map_cons] at heq
            rw [(List.cons.inj heq).1, toUInt8_toNat hu] at hb
            omega
        · rw [(List.cons.inj heq).1] at hv
          omega

theorem utf8_encoding (slash dot : UInt16) (hslash : slash.toNat < 0x80) (hdot : dot.toNat < 0x80) :
    Paths.Encoding slash dot slash.toUInt8 dot.toUInt8 utf8 where
  append := utf8_append hslash
  slashless := fun a ha hmem => ha ((mem_utf8 hslash a).mp hmem)
  nil := fun _ => utf8_eq_ascii [] nofun
  one := fun _ => utf8_eq_ascii [dot] fun u hu => by rw [List.mem_singleton.mp hu]; exact hdot
  two := fun _ => utf8_eq_ascii [dot, dot] fun u hu => by
    simp only [List.mem_cons, List.not_mem_nil, or_false, or_self] at hu
    rw [hu]
    exact hdot

end Desk
