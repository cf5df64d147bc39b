import Mathlib.Data.List.Basic
import Desk.Lib.JsonTree

/-!
# Other line breaks

A text is split at a pattern and joined again with another text in its place.
At the line breaks of a JSON text that changes only the layout: a string holds
no bare line break.
-/

namespace Desk

/-! ## Split and join -/

/-- `split` at a pattern that is not empty; `skip` units of the last match are still to come. -/
def splitFrom (pattern : Units) : Nat → Units → List Units
  | _, [] => [[]]
  | skip + 1, _ :: rest => splitFrom pattern skip rest
  | 0, c :: rest =>
    if pattern.isPrefixOf (c :: rest) then [] :: splitFrom pattern (pattern.length - 1) rest
    else (splitFrom pattern 0 rest).modifyHead (c :: ·)

def split (pattern text : Units) : List Units := splitFrom pattern 0 text

/-- Every occurrence of a pattern, from the left, replaced: `split` at it and `join` with the new text. -/
def replaceAll (pattern new text : Units) : Units := List.intercalate new (split pattern text)

section
variable (pattern new : Units)

theorem splitFrom_drop (skip : Nat) (text : Units) : splitFrom pattern skip text = split pattern (text.drop skip) := by
  induction text generalizing skip with
  | nil => cases skip <;> rfl
  | cons c rest ih =>
    cases skip with
    | zero => rfl
    | succ skip => rw [splitFrom, ih, List.drop_succ_cons]

theorem split_ne_nil (text : Units) : split pattern text ≠ [] := by
  induction text with
  | nil => exact List.cons_ne_nil _ _
  | cons c rest ih =>
    rw [split, splitFrom]
    split
    · exact List.cons_ne_nil _ _
    · obtain ⟨t, more, ht⟩ := List.exists_cons_of_ne_nil ih
      rw [← split, ht]
      exact List.cons_ne_nil _ _

@[simp] theorem replaceAll_nil : replaceAll pattern new [] = [] := by
  simp [replaceAll, split, splitFrom, List.intercalate]

theorem replaceAll_match {c : UInt16} {rest : Units} (h : pattern.isPrefixOf (c :: rest) = true) :
    replaceAll pattern new (c :: rest) = new ++ replaceAll pattern new (rest.drop (pattern.length - 1)) := by
  rw [replaceAll, split, splitFrom, if_pos h, splitFrom_drop]
  obtain ⟨t, more, ht⟩ := List.exists_cons_of_ne_nil (split_ne_nil pattern (rest.drop (pattern.length - 1)))
  rw [replaceAll, ht]
  simp [List.intercalate]

theorem replaceAll_cons {c : UInt16} {rest : Units} (h : pattern.isPrefixOf (c :: rest) = false) :
    replaceAll pattern new (c :: rest) = c :: replaceAll pattern new rest := by
  rw [replaceAll, split, splitFrom, h, if_neg Bool.false_ne_true, ← split]
  obtain ⟨t, more, ht⟩ := List.exists_cons_of_ne_nil (split_ne_nil pattern rest)
  rw [replaceAll, ht, List.modifyHead_cons]
  cases more <;> simp [List.intercalate]

end

/-! ## Line breaks -/

def lineFeed : Units := [unit '\n']

def carriageReturn : Units := [unit '\r', unit '\n']

def IsLineEnd (pattern : Units) : Prop := pattern = lineFeed ∨ pattern = carriageReturn

/-- A text without units of a line break. -/
def Unbroken (text : Units) : Prop := ∀ u ∈ text, u ≠ unit '\n' ∧ u ≠ unit '\r'

theorem IsLineEnd.isLayout {pattern : Units} (h : IsLineEnd pattern) : pattern.all isLayout = true := by
  rcases h with rfl | rfl <;> decide

section
variable {pattern new : Units} (hp : IsLineEnd pattern)
include hp

theorem replaceAll_plain {u : UInt16} (hn : u ≠ unit '\n') (hr : u ≠ unit '\r') (rest : Units) :
    replaceAll pattern new (u :: rest) = u :: replaceAll pattern new rest := by
  refine replaceAll_cons pattern new (Bool.eq_false_iff.mpr fun h => ?_)
  obtain ⟨more, hmore⟩ := List.isPrefixOf_iff_prefix.mp h
  rcases hp with rfl | rfl
  · exact hn (List.cons.inj hmore).1.symm
  · exact hr (List.cons.inj hmore).1.symm

theorem replaceAll_unbroken {text : Units} (h : Unbroken text) (rest : Units) :
    replaceAll pattern new (text ++ rest) = text ++ replaceAll pattern new rest := by
  induction text with
  | nil => rfl
  | cons u text ih =>
    obtain ⟨hn, hr⟩ := h u List.mem_cons_self
    rw [List.cons_append, replaceAll_plain hp hn hr, ih fun v hv => h v (List.mem_cons_of_mem _ hv), List.cons_append]

/-- No line break ends with what follows a text unless that starts with a line feed. -/
theorem isPrefixOf_append {c : UInt16} {text rest : Units} (hrest : rest.head? ≠ some (unit '\n')) :
    pattern.isPrefixOf (c :: (text ++ rest)) = pattern.isPrefixOf (c :: text) := by
  rcases hp with rfl | rfl
  · simp [lineFeed, List.isPrefixOf]
  · cases text with
    | cons d text => simp [carriageReturn, List.isPrefixOf]
    | nil =>
      cases rest with
      | nil => rfl
      | cons d rest =>
        have hd : (unit '\n' == d) = false := by
          rw [beq_eq_false_iff_ne]
          rintro rfl
          exact hrest rfl
        simp [carriageReturn, List.isPrefixOf, hd]

theorem replaceAll_append {text rest : Units} (hrest : rest.head? ≠ some (unit '\n')) :
    replaceAll pattern new (text ++ rest) = replaceAll pattern new text ++ replaceAll pattern new rest := by
  induction hlength : text.length using Nat.strongRecOn generalizing text with
  | ind n ih =>
    cases text with
    | nil => rw [replaceAll_nil]; rfl
    | cons c text =>
      have hlt : (text.drop (pattern.length - 1)).length < n := by
        rw [← hlength, List.length_drop, List.length_cons]
        omega
      have hlt' : text.length < n := by
        rw [← hlength, List.length_cons]
        omega
      have hsame : pattern.isPrefixOf (c :: (text ++ rest)) = pattern.isPrefixOf (c :: text) := isPrefixOf_append hp hrest
      cases hmatch : pattern.isPrefixOf (c :: text) with
      | true =>
        have hle : pattern.length - 1 ≤ text.length := by
          have := (List.isPrefixOf_iff_prefix.mp hmatch).length_le
          rw [List.length_cons] at this
          omega
        rw [hmatch] at hsame
        rw [List.cons_append, replaceAll_match _ _ hsame, replaceAll_match _ _ hmatch, List.drop_append_of_le_length hle,
          ih _ hlt rfl, List.append_assoc]
      | false =>
        rw [hmatch] at hsame
        rw [List.cons_append, replaceAll_cons _ _ hsame, replaceAll_cons _ _ hmatch, ih _ hlt' rfl, List.cons_append]

omit hp in
/-- A layout stays one. -/
theorem replaceAll_isLayout (hnew : new.all isLayout = true) : ∀ {text : Units}, text.all isLayout = true →
    (replaceAll pattern new text).all isLayout = true := by
  intro text
  induction hlength : text.length using Nat.strongRecOn generalizing text with
  | ind n ih =>
    intro htext
    cases text with
    | nil => rw [replaceAll_nil]; rfl
    | cons c text =>
      rw [List.all_cons, Bool.and_eq_true] at htext
      have hdrop : (text.drop (pattern.length - 1)).all isLayout = true := by
        rw [List.all_eq_true] at htext ⊢
        exact fun u hu => htext.2 u (List.mem_of_mem_drop hu)
      have hlt : (text.drop (pattern.length - 1)).length < n := by
        rw [← hlength, List.length_drop, List.length_cons]
        omega
      have hlt' : text.length < n := by
        rw [← hlength, List.length_cons]
        omega
      cases hmatch : pattern.isPrefixOf (c :: text) with
      | true =>
        rw [replaceAll_match _ _ hmatch, List.all_append, hnew, ih _ hlt rfl hdrop]
        rfl
      | false =>
        rw [replaceAll_cons _ _ hmatch, List.all_cons, htext.1, ih _ hlt' rfl htext.2]
        rfl

end

/-! ## Texts of JSON -/

mutual

/-- A tree with another layout at every place. -/
def Cst.mapLayout (f : Layout → Layout) : Cst → Cst
  | .null => .null
  | .bool b => .bool b
  | .num n => .num n
  | .str ps => .str ps
  | .noItems l => .noItems (f l)
  | .arr items => .arr (items.mapLayout f)
  | .noMembers l => .noMembers (f l)
  | .obj members => .obj (members.mapLayout f)

def CstItems.mapLayout (f : Layout → Layout) : CstItems → CstItems
  | .last pre v post => .last (f pre) (v.mapLayout f) (f post)
  | .cons pre v post rest => .cons (f pre) (v.mapLayout f) (f post) (rest.mapLayout f)

def CstMembers.mapLayout (f : Layout → Layout) : CstMembers → CstMembers
  | .last pre name mid sep v post => .last (f pre) name (f mid) (f sep) (v.mapLayout f) (f post)
  | .cons pre name mid sep v post rest => .cons (f pre) name (f mid) (f sep) (v.mapLayout f) (f post) (rest.mapLayout f)

end

section
variable {ν : Type} (n : Units → ν) (f : Layout → Layout)

mutual

theorem Cst.value_mapLayout : ∀ c : Cst, (c.mapLayout f).value n id = c.value n id
  | .null => rfl
  | .bool _ => rfl
  | .num _ => rfl
  | .str _ => rfl
  | .noItems _ => rfl
  | .noMembers _ => rfl
  | .arr items => by rw [Cst.mapLayout, Cst.value, Cst.value, items.values_mapLayout]
  | .obj members => by rw [Cst.mapLayout, Cst.value, Cst.value, members.values_mapLayout]

theorem CstItems.values_mapLayout : ∀ c : CstItems, (c.mapLayout f).values n id = c.values n id
  | .last _ v _ => by rw [CstItems.mapLayout, CstItems.values, CstItems.values, v.value_mapLayout]
  | .cons _ v _ rest => by rw [CstItems.mapLayout, CstItems.values, CstItems.values, v.value_mapLayout, rest.values_mapLayout]

theorem CstMembers.values_mapLayout : ∀ c : CstMembers, (c.mapLayout f).values n id = c.values n id
  | .last _ _ _ _ v _ => by rw [CstMembers.mapLayout, CstMembers.values, CstMembers.values, v.value_mapLayout]
  | .cons _ _ _ _ v _ rest => by rw [CstMembers.mapLayout, CstMembers.values, CstMembers.values, v.value_mapLayout, rest.values_mapLayout]

end

theorem CstMembers.names_mapLayout : ∀ c : CstMembers,
    (c.mapLayout f).slots.map (fun s => piecesUnits s.body.name) = c.slots.map fun s => piecesUnits s.body.name
  | .last _ _ _ _ _ _ => rfl
  | .cons _ _ _ _ _ _ rest => by rw [CstMembers.mapLayout, CstMembers.slots, CstMembers.slots, List.map_cons, List.map_cons, rest.names_mapLayout]

mutual

theorem Cst.distinct_mapLayout : ∀ c : Cst, (c.mapLayout f).Distinct ↔ c.Distinct
  | .null => Iff.rfl
  | .bool _ => Iff.rfl
  | .num _ => Iff.rfl
  | .str _ => Iff.rfl
  | .noItems _ => Iff.rfl
  | .noMembers _ => Iff.rfl
  | .arr items => items.distinct_mapLayout
  | .obj members => by rw [Cst.mapLayout, Cst.Distinct, Cst.Distinct, members.names_mapLayout, members.distinct_mapLayout]

theorem CstItems.distinct_mapLayout : ∀ c : CstItems, (c.mapLayout f).Distinct ↔ c.Distinct
  | .last _ v _ => v.distinct_mapLayout
  | .cons _ v _ rest => and_congr v.distinct_mapLayout rest.distinct_mapLayout

theorem CstMembers.distinct_mapLayout : ∀ c : CstMembers, (c.mapLayout f).Distinct ↔ c.Distinct
  | .last _ _ _ _ v _ => v.distinct_mapLayout
  | .cons _ _ _ _ v _ rest => and_congr v.distinct_mapLayout rest.distinct_mapLayout

end

end

theorem unbroken_word {w : String} (h : ((wordText w).all fun u => u != unit '\n' && u != unit '\r') = true) :
    Unbroken (wordText w) := by
  intro u hu
  have hu := List.all_eq_true.mp h u hu
  simpa using hu

theorem unbroken_of_not_layout {text : Units} (h : ∀ u ∈ text, isLayout u = false) : Unbroken text := by
  intro u hu
  have hplain := h u hu
  constructor
  · rintro rfl
    exact absurd hplain (by decide)
  · rintro rfl
    exact absurd hplain (by decide)

theorem unbroken_piece (p : Piece) : Unbroken p.text := by
  have hdigit : ∀ {u : UInt16} {n : Nat}, hexDigitValue u = some n → u ≠ unit '\n' ∧ u ≠ unit '\r' := by
    intro u n h
    have hn : hexDigitValue (unit '\n') = none := by decide
    have hr : hexDigitValue (unit '\r') = none := by decide
    constructor
    · rintro rfl
      rw [hn] at h
      cases h
    · rintro rfl
      rw [hr] at h
      cases h
  have hshort : ∀ {u v : UInt16}, shortEscape u = some v → u ≠ unit '\n' ∧ u ≠ unit '\r' := by
    intro u v h
    have hn : shortEscape (unit '\n') = none := by decide
    have hr : shortEscape (unit '\r') = none := by decide
    constructor
    · rintro rfl
      rw [hn] at h
      cases h
    · rintro rfl
      rw [hr] at h
      cases h
  intro u hu
  cases p with
  | plain v h =>
    rw [List.mem_singleton.mp hu]
    constructor
    · rintro rfl
      exact absurd h (by decide)
    · rintro rfl
      exact absurd h (by decide)
  | short e v h =>
    rcases List.mem_cons.mp hu with rfl | hu
    · decide
    · rw [List.mem_singleton.mp hu]
      exact hshort h
  | hex a b c d v h =>
    simp only [hexUnits, Option.bind_eq_bind, Option.bind_eq_some_iff] at h
    obtain ⟨_, ha, _, hb, _, hc, _, hd, _⟩ := h
    simp only [Piece.text, List.mem_cons, List.not_mem_nil, or_false] at hu
    rcases hu with rfl | rfl | rfl | rfl | rfl | rfl
    · decide
    · decide
    · exact hdigit ha
    · exact hdigit hb
    · exact hdigit hc
    · exact hdigit hd

theorem unbroken_quoted (ps : List Piece) : Unbroken (quotedText ps) := by
  intro u hu
  rcases List.mem_cons.mp hu with rfl | hu
  · decide
  · rcases List.mem_append.mp hu with hu | hu
    · obtain ⟨p, _, hp⟩ := List.mem_flatMap.mp hu
      exact unbroken_piece p u hp
    · rw [List.mem_singleton.mp hu]
      decide

theorem unbroken_numeral (n : Numeral) : Unbroken n.1 :=
  unbroken_of_not_layout fun u hu => by
    rw [Bool.eq_false_iff]
    intro h
    exact absurd (all_isNumeric n.2 u hu) (by rw [isNumeric_of_isLayout h]; exact Bool.false_ne_true)

section
variable {pattern new : Units} (hp : IsLineEnd pattern) (hnew : new.all isLayout = true)

/-- The layout with its line breaks replaced. -/
def relaid (pattern : Units) {new : Units} (hnew : new.all isLayout = true) (l : Layout) : Layout :=
  ⟨replaceAll pattern new l.1, replaceAll_isLayout hnew l.2⟩

include hp

theorem replaceAll_layout (l : Layout) {u : UInt16} (hu : isLayout u = false) (rest : Units) :
    replaceAll pattern new (l.1 ++ u :: rest) = (relaid pattern hnew l).1 ++ replaceAll pattern new (u :: rest) := by
  refine replaceAll_append hp ?_
  rw [List.head?_cons]
  intro h
  rw [Option.some.inj h] at hu
  exact absurd hu (by decide)

theorem replaceAll_unit {u : UInt16} (hu : isLayout u = false) (rest : Units) :
    replaceAll pattern new (u :: rest) = u :: replaceAll pattern new rest := by
  refine replaceAll_plain hp ?_ ?_ rest
  · rintro rfl
    exact absurd hu (by decide)
  · rintro rfl
    exact absurd hu (by decide)

theorem replaceAll_before (l : Layout) (c : Cst) (rest : Units) :
    replaceAll pattern new (l.1 ++ (c.text ++ rest)) = (relaid pattern hnew l).1 ++ replaceAll pattern new (c.text ++ rest) := by
  obtain ⟨u, more, hc, hu, -⟩ := c.text_head
  rw [hc, List.cons_append]
  exact replaceAll_layout hp hnew l hu _

theorem replaceAll_name (l : Layout) (name : List Piece) (rest : Units) :
    replaceAll pattern new (l.1 ++ (quotedText name ++ rest)) =
      (relaid pattern hnew l).1 ++ (quotedText name ++ replaceAll pattern new rest) := by
  rw [← replaceAll_unbroken hp (unbroken_quoted name)]
  exact replaceAll_before hp hnew l (.str name) rest

mutual

/-- The line breaks of a text of JSON stand in its layout. -/
theorem Cst.replaceAll_text : ∀ (c : Cst) (rest : Units),
    replaceAll pattern new (c.text ++ rest) = (c.mapLayout (relaid pattern hnew)).text ++ replaceAll pattern new rest
  | .null, rest => replaceAll_unbroken hp (unbroken_word (by decide)) rest
  | .bool true, rest => replaceAll_unbroken hp (unbroken_word (by decide)) rest
  | .bool false, rest => replaceAll_unbroken hp (unbroken_word (by decide)) rest
  | .num n, rest => replaceAll_unbroken hp (unbroken_numeral n) rest
  | .str ps, rest => replaceAll_unbroken hp (unbroken_quoted ps) rest
  | .noItems l, rest => by
    simp only [Cst.mapLayout, Cst.text, List.cons_append, List.append_assoc, List.nil_append]
    rw [replaceAll_unit hp (by decide), replaceAll_layout hp hnew l (by decide), replaceAll_unit hp (by decide)]
  | .noMembers l, rest => by
    simp only [Cst.mapLayout, Cst.text, List.cons_append, List.append_assoc, List.nil_append]
    rw [replaceAll_unit hp (by decide), replaceAll_layout hp hnew l (by decide), replaceAll_unit hp (by decide)]
  | .arr items, rest => by
    simp only [Cst.mapLayout, Cst.text, List.cons_append]
    rw [replaceAll_unit hp (by decide), CstItems.replaceAll_text items rest]
  | .obj members, rest => by
    simp only [Cst.mapLayout, Cst.text, List.cons_append]
    rw [replaceAll_unit hp (by decide), CstMembers.replaceAll_text members rest]

theorem CstItems.replaceAll_text : ∀ (c : CstItems) (rest : Units),
    replaceAll pattern new (c.text ++ rest) = (c.mapLayout (relaid pattern hnew)).text ++ replaceAll pattern new rest
  | .last pre v post, rest => by
    simp only [CstItems.mapLayout, CstItems.text, List.append_assoc, List.cons_append, List.nil_append]
    rw [replaceAll_before hp hnew, Cst.replaceAll_text v, replaceAll_layout hp hnew post (by decide),
      replaceAll_unit hp (by decide)]
  | .cons pre v post more, rest => by
    simp only [CstItems.mapLayout, CstItems.text, List.append_assoc, List.cons_append]
    rw [replaceAll_before hp hnew, Cst.replaceAll_text v, replaceAll_layout hp hnew post (by decide),
      replaceAll_unit hp (by decide), CstItems.replaceAll_text more]

theorem CstMembers.replaceAll_text : ∀ (c : CstMembers) (rest : Units),
    replaceAll pattern new (c.text ++ rest) = (c.mapLayout (relaid pattern hnew)).text ++ replaceAll pattern new rest
  | .last pre name mid sep v post, rest => by
    simp only [CstMembers.mapLayout, CstMembers.text, List.append_assoc, List.cons_append, List.nil_append]
    rw [replaceAll_name hp hnew, replaceAll_layout hp hnew mid (by decide), replaceAll_unit hp (by decide), replaceAll_before hp hnew, Cst.replaceAll_text v,
      replaceAll_layout hp hnew post (by decide), replaceAll_unit hp (by decide)]
  | .cons pre name mid sep v post more, rest => by
    simp only [CstMembers.mapLayout, CstMembers.text, List.append_assoc, List.cons_append]
    rw [replaceAll_name hp hnew, replaceAll_layout hp hnew mid (by decide), replaceAll_unit hp (by decide), replaceAll_before hp hnew, Cst.replaceAll_text v,
      replaceAll_layout hp hnew post (by decide), replaceAll_unit hp (by decide), CstMembers.replaceAll_text more]

end

end

end Desk
