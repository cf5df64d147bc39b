import Mathlib.Data.List.Sort
import Mathlib.Data.List.Perm.Basic
import Mathlib.Data.List.Lex
import Mathlib.Data.Nat.Basic
import Desk.Lib.JsonRead

/-!
# Sorted JSON texts

A writer without layout that sorts members by the code points of their names.
What it writes is read back as the same value with its members sorted
(`Writer.parse_render`), and values that differ in the order of members only
are written alike (`Writer.render_of_same`).
-/

namespace Desk

/-! ## The order of names -/

/-- `compareCodePoints`, on the code points. -/
def comparePoints : List Nat → List Nat → Int
  | [], [] => 0
  | [], _ :: _ => -1
  | _ :: _, [] => 1
  | x :: xs, y :: ys => if x = y then comparePoints xs ys else if x < y then -1 else 1

theorem comparePoints_le_iff (xs ys : List Nat) : comparePoints xs ys ≤ 0 ↔ xs ≤ ys := by
  rw [← not_lt (a := ys)]
  induction xs generalizing ys with
  | nil => cases ys <;> simp [comparePoints]
  | cons x xs ih =>
    cases ys with
    | nil => simp [comparePoints]
    | cons y ys =>
      rw [comparePoints, List.cons_lt_cons_iff]
      split
      · rename_i h
        simp [h, ih]
      · rename_i h
        have h' : y ≠ x := fun e => h e.symm
        split
        · rename_i hlt
          simp [h', Nat.le_of_lt hlt]
        · rename_i hlt
          simp only [h', false_and, or_false]
          omega

/-- Names in the order of their code points. -/
def nameLe {α : Type} (a b : Units × α) : Prop := codePoints a.1 ≤ codePoints b.1

instance {α : Type} : DecidableRel (@nameLe α) := fun a b =>
  inferInstanceAs (Decidable (codePoints a.1 ≤ codePoints b.1))

/-! ## Writing -/

/-- How strings and numbers are written, how deep a container may stand and which name comes first. -/
structure Writer (ν : Type) where
  string : Units → Option Units
  number : ν → Option Units
  nests : Nat → Bool
  before : Units → Units → Bool

/-- Texts with commas between them. -/
def commas : List Units → Units
  | [] => []
  | [text] => text
  | text :: rest => text ++ unit ',' :: commas rest

namespace Writer

variable {ν : Type} (w : Writer ν)

def sortEntries (entries : List (Units × Units)) : List (Units × Units) :=
  entries.insertionSort fun a b => w.before a.1 b.1 = true

mutual

/-- A member is written before the members are sorted: the order reads names only. -/
def render : Value ν → Nat → Option Units
  | .null, _ => some (wordText "null")
  | .bool b, _ => some (wordText (if b then "true" else "false"))
  | .num n, _ => w.number n
  | .str s, _ => w.string s
  | .arr items, depth =>
    if w.nests depth then do
      let texts ← renderItems items (depth + 1)
      return unit '[' :: (commas texts ++ [unit ']'])
    else none
  | .obj members, depth =>
    if w.nests depth then do
      let entries ← renderMembers members (depth + 1)
      return unit '\x7b' :: (commas ((w.sortEntries entries).map Prod.snd) ++ [unit '\x7d'])
    else none

def renderItems : List (Value ν) → Nat → Option (List Units)
  | [], _ => some []
  | v :: rest, depth => do return (← render v depth) :: (← renderItems rest depth)

def renderMembers : List (Units × Value ν) → Nat → Option (List (Units × Units))
  | [], _ => some []
  | (name, v) :: rest, depth => do
    let key ← w.string name
    let text ← render v depth
    return (name, key ++ unit ':' :: text) :: (← renderMembers rest depth)

end

end Writer

/-! ## Values -/

namespace Value

variable {ν μ : Type}

mutual

/-- No object repeats a name. -/
def Distinct : Value ν → Prop
  | .arr items => DistinctItems items
  | .obj members => (members.map Prod.fst).Nodup ∧ DistinctMembers members
  | _ => True

def DistinctItems : List (Value ν) → Prop
  | [] => True
  | v :: rest => Distinct v ∧ DistinctItems rest

def DistinctMembers : List (Units × Value ν) → Prop
  | [] => True
  | (_, v) :: rest => Distinct v ∧ DistinctMembers rest

end

mutual

/-- Strings and names are good, and every container stands at a depth where one may. -/
def Fits (good : Units → Prop) (nests : Nat → Bool) : Value ν → Nat → Prop
  | .str s, _ => good s
  | .arr items, depth => nests depth = true ∧ FitsItems good nests items (depth + 1)
  | .obj members, depth => nests depth = true ∧ FitsMembers good nests members (depth + 1)
  | _, _ => True

def FitsItems (good : Units → Prop) (nests : Nat → Bool) : List (Value ν) → Nat → Prop
  | [], _ => True
  | v :: rest, depth => Fits good nests v depth ∧ FitsItems good nests rest depth

def FitsMembers (good : Units → Prop) (nests : Nat → Bool) : List (Units × Value ν) → Nat → Prop
  | [], _ => True
  | (name, v) :: rest, depth => good name ∧ Fits good nests v depth ∧ FitsMembers good nests rest depth

end

mutual

/-- The value with its members sorted and its numbers rewritten. -/
def sorted (f : ν → μ) : Value ν → Value μ
  | .null => .null
  | .bool b => .bool b
  | .num n => .num (f n)
  | .str s => .str s
  | .arr items => .arr (sortedItems f items)
  | .obj members => .obj ((sortedMembers f members).insertionSort nameLe)

def sortedItems (f : ν → μ) : List (Value ν) → List (Value μ)
  | [] => []
  | v :: rest => sorted f v :: sortedItems f rest

def sortedMembers (f : ν → μ) : List (Units × Value ν) → List (Units × Value μ)
  | [] => []
  | (name, v) :: rest => (name, sorted f v) :: sortedMembers f rest

end

mutual

/-- The same value up to the order of members, numbers compared by `eq`. -/
def Same (eq : ν → μ → Prop) : Value ν → Value μ → Prop
  | .null, .null => True
  | .bool b, .bool b' => b = b'
  | .num n, .num n' => eq n n'
  | .str s, .str s' => s = s'
  | .arr items, .arr items' => SameItems eq items items'
  | .obj members, .obj members' => ∃ ordered, members'.Perm ordered ∧ SameMembers eq members ordered
  | _, _ => False

def SameItems (eq : ν → μ → Prop) : List (Value ν) → List (Value μ) → Prop
  | [], [] => True
  | v :: rest, v' :: rest' => Same eq v v' ∧ SameItems eq rest rest'
  | _, _ => False

def SameMembers (eq : ν → μ → Prop) : List (Units × Value ν) → List (Units × Value μ) → Prop
  | [], [] => True
  | (name, v) :: rest, (name', v') :: rest' => name = name' ∧ Same eq v v' ∧ SameMembers eq rest rest'
  | _, _ => False

end

end Value

/-! ## Sorted members -/

section
variable {α β : Type}

instance : Std.Total (@nameLe α) := ⟨fun a b => le_total (codePoints a.1) (codePoints b.1)⟩

instance : IsTrans (Units × α) nameLe :=
  ⟨fun a b c (hab : codePoints a.1 ≤ codePoints b.1) (hbc : codePoints b.1 ≤ codePoints c.1) => le_trans hab hbc⟩

theorem name_eq_of_nameLe {a b : Units × α} (hab : nameLe a b) (hba : nameLe b a) : a.1 = b.1 :=
  codePoints_injective (le_antisymm hab hba)

/-- Members with distinct names have one order. -/
theorem sort_eq_of_perm {l l' : List (Units × α)} (hp : l.Perm l') (hn : (l.map Prod.fst).Nodup) :
    l.insertionSort nameLe = l'.insertionSort nameLe := by
  have hl := List.perm_insertionSort nameLe l
  have hl' := List.perm_insertionSort nameLe l'
  refine List.Perm.eq_of_pairwise (fun a b ha hb hab hba => ?_) (List.pairwise_insertionSort nameLe l)
    (List.pairwise_insertionSort nameLe l') (hl.trans (hp.trans hl'.symm))
  have ha' : a ∈ l := hl.mem_iff.mp ha
  have hb' : b ∈ l := hp.mem_iff.mpr (hl'.mem_iff.mp hb)
  exact List.inj_on_of_nodup_map hn ha' hb' (name_eq_of_nameLe hab hba)

theorem forall₂_orderedInsert {R : Units × α → Units × β → Prop} (hR : ∀ a b, R a b → a.1 = b.1)
    {a : Units × α} {b : Units × β} (hab : R a b) {l : List (Units × α)} {l' : List (Units × β)}
    (h : List.Forall₂ R l l') : List.Forall₂ R (l.orderedInsert nameLe a) (l'.orderedInsert nameLe b) := by
  induction h with
  | nil => exact .cons hab .nil
  | @cons x y l l' hxy hl ih =>
    rw [List.orderedInsert_cons, List.orderedInsert_cons]
    have hiff : nameLe a x ↔ nameLe b y := by rw [nameLe, nameLe, hR _ _ hab, hR _ _ hxy]
    by_cases hle : nameLe a x
    · rw [if_pos hle, if_pos (hiff.mp hle)]
      exact .cons hab (.cons hxy hl)
    · rw [if_neg hle, if_neg fun h => hle (hiff.mpr h)]
      exact .cons hxy ih

/-- Sorting reads names only. -/
theorem forall₂_sort {R : Units × α → Units × β → Prop} (hR : ∀ a b, R a b → a.1 = b.1)
    {l : List (Units × α)} {l' : List (Units × β)} (h : List.Forall₂ R l l') :
    List.Forall₂ R (l.insertionSort nameLe) (l'.insertionSort nameLe) := by
  induction h with
  | nil => exact .nil
  | cons hxy _ ih =>
    rw [List.insertionSort_cons, List.insertionSort_cons]
    exact forall₂_orderedInsert hR hxy ih

theorem Writer.sortEntries_eq {ν : Type} {w : Writer ν}
    (ho : ∀ a b, w.before a b = true ↔ codePoints a ≤ codePoints b) (entries : List (Units × Units)) :
    w.sortEntries entries = entries.insertionSort nameLe := by
  have hrel : (fun a b : Units × Units => w.before a.1 b.1 = true) = nameLe := by
    funext a b
    exact propext (ho a.1 b.1)
  have hcongr : ∀ (R S : Units × Units → Units × Units → Prop) [DecidableRel R] [DecidableRel S], R = S →
      entries.insertionSort R = entries.insertionSort S := by
    rintro R S _ _ rfl
    congr
  exact hcongr _ _ hrel

end

/-! ## What is written is read back -/

/-- What the writer makes of good strings and of numbers the reader reads, `f n` for the number `n`. -/
structure Writes {ν μ : Type} {r : Reader μ} (good : Units → Prop) (w : Writer ν) (s : Spelling r) (f : ν → μ) :
    Prop where
  string : ∀ {u t}, good u → w.string u = some t → ∃ ps, t = quotedText ps ∧ s.string ps = some u
  number : ∀ {n t}, w.number n = some t → ∃ l : Numeral, t = l.1 ∧ s.number l = some (f n)
  order : ∀ a b, w.before a b = true ↔ codePoints a ≤ codePoints b
  entries : ∀ {es}, (es.map Prod.fst).Nodup → r.entries es = some es

section
variable {ν μ : Type} {r : Reader μ} {s : Spelling r} {w : Writer ν} {f : ν → μ} {good : Units → Prop}

/-- The text of a value is that of a tree. -/
def Spells (s : Spelling r) (depth : Nat) (text : Units) (v : Value μ) : Prop :=
  ∃ c : Cst, c.text = text ∧ c.build s depth = some v

def SpellsMember (s : Spelling r) (depth : Nat) (e : Units × Units) (m : Units × Value μ) : Prop :=
  e.1 = m.1 ∧ ∃ (ps : List Piece) (c : Cst), e.2 = quotedText ps ++ unit ':' :: c.text ∧ s.string ps = some m.1 ∧
    c.build s depth = some m.2

theorem spelled_items {depth : Nat} {text : Units} {texts : List Units} {v : Value μ} {vs : List (Value μ)}
    (h : List.Forall₂ (Spells s depth) (text :: texts) (v :: vs)) :
    ∃ c : CstItems, c.text = commas (text :: texts) ++ [unit ']'] ∧ c.build s depth = some (v :: vs) := by
  induction texts generalizing text v vs with
  | nil =>
    obtain _ | ⟨⟨c, hc, hb⟩, h⟩ := h
    obtain _ | _ := h
    exact ⟨.last noLayout c noLayout, by rw [CstItems.text, hc]; rfl, by rw [CstItems.build, hb]; rfl⟩
  | cons text' texts ih =>
    obtain _ | ⟨⟨c, hc, hb⟩, h⟩ := h
    cases vs with
    | nil => cases h
    | cons v' vs =>
      obtain ⟨cs, hcs, hbs⟩ := ih h
      refine ⟨.cons noLayout c noLayout cs, ?_, by rw [CstItems.build, hb, hbs]; rfl⟩
      rw [CstItems.text, hc, hcs]
      simp [commas, noLayout]

theorem spelled_members {depth : Nat} {e : Units × Units} {es : List (Units × Units)} {m : Units × Value μ}
    {ms : List (Units × Value μ)} (h : List.Forall₂ (SpellsMember s depth) (e :: es) (m :: ms)) :
    ∃ c : CstMembers, c.text = commas ((e :: es).map Prod.snd) ++ [unit '\x7d'] ∧ c.build s depth = some (m :: ms) := by
  induction es generalizing e m ms with
  | nil =>
    obtain _ | ⟨⟨_, ps, c, hc, hs, hb⟩, h⟩ := h
    obtain _ | _ := h
    refine ⟨.last noLayout ps noLayout noLayout c noLayout, ?_, by rw [CstMembers.build, hs, hb]; rfl⟩
    rw [CstMembers.text]
    simp [commas, noLayout, hc]
  | cons e' es ih =>
    obtain _ | ⟨⟨_, ps, c, hc, hs, hb⟩, h⟩ := h
    cases ms with
    | nil => cases h
    | cons m' ms =>
      obtain ⟨cs, hcs, hbs⟩ := ih h
      refine ⟨.cons noLayout ps noLayout noLayout c noLayout cs, ?_, by rw [CstMembers.build, hs, hb, hbs]; rfl⟩
      rw [CstMembers.text, hcs]
      simp [commas, noLayout, hc]

theorem map_fst_sortedMembers (f : ν → μ) : ∀ members : List (Units × Value ν),
    (Value.sortedMembers f members).map Prod.fst = members.map Prod.fst
  | [] => rfl
  | (name, v) :: rest => by
    rw [Value.sortedMembers, List.map_cons, List.map_cons, map_fst_sortedMembers f rest]

mutual

theorem Writer.spells (hw : Writes good w s f) : ∀ (v : Value ν) {depth : Nat} {text : Units},
    w.render v depth = some text → v.Distinct → v.Fits good r.nests depth → Spells s depth text (v.sorted f)
  | .null, depth, text, h, _, _ => by
    rw [Writer.render, Option.some.injEq] at h
    exact ⟨.null, h, by rw [Cst.build, Value.sorted]⟩
  | .bool b, depth, text, h, _, _ => by
    rw [Writer.render, Option.some.injEq] at h
    exact ⟨.bool b, h, by rw [Cst.build, Value.sorted]⟩
  | .num n, depth, text, h, _, _ => by
    rw [Writer.render] at h
    obtain ⟨l, hl, hn⟩ := hw.number h
    exact ⟨.num l, hl.symm, by rw [Cst.build, hn, Value.sorted]; rfl⟩
  | .str u, depth, text, h, _, hg => by
    rw [Writer.render] at h
    obtain ⟨ps, hps, hs⟩ := hw.string hg h
    exact ⟨.str ps, hps.symm, by rw [Cst.build, hs, Value.sorted]; rfl⟩
  | .arr items, depth, text, h, hd, hn => by
    rw [Writer.render] at h
    split at h
    · simp only [Option.bind_eq_bind, Option.bind_eq_some_iff, Option.pure_def, Option.some.injEq] at h
      obtain ⟨texts, ht, rfl⟩ := h
      have hall := Writer.spellsItems hw items ht hd hn.2
      rw [Value.sorted]
      cases texts with
      | nil =>
        rw [List.forall₂_nil_left_iff] at hall
        exact ⟨.noItems noLayout, rfl, by rw [Cst.build, if_pos hn.1, hall]⟩
      | cons t texts =>
        cases hv : Value.sortedItems f items with
        | nil => rw [hv] at hall; cases hall
        | cons v vs =>
          rw [hv] at hall
          obtain ⟨c, hc, hb⟩ := spelled_items hall
          exact ⟨.arr c, by rw [Cst.text, hc], by rw [Cst.build, if_pos hn.1, hb]; rfl⟩
    · cases h
  | .obj members, depth, text, h, hd, hn => by
    rw [Writer.render] at h
    split at h
    · simp only [Option.bind_eq_bind, Option.bind_eq_some_iff, Option.pure_def, Option.some.injEq] at h
      obtain ⟨es, he, rfl⟩ := h
      have hall := forall₂_sort (fun _ _ h => h.1) (Writer.spellsMembers hw members he hd.2 hn.2)
      have hnames : (((Value.sortedMembers f members).insertionSort nameLe).map Prod.fst).Nodup := by
        rw [((List.perm_insertionSort nameLe _).map Prod.fst).nodup_iff, map_fst_sortedMembers]
        exact hd.1
      have hentries := hw.entries hnames
      rw [Value.sorted, w.sortEntries_eq hw.order]
      cases hes : es.insertionSort nameLe with
      | nil =>
        rw [hes, List.forall₂_nil_left_iff] at hall
        exact ⟨.noMembers noLayout, rfl, by rw [Cst.build, if_pos hn.1, hall]⟩
      | cons e es' =>
        cases hv : (Value.sortedMembers f members).insertionSort nameLe with
        | nil => rw [hes, hv] at hall; cases hall
        | cons m ms =>
          rw [hes, hv] at hall
          rw [hv] at hentries
          obtain ⟨c, hc, hb⟩ := spelled_members hall
          refine ⟨.obj c, by rw [Cst.text, hc], ?_⟩
          rw [Cst.build, if_pos hn.1, hb, Option.bind_some, hentries]
          rfl
    · cases h

theorem Writer.spellsItems (hw : Writes good w s f) : ∀ (items : List (Value ν)) {depth : Nat} {texts : List Units},
    w.renderItems items depth = some texts → Value.DistinctItems items → Value.FitsItems good r.nests items depth →
      List.Forall₂ (Spells s depth) texts (Value.sortedItems f items)
  | [], depth, texts, h, _, _ => by
    rw [Writer.renderItems, Option.some.injEq] at h
    rw [← h]
    exact .nil
  | v :: rest, depth, texts, h, hd, hn => by
    simp only [Writer.renderItems, Option.bind_eq_bind, Option.bind_eq_some_iff, Option.pure_def,
      Option.some.injEq] at h
    obtain ⟨t, ht, ts, hts, rfl⟩ := h
    exact .cons (Writer.spells hw v ht hd.1 hn.1) (Writer.spellsItems hw rest hts hd.2 hn.2)

theorem Writer.spellsMembers (hw : Writes good w s f) :
    ∀ (members : List (Units × Value ν)) {depth : Nat} {es : List (Units × Units)},
    w.renderMembers members depth = some es → Value.DistinctMembers members →
      Value.FitsMembers good r.nests members depth →
      List.Forall₂ (SpellsMember s depth) es (Value.sortedMembers f members)
  | [], depth, es, h, _, _ => by
    rw [Writer.renderMembers, Option.some.injEq] at h
    rw [← h]
    exact .nil
  | (name, v) :: rest, depth, es, h, hd, hn => by
    simp only [Writer.renderMembers, Option.bind_eq_bind, Option.bind_eq_some_iff, Option.pure_def,
      Option.some.injEq] at h
    obtain ⟨k, hk, t, ht, ts, hts, rfl⟩ := h
    obtain ⟨ps, rfl, hps⟩ := hw.string hn.1 hk
    obtain ⟨c, rfl, hb⟩ := Writer.spells hw v ht hd.1 hn.2.1
    exact .cons ⟨rfl, ps, c, rfl, hps, hb⟩ (Writer.spellsMembers hw rest hts hd.2 hn.2.2)

end

/-- What is written of a value is read as the value with its members sorted. -/
theorem Writer.parse_render (hw : Writes good w s f) {v : Value ν} {text : Units} (h : w.render v 0 = some text)
    (hd : v.Distinct) (hn : v.Fits good r.nests 0) : r.parse text = some (v.sorted f) := by
  obtain ⟨c, hc, hb⟩ := w.spells hw v h hd hn
  exact (Reader.parse_iff s).mpr ⟨noLayout, c, noLayout, by simp [noLayout, hc], hb⟩

end

/-! ## What a reader builds -/

/-- Members with a repeated name are refused. -/
def refuseRepeats {α : Type} (members : List (Units × α)) : Option (List (Units × α)) :=
  if (members.map Prod.fst).Nodup then some members else none

theorem refuseRepeats_eq_some {α : Type} {members members' : List (Units × α)} :
    refuseRepeats members = some members' ↔ members' = members ∧ (members.map Prod.fst).Nodup := by
  rw [refuseRepeats]
  split
  · rename_i h
    rw [Option.some.injEq]
    exact ⟨fun e => ⟨e.symm, h⟩, fun e => e.1.symm⟩
  · rename_i h
    exact ⟨nofun, fun e => absurd e.2 h⟩

section
variable {ν : Type} {r : Reader ν} (s : Spelling r) {good : Units → Prop}

mutual

/-- A reader that refuses repeated names reads values without them, of its strings and no deeper than it goes. -/
theorem Cst.build_fits (hr : r.entries = refuseRepeats) (hg : ∀ {ps u}, s.string ps = some u → good u) :
    ∀ (c : Cst) {depth : Nat} {v : Value ν}, c.build s depth = some v → v.Distinct ∧ v.Fits good r.nests depth
  | .null, _, _, h => by
    rw [Cst.build, Option.some.injEq] at h
    rw [← h]
    exact ⟨trivial, trivial⟩
  | .bool _, _, _, h => by
    rw [Cst.build, Option.some.injEq] at h
    rw [← h]
    exact ⟨trivial, trivial⟩
  | .num _, _, _, h => by
    obtain ⟨_, _, rfl⟩ := Option.map_eq_some_iff.mp h
    exact ⟨trivial, trivial⟩
  | .str _, _, _, h => by
    obtain ⟨_, hu, rfl⟩ := Option.map_eq_some_iff.mp h
    exact ⟨trivial, hg hu⟩
  | .noItems _, _, _, h => by
    rw [Cst.build] at h
    split at h
    · rename_i hn
      rw [Option.some.injEq] at h
      rw [← h]
      exact ⟨trivial, hn, trivial⟩
    · cases h
  | .arr items, _, _, h => by
    rw [Cst.build] at h
    split at h
    · rename_i hn
      obtain ⟨vs, hvs, rfl⟩ := Option.map_eq_some_iff.mp h
      have hitems := items.build_fits hr hg hvs
      exact ⟨hitems.1, hn, hitems.2⟩
    · cases h
  | .noMembers _, _, _, h => by
    rw [Cst.build] at h
    split at h
    · rename_i hn
      rw [Option.some.injEq] at h
      rw [← h]
      exact ⟨⟨List.nodup_nil, trivial⟩, hn, trivial⟩
    · cases h
  | .obj members, _, _, h => by
    rw [Cst.build] at h
    split at h
    · rename_i hn
      obtain ⟨es, hes, rfl⟩ := Option.map_eq_some_iff.mp h
      obtain ⟨ms, hms, he⟩ := Option.bind_eq_some_iff.mp hes
      rw [hr] at he
      obtain ⟨rfl, hnames⟩ := refuseRepeats_eq_some.mp he
      have hmembers := members.build_fits hr hg hms
      exact ⟨⟨hnames, hmembers.1⟩, hn, hmembers.2⟩
    · cases h

theorem CstItems.build_fits (hr : r.entries = refuseRepeats) (hg : ∀ {ps u}, s.string ps = some u → good u) :
    ∀ (c : CstItems) {depth : Nat} {vs : List (Value ν)}, c.build s depth = some vs →
    Value.DistinctItems vs ∧ Value.FitsItems good r.nests vs depth
  | .last _ v _, _, _, h => by
    obtain ⟨x, hx, rfl⟩ := Option.map_eq_some_iff.mp h
    have hv := v.build_fits hr hg hx
    exact ⟨⟨hv.1, trivial⟩, hv.2, trivial⟩
  | .cons _ v _ rest, _, _, h => by
    simp only [CstItems.build, Option.bind_eq_bind, Option.bind_eq_some_iff, Option.pure_def, Option.some.injEq] at h
    obtain ⟨x, hx, xs, hxs, rfl⟩ := h
    have hv := v.build_fits hr hg hx
    have hrest := rest.build_fits hr hg hxs
    exact ⟨⟨hv.1, hrest.1⟩, hv.2, hrest.2⟩

theorem CstMembers.build_fits (hr : r.entries = refuseRepeats) (hg : ∀ {ps u}, s.string ps = some u → good u) :
    ∀ (c : CstMembers) {depth : Nat} {vs : List (Units × Value ν)}, c.build s depth = some vs →
      Value.DistinctMembers vs ∧ Value.FitsMembers good r.nests vs depth
  | .last _ _ _ _ v _, _, _, h => by
    simp only [CstMembers.build, Option.bind_eq_bind, Option.bind_eq_some_iff, Option.pure_def, Option.some.injEq] at h
    obtain ⟨_, hu, x, hx, rfl⟩ := h
    have hv := v.build_fits hr hg hx
    exact ⟨⟨hv.1, trivial⟩, hg hu, hv.2, trivial⟩
  | .cons _ _ _ _ v _ rest, _, _, h => by
    simp only [CstMembers.build, Option.bind_eq_bind, Option.bind_eq_some_iff, Option.pure_def, Option.some.injEq] at h
    obtain ⟨_, hu, x, hx, xs, hxs, rfl⟩ := h
    have hv := v.build_fits hr hg hx
    have hrest := rest.build_fits hr hg hxs
    exact ⟨⟨hv.1, hrest.1⟩, hg hu, hv.2, hrest.2⟩

end

include s in
/-- What a reader that refuses repeated names accepts. -/
theorem Reader.parse_fits (hr : r.entries = refuseRepeats) (hg : ∀ {ps u}, s.string ps = some u → good u)
    {text : Units} {v : Value ν} (h : r.parse text = some v) : v.Distinct ∧ v.Fits good r.nests 0 := by
  obtain ⟨_, c, _, _, hb⟩ := (Reader.parse_iff s).mp h
  exact c.build_fits s hr hg hb

end

/-! ## The same value -/

section
variable {ν μ : Type} {w : Writer ν} {w' : Writer μ} {eq : ν → μ → Prop}

/-- Related numbers are written alike, and so are strings and names. -/
structure WritesAlike (w : Writer ν) (w' : Writer μ) (eq : ν → μ → Prop) : Prop where
  string : ∀ {u t}, w.string u = some t → w'.string u = some t
  number : ∀ {n m t}, eq n m → w.number n = some t → w'.number m = some t
  nests : ∀ {depth}, w.nests depth = true → w'.nests depth = true
  order : ∀ a b, w.before a b = true ↔ codePoints a ≤ codePoints b
  order' : ∀ a b, w'.before a b = true ↔ codePoints a ≤ codePoints b

theorem Writer.map_fst_renderMembers : ∀ (members : List (Units × Value ν)) {depth : Nat} {es : List (Units × Units)},
    w.renderMembers members depth = some es → es.map Prod.fst = members.map Prod.fst
  | [], depth, es, h => by
    rw [Writer.renderMembers, Option.some.injEq] at h
    rw [← h]
    rfl
  | (name, v) :: rest, depth, es, h => by
    simp only [Writer.renderMembers, Option.bind_eq_bind, Option.bind_eq_some_iff, Option.pure_def,
      Option.some.injEq] at h
    obtain ⟨_, _, _, _, ts, hts, rfl⟩ := h
    rw [List.map_cons, List.map_cons, Writer.map_fst_renderMembers rest hts]

theorem Writer.renderMembers_cons {name : Units} {v : Value ν} {rest : List (Units × Value ν)} {depth : Nat}
    {es : List (Units × Units)} : w.renderMembers ((name, v) :: rest) depth = some es ↔
      ∃ k t ts, w.string name = some k ∧ w.render v depth = some t ∧ w.renderMembers rest depth = some ts ∧
        es = (name, k ++ unit ':' :: t) :: ts := by
  simp only [Writer.renderMembers, Option.bind_eq_bind, Option.bind_eq_some_iff, Option.pure_def, Option.some.injEq]
  constructor
  · rintro ⟨k, hk, t, ht, ts, hts, rfl⟩
    exact ⟨k, t, ts, hk, ht, hts, rfl⟩
  · rintro ⟨k, t, ts, hk, ht, hts, rfl⟩
    exact ⟨k, hk, t, ht, ts, hts, rfl⟩

/-- The order of members does not matter to what they are written as. -/
theorem Writer.renderMembers_perm {members members' : List (Units × Value ν)} (hp : members.Perm members') {depth : Nat}
    {es : List (Units × Units)} (h : w.renderMembers members depth = some es) :
    ∃ es', w.renderMembers members' depth = some es' ∧ es.Perm es' := by
  induction hp generalizing es with
  | nil => exact ⟨es, h, List.Perm.refl _⟩
  | cons m _ ih =>
    obtain ⟨k, t, ts, hk, ht, hts, rfl⟩ := Writer.renderMembers_cons.mp h
    obtain ⟨ts', hts', hperm⟩ := ih hts
    exact ⟨_, Writer.renderMembers_cons.mpr ⟨k, t, ts', hk, ht, hts', rfl⟩, hperm.cons _⟩
  | swap m m' rest =>
    obtain ⟨k, t, ts, hk, ht, hts, rfl⟩ := Writer.renderMembers_cons.mp h
    obtain ⟨k', t', ts', hk', ht', hts', rfl⟩ := Writer.renderMembers_cons.mp hts
    exact ⟨_, Writer.renderMembers_cons.mpr ⟨k', t', _, hk', ht',
      Writer.renderMembers_cons.mpr ⟨k, t, ts', hk, ht, hts', rfl⟩, rfl⟩, List.Perm.swap _ _ _⟩
  | trans _ _ ih₁ ih₂ =>
    obtain ⟨es₁, h₁, hp₁⟩ := ih₁ h
    obtain ⟨es₂, h₂, hp₂⟩ := ih₂ h₁
    exact ⟨es₂, h₂, hp₁.trans hp₂⟩

mutual

/-- The same value is written alike. -/
theorem Writer.render_of_same (ha : WritesAlike w w' eq) : ∀ (v : Value ν) {v' : Value μ} {depth : Nat} {text : Units},
    v.Same eq v' → v.Distinct → w.render v depth = some text → w'.render v' depth = some text
  | .null, v', depth, text, hs, _, h => by
    cases v' <;> first | exact absurd hs id | skip
    rw [Writer.render] at h ⊢
    exact h
  | .bool b, v', depth, text, hs, _, h => by
    cases v' <;> first | exact absurd hs id | skip
    rw [Writer.render] at h ⊢
    rw [← h, show b = _ from hs]
  | .num n, v', depth, text, hs, _, h => by
    cases v' <;> first | exact absurd hs id | skip
    rw [Writer.render] at h ⊢
    exact ha.number hs h
  | .str u, v', depth, text, hs, _, h => by
    cases v' <;> first | exact absurd hs id | skip
    rw [Writer.render] at h ⊢
    rw [← show u = _ from hs]
    exact ha.string h
  | .arr items, v', depth, text, hs, hd, h => by
    cases v' <;> first | exact absurd hs id | skip
    rename_i items'
    rw [Writer.render] at h
    split at h
    · rename_i hn
      simp only [Option.bind_eq_bind, Option.bind_eq_some_iff] at h
      obtain ⟨texts, ht, h⟩ := h
      have ht' := Writer.renderItems_of_same ha items hs hd ht
      rw [Writer.render, if_pos (ha.nests hn), ht']
      exact h
    · cases h
  | .obj members, v', depth, text, hs, hd, h => by
    cases v' <;> first | exact absurd hs id | skip
    rename_i members'
    obtain ⟨ordered, hperm, hs⟩ := hs
    rw [Writer.render] at h
    split at h
    · rename_i hn
      simp only [Option.bind_eq_bind, Option.bind_eq_some_iff] at h
      obtain ⟨es, he, h⟩ := h
      have he' := Writer.renderMembers_of_same ha members hs hd.2 he
      obtain ⟨es', hes', hp⟩ := Writer.renderMembers_perm hperm.symm he'
      have hnames : (es.map Prod.fst).Nodup := by
        rw [Writer.map_fst_renderMembers members he]
        exact hd.1
      have hsort : w'.sortEntries es' = w.sortEntries es := by
        rw [w.sortEntries_eq ha.order, w'.sortEntries_eq ha.order']
        exact (sort_eq_of_perm hp hnames).symm
      rw [Writer.render, if_pos (ha.nests hn), hes', ← h]
      show some (_ :: (commas ((w'.sortEntries es').map Prod.snd) ++ _)) = _
      rw [hsort]
      rfl
    · cases h

theorem Writer.renderItems_of_same (ha : WritesAlike w w' eq) :
    ∀ (items : List (Value ν)) {items' : List (Value μ)} {depth : Nat} {texts : List Units},
    Value.SameItems eq items items' → Value.DistinctItems items → w.renderItems items depth = some texts →
      w'.renderItems items' depth = some texts
  | [], items', depth, texts, hs, _, h => by
    cases items' with
    | nil => rw [Writer.renderItems] at h ⊢; exact h
    | cons => exact absurd hs id
  | v :: rest, items', depth, texts, hs, hd, h => by
    cases items' with
    | nil => exact absurd hs id
    | cons v' rest' =>
      simp only [Writer.renderItems, Option.bind_eq_bind, Option.bind_eq_some_iff] at h
      obtain ⟨t, ht, ts, hts, h⟩ := h
      rw [Writer.renderItems, Writer.render_of_same ha v hs.1 hd.1 ht, Writer.renderItems_of_same ha rest hs.2 hd.2 hts]
      exact h

theorem Writer.renderMembers_of_same (ha : WritesAlike w w' eq) :
    ∀ (members : List (Units × Value ν)) {members' : List (Units × Value μ)} {depth : Nat} {es : List (Units × Units)},
    Value.SameMembers eq members members' → Value.DistinctMembers members → w.renderMembers members depth = some es →
      w'.renderMembers members' depth = some es
  | [], members', depth, es, hs, _, h => by
    cases members' with
    | nil => rw [Writer.renderMembers] at h ⊢; exact h
    | cons => exact absurd hs id
  | (name, v) :: rest, members', depth, es, hs, hd, h => by
    cases members' with
    | nil => exact absurd hs id
    | cons m rest' =>
      obtain ⟨name', v'⟩ := m
      obtain ⟨rfl, hs⟩ := hs
      obtain ⟨k, t, ts, hk, ht, hts, rfl⟩ := Writer.renderMembers_cons.mp h
      exact Writer.renderMembers_cons.mpr ⟨k, t, ts, ha.string hk, Writer.render_of_same ha v hs.1 hd.1 ht,
        Writer.renderMembers_of_same ha rest hs.2 hd.2 hts, rfl⟩

end

end

section
variable {ν μ : Type} {w' : Writer μ} {eq : ν → μ → Prop}

mutual

/-- The numbers of a value that is written are written. -/
theorem Writer.same_number : ∀ (v : Value ν) {v' : Value μ} {depth : Nat} {text : Units}, v.Same eq v' →
    w'.render v' depth = some text → v.Same (fun n m => eq n m ∧ ∃ t, w'.number m = some t) v'
  | .null, v', _, _, hs, _ => by cases v' <;> exact hs
  | .bool _, v', _, _, hs, _ => by cases v' <;> exact hs
  | .num n, v', depth, text, hs, h => by
    cases v' <;> first | exact absurd hs id | exact ⟨hs, text, h⟩
  | .str _, v', _, _, hs, _ => by cases v' <;> exact hs
  | .arr items, v', depth, text, hs, h => by
    cases v' <;> first | exact absurd hs id | skip
    rw [Writer.render] at h
    split at h
    · obtain ⟨_, ht, _⟩ := Option.bind_eq_some_iff.mp h
      exact Writer.sameItems_number items hs ht
    · cases h
  | .obj members, v', depth, text, hs, h => by
    cases v' <;> first | exact absurd hs id | skip
    rw [Writer.render] at h
    split at h
    · obtain ⟨_, he, _⟩ := Option.bind_eq_some_iff.mp h
      obtain ⟨ordered, hp, hs⟩ := hs
      obtain ⟨_, he', _⟩ := Writer.renderMembers_perm hp he
      exact ⟨ordered, hp, Writer.sameMembers_number members hs he'⟩
    · cases h

theorem Writer.sameItems_number : ∀ (items : List (Value ν)) {items' : List (Value μ)} {depth : Nat} {texts : List Units},
    Value.SameItems eq items items' → w'.renderItems items' depth = some texts →
      Value.SameItems (fun n m => eq n m ∧ ∃ t, w'.number m = some t) items items'
  | [], items', _, _, hs, _ => by cases items' <;> exact hs
  | v :: rest, items', depth, texts, hs, h => by
    cases items' with
    | nil => exact absurd hs id
    | cons v' rest' =>
      simp only [Writer.renderItems, Option.bind_eq_bind, Option.bind_eq_some_iff] at h
      obtain ⟨t, ht, ts, hts, _⟩ := h
      exact ⟨Writer.same_number v hs.1 ht, Writer.sameItems_number rest hs.2 hts⟩

theorem Writer.sameMembers_number :
    ∀ (members : List (Units × Value ν)) {members' : List (Units × Value μ)} {depth : Nat} {es : List (Units × Units)},
    Value.SameMembers eq members members' → w'.renderMembers members' depth = some es →
      Value.SameMembers (fun n m => eq n m ∧ ∃ t, w'.number m = some t) members members'
  | [], members', _, _, hs, _ => by cases members' <;> exact hs
  | (name, v) :: rest, members', depth, es, hs, h => by
    cases members' with
    | nil => exact absurd hs id
    | cons m rest' =>
      obtain ⟨_, _, _, _, ht, hts, _⟩ := Writer.renderMembers_cons.mp h
      exact ⟨hs.1, Writer.same_number v hs.2.1 ht, Writer.sameMembers_number rest hs.2.2 hts⟩

end

end

namespace Value

variable {ν μ : Type} {eq eq' : ν → μ → Prop}

mutual

theorem Same.imp (hi : ∀ {n m}, eq n m → eq' n m) : ∀ (v : Value ν) {v' : Value μ}, v.Same eq v' → v.Same eq' v'
  | .null, v', h => by cases v' <;> exact h
  | .bool _, v', h => by cases v' <;> exact h
  | .num _, v', h => by cases v' <;> first | exact absurd h id | exact hi h
  | .str _, v', h => by cases v' <;> exact h
  | .arr items, v', h => by cases v' <;> first | exact absurd h id | exact SameItems.imp hi items h
  | .obj members, v', h => by
    cases v' <;> first | exact absurd h id | skip
    obtain ⟨ordered, hp, h⟩ := h
    exact ⟨ordered, hp, SameMembers.imp hi members h⟩

theorem SameItems.imp (hi : ∀ {n m}, eq n m → eq' n m) : ∀ (items : List (Value ν)) {items' : List (Value μ)},
    SameItems eq items items' → SameItems eq' items items'
  | [], items', h => by cases items' <;> exact h
  | v :: rest, items', h => by
    cases items' with
    | nil => exact absurd h id
    | cons v' rest' => exact ⟨Same.imp hi v h.1, SameItems.imp hi rest h.2⟩

theorem SameMembers.imp (hi : ∀ {n m}, eq n m → eq' n m) :
    ∀ (members : List (Units × Value ν)) {members' : List (Units × Value μ)},
    SameMembers eq members members' → SameMembers eq' members members'
  | [], members', h => by cases members' <;> exact h
  | (_, v) :: rest, members', h => by
    cases members' with
    | nil => exact absurd h id
    | cons m' rest' => exact ⟨h.1, Same.imp hi v h.2.1, SameMembers.imp hi rest h.2.2⟩

end

end Value

/-! ## The sorted value -/

namespace Value

variable {ν μ κ : Type}

theorem sortedMembers_eq_map (f : ν → μ) : ∀ members : List (Units × Value ν),
    sortedMembers f members = members.map fun m => (m.1, m.2.sorted f)
  | [] => rfl
  | (name, v) :: rest => by rw [sortedMembers, sortedMembers_eq_map f rest]; rfl

mutual

/-- A value is the same as its sorted one. -/
theorem same_sorted (f : ν → μ) : ∀ v : Value ν, v.Same (fun n m => m = f n) (v.sorted f)
  | .null => trivial
  | .bool _ => rfl
  | .num _ => rfl
  | .str _ => rfl
  | .arr items => sameItems_sorted f items
  | .obj members => ⟨sortedMembers f members, List.perm_insertionSort nameLe _, sameMembers_sorted f members⟩

theorem sameItems_sorted (f : ν → μ) : ∀ items : List (Value ν),
    SameItems (fun n m => m = f n) items (sortedItems f items)
  | [] => trivial
  | v :: rest => ⟨same_sorted f v, sameItems_sorted f rest⟩

theorem sameMembers_sorted (f : ν → μ) : ∀ members : List (Units × Value ν),
    SameMembers (fun n m => m = f n) members (sortedMembers f members)
  | [] => trivial
  | (_, v) :: rest => ⟨rfl, same_sorted f v, sameMembers_sorted f rest⟩

end

/-- What is a permutation of an image is the image of a permutation. -/
theorem exists_perm_map {α β : Type} {g : α → β} {l : List β} {m : List α} (h : l.Perm (m.map g)) :
    ∃ m', m.Perm m' ∧ l = m'.map g := by
  have hall : List.Forall₂ (fun b a => b = g a) (m.map g) m := by
    rw [List.forall₂_map_left_iff]
    exact List.forall₂_same.mpr fun _ _ => rfl
  obtain ⟨m', hm', hp⟩ := List.perm_comp_forall₂ h hall
  refine ⟨m', hp.symm, ?_⟩
  clear hp hall h
  induction hm' with
  | nil => rfl
  | cons hab _ ih => rw [List.map_cons, hab, ih]

mutual

/-- The value with the members of every object arranged anew and its numbers rewritten. -/
def arranged (arrange : List (Units × Value κ) → List (Units × Value κ)) (f : ν → κ) : Value ν → Value κ
  | .null => .null
  | .bool b => .bool b
  | .num n => .num (f n)
  | .str s => .str s
  | .arr items => .arr (arrangedItems arrange f items)
  | .obj members => .obj (arrange (arrangedMembers arrange f members))

def arrangedItems (arrange : List (Units × Value κ) → List (Units × Value κ)) (f : ν → κ) : List (Value ν) → List (Value κ)
  | [] => []
  | v :: rest => arranged arrange f v :: arrangedItems arrange f rest

def arrangedMembers (arrange : List (Units × Value κ) → List (Units × Value κ)) (f : ν → κ) :
    List (Units × Value ν) → List (Units × Value κ)
  | [] => []
  | (name, v) :: rest => (name, arranged arrange f v) :: arrangedMembers arrange f rest

end

variable {arrange : List (Units × Value κ) → List (Units × Value κ)}

theorem arrangedMembers_eq_map (f : ν → κ) : ∀ members : List (Units × Value ν),
    arrangedMembers arrange f members = members.map fun m => (m.1, m.2.arranged arrange f)
  | [] => rfl
  | (name, v) :: rest => by rw [arrangedMembers, arrangedMembers_eq_map f rest]; rfl

mutual

/-- Values with one arranged form are the same. -/
theorem same_of_arranged (hperm : ∀ members, (arrange members).Perm members) (f : ν → κ) (g : μ → κ) : ∀ (v : Value ν) (v' : Value μ), v.arranged arrange f = v'.arranged arrange g →
    v.Same (fun n m => f n = g m) v'
  | .null, v', h => by cases v' <;> simp only [arranged, reduceCtorEq] at h; trivial
  | .bool b, v', h => by
    cases v' <;> simp only [arranged, reduceCtorEq] at h
    exact Value.bool.inj h
  | .num n, v', h => by
    cases v' <;> simp only [arranged, reduceCtorEq] at h
    exact Value.num.inj h
  | .str u, v', h => by
    cases v' <;> simp only [arranged, reduceCtorEq] at h
    exact Value.str.inj h
  | .arr items, v', h => by
    cases v' <;> simp only [arranged, reduceCtorEq] at h
    exact sameItems_of_arranged hperm f g items _ (Value.arr.inj h)
  | .obj members, v', h => by
    cases v' <;> simp only [arranged, reduceCtorEq] at h
    rename_i members'
    have hp : (arrangedMembers arrange f members).Perm (arrangedMembers arrange g members') :=
      (hperm _).symm.trans (Value.obj.inj h ▸ hperm _)
    rw [arrangedMembers_eq_map g members'] at hp
    obtain ⟨ordered, hordered, heq⟩ := exists_perm_map hp
    exact ⟨ordered, hordered,
      sameMembers_of_arranged hperm f g members ordered (heq.trans (arrangedMembers_eq_map g ordered).symm)⟩

theorem sameItems_of_arranged (hperm : ∀ members, (arrange members).Perm members) (f : ν → κ) (g : μ → κ) : ∀ (items : List (Value ν)) (items' : List (Value μ)),
    arrangedItems arrange f items = arrangedItems arrange g items' → SameItems (fun n m => f n = g m) items items'
  | [], items', h => by
    cases items' with
    | nil => trivial
    | cons => cases h
  | v :: rest, items', h => by
    cases items' with
    | nil => cases h
    | cons v' rest' =>
      rw [arrangedItems, arrangedItems, List.cons.injEq] at h
      exact ⟨same_of_arranged hperm f g v v' h.1, sameItems_of_arranged hperm f g rest rest' h.2⟩

theorem sameMembers_of_arranged (hperm : ∀ members, (arrange members).Perm members) (f : ν → κ) (g : μ → κ) :
    ∀ (members : List (Units × Value ν)) (members' : List (Units × Value μ)),
    arrangedMembers arrange f members = arrangedMembers arrange g members' →
      SameMembers (fun n m => f n = g m) members members'
  | [], members', h => by
    cases members' with
    | nil => trivial
    | cons => cases h
  | (name, v) :: rest, members', h => by
    cases members' with
    | nil => cases h
    | cons m rest' =>
      obtain ⟨name', v'⟩ := m
      rw [arrangedMembers, arrangedMembers, List.cons.injEq, Prod.mk.injEq] at h
      exact ⟨h.1.1, same_of_arranged hperm f g v v' h.1.2, sameMembers_of_arranged hperm f g rest rest' h.2⟩

end

mutual

/-- Sorting is one arrangement. -/
theorem sorted_eq_arranged (f : ν → κ) : ∀ v : Value ν, v.sorted f = v.arranged (·.insertionSort nameLe) f
  | .null => rfl
  | .bool _ => rfl
  | .num _ => rfl
  | .str _ => rfl
  | .arr items => by rw [sorted, arranged, sortedItems_eq_arranged f items]
  | .obj members => by rw [sorted, arranged, sortedMembers_eq_arranged f members]

theorem sortedItems_eq_arranged (f : ν → κ) : ∀ items : List (Value ν),
    sortedItems f items = arrangedItems (·.insertionSort nameLe) f items
  | [] => rfl
  | v :: rest => by rw [sortedItems, arrangedItems, sorted_eq_arranged f v, sortedItems_eq_arranged f rest]

theorem sortedMembers_eq_arranged (f : ν → κ) : ∀ members : List (Units × Value ν),
    sortedMembers f members = arrangedMembers (·.insertionSort nameLe) f members
  | [] => rfl
  | (name, v) :: rest => by rw [sortedMembers, arrangedMembers, sorted_eq_arranged f v, sortedMembers_eq_arranged f rest]

end

/-- Values with one sorted form are the same. -/
theorem same_of_sorted (f : ν → κ) (g : μ → κ) (v : Value ν) (v' : Value μ) (h : v.sorted f = v'.sorted g) :
    v.Same (fun n m => f n = g m) v' := by
  rw [sorted_eq_arranged, sorted_eq_arranged] at h
  exact same_of_arranged (fun members => List.perm_insertionSort nameLe members) f g v v' h

end Value

/-! ## Outside strings -/

/-- What stands outside strings; the flag says whether one is open. -/
def outside : Bool → Units → Units
  | _, [] => []
  | false, u :: rest => if u = quoteUnit then outside true rest else u :: outside false rest
  | true, u :: rest =>
    if u = quoteUnit then outside false rest
    else if u = escapeUnit then
      match rest with
      | [] => []
      | _ :: rest => outside true rest
    else outside true rest

def isVisible (u : UInt16) : Bool := decide (0x20 < u ∧ u < 0x7f)

/-- Outside its strings the text has no layout and no control character. -/
def Bare (text : Units) : Prop :=
  ∀ rest, ∃ bare, outside false (text ++ rest) = bare ++ outside false rest ∧ ∀ u ∈ bare, isVisible u = true

theorem bare_nil : Bare [] := fun _ => ⟨[], rfl, nofun⟩

theorem Bare.append {a b : Units} (ha : Bare a) (hb : Bare b) : Bare (a ++ b) := by
  intro rest
  obtain ⟨x, hx, hvx⟩ := ha (b ++ rest)
  obtain ⟨y, hy, hvy⟩ := hb rest
  refine ⟨x ++ y, by rw [List.append_assoc, hx, hy, List.append_assoc], fun u hu => ?_⟩
  rcases List.mem_append.mp hu with h | h
  · exact hvx u h
  · exact hvy u h

theorem bare_of_visible {text : Units} (h : ∀ u ∈ text, isVisible u = true ∧ u ≠ quoteUnit) : Bare text := by
  induction text with
  | nil => exact bare_nil
  | cons u text ih =>
    intro rest
    obtain ⟨bare, hb, hv⟩ := ih (fun v hv => h v (List.mem_cons_of_mem _ hv)) rest
    obtain ⟨hvis, hq⟩ := h u List.mem_cons_self
    refine ⟨u :: bare, by rw [List.cons_append, outside, if_neg hq, hb]; rfl, fun v hv' => ?_⟩
    rcases List.mem_cons.mp hv' with rfl | hv'
    · exact hvis
    · exact hv v hv'

theorem bare_word {w : String} (h : ((wordText w).all fun u => isVisible u && u != quoteUnit) = true) :
    Bare (wordText w) :=
  bare_of_visible fun u hu => by
    have hv := List.all_eq_true.mp h u hu
    rw [Bool.and_eq_true, bne_iff_ne] at hv
    exact hv

theorem Bare.cons {u : UInt16} (hu : isVisible u = true) (hq : u ≠ quoteUnit) {text : Units} (h : Bare text) :
    Bare (u :: text) := by
  have hone : Bare [u] := bare_of_visible fun v hv => by
    rw [List.mem_singleton.mp hv]
    exact ⟨hu, hq⟩
  exact hone.append h

theorem outside_plain {u : UInt16} (hq : u ≠ quoteUnit) (hb : u ≠ escapeUnit) (rest : Units) :
    outside true (u :: rest) = outside true rest := by
  rw [outside.eq_def]
  dsimp only
  rw [if_neg hq, if_neg hb]

theorem outside_close (rest : Units) : outside true (quoteUnit :: rest) = outside false rest := by
  rw [outside.eq_def]
  dsimp only
  rw [if_pos rfl]

theorem outside_piece (p : Piece) (rest : Units) : outside true (p.text ++ rest) = outside true rest := by
  have hskip : ∀ (u : UInt16) (more : Units), outside true (escapeUnit :: u :: more) = outside true more := by
    intro u more
    rw [outside, if_neg (by decide), if_pos rfl]
  cases p with
  | plain u h =>
    simp only [isPlain, Bool.and_eq_true, bne_iff_ne] at h
    exact outside_plain h.1.2 h.2 rest
  | short e u h => exact hskip e rest
  | hex a b c d u h =>
    simp only [hexUnits, Option.bind_eq_bind, Option.bind_eq_some_iff] at h
    obtain ⟨_, ha, _, hb, _, hc, _, hd, _⟩ := h
    show outside true (escapeUnit :: unit 'u' :: a :: b :: c :: d :: rest) = _
    rw [hskip, outside_plain (hexDigitValue_ne ha).1 (hexDigitValue_ne ha).2,
      outside_plain (hexDigitValue_ne hb).1 (hexDigitValue_ne hb).2,
      outside_plain (hexDigitValue_ne hc).1 (hexDigitValue_ne hc).2,
      outside_plain (hexDigitValue_ne hd).1 (hexDigitValue_ne hd).2]

theorem bare_quoted (ps : List Piece) : Bare (quotedText ps) := by
  have hpieces : ∀ rest, outside true (piecesText ps ++ rest) = outside true rest := by
    induction ps with
    | nil => intro rest; rfl
    | cons p ps ih =>
      intro rest
      show outside true (p.text ++ piecesText ps ++ rest) = _
      rw [List.append_assoc, outside_piece, ih]
  intro rest
  refine ⟨[], ?_, nofun⟩
  rw [quotedText, List.cons_append, List.append_assoc, outside, if_pos rfl, hpieces, List.singleton_append, outside_close]
  rfl

theorem bare_numeric {text : Units} (h : ∀ u ∈ text, isNumeric u = true) : Bare text := by
  refine bare_of_visible fun u hu => ?_
  have hn := h u hu
  simp only [isNumeric, Bool.or_eq_true, beq_iff_eq] at hn
  rcases hn with ((((hd | hd) | hd) | hd) | hd) | hd
  · have hrange := isDigit_iff.mp hd
    refine ⟨?_, fun hq => ?_⟩
    · simp only [isVisible, UInt16.lt_iff_toNat_lt, decide_eq_true_eq]
      exact ⟨Nat.lt_of_lt_of_le (by decide) hrange.1, Nat.lt_of_le_of_lt hrange.2 (by decide)⟩
    · rw [hq] at hd
      exact absurd hd (by decide)
  all_goals rw [hd]; decide

theorem bare_commas {texts : List Units} (h : ∀ t ∈ texts, Bare t) : Bare (commas texts) := by
  induction texts with
  | nil => exact bare_nil
  | cons t texts ih =>
    have ht := h t List.mem_cons_self
    cases texts with
    | nil => exact ht
    | cons t' texts => exact ht.append ((ih fun x hx => h x (List.mem_cons_of_mem _ hx)).cons (by decide) (by decide))

section
variable {ν : Type} {w : Writer ν}

mutual

/-- A writer whose strings and numbers are bare writes no layout. -/
theorem Writer.render_bare (hs : ∀ {u t}, w.string u = some t → Bare t) (hn : ∀ {n t}, w.number n = some t → Bare t) :
    ∀ (v : Value ν) {depth : Nat} {text : Units}, w.render v depth = some text → Bare text
  | .null, depth, text, h => by
    rw [← Option.some.inj h]
    exact bare_word rfl
  | .bool b, depth, text, h => by
    rw [← Option.some.inj h]
    cases b
    · exact bare_word rfl
    · exact bare_word rfl
  | .num n, depth, text, h => hn h
  | .str u, depth, text, h => hs h
  | .arr items, depth, text, h => by
    rw [Writer.render] at h
    split at h
    · simp only [Option.bind_eq_bind, Option.bind_eq_some_iff, Option.pure_def, Option.some.injEq] at h
      obtain ⟨texts, ht, rfl⟩ := h
      have hall := bare_commas (Writer.renderItems_bare hs hn items ht)
      exact (hall.append (bare_nil.cons (by decide) (by decide))).cons (by decide) (by decide)
    · cases h
  | .obj members, depth, text, h => by
    rw [Writer.render] at h
    split at h
    · simp only [Option.bind_eq_bind, Option.bind_eq_some_iff, Option.pure_def, Option.some.injEq] at h
      obtain ⟨es, he, rfl⟩ := h
      have hall : Bare (commas ((w.sortEntries es).map Prod.snd)) := bare_commas fun t ht => by
        obtain ⟨e, hmem, rfl⟩ := List.mem_map.mp ht
        exact Writer.renderMembers_bare hs hn members he e ((List.perm_insertionSort _ es).mem_iff.mp hmem)
      exact (hall.append (bare_nil.cons (by decide) (by decide))).cons (by decide) (by decide)
    · cases h

theorem Writer.renderItems_bare (hs : ∀ {u t}, w.string u = some t → Bare t)
    (hn : ∀ {n t}, w.number n = some t → Bare t) : ∀ (items : List (Value ν)) {depth : Nat} {texts : List Units},
    w.renderItems items depth = some texts → ∀ t ∈ texts, Bare t
  | [], depth, texts, h => by
    rw [← Option.some.inj h]
    nofun
  | v :: rest, depth, texts, h => by
    simp only [Writer.renderItems, Option.bind_eq_bind, Option.bind_eq_some_iff, Option.pure_def,
      Option.some.injEq] at h
    obtain ⟨t, ht, ts, hts, rfl⟩ := h
    intro x hx
    rcases List.mem_cons.mp hx with rfl | hx
    · exact Writer.render_bare hs hn v ht
    · exact Writer.renderItems_bare hs hn rest hts x hx

theorem Writer.renderMembers_bare (hs : ∀ {u t}, w.string u = some t → Bare t)
    (hn : ∀ {n t}, w.number n = some t → Bare t) :
    ∀ (members : List (Units × Value ν)) {depth : Nat} {es : List (Units × Units)},
    w.renderMembers members depth = some es → ∀ e ∈ es, Bare e.2
  | [], depth, es, h => by
    rw [← Option.some.inj h]
    nofun
  | (name, v) :: rest, depth, es, h => by
    obtain ⟨k, t, ts, hk, ht, hts, rfl⟩ := Writer.renderMembers_cons.mp h
    intro e he
    rcases List.mem_cons.mp he with rfl | he
    · exact (hs hk).append ((Writer.render_bare hs hn v ht).cons (by decide) (by decide))
    · exact Writer.renderMembers_bare hs hn rest hts e he

end

end

/-! ## Two readers of one text -/

/-- The second reader reads what the first does, numbers related by `eq`, where strings are written as `p` wants. -/
structure ReadsAlike {ν μ : Type} {r : Reader ν} {r' : Reader μ} (s : Spelling r) (s' : Spelling r')
    (p : List Piece → Bool) (eq : ν → μ → Prop) : Prop where
  string : ∀ {ps u}, p ps = true → s.string ps = some u → s'.string ps = some u
  number : ∀ {l n}, s.number l = some n → ∃ m, s'.number l = some m ∧ eq n m
  nests : ∀ {depth}, r.nests depth = true → r'.nests depth = true
  entries : r.entries = refuseRepeats
  entries' : r'.entries = refuseRepeats

section
variable {ν μ : Type} {r : Reader ν} {r' : Reader μ} {s : Spelling r} {s' : Spelling r'} {p : List Piece → Bool}
  {eq : ν → μ → Prop}

theorem Value.map_fst_of_sameMembers : ∀ {members : List (Units × Value ν)} {members' : List (Units × Value μ)},
    Value.SameMembers eq members members' → members'.map Prod.fst = members.map Prod.fst
  | [], [], _ => rfl
  | [], _ :: _, h => absurd h id
  | _ :: _, [], h => absurd h id
  | (name, v) :: rest, (name', v') :: rest', h => by
    rw [List.map_cons, List.map_cons, Value.map_fst_of_sameMembers h.2.2, h.1]

mutual

theorem Cst.build_same (ha : ReadsAlike s s' p eq) : ∀ (c : Cst) {depth : Nat} {v : Value ν}, c.strings p = true →
    c.build s depth = some v → ∃ v', c.build s' depth = some v' ∧ v.Same eq v'
  | .null, _, _, _, h => by
    rw [← Option.some.inj h]
    exact ⟨.null, rfl, trivial⟩
  | .bool b, _, _, _, h => by
    rw [← Option.some.inj h]
    exact ⟨.bool b, rfl, rfl⟩
  | .num n, _, _, _, h => by
    obtain ⟨x, hx, rfl⟩ := Option.map_eq_some_iff.mp h
    obtain ⟨y, hy, he⟩ := ha.number hx
    exact ⟨.num y, by rw [Cst.build, hy]; rfl, he⟩
  | .str ps, _, _, hp, h => by
    obtain ⟨u, hu, rfl⟩ := Option.map_eq_some_iff.mp h
    exact ⟨.str u, by rw [Cst.build, ha.string hp hu]; rfl, rfl⟩
  | .noItems _, _, _, _, h => by
    rw [Cst.build] at h
    split at h
    · rename_i hn
      rw [← Option.some.inj h]
      exact ⟨.arr [], by rw [Cst.build, if_pos (ha.nests hn)], trivial⟩
    · cases h
  | .arr items, _, _, hp, h => by
    rw [Cst.build] at h
    split at h
    · rename_i hn
      obtain ⟨vs, hvs, rfl⟩ := Option.map_eq_some_iff.mp h
      obtain ⟨vs', hvs', hs⟩ := items.build_same ha hp hvs
      exact ⟨.arr vs', by rw [Cst.build, if_pos (ha.nests hn), hvs']; rfl, hs⟩
    · cases h
  | .noMembers _, _, _, _, h => by
    rw [Cst.build] at h
    split at h
    · rename_i hn
      rw [← Option.some.inj h]
      exact ⟨.obj [], by rw [Cst.build, if_pos (ha.nests hn)], [], List.Perm.refl _, trivial⟩
    · cases h
  | .obj members, _, _, hp, h => by
    rw [Cst.build] at h
    split at h
    · rename_i hn
      obtain ⟨es, hes, rfl⟩ := Option.map_eq_some_iff.mp h
      obtain ⟨ms, hms, he⟩ := Option.bind_eq_some_iff.mp hes
      rw [ha.entries] at he
      obtain ⟨rfl, hnames⟩ := refuseRepeats_eq_some.mp he
      obtain ⟨ms', hms', hs⟩ := members.build_same ha hp hms
      have he' : r'.entries ms' = some ms' := by
        rw [ha.entries', refuseRepeats_eq_some, Value.map_fst_of_sameMembers hs]
        exact ⟨rfl, hnames⟩
      refine ⟨.obj ms', ?_, ms', List.Perm.refl _, hs⟩
      rw [Cst.build, if_pos (ha.nests hn), hms', Option.bind_some, he']
      rfl
    · cases h

theorem CstItems.build_same (ha : ReadsAlike s s' p eq) : ∀ (c : CstItems) {depth : Nat} {vs : List (Value ν)},
    c.strings p = true → c.build s depth = some vs → ∃ vs', c.build s' depth = some vs' ∧ Value.SameItems eq vs vs'
  | .last _ v _, _, _, hp, h => by
    obtain ⟨x, hx, rfl⟩ := Option.map_eq_some_iff.mp h
    obtain ⟨x', hx', hs⟩ := v.build_same ha hp hx
    exact ⟨[x'], by rw [CstItems.build, hx']; rfl, hs, trivial⟩
  | .cons _ v _ rest, _, _, hp, h => by
    simp only [CstItems.build, Option.bind_eq_bind, Option.bind_eq_some_iff, Option.pure_def, Option.some.injEq] at h
    obtain ⟨x, hx, xs, hxs, rfl⟩ := h
    rw [CstItems.strings, Bool.and_eq_true] at hp
    obtain ⟨x', hx', hs⟩ := v.build_same ha hp.1 hx
    obtain ⟨xs', hxs', hss⟩ := rest.build_same ha hp.2 hxs
    exact ⟨x' :: xs', by rw [CstItems.build, hx', hxs']; rfl, hs, hss⟩

theorem CstMembers.build_same (ha : ReadsAlike s s' p eq) :
    ∀ (c : CstMembers) {depth : Nat} {vs : List (Units × Value ν)}, c.strings p = true → c.build s depth = some vs →
      ∃ vs', c.build s' depth = some vs' ∧ Value.SameMembers eq vs vs'
  | .last _ _ _ _ v _, _, _, hp, h => by
    simp only [CstMembers.build, Option.bind_eq_bind, Option.bind_eq_some_iff, Option.pure_def, Option.some.injEq] at h
    obtain ⟨u, hu, x, hx, rfl⟩ := h
    rw [CstMembers.strings, Bool.and_eq_true] at hp
    obtain ⟨x', hx', hs⟩ := v.build_same ha hp.2 hx
    exact ⟨[(u, x')], by rw [CstMembers.build, ha.string hp.1 hu, hx']; rfl, rfl, hs, trivial⟩
  | .cons _ _ _ _ v _ rest, _, _, hp, h => by
    simp only [CstMembers.build, Option.bind_eq_bind, Option.bind_eq_some_iff, Option.pure_def, Option.some.injEq] at h
    obtain ⟨u, hu, x, hx, xs, hxs, rfl⟩ := h
    rw [CstMembers.strings, Bool.and_eq_true, Bool.and_eq_true] at hp
    obtain ⟨x', hx', hs⟩ := v.build_same ha hp.2.1 hx
    obtain ⟨xs', hxs', hss⟩ := rest.build_same ha hp.2.2 hxs
    exact ⟨(u, x') :: xs', by rw [CstMembers.build, ha.string hp.1 hu, hx', hxs']; rfl, rfl, hs, hss⟩

end

end

/-! ## What can be written -/

section
variable {ν : Type} {w : Writer ν} {good : Units → Prop}

mutual

/-- What is written holds good strings, no deeper than the writer goes. -/
theorem Writer.render_fits (hg : ∀ {u t}, w.string u = some t → good u) : ∀ (v : Value ν) {depth : Nat} {text : Units},
    w.render v depth = some text → v.Fits good w.nests depth
  | .null, _, _, _ => trivial
  | .bool _, _, _, _ => trivial
  | .num _, _, _, _ => trivial
  | .str _, _, _, h => hg h
  | .arr items, _, _, h => by
    rw [Writer.render] at h
    split at h
    · rename_i hn
      obtain ⟨_, ht, _⟩ := Option.bind_eq_some_iff.mp h
      exact ⟨hn, Writer.renderItems_fits hg items ht⟩
    · cases h
  | .obj members, _, _, h => by
    rw [Writer.render] at h
    split at h
    · rename_i hn
      obtain ⟨_, he, _⟩ := Option.bind_eq_some_iff.mp h
      exact ⟨hn, Writer.renderMembers_fits hg members he⟩
    · cases h

theorem Writer.renderItems_fits (hg : ∀ {u t}, w.string u = some t → good u) : ∀ (items : List (Value ν)) {depth : Nat}
    {texts : List Units}, w.renderItems items depth = some texts → Value.FitsItems good w.nests items depth
  | [], _, _, _ => trivial
  | v :: rest, _, _, h => by
    simp only [Writer.renderItems, Option.bind_eq_bind, Option.bind_eq_some_iff] at h
    obtain ⟨_, ht, _, hts, _⟩ := h
    exact ⟨Writer.render_fits hg v ht, Writer.renderItems_fits hg rest hts⟩

theorem Writer.renderMembers_fits (hg : ∀ {u t}, w.string u = some t → good u) :
    ∀ (members : List (Units × Value ν)) {depth : Nat} {es : List (Units × Units)},
    w.renderMembers members depth = some es → Value.FitsMembers good w.nests members depth
  | [], _, _, _ => trivial
  | (_, v) :: rest, _, _, h => by
    obtain ⟨_, _, _, hk, ht, hts, _⟩ := Writer.renderMembers_cons.mp h
    exact ⟨hg hk, Writer.render_fits hg v ht, Writer.renderMembers_fits hg rest hts⟩

end

end

section
variable {ν : Type} {r : Reader ν} {s : Spelling r} {w : Writer ν}

/-- What the reader reads the writer writes. -/
structure Covers (s : Spelling r) (w : Writer ν) : Prop where
  string : ∀ {ps u}, s.string ps = some u → ∃ t, w.string u = some t
  number : ∀ {l n}, s.number l = some n → ∃ t, w.number n = some t
  nests : ∀ {depth}, r.nests depth = true → w.nests depth = true
  entries : r.entries = refuseRepeats

mutual

theorem Cst.build_renders (hw : Covers s w) : ∀ (c : Cst) {depth : Nat} {v : Value ν}, c.build s depth = some v →
    ∃ t, w.render v depth = some t
  | .null, _, _, h => by
    rw [← Option.some.inj h]
    exact ⟨_, rfl⟩
  | .bool b, _, _, h => by
    rw [← Option.some.inj h]
    exact ⟨_, rfl⟩
  | .num n, _, _, h => by
    obtain ⟨x, hx, rfl⟩ := Option.map_eq_some_iff.mp h
    exact hw.number hx
  | .str ps, _, _, h => by
    obtain ⟨u, hu, rfl⟩ := Option.map_eq_some_iff.mp h
    exact hw.string hu
  | .noItems _, _, _, h => by
    rw [Cst.build] at h
    split at h
    · rename_i hn
      rw [← Option.some.inj h]
      exact ⟨_, by rw [Writer.render, if_pos (hw.nests hn)]; rfl⟩
    · cases h
  | .arr items, _, _, h => by
    rw [Cst.build] at h
    split at h
    · rename_i hn
      obtain ⟨vs, hvs, rfl⟩ := Option.map_eq_some_iff.mp h
      obtain ⟨ts, hts⟩ := items.build_renders hw hvs
      exact ⟨_, by rw [Writer.render, if_pos (hw.nests hn), hts]; rfl⟩
    · cases h
  | .noMembers _, _, _, h => by
    rw [Cst.build] at h
    split at h
    · rename_i hn
      rw [← Option.some.inj h]
      exact ⟨_, by rw [Writer.render, if_pos (hw.nests hn)]; rfl⟩
    · cases h
  | .obj members, _, _, h => by
    rw [Cst.build] at h
    split at h
    · rename_i hn
      obtain ⟨es, hes, rfl⟩ := Option.map_eq_some_iff.mp h
      obtain ⟨ms, hms, he⟩ := Option.bind_eq_some_iff.mp hes
      rw [hw.entries] at he
      obtain ⟨rfl, _⟩ := refuseRepeats_eq_some.mp he
      obtain ⟨ts, hts⟩ := members.build_renders hw hms
      exact ⟨_, by rw [Writer.render, if_pos (hw.nests hn), hts]; rfl⟩
    · cases h

theorem CstItems.build_renders (hw : Covers s w) : ∀ (c : CstItems) {depth : Nat} {vs : List (Value ν)},
    c.build s depth = some vs → ∃ ts, w.renderItems vs depth = some ts
  | .last _ v _, _, _, h => by
    obtain ⟨x, hx, rfl⟩ := Option.map_eq_some_iff.mp h
    obtain ⟨t, ht⟩ := v.build_renders hw hx
    exact ⟨[t], by rw [Writer.renderItems, ht]; rfl⟩
  | .cons _ v _ rest, _, _, h => by
    simp only [CstItems.build, Option.bind_eq_bind, Option.bind_eq_some_iff, Option.pure_def, Option.some.injEq] at h
    obtain ⟨x, hx, xs, hxs, rfl⟩ := h
    obtain ⟨t, ht⟩ := v.build_renders hw hx
    obtain ⟨ts, hts⟩ := rest.build_renders hw hxs
    exact ⟨t :: ts, by rw [Writer.renderItems, ht, hts]; rfl⟩

theorem CstMembers.build_renders (hw : Covers s w) : ∀ (c : CstMembers) {depth : Nat} {vs : List (Units × Value ν)},
    c.build s depth = some vs → ∃ es, w.renderMembers vs depth = some es
  | .last _ _ _ _ v _, _, _, h => by
    simp only [CstMembers.build, Option.bind_eq_bind, Option.bind_eq_some_iff, Option.pure_def, Option.some.injEq] at h
    obtain ⟨u, hu, x, hx, rfl⟩ := h
    obtain ⟨k, hk⟩ := hw.string hu
    obtain ⟨t, ht⟩ := v.build_renders hw hx
    exact ⟨_, Writer.renderMembers_cons.mpr ⟨k, t, [], hk, ht, rfl, rfl⟩⟩
  | .cons _ _ _ _ v _ rest, _, _, h => by
    simp only [CstMembers.build, Option.bind_eq_bind, Option.bind_eq_some_iff, Option.pure_def, Option.some.injEq] at h
    obtain ⟨u, hu, x, hx, xs, hxs, rfl⟩ := h
    obtain ⟨k, hk⟩ := hw.string hu
    obtain ⟨t, ht⟩ := v.build_renders hw hx
    obtain ⟨ts, hts⟩ := rest.build_renders hw hxs
    exact ⟨_, Writer.renderMembers_cons.mpr ⟨k, t, ts, hk, ht, hts, rfl⟩⟩

end

end

end Desk
