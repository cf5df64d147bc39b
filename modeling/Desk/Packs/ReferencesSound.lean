import Desk.Packs.References

/-!
# References from both ends

A relation is written twice, once at each end. What one end shows and what the
other shows are the same where the compared ids are there and the two loops
compare alike; a document says when that is so (`Legible`).
-/

namespace Desk

namespace References

open Pointers (pointer parsePointer)

/-! ## The relations between entries -/

/-- A member of one entry that names another entry. -/
inductive Kind where
  | ruleOutcome | ruleEvidence | ruleSource | exceptionRule | exceptionOutcome | exceptionSource

namespace Kind

def first : Kind → Collection
  | ruleOutcome | ruleEvidence | ruleSource => .rules
  | exceptionRule | exceptionOutcome | exceptionSource => .exceptions

def second : Kind → Collection
  | ruleOutcome | exceptionOutcome => .outcomes
  | ruleEvidence => .evidenceRequirements
  | ruleSource | exceptionSource => .sources
  | exceptionRule => .rules

/-- The relation at the entry that names. -/
def forward : Kind → Relation
  | ruleOutcome | exceptionOutcome => .outcome
  | ruleEvidence => .evidence
  | ruleSource | exceptionSource => .sources
  | exceptionRule => .targetRule

/-- The relation at the entry that is named. -/
def back : Kind → Relation
  | ruleOutcome => .producedByRule
  | ruleEvidence => .requiredByRule
  | ruleSource => .citedByRule
  | exceptionRule => .citedBy
  | exceptionOutcome => .producedByException
  | exceptionSource => .citedByException

def memberName : Kind → String
  | ruleOutcome | exceptionOutcome => "outcome"
  | ruleEvidence => "evidenceRequirementRefs"
  | ruleSource | exceptionSource => "sourceRefs"
  | exceptionRule => "targetRule"

/-- The member lists ids. -/
def lists : Kind → Bool
  | ruleEvidence | ruleSource | exceptionSource => true
  | _ => false

/-- Only texts are shown at the entry that names. -/
def textOnly : Kind → Bool
  | ruleOutcome | ruleEvidence | ruleSource => true
  | _ => false

end Kind

/-- A line of the entry that is named. -/
def Relation.isBack : Relation → Bool
  | .outcome | .evidence | .sources | .targetRule => false
  | _ => true

/-- Where the id of a line of the entry that names is looked up. -/
def Relation.declaring : Relation → Collection
  | .outcome => .outcomes
  | .evidence => .evidenceRequirements
  | .sources => .sources
  | _ => .rules

section
variable {ν : Type} (N : Numbers ν) (document : List (Units × Value ν))

/-! ## What the panel is for -/

def entryAt (c : Collection) (i : Nat) : Option (Value ν) :=
  (valueAt (.obj document) (pointer [c.name, natText i])).filter isObject

/-- The items of an array. -/
def itemsOf : Option (Value ν) → List (Value ν)
  | some (.arr items) => items
  | _ => []

/-- The ids an entry writes for a relation. -/
def writtenIds (k : Kind) (entry : Value ν) : List (Value ν) :=
  if k.lists then itemsOf (field entry k.memberName) else (field entry k.memberName).toList

/-- The line names the entry by its id. -/
def Names (line : Reference ν) (entry : Value ν) : Prop :=
  line.id.isSome = true ∧ strictEq N line.id (field entry "id") = true

def Declares (c : Collection) (i : Nat) (id : Units) : Prop :=
  ∃ entries entry, entriesOf document c = some entries ∧ entries[i]? = some entry ∧ field entry "id" = some (.str id)

/-- References are told from both ends alike. -/
structure Told : Prop where
  returns : ∀ at_, (referencesFor N document at_).isSome = true
  /-- One entry names another exactly when the other has a line back to it. -/
  dual : ∀ (k : Kind) (i j : Nat) (one other : Value ν), entryAt document k.first i = some one →
    entryAt document k.second j = some other → ∀ lines back,
    referencesFor N document (pointer [k.first.name, natText i]) = some lines →
    referencesFor N document (pointer [k.second.name, natText j]) = some back →
    ((∃ l ∈ lines, l.relation = k.forward ∧ Names N l other) ↔
      ∃ l ∈ back, l.relation = k.back ∧ l.target = some (pointer [k.first.name, natText i]))
  /-- What an entry names is written there. -/
  written : ∀ (k : Kind) at_ entry lines, entryUnder (.obj document) at_ k.first = some entry →
    referencesFor N document at_ = some lines →
    ∀ l ∈ lines, l.relation = k.forward → ∃ id ∈ writtenIds k entry, l.id = some id
  /-- What refers back to an entry does so by an id that the entry has. -/
  present : ∀ (c : Collection) at_ entry lines, entryUnder (.obj document) at_ c = some entry →
    referencesFor N document at_ = some lines →
    ∀ l ∈ lines, l.relation.isBack = true → (field entry "id").isSome = true
  /-- A target is where the one entry that declares the id is. -/
  targets : ∀ at_ lines, referencesFor N document at_ = some lines →
    ∀ l ∈ lines, l.relation.isBack = false → ∀ target, l.target = some target →
    ∃ id i, l.id = some (.str id) ∧ target = pointer [l.relation.declaring.name, natText i] ∧
      Declares document l.relation.declaring i id ∧
      ∀ j, Declares document l.relation.declaring j id → j = i

/-! ## Documents whose references are told -/

/-- Absent, null, an array or the empty text. -/
def walkable : Option (Value ν) → Bool
  | none | some .null | some (.arr _) | some (.str []) => true
  | _ => false

/-- Whether the entry is found to cite an id. -/
def cites (k : Kind) (entry : Value ν) (id : Option (Value ν)) : Option Bool :=
  if k.lists then includes N (field entry k.memberName) id
  else some (strictEq N (field entry k.memberName) id)

def isArray : Option (Value ν) → Bool
  | some (.arr _) => true
  | _ => false

structure Legible : Prop where
  declared : ∀ c, c ≠ .exceptions → (entriesOf document c).isSome = true
  /-- The exceptions, where they are walked. -/
  exceptions : ∀ c i entry, c ≠ .exceptions → entryAt document c i = some entry →
    ∃ exceptions, entriesOf document .exceptions = some exceptions ∧ ∀ e ∈ exceptions, isNull e = false
  /-- The rules, where they are walked. -/
  rules : ∀ c i entry, c ≠ .exceptions → c ≠ .rules → entryAt document c i = some entry →
    ∀ rules, entriesOf document .rules = some rules → ∀ r ∈ rules, isNull r = false
  refs : ∀ (k : Kind) at_ entry, k.lists = true → entryUnder (.obj document) at_ k.first = some entry →
    walkable (field entry k.memberName) = true
  /-- An id that is found cited is there, is a text where only texts are named, and is not found inside a text. -/
  ids : ∀ (k : Kind) j other, entryAt document k.second j = some other →
    ∀ entries, entriesOf document k.first = some entries → ∀ e ∈ entries, cites N k e (field other "id") = some true →
    (field other "id").isSome = true ∧ (k.textOnly = true → (field other "id").any isText = true) ∧
      (k.lists = true → isArray (field e k.memberName) = true)
  fallback : ∀ j other, entryAt document .outcomes j = some other →
    strictEq N (member document "fallbackOutcome") (field other "id") = true → (field other "id").isSome = true

/-! ## Blocks of lines -/

/-- Lines after lines, where none is thrown. -/
def joinBlocks {α : Type} : List (Option (List α)) → Option (List α)
  | [] => some []
  | b :: rest => b.bind fun ls => (joinBlocks rest).map fun more => ls ++ more

def forwardIds (k : Kind) (entry : Value ν) : Option (List (Value ν)) :=
  (if k.lists then iterated (field entry k.memberName) else some (field entry k.memberName).toList).map fun ids =>
    if k.textOnly then ids.filter isText else ids

def entries (c : Collection) : List (Value ν) := (entriesOf document c).getD []

/-- The lines of an entry that names others. -/
def forwardBlock (k : Kind) (entry : Value ν) : Option (List (Reference ν)) :=
  (forwardIds k entry).map fun ids => ids.map fun id => named k.forward id (entries document k.second) k.second

/-- The lines back to the entries that cite this one. -/
def backBlock (k : Kind) (entry : Value ν) : Option (List (Reference ν)) :=
  (entriesOf document k.first).bind fun es => backLines k.back k.first es fun e => cites N k e (field entry "id")

def fallbackBlock (outcome : Value ν) : List (Reference ν) :=
  if strictEq N (member document "fallbackOutcome") (field outcome "id") then
    [⟨.fallbackOutcome, field outcome "id", some (pointer [wordText "fallbackOutcome"]), none, none⟩]
  else []

def nodesBlock (requirement : Value ν) : Option (List (Reference ν)) :=
  (evidencePresentNodes document (entries document .rules)).map fun nodes =>
    (nodes.filter fun node => strictEq N (some (.str node.id)) (field requirement "id")).map fun node =>
      ⟨.testedByCondition, field requirement "id", some node.pointer, none, none⟩

/-- The blocks of an entry of each collection. -/
def blocks (entry : Value ν) : Collection → List (Option (List (Reference ν)))
  | .rules => [forwardBlock document .ruleOutcome entry, forwardBlock document .ruleEvidence entry,
      forwardBlock document .ruleSource entry, backBlock N document .exceptionRule entry]
  | .exceptions => [forwardBlock document .exceptionRule entry, forwardBlock document .exceptionOutcome entry,
      forwardBlock document .exceptionSource entry]
  | .outcomes => [backBlock N document .ruleOutcome entry, backBlock N document .exceptionOutcome entry,
      some (fallbackBlock N document entry)]
  | .evidenceRequirements => [backBlock N document .ruleEvidence entry, nodesBlock N document entry]
  | .sources => [backBlock N document .ruleSource entry, backBlock N document .exceptionSource entry]

end

section
variable {α : Type}

theorem joinBlocks_isSome {bs : List (Option (List α))} : (joinBlocks bs).isSome = true ↔ ∀ b ∈ bs, b.isSome = true := by
  induction bs with
  | nil => simp [joinBlocks]
  | cons b rest ih =>
    rw [joinBlocks, List.forall_mem_cons, ← ih]
    cases b <;> simp

theorem mem_joinBlocks {bs : List (Option (List α))} {all : List α} (h : joinBlocks bs = some all) {x : α} :
    x ∈ all ↔ ∃ b ∈ bs, ∃ ls, b = some ls ∧ x ∈ ls := by
  induction bs generalizing all with
  | nil =>
    obtain rfl := Option.some.inj h
    simp
  | cons b rest ih =>
    obtain ⟨ls, rfl, h⟩ := Option.bind_eq_some_iff.mp h
    obtain ⟨more, hmore, rfl⟩ := Option.map_eq_some_iff.mp h
    rw [List.mem_append, ih hmore]
    simp

theorem mapM_isSome {β : Type} {f : α → Option β} {l : List α} : (l.mapM f).isSome = true ↔ ∀ x ∈ l, (f x).isSome = true := by
  induction l with
  | nil => simp
  | cons x rest ih =>
    rw [List.mapM_cons, List.forall_mem_cons, ← ih]
    cases f x <;> cases rest.mapM f <;> simp

theorem mem_mapM {β : Type} {f : α → Option β} {l : List α} {all : List β} (h : l.mapM f = some all) {y : β} :
    y ∈ all ↔ ∃ x ∈ l, f x = some y := by
  induction l generalizing all with
  | nil =>
    rw [List.mapM_nil] at h
    obtain rfl := Option.some.inj h
    simp
  | cons x rest ih =>
    rw [List.mapM_cons] at h
    obtain ⟨z, hz, h⟩ := Option.bind_eq_some_iff.mp h
    obtain ⟨more, hmore, h⟩ := Option.bind_eq_some_iff.mp h
    obtain rfl := Option.some.inj h
    rw [List.mem_cons, ih hmore]
    constructor
    · rintro (rfl | ⟨x', hx', hf⟩)
      · exact ⟨x, List.mem_cons_self, hz⟩
      · exact ⟨x', List.mem_cons_of_mem _ hx', hf⟩
    · rintro ⟨x', hx', hf⟩
      obtain rfl | hx' := List.mem_cons.mp hx'
      · exact .inl (Option.some.inj (hf.symm.trans hz))
      · exact .inr ⟨x', hx', hf⟩

end

section
variable {ν : Type}

theorem backLines_isSome {r : Relation} {c : Collection} {es : List (Value ν)} {cited : Value ν → Option Bool} :
    (backLines r c es cited).isSome = true ↔ ∀ e ∈ es, isNull e = false ∧ (cited e).isSome = true := by
  rw [backLines, Option.isSome_map, mapM_isSome]
  constructor
  · intro h e he
    obtain ⟨i, hi⟩ := List.mem_iff_getElem?.mp he
    have hline := h (e, i) (List.mk_mem_zipIdx_iff_getElem?.mpr hi)
    unfold backLine at hline
    cases hnull : isNull e with
    | true => simp [hnull] at hline
    | false => simpa [hnull] using hline
  · rintro h ⟨e, i⟩ he
    obtain ⟨hnull, hcited⟩ := h e (List.mem_iff_getElem?.mpr ⟨i, List.mk_mem_zipIdx_iff_getElem?.mp he⟩)
    simpa [backLine, hnull] using hcited

theorem mem_backLines {r : Relation} {c : Collection} {es : List (Value ν)} {cited : Value ν → Option Bool}
    {lines : List (Reference ν)} (h : backLines r c es cited = some lines) {l : Reference ν} :
    l ∈ lines ↔ ∃ i e, es[i]? = some e ∧ cited e = some true ∧
      l = ⟨r, field e "id", some (pointer [c.name, natText i]), none, none⟩ := by
  obtain ⟨lists, hlists, rfl⟩ := Option.map_eq_some_iff.mp h
  rw [List.mem_flatten]
  constructor
  · rintro ⟨ls, hls, hl⟩
    obtain ⟨⟨e, i⟩, he, hline⟩ := (mem_mapM hlists).mp hls
    unfold backLine at hline
    split at hline
    · cases hline
    · obtain ⟨b, hb, rfl⟩ := Option.map_eq_some_iff.mp hline
      cases b with
      | false => exact absurd hl List.not_mem_nil
      | true => exact ⟨i, e, List.mk_mem_zipIdx_iff_getElem?.mp he, hb, List.mem_singleton.mp hl⟩
  · rintro ⟨i, e, hi, hcited, rfl⟩
    have hnull : isNull e = false := by
      have hsome : (backLines r c es cited).isSome = true := by rw [h]; rfl
      exact (backLines_isSome.mp hsome e (List.mem_iff_getElem?.mpr ⟨i, hi⟩)).1
    refine ⟨_, (mem_mapM hlists).mpr ⟨(e, i), List.mk_mem_zipIdx_iff_getElem?.mpr hi, ?_⟩, List.mem_singleton.mpr rfl⟩
    simp [backLine, hnull, hcited]

end

/-! ## Where an entry is -/

section
variable {ν : Type}

theorem Collection.name_injective {c d : Collection} (h : c.name = d.name) : c = d := by
  cases c <;> cases d <;> first | rfl | exact absurd h (by decide)

theorem Kind.eq_of_forward {k k' : Kind} (hfirst : k.first = k'.first) (h : k.forward = k'.forward) : k = k' := by
  cases k <;> cases k' <;> first | rfl | exact absurd h (by decide) | exact absurd hfirst (by decide)

theorem Kind.eq_of_back {k k' : Kind} (h : k.back = k'.back) : k = k' := by
  cases k <;> cases k' <;> first | rfl | cases h

theorem Kind.isBack_forward (k : Kind) : k.forward.isBack = false := by cases k <;> rfl

theorem Kind.isBack_back (k : Kind) : k.back.isBack = true := by cases k <;> rfl

theorem Kind.declaring_forward (k : Kind) : k.forward.declaring = k.second := by cases k <;> rfl

theorem Kind.second_ne (k : Kind) : k.second ≠ .exceptions := by cases k <;> exact fun h => nomatch h

/-- An item is found at its index as it is printed. -/
theorem find?_items (items : List (Value ν)) (i : Nat) :
    ((Value.arr items).children.find? fun m => m.1 == natText i).map Prod.snd = items[i]? := by
  rw [Value.children]
  cases hi : items[i]? with
  | none =>
    rw [Option.map_eq_none_iff, List.find?_eq_none]
    intro m hm hname
    obtain ⟨j, hj, rfl⟩ := List.mem_mapIdx.mp hm
    obtain rfl := natText_injective (beq_iff_eq.mp hname)
    rw [List.getElem?_eq_getElem hj] at hi
    cases hi
  | some v =>
    obtain ⟨hlt, rfl⟩ := List.getElem?_eq_some_iff.mp hi
    have hfound : (items.mapIdx fun i v => (natText i, v)).find? (fun m => m.1 == natText i) = some (natText i, items[i]) := by
      rw [List.find?_eq_some_iff_getElem]
      refine ⟨beq_self_eq_true _, i, by simpa using hlt, by simp, ?_⟩
      intro j hj
      simp only [List.getElem_mapIdx, Bool.not_eq_true', beq_eq_false_iff_ne]
      intro heq
      exact absurd (natText_injective heq) (Nat.ne_of_lt hj)
    rw [hfound]
    rfl

variable {document : List (Units × Value ν)}

theorem valueAt_pointer (v : Value ν) (path : List Units) : valueAt v (pointer path) = v.find path := by
  rw [valueAt, Pointers.parsePointer_pointer]
  rfl

theorem entryUnder_pointer (c : Collection) (part : Units) (more : List Units) :
    entryUnder (.obj document) (pointer (c.name :: part :: more)) c =
      (valueAt (.obj document) (pointer [c.name, part])).filter isObject := by
  rw [entryUnder, Pointers.parsePointer_pointer]
  exact if_pos rfl

/-- A pointer under an entry, and the entry. -/
theorem entryUnder_eq_some {at_ : Units} {c : Collection} {entry : Value ν} :
    entryUnder (.obj document) at_ c = some entry ↔ ∃ part more, parsePointer at_ = some (c.name :: part :: more) ∧
      (valueAt (.obj document) (pointer [c.name, part])).filter isObject = some entry := by
  unfold entryUnder
  constructor
  · intro h
    split at h
    · rename_i name part more hparse
      split at h
      · rename_i hname
        exact ⟨part, more, hname ▸ hparse, h⟩
      · cases h
    · cases h
  · rintro ⟨part, more, hparse, h⟩
    rw [hparse]
    exact (if_pos rfl).trans h

theorem entryUnder_apart {at_ : Units} {c d : Collection} {entry : Value ν} (h : entryUnder (.obj document) at_ c = some entry)
    (hne : d ≠ c) : entryUnder (.obj document) at_ d = none := by
  cases hd : entryUnder (.obj document) at_ d with
  | none => rfl
  | some other =>
    obtain ⟨part, more, hparse, _⟩ := entryUnder_eq_some.mp h
    obtain ⟨part', more', hparse', _⟩ := entryUnder_eq_some.mp hd
    rw [hparse, Option.some.injEq, List.cons.injEq] at hparse'
    exact absurd (Collection.name_injective hparse'.1).symm hne

theorem entryAt_eq (c : Collection) (i : Nat) :
    entryAt document c i = entryUnder (.obj document) (pointer [c.name, natText i]) c :=
  (entryUnder_pointer c (natText i) []).symm

theorem find_pair (name part : Units) : (Value.obj document).find [name, part] =
    (document.find? fun m => m.1 == name).bind fun m => (m.2.children.find? fun m' => m'.1 == part).map Prod.snd := by
  rw [Value.find, Value.children]
  refine congrArg _ (funext fun m => ?_)
  rw [Value.find, Option.map_eq_bind]
  rfl

theorem valueAt_entry {c : Collection} {es : List (Value ν)} (h : entriesOf document c = some es) (part : Units) :
    valueAt (.obj document) (pointer [c.name, part]) = ((Value.arr es).children.find? fun m => m.1 == part).map Prod.snd := by
  rw [valueAt_pointer, find_pair]
  unfold entriesOf at h
  cases hfind : document.find? fun m => m.1 == c.name with
  | none =>
    rw [hfind] at h
    obtain rfl := Option.some.inj h
    rfl
  | some m =>
    rw [hfind] at h
    obtain ⟨name, v⟩ := m
    cases v with
    | null =>
      obtain rfl := Option.some.inj h
      rfl
    | arr items =>
      obtain rfl := Option.some.inj h
      rfl
    | _ => cases h

theorem entryAt_getElem? {c : Collection} {es : List (Value ν)} (h : entriesOf document c = some es) (i : Nat) :
    entryAt document c i = es[i]?.filter isObject := by
  rw [entryAt, valueAt_entry h, find?_items]

/-- An entry that a pointer is under is one of the collection's. -/
theorem entryAt_of_under {at_ : Units} {c : Collection} {entry : Value ν} {es : List (Value ν)}
    (hes : entriesOf document c = some es) (h : entryUnder (.obj document) at_ c = some entry) :
    ∃ i, entryAt document c i = some entry := by
  obtain ⟨part, more, _, hvalue⟩ := entryUnder_eq_some.mp h
  have hfound := hvalue
  rw [valueAt_entry hes] at hfound
  obtain ⟨hv, _⟩ := Option.filter_eq_some_iff.mp hfound
  obtain ⟨m, hm, rfl⟩ := Option.map_eq_some_iff.mp hv
  obtain ⟨i, hi, rfl⟩ := List.mem_mapIdx.mp (List.mem_of_find?_eq_some hm)
  obtain rfl : natText i = part := by simpa using List.find?_some hm
  exact ⟨i, hvalue⟩

end

/-! ## The lines of an entry are its blocks -/

section
variable {ν : Type} {N : Numbers ν} {document : List (Units × Value ν)}

theorem entriesOf_entries {c : Collection} (h : (entriesOf document c).isSome = true) :
    entriesOf document c = some (entries document c) := by
  obtain ⟨es, hes⟩ := Option.isSome_iff_exists.mp h
  rw [entries, hes]
  rfl

theorem ruleLines_eq (rule : Value ν) :
    ruleLines N document (entries document .outcomes) (entries document .evidenceRequirements) (entries document .sources) rule =
      joinBlocks (blocks N document rule .rules) := by
  simp only [blocks, joinBlocks, ruleLines, forwardBlock, forwardIds, backBlock, cites, Kind.lists, Kind.memberName,
    Kind.textOnly, Kind.first, Kind.second, Kind.forward, Kind.back, if_true, Bool.false_eq_true, if_false]
  cases iterated (field rule "evidenceRequirementRefs") with
  | none => rfl
  | some refs =>
    cases iterated (field rule "sourceRefs") with
    | none => rfl
    | some sources =>
      cases entriesOf document .exceptions with
      | none => rfl
      | some exceptions =>
        simp only [Option.bind_eq_bind, Option.bind_some, Option.map_some]
        cases backLines Relation.citedBy .exceptions exceptions
            (fun exception => some (strictEq N (field exception "targetRule") (field rule "id"))) with
        | none => rfl
        | some citing =>
          cases field rule "outcome" with
          | none => simp
          | some v => cases v <;> simp [List.filter, isText]

theorem exceptionLines_eq (exception : Value ν) :
    exceptionLines (entries document .rules) (entries document .outcomes) (entries document .sources) exception =
      joinBlocks (blocks N document exception .exceptions) := by
  simp only [blocks, joinBlocks, exceptionLines, forwardBlock, forwardIds, Kind.lists, Kind.memberName, Kind.textOnly,
    Kind.second, Kind.forward]
  cases iterated (field exception "sourceRefs") with
  | none => rfl
  | some sources => simp

theorem outcomeLines_eq (hrules : (entriesOf document .rules).isSome = true) (outcome : Value ν) :
    outcomeLines N document (entries document .rules) outcome = joinBlocks (blocks N document outcome .outcomes) := by
  simp only [blocks, joinBlocks, outcomeLines, backBlock, Kind.first, entriesOf_entries hrules, Option.bind_some, cites, Kind.lists,
    Kind.memberName, Kind.back, fallbackBlock, Bool.false_eq_true, if_false]
  cases backLines Relation.producedByRule .rules (entries document .rules)
      (fun rule => some (strictEq N (field rule "outcome") (field outcome "id"))) with
  | none => rfl
  | some byRules =>
    cases entriesOf document .exceptions with
    | none => rfl
    | some exceptions =>
      simp only [Option.bind_eq_bind, Option.bind_some, Option.map_some]
      cases backLines Relation.producedByException .exceptions exceptions
          (fun exception => some (strictEq N (field exception "outcome") (field outcome "id"))) with
      | none => rfl
      | some byExceptions => simp

theorem requirementLines_eq (hrules : (entriesOf document .rules).isSome = true) (requirement : Value ν) :
    requirementLines N document (entries document .rules) requirement =
      joinBlocks (blocks N document requirement .evidenceRequirements) := by
  simp only [blocks, joinBlocks, requirementLines, backBlock, Kind.first, entriesOf_entries hrules, Option.bind_some, cites,
    Kind.lists, Kind.memberName, Kind.back, nodesBlock, if_true]
  cases backLines Relation.requiredByRule .rules (entries document .rules)
      (fun rule => includes N (field rule "evidenceRequirementRefs") (field requirement "id")) with
  | none => rfl
  | some byRules => cases evidencePresentNodes document (entries document .rules) <;> simp

theorem sourceLines_eq (hrules : (entriesOf document .rules).isSome = true) (source : Value ν) :
    sourceLines N document (entries document .rules) source = joinBlocks (blocks N document source .sources) := by
  simp only [blocks, joinBlocks, sourceLines, backBlock, Kind.first, entriesOf_entries hrules, Option.bind_some, cites,
    Kind.lists, Kind.memberName, Kind.back, if_true]
  cases backLines Relation.citedByRule .rules (entries document .rules)
      (fun rule => includes N (field rule "sourceRefs") (field source "id")) with
  | none => rfl
  | some byRules =>
    cases entriesOf document .exceptions with
    | none => rfl
    | some exceptions =>
      simp only [Option.bind_eq_bind, Option.bind_some, Option.map_some]
      cases backLines Relation.citedByException .exceptions exceptions
          (fun exception => includes N (field exception "sourceRefs") (field source "id")) with
      | none => rfl
      | some byExceptions => simp

theorem linesAt_under {at_ : Units} {c : Collection} {entry : Value ν} (h : entryUnder (.obj document) at_ c = some entry)
    (lines : Value ν → Option (List (Reference ν))) : linesAt document at_ c lines = lines entry := by rw [linesAt, h]

theorem linesAt_apart {at_ : Units} {c : Collection} (h : entryUnder (.obj document) at_ c = none)
    (lines : Value ν → Option (List (Reference ν))) : linesAt document at_ c lines = some [] := by rw [linesAt, h]

/-- Where something stands, the lines are those of the sections and of the fallback. -/
theorem referencesFor_answered (hd : ∀ c, c ≠ .exceptions → (entriesOf document c).isSome = true) {at_ : Units} (hat : at_ ≠ [])
    (hv : (valueAt (.obj document) at_).isSome = true) : referencesFor N document at_ = joinBlocks
      [linesAt document at_ .rules fun e => joinBlocks (blocks N document e .rules),
        linesAt document at_ .exceptions fun e => joinBlocks (blocks N document e .exceptions),
        linesAt document at_ .outcomes fun e => joinBlocks (blocks N document e .outcomes),
        linesAt document at_ .evidenceRequirements fun e => joinBlocks (blocks N document e .evidenceRequirements),
        linesAt document at_ .sources fun e => joinBlocks (blocks N document e .sources),
        some (if at_ = pointer [wordText "fallbackOutcome"] then
          (member document "fallbackOutcome").toList.map fun id => named .outcome id (entries document .outcomes) .outcomes
        else [])] := by
  have hrules := hd .rules nofun
  have hsome : (valueAt (.obj document) at_).isNone = false := by
    rw [Option.isNone_eq_false_iff]
    exact hv
  rw [referencesFor, if_neg hat, hsome, entriesOf_entries hrules, entriesOf_entries (hd .outcomes nofun),
    entriesOf_entries (hd .evidenceRequirements nofun), entriesOf_entries (hd .sources nofun)]
  simp only [Option.bind_eq_bind, Option.bind_some, Bool.false_eq_true, if_false, joinBlocks]
  rw [funext ruleLines_eq, funext (exceptionLines_eq (N := N)), funext (outcomeLines_eq hrules), funext (requirementLines_eq hrules),
    funext (sourceLines_eq hrules)]
  cases linesAt document at_ .rules fun e => joinBlocks (blocks N document e .rules) with
  | none => rfl
  | some a =>
    cases linesAt document at_ .exceptions fun e => joinBlocks (blocks N document e .exceptions) with
    | none => rfl
    | some b =>
      cases linesAt document at_ .outcomes fun e => joinBlocks (blocks N document e .outcomes) with
      | none => rfl
      | some c =>
        cases linesAt document at_ .evidenceRequirements fun e => joinBlocks (blocks N document e .evidenceRequirements) with
        | none => rfl
        | some d =>
          cases linesAt document at_ .sources fun e => joinBlocks (blocks N document e .sources) with
          | none => rfl
          | some e => simp

theorem joinBlocks_single {α : Type} {bs : List (Option (List α))} {b : Option (List α)} (before after : Nat)
    (h : bs = List.replicate before (some []) ++ b :: List.replicate after (some [])) : joinBlocks bs = b := by
  have hempty : ∀ n, joinBlocks (List.replicate n (some ([] : List α))) = some [] := by
    intro n
    induction n with
    | zero => rfl
    | succ n ih => simp [List.replicate_succ, joinBlocks, ih]
  subst h
  induction before with
  | zero => cases b <;> simp [joinBlocks, hempty]
  | succ n ih => simp [List.replicate_succ, joinBlocks, ih]

theorem ne_of_under {at_ : Units} {c : Collection} {entry : Value ν} (h : entryUnder (.obj document) at_ c = some entry) :
    at_ ≠ [] ∧ at_ ≠ pointer [wordText "fallbackOutcome"] := by
  obtain ⟨part, more, hparse, _⟩ := entryUnder_eq_some.mp h
  constructor
  · rintro rfl
    have hempty := Pointers.pointer_of_parse hparse
    rw [Pointers.pointer_cons] at hempty
    cases hempty
  · rintro rfl
    rw [Pointers.parsePointer_pointer, Option.some.injEq, List.cons.injEq] at hparse
    exact absurd hparse.2 (by simp)

/-- The lines at an entry are its own. -/
theorem referencesFor_under (hd : ∀ c, c ≠ .exceptions → (entriesOf document c).isSome = true) {at_ : Units} {c : Collection}
    {entry : Value ν} (h : entryUnder (.obj document) at_ c = some entry) (hv : (valueAt (.obj document) at_).isSome = true) :
    referencesFor N document at_ = joinBlocks (blocks N document entry c) := by
  obtain ⟨hat, hfallback⟩ := ne_of_under h
  have hlines : ∀ d (lines : Value ν → Option (List (Reference ν))),
      linesAt document at_ d lines = if d = c then lines entry else some [] := by
    intro d lines
    by_cases hdc : d = c
    · rw [if_pos hdc, hdc, linesAt_under h]
    · rw [if_neg hdc, linesAt_apart (entryUnder_apart h hdc)]
  rw [referencesFor_answered hd hat hv, if_neg hfallback, hlines, hlines, hlines, hlines, hlines]
  cases c with
  | rules => exact joinBlocks_single 0 5 rfl
  | exceptions => exact joinBlocks_single 1 4 rfl
  | outcomes => exact joinBlocks_single 2 3 rfl
  | evidenceRequirements => exact joinBlocks_single 3 2 rfl
  | sources => exact joinBlocks_single 4 1 rfl

/-- Away from the entries there is only the line of the fallback. -/
theorem referencesFor_apart (hd : ∀ c, c ≠ .exceptions → (entriesOf document c).isSome = true) {at_ : Units}
    (h : ∀ c, entryUnder (.obj document) at_ c = none) : referencesFor N document at_ = some [] ∨
      ∃ id, referencesFor N document at_ = some [named .outcome id (entries document .outcomes) .outcomes] := by
  by_cases hat : at_ = []
  · exact .inl (if_pos hat)
  · cases hv : (valueAt (.obj document) at_).isSome with
    | false =>
      refine .inl ?_
      rw [Option.isSome_eq_false_iff] at hv
      rw [referencesFor, if_neg hat, if_pos hv]
    | true =>
      rw [referencesFor_answered hd hat hv, joinBlocks_single 5 0 (b := some _) (by
        rw [linesAt_apart (h _), linesAt_apart (h _), linesAt_apart (h _), linesAt_apart (h _), linesAt_apart (h _)]
        rfl)]
      split
      · cases member document "fallbackOutcome" with
        | none => exact .inl rfl
        | some id => exact .inr ⟨id, rfl⟩
      · exact .inl rfl

theorem referencesFor_absent {at_ : Units} (hv : valueAt (.obj document) at_ = none) : referencesFor N document at_ = some [] := by
  rw [referencesFor, hv]
  exact ite_self _

end

/-! ## What a line says -/

section
variable {ν : Type} {N : Numbers ν} {document : List (Units × Value ν)}

theorem named_relation (r : Relation) (id : Value ν) (es : List (Value ν)) (c : Collection) : (named r id es c).relation = r := by
  unfold named
  split <;> rfl

theorem named_id (r : Relation) (id : Value ν) (es : List (Value ν)) (c : Collection) : (named r id es c).id = some id := by
  unfold named
  split <;> rfl

/-- A target is given where just one place declares the id. -/
theorem named_target {r : Relation} {id : Value ν} {es : List (Value ν)} {c : Collection} {target : Units}
    (h : (named r id es c).target = some target) : ∃ s, id = .str s ∧ declaredAt es c s = [target] := by
  unfold named at h
  split at h
  · cases h
  · rename_i only honly
    obtain rfl := Option.some.inj h
    unfold targetsOf at honly
    split at honly
    · exact ⟨_, rfl, honly⟩
    · cases honly
  · cases h

theorem mem_declaredAt {es : List (Value ν)} {c : Collection} {id target : Units} : target ∈ declaredAt es c id ↔
    ∃ i entry, es[i]? = some entry ∧ field entry "id" = some (.str id) ∧ target = pointer [c.name, natText i] := by
  rw [declaredAt, List.mem_filterMap]
  constructor
  · rintro ⟨⟨entry, i⟩, hmem, h⟩
    dsimp only at h
    split at h
    · rename_i s hs
      split at h
      · rename_i hid
        exact ⟨i, entry, List.mk_mem_zipIdx_iff_getElem?.mp hmem, hid ▸ hs, (Option.some.inj h).symm⟩
      · cases h
    · cases h
  · rintro ⟨i, entry, hi, hid, rfl⟩
    refine ⟨(entry, i), List.mk_mem_zipIdx_iff_getElem?.mpr hi, ?_⟩
    simp [hid]

theorem pointer_entry {c d : Collection} {i j : Nat} (h : pointer [c.name, natText i] = pointer [d.name, natText j]) : i = j := by
  have hparts := Pointers.pointer_injective h
  rw [List.cons.injEq, List.cons.injEq] at hparts
  exact natText_injective hparts.2.1

theorem named_declares {r : Relation} {id : Value ν} {c : Collection} {target : Units} (hc : (entriesOf document c).isSome = true)
    (h : (named r id (entries document c) c).target = some target) : ∃ s i, id = .str s ∧
      target = pointer [c.name, natText i] ∧ Declares document c i s ∧ ∀ j, Declares document c j s → j = i := by
  obtain ⟨s, rfl, honly⟩ := named_target h
  have htarget : target ∈ declaredAt (entries document c) c s := by rw [honly]; exact List.mem_singleton.mpr rfl
  obtain ⟨i, entry, hi, hid, rfl⟩ := mem_declaredAt.mp htarget
  refine ⟨s, i, rfl, rfl, ⟨_, entry, entriesOf_entries hc, hi, hid⟩, ?_⟩
  rintro j ⟨es, other, hes, hj, hother⟩
  rw [entriesOf_entries hc, Option.some.injEq] at hes
  have hmem : pointer [c.name, natText j] ∈ declaredAt (entries document c) c s :=
    mem_declaredAt.mpr ⟨j, other, hes ▸ hj, hother, rfl⟩
  rw [honly, List.mem_singleton] at hmem
  exact pointer_entry hmem

/-! ## The blocks of an entry -/

theorem forwardBlock_mem (k : Kind) (entry : Value ν) : forwardBlock document k entry ∈ blocks N document entry k.first := by
  cases k <;> simp [blocks, Kind.first]

theorem backBlock_mem (k : Kind) (entry : Value ν) : backBlock N document k entry ∈ blocks N document entry k.second := by
  cases k <;> simp [blocks, Kind.second]

theorem mem_blocks {entry : Value ν} {c : Collection} {b : Option (List (Reference ν))} (h : b ∈ blocks N document entry c) :
    (∃ k : Kind, k.first = c ∧ b = forwardBlock document k entry) ∨ (∃ k : Kind, k.second = c ∧ b = backBlock N document k entry) ∨
      (c = .outcomes ∧ b = some (fallbackBlock N document entry)) ∨ (c = .evidenceRequirements ∧ b = nodesBlock N document entry) := by
  cases c with
  | rules =>
    simp only [blocks, List.mem_cons, List.not_mem_nil, or_false] at h
    rcases h with rfl | rfl | rfl | rfl
    · exact .inl ⟨.ruleOutcome, rfl, rfl⟩
    · exact .inl ⟨.ruleEvidence, rfl, rfl⟩
    · exact .inl ⟨.ruleSource, rfl, rfl⟩
    · exact .inr (.inl ⟨.exceptionRule, rfl, rfl⟩)
  | exceptions =>
    simp only [blocks, List.mem_cons, List.not_mem_nil, or_false] at h
    rcases h with rfl | rfl | rfl
    · exact .inl ⟨.exceptionRule, rfl, rfl⟩
    · exact .inl ⟨.exceptionOutcome, rfl, rfl⟩
    · exact .inl ⟨.exceptionSource, rfl, rfl⟩
  | outcomes =>
    simp only [blocks, List.mem_cons, List.not_mem_nil, or_false] at h
    rcases h with rfl | rfl | rfl
    · exact .inr (.inl ⟨.ruleOutcome, rfl, rfl⟩)
    · exact .inr (.inl ⟨.exceptionOutcome, rfl, rfl⟩)
    · exact .inr (.inr (.inl ⟨rfl, rfl⟩))
  | evidenceRequirements =>
    simp only [blocks, List.mem_cons, List.not_mem_nil, or_false] at h
    rcases h with rfl | rfl
    · exact .inr (.inl ⟨.ruleEvidence, rfl, rfl⟩)
    · exact .inr (.inr (.inr ⟨rfl, rfl⟩))
  | sources =>
    simp only [blocks, List.mem_cons, List.not_mem_nil, or_false] at h
    rcases h with rfl | rfl
    · exact .inr (.inl ⟨.ruleSource, rfl, rfl⟩)
    · exact .inr (.inl ⟨.exceptionSource, rfl, rfl⟩)

theorem mem_forwardBlock {k : Kind} {entry : Value ν} {ls : List (Reference ν)} (h : forwardBlock document k entry = some ls)
    {l : Reference ν} : l ∈ ls ↔ ∃ ids, forwardIds k entry = some ids ∧ ∃ id ∈ ids,
      l = named k.forward id (entries document k.second) k.second := by
  obtain ⟨ids, hids, rfl⟩ := Option.map_eq_some_iff.mp h
  rw [List.mem_map]
  constructor
  · rintro ⟨id, hid, rfl⟩
    exact ⟨ids, hids, id, hid, rfl⟩
  · rintro ⟨ids', hids', id, hid, rfl⟩
    rw [hids, Option.some.injEq] at hids'
    exact ⟨id, hids' ▸ hid, rfl⟩

theorem mem_backBlock {k : Kind} {entry : Value ν} {ls : List (Reference ν)} (h : backBlock N document k entry = some ls)
    {l : Reference ν} : l ∈ ls ↔ ∃ es i e, entriesOf document k.first = some es ∧ es[i]? = some e ∧
      cites N k e (field entry "id") = some true ∧
      l = ⟨k.back, field e "id", some (pointer [k.first.name, natText i]), none, none⟩ := by
  obtain ⟨es, hes, h⟩ := Option.bind_eq_some_iff.mp h
  rw [mem_backLines h]
  constructor
  · rintro ⟨i, e, hi, hcited, rfl⟩
    exact ⟨es, i, e, hes, hi, hcited, rfl⟩
  · rintro ⟨es', i, e, hes', hi, hcited, rfl⟩
    rw [hes, Option.some.injEq] at hes'
    exact ⟨i, e, hes' ▸ hi, hcited, rfl⟩

theorem mem_fallbackBlock {outcome : Value ν} {l : Reference ν} (h : l ∈ fallbackBlock N document outcome) :
    l.relation = .fallbackOutcome ∧ strictEq N (member document "fallbackOutcome") (field outcome "id") = true := by
  unfold fallbackBlock at h
  split at h
  · rename_i heq
    obtain rfl := List.mem_singleton.mp h
    exact ⟨rfl, heq⟩
  · cases h

theorem strictEq_str {s : Units} {id : Option (Value ν)} (h : strictEq N (some (.str s)) id = true) : id = some (.str s) := by
  rcases id with _ | ⟨_ | _ | _ | t | _ | _⟩
  case some.str => rw [beq_iff_eq.mp h]
  all_goals exact absurd h (by simp [strictEq])

theorem mem_nodesBlock {requirement : Value ν} {ls : List (Reference ν)} (h : nodesBlock N document requirement = some ls)
    {l : Reference ν} (hl : l ∈ ls) : l.relation = .testedByCondition ∧ (field requirement "id").isSome = true := by
  obtain ⟨nodes, _, rfl⟩ := Option.map_eq_some_iff.mp h
  obtain ⟨node, hnode, rfl⟩ := List.mem_map.mp hl
  have hid := strictEq_str (List.mem_filter.mp hnode).2
  exact ⟨rfl, by rw [hid]; rfl⟩

/-- Lines of the relation of one kind are in the block of that kind. -/
theorem mem_forward {k : Kind} {entry : Value ν} {lines : List (Reference ν)}
    (h : joinBlocks (blocks N document entry k.first) = some lines) {l : Reference ν} :
    l ∈ lines ∧ l.relation = k.forward ↔ ∃ ids, forwardIds k entry = some ids ∧ ∃ id ∈ ids,
      l = named k.forward id (entries document k.second) k.second := by
  constructor
  · rintro ⟨hl, hrel⟩
    obtain ⟨b, hb, ls, hls, hl⟩ := (mem_joinBlocks h).mp hl
    rcases mem_blocks hb with ⟨k', hfirst, rfl⟩ | ⟨k', _, rfl⟩ | ⟨_, rfl⟩ | ⟨_, rfl⟩
    · obtain ⟨ids, hids, id, hid, rfl⟩ := (mem_forwardBlock hls).mp hl
      rw [named_relation] at hrel
      obtain rfl := Kind.eq_of_forward hfirst hrel
      exact ⟨ids, hids, id, hid, rfl⟩
    · obtain ⟨es, i, e, _, _, _, rfl⟩ := (mem_backBlock hls).mp hl
      have hback := k'.isBack_back
      rw [show k'.back = k.forward from hrel, k.isBack_forward] at hback
      cases hback
    · obtain rfl := Option.some.inj hls
      have hback := k.isBack_forward
      rw [← hrel, (mem_fallbackBlock hl).1] at hback
      cases hback
    · have hback := k.isBack_forward
      rw [← hrel, (mem_nodesBlock hls hl).1] at hback
      cases hback
  · rintro ⟨ids, hids, id, hid, rfl⟩
    obtain ⟨ls, hls⟩ := Option.isSome_iff_exists.mp (joinBlocks_isSome.mp (by rw [h]; rfl) _ (forwardBlock_mem (N := N) k entry))
    exact ⟨(mem_joinBlocks h).mpr ⟨_, forwardBlock_mem k entry, ls, hls, (mem_forwardBlock hls).mpr ⟨ids, hids, id, hid, rfl⟩⟩,
      named_relation ..⟩

theorem mem_back {k : Kind} {entry : Value ν} {lines : List (Reference ν)}
    (h : joinBlocks (blocks N document entry k.second) = some lines) {l : Reference ν} :
    l ∈ lines ∧ l.relation = k.back ↔ ∃ es i e, entriesOf document k.first = some es ∧ es[i]? = some e ∧
      cites N k e (field entry "id") = some true ∧
      l = ⟨k.back, field e "id", some (pointer [k.first.name, natText i]), none, none⟩ := by
  constructor
  · rintro ⟨hl, hrel⟩
    obtain ⟨b, hb, ls, hls, hl⟩ := (mem_joinBlocks h).mp hl
    rcases mem_blocks hb with ⟨k', _, rfl⟩ | ⟨k', _, rfl⟩ | ⟨_, rfl⟩ | ⟨_, rfl⟩
    · obtain ⟨ids, hids, id, hid, rfl⟩ := (mem_forwardBlock hls).mp hl
      have hback := k.isBack_back
      rw [← hrel, named_relation, k'.isBack_forward] at hback
      cases hback
    · obtain ⟨es, i, e, hes, hi, hcited, rfl⟩ := (mem_backBlock hls).mp hl
      obtain rfl := Kind.eq_of_back (show k'.back = k.back from hrel)
      exact ⟨es, i, e, hes, hi, hcited, rfl⟩
    · obtain rfl := Option.some.inj hls
      have hback := (mem_fallbackBlock hl).1.symm.trans hrel
      cases k <;> cases hback
    · have hback := (mem_nodesBlock hls hl).1.symm.trans hrel
      cases k <;> cases hback
  · rintro ⟨es, i, e, hes, hi, hcited, rfl⟩
    have hsome : (backBlock N document k entry).isSome = true := joinBlocks_isSome.mp (by rw [h]; rfl) _ (backBlock_mem k entry)
    obtain ⟨ls, hls⟩ := Option.isSome_iff_exists.mp hsome
    exact ⟨(mem_joinBlocks h).mpr ⟨_, backBlock_mem k entry, ls, hls, (mem_backBlock hls).mpr ⟨es, i, e, hes, hi, hcited, rfl⟩⟩, rfl⟩

end

end References

end Desk
