import Desk.Packs.ReferencesSound

/-!
# When references are told

The lines of two entries agree where a document is legible, and where they
agree it is: each field of one structure is read off the other, for every kind
of relation at once.
-/

namespace Desk

namespace References

open Pointers (pointer parsePointer)

section
variable {ν : Type} {N : Numbers ν} {document : List (Units × Value ν)}

/-! ## What an entry writes and what is found there -/

theorem walkable_iterated {value : Option (Value ν)} (h : walkable value = true) : iterated value = some (itemsOf value) := by
  rcases value with _ | ⟨_ | _ | _ | s | items | _⟩
  case some.str =>
    cases s with
    | nil => rfl
    | cons _ _ => cases h
  case some.num => cases h
  case some.bool => cases h
  case some.obj => cases h
  all_goals rfl

/-- The ids that are walked are those that are written. -/
theorem forwardIds_eq {k : Kind} {entry : Value ν} (h : k.lists = true → walkable (field entry k.memberName) = true) :
    forwardIds k entry = some (if k.textOnly then (writtenIds k entry).filter isText else writtenIds k entry) := by
  rw [forwardIds, writtenIds]
  cases hlists : k.lists with
  | false => rfl
  | true =>
    rw [if_pos rfl, if_pos rfl, walkable_iterated (h hlists)]
    rfl

theorem mem_shown {k : Kind} {entry id : Value ν} :
    id ∈ (if k.textOnly then (writtenIds k entry).filter isText else writtenIds k entry) ↔
      id ∈ writtenIds k entry ∧ (k.textOnly = true → isText id = true) := by
  cases k.textOnly with
  | false => simp
  | true => simp [List.mem_filter]

theorem cites_of_written {k : Kind} {entry id : Value ν} {other : Option (Value ν)} (hid : id ∈ writtenIds k entry)
    (heq : strictEq N (some id) other = true) : cites N k entry other = some true := by
  unfold writtenIds at hid
  unfold cites
  cases hlists : k.lists with
  | false =>
    rw [hlists, if_neg Bool.false_ne_true, Option.mem_toList] at hid
    rw [if_neg Bool.false_ne_true, hid, heq]
  | true =>
    rw [hlists, if_pos rfl] at hid
    rw [if_pos rfl]
    unfold itemsOf at hid
    split at hid
    · rename_i items hitems
      rw [hitems, includes, Option.some.injEq, List.any_eq_true]
      exact ⟨id, hid, heq⟩
    · cases hid

theorem strictEq_isSome {a b : Option (Value ν)} (h : strictEq N a b = true) (hb : b.isSome = true) : a.isSome = true := by
  cases a with
  | some _ => rfl
  | none =>
    cases b with
    | none => cases hb
    | some _ => cases h

theorem written_of_cites {k : Kind} {entry : Value ν} {other : Option (Value ν)} (h : cites N k entry other = some true)
    (hother : other.isSome = true) (harray : k.lists = true → isArray (field entry k.memberName) = true) :
    ∃ id ∈ writtenIds k entry, strictEq N (some id) other = true := by
  unfold cites at h
  unfold writtenIds
  cases hlists : k.lists with
  | false =>
    rw [hlists, if_neg Bool.false_ne_true, Option.some.injEq] at h
    obtain ⟨id, hid⟩ := Option.isSome_iff_exists.mp (strictEq_isSome h hother)
    rw [hid] at h
    exact ⟨id, by rw [if_neg Bool.false_ne_true, hid]; exact List.mem_singleton.mpr rfl, h⟩
  | true =>
    rw [hlists, if_pos rfl] at h
    have hitems := harray hlists
    unfold isArray at hitems
    split at hitems
    · rename_i items hfield
      rw [hfield, includes, Option.some.injEq, List.any_eq_true] at h
      rw [if_pos rfl, hfield]
      exact h
    · cases hitems

theorem isText_of_strictEq {id : Value ν} {other : Option (Value ν)} (h : strictEq N (some id) other = true) :
    isText id = other.any isText := by
  rcases other with _ | other
  · cases id <;> simp [strictEq] at h
  · cases id <;> cases other <;> first | rfl | simp [strictEq] at h

/-! ## A legible document is told -/

theorem entryAt_of_getElem? {c : Collection} {es : List (Value ν)} {i : Nat} {entry : Value ν} (hes : entriesOf document c = some es)
    (h : entryAt document c i = some entry) : es[i]? = some entry := by
  rw [entryAt_getElem? hes] at h
  exact (Option.filter_eq_some_iff.mp h).1

theorem includes_isSome {value id : Option (Value ν)} (h : walkable value = true) : (includes N value id).isSome = true := by
  rcases value with _ | ⟨_ | _ | _ | s | items | _⟩
  case some.num => cases h
  case some.bool => cases h
  case some.obj => cases h
  all_goals rfl

/-- What is found in an entry that is no object is found in what is not there. -/
theorem field_of_not_object {entry : Value ν} (h : isObject entry = false) (name : String) : field entry name = none := by
  cases entry with
  | obj _ => cases h
  | _ => rfl

theorem cites_isSome (h : Legible N document) {k : Kind} {es : List (Value ν)} (hes : entriesOf document k.first = some es)
    {e : Value ν} (he : e ∈ es) (id : Option (Value ν)) : (cites N k e id).isSome = true := by
  unfold cites
  cases hlists : k.lists with
  | false => rfl
  | true =>
    rw [if_pos rfl]
    refine includes_isSome ?_
    cases hobject : isObject e with
    | false =>
      rw [field_of_not_object hobject]
      rfl
    | true =>
      obtain ⟨i, hi⟩ := List.mem_iff_getElem?.mp he
      refine h.refs k (pointer [k.first.name, natText i]) e hlists ?_
      rw [← entryAt_eq, entryAt_getElem? hes, hi]
      exact Option.filter_eq_some_iff.mpr ⟨rfl, hobject⟩

theorem backBlock_isSome (h : Legible N document) {k : Kind} {j : Nat} {entry : Value ν}
    (hj : entryAt document k.second j = some entry) : (backBlock N document k entry).isSome = true := by
  have hnull : ∃ es, entriesOf document k.first = some es ∧ ∀ e ∈ es, isNull e = false := by
    cases hfirst : k.first with
    | exceptions => exact h.exceptions k.second j entry k.second_ne hj
    | rules =>
      have hrules := entriesOf_entries (h.declared .rules nofun)
      refine ⟨_, hrules, h.rules k.second j entry k.second_ne ?_ hj _ hrules⟩
      cases k <;> first | decide | cases hfirst
    | outcomes => cases k <;> cases hfirst
    | evidenceRequirements => cases k <;> cases hfirst
    | sources => cases k <;> cases hfirst
  obtain ⟨es, hes, hnull⟩ := hnull
  rw [backBlock, hes]
  exact backLines_isSome.mpr fun e he => ⟨hnull e he, cites_isSome h hes he _⟩

theorem nodesBlock_isSome (h : Legible N document) {j : Nat} {entry : Value ν}
    (hj : entryAt document .evidenceRequirements j = some entry) : (nodesBlock N document entry).isSome = true := by
  obtain ⟨exceptions, hexceptions, hnull⟩ := h.exceptions .evidenceRequirements j entry nofun hj
  have hrules := h.rules .evidenceRequirements j entry nofun nofun hj _ (entriesOf_entries (h.declared .rules nofun))
  have hwalked : ¬ ((entries document .rules).any isNull || exceptions.any isNull) = true := by
    rw [Bool.or_eq_true, List.any_eq_true, List.any_eq_true]
    rintro (⟨r, hr, hr'⟩ | ⟨e, he, he'⟩)
    · exact Bool.false_ne_true ((hrules r hr).symm.trans hr')
    · exact Bool.false_ne_true ((hnull e he).symm.trans he')
  rw [nodesBlock, Option.isSome_map, evidencePresentNodes, hexceptions]
  simp only [Option.bind_eq_bind, Option.bind_some]
  rw [if_neg hwalked]
  rfl

theorem blocks_isSome (h : Legible N document) {at_ : Units} {c : Collection} {entry : Value ν}
    (hentry : entryUnder (.obj document) at_ c = some entry) : (joinBlocks (blocks N document entry c)).isSome = true := by
  rw [joinBlocks_isSome]
  intro b hb
  rcases mem_blocks hb with ⟨k, rfl, rfl⟩ | ⟨k, rfl, rfl⟩ | ⟨rfl, rfl⟩ | ⟨rfl, rfl⟩
  · rw [forwardBlock, Option.isSome_map, forwardIds_eq fun hlists => h.refs k at_ entry hlists hentry]
    rfl
  · obtain ⟨j, hj⟩ := entryAt_of_under (entriesOf_entries (h.declared _ k.second_ne)) hentry
    exact backBlock_isSome h hj
  · rfl
  · obtain ⟨j, hj⟩ := entryAt_of_under (entriesOf_entries (h.declared .evidenceRequirements (by simp))) hentry
    exact nodesBlock_isSome h hj

/-- The lines at a place: none, those of an entry, or that of the fallback. -/
theorem referencesFor_cases (h : Legible N document) (at_ : Units) : referencesFor N document at_ = some [] ∨
    (∃ c entry, entryUnder (.obj document) at_ c = some entry ∧ referencesFor N document at_ = joinBlocks (blocks N document entry c)) ∨
    (∀ c, entryUnder (.obj document) at_ c = none) ∧
      ∃ id, referencesFor N document at_ = some [named .outcome id (entries document .outcomes) .outcomes] := by
  cases hv : valueAt (.obj document) at_ with
  | none => exact .inl (referencesFor_absent hv)
  | some v =>
    by_cases hunder : ∃ c entry, entryUnder (.obj document) at_ c = some entry
    · obtain ⟨c, entry, hentry⟩ := hunder
      exact .inr (.inl ⟨c, entry, hentry, referencesFor_under h.declared hentry (by rw [hv]; rfl)⟩)
    · have hapart : ∀ c, entryUnder (.obj document) at_ c = none := by
        intro c
        cases hc : entryUnder (.obj document) at_ c with
        | none => rfl
        | some entry => exact absurd ⟨c, entry, hc⟩ hunder
      rcases referencesFor_apart (N := N) h.declared hapart with hnone | ⟨id, hone⟩
      · exact .inl hnone
      · exact .inr (.inr ⟨hapart, id, hone⟩)

theorem entryUnder_unique {at_ : Units} {c d : Collection} {entry other : Value ν} (h : entryUnder (.obj document) at_ c = some entry)
    (hd : entryUnder (.obj document) at_ d = some other) : d = c ∧ other = entry := by
  by_cases hdc : d = c
  · subst hdc
    exact ⟨rfl, Option.some.inj (hd.symm.trans h)⟩
  · rw [entryUnder_apart h hdc] at hd
    cases hd

/-- A line at an entry is in one of its blocks. -/
theorem lines_under (h : Legible N document) {at_ : Units} {c : Collection} {entry : Value ν} {lines : List (Reference ν)}
    (hentry : entryUnder (.obj document) at_ c = some entry) (hlines : referencesFor N document at_ = some lines) :
    lines = [] ∨ joinBlocks (blocks N document entry c) = some lines := by
  rcases referencesFor_cases h at_ with hnone | ⟨d, other, hother, hjoin⟩ | ⟨hapart, _⟩
  · exact .inl (Option.some.inj (hlines.symm.trans hnone))
  · obtain ⟨rfl, rfl⟩ := entryUnder_unique hentry hother
    exact .inr (hjoin.symm.trans hlines)
  · rw [hapart c] at hentry
    cases hentry

theorem lines_at (h : ∀ c, c ≠ .exceptions → (entriesOf document c).isSome = true) {c : Collection} {i : Nat} {entry : Value ν}
    (hentry : entryAt document c i = some entry) :
    referencesFor N document (pointer [c.name, natText i]) = joinBlocks (blocks N document entry c) := by
  refine referencesFor_under h (entryAt_eq c i ▸ hentry) ?_
  exact Option.isSome_iff_exists.mpr ⟨entry, (Option.filter_eq_some_iff.mp hentry).1⟩

/-- Both ends of one relation. -/
theorem told_dual (h : Legible N document) {k : Kind} {i j : Nat} {one other : Value ν}
    (hi : entryAt document k.first i = some one) (hj : entryAt document k.second j = some other) {lines back : List (Reference ν)}
    (hlines : referencesFor N document (pointer [k.first.name, natText i]) = some lines)
    (hback : referencesFor N document (pointer [k.second.name, natText j]) = some back) :
    (∃ l ∈ lines, l.relation = k.forward ∧ Names N l other) ↔
      ∃ l ∈ back, l.relation = k.back ∧ l.target = some (pointer [k.first.name, natText i]) := by
  rw [lines_at h.declared hi] at hlines
  rw [lines_at h.declared hj] at hback
  have hrefs : k.lists = true → walkable (field one k.memberName) = true :=
    fun hlists => h.refs k _ one hlists (entryAt_eq k.first i ▸ hi)
  constructor
  · rintro ⟨l, hl, hrel, hnames⟩
    obtain ⟨ids, hids, id, hid, rfl⟩ := (mem_forward hlines).mp ⟨hl, hrel⟩
    rw [forwardIds_eq hrefs, Option.some.injEq] at hids
    have hwritten := (mem_shown.mp (hids ▸ hid)).1
    have hcited := cites_of_written (N := N) hwritten (by rw [← named_id k.forward id (entries document k.second) k.second]; exact hnames.2)
    obtain ⟨bs, hbs, _⟩ := Option.bind_eq_some_iff.mp (Option.isSome_iff_exists.mp (backBlock_isSome h hj)).choose_spec
    obtain ⟨hmem, hrel⟩ := (mem_back hback).mpr ⟨bs, i, one, hbs, entryAt_of_getElem? hbs hi, hcited, rfl⟩
    exact ⟨_, hmem, hrel, rfl⟩
  · rintro ⟨l, hl, hrel, htarget⟩
    obtain ⟨bs, i', e, hbs, he, hcited, rfl⟩ := (mem_back hback).mp ⟨hl, hrel⟩
    obtain rfl := pointer_entry (Option.some.inj htarget)
    obtain rfl := Option.some.inj ((entryAt_of_getElem? hbs hi).symm.trans he)
    obtain ⟨hpresent, htext, harray⟩ := h.ids k j other hj bs hbs one (List.mem_of_getElem? he) hcited
    obtain ⟨id, hid, heq⟩ := written_of_cites hcited hpresent harray
    obtain ⟨hmem, hrel⟩ := (mem_forward hlines).mpr
      ⟨_, forwardIds_eq hrefs, id, mem_shown.mpr ⟨hid, fun honly => (isText_of_strictEq heq).trans (htext honly)⟩, rfl⟩
    refine ⟨_, hmem, hrel, ?_⟩
    rw [Names, named_id]
    exact ⟨rfl, heq⟩

theorem told_written (h : Legible N document) {k : Kind} {at_ : Units} {entry : Value ν} {lines : List (Reference ν)}
    (hentry : entryUnder (.obj document) at_ k.first = some entry) (hlines : referencesFor N document at_ = some lines)
    {l : Reference ν} (hl : l ∈ lines) (hrel : l.relation = k.forward) : ∃ id ∈ writtenIds k entry, l.id = some id := by
  rcases lines_under h hentry hlines with rfl | hjoin
  · cases hl
  · obtain ⟨ids, hids, id, hid, rfl⟩ := (mem_forward hjoin).mp ⟨hl, hrel⟩
    rw [forwardIds_eq fun hlists => h.refs k at_ entry hlists hentry, Option.some.injEq] at hids
    exact ⟨id, (mem_shown.mp (hids ▸ hid)).1, named_id ..⟩

theorem told_present (h : Legible N document) {c : Collection} {at_ : Units} {entry : Value ν} {lines : List (Reference ν)}
    (hentry : entryUnder (.obj document) at_ c = some entry) (hlines : referencesFor N document at_ = some lines)
    {l : Reference ν} (hl : l ∈ lines) (hback : l.relation.isBack = true) : (field entry "id").isSome = true := by
  rcases lines_under h hentry hlines with rfl | hjoin
  · cases hl
  · obtain ⟨b, hb, ls, hls, hl⟩ := (mem_joinBlocks hjoin).mp hl
    rcases mem_blocks hb with ⟨k, rfl, rfl⟩ | ⟨k, rfl, rfl⟩ | ⟨rfl, rfl⟩ | ⟨rfl, rfl⟩
    · obtain ⟨ids, _, id, _, rfl⟩ := (mem_forwardBlock hls).mp hl
      rw [named_relation, k.isBack_forward] at hback
      cases hback
    · obtain ⟨es, i, e, hes, he, hcited, rfl⟩ := (mem_backBlock hls).mp hl
      obtain ⟨j, hj⟩ := entryAt_of_under (entriesOf_entries (h.declared _ k.second_ne)) hentry
      exact (h.ids k j entry hj es hes e (List.mem_of_getElem? he) hcited).1
    · obtain rfl := Option.some.inj hls
      obtain ⟨j, hj⟩ := entryAt_of_under (entriesOf_entries (h.declared .outcomes nofun)) hentry
      exact h.fallback j entry hj (mem_fallbackBlock hl).2
    · exact (mem_nodesBlock hls hl).2

theorem told_targets (h : Legible N document) {at_ : Units} {lines : List (Reference ν)}
    (hlines : referencesFor N document at_ = some lines) {l : Reference ν} (hl : l ∈ lines) (hforward : l.relation.isBack = false)
    {target : Units} (htarget : l.target = some target) :
    ∃ id i, l.id = some (.str id) ∧ target = pointer [l.relation.declaring.name, natText i] ∧
      Declares document l.relation.declaring i id ∧ ∀ j, Declares document l.relation.declaring j id → j = i := by
  have hnamed : ∃ r id c, c ≠ .exceptions ∧ Relation.declaring r = c ∧ l = named r id (entries document c) c := by
    rcases referencesFor_cases h at_ with hnone | ⟨c, entry, _, hjoin⟩ | ⟨_, id, hone⟩
    · rw [hnone, Option.some.injEq] at hlines
      rw [← hlines] at hl
      cases hl
    · obtain ⟨b, hb, ls, hls, hl⟩ := (mem_joinBlocks (hjoin.symm.trans hlines)).mp hl
      rcases mem_blocks hb with ⟨k, rfl, rfl⟩ | ⟨k, rfl, rfl⟩ | ⟨rfl, rfl⟩ | ⟨rfl, rfl⟩
      · obtain ⟨ids, _, id, _, rfl⟩ := (mem_forwardBlock hls).mp hl
        exact ⟨k.forward, id, k.second, k.second_ne, k.declaring_forward, rfl⟩
      · obtain ⟨_, _, _, _, _, _, rfl⟩ := (mem_backBlock hls).mp hl
        exact absurd (k.isBack_back.symm.trans hforward) nofun
      · obtain rfl := Option.some.inj hls
        rw [(mem_fallbackBlock hl).1] at hforward
        cases hforward
      · rw [(mem_nodesBlock hls hl).1] at hforward
        cases hforward
    · rw [hone, Option.some.injEq] at hlines
      rw [← hlines, List.mem_singleton] at hl
      exact ⟨.outcome, id, .outcomes, nofun, rfl, hl⟩
  obtain ⟨r, id, c, hc, rfl, rfl⟩ := hnamed
  obtain ⟨s, i, rfl, hpointer, hdeclares, hunique⟩ := named_declares (h.declared _ hc) htarget
  rw [named_relation, named_id]
  exact ⟨s, i, rfl, hpointer, hdeclares, hunique⟩

theorem told_of_legible (h : Legible N document) : Told N document where
  returns at_ := by
    rcases referencesFor_cases h at_ with hnone | ⟨c, entry, hentry, hjoin⟩ | ⟨_, id, hone⟩
    · rw [hnone]
      rfl
    · rw [hjoin]
      exact blocks_isSome h hentry
    · rw [hone]
      rfl
  dual _ _ _ _ _ hi hj _ _ hlines hback := told_dual h hi hj hlines hback
  written _ _ _ _ hentry hlines _ hl hrel := told_written h hentry hlines hl hrel
  present _ _ _ _ hentry hlines _ hl hback := told_present h hentry hlines hl hback
  targets _ _ hlines _ hl hforward _ htarget := told_targets h hlines hl hforward htarget

/-! ## A told document is legible -/

theorem declared_of_told (h : Told N document) (c : Collection) (hc : c ≠ .exceptions) : (entriesOf document c).isSome = true := by
  cases hes : entriesOf document c with
  | some _ => rfl
  | none =>
    have hv : (valueAt (.obj document) (pointer [c.name])).isNone = false := by
      rw [valueAt_pointer, Value.find, Value.children]
      unfold entriesOf at hes
      cases hfind : document.find? fun m => m.1 == c.name with
      | none =>
        rw [hfind] at hes
        cases hes
      | some m => rfl
    have hat : pointer [c.name] ≠ [] := by
      rw [Pointers.pointer_cons]
      exact List.cons_ne_nil _ _
    obtain ⟨lines, hlines⟩ := Option.isSome_iff_exists.mp (h.returns (pointer [c.name]))
    rw [referencesFor, if_neg hat, hv] at hlines
    simp only [Option.bind_eq_bind, Bool.false_eq_true, if_false] at hlines
    obtain ⟨_, houtcomes, hlines⟩ := Option.bind_eq_some_iff.mp hlines
    obtain ⟨_, hrequirements, hlines⟩ := Option.bind_eq_some_iff.mp hlines
    obtain ⟨_, hsources, hlines⟩ := Option.bind_eq_some_iff.mp hlines
    obtain ⟨_, hrules, _⟩ := Option.bind_eq_some_iff.mp hlines
    cases c with
    | exceptions => exact absurd rfl hc
    | outcomes => cases hes.symm.trans houtcomes
    | evidenceRequirements => cases hes.symm.trans hrequirements
    | sources => cases hes.symm.trans hsources
    | rules => cases hes.symm.trans hrules

/-- The blocks of an entry return, one by one. -/
theorem returned (h : Told N document) {c : Collection} {i : Nat} {entry : Value ν} (hentry : entryAt document c i = some entry)
    {b : Option (List (Reference ν))} (hb : b ∈ blocks N document entry c) : b.isSome = true := by
  have hreturns := h.returns (pointer [c.name, natText i])
  rw [lines_at (declared_of_told h) hentry] at hreturns
  exact joinBlocks_isSome.mp hreturns b hb

theorem exceptions_of_told (h : Told N document) (c : Collection) (i : Nat) (entry : Value ν) (hc : c ≠ .exceptions)
    (hentry : entryAt document c i = some entry) :
    ∃ exceptions, entriesOf document .exceptions = some exceptions ∧ ∀ e ∈ exceptions, isNull e = false := by
  have hwalked : ∀ k : Kind, k.first = .exceptions → k.second = c →
      ∃ exceptions, entriesOf document .exceptions = some exceptions ∧ ∀ e ∈ exceptions, isNull e = false := by
    rintro k hfirst rfl
    obtain ⟨ls, hls⟩ := Option.isSome_iff_exists.mp (returned h hentry (backBlock_mem k entry))
    obtain ⟨es, hes, hlines⟩ := Option.bind_eq_some_iff.mp hls
    exact ⟨es, hfirst ▸ hes, fun e he => (backLines_isSome.mp (by rw [hlines]; rfl) e he).1⟩
  cases c with
  | exceptions => exact absurd rfl hc
  | rules => exact hwalked .exceptionRule rfl rfl
  | outcomes => exact hwalked .exceptionOutcome rfl rfl
  | sources => exact hwalked .exceptionSource rfl rfl
  | evidenceRequirements =>
    have hnodes := returned h hentry (b := nodesBlock N document entry) (by simp [blocks])
    obtain ⟨ls, hls⟩ := Option.isSome_iff_exists.mp hnodes
    obtain ⟨nodes, hnodes, _⟩ := Option.map_eq_some_iff.mp hls
    obtain ⟨exceptions, hexceptions, hnodes⟩ := Option.bind_eq_some_iff.mp hnodes
    refine ⟨exceptions, hexceptions, fun e he => ?_⟩
    split at hnodes
    · cases hnodes
    · rename_i hnull
      rw [Bool.not_eq_true, Bool.or_eq_false_iff] at hnull
      exact Bool.eq_false_iff.mpr (List.any_eq_false.mp hnull.2 e he)

theorem rules_of_told (h : Told N document) (c : Collection) (i : Nat) (entry : Value ν) (hc : c ≠ .exceptions) (hc' : c ≠ .rules)
    (hentry : entryAt document c i = some entry) (rules : List (Value ν)) (hrules : entriesOf document .rules = some rules)
    (r : Value ν) (hr : r ∈ rules) : isNull r = false := by
  have hwalked : ∀ k : Kind, k.first = .rules → k.second = c → isNull r = false := by
    rintro k hfirst rfl
    obtain ⟨ls, hls⟩ := Option.isSome_iff_exists.mp (returned h hentry (backBlock_mem k entry))
    obtain ⟨es, hes, hlines⟩ := Option.bind_eq_some_iff.mp hls
    obtain rfl := Option.some.inj (hrules.symm.trans (hfirst ▸ hes))
    exact (backLines_isSome.mp (by rw [hlines]; rfl) r hr).1
  cases c with
  | exceptions => exact absurd rfl hc
  | rules => exact absurd rfl hc'
  | outcomes => exact hwalked .ruleOutcome rfl rfl
  | sources => exact hwalked .ruleSource rfl rfl
  | evidenceRequirements => exact hwalked .ruleEvidence rfl rfl

theorem isText_of_iterated {s : Units} {ids : List (Value ν)} (h : iterated (some (Value.str s)) = some ids) :
    ∀ id ∈ ids, isText id = true := by
  obtain rfl := Option.some.inj h
  intro id hid
  obtain ⟨p, _, rfl⟩ := List.mem_map.mp hid
  rfl

theorem iterated_ne_nil {u : UInt16} {s : Units} {ids : List (Value ν)} (h : iterated (some (Value.str (u :: s))) = some ids) :
    ∃ id, id ∈ ids := by
  obtain rfl := Option.some.inj h
  cases hpoints : codePoints (u :: s) with
  | nil =>
    have hnil := codePoints_injective (hpoints.trans (show [] = codePoints [] from rfl))
    cases hnil
  | cons p ps => exact ⟨_, List.mem_cons_self⟩

/-- Lists of ids are walked, and what they show is written. -/
theorem refs_of_told (h : Told N document) (k : Kind) (at_ : Units) (entry : Value ν) (hlists : k.lists = true)
    (hentry : entryUnder (.obj document) at_ k.first = some entry) : walkable (field entry k.memberName) = true := by
  obtain ⟨part, more, _, hvalue⟩ := entryUnder_eq_some.mp hentry
  have hunder : entryUnder (.obj document) (pointer [k.first.name, part]) k.first = some entry :=
    (entryUnder_pointer k.first part []).trans hvalue
  have hsome : (valueAt (.obj document) (pointer [k.first.name, part])).isSome = true :=
    Option.isSome_iff_exists.mpr ⟨entry, (Option.filter_eq_some_iff.mp hvalue).1⟩
  have hjoin := referencesFor_under (N := N) (declared_of_told h) hunder hsome
  obtain ⟨lines, hlines⟩ := Option.isSome_iff_exists.mp (h.returns (pointer [k.first.name, part]))
  obtain ⟨block, hblock⟩ := Option.isSome_iff_exists.mp
    (joinBlocks_isSome.mp (by rw [← hjoin, hlines]; rfl) _ (forwardBlock_mem (N := N) k entry))
  obtain ⟨shown, hshown, _⟩ := Option.map_eq_some_iff.mp hblock
  have hids := hshown
  rw [forwardIds, if_pos hlists] at hids
  obtain ⟨ids, hids, hfiltered⟩ := Option.map_eq_some_iff.mp hids
  have hwritten : ∀ id ∈ shown, id ∈ writtenIds k entry := by
    intro id hid
    obtain ⟨hl, hrel⟩ := (mem_forward (hjoin.symm.trans hlines)).mpr ⟨shown, hshown, id, hid, rfl⟩
    obtain ⟨id', hid', heq⟩ := h.written k _ entry lines hunder hlines _ hl hrel
    rw [named_id, Option.some.injEq] at heq
    exact heq ▸ hid'
  rw [writtenIds, if_pos hlists] at hwritten
  rcases hfield : field entry k.memberName with _ | ⟨_ | _ | _ | s | items | _⟩
  case some.str =>
    rw [hfield] at hids hwritten
    cases s with
    | nil => rfl
    | cons u s =>
      -- a character of the text would be named, and it is written nowhere
      obtain ⟨id, hid⟩ := iterated_ne_nil hids
      have hshown : id ∈ shown := by
        rw [← hfiltered]
        split
        · exact List.mem_filter.mpr ⟨hid, isText_of_iterated hids id hid⟩
        · exact hid
      exact absurd (hwritten id hshown) List.not_mem_nil
  case some.num =>
    rw [hfield] at hids
    cases hids
  case some.bool =>
    rw [hfield] at hids
    cases hids
  case some.obj =>
    rw [hfield] at hids
    cases hids
  all_goals rfl

theorem isObject_of_cites {k : Kind} {e : Value ν} {id : Option (Value ν)} (h : cites N k e id = some true) (hid : id.isSome = true) :
    isObject e = true := by
  cases hobject : isObject e with
  | true => rfl
  | false =>
    unfold cites at h
    rw [field_of_not_object hobject] at h
    split at h
    · cases h
    · rw [Option.some.injEq] at h
      exact absurd (strictEq_isSome h hid) nofun

/-- An id that is found cited is named from the other end as well. -/
theorem ids_of_told (h : Told N document) (k : Kind) (j : Nat) (other : Value ν) (hj : entryAt document k.second j = some other)
    (es : List (Value ν)) (hes : entriesOf document k.first = some es) (e : Value ν) (he : e ∈ es)
    (hcited : cites N k e (field other "id") = some true) :
    (field other "id").isSome = true ∧ (k.textOnly = true → (field other "id").any isText = true) ∧
      (k.lists = true → isArray (field e k.memberName) = true) := by
  obtain ⟨i, hi⟩ := List.mem_iff_getElem?.mp he
  obtain ⟨back, hback⟩ := Option.isSome_iff_exists.mp (h.returns (pointer [k.second.name, natText j]))
  have hjoin := hback
  rw [lines_at (declared_of_told h) hj] at hjoin
  obtain ⟨hl, hrel⟩ := (mem_back hjoin).mpr ⟨es, i, e, hes, hi, hcited, rfl⟩
  have hpresent : (field other "id").isSome = true :=
    h.present k.second _ other back (entryAt_eq k.second j ▸ hj) hback _ hl (by rw [hrel, k.isBack_back])
  have hentry : entryAt document k.first i = some e := by
    rw [entryAt_getElem? hes, hi]
    exact Option.filter_eq_some_iff.mpr ⟨rfl, isObject_of_cites hcited hpresent⟩
  obtain ⟨lines, hlines⟩ := Option.isSome_iff_exists.mp (h.returns (pointer [k.first.name, natText i]))
  obtain ⟨l, hmem, hforward, hnames⟩ := (h.dual k i j e other hentry hj lines back hlines hback).mpr ⟨_, hl, hrel, rfl⟩
  rw [lines_at (declared_of_told h) hentry] at hlines
  obtain ⟨ids, hids, id, hid, rfl⟩ := (mem_forward hlines).mp ⟨hmem, hforward⟩
  have hrefs : k.lists = true → walkable (field e k.memberName) = true :=
    fun hlists => refs_of_told h k _ e hlists (entryAt_eq k.first i ▸ hentry)
  rw [forwardIds_eq hrefs, Option.some.injEq] at hids
  obtain ⟨hwritten, htext⟩ := mem_shown.mp (hids ▸ hid)
  have heq := hnames.2
  rw [named_id] at heq
  refine ⟨hpresent, fun honly => (isText_of_strictEq heq).symm.trans (htext honly), fun hlists => ?_⟩
  rw [writtenIds, if_pos hlists] at hwritten
  unfold itemsOf at hwritten
  split at hwritten
  · rename_i items hitems
    rw [hitems]
    rfl
  · cases hwritten

theorem fallback_of_told (h : Told N document) (j : Nat) (other : Value ν) (hj : entryAt document .outcomes j = some other)
    (heq : strictEq N (member document "fallbackOutcome") (field other "id") = true) : (field other "id").isSome = true := by
  obtain ⟨lines, hlines⟩ := Option.isSome_iff_exists.mp (h.returns (pointer [Collection.outcomes.name, natText j]))
  have hjoin := hlines
  rw [lines_at (declared_of_told h) hj] at hjoin
  have hmem : (⟨.fallbackOutcome, field other "id", some (pointer [wordText "fallbackOutcome"]), none, none⟩ : Reference ν) ∈ lines := by
    refine (mem_joinBlocks hjoin).mpr ⟨some (fallbackBlock N document other), by simp [blocks], _, rfl, ?_⟩
    rw [fallbackBlock, if_pos heq]
    exact List.mem_singleton.mpr rfl
  exact h.present .outcomes _ other lines (entryAt_eq .outcomes j ▸ hj) hlines _ hmem rfl

theorem legible_of_told (h : Told N document) : Legible N document where
  declared := declared_of_told h
  exceptions := exceptions_of_told h
  rules := rules_of_told h
  refs := refs_of_told h
  ids := ids_of_told h
  fallback := fallback_of_told h

end

/-! ## A half-written document -/

def integers : Numbers Int where
  text n := ⟨intText n, numberForm_intText n⟩
  ofInt n := n

def unnamedRule : Value Int := .obj [(wordText "id", .str (wordText "r"))]

def unnamedOutcome : Value Int := .obj [(wordText "label", .str (wordText "Approve"))]

/-- The rule has no outcome yet and the outcome no id. -/
def halfWritten : List (Units × Value Int) :=
  [(wordText "rules", .arr [unnamedRule]), (wordText "outcomes", .arr [unnamedOutcome])]

end References

end Desk
