import Desk.Packs.ScanSound

/-!
# The gate of the form editor

The desk edits a document through its own reading of the text only where that
is the reading of `JSON.parse` and no name is repeated. Then the index has a
span for each value, under its pointer, and the span holds the text of the value.
-/

namespace Desk

namespace DocumentText

/-! ## Repeated names -/

theorem addSeen_mem {seen : List Units} {name x : Units} : x ∈ addSeen seen name ↔ x ∈ seen ∨ x = name := by
  unfold addSeen
  split
  · next h =>
    rw [List.contains_iff_mem] at h
    exact ⟨Or.inl, fun hx => hx.elim id fun hx => hx ▸ h⟩
  · simp

theorem repeated_eq_nil {path seen : List Units} {name : Units} : repeated path seen name = [] ↔ name ∉ seen := by
  unfold repeated
  split
  · next h => simpa using h
  · next h => simpa using h

mutual

/-- No name is met again exactly when no object repeats one. -/
theorem Cst.repeats_eq_nil : ∀ (c : Cst) (path : List Units), Cst.repeats c path = [] ↔ c.Distinct
  | .null, _ => ⟨fun _ => trivial, fun _ => rfl⟩
  | .bool _, _ => ⟨fun _ => trivial, fun _ => rfl⟩
  | .num _, _ => ⟨fun _ => trivial, fun _ => rfl⟩
  | .str _, _ => ⟨fun _ => trivial, fun _ => rfl⟩
  | .noItems _, _ => ⟨fun _ => trivial, fun _ => rfl⟩
  | .noMembers _, _ => ⟨fun _ => trivial, fun _ => rfl⟩
  | .arr items, path => by
    rw [Cst.repeats, Cst.Distinct]
    exact CstItems.repeats_eq_nil items path 0
  | .obj members, path => by
    rw [Cst.repeats, Cst.Distinct, CstMembers.repeats_eq_nil members path []]
    simp

theorem CstItems.repeats_eq_nil : ∀ (c : CstItems) (path : List Units) (i : Nat), CstItems.repeats c path i = [] ↔ c.Distinct
  | .last _ v _, path, i => by
    rw [CstItems.repeats, CstItems.Distinct]
    exact Cst.repeats_eq_nil v _
  | .cons _ v _ rest, path, i => by
    rw [CstItems.repeats, CstItems.Distinct, List.append_eq_nil_iff, Cst.repeats_eq_nil v, CstItems.repeats_eq_nil rest]

theorem CstMembers.repeats_eq_nil : ∀ (c : CstMembers) (path seen : List Units), CstMembers.repeats c path seen = [] ↔
    ((c.slots.map fun s => piecesUnits s.body.name).Nodup ∧ ∀ s ∈ c.slots, piecesUnits s.body.name ∉ seen) ∧ c.Distinct
  | .last _ name _ _ v _, path, seen => by
    rw [CstMembers.repeats, CstMembers.Distinct, List.append_eq_nil_iff, Cst.repeats_eq_nil v, repeated_eq_nil]
    simp [CstMembers.slots, and_comm]
  | .cons _ name _ _ v _ rest, path, seen => by
    rw [CstMembers.repeats, CstMembers.Distinct, List.append_eq_nil_iff, List.append_eq_nil_iff, Cst.repeats_eq_nil v,
      repeated_eq_nil, CstMembers.repeats_eq_nil rest, CstMembers.slots, List.map_cons, List.nodup_cons]
    simp only [addSeen_mem, List.mem_map, not_or, List.forall_mem_cons, not_exists, not_and]
    constructor
    · rintro ⟨hv, hname, ⟨hnodup, hseen⟩, hrest⟩
      exact ⟨⟨⟨fun s hs => (hseen s hs).2, hnodup⟩, hname, fun s hs => (hseen s hs).1⟩, hv, hrest⟩
    · rintro ⟨⟨⟨hfresh, hnodup⟩, hname, hseen⟩, hv, hrest⟩
      exact ⟨hv, hname, ⟨hnodup, fun s hs => ⟨hseen s hs, hfresh s hs⟩⟩, hrest⟩

end

/-! ## The readings -/

theorem keepFirst_of_nodup {ν : Type} {ms : List (Units × ν)} (h : (ms.map Prod.fst).Nodup) : keepFirst ms = ms := by
  have hfold : ∀ object : List (Units × ν), ((object ++ ms).map Prod.fst).Nodup → ms.foldl keep object = object ++ ms := by
    clear h
    induction ms with
    | nil => intro object _; rw [List.foldl_nil, List.append_nil]
    | cons m ms ih =>
      intro object h
      have hnew : object.any (fun o => o.1 == m.1) = false := by
        rw [List.any_eq_false]
        intro o ho heq
        rw [List.map_append, List.nodup_append] at h
        exact h.2.2 o.1 (List.mem_map.mpr ⟨o, ho, rfl⟩) m.1 (by simp) (beq_iff_eq.mp heq)
      rw [List.foldl_cons, keep, hnew, if_neg Bool.false_ne_true, ih, List.append_assoc, List.singleton_append]
      rwa [List.append_assoc, List.singleton_append]
  exact hfold [] h

theorem keepLast_of_nodup {ν : Type} {ms : List (Units × Value ν)} (h : (ms.map Prod.fst).Nodup) :
    ms.foldl JsonParse.define [] = ms := by
  have hfold : ∀ object : List (Units × Value ν), ((object ++ ms).map Prod.fst).Nodup →
      ms.foldl JsonParse.define object = object ++ ms := by
    clear h
    induction ms with
    | nil => intro object _; rw [List.foldl_nil, List.append_nil]
    | cons m ms ih =>
      intro object h
      have hnew : m.1 ∉ object.map Prod.fst := by
        intro hm
        rw [List.map_append, List.nodup_append] at h
        exact h.2.2 m.1 hm m.1 (by simp) rfl
      rw [List.foldl_cons, JsonParse.define, if_neg hnew, ih, List.append_assoc, List.singleton_append]
      rwa [List.append_assoc, List.singleton_append]
  exact hfold [] h

section
variable {ν : Type} (n : Units → ν) (entries : List (Units × Value ν) → List (Units × Value ν))

mutual

/-- `JSON.parse` gives every tree its value. -/
theorem Cst.build_value : ∀ (c : Cst) (depth : Nat),
    c.build (JsonParse.spellingWith n fun ms => some (entries ms)) depth = some (c.value n entries)
  | .null, _ => rfl
  | .bool _, _ => rfl
  | .num _, _ => rfl
  | .str _, _ => rfl
  | .noItems _, _ => rfl
  | .noMembers _, _ => rfl
  | .arr items, depth => by
    rw [Cst.build, CstItems.build_value items, Cst.value]
    rfl
  | .obj members, depth => by
    rw [Cst.build, CstMembers.build_value members, Cst.value]
    rfl

theorem CstItems.build_value : ∀ (c : CstItems) (depth : Nat),
    c.build (JsonParse.spellingWith n fun ms => some (entries ms)) depth = some (c.values n entries)
  | .last _ v _, depth => by rw [CstItems.build, Cst.build_value v]; rfl
  | .cons _ v _ rest, depth => by
    rw [CstItems.build, Cst.build_value v, CstItems.build_value rest]
    rfl

theorem CstMembers.build_value : ∀ (c : CstMembers) (depth : Nat),
    c.build (JsonParse.spellingWith n fun ms => some (entries ms)) depth = some (c.values n entries)
  | .last _ name _ _ v _, depth => by
    rw [CstMembers.build, Cst.build_value v]
    rfl
  | .cons _ name _ _ v _ rest, depth => by
    rw [CstMembers.build, Cst.build_value v, CstMembers.build_value rest]
    rfl

end

end

/-! ## The index of a document -/

section
variable {ν : Type} (e : Engine ν)

theorem layout_stops (post : Layout) : Stops post.1 := by
  have h := stops_layout post stops_nil
  rwa [List.append_nil] at h

theorem indexDocument_cst (pre : Layout) (c : Cst) (post : Layout) :
    indexDocument e (pre.1 ++ (c.text ++ post.1)) =
      ⟨recordAll [] (c.entries [] pre.1.length pre.1.length pre.1), Cst.repeats c [], .ok (c.value e.number keepFirst)⟩ := by
  have hread := Cst.scan e c (2 * (pre.1 ++ (c.text ++ post.1)).length + 2) [] pre.1.length (0 + pre.1.length) post.1 [] []
    noLayout pre.1 (layout_stops post)
    (by simp only [List.length_append]; omega)
  have hend : skip ⟨pre.1.length + c.text.length, post.1, recordAll [] (c.entries [] pre.1.length pre.1.length pre.1),
      Cst.repeats c []⟩ = .ok () ⟨pre.1.length + c.text.length + post.1.length, [],
        recordAll [] (c.entries [] pre.1.length pre.1.length pre.1), Cst.repeats c []⟩ := by
    rw [← List.append_nil post.1, skip_run rfl, List.append_nil]
  have hlength : pre.1.length + c.text.length + post.1.length = (pre.1 ++ (c.text ++ post.1)).length := by
    simp only [List.length_append]
    omega
  simp only [noLayout, List.nil_append, List.length_nil, Nat.add_zero, Nat.zero_add] at hread
  rw [indexDocument, readDocument, bind_ok (skip_run (c.skipLayout_text post.1)), bind_ok (get_run _)]
  simp only [Nat.zero_add]
  rw [bind_ok hread, bind_ok hend, bind_ok (get_run _)]
  simp only [hlength, ne_eq, not_true_eq_false, if_false]
  rfl

theorem pointerOf_injective {a b : List Units} (h : pointerOf a = pointerOf b) : a = b := Pointers.pointer_injective h

theorem recordAll_of_nodup {entries : List Entry} (h : (entries.map Entry.path).Nodup) :
    recordAll [] entries = entries.map spanOf := by
  have hfold : ∀ done : List Entry, ((done ++ entries).map Entry.path).Nodup →
      recordAll (done.map spanOf) entries = (done ++ entries).map spanOf := by
    clear h
    induction entries with
    | nil => intro done _; rw [List.append_nil]; rfl
    | cons x entries ih =>
      intro done h
      have hnew : (done.map spanOf).any (fun s => s.pointer == (spanOf x).pointer) = false := by
        rw [List.any_eq_false]
        intro s hs heq
        obtain ⟨y, hy, rfl⟩ := List.mem_map.mp hs
        rw [List.map_append, List.nodup_append] at h
        exact h.2.2 y.path (List.mem_map.mpr ⟨y, hy, rfl⟩) x.path (by simp) (pointerOf_injective (beq_iff_eq.mp heq))
      have hrecord : recordSpan (done.map spanOf) (spanOf x) = (done ++ [x]).map spanOf := by
        rw [recordSpan, hnew, if_neg Bool.false_ne_true, List.map_append, List.map_singleton]
      have hsplit : recordAll (done.map spanOf) (x :: entries) = recordAll (recordSpan (done.map spanOf) (spanOf x)) entries :=
        rfl
      rw [hsplit, hrecord, ih, List.append_assoc, List.singleton_append]
      rwa [List.append_assoc, List.singleton_append]
  exact hfold [] h

/-- A text with the tree that spells it, in which no name is repeated. -/
structure Spelled (text : Units) where
  pre : Layout
  tree : Cst
  post : Layout
  text_eq : text = pre.1 ++ (tree.text ++ post.1)
  distinct : tree.Distinct

namespace Spelled

variable {text : Units}

/-- The entries of the text, in the order they are recorded. -/
def entries (d : Spelled text) : List Entry := d.tree.entries [] d.pre.1.length d.pre.1.length d.pre.1

def value (d : Spelled text) (e : Engine ν) : Value ν := d.tree.value e.number id

theorem index_eq (d : Spelled text) :
    indexDocument e text = ⟨d.entries.map spanOf, [], .ok (d.value e)⟩ := by
  have hindex := indexDocument_cst e d.pre d.tree d.post
  rw [← d.text_eq, (Cst.repeats_eq_nil d.tree []).mpr d.distinct, recordAll_of_nodup (d.tree.nodup_entries d.distinct),
    d.tree.value_of_distinct (fun ms h => keepFirst_of_nodup h) d.distinct] at hindex
  exact hindex

theorem parse_eq (d : Spelled text) : JsonParse.parse e.number text = some (d.value e) := by
  refine (Reader.parse_iff (JsonParse.spelling e.number)).mpr ⟨d.pre, d.tree, d.post, d.text_eq, ?_⟩
  have hbuild := Cst.build_value e.number (fun ms => ms.foldl JsonParse.define []) d.tree 0
  rw [d.tree.value_of_distinct (fun ms h => keepLast_of_nodup h) d.distinct] at hbuild
  exact hbuild

end Spelled

/-! ## A reading agrees with itself -/

variable {e}

theorem firstItemDifference_self {vs : List (Value ν)} (h : ∀ v ∈ vs, ∀ path, firstDifference e v v path = none)
    (path : List Units) (i : Nat) : firstItemDifference e vs vs path i = none := by
  induction vs generalizing i with
  | nil => rfl
  | cons v vs ih =>
    rw [firstItemDifference, h v List.mem_cons_self]
    exact ih (fun w hw => h w (List.mem_cons_of_mem _ hw)) (i + 1)

theorem memberDifferences_none {ms theirs : List (Units × Value ν)} (hsub : ∀ m ∈ ms, m ∈ theirs)
    (hnodup : (theirs.map Prod.fst).Nodup) (h : ∀ m ∈ ms, ∀ path, firstDifference e m.2 m.2 path = none)
    (path : List Units) : ∀ d ∈ memberDifferences e ms theirs path, d.2 = none := by
  induction ms with
  | nil => exact nofun
  | cons m ms ih =>
    obtain ⟨name, mine⟩ := m
    intro d hd
    rw [memberDifferences] at hd
    rcases List.mem_cons.mp hd with rfl | hd
    · rw [Option.bind_eq_none_iff]
      intro found hfound
      have hname : found.1 = name := by simpa using List.find?_some hfound
      have hsame : found = (name, mine) := List.inj_on_of_nodup_map hnodup (List.mem_of_find?_eq_some hfound)
        (hsub _ List.mem_cons_self) hname
      rw [hsame]
      exact h _ List.mem_cons_self _
    · exact ih (fun m hm => hsub m (List.mem_cons_of_mem _ hm)) (fun m hm => h m (List.mem_cons_of_mem _ hm)) d hd

theorem mem_objectKeys {names : List Units} {x : Units} (h : x ∈ objectKeys names) : x ∈ names := by
  rcases List.mem_append.mp h with h | h
  · exact List.mem_of_mem_filter ((List.mem_insertionSort _).mp h)
  · exact List.mem_of_mem_filter h

theorem firstDifference_obj {ms : List (Units × Value ν)} (hnodup : (ms.map Prod.fst).Nodup)
    (h : ∀ m ∈ ms, ∀ path, firstDifference e m.2 m.2 path = none) (path : List Units) :
    firstDifference e (.obj ms) (.obj ms) path = none := by
  rw [firstDifference, List.findSome?_eq_none_iff]
  intro x hx
  have hmem : x ∈ ms.map Prod.fst := by
    rcases List.mem_append.mp hx with hx | hx
    · exact mem_objectKeys hx
    · exact mem_objectKeys (List.mem_of_mem_filter hx)
  rw [if_pos (by simpa using hmem), Option.bind_eq_none_iff]
  intro d hd
  exact memberDifferences_none (fun m hm => hm) hnodup h path d (List.mem_of_find?_eq_some hd)

theorem firstDifference_self : ∀ (c : Cst), c.Distinct → ∀ path : List Units,
    firstDifference e (c.value e.number id) (c.value e.number id) path = none := by
  apply Cst.childInduction
  intro c ih hd path
  have hd' := (c.distinct_iff.mp hd).2
  rcases c.shape with hnone | ⟨slots, rfl⟩ | ⟨slots, rfl⟩
  · cases c with
    | arr items =>
      obtain ⟨s, rest, rfl⟩ := items.exists_ofSlots
      rw [Cst.children, CstItems.slots_ofSlots] at hnone
      cases hnone
    | obj members =>
      obtain ⟨s, rest, rfl⟩ := members.exists_ofSlots
      rw [Cst.children, CstMembers.slots_ofSlots] at hnone
      cases hnone
    | null => rfl
    | bool b => cases b <;> rfl
    | num n =>
      rw [Cst.value, firstDifference, identical, e.same_self (e.number_literal n.2)]
      · rfl
      all_goals simp
    | str ps => rw [Cst.value, firstDifference, identical, beq_self_eq_true] <;> first | rfl | simp
    | noItems l => rfl
    | noMembers l => rfl
  · rw [Cst.value_items, firstDifference, if_neg (by simp)]
    refine firstItemDifference_self (fun v hv path => ?_) path 0
    obtain ⟨s, hs, rfl⟩ := List.mem_map.mp hv
    rw [Cst.children_items] at ih hd'
    obtain ⟨t, ht, hvalue⟩ := mem_itemChildren 0 hs
    rw [← hvalue]
    exact ih t ht (hd' t ht) path
  · rw [Cst.value_members e.number id rfl]
    have hnodup := (Cst.distinct_iff _).mp hd |>.1
    rw [Cst.children_members] at ih hd' hnodup
    refine firstDifference_obj ?_ (fun m hm path => ?_) path
    · rw [id, List.map_map]
      rw [memberChildren, List.map_map] at hnodup
      exact hnodup
    · obtain ⟨s, hs, rfl⟩ := List.mem_map.mp hm
      have hmem : s.map Child.ofMember ∈ memberChildren slots := List.mem_map.mpr ⟨s, hs, rfl⟩
      exact ih _ hmem (hd' _ hmem) path

variable (e)

/-! ## The gate -/

/-- `JSON.parse` with every member kept, to see whether a name is repeated. -/
def everyMember (n : Units → ν) : Reader ν := JsonParse.readerWith n some

/-- No object in a text that `JSON.parse` accepts repeats a member name. -/
def NoRepeats (n : Units → ν) (text : Units) : Prop := ∀ v, (everyMember n).parse text = some v → v.Distinct

theorem agrees_of_spelled {text : Units} (d : Spelled text) : agreesWithParse e text (indexDocument e text) = [] := by
  rw [d.index_eq e, agreesWithParse, d.parse_eq e]
  show [] ++ (firstDifference e (d.value e) (d.value e) []).toList = []
  rw [Spelled.value, firstDifference_self d.tree d.distinct]
  rfl

/-- Where the gate is open the text is spelled by a tree without repeated names. -/
theorem spelled_of_agrees {text : Units} (h : agreesWithParse e text (indexDocument e text) = []) : Nonempty (Spelled text) := by
  have hparse : ∃ v, JsonParse.parse e.number text = some v := by
    cases hp : JsonParse.parse e.number text with
    | some v => exact ⟨v, rfl⟩
    | none =>
      rw [agreesWithParse] at h
      cases hr : (indexDocument e text).reading with
      | error why => simp [hr] at h
      | ok v => simp [hr, hp] at h
  obtain ⟨v, hv⟩ := hparse
  obtain ⟨pre, c, post, rfl, _⟩ := (Reader.parse_iff (JsonParse.spelling e.number)).mp hv
  refine ⟨⟨pre, c, post, rfl, (Cst.repeats_eq_nil c []).mp ?_⟩⟩
  rw [indexDocument_cst, agreesWithParse, hv] at h
  exact List.map_eq_nil_iff.mp (List.append_eq_nil_iff.mp h).1

theorem agrees_iff_spelled {text : Units} :
    agreesWithParse e text (indexDocument e text) = [] ↔ Nonempty (Spelled text) :=
  ⟨spelled_of_agrees e, fun ⟨d⟩ => agrees_of_spelled e d⟩

/-! ## Spans of places -/

theorem take_mid {t a b c : Units} {start : Nat} (h : t = a ++ (b ++ c)) (hstart : start = a.length) : t.take start = a := by
  rw [h, hstart, List.take_left]

theorem drop_mid {t a b c : Units} {stop : Nat} (h : t = a ++ (b ++ c)) (hstop : stop = a.length + b.length) :
    t.drop stop = c := by
  rw [h, hstop, ← List.append_assoc, ← List.length_append, List.drop_left]

theorem slice_mid {t a b c : Units} {start stop : Nat} (h : t = a ++ (b ++ c)) (hstart : start = a.length)
    (hstop : stop = a.length + b.length) : slice t start stop = b := by
  rw [slice, h, hstart, hstop, ← List.append_assoc, List.take_left' List.length_append, List.drop_left]

theorem getElem?_mid {t a rest : Units} {x : UInt16} {i : Nat} (h : t = a ++ x :: rest) (hi : i = a.length) : t[i]? = some x := by
  rw [h, hi, List.getElem?_append_right (Nat.le_refl _), Nat.sub_self]
  rfl

namespace Spelled

variable {text : Units} {e}

/-- The span of the value at a place. -/
def spanAtPlace (d : Spelled text) (p : Place) (k : Cst) : Span :=
  spanOf (k.entry p.path (d.pre.1.length + (Place.head p).length) (p.memberAt d.pre.1.length d.pre.1.length) (p.lead d.pre.1))

theorem text_place (d : Spelled text) {p : Place} {k : Cst} (h : d.tree = p.plug k) :
    text = (d.pre.1 ++ Place.head p) ++ (k.text ++ (Place.tail p ++ d.post.1)) := by
  conv_lhs => rw [d.text_eq, h, Place.text_plug]
  simp only [List.append_assoc]

theorem spanAt_path (d : Spelled text) (path : List Units) :
    spanAt (indexDocument e text) (pointerOf path) = (d.entries.find? fun x => x.path == path).map spanOf := by
  rw [d.index_eq e, spanAt, List.find?_map]
  congr 2
  funext x
  rw [Function.comp_apply, Bool.eq_iff_iff, beq_iff_eq, beq_iff_eq]
  exact ⟨pointerOf_injective, congrArg pointerOf⟩

theorem spanAt_place (d : Spelled text) {p : Place} {k : Cst} (h : d.tree = p.plug k) :
    spanAt (indexDocument e text) (pointerOf p.path) = some (d.spanAtPlace p k) := by
  have hd := d.distinct
  rw [h] at hd
  rw [d.spanAt_path, entries, h, p.find_entry hd]
  rfl

/-- Every pointer of the index is that of a place. -/
theorem place_of_spanAt (d : Spelled text) {pointer : Units} {span : Span}
    (h : spanAt (indexDocument e text) pointer = some span) :
    ∃ (p : Place) (k : Cst), d.tree = p.plug k ∧ pointer = pointerOf p.path ∧ span = d.spanAtPlace p k := by
  rw [d.index_eq e, spanAt] at h
  obtain ⟨x, hx, rfl⟩ := List.mem_map.mp (List.mem_of_find?_eq_some h)
  obtain ⟨p, k, htree, rfl⟩ := d.tree.mem_entries hx
  have hpointer := List.find?_some h
  exact ⟨p, k, htree, (beq_iff_eq.mp hpointer).symm, rfl⟩

/-- The index has the pointers of the paths that lead to a value. -/
theorem spanAt_isSome (d : Spelled text) (path : List Units) :
    (spanAt (indexDocument e text) (pointerOf path)).isSome = ((d.value e).find path).isSome := by
  rw [Bool.eq_iff_iff, Option.isSome_iff_exists, Option.isSome_iff_exists]
  constructor
  · rintro ⟨span, hspan⟩
    obtain ⟨p, k, htree, hpointer, -⟩ := d.place_of_spanAt hspan
    exact ⟨_, (d.tree.find_value e.number path d.distinct).mpr ⟨p, k, htree, (pointerOf_injective hpointer).symm, rfl⟩⟩
  · rintro ⟨w, hw⟩
    obtain ⟨p, k, htree, rfl, -⟩ := (d.tree.find_value e.number path d.distinct).mp hw
    exact ⟨_, d.spanAt_place htree⟩

/-- The value of a span is the text of the tree there. -/
theorem slice_place (d : Spelled text) {p : Place} {k : Cst} (h : d.tree = p.plug k) :
    slice text (d.spanAtPlace p k).valueStart (d.spanAtPlace p k).valueEnd = k.text := by
  exact slice_mid (d.text_place h) (by simp [spanAtPlace, spanOf, Cst.entry]) (by simp [spanAtPlace, spanOf, Cst.entry])

end Spelled

/-! ## Children in the index -/

/-- A pointer names a child of a container by one more step. -/
theorem child_pointer (path q : List Units) :
    ((pointerOf path ++ [unit '/']).isPrefixOf (pointerOf q) &&
      !((pointerOf q).drop (pointerOf path ++ [unit '/']).length).contains (unit '/')) = isChildOf path q := by
  rw [Bool.eq_iff_iff, Bool.and_eq_true, List.isPrefixOf_iff_prefix, Bool.not_eq_true', List.contains_eq_mem,
    decide_eq_false_iff_not, isChildOf, Bool.and_eq_true, List.isPrefixOf_iff_prefix, beq_iff_eq]
  constructor
  · rintro ⟨⟨rest, hrest⟩, hnot⟩
    rw [← hrest, List.drop_left] at hnot
    rw [List.append_assoc, List.singleton_append] at hrest
    obtain ⟨x, rfl, -⟩ := Pointers.pointer_child hrest.symm hnot
    exact ⟨List.prefix_append _ _, by simp⟩
  · rintro ⟨⟨more, rfl⟩, hlength⟩
    obtain ⟨x, rfl⟩ : ∃ x, more = [x] := List.length_eq_one_iff.mp (by simpa using hlength)
    have hpointer : pointerOf (path ++ [x]) = (pointerOf path ++ [unit '/']) ++ Pointers.escaped x := by
      rw [pointerOf, Pointers.pointer_concat, List.append_assoc]
      rfl
    rw [hpointer, List.drop_left]
    exact ⟨List.prefix_append _ _, Pointers.slash_not_mem_escaped x⟩

theorem ownEntries_starts {path : List Units} {start : Nat} {slots : List (Slot Child)} :
    ∀ x ∈ ownEntries path start slots, start ≤ x.memberStart := by
  induction slots generalizing start with
  | nil => exact nofun
  | cons s rest ih =>
    intro x hx
    rw [ownEntries] at hx
    rcases List.mem_cons.mp hx with rfl | hx
    · exact Nat.le_add_right _ _
    · have := ih x hx
      omega

/-- The children stand in their order. -/
theorem ownEntries_sorted (path : List Units) (start : Nat) (slots : List (Slot Child)) :
    ((ownEntries path start slots).map spanOf).Pairwise fun left right => left.memberStart ≤ right.memberStart := by
  induction slots generalizing start with
  | nil => exact List.Pairwise.nil
  | cons s rest ih =>
    rw [ownEntries, List.map_cons, List.pairwise_cons]
    refine ⟨fun right hright => ?_, ih _⟩
    obtain ⟨x, hx, rfl⟩ := List.mem_map.mp hright
    have := ownEntries_starts x hx
    simp only [spanOf, Cst.entry, Slot.text, Slot.map, List.length_append] at this ⊢
    omega

theorem step_itemChildren {i : Nat} {slots : List (Slot Cst)} {s : Slot Child} (h : s ∈ itemChildren i slots) :
    ∃ j, s.body.step = natText j := by
  induction slots generalizing i with
  | nil => cases h
  | cons t slots ih =>
    rcases List.mem_cons.mp h with rfl | h
    · exact ⟨i, rfl⟩
    · exact ih h

theorem mem_ownEntries {path : List Units} {start : Nat} {slots : List (Slot Child)} {x : Entry}
    (h : x ∈ ownEntries path start slots) : ∃ s ∈ slots, x.path = path ++ [s.body.step] := by
  induction slots generalizing start with
  | nil => cases h
  | cons s rest ih =>
    rw [ownEntries] at h
    rcases List.mem_cons.mp h with rfl | h
    · exact ⟨s, List.mem_cons_self, rfl⟩
    · obtain ⟨t, ht, hpath⟩ := ih h
      exact ⟨t, List.mem_cons_of_mem _ ht, hpath⟩

/-- No unit of a decimal numeral needs an escape. -/
theorem escaped_natText (n : Nat) : Pointers.escaped (natText n) = natText n := by
  have hdigit : ∀ l : Units, (∀ u ∈ l, isDigit u = true) → Pointers.escaped l = l := by
    intro l hl
    induction l with
    | nil => rfl
    | cons u l ih =>
      have hu := hl u List.mem_cons_self
      have hne : u ≠ unit '~' ∧ u ≠ unit '/' := by
        constructor <;> (rintro rfl; exact absurd hu (by decide))
      rw [Pointers.escaped, List.flatMap_cons, ← Pointers.escaped, ih fun v hv => hl v (List.mem_cons_of_mem _ hv),
        Pointers.escapeStep, if_neg hne.1, if_neg hne.2]
      rfl
  exact hdigit _ (natText_digits n)

/-- The entries one step under a place are those of the children there. -/
theorem Spelled.filter_entries {text : Units} (d : Spelled text) {p : Place} {k : Cst} (h : d.tree = p.plug k) :
    d.entries.filter (fun x => isChildOf p.path x.path) =
      ownEntries p.path (d.pre.1.length + (Place.head p).length + 1) k.children := by
  have hd := d.distinct
  rw [h] at hd
  rw [entries, h]
  exact p.filter_children hd _ _ _

/-- The children of the container at a place, as the edits find them. -/
theorem Spelled.childSpans_place {text : Units} (d : Spelled text) {p : Place} {k : Cst} (h : d.tree = p.plug k) {array : Bool}
    (hitems : array = true → ∀ s ∈ k.children, ∃ j, s.body.step = natText j) :
    childSpans (indexDocument e text) (pointerOf p.path) array =
      (ownEntries p.path (d.pre.1.length + (Place.head p).length + 1) k.children).map spanOf := by
  have hprefix : (if pointerOf p.path = [] then [unit '/'] else pointerOf p.path ++ [unit '/']) = pointerOf p.path ++ [unit '/'] := by
    split
    · next hnil => rw [hnil]; rfl
    · rfl
  have hfilter := d.filter_entries h
  rw [d.index_eq e, childSpans, hprefix]
  simp only
  rw [List.filter_map]
  have hfound : d.entries.filter ((fun span : Span => (pointerOf p.path ++ [unit '/']).isPrefixOf span.pointer &&
      (!(span.pointer.drop (pointerOf p.path ++ [unit '/']).length).contains (unit '/') &&
        (!array || afterWhole (span.pointer.drop (pointerOf p.path ++ [unit '/']).length) == some []))) ∘ spanOf) =
      ownEntries p.path (d.pre.1.length + (Place.head p).length + 1) k.children := by
    rw [← hfilter]
    refine List.filter_congr fun x hx => ?_
    rw [Function.comp_apply, ← Bool.and_assoc, show (spanOf x).pointer = pointerOf x.path from rfl, child_pointer]
    cases hchild : isChildOf p.path x.path with
    | false => rfl
    | true =>
      rw [Bool.true_and]
      cases array with
      | false => rfl
      | true =>
        have hmem : x ∈ ownEntries p.path (d.pre.1.length + (Place.head p).length + 1) k.children := by
          rw [← hfilter]
          exact List.mem_filter.mpr ⟨hx, hchild⟩
        obtain ⟨s, hs, hpath⟩ := mem_ownEntries hmem
        obtain ⟨j, hj⟩ := hitems rfl s hs
        have hpointer : pointerOf x.path = (pointerOf p.path ++ [unit '/']) ++ natText j := by
          rw [hpath, hj, pointerOf, Pointers.pointer_concat, escaped_natText, List.append_assoc]
          rfl
        rw [hpointer, List.drop_left, afterWhole_natText]
        rfl
  rw [hfound]
  exact (ownEntries_sorted _ _ _).insertionSort_eq

/-! ## What the gate decides -/

theorem distinctItems_iff {vs : List (Value ν)} : Value.DistinctItems vs ↔ ∀ v ∈ vs, v.Distinct := by
  induction vs with
  | nil => exact ⟨fun _ => nofun, fun _ => trivial⟩
  | cons v vs ih => rw [Value.DistinctItems, ih, List.forall_mem_cons]

theorem distinctMembers_iff {ms : List (Units × Value ν)} : Value.DistinctMembers ms ↔ ∀ m ∈ ms, m.2.Distinct := by
  induction ms with
  | nil => exact ⟨fun _ => nofun, fun _ => trivial⟩
  | cons m ms ih => rw [Value.DistinctMembers, ih, List.forall_mem_cons]

/-- The value has an object that repeats a name exactly when the tree does. -/
theorem distinct_value (n : Units → ν) : ∀ c : Cst, (c.value n id).Distinct ↔ c.Distinct := by
  apply Cst.childInduction
  intro c ih
  rw [c.distinct_iff]
  rcases c.shape with hnone | ⟨slots, rfl⟩ | ⟨slots, rfl⟩
  · rw [hnone]
    refine ⟨fun _ => ⟨List.nodup_nil, nofun⟩, fun _ => ?_⟩
    have hchildren := Cst.children_value n c
    rw [hnone] at hchildren
    cases hv : c.value n id with
    | arr vs =>
      rw [hv, Value.children, List.map_nil, List.mapIdx_eq_nil_iff] at hchildren
      rw [hchildren]
      trivial
    | obj ms =>
      rw [hv, Value.children, List.map_nil] at hchildren
      rw [hchildren]
      exact ⟨List.nodup_nil, trivial⟩
    | _ => trivial
  · rw [Cst.children_items] at ih ⊢
    rw [Cst.value_items, Value.Distinct, distinctItems_iff]
    constructor
    · intro h
      refine ⟨nodup_itemChildren 0 slots, fun s hs => ?_⟩
      obtain ⟨t, ht, hvalue⟩ := mem_of_itemChildren hs
      rw [← ih s hs, hvalue]
      exact h _ (List.mem_map.mpr ⟨t, ht, rfl⟩)
    · rintro ⟨_, h⟩ v hv
      obtain ⟨t, ht, rfl⟩ := List.mem_map.mp hv
      obtain ⟨s, hs, hvalue⟩ := mem_itemChildren 0 ht
      rw [← hvalue, ih s hs]
      exact h s hs
  · rw [Cst.children_members] at ih ⊢
    rw [Cst.value_members n id rfl, Value.Distinct, distinctMembers_iff, memberChildren, id, List.map_map, List.map_map]
    refine and_congr_right fun _ => ⟨fun h s hs => ?_, fun h m hm => ?_⟩
    · rw [← ih s hs]
      obtain ⟨t, ht, rfl⟩ := List.mem_map.mp hs
      exact h _ (List.mem_map.mpr ⟨t, ht, rfl⟩)
    · obtain ⟨t, ht, rfl⟩ := List.mem_map.mp hm
      have hs : t.map Child.ofMember ∈ memberChildren slots := List.mem_map.mpr ⟨t, ht, rfl⟩
      exact (ih _ hs).mpr (h _ hs)

theorem spelled_iff {text : Units} : Nonempty (Spelled text) ↔
    (∃ v, JsonParse.parse e.number text = some v) ∧ NoRepeats e.number text := by
  have hevery : ∀ (pre : Layout) (c : Cst) (post : Layout),
      (everyMember e.number).parse (pre.1 ++ (c.text ++ post.1)) = some (c.value e.number id) := fun pre c post =>
    (Reader.parse_iff (JsonParse.spellingWith e.number some)).mpr ⟨pre, c, post, rfl, Cst.build_value e.number id c 0⟩
  constructor
  · rintro ⟨d⟩
    refine ⟨⟨_, d.parse_eq e⟩, fun v hv => ?_⟩
    rw [d.text_eq, hevery] at hv
    rw [← Option.some.inj hv, distinct_value]
    exact d.distinct
  · rintro ⟨⟨v, hv⟩, hno⟩
    obtain ⟨pre, c, post, rfl, _⟩ := (Reader.parse_iff (JsonParse.spelling e.number)).mp hv
    exact ⟨⟨pre, c, post, rfl, (distinct_value e.number c).mp (hno _ (hevery pre c post))⟩⟩

/-- The gate is open exactly for JSON without repeated names; then the index has one span for each value of the
document, under its pointer, that holds its text. -/
theorem gate_sound_complete (text : Units) :
    (agreesWithParse e text (indexDocument e text) = [] ↔
      (∃ v, JsonParse.parse e.number text = some v) ∧ NoRepeats e.number text) ∧
    (agreesWithParse e text (indexDocument e text) = [] → ∃ v, JsonParse.parse e.number text = some v ∧
      ((indexDocument e text).spans.map Span.pointer).Nodup ∧
      (∀ a b : List Units, pointerOf a = pointerOf b → a = b) ∧
      (∀ pointer, pointer ∈ (indexDocument e text).spans.map Span.pointer ↔
        ∃ path w, pointerOf path = pointer ∧ v.find path = some w) ∧
      ∀ path w, v.find path = some w → ∃ span, spanAt (indexDocument e text) (pointerOf path) = some span ∧
        JsonParse.parse e.number (slice text span.valueStart span.valueEnd) = some w) := by
  refine ⟨(agrees_iff_spelled e).trans (spelled_iff e), fun h => ?_⟩
  obtain ⟨d⟩ := spelled_of_agrees e h
  have hspans : (indexDocument e text).spans = d.entries.map spanOf := by rw [d.index_eq e]
  refine ⟨d.value e, d.parse_eq e, ?_, fun _ _ => pointerOf_injective, fun pointer => ?_, fun path w hw => ?_⟩
  · rw [hspans, List.map_map]
    have hpaths : (d.entries.map Entry.path).Nodup := d.tree.nodup_entries d.distinct
    have hnodup := hpaths.map (f := pointerOf) fun _ _ => pointerOf_injective
    rw [List.map_map] at hnodup
    exact hnodup
  · rw [hspans, List.map_map, List.mem_map]
    constructor
    · rintro ⟨x, hx, rfl⟩
      obtain ⟨p, k, htree, rfl⟩ := d.tree.mem_entries hx
      exact ⟨p.path, k.value e.number id, rfl, (d.tree.find_value e.number p.path d.distinct).mpr ⟨p, k, htree, rfl, rfl⟩⟩
    · rintro ⟨path, w, rfl, hw⟩
      obtain ⟨p, k, htree, rfl, rfl⟩ := (d.tree.find_value e.number path d.distinct).mp hw
      have hspan := d.spanAt_place (e := e) htree
      rw [d.spanAt_path, Option.map_eq_some_iff] at hspan
      obtain ⟨x, hx, _⟩ := hspan
      have hpath := List.find?_some hx
      exact ⟨x, List.mem_of_find?_eq_some hx, congrArg pointerOf (beq_iff_eq.mp hpath)⟩
  · obtain ⟨p, k, htree, rfl, rfl⟩ := (d.tree.find_value e.number path d.distinct).mp hw
    refine ⟨d.spanAtPlace p k, d.spanAt_place htree, ?_⟩
    rw [d.slice_place htree]
    have hdistinct := d.distinct
    rw [htree] at hdistinct
    exact (Spelled.mk noLayout k noLayout (by simp [noLayout]) (Place.distinct_of_plug hdistinct)).parse_eq e

end

end DocumentText

end Desk
