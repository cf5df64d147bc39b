import Desk.Lib.JsonInsert
import Desk.Packs.SpliceSound

/-!
# One more member

A member is put into a container in the layout of the member it is put beside.
-/

namespace Desk

namespace DocumentText

section
variable {ν : Type} {e : Engine ν} {text : Units}

/-! ## The children of a container -/

theorem length_ownEntries (path : List Units) (start : Nat) (slots : List (Slot Child)) :
    (ownEntries path start slots).length = slots.length := by
  induction slots generalizing start with
  | nil => rfl
  | cons s rest ih => rw [ownEntries, List.length_cons, List.length_cons, ih]

/-- The entry of a child whose slot starts at a position. -/
def childEntry (path : List Units) (start : Nat) (s : Slot Child) : Entry :=
  s.body.value.entry (path ++ [s.body.step]) (start + s.pre.1.length + s.body.label.length) (start + s.pre.1.length) s.pre.1

theorem ownEntries_split (path : List Units) (start : Nat) (left : List (Slot Child)) (s : Slot Child)
    (right : List (Slot Child)) : ∃ r, ownEntries path start (left ++ s :: right) = ownEntries path start left ++
      childEntry path (start + (slotsBefore (left.map (Slot.map Child.text))).length) s :: r := by
  induction left generalizing start with
  | nil => exact ⟨_, rfl⟩
  | cons t left ih =>
    obtain ⟨r, hr⟩ := ih (start + (t.map Child.text).text.length + 1)
    have hlength : start + (t.map Child.text).text.length + 1 + (slotsBefore (left.map (Slot.map Child.text))).length =
        start + (slotsBefore ((t :: left).map (Slot.map Child.text))).length := by
      simp [slotsBefore]
      omega
    rw [hlength] at hr
    refine ⟨r, ?_⟩
    rw [List.cons_append, ownEntries, hr, ownEntries, List.cons_append]

namespace Spelled

theorem length_childSpans (d : Spelled text) {p : Place} {k : Cst} (h : d.tree = p.plug k) {array : Bool}
    (hitems : array = true → ∀ s ∈ k.children, ∃ j, s.body.step = natText j) :
    (childSpans (indexDocument e text) (pointerOf p.path) array).length = k.children.length := by
  rw [d.childSpans_place e h hitems, List.length_map, length_ownEntries]

/-- Where a child of a container stands, and the layout in front of it. -/
theorem childSpan_at (d : Spelled text) {p : Place} {k : Cst} (h : d.tree = p.plug k) {array : Bool}
    (hitems : array = true → ∀ s ∈ k.children, ∃ j, s.body.step = natText j) {left right : List (Slot Child)} {s : Slot Child}
    (hchildren : k.children = left ++ s :: right) :
    ∃ span, (childSpans (indexDocument e text) (pointerOf p.path) array)[left.length]? = some span ∧
      span.pointer = pointerOf (p.path ++ [s.body.step]) ∧
      span.memberStart = d.pre.1.length + (Place.head p).length + 1 +
        (slotsBefore (left.map (Slot.map Child.text))).length + s.pre.1.length ∧
      span.memberEnd = span.memberStart + s.body.text.length ∧ leadingLayout text span.memberStart = s.pre.1 := by
  have hown := d.filter_entries h
  rw [d.childSpans_place e h hitems, hchildren]
  rw [hchildren] at hown
  obtain ⟨r, hr⟩ := ownEntries_split p.path (d.pre.1.length + (Place.head p).length + 1) left s right
  rw [hr] at hown ⊢
  generalize hx : childEntry p.path _ s = x at hown hr ⊢
  have hmem : x ∈ d.entries.filter fun x => isChildOf p.path x.path := by
    rw [hown]
    exact List.mem_append_right _ List.mem_cons_self
  have hlead := d.leadingLayout_entry (List.mem_of_mem_filter hmem)
  subst hx
  refine ⟨spanOf (childEntry p.path _ s), ?_, rfl, rfl, ?_, hlead⟩
  · rw [List.getElem?_map, List.getElem?_append_right (by rw [length_ownEntries]), length_ownEntries, Nat.sub_self]
    rfl
  · simp only [spanOf, childEntry, Cst.entry, Child.text, List.length_append]
    omega

end Spelled

/-! ## The text of the result -/

/-- What is written for a member or an element. -/
def written (json : Units) : Option Units → Units
  | none => json
  | some name => JsonParse.stringify name ++ wordText ": " ++ json

/-- The edit, once it is known what is written and where. -/
def spliceMember (text : Units) (container : Span) (members : List Span) (at_ : Nat) (written : Units) : Units :=
  match members.getLast?, members[min at_ (members.length - 1)]? with
  | some last, some model =>
    let layout := leadingLayout text model.memberStart
    if at_ ≥ members.length then
      text.take last.memberEnd ++ [unit ','] ++ layout ++ written ++ text.drop last.memberEnd
    else
      let start := model.memberStart - layout.length
      text.take start ++ layout ++ written ++ [unit ','] ++ text.drop start
  | _, _ => text.take (container.valueStart + 1) ++ (wordText " " ++ written ++ wordText " ") ++
      text.drop (container.valueEnd - 1)

theorem insertMember_eq {index : DocumentIndex ν} {pointer json : Units} {name : Option Units} {placement : Placement}
    {container : Span} {opens : UInt16} (hspan : spanAt index pointer = some container)
    (hopens : text[container.valueStart]? = some opens)
    (hkind : (opens = unit '\x7b' ∧ ∃ x, name = some x) ∨ (opens = unit '[' ∧ name = none)) :
    insertMember text index pointer name json placement =
      spliceMember text container (childSpans index pointer (opens == unit '['))
        (placementIndex (childSpans index pointer (opens == unit '[')) placement) (written json name) := by
  rcases hkind with ⟨rfl, x, rfl⟩ | ⟨rfl, rfl⟩
  · rw [insertMember, hspan]
    simp only [hopens]
    rfl
  · rw [insertMember, hspan]
    simp only [hopens]
    rfl

/-- A text with one range more; a run of layout may go from where it is put, but only if nothing else stands there. -/
def Inserts (text result : Units) (bare : Prop) : Prop := ∃ before gap inserted after,
  text = before ++ (gap ++ after) ∧ result = before ++ (inserted ++ after) ∧ gap.all isLayout = true ∧ (gap ≠ [] → bare)

section
variable {p : Place} {k : Cst} {array : Bool} {opens closes : UInt16} {inner : Layout}

namespace Spelled

theorem text_container (d : Spelled text) (h : d.tree = p.plug k)
    (htext : k.text = opens :: (inside inner (k.children.map (Slot.map Child.text)) ++ [closes])) :
    text = (d.pre.1 ++ Place.head p) ++ ((opens :: (inside inner (k.children.map (Slot.map Child.text)) ++ [closes])) ++
      (Place.tail p ++ d.post.1)) := by
  rw [← htext]
  exact d.text_place h

theorem opens_at (d : Spelled text) (h : d.tree = p.plug k)
    (htext : k.text = opens :: (inside inner (k.children.map (Slot.map Child.text)) ++ [closes])) :
    text[(d.spanAtPlace p k).valueStart]? = some opens := by
  exact getElem?_mid (d.text_container h htext) (by simp [spanAtPlace, spanOf, Cst.entry])

/-- The text with another run of slots in the container. -/
abbrev regrown (d : Spelled text) (p : Place) (opens closes : UInt16) (slots : List (Slot Units)) : Units :=
  (d.pre.1 ++ Place.head p) ++ ((opens :: (inside noLayout slots ++ [closes])) ++ (Place.tail p ++ d.post.1))

/-- An empty container gets its only member. -/
theorem splice_empty (d : Spelled text) (h : d.tree = p.plug k)
    (htext : k.text = opens :: (inside inner (k.children.map (Slot.map Child.text)) ++ [closes]))
    (hitems : array = true → ∀ s ∈ k.children, ∃ j, s.body.step = natText j) (hempty : k.children = []) (i : Nat)
    (fresh : Slot Units) :
    spliceMember text (d.spanAtPlace p k) (childSpans (indexDocument e text) (pointerOf p.path) array) i fresh.text =
        d.regrown p opens closes (insertSlot fresh i (k.children.map (Slot.map Child.text))) ∧
      Inserts text (d.regrown p opens closes (insertSlot fresh i (k.children.map (Slot.map Child.text)))) (k.children = []) := by
  have hspans : childSpans (indexDocument e text) (pointerOf p.path) array = [] := by
    rw [← List.length_eq_zero_iff, d.length_childSpans h hitems, hempty]
    rfl
  have hslots : insertSlot fresh i (k.children.map (Slot.map Child.text)) = [fresh.wrap spaceLayout spaceLayout] := by
    rw [hempty]
    cases i <;> rfl
  have hsplit : text = (d.pre.1 ++ Place.head p ++ [opens]) ++ (inner.1 ++ ([closes] ++ (Place.tail p ++ d.post.1))) := by
    refine (d.text_container h htext).trans ?_
    rw [hempty]
    simp [inside]
  have hstart : (d.spanAtPlace p k).valueStart + 1 = (d.pre.1 ++ Place.head p ++ [opens]).length := by
    simp [spanAtPlace, spanOf, Cst.entry, Nat.add_assoc]
  have hstop : (d.spanAtPlace p k).valueEnd - 1 = (d.pre.1 ++ Place.head p ++ [opens]).length + inner.1.length := by
    rw [hempty] at htext
    simp only [spanAtPlace, spanOf, Cst.entry, htext, inside, List.map_nil, List.length_append, List.length_cons,
      List.length_nil]
    omega
  have hnew : d.regrown p opens closes [fresh.wrap spaceLayout spaceLayout] = (d.pre.1 ++ Place.head p ++ [opens]) ++
      ((wordText " " ++ fresh.text ++ wordText " ") ++ ([closes] ++ (Place.tail p ++ d.post.1))) := by
    simp [inside, commas, Slot.text_wrap, spaceLayout, wordText]
  rw [hspans, hslots, hnew]
  refine ⟨?_, _, inner.1, _, _, hsplit, rfl, inner.2, fun _ => hempty⟩
  show text.take _ ++ (wordText " " ++ fresh.text ++ wordText " ") ++ text.drop _ = _
  rw [take_mid hsplit hstart, drop_mid hsplit hstop, List.append_assoc]

/-- A member is put in front of another. -/
theorem splice_between (d : Spelled text) (h : d.tree = p.plug k)
    (htext : k.text = opens :: (inside inner (k.children.map (Slot.map Child.text)) ++ [closes]))
    (hitems : array = true → ∀ s ∈ k.children, ∃ j, s.body.step = natText j) {left right : List (Slot Child)} {s : Slot Child}
    (hchildren : k.children = left ++ s :: right) (fresh : Slot Units) :
    spliceMember text (d.spanAtPlace p k) (childSpans (indexDocument e text) (pointerOf p.path) array) left.length fresh.text =
        d.regrown p opens closes (insertSlot fresh left.length (k.children.map (Slot.map Child.text))) ∧
      Inserts text (d.regrown p opens closes (insertSlot fresh left.length (k.children.map (Slot.map Child.text))))
        (k.children = []) := by
  obtain ⟨span, hspan, -, hstart, -, hlead⟩ := d.childSpan_at (e := e) h hitems hchildren
  have hlength := d.length_childSpans (e := e) h hitems
  have hlt : left.length < k.children.length := by
    rw [hchildren, List.length_append, List.length_cons]
    omega
  have hslots : insertSlot fresh left.length (k.children.map (Slot.map Child.text)) =
      left.map (Slot.map Child.text) ++ fresh.wrap s.pre noLayout :: s.map Child.text :: right.map (Slot.map Child.text) := by
    rw [hchildren, List.map_append, List.map_cons, ← List.length_map (f := Slot.map Child.text), insertSlot_at]
    rfl
  obtain ⟨last, hlast⟩ : ∃ last, (childSpans (indexDocument e text) (pointerOf p.path) array).getLast? = some last := by
    rw [← Option.isSome_iff_exists, List.getLast?_isSome]
    intro hnil
    rw [hnil, List.length_nil] at hlength
    omega
  have hsplit : text = (d.pre.1 ++ Place.head p ++ opens :: slotsBefore (left.map (Slot.map Child.text))) ++ ([] ++
      ((s.map Child.text).text ++ (slotsAfter (right.map (Slot.map Child.text)) ++
        ([closes] ++ (Place.tail p ++ d.post.1))))) := by
    refine (d.text_container h htext).trans ?_
    rw [hchildren, List.map_append, List.map_cons, inside_split]
    simp
  have hstop : span.memberStart - (leadingLayout text span.memberStart).length =
      (d.pre.1 ++ Place.head p ++ opens :: slotsBefore (left.map (Slot.map Child.text))).length := by
    rw [hlead, hstart, List.length_append, List.length_append, List.length_cons]
    omega
  have hnew : d.regrown p opens closes (left.map (Slot.map Child.text) ++
        fresh.wrap s.pre noLayout :: s.map Child.text :: right.map (Slot.map Child.text)) =
      (d.pre.1 ++ Place.head p ++ opens :: slotsBefore (left.map (Slot.map Child.text))) ++
        ((s.pre.1 ++ (fresh.text ++ [unit ','])) ++ ((s.map Child.text).text ++
          (slotsAfter (right.map (Slot.map Child.text)) ++ ([closes] ++ (Place.tail p ++ d.post.1))))) := by
    rw [regrown, inside_split, Slot.text_wrap]
    simp [slotsAfter, noLayout]
  rw [hslots, hnew]
  refine ⟨?_, _, [], _, _, hsplit, rfl, rfl, fun h => absurd rfl h⟩
  rw [spliceMember, hlength, Nat.min_eq_left (by omega), hlast, hspan]
  simp only [if_neg (Nat.not_le.mpr hlt), hlead] at hstop ⊢
  rw [take_mid hsplit hstop, drop_mid hsplit (by rw [hstop]; rfl)]
  simp

/-- A member is put behind the last. -/
theorem splice_behind (d : Spelled text) (h : d.tree = p.plug k)
    (htext : k.text = opens :: (inside inner (k.children.map (Slot.map Child.text)) ++ [closes]))
    (hitems : array = true → ∀ s ∈ k.children, ∃ j, s.body.step = natText j) {left : List (Slot Child)} {s : Slot Child}
    (hchildren : k.children = left ++ [s]) (fresh : Slot Units) :
    spliceMember text (d.spanAtPlace p k) (childSpans (indexDocument e text) (pointerOf p.path) array) (left.length + 1)
          fresh.text =
        d.regrown p opens closes (insertSlot fresh (left.length + 1) (k.children.map (Slot.map Child.text))) ∧
      Inserts text (d.regrown p opens closes (insertSlot fresh (left.length + 1) (k.children.map (Slot.map Child.text))))
        (k.children = []) := by
  obtain ⟨span, hspan, -, hstart, hend, hlead⟩ := d.childSpan_at (e := e) h hitems hchildren
  have hlength := d.length_childSpans (e := e) h hitems
  rw [hchildren, List.length_append, List.length_singleton] at hlength
  have hslots : insertSlot fresh (left.length + 1) (k.children.map (Slot.map Child.text)) =
      left.map (Slot.map Child.text) ++ [⟨s.pre, s.body.text, noLayout⟩, fresh.wrap s.pre s.post] := by
    rw [hchildren, List.map_append, List.map_singleton, ← List.length_map (f := Slot.map Child.text), insertSlot_end]
    rfl
  have hlast : (childSpans (indexDocument e text) (pointerOf p.path) array).getLast? = some span := by
    rw [List.getLast?_eq_getElem?, hlength]
    exact hspan
  have hsplit : text = (d.pre.1 ++ Place.head p ++ opens :: (slotsBefore (left.map (Slot.map Child.text)) ++
      (s.pre.1 ++ s.body.text))) ++ ([] ++ (s.post.1 ++ ([closes] ++ (Place.tail p ++ d.post.1)))) := by
    refine (d.text_container h htext).trans ?_
    rw [hchildren, List.map_append, List.map_singleton, inside_split]
    simp [Slot.text, slotsAfter]
  have hstop : span.memberEnd = (d.pre.1 ++ Place.head p ++ opens :: (slotsBefore (left.map (Slot.map Child.text)) ++
      (s.pre.1 ++ s.body.text))).length := by
    simp only [hend, hstart, List.length_append, List.length_cons]
    omega
  have hnew : d.regrown p opens closes (left.map (Slot.map Child.text) ++
        [⟨s.pre, s.body.text, noLayout⟩, fresh.wrap s.pre s.post]) =
      (d.pre.1 ++ Place.head p ++ opens :: (slotsBefore (left.map (Slot.map Child.text)) ++ (s.pre.1 ++ s.body.text))) ++
        ((unit ',' :: (s.pre.1 ++ fresh.text)) ++ (s.post.1 ++ ([closes] ++ (Place.tail p ++ d.post.1)))) := by
    rw [regrown, inside_split]
    simp [slotsAfter, Slot.wrap, Slot.text, noLayout]
  rw [hslots, hnew]
  refine ⟨?_, _, [], _, _, hsplit, rfl, rfl, fun h => absurd rfl h⟩
  rw [spliceMember, hlength, Nat.add_sub_cancel, Nat.min_eq_right (Nat.le_succ _), hlast, hspan]
  simp only [if_pos (Nat.le_refl _), hlead, ge_iff_le]
  rw [take_mid hsplit hstop, drop_mid hsplit (by rw [hstop]; rfl)]
  simp

theorem splice_at (d : Spelled text) (h : d.tree = p.plug k)
    (htext : k.text = opens :: (inside inner (k.children.map (Slot.map Child.text)) ++ [closes]))
    (hitems : array = true → ∀ s ∈ k.children, ∃ j, s.body.step = natText j) {i : Nat} (hi : i ≤ k.children.length)
    (fresh : Slot Units) :
    spliceMember text (d.spanAtPlace p k) (childSpans (indexDocument e text) (pointerOf p.path) array) i fresh.text =
        d.regrown p opens closes (insertSlot fresh i (k.children.map (Slot.map Child.text))) ∧
      Inserts text (d.regrown p opens closes (insertSlot fresh i (k.children.map (Slot.map Child.text)))) (k.children = []) := by
  rcases Nat.lt_or_eq_of_le hi with hlt | rfl
  · have hchildren : k.children = k.children.take i ++ k.children[i] :: k.children.drop (i + 1) := by simp
    have hlength : (k.children.take i).length = i := List.length_take_of_le hi
    have hspec := d.splice_between (e := e) h htext hitems hchildren fresh
    rwa [hlength] at hspec
  · rcases List.eq_nil_or_concat k.children with hempty | ⟨left, s, hchildren⟩
    · exact d.splice_empty h htext hitems hempty _ fresh
    · rw [List.concat_eq_append] at hchildren
      have hlength : k.children.length = left.length + 1 := by rw [hchildren, List.length_append, List.length_singleton]
      rw [hlength]
      exact d.splice_behind h htext hitems hchildren fresh

end Spelled

end

/-! ## The container and its value -/

/-- A container takes an element without a name, or a member whose name it does not have. -/
def Accepts : Value ν → Option Units → Prop
  | .arr _, none => True
  | .obj members, some name => name ∉ members.map Prod.fst
  | _, _ => False

/-- The position among the children of a container that a placement asks for. -/
def Placed (path : List Units) (c : Value ν) : Placement → Nat → Prop
  | .first, i => i = 0
  | .last, i => i = c.children.length
  | .after pointer, i => ∃ j x w, c.children[j]? = some (x, w) ∧ pointer = pointerOf (path ++ [x]) ∧ i = j + 1

theorem Placed.le {path : List Units} {c : Value ν} {placement : Placement} {i : Nat} (h : Placed path c placement i) :
    i ≤ c.children.length := by
  cases placement with
  | first => exact h ▸ Nat.zero_le _
  | last => exact Nat.le_of_eq h
  | after pointer =>
    obtain ⟨j, x, w, hj, -, rfl⟩ := h
    exact (List.getElem?_eq_some_iff.mp hj).1

/-- The edit finds the position that is asked for. -/
theorem Spelled.placementIndex_eq (d : Spelled text) {p : Place} {k : Cst} (h : d.tree = p.plug k) {array : Bool}
    (hitems : array = true → ∀ s ∈ k.children, ∃ j, s.body.step = natText j) {placement : Placement} {i : Nat}
    (hplaced : Placed p.path (k.value e.number id) placement i) :
    placementIndex (childSpans (indexDocument e text) (pointerOf p.path) array) placement = i := by
  have hlength := d.length_childSpans (e := e) h hitems
  cases placement with
  | first => exact hplaced.symm
  | last =>
    have hi : i = (k.value e.number id).children.length := hplaced
    rw [Cst.children_value, List.length_map] at hi
    rw [placementIndex, hlength, hi]
  | after pointer =>
    obtain ⟨j, x, w, hj, rfl, rfl⟩ := hplaced
    rw [Cst.children_value, List.getElem?_map, Option.map_eq_some_iff] at hj
    obtain ⟨s, hs, hxw⟩ := hj
    obtain ⟨rfl, rfl⟩ := Prod.mk.inj hxw
    have hnodup := (k.distinct_iff.mp (Place.distinct_of_plug (h ▸ d.distinct))).1
    -- where the pointers of the children stand
    have hat : ∀ m (hm : m < k.children.length),
        ((childSpans (indexDocument e text) (pointerOf p.path) array)[m]?).map Span.pointer =
          some (pointerOf (p.path ++ [k.children[m].body.step])) := by
      intro m hm
      have hsplit : k.children = k.children.take m ++ k.children[m] :: k.children.drop (m + 1) := by simp
      obtain ⟨span, hspan, hpointer, -⟩ := d.childSpan_at (e := e) h hitems hsplit
      rw [List.length_take_of_le (Nat.le_of_lt hm)] at hspan
      rw [hspan, Option.map_some, hpointer]
    obtain ⟨hlt, rfl⟩ := List.getElem?_eq_some_iff.mp hs
    have hfound : (childSpans (indexDocument e text) (pointerOf p.path) array).findIdx?
        (fun span => span.pointer == pointerOf (p.path ++ [k.children[j].body.step])) = some j := by
      rw [List.findIdx?_eq_some_iff_getElem]
      refine ⟨by rw [hlength]; exact hlt, ?_, fun m hm => ?_⟩
      · have hj := hat j hlt
        rw [List.getElem?_eq_getElem (by rw [hlength]; exact hlt), Option.map_some, Option.some.injEq] at hj
        rw [hj]
        exact beq_self_eq_true _
      · have hmlt := Nat.lt_trans hm hlt
        have hm' := hat m hmlt
        rw [List.getElem?_eq_getElem (by rw [hlength]; exact hmlt), Option.map_some, Option.some.injEq] at hm'
        rw [hm', beq_iff_eq]
        intro heq
        have hstep : k.children[m].body.step = k.children[j].body.step :=
          List.singleton_inj.mp (List.append_cancel_left (pointerOf_injective heq))
        refine List.nodup_iff_getElem?_ne_getElem?.mp hnodup m j hm (by rw [List.length_map]; exact hlt) ?_
        rw [List.getElem?_map, List.getElem?_map, List.getElem?_eq_getElem hmlt, List.getElem?_eq_getElem hlt, Option.map_some,
          Option.map_some, hstep]
    rw [placementIndex, hfound]

/-- The member that is written for a name that the object does not have. -/
theorem exists_written {inner : Layout} {slots : List (Slot Member)} (hd : (Cst.members inner slots).Distinct) {x : Units}
    (hx : x ∉ slots.map fun s => piecesUnits s.body.name) {i : Nat} (hi : i ≤ slots.length) {json : Units} (j : Spelled json) :
    ∃ m : Member, piecesUnits m.name = x ∧ m.value = j.tree ∧
      written json (some x) = (Slot.mk noLayout m.text j.post).text ∧
      (Cst.members noLayout (insertSlot ⟨noLayout, m, j.post⟩ i slots)).Distinct := by
  obtain ⟨ps, htext, rfl⟩ := JsonParse.stringify_pieces x
  refine ⟨⟨ps, noLayout, .append spaceLayout j.pre, j.tree⟩, rfl, rfl, ?_, distinct_insertMember hi hd j.distinct hx⟩
  rw [written, htext]
  conv_lhs => rw [j.text_eq]
  simp [Slot.text, Member.text, Member.label, noLayout, spaceLayout, wordText]

/-- A container with a slot more: its text, and what it says. -/
theorem exists_regrown {k : Cst} (hd : k.Distinct) {name : Option Units} (haccepts : Accepts (k.value e.number id) name) {i : Nat}
    (hi : i ≤ k.children.length) {json : Units} (j : Spelled json) :
    ∃ (opens closes : UInt16) (inner : Layout) (k' : Cst) (fresh : Slot Units), k.text = opens :: (inside inner (k.children.map (Slot.map Child.text)) ++ [closes]) ∧
      ((opens = unit '\x7b' ∧ ∃ x, name = some x) ∨ (opens = unit '[' ∧ name = none)) ∧
      ((opens == unit '[') = true → ∀ s ∈ k.children, ∃ j, s.body.step = natText j) ∧ written json name = fresh.text ∧
      k'.text = opens :: (inside noLayout (insertSlot fresh i (k.children.map (Slot.map Child.text))) ++ [closes]) ∧
      k'.Distinct ∧ Value.insertChild i name (j.value e) (k.value e.number id) = k'.value e.number id := by
  cases hvalue : k.value e.number id with
  | arr vs =>
    cases name with
    | some x => rw [hvalue] at haccepts; exact absurd haccepts id
    | none =>
      obtain ⟨inner, slots, rfl⟩ := Cst.exists_items hvalue
      rw [Cst.children_items] at hi ⊢
      rw [length_itemChildren] at hi
      refine ⟨unit '[', unit ']', inner, .items noLayout (insertSlot ⟨j.pre, j.tree, j.post⟩ i slots),
        ⟨j.pre, j.tree.text, j.post⟩, ?_, Or.inr ⟨rfl, rfl⟩, fun _ s hs => step_itemChildren hs, j.text_eq, ?_,
        distinct_insertItem hi hd j.distinct, ?_⟩
      · rw [Cst.text_items, map_text_itemChildren]
      · rw [Cst.text_items, map_text_itemChildren, map_insertSlot]
        rfl
      · rw [← hvalue, Cst.value_items, Cst.value_items, read_insertSlot _ (fun s t h => by rw [h]) _ hi]
        rfl
  | obj ms =>
    cases name with
    | none => rw [hvalue] at haccepts; exact absurd haccepts id
    | some x =>
      obtain ⟨inner, slots, rfl⟩ := Cst.exists_members hvalue
      rw [hvalue] at haccepts
      rw [Cst.value_members e.number id rfl, Value.obj.injEq] at hvalue
      have hname : x ∉ slots.map fun s => piecesUnits s.body.name := by
        have : x ∉ ms.map Prod.fst := haccepts
        rw [← hvalue, id, List.map_map] at this
        exact this
      rw [Cst.children_members] at hi ⊢
      rw [memberChildren, List.length_map] at hi
      obtain ⟨m, rfl, hm, hwritten, hdistinct⟩ := exists_written hd hname hi j
      refine ⟨unit '\x7b', unit '\x7d', inner, .members noLayout (insertSlot ⟨noLayout, m, j.post⟩ i slots),
        ⟨noLayout, m.text, j.post⟩, ?_, Or.inl ⟨rfl, _, rfl⟩, fun h => absurd h (by decide), hwritten, ?_, hdistinct, ?_⟩
      · rw [Cst.text_members, map_text_memberChildren]
      · rw [Cst.text_members, map_text_memberChildren, map_insertSlot]
        rfl
      · rw [← hvalue, Cst.value_members e.number id rfl, read_insertSlot _ (fun s t h => by rw [h]) _ hi, Spelled.value, ← hm]
        rfl
  | _ => rw [hvalue] at haccepts; cases name <;> exact absurd haccepts id

/-- The text of the result, when the container with the slot more is known. -/
theorem Spelled.insertMember_spec (d : Spelled text) {p : Place} {k k' : Cst} (h : d.tree = p.plug k) {opens closes : UInt16}
    {inner : Layout} {fresh : Slot Units} {name : Option Units} {json : Units} {placement : Placement} {i : Nat}
    (htext : k.text = opens :: (inside inner (k.children.map (Slot.map Child.text)) ++ [closes]))
    (hkind : (opens = unit '\x7b' ∧ ∃ x, name = some x) ∨ (opens = unit '[' ∧ name = none))
    (hitems : (opens == unit '[') = true → ∀ s ∈ k.children, ∃ j, s.body.step = natText j)
    (hwritten : written json name = fresh.text) (hplaced : Placed p.path (k.value e.number id) placement i)
    (htext' : k'.text = opens :: (inside noLayout (insertSlot fresh i (k.children.map (Slot.map Child.text))) ++ [closes])) :
    insertMember text (indexDocument e text) (pointerOf p.path) name json placement =
        (d.pre.1 ++ Place.head p) ++ (k'.text ++ (Place.tail p ++ d.post.1)) ∧
      Inserts text ((d.pre.1 ++ Place.head p) ++ (k'.text ++ (Place.tail p ++ d.post.1))) (k.children = []) := by
  have hi : i ≤ k.children.length := by
    have hle := hplaced.le
    rwa [Cst.children_value, List.length_map] at hle
  obtain ⟨hsplice, hinserts⟩ := d.splice_at (e := e) h htext hitems hi fresh
  rw [htext']
  refine ⟨?_, hinserts⟩
  rw [insertMember_eq (d.spanAt_place h) (d.opens_at h htext) hkind, d.placementIndex_eq h hitems hplaced, hwritten, hsplice]

/-- The text with one member more. -/
theorem Spelled.insertMember_value (d : Spelled text) {path : List Units} {name : Option Units} {json : Units}
    {placement : Placement} {c : Value ν} {i : Nat} (hc : (d.value e).find path = some c) (haccepts : Accepts c name)
    (hplaced : Placed path c placement i) (j : Spelled json) :
    ∃ d' : Spelled (insertMember text (indexDocument e text) (pointerOf path) name json placement),
      d'.value e = (d.value e).update (Value.insertChild i name (j.value e)) path ∧
      Inserts text (insertMember text (indexDocument e text) (pointerOf path) name json placement) (c.children = []) := by
  obtain ⟨p, k, htree, rfl, rfl⟩ := (d.tree.find_value e.number path d.distinct).mp hc
  have hi : i ≤ k.children.length := by
    have hle := hplaced.le
    rwa [Cst.children_value, List.length_map] at hle
  obtain ⟨opens, closes, inner, k', fresh, htext, hkind, hitems, hwritten, htext', hk', hvalue⟩ :=
    exists_regrown (Place.distinct_of_plug (htree ▸ d.distinct)) haccepts hi j
  obtain ⟨hresult, hinserts⟩ := d.insertMember_spec (e := e) htree htext hkind hitems hwritten hplaced htext'
  have hempty : (k.value e.number id).children = [] ↔ k.children = [] := by
    rw [Cst.children_value, List.map_eq_nil_iff]
  rw [hempty, hresult]
  exact ⟨d.put htree hk', d.value_put htree hk' hvalue, hinserts⟩

/-- One more member: the gate stays open, the container has the member at the position that was asked for and is otherwise
what it was, and without the range that was put in the text is what it was. -/
theorem insertMember_placed {path : List Units} {name : Option Units} {json : Units} {placement : Placement} {v c w : Value ν}
    {i : Nat} (h : agreesWithParse e text (indexDocument e text) = []) (hv : JsonParse.parse e.number text = some v)
    (hc : v.find path = some c) (haccepts : Accepts c name) (hplaced : Placed path c placement i)
    (hw : JsonParse.parse e.number json = some w) (hjson : NoRepeats e.number json) :
    agreesWithParse e (insertMember text (indexDocument e text) (pointerOf path) name json placement)
        (indexDocument e (insertMember text (indexDocument e text) (pointerOf path) name json placement)) = [] ∧
      JsonParse.parse e.number (insertMember text (indexDocument e text) (pointerOf path) name json placement) =
        some (v.update (Value.insertChild i name w) path) ∧
      Inserts text (insertMember text (indexDocument e text) (pointerOf path) name json placement) (c.children = []) := by
  obtain ⟨d⟩ := spelled_of_agrees e h
  obtain ⟨j⟩ := (spelled_iff e).mpr ⟨⟨w, hw⟩, hjson⟩
  rw [d.parse_eq e, Option.some.injEq] at hv
  subst hv
  rw [j.parse_eq e, Option.some.injEq] at hw
  subst hw
  obtain ⟨d', hvalue, hinserts⟩ := d.insertMember_value hc haccepts hplaced j
  refine ⟨agrees_of_spelled e d', ?_, hinserts⟩
  rw [d'.parse_eq e, hvalue]

end

theorem insertMember_placed_sample :
    JsonParse.parse Sample.engine.number (insertMember (wordText "[{}]") (indexDocument Sample.engine (wordText "[{}]"))
      (pointerOf []) none (wordText "{}") (.after (pointerOf [wordText "0"]))) =
        some (Value.insertChild 1 none (.obj []) (.arr [.obj []])) := by
  have hagrees : agreesWithParse Sample.engine (wordText "[{}]") (indexDocument Sample.engine (wordText "[{}]")) = [] := by
    decide +kernel
  have hparse : JsonParse.parse Sample.engine.number (wordText "[{}]") = some (.arr [.obj []]) := rfl
  have hfind : (Value.arr [.obj []] : Value (Option Units)).find [] = some (.arr [.obj []]) := rfl
  have haccepts : Accepts (.arr [.obj []] : Value (Option Units)) none := trivial
  have hplaced : Placed [] (.arr [.obj []] : Value (Option Units)) (.after (pointerOf [wordText "0"])) 1 :=
    ⟨0, wordText "0", _, rfl, rfl, rfl⟩
  have hjson : JsonParse.parse Sample.engine.number (wordText "{}") = some (.obj []) := rfl
  exact (insertMember_placed hagrees hparse hfind haccepts hplaced hjson Sample.noRepeats_empty).2.1

end DocumentText

end Desk
