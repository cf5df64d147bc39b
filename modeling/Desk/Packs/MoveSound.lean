import Desk.Lib.JsonMove
import Desk.Packs.InsertSound

/-!
# One element moved

The elements of an array change places and the layout around each place stays,
so that a move back gives the text that was there before.
-/

namespace Desk

/-! ## Lists -/

namespace DocumentText

section
variable {α β : Type} {l : List α} {source target : Nat}

theorem moveTo_eq (h : source < l.length) : moveTo l source target = (l.eraseIdx source).insertIdx target l[source] := by
  rw [moveTo, List.getElem?_eq_getElem h]

theorem map_moveTo (f : α → β) (l : List α) (source target : Nat) : (moveTo l source target).map f = moveTo (l.map f) source target := by
  rw [moveTo, moveTo, List.getElem?_map]
  cases l[source]? with
  | none => rfl
  | some x => rw [Option.map_some, List.map_insertIdx, List.eraseIdx_map]

theorem moveTo_perm (hs : source < l.length) (ht : target < l.length) : (moveTo l source target).Perm l := by
  have hle : target ≤ (l.eraseIdx source).length := by
    rw [List.length_eraseIdx_of_lt hs]
    omega
  rw [moveTo_eq hs]
  exact (List.perm_insertIdx _ _ hle).trans (List.getElem_cons_eraseIdx_perm hs)

theorem length_moveTo (hs : source < l.length) (ht : target < l.length) : (moveTo l source target).length = l.length :=
  (moveTo_perm hs ht).length_eq

theorem moveTo_self (h : source < l.length) : moveTo l source source = l := by
  rw [moveTo_eq h, List.insertIdx_eraseIdx_getElem]

theorem moveTo_back (hs : source < l.length) (ht : target < l.length) : moveTo (moveTo l source target) target source = l := by
  have hle : target ≤ (l.eraseIdx source).length := by
    rw [List.length_eraseIdx_of_lt hs]
    omega
  rw [moveTo_eq hs, moveTo, List.getElem?_insertIdx_self, if_pos hle]
  simp only
  rw [List.eraseIdx_insertIdx_self, List.insertIdx_eraseIdx_getElem]

end

/-! ## What the edit reads -/

section
variable {ν : Type} {e : Engine ν} {text : Units} {p : Place} {k : Cst} {array : Bool} {opens closes : UInt16} {inner : Layout}

namespace Spelled

theorem leads_children (d : Spelled text) (h : d.tree = p.plug k)
    (hitems : array = true → ∀ s ∈ k.children, ∃ j, s.body.step = natText j) :
    (childSpans (indexDocument e text) (pointerOf p.path) array).map (fun span => leadingLayout text span.memberStart) =
      (k.children.map (Slot.map Child.text)).map fun s => s.pre.1 := by
  have hlength := d.length_childSpans (e := e) h hitems
  apply List.ext_getElem (by rw [List.length_map, List.length_map, List.length_map, hlength])
  intro i hi hi'
  rw [List.length_map] at hi
  rw [List.length_map, List.length_map] at hi'
  have hsplit : k.children = k.children.take i ++ k.children[i] :: k.children.drop (i + 1) := by simp
  obtain ⟨span, hspan, -, -, -, hlead⟩ := d.childSpan_at (e := e) h hitems hsplit
  rw [List.length_take_of_le (Nat.le_of_lt hi'), List.getElem?_eq_getElem hi, Option.some.injEq] at hspan
  rw [List.getElem_map, List.getElem_map, List.getElem_map, hspan, hlead]
  rfl

/-- What stands in a slot, and behind it. -/
theorem child_text (d : Spelled text) (h : d.tree = p.plug k)
    (htext : k.text = opens :: (inside inner (k.children.map (Slot.map Child.text)) ++ [closes])) {left right : List (Slot Child)}
    {s : Slot Child} (hchildren : k.children = left ++ s :: right) :
    ∃ a rest, text = a ++ (s.body.text ++ (s.post.1 ++ rest)) ∧
      a.length = d.pre.1.length + (Place.head p).length + 1 + (slotsBefore (left.map (Slot.map Child.text))).length +
        s.pre.1.length ∧ (right ≠ [] → ∃ more, rest = unit ',' :: more) ∧
      (right = [] → rest = [closes] ++ (Place.tail p ++ d.post.1)) := by
  refine ⟨d.pre.1 ++ Place.head p ++ opens :: (slotsBefore (left.map (Slot.map Child.text)) ++ s.pre.1),
    slotsAfter (right.map (Slot.map Child.text)) ++ ([closes] ++ (Place.tail p ++ d.post.1)), ?_, ?_, ?_, ?_⟩
  · refine (d.text_container h htext).trans ?_
    rw [hchildren, List.map_append, List.map_cons, inside_split]
    simp [Slot.text]
  · simp only [List.length_append, List.length_cons]
    omega
  · intro hright
    obtain ⟨t, more, rfl⟩ := List.exists_cons_of_ne_nil hright
    exact ⟨_, rfl⟩
  · rintro rfl
    rfl

theorem bodies_children (d : Spelled text) (h : d.tree = p.plug k)
    (htext : k.text = opens :: (inside inner (k.children.map (Slot.map Child.text)) ++ [closes]))
    (hitems : array = true → ∀ s ∈ k.children, ∃ j, s.body.step = natText j) :
    (childSpans (indexDocument e text) (pointerOf p.path) array).map (fun span => slice text span.memberStart span.memberEnd) =
      (k.children.map (Slot.map Child.text)).map Slot.body := by
  have hlength := d.length_childSpans (e := e) h hitems
  apply List.ext_getElem (by rw [List.length_map, List.length_map, List.length_map, hlength])
  intro i hi hi'
  rw [List.length_map] at hi
  rw [List.length_map, List.length_map] at hi'
  have hsplit : k.children = k.children.take i ++ k.children[i] :: k.children.drop (i + 1) := by simp
  obtain ⟨span, hspan, -, hstart, hend, -⟩ := d.childSpan_at (e := e) h hitems hsplit
  obtain ⟨a, rest, ht, ha, -⟩ := d.child_text h htext hsplit
  rw [List.length_take_of_le (Nat.le_of_lt hi'), List.getElem?_eq_getElem hi, Option.some.injEq] at hspan
  rw [List.getElem_map, List.getElem_map, List.getElem_map, hspan]
  show slice text span.memberStart span.memberEnd = k.children[i].body.text
  exact slice_mid ht (by rw [hstart, ha]) (by rw [hend, hstart, ha])

theorem trails_children (d : Spelled text) (h : d.tree = p.plug k)
    (htext : k.text = opens :: (inside inner (k.children.map (Slot.map Child.text)) ++ [closes]))
    (hitems : array = true → ∀ s ∈ k.children, ∃ j, s.body.step = natText j) :
    (childSpans (indexDocument e text) (pointerOf p.path) array).mapIdx (fun position span =>
        trailingLayout text span.memberEnd
          (position == (childSpans (indexDocument e text) (pointerOf p.path) array).length - 1)) =
      ((k.children.map (Slot.map Child.text)).map Slot.post).mapIdx fun i post =>
        if i = (k.children.map (Slot.map Child.text)).length - 1 then [] else post.1 := by
  have hlength := d.length_childSpans (e := e) h hitems
  apply List.ext_getElem (by rw [List.length_mapIdx, List.length_mapIdx, List.length_map, List.length_map, hlength])
  intro i hi hi'
  rw [List.length_mapIdx] at hi
  rw [List.length_mapIdx, List.length_map, List.length_map] at hi'
  have hsplit : k.children = k.children.take i ++ k.children[i] :: k.children.drop (i + 1) := by simp
  obtain ⟨span, hspan, -, hstart, hend, -⟩ := d.childSpan_at (e := e) h hitems hsplit
  obtain ⟨a, rest, ht, ha, hmore, -⟩ := d.child_text h htext hsplit
  rw [List.length_take_of_le (Nat.le_of_lt hi'), List.getElem?_eq_getElem hi, Option.some.injEq] at hspan
  simp only [List.getElem_mapIdx, List.getElem_map, List.length_map, hspan, hlength, trailingLayout, Slot.map_post]
  by_cases hlast : i = k.children.length - 1
  · rw [if_pos (beq_iff_eq.mpr hlast), if_pos hlast]
  · have hright : k.children.drop (i + 1) ≠ [] := by
      rw [ne_eq, List.drop_eq_nil_iff]
      omega
    obtain ⟨more, rfl⟩ := hmore hright
    have hmemberEnd : span.memberEnd = (a ++ k.children[i].body.text).length := by
      rw [hend, hstart, List.length_append, ha]
    have ht' : text = (a ++ k.children[i].body.text) ++ (k.children[i].post.1 ++ unit ',' :: more) := by
      rw [List.append_assoc]
      exact ht
    obtain ⟨hafter, hcomma⟩ := layoutAfter_eq ht' (by decide) hmemberEnd
    rw [if_neg (by rw [beq_iff_eq]; exact hlast), if_neg hlast, hafter, if_pos hcomma]
    exact slice_mid ht' hmemberEnd (by rw [hmemberEnd])

/-- The text in front of the slots of a container, and behind what stands in the last. -/
theorem text_around (d : Spelled text) (h : d.tree = p.plug k)
    (htext : k.text = opens :: (inside inner (k.children.map (Slot.map Child.text)) ++ [closes]))
    (hitems : array = true → ∀ s ∈ k.children, ∃ j, s.body.step = natText j) (hne : k.children ≠ []) :
    ∃ first last slot, (childSpans (indexDocument e text) (pointerOf p.path) array).head? = some first ∧
      (childSpans (indexDocument e text) (pointerOf p.path) array).getLast? = some last ∧
      (k.children.map (Slot.map Child.text)).getLast? = some slot ∧
      text.take (first.memberStart - (leadingLayout text first.memberStart).length) = d.pre.1 ++ Place.head p ++ [opens] ∧
      text.drop last.memberEnd = slot.post.1 ++ ([closes] ++ (Place.tail p ++ d.post.1)) := by
  have hlength := d.length_childSpans (e := e) h hitems
  obtain ⟨s, right, hcons⟩ := List.exists_cons_of_ne_nil hne
  obtain ⟨left, t, hconcat⟩ := (List.eq_nil_or_concat k.children).resolve_left hne
  rw [List.concat_eq_append] at hconcat
  obtain ⟨first, hfirst, -, hstart, -, hlead⟩ := d.childSpan_at (e := e) h hitems (show k.children = [] ++ s :: right from hcons)
  obtain ⟨last, hlast, -, hlastStart, hend, -⟩ := d.childSpan_at (e := e) h hitems hconcat
  obtain ⟨a, rest, ht, ha, -, hrest⟩ := d.child_text h htext hconcat
  refine ⟨first, last, t.map Child.text, ?_, ?_, ?_, ?_, ?_⟩
  · rw [List.head?_eq_getElem?]
    exact hfirst
  · rw [List.getLast?_eq_getElem?, hlength, hconcat, List.length_append, List.length_singleton, Nat.add_sub_cancel]
    exact hlast
  · rw [hconcat, List.map_append, List.map_singleton, List.getLast?_concat]
  · refine take_mid (b := []) (c := inside inner (k.children.map (Slot.map Child.text)) ++ ([closes] ++
      (Place.tail p ++ d.post.1))) ?_ ?_
    · refine (d.text_container h htext).trans ?_
      simp
    · rw [hlead, hstart]
      simp [slotsBefore]
      omega
  · rw [hrest rfl] at ht
    have ht' : text = (a ++ t.body.text) ++ ([] ++ (t.post.1 ++ ([closes] ++ (Place.tail p ++ d.post.1)))) := by
      rw [List.append_assoc]
      exact ht
    exact drop_mid ht' (by rw [hend, hlastStart, List.length_append, ha]; rfl)

end Spelled

end

/-! ## The text of the result -/

/-- The pieces the edit joins are those of the slots with their new bodies. -/
theorem pieces_rebuilt {slots : List (Slot Units)} {bodies : List Units} (h : slots.length = bodies.length) :
    (bodies.mapIdx fun position body => (slots.map fun s => s.pre.1).getD position [] ++ body ++
      (if position = bodies.length - 1 then []
        else ((slots.map Slot.post).mapIdx fun i post => if i = slots.length - 1 then [] else post.1).getD position [] ++
          [unit ','])) =
      slotPieces (rebody slots bodies) := by
  apply List.ext_getElem (by rw [List.length_mapIdx, slotPieces, List.length_mapIdx, length_rebody h, h])
  intro i hi hi'
  rw [List.length_mapIdx] at hi
  have hslot : i < slots.length := h ▸ hi
  simp only [slotPieces, List.getElem_mapIdx, rebody, List.getElem_zipWith, List.length_zipWith, ← h, Nat.min_self,
    List.getD_eq_getElem?_getD, List.getElem?_map, List.getElem?_mapIdx, List.getElem?_eq_getElem hslot, Option.map_some,
    Option.getD_some]
  by_cases hlast : i = slots.length - 1
  · rw [if_pos hlast, if_pos hlast]
  · rw [if_neg hlast, if_neg hlast, if_neg hlast]

section
variable {ν : Type} {e : Engine ν} {text : Units} {p : Place} {inner : Layout} {slots : List (Slot Cst)} {source target : Nat}

/-- The array with its elements in another order. -/
def moveSlots (slots : List (Slot Cst)) (source target : Nat) : List (Slot Cst) :=
  rebody slots (moveTo (slots.map Slot.body) source target)

theorem length_moved (hs : source < slots.length) (ht : target < slots.length) :
    slots.length = (moveTo (slots.map Slot.body) source target).length := by
  rw [length_moveTo (by rw [List.length_map]; exact hs) (by rw [List.length_map]; exact ht), List.length_map]

theorem map_moveSlots (slots : List (Slot Cst)) (source target : Nat) : (moveSlots slots source target).map (Slot.map Cst.text) =
    rebody (slots.map (Slot.map Cst.text)) (moveTo ((slots.map (Slot.map Cst.text)).map Slot.body) source target) := by
  rw [moveSlots, map_rebody, map_moveTo, List.map_map, List.map_map]
  rfl

/-- A reading of the texts of the slots that sees only their layout. -/
theorem layout_moveSlots {γ : Type} (g : Slot Units → γ) (hg : ∀ s b, g ⟨s.pre, b, s.post⟩ = g s) (hs : source < slots.length)
    (ht : target < slots.length) :
    ((moveSlots slots source target).map (Slot.map Cst.text)).map g = (slots.map (Slot.map Cst.text)).map g := by
  rw [map_moveSlots]
  refine layout_rebody g hg ?_
  rw [length_moveTo (by simpa using hs) (by simpa using ht)]
  simp only [List.length_map]

theorem moveSlots_back (hs : source < slots.length) (ht : target < slots.length) :
    moveSlots (moveSlots slots source target) target source = slots := by
  have hbodies := read_rebody Slot.body id (fun _ => rfl) (length_moved hs ht)
  rw [List.map_id] at hbodies
  rw [moveSlots, moveSlots, hbodies, rebody_rebody (length_moved hs ht),
    moveTo_back (by rw [List.length_map]; exact hs) (by rw [List.length_map]; exact ht), rebody_self]

theorem length_moveSlots (hs : source < slots.length) (ht : target < slots.length) :
    (moveSlots slots source target).length = slots.length := length_rebody (length_moved hs ht)

theorem length_text_moveSlots (hs : source < slots.length) (ht : target < slots.length) :
    (Cst.items inner (moveSlots slots source target)).text.length = (Cst.items inner slots).text.length := by
  rw [Cst.text_items, Cst.text_items, map_moveSlots]
  have hperm : (moveTo ((slots.map (Slot.map Cst.text)).map Slot.body) source target).Perm
      ((slots.map (Slot.map Cst.text)).map Slot.body) := moveTo_perm (by simpa using hs) (by simpa using ht)
  rw [List.length_cons, List.length_cons, List.length_append, List.length_append, length_inside_rebody inner hperm]

theorem children_text_items (inner : Layout) (slots : List (Slot Cst)) :
    (Cst.items inner slots).children.map (Slot.map Child.text) = slots.map (Slot.map Cst.text) := by
  rw [Cst.children_items, map_text_itemChildren]

theorem text_items_children (inner : Layout) (slots : List (Slot Cst)) : (Cst.items inner slots).text = unit '[' ::
    (inside inner ((Cst.items inner slots).children.map (Slot.map Child.text)) ++ [unit ']']) := by
  rw [children_text_items, Cst.text_items]

theorem step_items (inner : Layout) (slots : List (Slot Cst)) :
    true = true → ∀ s ∈ (Cst.items inner slots).children, ∃ j, s.body.step = natText j := by
  intro _ s hs
  rw [Cst.children_items] at hs
  exact step_itemChildren hs

theorem length_children_items (inner : Layout) (slots : List (Slot Cst)) :
    (Cst.items inner slots).children.length = slots.length := by
  rw [Cst.children_items, length_itemChildren]

theorem Spelled.moveElement_eq (d : Spelled text) (h : d.tree = p.plug (.items inner slots)) (hs : source < slots.length)
    (ht : target < slots.length) : moveElement text (indexDocument e text) (pointerOf p.path) source target =
      (d.pre.1 ++ Place.head p) ++ ((Cst.items inner (moveSlots slots source target)).text ++ (Place.tail p ++ d.post.1)) := by
  have hitems := step_items inner slots
  have hslots := children_text_items inner slots
  have hcount := length_children_items inner slots
  have htext := text_items_children inner slots
  have hlength := d.length_childSpans (e := e) h hitems
  have hleads := d.leads_children (e := e) h hitems
  have hbodies := d.bodies_children (e := e) h htext hitems
  have htrails := d.trails_children (e := e) h htext hitems
  rw [hcount] at hlength
  rw [hslots] at hleads hbodies htrails
  rw [moveElement, d.spanAt_place h]
  simp only [d.opens_at h htext, ne_eq, not_true_eq_false, if_false]
  by_cases hsame : source = target
  · subst hsame
    rw [if_pos rfl, moveSlots, moveTo_self (by rw [List.length_map]; exact hs), rebody_self]
    exact d.text_place h
  rw [if_neg (by omega), hlength, if_neg (by omega)]
  simp only [Int.toNat_natCast]
  have hne : (Cst.items inner slots).children ≠ [] := by
    rw [← List.length_pos_iff, hcount]
    omega
  obtain ⟨first, last, slot, hfirst, hlast, hslot, hbefore, hbehind⟩ := d.text_around (e := e) h htext hitems hne
  have hzero : ((childSpans (indexDocument e text) (pointerOf p.path) true).map fun span =>
      leadingLayout text span.memberStart).getD 0 [] = leadingLayout text first.memberStart := by
    rw [List.getD_eq_getElem?_getD, List.getElem?_map, ← List.head?_eq_getElem?, hfirst]
    rfl
  rw [hlength] at htrails
  rw [hslots] at hslot
  simp only [hfirst, hlast, hzero, hbodies, hbefore, hbehind]
  simp only [htrails, hleads]
  have hlastPost : ((moveSlots slots source target).map (Slot.map Cst.text)).getLast?.map Slot.post = some slot.post := by
    rw [← List.getLast?_map, layout_moveSlots Slot.post (fun _ _ => rfl) hs ht, List.getLast?_map, hslot]
    rfl
  obtain ⟨slot', hslot', hpost⟩ := Option.map_eq_some_iff.mp hlastPost
  have hbodiesLength : (slots.map (Slot.map Cst.text)).length =
      (moveTo ((slots.map (Slot.map Cst.text)).map Slot.body) source target).length := by
    rw [length_moveTo (by simpa using hs) (by simpa using ht)]
    simp only [List.length_map]
  rw [pieces_rebuilt hbodiesLength, ← map_moveSlots, Cst.text_items, inside_pieces inner hslot', hpost]
  simp

/-! ## The elements in another order -/

theorem distinct_moveSlots (hs : source < slots.length) (ht : target < slots.length) (h : (Cst.items inner slots).Distinct) :
    (Cst.items inner (moveSlots slots source target)).Distinct := by
  have hbodies := read_rebody Slot.body id (fun _ => rfl) (length_moved hs ht)
  rw [List.map_id] at hbodies
  rw [Cst.distinct_iff, Cst.children_items] at h ⊢
  refine ⟨nodup_itemChildren 0 _, fun s hmem => ?_⟩
  obtain ⟨t, ht', hvalue⟩ := mem_of_itemChildren hmem
  have hbody := List.mem_map_of_mem (f := Slot.body) ht'
  rw [moveSlots, hbodies, (moveTo_perm (by rw [List.length_map]; exact hs) (by rw [List.length_map]; exact ht)).mem_iff] at hbody
  obtain ⟨u, hu, hsame⟩ := List.mem_map.mp hbody
  obtain ⟨x, hx, hvalue'⟩ := mem_itemChildren 0 hu
  rw [hvalue, ← hsame, ← hvalue']
  exact h.2 x hx

end

section
variable {ν : Type} {e : Engine ν} {text : Units}

/-- An array with one element moved. -/
def moveItem (source target : Nat) : Value ν → Value ν
  | .arr items => .arr (moveTo items source target)
  | v => v

theorem value_moveSlots {inner : Layout} {slots : List (Slot Cst)} {source target : Nat} (hs : source < slots.length)
    (ht : target < slots.length) : moveItem source target ((Cst.items inner slots).value e.number id) =
      (Cst.items inner (moveSlots slots source target)).value e.number id := by
  rw [Cst.value_items, Cst.value_items, moveSlots,
    read_rebody (fun s => s.body.value e.number id) (fun c => c.value e.number id) (fun _ => rfl) (length_moved hs ht), map_moveTo,
    List.map_map]
  rfl

/-- One element moved: the gate stays open, the array has its elements in the order of a removal and an insertion, the
layout of each slot stays and so does the length, and the move back gives every byte back. -/
theorem moveElement_permutes {path : List Units} {v : Value ν} {items : List (Value ν)} {source target : Nat}
    (h : agreesWithParse e text (indexDocument e text) = []) (hv : JsonParse.parse e.number text = some v)
    (hc : v.find path = some (.arr items)) (hs : source < items.length) (ht : target < items.length) {result : Units}
    (hresult : result = moveElement text (indexDocument e text) (pointerOf path) source target) :
    agreesWithParse e result (indexDocument e result) = [] ∧
      JsonParse.parse e.number result = some (v.update (moveItem source target) path) ∧
      result.length = text.length ∧
      (childSpans (indexDocument e result) (pointerOf path) true).length = items.length ∧
      (childSpans (indexDocument e text) (pointerOf path) true).length = items.length ∧
      ((childSpans (indexDocument e result) (pointerOf path) true).map fun span => leadingLayout result span.memberStart) =
        ((childSpans (indexDocument e text) (pointerOf path) true).map fun span => leadingLayout text span.memberStart) ∧
      ((childSpans (indexDocument e result) (pointerOf path) true).mapIdx fun i span =>
          trailingLayout result span.memberEnd (i == items.length - 1)) =
        ((childSpans (indexDocument e text) (pointerOf path) true).mapIdx fun i span =>
          trailingLayout text span.memberEnd (i == items.length - 1)) ∧
      moveElement result (indexDocument e result) (pointerOf path) target source = text := by
  obtain ⟨d⟩ := spelled_of_agrees e h
  rw [d.parse_eq e, Option.some.injEq] at hv
  subst hv
  obtain ⟨p, k, htree, rfl, hvalue⟩ := (d.tree.find_value e.number path d.distinct).mp hc
  obtain ⟨inner, slots, rfl⟩ := Cst.exists_items hvalue
  rw [Cst.value_items, Value.arr.injEq] at hvalue
  have hcount : slots.length = items.length := by rw [← hvalue, List.length_map]
  rw [← hcount] at hs ht ⊢
  have hdistinct := distinct_moveSlots hs ht (Place.distinct_of_plug (htree ▸ d.distinct))
  rw [d.moveElement_eq htree hs ht] at hresult
  subst hresult
  have hput : (d.put htree hdistinct).tree = p.plug (.items inner (moveSlots slots source target)) := rfl
  have hitems := step_items inner slots
  have hitems' := step_items inner (moveSlots slots source target)
  have hlength := d.length_childSpans (e := e) htree hitems
  have hlength' := (d.put htree hdistinct).length_childSpans (e := e) hput hitems'
  rw [length_children_items] at hlength
  rw [length_children_items, length_moveSlots hs ht] at hlength'
  have hleads := d.leads_children (e := e) htree hitems
  have hleads' := (d.put htree hdistinct).leads_children (e := e) hput hitems'
  have htrails := d.trails_children (e := e) htree (text_items_children inner slots) hitems
  have htrails' := (d.put htree hdistinct).trails_children (e := e) hput (text_items_children inner _) hitems'
  have hback := (d.put htree hdistinct).moveElement_eq (e := e) hput
    (show target < (moveSlots slots source target).length by rw [length_moveSlots hs ht]; exact ht)
    (show source < (moveSlots slots source target).length by rw [length_moveSlots hs ht]; exact hs)
  rw [children_text_items] at hleads hleads' htrails htrails'
  rw [hlength] at htrails
  rw [hlength'] at htrails'
  refine ⟨agrees_of_spelled e (d.put htree hdistinct), ?_, ?_, hlength', hlength, ?_, ?_, ?_⟩
  · rw [(d.put htree hdistinct).parse_eq e, d.value_put htree hdistinct (value_moveSlots hs ht)]
  · have hsame := congrArg List.length (d.text_place htree)
    refine Eq.trans ?_ hsame.symm
    simp only [List.length_append, length_text_moveSlots hs ht]
  · rw [hleads, hleads', layout_moveSlots _ (fun _ _ => rfl) hs ht]
  · rw [htrails, htrails', layout_moveSlots _ (fun _ _ => rfl) hs ht, List.length_map, List.length_map, length_moveSlots hs ht]
  · refine hback.trans ?_
    rw [moveSlots_back hs ht]
    exact (d.text_place htree).symm

end

theorem moveElement_permutes_sample :
    moveElement (moveElement (wordText "[1 ,{}]") (indexDocument Sample.engine (wordText "[1 ,{}]")) (pointerOf []) 0 1)
      (indexDocument Sample.engine (moveElement (wordText "[1 ,{}]") (indexDocument Sample.engine (wordText "[1 ,{}]"))
        (pointerOf []) 0 1)) (pointerOf []) 1 0 = wordText "[1 ,{}]" := by
  have hagrees : agreesWithParse Sample.engine (wordText "[1 ,{}]") (indexDocument Sample.engine (wordText "[1 ,{}]")) = [] := by
    decide +kernel
  have hparse : JsonParse.parse Sample.engine.number (wordText "[1 ,{}]") =
      some (.arr [.num (some (wordText "1")), .obj []]) := rfl
  have hfind : (Value.arr [.num (some (wordText "1")), .obj []] : Value (Option Units)).find [] =
      some (.arr [.num (some (wordText "1")), .obj []]) := rfl
  exact (moveElement_permutes hagrees hparse hfind (by decide) (by decide) rfl).2.2.2.2.2.2.2

end DocumentText

end Desk
