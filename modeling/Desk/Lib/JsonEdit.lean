import Desk.Lib.JsonPlaces

/-!
# Edits of JSON trees

What stands around a member of a container, and the container with one slot
more, one less, or its slots in another order.
-/

namespace Desk

/-! ## Around a member -/

def Layout.append (a b : Layout) : Layout := ⟨a.1 ++ b.1, by rw [List.all_append, a.2, b.2]; rfl⟩

@[simp] theorem Layout.val_append (a b : Layout) : (Layout.append a b).1 = a.1 ++ b.1 := rfl

namespace Frame

theorem opens_plain (f : Frame) : isLayout f.opens = false := by
  cases f
  · rfl
  · rfl

theorem closes_plain (f : Frame) : isLayout f.closes = false := by
  cases f
  · rfl
  · rfl

end Frame

theorem slotsBefore_concat (slots : List (Slot Units)) (s : Slot Units) :
    slotsBefore (slots ++ [s]) = slotsBefore slots ++ (s.text ++ [unit ',']) := by
  simp [slotsBefore]

namespace Frame

/-- In front of the layout of a member stands a comma, or the bracket when it is the first. -/
theorem head_split (f : Frame) : ∃ a y, f.head = a ++ y :: f.pre.1 ∧ isLayout y = false ∧
    (f.left = [] → a = [] ∧ y = f.opens) ∧ (f.left ≠ [] → y = unit ',') := by
  rcases List.eq_nil_or_concat f.left with hnil | ⟨l, s, hl⟩
  · exact ⟨[], f.opens, by rw [head, hnil]; rfl, f.opens_plain, fun _ => ⟨rfl, rfl⟩, fun h => absurd hnil h⟩
  · rw [List.concat_eq_append] at hl
    refine ⟨f.opens :: (slotsBefore (l.map (Slot.map Child.text)) ++ (s.map Child.text).text), unit ',', ?_, by decide, ?_,
      fun _ => rfl⟩
    · rw [head, hl, List.map_append, List.map_singleton, slotsBefore_concat]
      simp
    · intro h
      rw [hl] at h
      exact absurd h (by simp)

/-- Behind the layout of a member stands a comma, or the bracket when it is the last. -/
theorem tail_split (f : Frame) : ∃ z b, f.tail = f.post.1 ++ z :: b ∧ isLayout z = false ∧
    (f.right = [] → z = f.closes ∧ b = []) ∧ (f.right ≠ [] → z = unit ',') := by
  cases hr : f.right with
  | nil => exact ⟨f.closes, [], by rw [tail, hr]; rfl, f.closes_plain, fun _ => ⟨rfl, rfl⟩, fun h => absurd rfl h⟩
  | cons s r =>
    refine ⟨unit ',', (s.map Child.text).text ++ (slotsAfter (r.map (Slot.map Child.text)) ++ [f.closes]), ?_, by decide,
      fun h => absurd h (List.cons_ne_nil s r), fun _ => rfl⟩
    rw [tail, hr]
    simp [slotsAfter]

end Frame

/-! ## More layout around a value -/

namespace Frame

/-- The frame with more layout around its hole. -/
def pad (l r : Layout) : Frame → Frame
  | item left pre post right => item left (.append pre l) (.append r post) right
  | member left pre name mid sep post right => member left pre name mid (.append sep l) (.append r post) right

theorem text_pad (l r : Layout) (f : Frame) (c : Cst) :
    ((f.pad l r).plug c).text = f.head ++ (f.label ++ ((l.1 ++ (c.text ++ r.1)) ++ f.tail)) := by
  rw [text_plug]
  cases f <;> simp [pad, head, label, tail, Frame.left, Frame.right, Frame.pre, Frame.post, opens, closes]

theorem value_pad {ν : Type} (n : Units → ν) (l r : Layout) (f : Frame) (c : Cst) :
    ((f.pad l r).plug c).value n id = (f.plug c).value n id := by
  cases f with
  | item left pre post right =>
    rw [pad, plug, plug, Cst.value_items, Cst.value_items, List.map_append, List.map_append]
    rfl
  | member left pre name mid sep post right =>
    rw [pad, plug, plug, Cst.value_members n id rfl, Cst.value_members n id rfl, List.map_append, List.map_append]
    rfl

theorem step_pad (l r : Layout) (f : Frame) : (f.pad l r).step = f.step := by cases f <;> rfl

theorem left_pad (l r : Layout) (f : Frame) : (f.pad l r).left = f.left := by cases f <;> rfl

theorem right_pad (l r : Layout) (f : Frame) : (f.pad l r).right = f.right := by cases f <;> rfl

theorem distinct_pad {l r : Layout} {f : Frame} {c : Cst} (h : (f.plug c).Distinct) : ((f.pad l r).plug c).Distinct := by
  rw [Cst.distinct_iff, children_plug, List.map_append, List.map_cons] at h ⊢
  rw [left_pad, right_pad]
  refine ⟨?_, fun s hs => ?_⟩
  · rw [child, step_pad]
    exact h.1
  · rcases List.mem_append.mp hs with hs | hs
    · exact h.2 s (List.mem_append_left _ hs)
    · rcases List.mem_cons.mp hs with rfl | hs
      · exact h.2 (f.child c) (List.mem_append_right _ List.mem_cons_self)
      · exact h.2 s (List.mem_append_right _ (List.mem_cons_of_mem _ hs))

end Frame

/-! ## One slot less -/

section
variable {β γ : Type}

/-- The slots with more layout behind the last one. -/
def padLast (post : Layout) : List (Slot β) → List (Slot β)
  | [] => []
  | [s] => [{ s with post := s.post.append post }]
  | s :: t :: rest => s :: padLast post (t :: rest)

/-- What is left without a slot between two lists; its layout stays when it was the last. -/
def closeUp (left : List (Slot β)) (post : Layout) : List (Slot β) → List (Slot β)
  | [] => padLast post left
  | s :: right => left ++ s :: right

theorem padLast_concat (post : Layout) (slots : List (Slot β)) (s : Slot β) :
    padLast post (slots ++ [s]) = slots ++ [{ s with post := s.post.append post }] := by
  induction slots with
  | nil => rfl
  | cons t slots ih =>
    cases slots with
    | nil => rfl
    | cons u slots => rw [List.cons_append, List.cons_append, padLast, ← List.cons_append, ih]; rfl

/-- A reading of the slots that does not see the layout behind them. -/
theorem map_closeUp (g : Slot β → γ) (hg : ∀ s post, g { s with post := post } = g s) (left : List (Slot β)) (post : Layout)
    (right : List (Slot β)) : (closeUp left post right).map g = left.map g ++ right.map g := by
  cases right with
  | nil =>
    rcases List.eq_nil_or_concat left with rfl | ⟨l, s, rfl⟩
    · rfl
    · rw [closeUp, List.concat_eq_append, padLast_concat, List.map_append, List.map_append, List.map_singleton,
        List.map_singleton, hg, List.map_nil, List.append_nil]
  | cons s right => rw [closeUp, List.map_append]

theorem padLast_map (f : β → γ) (post : Layout) (slots : List (Slot β)) :
    (padLast post slots).map (Slot.map f) = padLast post (slots.map (Slot.map f)) := by
  rcases List.eq_nil_or_concat slots with rfl | ⟨l, s, rfl⟩
  · rfl
  · rw [List.concat_eq_append, padLast_concat, List.map_append, List.map_append, List.map_singleton, List.map_singleton,
      padLast_concat]
    rfl

theorem closeUp_map (f : β → γ) (left : List (Slot β)) (post : Layout) (right : List (Slot β)) :
    (closeUp left post right).map (Slot.map f) = closeUp (left.map (Slot.map f)) post (right.map (Slot.map f)) := by
  cases right with
  | nil => exact padLast_map f post left
  | cons s right => rw [closeUp, List.map_append]; rfl

end

/-- The text inside without the slot, by what is left of it. -/
theorem inside_closeUp_right (left : List (Slot Units)) (post : Layout) (s : Slot Units) (right : List (Slot Units)) :
    inside post (closeUp left post (s :: right)) = slotsBefore left ++ (s.text ++ slotsAfter right) := by
  rw [closeUp, inside_split]

theorem inside_closeUp_last (left : List (Slot Units)) (post : Layout) (s : Slot Units) :
    inside post (closeUp (left ++ [s]) post []) = slotsBefore left ++ (s.text ++ post.1) := by
  rw [closeUp, padLast_concat, inside_split]
  simp [Slot.text, slotsAfter]

theorem inside_closeUp_nil (post : Layout) : inside post (closeUp [] post []) = post.1 := rfl

namespace Frame

/-- The container without the child in the hole. -/
def without : Frame → Cst
  | item left _ post right => .items post (closeUp left post right)
  | member left _ _ _ _ post right => .members post (closeUp left post right)

theorem text_without (f : Frame) : f.without.text = f.opens ::
    (inside f.post (closeUp (f.left.map (Slot.map Child.text)) f.post (f.right.map (Slot.map Child.text))) ++ [f.closes]) := by
  cases f with
  | item left pre post right =>
    rw [without, Cst.text_items, closeUp_map]
    simp only [Frame.left, Frame.right, map_text_itemChildren, opens, closes, Frame.post]
  | member left pre name mid sep post right =>
    rw [without, Cst.text_members, closeUp_map]
    simp only [Frame.left, Frame.right, map_text_memberChildren, opens, closes, Frame.post]

/-- A member with another behind it goes with its layout and the comma behind it. -/
theorem text_without_right {f : Frame} (h : f.right ≠ []) {a b : Units} {y : UInt16} (hhead : f.head = a ++ y :: f.pre.1)
    (htail : f.tail = f.post.1 ++ unit ',' :: b) : f.without.text = a ++ y :: b := by
  obtain ⟨s, r, hr⟩ := List.exists_cons_of_ne_nil h
  rw [tail, hr, List.map_cons, slotsAfter, List.flatMap_cons, ← slotsAfter, List.append_cancel_left_eq, List.cons_append,
    List.cons_append, List.cons.injEq] at htail
  have hleft : f.opens :: slotsBefore (f.left.map (Slot.map Child.text)) = a ++ [y] := by
    have hcancel : (f.opens :: slotsBefore (f.left.map (Slot.map Child.text))) ++ f.pre.1 = (a ++ [y]) ++ f.pre.1 := by
      rw [List.append_assoc]
      exact hhead
    exact List.append_cancel_right hcancel
  have hsplit : a ++ y :: b = (a ++ [y]) ++ b := by rw [List.append_assoc]; rfl
  rw [f.text_without, hr, List.map_cons, inside_closeUp_right, hsplit, ← hleft, ← htail.2]
  simp

/-- The last of several members goes with its layout and the comma in front of it. -/
theorem text_without_last {f : Frame} (hr : f.right = []) (hl : f.left ≠ []) {a : Units}
    (hhead : f.head = a ++ unit ',' :: f.pre.1) : f.without.text = a ++ f.tail := by
  obtain ⟨l, s, hconcat⟩ := (List.eq_nil_or_concat f.left).resolve_left hl
  rw [List.concat_eq_append] at hconcat
  rw [head, hconcat, List.map_append, List.map_singleton, slotsBefore_concat] at hhead
  have hleft : f.opens :: (slotsBefore (l.map (Slot.map Child.text)) ++ (s.map Child.text).text) = a := by
    have : (f.opens :: (slotsBefore (l.map (Slot.map Child.text)) ++ (s.map Child.text).text)) ++ (unit ',' :: f.pre.1) =
        a ++ unit ',' :: f.pre.1 := by rw [← hhead]; simp
    exact List.append_cancel_right this
  rw [f.text_without, tail, hr, hconcat, List.map_append, List.map_singleton, List.map_nil, inside_closeUp_last, ← hleft]
  simp [slotsAfter]

/-- The only member goes with its layout. -/
theorem text_without_only {f : Frame} (hr : f.right = []) (hl : f.left = []) : f.without.text = f.opens :: f.tail := by
  rw [f.text_without, tail, hr, hl, List.map_nil, inside_closeUp_nil]
  simp [slotsAfter]

end Frame

namespace Value

variable {ν : Type}

/-- A value without the child at step `x`; later items move up. -/
def removeChild (x : Units) : Value ν → Value ν
  | .arr items => .arr (items.eraseIdx (digitsValue x))
  | .obj members => .obj (members.filter fun m => m.1 != x)
  | v => v

end Value

namespace Frame

theorem value_without {ν : Type} (n : Units → ν) {f : Frame} (h : f.Apart) (c : Cst) :
    ((f.plug c).value n id).removeChild f.step = f.without.value n id := by
  cases f with
  | item left pre post right =>
    have hmap := map_closeUp (fun s : Slot Cst => s.body.value n id) (fun _ _ => rfl) left post right
    rw [plug, without, Cst.value_items, Cst.value_items, Value.removeChild, step, digitsValue_natText, List.map_append,
      List.map_cons, List.eraseIdx_append_of_length_le (by simp), hmap]
    simp
  | member left pre name mid sep post right =>
    have hmap := map_closeUp (fun s : Slot Member => (piecesUnits s.body.name, s.body.value.value n id)) (fun _ _ => rfl) left
      post right
    have hne : ∀ {part : List (Slot Member)}, (∀ s ∈ memberChildren part, s.body.step ≠ piecesUnits name) →
        (part.map fun s => (piecesUnits s.body.name, s.body.value.value n id)).filter (fun m => m.1 != piecesUnits name) =
          part.map fun s => (piecesUnits s.body.name, s.body.value.value n id) := by
      intro part hpart
      rw [List.filter_eq_self]
      intro m hm
      obtain ⟨s, hs, rfl⟩ := List.mem_map.mp hm
      exact bne_iff_ne.mpr (hpart _ (List.mem_map.mpr ⟨s, hs, rfl⟩))
    rw [plug, without, Cst.value_members n id rfl, Cst.value_members n id rfl, Value.removeChild, step, id, id,
      List.map_append, List.map_cons, List.filter_append, List.filter_cons_of_neg (by simp),
      hne fun s hs => h s (List.mem_append_left _ hs), hne fun s hs => h s (List.mem_append_right _ hs), hmap]

theorem distinct_without {f : Frame} {c : Cst} (h : (f.plug c).Distinct) : f.without.Distinct := by
  rw [Cst.distinct_iff, children_plug, List.map_append, List.map_cons] at h
  obtain ⟨hnodup, hall⟩ := h
  have hnodup := (List.nodup_cons.mp (List.nodup_middle.mp hnodup)).2
  rw [Cst.distinct_iff]
  cases f with
  | item left pre post right =>
    rw [without, Cst.children_items]
    refine ⟨nodup_itemChildren 0 _, fun s hs => ?_⟩
    obtain ⟨t, ht, hvalue⟩ := mem_of_itemChildren hs
    rw [hvalue]
    have hmem := List.mem_map_of_mem (f := fun s : Slot Cst => s.body) ht
    rw [map_closeUp _ (fun _ _ => rfl), ← List.map_append] at hmem
    obtain ⟨u, hu, hbody⟩ := List.mem_map.mp hmem
    rw [← hbody]
    rcases List.mem_append.mp hu with hu | hu
    · obtain ⟨v, hv, hvalue⟩ := mem_itemChildren 0 hu
      rw [← hvalue]
      exact hall v (List.mem_append_left _ hv)
    · obtain ⟨v, hv, hvalue⟩ := mem_itemChildren (left.length + 1) hu
      rw [← hvalue]
      exact hall v (List.mem_append_right _ (List.mem_cons_of_mem _ hv))
  | member left pre name mid sep post right =>
    rw [without, Cst.children_members, memberChildren, List.map_map]
    constructor
    · rw [map_closeUp _ fun _ _ => rfl]
      simpa [Frame.left, Frame.right, memberChildren, Function.comp_def] using hnodup
    · intro s hs
      obtain ⟨t, ht, rfl⟩ := List.mem_map.mp hs
      have hmem := List.mem_map_of_mem (f := fun s : Slot Member => s.body) ht
      rw [map_closeUp _ (fun _ _ => rfl), ← List.map_append] at hmem
      obtain ⟨u, hu, hbody⟩ := List.mem_map.mp hmem
      show t.body.value.Distinct
      rw [← hbody]
      rcases List.mem_append.mp hu with hu | hu
      · exact hall (u.map Child.ofMember) (List.mem_append_left _ (List.mem_map.mpr ⟨u, hu, rfl⟩))
      · exact hall (u.map Child.ofMember)
          (List.mem_append_right _ (List.mem_cons_of_mem _ (List.mem_map.mpr ⟨u, hu, rfl⟩)))

end Frame

/-! ## The layouts of all members -/

/-- The layouts in front of the members of a tree, in the order of its entries. -/
def Cst.leads (c : Cst) (lead : Units) : List Units := (c.entries [] 0 0 lead).map Entry.lead

def childLeads (slots : List (Slot Child)) : List Units := slots.flatMap fun s => s.body.value.leads s.pre.1

theorem map_lead_childEntries {slots : List (Slot Child)} (h : ∀ s ∈ slots, ∀ path start memberStart lead,
    (s.body.value.entries path start memberStart lead).map Entry.lead = s.body.value.leads lead) (path : List Units)
    (start : Nat) : (childEntries path start slots).map Entry.lead = childLeads slots := by
  induction slots generalizing start with
  | nil => rfl
  | cons s rest ih =>
    rw [childEntries, List.map_append, h s List.mem_cons_self, ih fun t ht => h t (List.mem_cons_of_mem _ ht)]
    rfl

/-- They do not depend on where the tree stands. -/
theorem Cst.map_lead_entries : ∀ (c : Cst) (path : List Units) (start memberStart : Nat) (lead : Units),
    (c.entries path start memberStart lead).map Entry.lead = c.leads lead := by
  apply Cst.childInduction
  intro c ih path start memberStart lead
  rw [leads, entries_eq, entries_eq, List.map_append, List.map_append, map_lead_childEntries ih, map_lead_childEntries ih]
  rfl

theorem map_lead_children (path : List Units) (start : Nat) (slots : List (Slot Child)) :
    (childEntries path start slots).map Entry.lead = childLeads slots :=
  map_lead_childEntries (fun s _ => s.body.value.map_lead_entries) path start

theorem Cst.leads_eq (c : Cst) (lead : Units) : c.leads lead = childLeads c.children ++ [lead] := by
  rw [leads, entries_eq, List.map_append, map_lead_children]
  rfl

theorem childLeads_append (a b : List (Slot Child)) : childLeads (a ++ b) = childLeads a ++ childLeads b := List.flatMap_append

theorem childLeads_items (i : Nat) (slots : List (Slot Cst)) :
    childLeads (itemChildren i slots) = slots.flatMap fun s => s.body.leads s.pre.1 := by
  induction slots generalizing i with
  | nil => rfl
  | cons s slots ih =>
    rw [itemChildren, childLeads, List.flatMap_cons, ← childLeads, ih]
    rfl

theorem childLeads_members (slots : List (Slot Member)) :
    childLeads (memberChildren slots) = slots.flatMap fun s => s.body.value.leads s.pre.1 := by
  rw [childLeads, memberChildren, List.flatMap_map]
  rfl

theorem flatMap_closeUp {β γ : Type} (g : Slot β → List γ) (hg : ∀ s post, g { s with post := post } = g s)
    (left : List (Slot β)) (post : Layout) (right : List (Slot β)) :
    (closeUp left post right).flatMap g = left.flatMap g ++ right.flatMap g := by
  rw [List.flatMap_def, List.flatMap_def, List.flatMap_def, map_closeUp g hg, List.flatten_append]

theorem Frame.childLeads_without (f : Frame) : childLeads f.without.children = childLeads f.left ++ childLeads f.right := by
  cases f with
  | item left pre post right =>
    rw [without, Cst.children_items, childLeads_items, flatMap_closeUp _ fun _ _ => rfl]
    simp only [Frame.left, Frame.right, childLeads_items]
  | member left pre name mid sep post right =>
    rw [without, Cst.children_members, childLeads_members, flatMap_closeUp _ fun _ _ => rfl]
    simp only [Frame.left, Frame.right, childLeads_members]

/-- The entries that are not under a path. -/
def outsideOf (path : List Units) (entries : List Entry) : List Entry := entries.filter fun x => !path.isPrefixOf x.path

theorem outsideOf_append (path : List Units) (a b : List Entry) :
    outsideOf path (a ++ b) = outsideOf path a ++ outsideOf path b := List.filter_append ..

/-- Entries of other children are outside. -/
theorem outsideOf_children {path more : List Units} {x : Units} {start : Nat} {slots : List (Slot Child)}
    (h : ∀ s ∈ slots, s.body.step ≠ x) :
    outsideOf (path ++ [x] ++ more) (childEntries path start slots) = childEntries path start slots := by
  rw [outsideOf, List.filter_eq_self]
  intro y hy
  obtain ⟨s, hs, hpre⟩ := childEntries_path hy
  rw [Bool.not_eq_true', ← Bool.not_eq_true, List.isPrefixOf_iff_prefix]
  exact not_prefix_of_step hpre (h s hs)

theorem outsideOf_entry {path more : List Units} {x : Units} (c : Cst) (start memberStart : Nat) (lead : Units) :
    outsideOf (path ++ [x] ++ more) [c.entry path start memberStart lead] = [c.entry path start memberStart lead] := by
  rw [outsideOf, List.filter_cons_of_pos]
  · rfl
  · rw [Bool.not_eq_true', ← Bool.not_eq_true, List.isPrefixOf_iff_prefix]
    intro hpre
    have hle := hpre.length_le
    simp only [Cst.entry, List.length_append, List.length_singleton] at hle
    omega

theorem outsideOf_under {path : List Units} {entries : List Entry} (h : ∀ x ∈ entries, path <+: x.path) :
    outsideOf path entries = [] := by
  rw [outsideOf, List.filter_eq_nil_iff]
  intro x hx
  rw [List.isPrefixOf_iff_prefix.mpr (h x hx)]
  exact Bool.false_ne_true

/-- A container without a child keeps the layouts of the members that are left. -/
theorem Frame.leads_without {f : Frame} (h : f.Apart) (c : Cst) (path : List Units) (start memberStart : Nat) (lead : Units) :
    (outsideOf (path ++ [f.step]) ((f.plug c).entries path start memberStart lead)).map Entry.lead = f.without.leads lead := by
  have hpath : path ++ [f.step] = path ++ [f.step] ++ [] := (List.append_nil _).symm
  rw [f.entries_plug, outsideOf_append, outsideOf_append, outsideOf_append,
    outsideOf_under (c.entries_path _ _ _ _), List.nil_append, hpath,
    outsideOf_children fun s hs => h s (List.mem_append_left _ hs),
    outsideOf_children fun s hs => h s (List.mem_append_right _ hs), outsideOf_entry, List.map_append, List.map_append,
    map_lead_children, map_lead_children, Cst.leads_eq, f.childLeads_without, List.append_assoc]
  rfl

/-- An edit at a place keeps the layouts around it. -/
theorem Place.leads_plug (p : Place) {k k' : Cst} {more : List Units} (hd : (plug p k).Distinct)
    (hk : ∀ path start memberStart lead,
      (outsideOf (path ++ more) (k.entries path start memberStart lead)).map Entry.lead = k'.leads lead)
    (path : List Units) (start memberStart : Nat) (lead : Units) :
    (outsideOf (path ++ p.path ++ more) ((plug p k).entries path start memberStart lead)).map Entry.lead =
      (plug p k').leads lead := by
  induction p generalizing path start memberStart lead with
  | nil =>
    rw [Place.path, List.map_nil, List.append_nil]
    exact hk path start memberStart lead
  | cons f p ih =>
    have hpath : path ++ Place.path (f :: p) ++ more = path ++ [f.step] ++ (Place.path p ++ more) := by
      simp [Place.path]
    have hapart := Frame.apart_of_distinct hd
    rw [plug_cons, f.entries_plug, hpath, outsideOf_append, outsideOf_append, outsideOf_append,
      outsideOf_children fun s hs => hapart s (List.mem_append_left _ hs),
      outsideOf_children fun s hs => hapart s (List.mem_append_right _ hs), outsideOf_entry, List.map_append, List.map_append,
      List.map_append, map_lead_children, map_lead_children, ← List.append_assoc (path ++ [f.step]),
      ih (Frame.distinct_of_plug hd), plug_cons, Cst.leads_eq (f.plug _), f.children_plug, childLeads_append, List.append_assoc]
    simp [childLeads, Frame.child, Cst.entry]

end Desk
