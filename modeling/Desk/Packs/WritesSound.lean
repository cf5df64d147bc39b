import Desk.Packs.InsertSound
import Desk.Packs.Writes

/-!
# What a form edit leaves

After an edit the member reads what was written, everything beside it reads what
it read, and the members the schema knows are in its order where they were.
-/

namespace Desk

namespace Writes

open DocumentText
open ConditionOps (Buffered buffered)

/-! ## The order of members -/

/-- Those of the names that the schema lists stand in its order. -/
def Ordered (order names : List Units) : Prop :=
  names.Pairwise fun u v => u ∈ order → v ∈ order → order.idxOf u < order.idxOf v

theorem memberOrder_nodup (container : Units) : (memberOrder container).Nodup := by
  unfold memberOrder
  split
  · rename_i entry hfind
    have hall : ∀ entry ∈ memberOrders, (entry.members.map wordText).Nodup := by decide +kernel
    exact hall entry (List.mem_of_find?_eq_some hfind)
  · exact List.nodup_nil

section
variable {order : List Units} {x : Units}

theorem Ordered.insert {left right : List Units} (h : Ordered order (left ++ right))
    (hleft : ∀ u ∈ left, u ∈ order → x ∈ order → order.idxOf u < order.idxOf x)
    (hright : ∀ v ∈ right, x ∈ order → v ∈ order → order.idxOf x < order.idxOf v) :
    Ordered order (left ++ x :: right) := by
  obtain ⟨hl, hr, hacross⟩ := List.pairwise_append.mp h
  refine List.pairwise_append.mpr ⟨hl, List.pairwise_cons.mpr ⟨hright, hr⟩, fun u hu v hv => ?_⟩
  rcases List.mem_cons.mp hv with rfl | hv
  · exact hleft u hu
  · exact hacross u hu v hv

theorem mem_take_idxOf {v : Units} : v ∈ order.take (order.idxOf x) ↔ v ∈ order ∧ order.idxOf v < order.idxOf x := by
  constructor
  · intro hv
    refine ⟨List.mem_of_mem_take hv, ?_⟩
    have hsplit : order.idxOf v = (order.take (order.idxOf x)).idxOf v := by
      conv_lhs => rw [← List.take_append_drop (order.idxOf x) order]
      exact List.idxOf_append_of_mem hv
    have hlt := List.idxOf_lt_length_of_mem hv
    rw [List.length_take] at hlt
    omega
  · rintro ⟨hv, hlt⟩
    have hlength := List.idxOf_lt_length_of_mem hv
    refine List.mem_take_iff_getElem.mpr ⟨order.idxOf v, by omega, ?_⟩
    exact List.getElem_idxOf hlength

/-- The nearest earlier one has none between itself and the place. -/
theorem nearest_spec (hnodup : order.Nodup) {present : Units → Bool} {y : Units}
    (hfind : (order.take (order.idxOf x)).reverse.find? present = some y) :
    y ∈ order ∧ order.idxOf y < order.idxOf x ∧ present y = true ∧
      ∀ v ∈ order, present v = true → order.idxOf v < order.idxOf x → order.idxOf v ≤ order.idxOf y := by
  obtain ⟨hy, as, bs, hsplit, hnone⟩ := List.find?_eq_some_iff_append.mp hfind
  have htake : order.take (order.idxOf x) = bs.reverse ++ y :: as.reverse := by
    have hreverse := congrArg List.reverse hsplit
    rw [List.reverse_reverse, List.reverse_append, List.reverse_cons, List.append_assoc] at hreverse
    exact hreverse
  have hmem : y ∈ order.take (order.idxOf x) := by
    rw [htake]
    exact List.mem_append_right _ (List.mem_cons_self ..)
  obtain ⟨hyorder, hlt⟩ := mem_take_idxOf.mp hmem
  refine ⟨hyorder, hlt, hy, fun v hv hpresent hvx => ?_⟩
  have hvtake := mem_take_idxOf.mpr ⟨hv, hvx⟩
  rw [htake] at hvtake
  rcases List.mem_append.mp hvtake with hbefore | hbehind
  · have horder : order = bs.reverse ++ (y :: (as.reverse ++ order.drop (order.idxOf x))) := by
      conv_lhs => rw [← List.take_append_drop (order.idxOf x) order, htake, List.append_assoc, List.cons_append]
    have hynot : y ∉ bs.reverse := by
      have hn := hnodup
      rw [horder] at hn
      intro hin
      exact (List.nodup_append.mp hn).2.2 y hin y (List.mem_cons_self ..) rfl
    rw [horder, List.idxOf_append_of_mem hbefore, List.idxOf_append_of_notMem hynot]
    have := List.idxOf_lt_length_of_mem hbefore
    omega
  · rcases List.mem_cons.mp hbehind with rfl | hafter
    · exact Nat.le_refl _
    · have := hnone v (List.mem_reverse.mp hafter)
      rw [hpresent] at this
      cases this

end

/-! ## The place of a new member -/

theorem insertIdx_split {α : Type} (left right : List α) (x : α) : (left ++ right).insertIdx left.length x = left ++ x :: right := by
  induction left with
  | nil => rfl
  | cons y left ih => rw [List.cons_append, List.length_cons, List.insertIdx_succ_cons, ih, List.cons_append]

section
variable {ν : Type} {e : Engine ν} {text : Units} {path : List Units} {members : List (Units × Value ν)}

theorem find_member {v : Value ν} (hc : v.find path = some (.obj members)) (x : Units) :
    v.find (path ++ [x]) = (members.find? fun m => m.1 == x).map Prod.snd := by
  rw [Value.find_append, hc]
  show ((members.find? fun m => m.1 == x).bind fun m => m.2.find []) = _
  cases members.find? fun m => m.1 == x <;> rfl

theorem present_iff (d : Spelled text) (hc : (d.value e).find path = some (.obj members)) (x : Units) :
    (spanAt (indexDocument e text) (pointerOf (path ++ [x]))).isSome = true ↔ x ∈ members.map Prod.fst := by
  rw [d.spanAt_isSome, find_member hc, Option.isSome_map, List.find?_isSome, List.mem_map]
  simp only [beq_iff_eq]

/-- The place is a position among the members, and the schema's order is kept there. -/
theorem placeFor_spec (d : Spelled text) (hc : (d.value e).find path = some (.obj members)) {x : Units}
    (hx : x ∉ members.map Prod.fst) : ∃ left right, members = left ++ right ∧
      Placed path (.obj members) (placeFor (buffered e text) (pointerOf path) x) left.length ∧
      (Ordered (memberOrder (pointerOf path)) (members.map Prod.fst) →
        Ordered (memberOrder (pointerOf path)) (left.map Prod.fst ++ x :: right.map Prod.fst)) := by
  have hnodup := memberOrder_nodup (pointerOf path)
  have hparts : (Pointers.parsePointer (pointerOf path)).getD [] = path := by
    rw [pointerOf, Pointers.parsePointer_pointer]
    rfl
  have hne : ∀ {v}, v ∈ members.map Prod.fst → v ∈ memberOrder (pointerOf path) → x ∈ memberOrder (pointerOf path) →
      ¬ (memberOrder (pointerOf path)).idxOf v < (memberOrder (pointerOf path)).idxOf x →
      (memberOrder (pointerOf path)).idxOf x < (memberOrder (pointerOf path)).idxOf v := by
    intro v hv hvorder hxorder hnot
    refine Nat.lt_of_le_of_ne (Nat.le_of_not_lt hnot) fun heq => hx ?_
    rw [(List.idxOf_inj hxorder).mp heq]
    exact hv
  rw [placeFor]
  by_cases hxorder : x ∈ memberOrder (pointerOf path)
  · simp only [if_pos hxorder, hparts, buffered]
    cases hfind : ((memberOrder (pointerOf path)).take ((memberOrder (pointerOf path)).idxOf x)).reverse.find? fun earlier =>
        (spanAt (indexDocument e text) (pointerOf (path ++ [earlier]))).isSome with
    | some y =>
      obtain ⟨hyorder, hlt, hypresent, hnearest⟩ := nearest_spec hnodup hfind
      obtain ⟨m, hm, rfl⟩ := List.mem_map.mp ((present_iff d hc y).mp hypresent)
      obtain ⟨left, right, rfl⟩ := List.append_of_mem hm
      refine ⟨left ++ [m], right, by simp, ⟨left.length, m.1, m.2, ?_, rfl, by simp⟩, fun hordered => ?_⟩
      · show (left ++ m :: right)[left.length]? = _
        rw [List.getElem?_append_right (Nat.le_refl _), Nat.sub_self]
        rfl
      · have hsplit : (left ++ m :: right).map Prod.fst = left.map Prod.fst ++ m.1 :: right.map Prod.fst := by simp
        rw [hsplit] at hordered
        obtain ⟨_, hbehind, hacross⟩ := List.pairwise_append.mp hordered
        have hordered' : Ordered (memberOrder (pointerOf path)) ((left ++ [m]).map Prod.fst ++ right.map Prod.fst) := by
          simpa using hordered
        refine hordered'.insert (fun u hu huorder _ => ?_) fun v hv _ hvorder => ?_
        · rw [List.map_append, List.map_singleton] at hu
          rcases List.mem_append.mp hu with hu | hu
          · exact Nat.lt_trans (hacross u hu m.1 (List.mem_cons_self ..) huorder hyorder) hlt
          · rw [List.mem_singleton.mp hu]
            exact hlt
        · have hvmem : v ∈ (left ++ m :: right).map Prod.fst := by
            rw [hsplit]
            exact List.mem_append_right _ (List.mem_cons_of_mem _ hv)
          refine hne hvmem hvorder hxorder fun hvx => ?_
          have hbefore := hnearest v hvorder ((present_iff d hc v).mpr hvmem) hvx
          have hafter := (List.pairwise_cons.mp hbehind).1 v hv hyorder hvorder
          omega
    | none =>
      refine ⟨[], members, rfl, rfl, fun hordered => ?_⟩
      have hordered' : Ordered (memberOrder (pointerOf path)) ([] ++ members.map Prod.fst) := hordered
      refine hordered'.insert (fun _ hu => absurd hu List.not_mem_nil) fun v hv _ hvorder => hne hv hvorder hxorder fun hvx => ?_
      have hnone := List.find?_eq_none.mp hfind v (List.mem_reverse.mpr (mem_take_idxOf.mpr ⟨hvorder, hvx⟩))
      exact hnone ((present_iff d hc v).mpr hv)
  · rw [if_neg hxorder]
    refine ⟨members, [], by simp, ?_, fun hordered => ?_⟩
    · rfl
    · have hordered' : Ordered (memberOrder (pointerOf path)) (members.map Prod.fst ++ []) := by simpa using hordered
      exact hordered'.insert (fun u _ _ hin => absurd hin hxorder) fun _ hv => absurd hv List.not_mem_nil

/-! ## What an edit leaves -/

/-- What an edit of the member `name` of the object at a path leaves: the member reads `w`, or is gone where there is none;
every value that does not contain it and is not in it is what it was; the other members are what they were, in their
order. -/
structure Written (e : Engine ν) (path : List Units) (name : Units) (v : Value ν) (members : List (Units × Value ν))
    (w : Option (Value ν)) (next : Buffered ν) : Prop where
  indexed : next.index = indexDocument e next.text
  agrees : agreesWithParse e next.text next.index = []
  reads : ∃ v' members', JsonParse.parse e.number next.text = some v' ∧ v'.find path = some (.obj members') ∧
    v'.find (path ++ [name]) = w ∧
    (∀ q, ¬ q <+: path ++ [name] → ¬ path ++ [name] <+: q → v'.find q = v.find q) ∧
    (members'.filter fun m => m.1 != name) = (members.filter fun m => m.1 != name) ∧
    (Ordered (memberOrder (pointerOf path)) (members.map Prod.fst) →
      Ordered (memberOrder (pointerOf path)) (members'.map Prod.fst))

theorem find?_other {name y : Units} (h : y ≠ name) (ms : List (Units × Value ν)) :
    (ms.filter fun m => m.1 != name).find? (fun m => m.1 == y) = ms.find? fun m => m.1 == y := by
  rw [List.find?_filter]
  congr 1
  funext m
  by_cases hm : m.1 = y
  · simp [hm, h]
  · simp [hm]

/-- An edit of the object at the path that keeps its other members. -/
theorem written_of_update {next : Units} (d : Spelled text) (d' : Spelled next) {name : Units} {g : Value ν → Value ν}
    {members' : List (Units × Value ν)} {w : Option (Value ν)} (hc : (d.value e).find path = some (.obj members))
    (hvalue : d'.value e = (d.value e).update g path) (hg : g (.obj members) = .obj members')
    (hw : (members'.find? fun m => m.1 == name).map Prod.snd = w)
    (hothers : (members'.filter fun m => m.1 != name) = members.filter fun m => m.1 != name)
    (hordered : Ordered (memberOrder (pointerOf path)) (members.map Prod.fst) →
      Ordered (memberOrder (pointerOf path)) (members'.map Prod.fst)) :
    Written e path name (d.value e) members w (buffered e next) where
  indexed := rfl
  agrees := agrees_of_spelled e d'
  reads := by
    have hc' : (d'.value e).find path = some (.obj members') := by
      have hbelow := Value.find_update_below g path [] (d.value e)
      rw [List.append_nil, hc, Option.bind_some, hg] at hbelow
      rw [hvalue, hbelow]
      rfl
    refine ⟨d'.value e, members', d'.parse_eq e, hc', (find_member hc' name).trans hw, fun q habove hbelow => ?_, hothers, hordered⟩
    by_cases hpath : path <+: q
    · obtain ⟨rest, rfl⟩ := hpath
      cases rest with
      | nil => exact absurd (by rw [List.append_nil]; exact List.prefix_append _ _) habove
      | cons y rest =>
        have hy : y ≠ name := by
          rintro rfl
          exact hbelow ⟨rest, by simp⟩
        rw [Value.find_append, Value.find_append, hc, hc']
        show ((members'.find? fun m => m.1 == y).bind _) = ((members.find? fun m => m.1 == y).bind _)
        rw [← find?_other hy, hothers, find?_other hy]
    · rw [hvalue]
      exact Value.find_update_apart g path _ hpath fun hq => habove (hq.trans (List.prefix_append _ _))

/-! ## The edits -/

section
variable {name : Units} (d : Spelled text) (hc : (d.value e).find path = some (.obj members))
include hc

theorem replaced_written {json : Units} (j : Spelled json)
    (hpresent : (spanAt (indexDocument e text) (pointerOf (path ++ [name]))).isSome = true) :
    Written e path name (d.value e) members (some (j.value e))
      (buffered e (replaceValue text (indexDocument e text) (pointerOf (path ++ [name])) json)) := by
  obtain ⟨span, hspan⟩ := Option.isSome_iff_exists.mp hpresent
  obtain ⟨q, hq, -, d', hvalue⟩ := d.replaceValue_value hspan j
  obtain rfl := pointerOf_injective hq
  rw [Value.update_concat] at hvalue
  refine written_of_update d d' hc hvalue rfl ?_ ?_ ?_
  · rw [Value.find?_mapChild name name fun _ => j.value e]
    have hin := (present_iff d hc name).mp hpresent
    cases hfind : members.find? fun m => m.1 == name with
    | none =>
      obtain ⟨m, hm, hname⟩ := List.mem_map.mp hin
      exact absurd (beq_iff_eq.mpr hname) (List.find?_eq_none.mp hfind m hm)
    | some m => simp
  · rw [List.filter_map]
    have hkey : ((fun m : Units × Value ν => m.1 != name) ∘ fun m => if m.1 = name then (m.1, j.value e) else m) =
        fun m => m.1 != name := by
      funext m
      rw [Function.comp_apply]
      split <;> rfl
    rw [hkey]
    refine (List.map_congr_left fun m hm => ?_).trans (List.map_id _)
    have hne : m.1 ≠ name := by simpa using (List.mem_filter.mp hm).2
    exact if_neg hne
  · have hnames : (members.map fun m => if m.1 = name then (m.1, j.value e) else m).map Prod.fst = members.map Prod.fst := by
      rw [List.map_map]
      refine List.map_congr_left fun m _ => ?_
      rw [Function.comp_apply]
      split <;> rfl
    rw [hnames]
    exact id

theorem inserted_written {json : Units} (j : Spelled json) (hnew : name ∉ members.map Prod.fst) :
    Written e path name (d.value e) members (some (j.value e))
      (buffered e (insertMember text (indexDocument e text) (pointerOf path) (some name) json
        (placeFor (buffered e text) (pointerOf path) name))) := by
  obtain ⟨left, right, rfl, hplaced, hordered⟩ := placeFor_spec d hc hnew
  have haccepts : Accepts (.obj (left ++ right) : Value ν) (some name) := hnew
  obtain ⟨d', hvalue, -⟩ := d.insertMember_value hc haccepts hplaced j
  have hinsert : Value.insertChild left.length (some name) (j.value e) (.obj (left ++ right)) =
      .obj (left ++ (name, j.value e) :: right) := by
    rw [Value.insertChild, insertIdx_split]
  rw [List.map_append, List.mem_append, not_or] at hnew
  refine written_of_update d d' hc hvalue hinsert ?_ ?_ ?_
  · have hleft : left.find? (fun m => m.1 == name) = none :=
      List.find?_eq_none.mpr fun m hm hname => hnew.1 (List.mem_map.mpr ⟨m, hm, beq_iff_eq.mp hname⟩)
    rw [List.find?_append, hleft, Option.none_or, List.find?_cons_of_pos (by simp)]
    rfl
  · rw [List.filter_append, List.filter_append, List.filter_cons_of_neg (by simp)]
  · intro h
    rw [List.map_append, List.map_cons]
    exact hordered h

theorem removed_written (hpresent : (spanAt (indexDocument e text) (pointerOf (path ++ [name]))).isSome = true) :
    Written e path name (d.value e) members none
      (buffered e (removeMember text (indexDocument e text) (pointerOf (path ++ [name])))) := by
  rw [d.spanAt_isSome] at hpresent
  obtain ⟨d', hvalue⟩ := d.removeMember_value hpresent
  refine written_of_update d d' hc hvalue rfl ?_ ?_ ?_
  · have hnone : (members.filter fun m => m.1 != name).find? (fun m => m.1 == name) = none := by
      refine List.find?_eq_none.mpr fun m hm hname => ?_
      have hne : m.1 ≠ name := by simpa using (List.mem_filter.mp hm).2
      exact hne (beq_iff_eq.mp hname)
    rw [hnone]
    rfl
  · rw [List.filter_filter]
    simp
  · exact fun h => h.sublist (List.filter_sublist.map _)

theorem absent_written (habsent : (spanAt (indexDocument e text) (pointerOf (path ++ [name]))).isNone = true) :
    Written e path name (d.value e) members none (buffered e text) where
  indexed := rfl
  agrees := agrees_of_spelled e d
  reads := by
    have hnone : (d.value e).find (path ++ [name]) = none := by
      rw [← Option.not_isSome_iff_eq_none, ← d.spanAt_isSome, Option.isNone_iff_eq_none.mp habsent]
      exact Bool.false_ne_true
    exact ⟨d.value e, members, d.parse_eq e, hc, hnone, fun q _ _ => rfl, rfl, id⟩

/-- The container is an object in the text, too. -/
theorem container_opens : ∃ span, spanAt (indexDocument e text) (pointerOf path) = some span ∧
    text[span.valueStart]? = some (unit '\x7b') := by
  obtain ⟨p, k, htree, rfl, hk⟩ := (d.tree.find_value e.number path d.distinct).mp hc
  obtain ⟨inner, slots, rfl⟩ := Cst.exists_members hk
  have htext : (Cst.members inner slots).text = unit '\x7b' ::
      (inside inner ((Cst.members inner slots).children.map (Slot.map Child.text)) ++ [unit '\x7d']) := by
    rw [Cst.children_members, map_text_memberChildren, Cst.text_members]
  exact ⟨_, d.spanAt_place htree, d.opens_at htree htext⟩

theorem place_written {json : Units} (j : Spelled json) :
    Written e path name (d.value e) members (some (j.value e))
      (place e (buffered e text) (pointerOf (path ++ [name])) json) := by
  rw [place]
  by_cases hpresent : (spanAt (indexDocument e text) (pointerOf (path ++ [name]))).isSome = true
  · rw [buffered, if_pos hpresent]
    exact replaced_written d hc j hpresent
  · obtain ⟨part, parts, hcons⟩ := List.exists_cons_of_ne_nil (List.concat_ne_nil name path)
    have hparse : Pointers.parsePointer (pointerOf (path ++ [name])) = some (part :: parts) := by
      rw [pointerOf, Pointers.parsePointer_pointer, ← hcons]
    have hlast : (part :: parts).getLast (List.cons_ne_nil part parts) = name := by
      rw [List.getLast_eq_iff_getLast?_eq_some, ← hcons, List.getLast?_concat]
    have hinit : (part :: parts).dropLast = path := by rw [← hcons, List.dropLast_concat]
    obtain ⟨span, hspan, hopens⟩ := container_opens d hc
    rw [buffered, if_neg hpresent, hparse]
    simp only [hlast, hinit, hspan, hopens, ne_eq, not_true_eq_false, if_false]
    exact inserted_written d hc j fun hin => hpresent ((present_iff d hc name).mpr hin)

end

/-- A text that says a string, and one that says a truth value. -/
theorem spelled_stringify (e : Engine ν) (value : Units) :
    ∃ j : Spelled (JsonParse.stringify value), j.value e = .str value := by
  obtain ⟨ps, htext, rfl⟩ := JsonParse.stringify_pieces value
  exact ⟨⟨noLayout, .str ps, noLayout, by rw [htext]; simp [noLayout, Cst.text], trivial⟩, rfl⟩

theorem spelled_bool (e : Engine ν) (value : Bool) :
    ∃ j : Spelled (wordText (if value then "true" else "false")), j.value e = .bool value :=
  ⟨⟨noLayout, .bool value, noLayout, by cases value <;> simp [noLayout, Cst.text], trivial⟩, rfl⟩

end

end Writes

end Desk
