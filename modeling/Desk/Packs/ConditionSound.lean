import Desk.Packs.ConditionOps
import Desk.Packs.InsertSound

/-!
# A condition keeps what its new kind has a place for

Each splice of a kind change leaves the node the object of its members, those
the splice is not about with their own bytes. What the node is made of is
followed from splice to splice.
-/

namespace Desk

namespace ConditionOps

open DocumentText

/-! ## The layout of a document -/

theorem lineEnding_isLineEnd (text : Units) : IsLineEnd (lineEnding text) := by
  unfold lineEnding
  split
  · exact Or.inl rfl
  · split
    · exact Or.inr rfl
    · exact Or.inl rfl

theorem isLayout_of_isIndent {u : UInt16} (h : isIndent u = true) : isLayout u = true := by
  simp only [isIndent, Bool.or_eq_true, beq_iff_eq] at h
  rcases h with h | h <;> rw [h] <;> decide

theorem indentUnit_isLayout (text : Units) : (indentUnit text).all isLayout = true := by
  induction text with
  | nil => decide
  | cons c rest ih =>
    rw [indentUnit]
    split
    · rw [List.all_eq_true]
      exact fun u hu => isLayout_of_isIndent (List.all_eq_true.mp List.all_takeWhile u hu)
    · exact ih

theorem leadingLayout_isLayout (text : Units) (position : Nat) : (leadingLayout text position).all isLayout = true := by
  rw [leadingLayout, slice, layoutBefore]
  generalize hl : text.take position = l
  have hle : l.length ≤ position := by
    rw [← hl]
    exact List.length_take_le _ _
  have hsplit : l = (l.reverse.dropWhile isLayout).reverse ++ (l.reverse.takeWhile isLayout).reverse := by
    rw [← List.reverse_append, List.takeWhile_append_dropWhile, List.reverse_reverse]
  have hrun : (l.reverse.takeWhile isLayout).all isLayout = true := List.all_takeWhile
  generalize l.reverse.takeWhile isLayout = run at hsplit hrun ⊢
  generalize l.reverse.dropWhile isLayout = before at hsplit
  have hbefore : before.reverse.length ≤ position - run.length := by
    have hlength := congrArg List.length hsplit
    have hreverse : run.reverse.length = run.length := List.length_reverse
    rw [List.length_append, hreverse] at hlength
    omega
  rw [hsplit, List.drop_append, List.drop_eq_nil_of_le hbefore, List.nil_append, List.all_eq_true]
  intro u hu
  exact List.all_eq_true.mp hrun u (List.mem_reverse.mp (List.mem_of_mem_drop hu))

/-- The indentation of a node is layout. -/
structure NodeLayout.Fits (layout : NodeLayout) : Prop where
  base : layout.base.all isLayout = true
  step : layout.step.all isLayout = true
  eol : IsLineEnd layout.eol

theorem layoutOf_fits {ν : Type} (current : Buffered ν) (pointer : Units) : (layoutOf current pointer).Fits := by
  unfold layoutOf
  split
  · exact ⟨rfl, rfl, lineEnding_isLineEnd _⟩
  · next span hspan =>
    simp only
    split
    · refine ⟨?_, indentUnit_isLayout _, lineEnding_isLineEnd _⟩
      rw [List.all_reverse, List.all_eq_true]
      intro u hu
      exact List.all_eq_true.mp (leadingLayout_isLayout _ _) u
        (List.mem_reverse.mp ((List.takeWhile_prefix _).subset hu))
    · exact ⟨rfl, rfl, lineEnding_isLineEnd _⟩

theorem deeper_fits {layout : NodeLayout} (h : layout.Fits) : (deeper layout).Fits := by
  unfold deeper
  split
  · exact h
  · refine ⟨?_, h.step, h.eol⟩
    rw [List.all_append, h.base, h.step]
    rfl

/-! ## New bytes -/

theorem stringify_word (w : String) : ∃ ps, JsonParse.stringify (wordText w) = quotedText ps ∧ piecesUnits ps = wordText w :=
  JsonParse.stringify_pieces _

/-- A placeholder as `JSON.stringify` writes it, indented or not. -/
theorem exists_blank (name : Units) {gap : Units} (hgap : gap.all isLayout = true) :
    ∃ c : Cst, stringifyValue gap [] (blank name) = c.text ∧ c.Distinct ∧
      ∀ {ν : Type} (n : Units → ν), c.value n id = blank name := by
  have hstring : ∀ s : Units, ∃ c : Cst, stringifyValue gap [] (.str s) = c.text ∧ c.Distinct ∧
      ∀ {ν : Type} (n : Units → ν), c.value n id = .str s := by
    intro s
    obtain ⟨ps, htext, rfl⟩ := JsonParse.stringify_pieces s
    exact ⟨.str ps, htext, trivial, fun _ => rfl⟩
  unfold blank
  split
  · exact ⟨.noItems noLayout, rfl, trivial, fun _ => rfl⟩
  · split
    · obtain ⟨op, hop, hop'⟩ := stringify_word "op"
      obtain ⟨literal, hliteral, hliteral'⟩ := stringify_word "literal"
      obtain ⟨value, hvalue, hvalue'⟩ := stringify_word "value"
      have hdistinct : ∀ pre sep post : Layout, (Cst.obj (.cons pre op noLayout sep (.str literal) noLayout
          (.last pre value noLayout sep (.bool true) post))).Distinct := by
        intro pre sep post
        refine ⟨?_, trivial, trivial⟩
        show [piecesUnits op, piecesUnits value].Nodup
        rw [hop', hvalue']
        decide
      have hmeaning : ∀ (pre sep post : Layout) {ν : Type} (n : Units → ν), (Cst.obj (.cons pre op noLayout sep (.str literal)
          noLayout (.last pre value noLayout sep (.bool true) post))).value n id = newNode := by
        intro pre sep post ν n
        show Value.obj [(piecesUnits op, .str (piecesUnits literal)), (piecesUnits value, .bool true)] = newNode
        rw [hop', hliteral', hvalue']
        rfl
      by_cases hnone : gap = []
      · refine ⟨_, ?_, hdistinct noLayout noLayout noLayout, hmeaning noLayout noLayout noLayout⟩
        simp only [newNode, stringifyValue, stringifyMembers, enclose, hnone, hop, hliteral, hvalue, if_true, Cst.text,
          CstMembers.text]
        simp [noLayout, List.intercalate, wordText]
      · refine ⟨_, ?_, hdistinct ⟨unit '\n' :: gap, by rw [List.all_cons, hgap]; rfl⟩ spaceLayout ⟨[unit '\n'], by decide⟩,
          hmeaning _ _ _⟩
        simp only [newNode, stringifyValue, stringifyMembers, enclose, hop, hliteral, hvalue, if_neg hnone, Cst.text,
          CstMembers.text]
        simp [noLayout, spaceLayout, List.intercalate, wordText]
    · split
      · exact hstring _
      · exact hstring _

/-- A placeholder in the layout of a node. -/
theorem serialize_blank (name : Units) {layout : NodeLayout} (h : layout.Fits) :
    ∃ j : Spelled (serialize (blank name) layout), ∀ {ν : Type} (e : Engine ν), j.value e = blank name := by
  by_cases hstep : layout.step = []
  · obtain ⟨c, htext, hdistinct, hvalue⟩ := exists_blank name (show ([] : Units).all isLayout = true from rfl)
    rw [serialize, if_pos hstep]
    exact ⟨⟨noLayout, c, noLayout, by simp [noLayout, htext], hdistinct⟩, fun e => hvalue e.number⟩
  · have hgap : (layout.step.take 10).all isLayout = true := by
      rw [List.all_eq_true]
      exact fun u hu => List.all_eq_true.mp h.step u (List.mem_of_mem_take hu)
    have hnew : (layout.eol ++ layout.base).all isLayout = true := by
      rw [List.all_append, h.eol.isLayout, h.base]
      rfl
    obtain ⟨c, htext, hdistinct, hvalue⟩ := exists_blank name hgap
    have hshift := Cst.replaceAll_text (Or.inl rfl : IsLineEnd lineFeed) hnew c []
    rw [List.append_nil, replaceAll_nil, List.append_nil] at hshift
    rw [serialize, if_neg hstep]
    refine ⟨⟨noLayout, c.mapLayout (relaid lineFeed hnew), noLayout, ?_, (c.distinct_mapLayout _).mpr hdistinct⟩, fun e => ?_⟩
    · rw [shift, htext, hshift]
      simp [noLayout]
    · exact (c.value_mapLayout e.number _).trans (hvalue e.number)

/-! ## What a node is made of -/

/-- The node at a place is the object of these members; the layout of the document and what is around the place are
given. -/
def Holds (text : Units) (pre post : Layout) (p : Place) (bodies : List Member) : Prop :=
  ∃ (d : Spelled text) (inner : Layout) (slots : List (Slot Member)), d.pre = pre ∧ d.post = post ∧
    d.tree = p.plug (.members inner slots) ∧ slots.map Slot.body = bodies

/-- The names of members. -/
def names (bodies : List Member) : List Units := bodies.map fun m => piecesUnits m.name

theorem members_of_ne {slots : List (Slot Member)} (h : slots ≠ []) (inner inner' : Layout) :
    Cst.members inner slots = Cst.members inner' slots := by
  cases slots with
  | nil => exact absurd rfl h
  | cons s slots => rfl

section
variable {ν : Type} {e : Engine ν} {text : Units} {pre post : Layout} {p : Place} {bodies : List Member}

theorem Holds.nodup (h : Holds text pre post p bodies) : (names bodies).Nodup := by
  obtain ⟨d, inner, slots, rfl, rfl, htree, rfl⟩ := h
  have hd := (Cst.distinct_iff _).mp (Place.distinct_of_plug (htree ▸ d.distinct))
  rw [Cst.children_members, memberChildren, List.map_map] at hd
  rw [names, List.map_map]
  exact hd.1

/-- A member stands in a frame of the node. -/
theorem Holds.frame {left right : List Member} {m : Member} (h : Holds text pre post p (left ++ m :: right)) :
    ∃ (d : Spelled text) (ls rs : List (Slot Member)) (l r : Layout), d.pre = pre ∧ d.post = post ∧
      d.tree = (p ++ [Frame.member ls l m.name m.mid m.sep r rs]).plug m.value ∧ ls.map Slot.body = left ∧
      rs.map Slot.body = right := by
  obtain ⟨d, inner, slots, rfl, rfl, htree, hslots⟩ := h
  obtain ⟨ls, rest, rfl, rfl, hrest⟩ := List.map_eq_append_iff.mp hslots
  obtain ⟨s, rs, rfl, rfl, rfl⟩ := List.map_eq_cons_iff.mp hrest
  refine ⟨d, ls, rs, s.pre, s.post, rfl, rfl, ?_, rfl, rfl⟩
  rw [htree, Place.plug_append, members_of_ne (by simp) inner noLayout]
  rfl

theorem path_concat (p : Place) (f : Frame) : Place.path (p ++ [f]) = p.path ++ [f.step] := by simp [Place.path]

/-- The index finds each member, and its bytes. -/
theorem Holds.span {m : Member} (h : Holds text pre post p bodies) (hm : m ∈ bodies) :
    ∃ span, spanAt (indexDocument e text) (pointerOf (p.path ++ [piecesUnits m.name])) = some span ∧
      slice text span.memberStart span.memberEnd = m.text := by
  obtain ⟨left, right, rfl⟩ := List.append_of_mem hm
  obtain ⟨d, ls, rs, l, r, rfl, rfl, htree, rfl, rfl⟩ := h.frame
  obtain ⟨span, hspan, -, hstart, hend⟩ := d.spanAt_member (e := e) htree
  exact ⟨span, hspan, slice_mid (d.text_member htree) hstart hend⟩

/-- The names the index has under the node are those of its members. -/
theorem Holds.mem_of_span (h : Holds text pre post p bodies) {x : Units}
    (hx : (spanAt (indexDocument e text) (pointerOf (p.path ++ [x]))).isSome = true) : x ∈ names bodies := by
  obtain ⟨d, inner, slots, rfl, rfl, htree, rfl⟩ := h
  rw [d.spanAt_path, Option.isSome_map, Option.isSome_iff_exists] at hx
  obtain ⟨y, hy⟩ := hx
  have hfound := List.find?_some hy
  have hpath : y.path = p.path ++ [x] := beq_iff_eq.mp hfound
  have hmem : y ∈ d.entries.filter fun y => isChildOf p.path y.path := by
    refine List.mem_filter.mpr ⟨List.mem_of_find?_eq_some hy, ?_⟩
    rw [hpath, isChildOf, Bool.and_eq_true, List.isPrefixOf_iff_prefix]
    exact ⟨List.prefix_append _ _, by simp⟩
  rw [d.filter_entries htree] at hmem
  obtain ⟨s, hs, hstep⟩ := mem_ownEntries hmem
  rw [hpath, List.append_cancel_left_eq, List.singleton_inj] at hstep
  rw [Cst.children_members] at hs
  obtain ⟨t, ht, rfl⟩ := List.mem_map.mp hs
  rw [hstep, names, List.map_map]
  exact List.mem_map_of_mem ht

/-! ## One splice -/

/-- A member goes and the others stay. -/
theorem Holds.remove {left right : List Member} {m : Member} (h : Holds text pre post p (left ++ m :: right)) :
    Holds (removeMember text (indexDocument e text) (pointerOf (p.path ++ [piecesUnits m.name]))) pre post p (left ++ right) := by
  obtain ⟨d, ls, rs, l, r, rfl, rfl, htree, rfl, rfl⟩ := h.frame
  have hroot : pointerOf (p.path ++ [piecesUnits m.name]) ≠ [] := by
    rw [pointerOf, Pointers.pointer_concat]
    simp
  obtain ⟨_, start, stop, -, hresult, htext, -⟩ := d.removeMember_spec (e := e) htree hroot
  have htree' : d.tree = p.plug ((Frame.member ls l m.name m.mid m.sep r rs).plug m.value) := by
    rw [htree, Place.plug_append]
    rfl
  have hd := d.distinct
  rw [htree'] at hd
  have hwithout := Frame.distinct_without (Place.distinct_of_plug hd)
  have hsame := hresult.trans htext
  simp only [Frame.step] at hsame
  rw [hsame]
  refine ⟨d.put htree' hwithout, r, closeUp ls r rs, rfl, rfl, rfl, ?_⟩
  exact map_closeUp Slot.body (fun _ _ => rfl) ls r rs

/-- The value of a member is replaced and its name keeps its bytes. -/
theorem Holds.replace {left right : List Member} {m : Member} (h : Holds text pre post p (left ++ m :: right)) {c : Cst}
    (hc : c.Distinct) : ∃ span, spanAt (indexDocument e text) (pointerOf (p.path ++ [piecesUnits m.name])) = some span ∧
      Holds (text.take span.valueStart ++ c.text ++ text.drop span.valueEnd) pre post p
        (left ++ { m with value := c } :: right) := by
  obtain ⟨d, ls, rs, l, r, rfl, rfl, htree, rfl, rfl⟩ := h.frame
  have hspan := d.spanAt_place (e := e) htree
  rw [path_concat] at hspan
  refine ⟨_, hspan, ?_⟩
  have ht := d.text_place htree
  have hstart : (d.spanAtPlace (p ++ [Frame.member ls l m.name m.mid m.sep r rs]) m.value).valueStart =
      (d.pre.1 ++ Place.head (p ++ [Frame.member ls l m.name m.mid m.sep r rs])).length := by
    simp [Spelled.spanAtPlace, spanOf, Cst.entry]
  have hstop : (d.spanAtPlace (p ++ [Frame.member ls l m.name m.mid m.sep r rs]) m.value).valueEnd =
      (d.pre.1 ++ Place.head (p ++ [Frame.member ls l m.name m.mid m.sep r rs])).length + m.value.text.length := by
    simp [Spelled.spanAtPlace, spanOf, Cst.entry]
  rw [take_mid ht hstart, drop_mid ht hstop, List.append_assoc]
  refine ⟨d.put htree hc, noLayout, ls ++ ⟨l, { m with value := c }, r⟩ :: rs, rfl, rfl, ?_, ?_⟩
  · show Place.plug (p ++ [Frame.member ls l m.name m.mid m.sep r rs]) c = _
    rw [Place.plug_append]
    rfl
  · rw [List.map_append, List.map_cons]

/-- A member that the node does not have is put at a position. -/
theorem Holds.insert (h : Holds text pre post p bodies) {x : Units} (hx : x ∉ names bodies) {json : Units} (j : Spelled json)
    {placement : Placement}
    (hplacement : placement = .first ∨ ∃ y ∈ names bodies, placement = .after (pointerOf (p.path ++ [y]))) :
    ∃ (m : Member) (i : Nat), piecesUnits m.name = x ∧ m.value = j.tree ∧ i ≤ bodies.length ∧
      (placement = .first → i = 0) ∧
      Holds (insertMember text (indexDocument e text) (pointerOf p.path) (some x) json placement) pre post p
        (bodies.insertIdx i m) := by
  obtain ⟨d, inner, slots, rfl, rfl, htree, rfl⟩ := h
  have hd := Place.distinct_of_plug (htree ▸ d.distinct)
  have hx' : x ∉ slots.map fun s => piecesUnits s.body.name := by
    rw [names, List.map_map] at hx
    exact hx
  have hplaced : ∃ i, Placed p.path ((Cst.members inner slots).value e.number id) placement i ∧ (placement = .first → i = 0) := by
    rcases hplacement with rfl | ⟨y, hy, rfl⟩
    · exact ⟨0, rfl, fun _ => rfl⟩
    · rw [names, List.map_map] at hy
      obtain ⟨s, hs, rfl⟩ := List.mem_map.mp hy
      obtain ⟨n, hn, rfl⟩ := List.getElem_of_mem hs
      refine ⟨n + 1, ⟨n, _, slots[n].body.value.value e.number id, ?_, rfl, rfl⟩, nofun⟩
      rw [Cst.children_value, Cst.children_members, memberChildren, List.map_map, List.getElem?_map,
        List.getElem?_eq_getElem hn]
      rfl
  obtain ⟨i, hplaced, hfirst⟩ := hplaced
  have hi : i ≤ slots.length := by
    have hle := hplaced.le
    rwa [Cst.children_value, Cst.children_members, memberChildren, List.length_map, List.length_map] at hle
  obtain ⟨m, rfl, hm, hwritten, hdistinct⟩ := exists_written hd hx' hi j
  have htext : (Cst.members inner slots).text = unit '\x7b' ::
      (inside inner ((Cst.members inner slots).children.map (Slot.map Child.text)) ++ [unit '\x7d']) := by
    rw [Cst.children_members, map_text_memberChildren, Cst.text_members]
  have htext' : (Cst.members noLayout (insertSlot ⟨noLayout, m, j.post⟩ i slots)).text = unit '\x7b' ::
      (inside noLayout (insertSlot ⟨noLayout, m.text, j.post⟩ i
        ((Cst.members inner slots).children.map (Slot.map Child.text))) ++ [unit '\x7d']) := by
    rw [Cst.children_members, map_text_memberChildren, Cst.text_members, map_insertSlot]
    rfl
  obtain ⟨hresult, -⟩ := d.insertMember_spec (e := e) htree htext (Or.inl ⟨rfl, _, rfl⟩) (fun h => absurd h (by decide)) hwritten
    hplaced htext'
  refine ⟨m, i, rfl, hm, by rw [List.length_map]; exact hi, hfirst, ?_⟩
  rw [hresult]
  refine ⟨d.put htree hdistinct, noLayout, _, rfl, rfl, rfl, ?_⟩
  exact read_insertSlot Slot.body (fun _ _ h => h) _ hi

/-! ## The splices of a kind change -/

abbrev op : Units := wordText "op"

theorem memberPointer_eq (path : List Units) (x : Units) : memberPointer (pointerOf path) x = pointerOf (path ++ [x]) := by
  rw [memberPointer, pointerOf, Pointers.parsePointer_pointer]

theorem mem_names {m : Member} (h : m ∈ bodies) : piecesUnits m.name ∈ names bodies := List.mem_map_of_mem h

theorem exists_of_names {x : Units} (h : x ∈ names bodies) : ∃ m ∈ bodies, piecesUnits m.name = x := List.mem_map.mp h

theorem names_split (left : List Member) (m : Member) (right : List Member) :
    names (left ++ m :: right) = names left ++ piecesUnits m.name :: names right := by
  rw [names, List.map_append, List.map_cons]
  rfl

/-- Without a member of distinct names the others are left. -/
theorem mem_without {left right : List Member} {m x : Member} (h : (names (left ++ m :: right)).Nodup) :
    x ∈ left ++ right ↔ x ∈ left ++ m :: right ∧ piecesUnits x.name ≠ piecesUnits m.name := by
  rw [names_split, List.nodup_middle, List.nodup_cons, List.mem_append] at h
  constructor
  · intro hx
    refine ⟨?_, fun hname => h.1 ?_⟩
    · rcases List.mem_append.mp hx with hx | hx
      · exact List.mem_append_left _ hx
      · exact List.mem_append_right _ (List.mem_cons_of_mem _ hx)
    · rw [← hname]
      exact (List.mem_append.mp hx).imp mem_names mem_names
  · rintro ⟨hx, hname⟩
    rcases List.mem_append.mp hx with hx | hx
    · exact List.mem_append_left _ hx
    · rcases List.mem_cons.mp hx with rfl | hx
      · exact absurd rfl hname
      · exact List.mem_append_right _ hx

/-- The members the new kind has nowhere to put go; those left are the old ones. -/
theorem dropMembers_holds {members : List Units} (present : List Units) (h : Holds text pre post p bodies)
    (hnodup : present.Nodup) (hpresent : ∀ x ∈ present, x ≠ op → x ∉ members → x ∈ names bodies) :
    ∃ text' bodies', present.foldl (dropMember e (pointerOf p.path) members) (buffered e text) = buffered e text' ∧
      Holds text' pre post p bodies' ∧ ∀ m, m ∈ bodies' ↔ m ∈ bodies ∧
        (piecesUnits m.name ∈ present → piecesUnits m.name = op ∨ piecesUnits m.name ∈ members) := by
  induction present generalizing text bodies with
  | nil => exact ⟨text, bodies, rfl, h, fun m => ⟨fun hm => ⟨hm, nofun⟩, And.left⟩⟩
  | cons x rest ih =>
    rw [List.nodup_cons] at hnodup
    rw [List.foldl_cons, dropMember]
    by_cases hkeep : x = op ∨ x ∈ members
    · rw [if_pos hkeep]
      obtain ⟨text', bodies', hfold, hholds, hmem⟩ :=
        ih h hnodup.2 fun y hy => hpresent y (List.mem_cons_of_mem _ hy)
      refine ⟨text', bodies', hfold, hholds, fun m => (hmem m).trans (and_congr_right fun _ => ⟨fun hm hin => ?_, fun hm hin => ?_⟩)⟩
      · rcases List.mem_cons.mp hin with heq | hin
        · rw [heq]
          exact hkeep
        · exact hm hin
      · exact hm (List.mem_cons_of_mem _ hin)
    · rw [if_neg hkeep, memberPointer_eq]
      rw [not_or] at hkeep
      obtain ⟨m, hm, rfl⟩ := exists_of_names (hpresent x List.mem_cons_self hkeep.1 hkeep.2)
      obtain ⟨left, right, rfl⟩ := List.append_of_mem hm
      have hwithout := fun x => mem_without (x := x) h.nodup
      have hrest : ∀ y ∈ rest, y ≠ op → y ∉ members → y ∈ names (left ++ right) := by
        intro y hy hop hnot
        obtain ⟨n, hn, rfl⟩ := exists_of_names (hpresent y (List.mem_cons_of_mem _ hy) hop hnot)
        refine mem_names ((hwithout n).mpr ⟨hn, fun heq => hnodup.1 ?_⟩)
        rw [← heq]
        exact hy
      obtain ⟨text', bodies', hfold, hholds, hmem⟩ := ih (h.remove (e := e)) hnodup.2 hrest
      refine ⟨text', bodies', hfold, hholds, fun n => (hmem n).trans ?_⟩
      rw [hwithout n]
      constructor
      · rintro ⟨⟨hn, hname⟩, hin⟩
        refine ⟨hn, fun hmem => ?_⟩
        rcases List.mem_cons.mp hmem with heq | hmem
        · exact absurd heq hname
        · exact hin hmem
      · rintro ⟨hn, hin⟩
        refine ⟨⟨hn, fun heq => ?_⟩, fun hmem => hin (List.mem_cons_of_mem _ hmem)⟩
        have hkept := hin (by rw [heq]; exact List.mem_cons_self)
        rw [heq] at hkept
        exact hkept.elim hkeep.1 hkeep.2

/-- A new member goes behind one that the node has, or in front of all. -/
theorem placeAfter_spec (h : Holds text pre post p bodies) (members : List Units) (x : Units) :
    placeAfter (buffered e text) (pointerOf p.path) members x = .first ∨
      ∃ y ∈ names bodies, placeAfter (buffered e text) (pointerOf p.path) members x = .after (pointerOf (p.path ++ [y])) := by
  unfold placeAfter
  split
  · exact Or.inl rfl
  · next sibling hfound =>
    have hsome := List.find?_some hfound
    rw [memberPointer_eq] at hsome ⊢
    exact Or.inr ⟨sibling, h.mem_of_span hsome, rfl⟩

/-- The members that are missing come, written empty; those that are there stay. -/
theorem addMembers_holds {present : List Units} (members missing : List Units) (h : Holds text pre post p bodies)
    (hnodup : missing.Nodup) (hmissing : ∀ x ∈ missing, x ≠ op → x ∉ present → x ∉ names bodies) :
    ∃ text' bodies', missing.foldl (addMember e (pointerOf p.path) members present) (buffered e text) = buffered e text' ∧
      Holds text' pre post p bodies' ∧ (∀ m ∈ bodies, m ∈ bodies') ∧
      (∀ m ∈ bodies', m ∈ bodies ∨
        piecesUnits m.name ∈ missing ∧ m.value.value e.number id = blank (piecesUnits m.name)) ∧
      ∀ x ∈ missing, x ≠ op → x ∉ present → x ∈ names bodies' := by
  induction missing generalizing text bodies with
  | nil => exact ⟨text, bodies, rfl, h, fun m hm => hm, fun m hm => Or.inl hm, nofun⟩
  | cons x rest ih =>
    rw [List.nodup_cons] at hnodup
    rw [List.foldl_cons, addMember]
    by_cases hskip : x = op ∨ x ∈ present
    · rw [if_pos hskip]
      obtain ⟨text', bodies', hfold, hholds, hkeep, honly, hall⟩ :=
        ih h hnodup.2 fun y hy => hmissing y (List.mem_cons_of_mem _ hy)
      refine ⟨text', bodies', hfold, hholds, hkeep, fun m hm => ?_, fun y hy hop hnot => ?_⟩
      · exact (honly m hm).imp id fun hnew => ⟨List.mem_cons_of_mem _ hnew.1, hnew.2⟩
      · rcases List.mem_cons.mp hy with rfl | hy
        · exact absurd hskip (not_or.mpr ⟨hop, hnot⟩)
        · exact hall y hy hop hnot
    · rw [if_neg hskip]
      rw [not_or] at hskip
      have hfresh := hmissing x List.mem_cons_self hskip.1 hskip.2
      obtain ⟨j, hj⟩ := serialize_blank x (deeper_fits (layoutOf_fits (buffered e text) (pointerOf p.path)))
      obtain ⟨m, i, rfl, hm, hi, -, hinserted⟩ := h.insert (e := e) hfresh j (placeAfter_spec h members x)
      have hmem : ∀ n, n ∈ bodies.insertIdx i m ↔ n = m ∨ n ∈ bodies := fun n => List.mem_insertIdx hi
      have hrest : ∀ y ∈ rest, y ≠ op → y ∉ present → y ∉ names (bodies.insertIdx i m) := by
        intro y hy hop hnot hin
        obtain ⟨n, hn, rfl⟩ := exists_of_names hin
        rcases (hmem n).mp hn with rfl | hn
        · exact hnodup.1 hy
        · exact hmissing _ (List.mem_cons_of_mem _ hy) hop hnot (mem_names hn)
      obtain ⟨text', bodies', hfold, hholds, hkeep, honly, hall⟩ := ih hinserted hnodup.2 hrest
      refine ⟨text', bodies', hfold, hholds, fun n hn => hkeep n ((hmem n).mpr (Or.inr hn)), fun n hn => ?_,
        fun y hy hop hnot => ?_⟩
      · rcases honly n hn with hn | hnew
        · rcases (hmem n).mp hn with rfl | hn
          · exact Or.inr ⟨List.mem_cons_self, by rw [hm]; exact hj e⟩
          · exact Or.inl hn
        · exact Or.inr ⟨List.mem_cons_of_mem _ hnew.1, hnew.2⟩
      · rcases List.mem_cons.mp hy with rfl | hy
        · exact mem_names (hkeep m ((hmem m).mpr (Or.inl rfl)))
        · exact hall y hy hop hnot

/-- The word itself: every other member stays. -/
theorem named_holds (h : Holds text pre post p bodies) (kind : Units) :
    ∃ text' bodies', (if op ∈ names bodies then setOp e (buffered e text) (pointerOf p.path) kind
        else buffered e (insertMember text (indexDocument e text) (pointerOf p.path) (some op) (JsonParse.stringify kind) .first)) =
        buffered e text' ∧ Holds text' pre post p bodies' ∧
      (∃ m ∈ bodies', piecesUnits m.name = op ∧ m.value.value e.number id = .str kind) ∧
      ∀ m, piecesUnits m.name ≠ op → (m ∈ bodies' ↔ m ∈ bodies) := by
  obtain ⟨ps, htext, rfl⟩ := JsonParse.stringify_pieces kind
  by_cases hop : op ∈ names bodies
  · obtain ⟨m, hm, hname⟩ := exists_of_names hop
    obtain ⟨left, right, rfl⟩ := List.append_of_mem hm
    obtain ⟨span, hspan, hholds⟩ := h.replace (e := e) (c := .str ps) trivial
    have hpointer : pointerOf p.path ++ wordText "/op" = pointerOf (p.path ++ [piecesUnits m.name]) := by
      rw [hname, pointerOf, pointerOf, Pointers.pointer_concat]
      rfl
    refine ⟨_, _, ?_, hholds, ⟨_, List.mem_append_right _ List.mem_cons_self, hname, rfl⟩, fun n hn => ?_⟩
    · rw [if_pos hop, setOp, hpointer]
      simp only [buffered, hspan, htext]
      rfl
    · have hne : ∀ {c : Cst}, n ≠ { m with value := c } := fun heq => hn (by rw [heq]; exact hname)
      simp only [List.mem_append, List.mem_cons, hne, false_or]
  · obtain ⟨m, i, hname, hm, hi, -, hholds⟩ := h.insert (e := e) hop
      (⟨noLayout, .str ps, noLayout, by simp [noLayout, htext, Cst.text], trivial⟩ :
        Spelled (JsonParse.stringify (piecesUnits ps))) (Or.inl rfl)
    have hmem : ∀ n, n ∈ bodies.insertIdx i m ↔ n = m ∨ n ∈ bodies := fun n => List.mem_insertIdx hi
    refine ⟨_, _, if_neg hop, hholds, ⟨m, (hmem m).mpr (Or.inl rfl), hname, by rw [hm]; rfl⟩, fun n hn => ?_⟩
    rw [hmem n, or_iff_right fun heq => hn (by rw [heq]; exact hname)]

theorem objectKeys_perm (keys : List Units) : (objectKeys keys).Perm keys :=
  ((List.perm_insertionSort _ _).append_right _).trans (List.filter_append_perm _ _)

/-- What the members of a kind are. -/
theorem conditionMembers_spec {kind : Units} {members : List Units} (h : conditionMembers kind = some members) :
    members.Nodup ∧ op ∈ members := by
  unfold conditionMembers at h
  repeat' split at h
  all_goals first
    | (cases h; exact ⟨by decide, by decide⟩)
    | cases h

/-- The fields of a node, by their names. -/
def fieldsOf (e : Engine ν) (bodies : List Member) : List (Units × Value ν) :=
  bodies.map fun m => (piecesUnits m.name, m.value.value e.number id)

theorem names_fieldsOf (bodies : List Member) : (fieldsOf e bodies).map Prod.fst = names bodies := by
  rw [fieldsOf, List.map_map]
  rfl

/-- What the edits read at the pointer of the node. -/
theorem Holds.nodeAt_eq (h : Holds text pre post p bodies) :
    nodeAt e (buffered e text) (pointerOf p.path) = some (.obj (fieldsOf e bodies)) ∧
      (buffered e text).index.reading.toOption.isSome = true := by
  obtain ⟨d, inner, slots, rfl, rfl, htree, rfl⟩ := h
  have hdistinct := Place.distinct_of_plug (htree ▸ d.distinct)
  have hnode := (Spelled.mk noLayout (.members inner slots) noLayout (by simp [noLayout]) hdistinct :
    Spelled (Cst.members inner slots).text).index_eq e
  constructor
  · rw [nodeAt, buffered]
    simp only [d.spanAt_place htree, Option.bind_some]
    rw [d.slice_place htree, hnode]
    show some ((Cst.members inner slots).value e.number id) = _
    rw [Cst.value_members e.number id rfl, fieldsOf, List.map_map]
    rfl
  · rw [buffered]
    simp only [d.index_eq e]
    rfl

/-- The node has the members of the new kind: those that were there, those that were missing, and the word. -/
theorem changeKind_holds (h : Holds text pre post p bodies) {kind : Units} {members : List Units}
    (hkind : conditionMembers kind = some members) :
    ∃ text' bodies', changeKind e (buffered e text) (pointerOf p.path) kind = buffered e text' ∧
      Holds text' pre post p bodies' ∧ (names bodies').Perm members ∧
      (∃ m ∈ bodies', piecesUnits m.name = op ∧ m.value.value e.number id = .str kind) ∧
      (∀ m ∈ bodies, piecesUnits m.name ∈ members → piecesUnits m.name ≠ op → m ∈ bodies') ∧
      ∀ m ∈ bodies', piecesUnits m.name = op ∨ m ∈ bodies ∨ m.value.value e.number id = blank (piecesUnits m.name) := by
  obtain ⟨hmembers, hop⟩ := conditionMembers_spec hkind
  have hkeys := objectKeys_perm (names bodies)
  obtain ⟨text₁, bodies₁, hnamed, hholds₁, ⟨m, hm, hname, hvalue⟩, hsame⟩ := named_holds (e := e) h kind
  have hpresent : ∀ x ∈ objectKeys (names bodies), x ≠ op → x ∉ members → x ∈ names bodies₁ := by
    intro x hx hne _
    obtain ⟨n, hn, rfl⟩ := exists_of_names (hkeys.mem_iff.mp hx)
    exact mem_names ((hsame n hne).mpr hn)
  obtain ⟨text₂, bodies₂, hdropped, hholds₂, hleft⟩ :=
    dropMembers_holds (e := e) (objectKeys (names bodies)) hholds₁ (hkeys.nodup_iff.mpr h.nodup) hpresent
  have hmissing : ∀ x ∈ members, x ≠ op → x ∉ objectKeys (names bodies) → x ∉ names bodies₂ := by
    intro x _ hne hnot hin
    obtain ⟨n, hn, rfl⟩ := exists_of_names hin
    exact hnot (hkeys.mem_iff.mpr (mem_names ((hsame n hne).mp ((hleft n).mp hn).1)))
  obtain ⟨text₃, bodies₃, hadded, hholds₃, hkept, honly, hall⟩ :=
    addMembers_holds (e := e) members members hholds₂ hmembers hmissing
  have hm₃ : m ∈ bodies₃ := hkept m ((hleft m).mpr ⟨hm, fun _ => Or.inl hname⟩)
  have hshared : ∀ n ∈ bodies, piecesUnits n.name ∈ members → piecesUnits n.name ≠ op → n ∈ bodies₃ := fun n hn hin hne =>
    hkept n ((hleft n).mpr ⟨(hsame n hne).mpr hn, fun _ => Or.inr hin⟩)
  refine ⟨text₃, bodies₃, ?_, hholds₃, ?_, ⟨m, hm₃, hname, hvalue⟩, hshared, fun n hn => ?_⟩
  · obtain ⟨d, inner, slots, rfl, rfl, htree, rfl⟩ := h
    have hspan := d.spanAt_place (e := e) htree
    obtain ⟨hnode, hread⟩ := Holds.nodeAt_eq (e := e) ⟨d, inner, slots, rfl, rfl, htree, rfl⟩
    obtain ⟨v, hv⟩ := Option.isSome_iff_exists.mp hread
    have hop' : op ∈ objectKeys (names (slots.map Slot.body)) ↔ op ∈ names (slots.map Slot.body) := hkeys.mem_iff
    rw [changeKind]
    simp only [buffered] at hspan hnode hv hnamed hdropped hadded ⊢
    simp only [hspan, hkind, hv, hnode, Option.bind_some, names_fieldsOf, hop', hnamed, hdropped, hadded]
  · rw [List.perm_ext_iff_of_nodup hholds₃.nodup hmembers]
    intro x
    constructor
    · intro hx
      obtain ⟨n, hn, rfl⟩ := exists_of_names hx
      rcases honly n hn with hn | hnew
      · obtain ⟨hn, hin⟩ := (hleft n).mp hn
        by_cases hne : piecesUnits n.name = op
        · rw [hne]
          exact hop
        · exact (hin (hkeys.mem_iff.mpr (mem_names ((hsame n hne).mp hn)))).resolve_left hne
      · exact hnew.1
    · intro hx
      by_cases hne : x = op
      · rw [hne, ← hname]
        exact mem_names hm₃
      · by_cases hin : x ∈ objectKeys (names bodies)
        · obtain ⟨n, hn, rfl⟩ := exists_of_names (hkeys.mem_iff.mp hin)
          exact mem_names (hshared n hn hx hne)
        · exact hall x hx hne hin
  · rcases honly n hn with hn | hnew
    · by_cases hne : piecesUnits n.name = op
      · exact Or.inl hne
      · exact Or.inr (Or.inl ((hsame n hne).mp ((hleft n).mp hn).1))
    · exact Or.inr (Or.inr hnew.2)

/-! ## A node in a group -/

/-- The value of a group with one condition. -/
def groupOf (kind : Units) (w : Value ν) : Value ν := .obj [(op, .str kind), (wordText "conditions", .arr [w])]

/-- A group with one condition, in some layout. -/
theorem exists_group (kind : Units) {c : Cst} (hc : c.Distinct) (first second opened closed last : Layout) :
    ∃ g : Cst, g.text = unit '\x7b' :: (first.1 ++ (wordText "\"op\": " ++ (JsonParse.stringify kind ++ (unit ',' ::
        (second.1 ++ (wordText "\"conditions\": [" ++ (opened.1 ++ (c.text ++ (closed.1 ++ (unit ']' ::
          (last.1 ++ [unit '\x7d']))))))))))) ∧
      g.Distinct ∧ ∀ n : Units → ν, g.value n id = groupOf kind (c.value n id) := by
  obtain ⟨ops, hops, hops'⟩ := stringify_word "op"
  obtain ⟨conditions, hconditions, hconditions'⟩ := stringify_word "conditions"
  obtain ⟨ps, htext, rfl⟩ := JsonParse.stringify_pieces kind
  have hop : quotedText ops = wordText "\"op\"" := hops.symm.trans (by decide)
  have hcs : quotedText conditions = wordText "\"conditions\"" := hconditions.symm.trans (by decide)
  refine ⟨.obj (.cons first ops noLayout spaceLayout (.str ps) noLayout (.last second conditions noLayout spaceLayout
    (.arr (.last opened c closed)) last)), ?_, ⟨?_, trivial, hc⟩, fun n => ?_⟩
  · simp only [Cst.text, CstMembers.text, CstItems.text, htext, hop, hcs]
    simp [noLayout, spaceLayout, wordText]
  · show [piecesUnits ops, piecesUnits conditions].Nodup
    rw [hops', hconditions']
    decide
  · show Value.obj [(piecesUnits ops, .str (piecesUnits ps)), (piecesUnits conditions, .arr [c.value n id])] = _
    rw [hops', hconditions']
    rfl

/-- What a group is written as, by the layout of the node. -/
theorem wrapInGroup_spec (d : Spelled text) {k : Cst} (h : d.tree = p.plug k) (kind : Units) :
    ∃ g : Cst, wrapInGroup e (buffered e text) (pointerOf p.path) kind =
        buffered e (text.take (d.spanAtPlace p k).valueStart ++ g.text ++ text.drop (d.spanAtPlace p k).valueEnd) ∧
      g.Distinct ∧ g.value e.number id = groupOf kind (k.value e.number id) := by
  have hk := Place.distinct_of_plug (h ▸ d.distinct)
  have hfits := layoutOf_fits (buffered e text) (pointerOf p.path)
  have hspan : spanAt (buffered e text).index (pointerOf p.path) = some (d.spanAtPlace p k) := d.spanAt_place h
  have hraw : slice (buffered e text).text (d.spanAtPlace p k).valueStart (d.spanAtPlace p k).valueEnd = k.text :=
    d.slice_place h
  unfold wrapInGroup
  simp only [hspan, hraw]
  generalize layoutOf (buffered e text) (pointerOf p.path) = layout at hfits ⊢
  by_cases hstep : layout.step = []
  · obtain ⟨g, htext, hdistinct, hvalue⟩ := exists_group (ν := ν) kind hk noLayout spaceLayout noLayout noLayout noLayout
    refine ⟨g, ?_, hdistinct, hvalue e.number⟩
    rw [if_pos hstep, htext]
    congr 3
    simp [noLayout, spaceLayout, wordText]
  · have hline : ∀ more : Units, more.all isLayout = true → (layout.eol ++ (layout.base ++ more)).all isLayout = true := by
      intro more hmore
      rw [List.all_append, List.all_append, hfits.eol.isLayout, hfits.base, hmore]
      rfl
    have hsteps : (layout.step ++ layout.step).all isLayout = true := by
      rw [List.all_append, hfits.step]
      rfl
    have hnew : (layout.eol ++ (layout.step ++ layout.step)).all isLayout = true := by
      rw [List.all_append, hfits.eol.isLayout, hsteps]
      rfl
    have hindent : indent k.text (layout.step ++ layout.step) layout.eol = (k.mapLayout (relaid layout.eol hnew)).text := by
      have htext := Cst.replaceAll_text hfits.eol hnew k []
      rwa [List.append_nil, replaceAll_nil, List.append_nil] at htext
    obtain ⟨g, htext, hdistinct, hvalue⟩ := exists_group (ν := ν) kind ((k.distinct_mapLayout (relaid layout.eol hnew)).mpr hk)
      ⟨_, hline _ hfits.step⟩ ⟨_, hline _ hfits.step⟩ ⟨_, hline _ hsteps⟩ ⟨_, hline _ hfits.step⟩ ⟨_, hline [] rfl⟩
    refine ⟨g, ?_, hdistinct, (hvalue e.number).trans ?_⟩
    · rw [if_neg hstep, htext, hindent]
      congr 3
      simp [List.intercalate, wordText]
    · rw [k.value_mapLayout]

/-! ## Edits of one node -/

/-- One value is another: the gate is open, the document says what it said but for the value, and no unit around the value
is another. -/
def EditedAt (e : Engine ν) (text : Units) (span : Span) (path : List Units) (v : Value ν) (next : Buffered ν) (w : Value ν) : Prop :=
  ∃ node, next = buffered e (text.take span.valueStart ++ node ++ text.drop span.valueEnd) ∧
    agreesWithParse e next.text next.index = [] ∧ JsonParse.parse e.number next.text = some (v.update (fun _ => w) path) ∧
    JsonParse.parse e.number node = some w

theorem splice_eq (d : Spelled text) {k : Cst} (h : d.tree = p.plug k) (node : Units) :
    text.take (d.spanAtPlace p k).valueStart ++ node ++ text.drop (d.spanAtPlace p k).valueEnd =
      (d.pre.1 ++ Place.head p) ++ (node ++ (Place.tail p ++ d.post.1)) := by
  rw [take_mid (d.text_place h) (by simp [Spelled.spanAtPlace, spanOf, Cst.entry]),
    drop_mid (d.text_place h) (by simp [Spelled.spanAtPlace, spanOf, Cst.entry]), List.append_assoc]

theorem editedAt_put (d : Spelled text) {k k' : Cst} (h : d.tree = p.plug k) (hk : k'.Distinct) :
    EditedAt e text (d.spanAtPlace p k) p.path (d.value e)
      (buffered e (text.take (d.spanAtPlace p k).valueStart ++ k'.text ++ text.drop (d.spanAtPlace p k).valueEnd))
      (k'.value e.number id) := by
  refine ⟨k'.text, rfl, ?_, ?_, ?_⟩
  · rw [splice_eq d h]
    exact agrees_of_spelled e (d.put h hk)
  · rw [splice_eq d h]
    exact ((d.put h hk).parse_eq e).trans (congrArg some (d.value_put h hk rfl))
  · exact (Spelled.mk noLayout k' noLayout (by simp [noLayout]) hk).parse_eq e

end

end ConditionOps

end Desk
