import Desk.Lib.JsonTree

/-!
# Places in JSON texts

A place in a tree is a path of frames, each a container with one child taken
out. It splits the text in front of and behind the value that stands there, and
gives the step names that lead to the value.
-/

namespace Desk

/-! ## Frames -/

/-- A container with a hole for the value of one child. -/
inductive Frame where
  | item (left : List (Slot Cst)) (pre post : Layout) (right : List (Slot Cst))
  | member (left : List (Slot Member)) (pre : Layout) (name : List Piece) (mid sep post : Layout)
      (right : List (Slot Member))

namespace Frame

def plug : Frame → Cst → Cst
  | item left pre post right, c => .items noLayout (left ++ ⟨pre, c, post⟩ :: right)
  | member left pre name mid sep post right, c => .members noLayout (left ++ ⟨pre, ⟨name, mid, sep, c⟩, post⟩ :: right)

def step : Frame → Units
  | item left _ _ _ => natText left.length
  | member _ _ name _ _ _ _ => piecesUnits name

def pre : Frame → Layout
  | item _ pre _ _ => pre
  | member _ pre _ _ _ _ _ => pre

def post : Frame → Layout
  | item _ _ post _ => post
  | member _ _ _ _ _ post _ => post

def label : Frame → Units
  | item _ _ _ _ => []
  | member _ _ name mid sep _ _ => quotedText name ++ (mid.1 ++ unit ':' :: sep.1)

def opens : Frame → UInt16
  | item _ _ _ _ => unit '['
  | member _ _ _ _ _ _ _ => unit '\x7b'

def closes : Frame → UInt16
  | item _ _ _ _ => unit ']'
  | member _ _ _ _ _ _ _ => unit '\x7d'

/-- The children in front of the hole. -/
def left : Frame → List (Slot Child)
  | item left _ _ _ => itemChildren 0 left
  | member left _ _ _ _ _ _ => memberChildren left

/-- The children behind the hole. -/
def right : Frame → List (Slot Child)
  | item left _ _ right => itemChildren (left.length + 1) right
  | member _ _ _ _ _ _ right => memberChildren right

/-- The child that stands in the hole. -/
def child (f : Frame) (c : Cst) : Slot Child := ⟨f.pre, ⟨f.step, f.label, c⟩, f.post⟩

/-- The text up to the member in the hole. -/
def head (f : Frame) : Units := f.opens :: (slotsBefore (f.left.map (Slot.map Child.text)) ++ f.pre.1)

/-- The text from the end of the member in the hole. -/
def tail (f : Frame) : Units := f.post.1 ++ (slotsAfter (f.right.map (Slot.map Child.text)) ++ [f.closes])

theorem children_plug (f : Frame) (c : Cst) : (f.plug c).children = f.left ++ f.child c :: f.right := by
  cases f with
  | item left pre post right =>
    rw [plug, Cst.children_items, itemChildren_append, itemChildren, Nat.zero_add]
    rfl
  | member left pre name mid sep post right =>
    rw [plug, Cst.children_members, memberChildren, List.map_append, List.map_cons]
    rfl

theorem text_plug (f : Frame) (c : Cst) : (f.plug c).text = f.head ++ (f.label ++ (c.text ++ f.tail)) := by
  cases f with
  | item left pre post right =>
    rw [plug, Cst.text_items, List.map_append, List.map_cons, inside_split]
    simp [head, tail, label, Frame.left, Frame.right, opens, closes, Frame.pre, Frame.post, map_text_itemChildren, Slot.text]
  | member left pre name mid sep post right =>
    rw [plug, Cst.text_members, List.map_append, List.map_cons, inside_split]
    simp [head, tail, label, Frame.left, Frame.right, opens, closes, Frame.pre, Frame.post, map_text_memberChildren, Slot.text,
      Member.text, Member.label]

end Frame

theorem itemChildren_split {i : Nat} {slots : List (Slot Cst)} {l : List (Slot Child)} {s : Slot Child} {r : List (Slot Child)}
    (h : itemChildren i slots = l ++ s :: r) : ∃ left t right, slots = left ++ t :: right ∧ l = itemChildren i left ∧
      s = t.map (.ofItem (i + left.length)) ∧ r = itemChildren (i + left.length + 1) right := by
  induction l generalizing i slots with
  | nil =>
    cases slots with
    | nil => cases h
    | cons t slots =>
      rw [itemChildren, List.nil_append, List.cons.injEq] at h
      exact ⟨[], t, slots, rfl, rfl, h.1.symm, h.2.symm⟩
  | cons u l ih =>
    cases slots with
    | nil => cases h
    | cons t slots =>
      rw [itemChildren, List.cons_append, List.cons.injEq] at h
      obtain ⟨left, t', right, rfl, rfl, rfl, rfl⟩ := ih h.2
      have hlength : i + 1 + left.length = i + (left.length + 1) := by omega
      refine ⟨t :: left, t', right, rfl, ?_, ?_, ?_⟩
      · rw [itemChildren, h.1]
      · rw [List.length_cons, hlength]
      · rw [List.length_cons, hlength]

/-- Each child of a tree stands in a frame. -/
theorem exists_frame {c : Cst} {l : List (Slot Child)} {s : Slot Child} {r : List (Slot Child)}
    (h : c.children = l ++ s :: r) :
    ∃ f : Frame, f.left = l ∧ f.right = r ∧ f.child s.body.value = s ∧ f.plug s.body.value = c := by
  rcases c.shape with hnone | ⟨slots, rfl⟩ | ⟨slots, rfl⟩
  · rw [hnone] at h
    cases l <;> cases h
  · rw [Cst.children_items] at h
    obtain ⟨left, t, right, rfl, rfl, rfl, rfl⟩ := itemChildren_split h
    refine ⟨.item left t.pre t.post right, rfl, ?_, ?_, rfl⟩
    · rw [Frame.right, Nat.zero_add]
    · rw [Nat.zero_add]
      rfl
  · rw [Cst.children_members] at h
    obtain ⟨left, rest, rfl, rfl, hrest⟩ := List.map_eq_append_iff.mp h
    obtain ⟨t, right, rfl, rfl, rfl⟩ := List.map_eq_cons_iff.mp hrest
    exact ⟨.member left t.pre t.body.name t.body.mid t.body.sep t.post right, rfl, rfl, rfl, rfl⟩

/-! ## Places -/

/-- A place of a tree: the frames from the root to a value. -/
abbrev Place : Type := List Frame

namespace Place

def plug (p : Place) (c : Cst) : Cst := p.foldr Frame.plug c

def path (p : Place) : List Units := p.map Frame.step

def head : Place → Units
  | [] => []
  | f :: p => f.head ++ (f.label ++ head p)

def tail : Place → Units
  | [] => []
  | f :: p => tail p ++ f.tail

/-- Where the member of a place starts in a tree that starts at `start`; `own` is where the member of the tree does. -/
def memberAt : Place → Nat → Nat → Nat
  | [], _, own => own
  | f :: p, start, _ => memberAt p (start + (f.head ++ f.label).length) (start + f.head.length)

/-- The layout in front of the member, `own` at the root. -/
def lead : Place → Units → Units
  | [], own => own
  | f :: p, _ => lead p f.pre.1

theorem plug_cons (f : Frame) (p : Place) (c : Cst) : plug (f :: p) c = f.plug (plug p c) := rfl

theorem plug_append (p q : Place) (c : Cst) : plug (p ++ q) c = plug p (plug q c) := List.foldr_append

theorem text_plug (p : Place) (c : Cst) : (plug p c).text = head p ++ (c.text ++ tail p) := by
  induction p with
  | nil => simp [plug, head, tail]
  | cons f p ih => rw [plug_cons, f.text_plug, ih]; simp [head, tail]

theorem head_append (p q : Place) : head (p ++ q) = head p ++ head q := by
  induction p with
  | nil => rfl
  | cons f p ih => simp [head, ih]

theorem tail_append (p q : Place) : tail (p ++ q) = tail q ++ tail p := by
  induction p with
  | nil => simp [tail]
  | cons f p ih => simp [tail, ih]

theorem memberAt_concat (p : Place) (f : Frame) (start own : Nat) :
    memberAt (p ++ [f]) start own = start + (head p ++ f.head).length := by
  induction p generalizing start own with
  | nil => rfl
  | cons g p ih =>
    rw [List.cons_append, memberAt, ih]
    simp only [head, List.length_append]
    omega

theorem lead_concat (p : Place) (f : Frame) (own : Units) : lead (p ++ [f]) own = f.pre.1 := by
  induction p generalizing own with
  | nil => rfl
  | cons g p ih => exact ih g.pre.1

end Place

/-! ## Where values stand -/

/-- A value of a text: its path, where it and its member stand, and the layout in front of the member. -/
structure Entry where
  path : List Units
  valueStart : Nat
  valueEnd : Nat
  memberStart : Nat
  lead : Units

/-- The entry of a tree itself. -/
def Cst.entry (c : Cst) (path : List Units) (start memberStart : Nat) (lead : Units) : Entry :=
  ⟨path, start, start + c.text.length, memberStart, lead⟩

mutual

/-- The values of a tree that starts at `start`, each after its children. -/
def Cst.entries : Cst → List Units → Nat → Nat → Units → List Entry
  | .arr items, path, start, memberStart, lead =>
    items.entries path 0 (start + 1) ++ [(Cst.arr items).entry path start memberStart lead]
  | .obj members, path, start, memberStart, lead =>
    members.entries path (start + 1) ++ [(Cst.obj members).entry path start memberStart lead]
  | c, path, start, memberStart, lead => [c.entry path start memberStart lead]

def CstItems.entries : CstItems → List Units → Nat → Nat → List Entry
  | .last pre v _, path, i, start =>
    v.entries (path ++ [natText i]) (start + pre.1.length) (start + pre.1.length) pre.1
  | .cons pre v post rest, path, i, start =>
    v.entries (path ++ [natText i]) (start + pre.1.length) (start + pre.1.length) pre.1 ++
      rest.entries path (i + 1) (start + (pre.1 ++ (v.text ++ post.1)).length + 1)

def CstMembers.entries : CstMembers → List Units → Nat → List Entry
  | .last pre name mid sep v _, path, start =>
    v.entries (path ++ [piecesUnits name]) (start + pre.1.length + (Member.mk name mid sep v).label.length)
      (start + pre.1.length) pre.1
  | .cons pre name mid sep v post rest, path, start =>
    v.entries (path ++ [piecesUnits name]) (start + pre.1.length + (Member.mk name mid sep v).label.length)
      (start + pre.1.length) pre.1 ++
      rest.entries path (start + (pre.1 ++ ((Member.mk name mid sep v).text ++ post.1)).length + 1)

end

/-- The entries under a container whose first slot starts at `start`. -/
def childEntries (path : List Units) : Nat → List (Slot Child) → List Entry
  | _, [] => []
  | start, s :: rest =>
    s.body.value.entries (path ++ [s.body.step]) (start + s.pre.1.length + s.body.label.length) (start + s.pre.1.length)
      s.pre.1 ++ childEntries path (start + (s.map Child.text).text.length + 1) rest

/-- The entries of the children themselves. -/
def ownEntries (path : List Units) : Nat → List (Slot Child) → List Entry
  | _, [] => []
  | start, s :: rest =>
    s.body.value.entry (path ++ [s.body.step]) (start + s.pre.1.length + s.body.label.length) (start + s.pre.1.length)
      s.pre.1 :: ownEntries path (start + (s.map Child.text).text.length + 1) rest

theorem CstItems.entries_eq : ∀ (c : CstItems) (path : List Units) (i start : Nat),
    c.entries path i start = childEntries path start (itemChildren i c.slots)
  | .last _ _ _, _, _, _ => by simp [entries, slots, itemChildren, childEntries, Child.ofItem]
  | .cons _ _ _ rest, path, i, start => by
    rw [entries, rest.entries_eq]
    simp [slots, itemChildren, childEntries, Child.ofItem, Slot.text, Child.text]

theorem CstMembers.entries_eq : ∀ (c : CstMembers) (path : List Units) (start : Nat),
    c.entries path start = childEntries path start (memberChildren c.slots)
  | .last _ _ _ _ _ _, _, _ => by simp [entries, slots, memberChildren, childEntries, Child.ofMember, Member.label]
  | .cons _ _ _ _ _ _ rest, path, start => by
    rw [entries, rest.entries_eq]
    simp [slots, memberChildren, childEntries, Child.ofMember, Member.label, Member.text, Slot.text, Child.text]

theorem Cst.entries_eq (c : Cst) (path : List Units) (start memberStart : Nat) (lead : Units) :
    c.entries path start memberStart lead =
      childEntries path (start + 1) c.children ++ [c.entry path start memberStart lead] := by
  cases c with
  | arr items => rw [entries, items.entries_eq]; rfl
  | obj members => rw [entries, members.entries_eq]; rfl
  | _ => rfl

theorem childEntries_append (path : List Units) (start : Nat) (l r : List (Slot Child)) :
    childEntries path start (l ++ r) = childEntries path start l ++
      childEntries path (start + (slotsBefore (l.map (Slot.map Child.text))).length) r := by
  induction l generalizing start with
  | nil => rfl
  | cons s l ih =>
    rw [List.cons_append, childEntries, childEntries, ih, List.append_assoc]
    congr 3
    simp [slotsBefore]
    omega

/-- What `childEntries` and `entries` are made of: the entries of the hole among those around it. -/
theorem Frame.entries_plug (f : Frame) (c : Cst) (path : List Units) (start memberStart : Nat) (lead : Units) :
    (f.plug c).entries path start memberStart lead =
      childEntries path (start + 1) f.left ++
        (c.entries (path ++ [f.step]) (start + (f.head ++ f.label).length) (start + f.head.length) f.pre.1 ++
          (childEntries path (start + (f.head ++ (f.label ++ (c.text ++ f.post.1))).length + 1) f.right ++
            [(f.plug c).entry path start memberStart lead])) := by
  rw [Cst.entries_eq, children_plug, childEntries_append, childEntries, List.append_assoc, List.append_assoc]
  simp only [child, Slot.text, Slot.map, Child.text]
  congr 2
  · congr 1
    · simp [head]; omega
    · simp [head]; omega
  · congr 2
    simp [head]; omega

/-! ## Steps and paths -/

/-- An entry under a container is under one of its children. -/
theorem mem_childEntries {path : List Units} {start : Nat} {slots : List (Slot Child)} {e : Entry}
    (he : e ∈ childEntries path start slots) : ∃ l s r, slots = l ++ s :: r ∧
      e ∈ s.body.value.entries (path ++ [s.body.step])
        (start + (slotsBefore (l.map (Slot.map Child.text))).length + s.pre.1.length + s.body.label.length)
        (start + (slotsBefore (l.map (Slot.map Child.text))).length + s.pre.1.length) s.pre.1 := by
  induction slots generalizing start with
  | nil => cases he
  | cons s rest ih =>
    rw [childEntries] at he
    rcases List.mem_append.mp he with he | he
    · exact ⟨[], s, rest, rfl, he⟩
    · obtain ⟨l, t, r, rfl, ht⟩ := ih he
      refine ⟨s :: l, t, r, rfl, ?_⟩
      have hlength : start + (slotsBefore ((s :: l).map (Slot.map Child.text))).length =
          start + (s.map Child.text).text.length + 1 + (slotsBefore (l.map (Slot.map Child.text))).length := by
        simp [slotsBefore]
        omega
      rw [hlength]
      exact ht

/-- The entries of a tree are under its path. -/
theorem Cst.entries_path : ∀ (c : Cst) (path : List Units) (start memberStart : Nat) (lead : Units),
    ∀ e ∈ c.entries path start memberStart lead, path <+: e.path := by
  apply Cst.childInduction
  intro c ih path start memberStart lead e he
  rw [c.entries_eq] at he
  rcases List.mem_append.mp he with he | he
  · obtain ⟨l, s, r, hsplit, hs⟩ := mem_childEntries he
    exact (List.prefix_append _ _).trans (ih s (by rw [hsplit]; simp) _ _ _ _ e hs)
  · rw [List.mem_singleton.mp he]
    exact List.prefix_refl _

/-- The entries under a child start with the step of the child. -/
theorem childEntries_path {path : List Units} {start : Nat} {slots : List (Slot Child)} {e : Entry}
    (he : e ∈ childEntries path start slots) : ∃ s ∈ slots, path ++ [s.body.step] <+: e.path := by
  obtain ⟨l, s, r, rfl, hs⟩ := mem_childEntries he
  exact ⟨s, by simp, s.body.value.entries_path _ _ _ _ e hs⟩

theorem childEntries_longer {path : List Units} {start : Nat} {slots : List (Slot Child)} {e : Entry}
    (he : e ∈ childEntries path start slots) : path.length < e.path.length := by
  obtain ⟨s, _, hpath⟩ := childEntries_path he
  have := hpath.length_le
  rw [List.length_append, List.length_singleton] at this
  omega

/-- The children are the entries one step longer. -/
theorem filter_childEntries (path : List Units) (start : Nat) (slots : List (Slot Child)) :
    (childEntries path start slots).filter (fun e => e.path.length == path.length + 1) = ownEntries path start slots := by
  induction slots generalizing start with
  | nil => rfl
  | cons s rest ih =>
    rw [childEntries, ownEntries, List.filter_append, ih, Cst.entries_eq, List.filter_append]
    have hdeep : (childEntries (path ++ [s.body.step]) (start + s.pre.1.length + s.body.label.length + 1)
        s.body.value.children).filter (fun e => e.path.length == path.length + 1) = [] := by
      rw [List.filter_eq_nil_iff]
      intro e he h
      have := childEntries_longer he
      rw [List.length_append, List.length_singleton] at this
      simp only [beq_iff_eq] at h
      omega
    rw [hdeep, List.nil_append, List.filter_cons_of_pos (by simp [Cst.entry])]
    rfl

/-- The steps of the children differ from that of the hole. -/
def Frame.Apart (f : Frame) : Prop := ∀ s ∈ f.left ++ f.right, s.body.step ≠ f.step

theorem Frame.apart_of_distinct {f : Frame} {c : Cst} (h : (f.plug c).Distinct) : f.Apart := by
  have hnodup := ((f.plug c).distinct_iff.mp h).1
  rw [f.children_plug, List.map_append, List.map_cons] at hnodup
  have hnot := (List.nodup_middle.mp hnodup)
  rw [List.nodup_cons, ← List.map_append] at hnot
  intro s hs hstep
  exact hnot.1 (List.mem_map.mpr ⟨s, hs, hstep⟩)

theorem Frame.distinct_of_plug {f : Frame} {c : Cst} (h : (f.plug c).Distinct) : c.Distinct := by
  refine ((f.plug c).distinct_iff.mp h).2 (f.child c) ?_
  rw [f.children_plug]
  exact List.mem_append_right _ List.mem_cons_self

theorem Place.distinct_of_plug {p : Place} {c : Cst} (h : (plug p c).Distinct) : c.Distinct := by
  induction p with
  | nil => exact h
  | cons f p ih => exact ih (Frame.distinct_of_plug h)

/-- Another value in the hole keeps the names distinct. -/
theorem Frame.distinct_plug {f : Frame} {c c' : Cst} (h : (f.plug c).Distinct) (hc : c'.Distinct) : (f.plug c').Distinct := by
  rw [Cst.distinct_iff, f.children_plug] at h ⊢
  refine ⟨?_, fun s hs => ?_⟩
  · have := h.1
    rw [List.map_append, List.map_cons] at this ⊢
    exact this
  · rcases List.mem_append.mp hs with hs | hs
    · exact h.2 s (List.mem_append_left _ hs)
    · rcases List.mem_cons.mp hs with rfl | hs
      · exact hc
      · exact h.2 s (List.mem_append_right _ (List.mem_cons_of_mem _ hs))

theorem Place.distinct_plug {p : Place} {c c' : Cst} (h : (plug p c).Distinct) (hc : c'.Distinct) : (plug p c').Distinct := by
  induction p with
  | nil => exact hc
  | cons f p ih => exact Frame.distinct_plug h (ih (Frame.distinct_of_plug h))

/-- Entries under another step are not under this one. -/
theorem not_prefix_of_step {path more q : List Units} {x y : Units} (hx : path ++ [x] <+: q) (h : x ≠ y) :
    ¬ path ++ [y] ++ more <+: q := by
  intro hy
  have hy := (List.prefix_append _ _).trans hy
  have hxy : path ++ [x] = path ++ [y] := by
    obtain ⟨a, ha⟩ := hx
    obtain ⟨b, hb⟩ := hy
    exact (List.append_inj (ha.trans hb.symm) (by simp)).1
  exact h (List.singleton_inj.mp (List.append_cancel_left hxy))

/-- Where the entries of the value at a place are among those of the tree. -/
theorem Place.entries_plug (p : Place) (c : Cst) (path : List Units) (start memberStart : Nat) (lead : Units) :
    ∃ l r, (plug p c).entries path start memberStart lead =
      l ++ (c.entries (path ++ p.path) (start + (head p).length) (p.memberAt start memberStart) (p.lead lead) ++ r) ∧
      ((plug p c).Distinct → ∀ e ∈ l ++ r, ¬ path ++ p.path <+: e.path) := by
  induction p generalizing path start memberStart lead with
  | nil =>
    rw [Place.path, List.map_nil, List.append_nil]
    exact ⟨[], [], by rw [List.nil_append, List.append_nil]; rfl, fun _ => nofun⟩
  | cons f p ih =>
    obtain ⟨l, r, heq, hnot⟩ := ih (path ++ [f.step]) (start + (f.head ++ f.label).length) (start + f.head.length) f.pre.1
    have hpath : path ++ Place.path (f :: p) = path ++ [f.step] ++ Place.path p := by simp [Place.path]
    have hhead : start + (head (f :: p)).length = start + (f.head ++ f.label).length + (head p).length := by
      simp only [head, List.length_append]
      omega
    rw [plug_cons, f.entries_plug, heq, hpath, hhead]
    generalize start + (f.head ++ (f.label ++ ((plug p c).text ++ f.post.1))).length + 1 = next
    refine ⟨childEntries path (start + 1) f.left ++ l,
      r ++ (childEntries path next f.right ++ [(f.plug (plug p c)).entry path start memberStart lead]), ?_, fun hd e he => ?_⟩
    · simp only [List.append_assoc]
      rfl
    · have hother : ∀ {at_ : Nat} {slots : List (Slot Child)}, (∀ s ∈ slots, s ∈ f.left ++ f.right) →
          e ∈ childEntries path at_ slots → ¬ path ++ [f.step] ++ Place.path p <+: e.path := by
        intro at_ slots hslots he
        obtain ⟨s, hs, hpre⟩ := childEntries_path he
        exact not_prefix_of_step hpre (Frame.apart_of_distinct hd s (hslots s hs))
      simp only [List.mem_append, List.mem_singleton] at he
      rcases he with (he | he) | he | he | rfl
      · exact hother (fun s => List.mem_append_left _) he
      · exact hnot (Frame.distinct_of_plug hd) e (List.mem_append_left _ he)
      · exact hnot (Frame.distinct_of_plug hd) e (List.mem_append_right _ he)
      · exact hother (fun s => List.mem_append_right _) he
      · intro hpre
        have hle := hpre.length_le
        simp only [Cst.entry, List.length_append, List.length_singleton] at hle
        omega

/-- Every entry is that of a value at a place. -/
theorem Cst.mem_entries : ∀ (c : Cst) {path : List Units} {start memberStart : Nat} {lead : Units} {e : Entry},
    e ∈ c.entries path start memberStart lead → ∃ (p : Place) (k : Cst), c = p.plug k ∧
      e = k.entry (path ++ p.path) (start + (Place.head p).length) (p.memberAt start memberStart) (p.lead lead) := by
  apply Cst.childInduction
  intro c ih path start memberStart lead e he
  rw [c.entries_eq] at he
  rcases List.mem_append.mp he with he | he
  · obtain ⟨l, s, r, hsplit, hs⟩ := mem_childEntries he
    obtain ⟨f, rfl, hright, hchild, hplug⟩ := exists_frame hsplit
    have hstart : start + 1 + (slotsBefore (f.left.map (Slot.map Child.text))).length + s.pre.1.length =
        start + f.head.length := by
      rw [← hchild]
      simp only [Frame.child, Frame.head, List.length_cons, List.length_append]
      omega
    rw [hstart, ← hchild] at hs
    obtain ⟨p, k, hk, rfl⟩ := ih s (by rw [hsplit]; simp) hs
    refine ⟨f :: p, k, ?_, ?_⟩
    · rw [Place.plug_cons, ← hk, hplug]
    · simp only [Place.path, Place.memberAt, Place.lead, Place.head, Frame.child, List.map_cons, List.append_assoc,
        List.singleton_append, List.length_append, Nat.add_assoc]
  · exact ⟨[], c, rfl, by rw [List.mem_singleton.mp he]; simp [Place.path, Place.head, Place.memberAt, Place.lead]⟩

theorem nodup_childEntries {path : List Units} {start : Nat} {slots : List (Slot Child)}
    (hsteps : (slots.map fun s => s.body.step).Nodup)
    (h : ∀ s ∈ slots, ∀ start memberStart lead,
      ((s.body.value.entries (path ++ [s.body.step]) start memberStart lead).map Entry.path).Nodup) :
    ((childEntries path start slots).map Entry.path).Nodup := by
  induction slots generalizing start with
  | nil => exact List.nodup_nil
  | cons s rest ih =>
    rw [List.map_cons, List.nodup_cons] at hsteps
    rw [childEntries, List.map_append, List.nodup_append]
    refine ⟨h s List.mem_cons_self _ _ _, ih hsteps.2 fun t ht => h t (List.mem_cons_of_mem _ ht), ?_⟩
    intro q hq q' hq' heq
    obtain ⟨e, he, rfl⟩ := List.mem_map.mp hq
    obtain ⟨e', he', rfl⟩ := List.mem_map.mp hq'
    obtain ⟨t, ht, hpre⟩ := childEntries_path he'
    have hne : t.body.step ≠ s.body.step := fun hstep => hsteps.1 (List.mem_map.mpr ⟨t, ht, hstep⟩)
    have hpre' := s.body.value.entries_path _ _ _ _ e he
    rw [heq, ← List.append_nil (path ++ [s.body.step])] at hpre'
    exact not_prefix_of_step hpre hne hpre'

/-- No two values of a tree have one path. -/
theorem Cst.nodup_entries : ∀ (c : Cst) {path : List Units} {start memberStart : Nat} {lead : Units}, c.Distinct →
    ((c.entries path start memberStart lead).map Entry.path).Nodup := by
  apply Cst.childInduction
  intro c ih path start memberStart lead hd
  obtain ⟨hsteps, hd⟩ := c.distinct_iff.mp hd
  rw [c.entries_eq, List.map_append, List.nodup_append]
  refine ⟨nodup_childEntries hsteps fun s hs start memberStart lead => ih s hs (hd s hs), by simp, ?_⟩
  intro q hq q' hq' heq
  obtain ⟨e, he, rfl⟩ := List.mem_map.mp hq
  have := childEntries_longer he
  rw [List.map_singleton, List.mem_singleton] at hq'
  rw [heq, hq'] at this
  exact Nat.lt_irrefl _ this

/-- Whether a path is one step longer than another. -/
def isChildOf (path q : List Units) : Bool := path.isPrefixOf q && q.length == path.length + 1

/-- The children of a container are found among all the values by their paths. -/
theorem Place.filter_children (p : Place) {c : Cst} (hd : (plug p c).Distinct) (start memberStart : Nat) (lead : Units) :
    ((plug p c).entries [] start memberStart lead).filter (fun e => isChildOf p.path e.path) =
      ownEntries p.path (start + (head p).length + 1) c.children := by
  obtain ⟨l, r, heq, hnot⟩ := p.entries_plug c [] start memberStart lead
  have hnone : ∀ part : List Entry, (∀ e ∈ part, e ∈ l ++ r) → part.filter (fun e => isChildOf p.path e.path) = [] := by
    intro part hpart
    rw [List.filter_eq_nil_iff]
    intro e he h
    rw [isChildOf, Bool.and_eq_true, List.isPrefixOf_iff_prefix] at h
    exact hnot hd e (hpart e he) h.1
  have hown : ∀ start : Nat, (childEntries p.path start c.children).filter (fun e => isChildOf p.path e.path) =
      ownEntries p.path start c.children := by
    intro start
    rw [← filter_childEntries]
    refine List.filter_congr fun e he => ?_
    obtain ⟨s, _, hpre⟩ := childEntries_path he
    rw [isChildOf, List.isPrefixOf_iff_prefix.mpr ((List.prefix_append _ _).trans hpre), Bool.true_and]
  rw [heq, List.filter_append, List.filter_append, hnone l fun e => List.mem_append_left _,
    hnone r fun e => List.mem_append_right _, List.nil_append, List.append_nil, List.nil_append, c.entries_eq,
    List.filter_append, hown, List.filter_cons_of_neg, List.filter_nil, List.append_nil]
  simp [isChildOf, Cst.entry]

/-- The value at a place is found by its path. -/
theorem Place.find_entry (p : Place) {c : Cst} (hd : (plug p c).Distinct) (start memberStart : Nat) (lead : Units) :
    ((plug p c).entries [] start memberStart lead).find? (fun e => e.path == p.path) =
      some (c.entry p.path (start + (head p).length) (p.memberAt start memberStart) (p.lead lead)) := by
  obtain ⟨l, r, heq, hnot⟩ := p.entries_plug c [] start memberStart lead
  rw [List.nil_append] at heq hnot
  have hl : l.find? (fun e => e.path == p.path) = none := by
    rw [List.find?_eq_none]
    intro e he h
    exact hnot hd e (List.mem_append_left _ he) (beq_iff_eq.mp h ▸ List.prefix_refl _)
  have hdeep : ∀ start, (childEntries p.path start c.children).find? (fun e => e.path == p.path) = none := by
    intro start
    rw [List.find?_eq_none]
    intro e he h
    have := childEntries_longer he
    rw [beq_iff_eq.mp h] at this
    exact Nat.lt_irrefl _ this
  rw [heq, List.find?_append, hl, Option.none_or, List.find?_append, c.entries_eq, List.find?_append, hdeep, Option.none_or,
    List.find?_cons_of_pos (by simp [Cst.entry])]
  rfl

/-! ## Values at paths -/

namespace Value

variable {ν : Type}

/-- The steps from a value and the values they lead to. -/
def children : Value ν → List (Units × Value ν)
  | .arr items => items.mapIdx fun i v => (natText i, v)
  | .obj members => members
  | _ => []

/-- The value that a path leads to. -/
def find (v : Value ν) : List Units → Option (Value ν)
  | [] => some v
  | x :: path => (v.children.find? fun m => m.1 == x).bind fun m => m.2.find path

/-- A value with `f` of it where step `x` leads. -/
def mapChild (x : Units) (f : Value ν → Value ν) : Value ν → Value ν
  | .arr items => .arr (items.mapIdx fun i v => if natText i = x then f v else v)
  | .obj members => .obj (members.map fun m => if m.1 = x then (m.1, f m.2) else m)
  | v => v

/-- A value with `f` of it where a path leads. -/
def update (f : Value ν → Value ν) : List Units → Value ν → Value ν
  | [] => f
  | x :: path => mapChild x (update f path)

end Value

theorem children_arr {ν : Type} (n : Units → ν) (k : Nat) (slots : List (Slot Cst)) :
    (slots.map fun s => s.body.value n id).mapIdx (fun i v => (natText (k + i), v)) =
      (itemChildren k slots).map fun s => (s.body.step, s.body.value.value n id) := by
  induction slots generalizing k with
  | nil => rfl
  | cons s slots ih =>
    rw [List.map_cons, List.mapIdx_cons, itemChildren, List.map_cons, ← ih (k + 1)]
    congr 1
    congr 1
    funext i v
    rw [Nat.add_assoc, Nat.add_comm 1 i]

/-- The children of the value of a tree are the values of its children. -/
theorem Cst.children_value {ν : Type} (n : Units → ν) (c : Cst) :
    (c.value n id).children = c.children.map fun s => (s.body.step, s.body.value.value n id) := by
  rcases c.shape with hnone | ⟨slots, rfl⟩ | ⟨slots, rfl⟩
  · rw [hnone]
    cases c with
    | arr items =>
      obtain ⟨s, rest, rfl⟩ := items.exists_ofSlots
      rw [children, CstItems.slots_ofSlots] at hnone
      cases hnone
    | obj members =>
      obtain ⟨s, rest, rfl⟩ := members.exists_ofSlots
      rw [children, CstMembers.slots_ofSlots] at hnone
      cases hnone
    | _ => rfl
  · rw [value_items, children_items, Value.children, ← children_arr]
    simp
  · rw [value_members n id rfl, children_members, Value.children, memberChildren, List.map_map]
    rfl

theorem Frame.find_child {ν : Type} (n : Units → ν) {f : Frame} (h : f.Apart) (c : Cst) :
    ((f.plug c).value n id).children.find? (fun m => m.1 == f.step) = some (f.step, c.value n id) := by
  rw [Cst.children_value, f.children_plug, List.map_append, List.find?_append]
  have hleft : (f.left.map fun s => (s.body.step, s.body.value.value n id)).find? (fun m => m.1 == f.step) = none := by
    rw [List.find?_eq_none]
    intro m hm hstep
    obtain ⟨s, hs, rfl⟩ := List.mem_map.mp hm
    exact h s (List.mem_append_left _ hs) (beq_iff_eq.mp hstep)
  rw [hleft, Option.none_or, List.map_cons, List.find?_cons_of_pos (by simp [child])]
  rfl

/-- A path leads to a value exactly when it is that of a place where the value stands. -/
theorem Cst.find_value {ν : Type} (n : Units → ν) : ∀ (q : List Units) {c : Cst} {w : Value ν}, c.Distinct →
    ((c.value n id).find q = some w ↔ ∃ (p : Place) (k : Cst), c = p.plug k ∧ p.path = q ∧ k.value n id = w)
  | [], c, w, _ => by
    rw [Value.find, Option.some.injEq]
    constructor
    · rintro rfl
      exact ⟨[], c, rfl, rfl, rfl⟩
    · rintro ⟨p, k, rfl, hp, hw⟩
      rw [Place.path, List.map_eq_nil_iff] at hp
      rw [hp]
      exact hw
  | x :: q, c, w, hd => by
    rw [Value.find, Option.bind_eq_some_iff]
    constructor
    · rintro ⟨m, hm, hw⟩
      obtain ⟨hx, l, r, hsplit, _⟩ := List.find?_eq_some_iff_append.mp hm
      rw [children_value] at hsplit
      obtain ⟨cl, rest, hc, rfl, hrest⟩ := List.map_eq_append_iff.mp hsplit
      obtain ⟨s, cr, rfl, rfl, rfl⟩ := List.map_eq_cons_iff.mp hrest
      obtain ⟨f, rfl, rfl, hchild, hplug⟩ := exists_frame hc
      have hvalue : s.body.value.Distinct := (c.distinct_iff.mp hd).2 s (by rw [hc]; simp)
      obtain ⟨p, k, hk, hp, hw⟩ := (find_value n q hvalue).mp hw
      refine ⟨f :: p, k, by rw [Place.plug_cons, ← hk, hplug], ?_, hw⟩
      rw [Place.path, List.map_cons, ← Place.path, hp, ← beq_iff_eq.mp hx, ← hchild]
      rfl
    · rintro ⟨p, k, rfl, hp, hw⟩
      cases p with
      | nil => cases hp
      | cons f p =>
        rw [Place.path, List.map_cons, List.cons.injEq] at hp
        rw [Place.plug_cons, ← hp.1, f.find_child n (Frame.apart_of_distinct hd)]
        exact ⟨_, rfl, (find_value n q (Frame.distinct_of_plug hd)).mpr ⟨p, k, rfl, hp.2, hw⟩⟩

namespace Value

variable {ν : Type}

theorem children_mapChild (x : Units) (f : Value ν → Value ν) (v : Value ν) :
    (v.mapChild x f).children = v.children.map fun m => if m.1 = x then (m.1, f m.2) else m := by
  cases v with
  | arr items =>
    refine List.ext_getElem (by simp [mapChild, children]) fun i _ _ => ?_
    simp only [mapChild, children, List.getElem_mapIdx, List.getElem_map]
    split <;> rfl
  | _ => rfl

theorem find?_mapChild (x y : Units) (f : Value ν → Value ν) (ms : List (Units × Value ν)) :
    (ms.map fun m => if m.1 = x then (m.1, f m.2) else m).find? (fun m => m.1 == y) =
      (ms.find? fun m => m.1 == y).map fun m => if y = x then (m.1, f m.2) else m := by
  rw [List.find?_map]
  have hkey : ((fun m : Units × Value ν => m.1 == y) ∘ fun m => if m.1 = x then (m.1, f m.2) else m) = fun m => m.1 == y := by
    funext m
    rw [Function.comp_apply]
    split <;> rfl
  rw [hkey]
  cases hfind : ms.find? fun m => m.1 == y with
  | none => rfl
  | some m =>
    have hy : m.1 = y := by simpa using List.find?_some hfind
    rw [Option.map_some, Option.map_some, hy]

theorem find_append (path q : List Units) (v : Value ν) : v.find (path ++ q) = (v.find path).bind fun c => c.find q := by
  induction path generalizing v with
  | nil => rfl
  | cons x path ih =>
    rw [List.cons_append, find, find, Option.bind_assoc]
    exact congrArg _ (funext fun m => ih m.2)

/-- Where an edit was made, and below. -/
theorem find_update_below (g : Value ν → Value ν) (path q : List Units) (v : Value ν) :
    (v.update g path).find (path ++ q) = (v.find path).bind fun c => (g c).find q := by
  induction path generalizing v with
  | nil => rfl
  | cons x path ih =>
    rw [List.cons_append, update, find, children_mapChild, find?_mapChild, find]
    cases v.children.find? fun m => m.1 == x with
    | none => rfl
    | some m =>
      simp only [Option.map_some, Option.bind_some, if_true]
      exact ih m.2

theorem update_concat (g : Value ν → Value ν) (path : List Units) (x : Units) (v : Value ν) :
    v.update g (path ++ [x]) = v.update (mapChild x g) path := by
  induction path generalizing v with
  | nil => rfl
  | cons y path ih =>
    rw [List.cons_append, update, update]
    exact congrArg (fun f => mapChild y f v) (funext ih)

/-- A path that neither leads to an edit nor comes from it reads what it read. -/
theorem find_update_apart (g : Value ν → Value ν) (path : List Units) : ∀ {q : List Units} (v : Value ν), ¬ path <+: q →
    ¬ q <+: path → (v.update g path).find q = v.find q := by
  induction path with
  | nil => exact fun v h _ => absurd List.nil_prefix h
  | cons x path ih =>
    intro q v hbelow habove
    cases q with
    | nil => exact absurd List.nil_prefix habove
    | cons y q =>
      rw [List.cons_prefix_cons, not_and] at hbelow habove
      rw [update, find, children_mapChild, find?_mapChild, find]
      cases v.children.find? fun m => m.1 == y with
      | none => rfl
      | some m =>
        simp only [Option.map_some, Option.bind_some]
        by_cases hyx : y = x
        · rw [if_pos hyx]
          exact ih m.2 (hbelow hyx.symm) (habove hyx)
        · rw [if_neg hyx]

end Value

/-! ## Edits of values -/

/-- An edit at another index leaves a run of items. -/
theorem mapIdx_of_ne {ν : Type} {l : List (Value ν)} {k i : Nat} (g : Value ν → Value ν)
    (h : ∀ j < l.length, j + k ≠ i) :
    l.mapIdx (fun j v => if natText (j + k) = natText i then g v else v) = l := by
  apply List.ext_getElem (by simp)
  intro j hj hj'
  rw [List.getElem_mapIdx, if_neg]
  intro he
  exact h j hj' (natText_injective he)

/-- An edit of another name leaves a run of members. -/
theorem map_of_ne {ν : Type} {x : Units} {ms : List (Units × Value ν)} (g : Value ν → Value ν) (h : ∀ m ∈ ms, m.1 ≠ x) :
    ms.map (fun m => if m.1 = x then (m.1, g m.2) else m) = ms := by
  conv_rhs => rw [← List.map_id ms]
  exact List.map_congr_left fun m hm => if_neg (h m hm)

/-- An edit of the value in the hole is an edit of the container at its step. -/
theorem Frame.mapChild_plug {ν : Type} (n : Units → ν) {f : Frame} (h : f.Apart) {c c' : Cst} {g : Value ν → Value ν}
    (hg : g (c.value n id) = c'.value n id) :
    ((f.plug c).value n id).mapChild f.step g = (f.plug c').value n id := by
  cases f with
  | item left pre post right =>
    have hl := mapIdx_of_ne (l := left.map fun s => s.body.value n id) (k := 0) (i := left.length) g (by simp; omega)
    have hr := mapIdx_of_ne (l := right.map fun s => s.body.value n id) (k := 1 + left.length) (i := left.length) g
      (by omega)
    simp only [Nat.add_zero] at hl
    rw [plug, plug, Cst.value_items, Cst.value_items, Value.mapChild, step, List.map_append, List.map_append,
      List.mapIdx_append, hl, List.map_cons, List.map_cons, List.mapIdx_cons, List.length_map, Nat.zero_add, if_pos rfl, hg]
    simp only [Nat.add_assoc, hr]
  | member left pre name mid sep post right =>
    have hne : ∀ {part : List (Slot Member)}, (∀ s ∈ memberChildren part, s.body.step ≠ piecesUnits name) →
        ∀ m ∈ part.map (fun s => (piecesUnits s.body.name, s.body.value.value n id)), m.1 ≠ piecesUnits name := by
      intro part hpart m hm
      obtain ⟨s, hs, rfl⟩ := List.mem_map.mp hm
      exact hpart _ (List.mem_map.mpr ⟨s, hs, rfl⟩)
    rw [plug, plug, Cst.value_members n id rfl, Cst.value_members n id rfl, Value.mapChild, step, id, id, List.map_append,
      List.map_append, List.map_append, map_of_ne g (hne fun s hs => h s (List.mem_append_left _ hs)), List.map_cons,
      List.map_cons, List.map_cons, if_pos rfl, hg, map_of_ne g (hne fun s hs => h s (List.mem_append_right _ hs))]

/-- An edit of the value at a place is an edit of the value at its path. -/
theorem Place.update_plug {ν : Type} (n : Units → ν) (p : Place) {c c' : Cst} (hd : (plug p c).Distinct)
    {g : Value ν → Value ν} (hg : g (c.value n id) = c'.value n id) :
    ((plug p c).value n id).update g p.path = (plug p c').value n id := by
  induction p with
  | nil => exact hg
  | cons f p ih => exact Frame.mapChild_plug n (Frame.apart_of_distinct hd) (ih (Frame.distinct_of_plug hd))

end Desk
