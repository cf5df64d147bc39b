import Desk.Lib.JsonParse
import Desk.Lib.JsonWrite

/-!
# Containers of JSON texts

The children of an array or an object as slots between commas, the places in a
tree as paths of frames, and where in the text each value and its member stand.
-/

namespace Desk

/-! ## Slots -/

/-- What stands between two commas of a container, and the layout around it. -/
structure Slot (β : Type) where
  pre : Layout
  body : β
  post : Layout

namespace Slot

variable {β γ : Type}

def map (f : β → γ) (s : Slot β) : Slot γ := ⟨s.pre, f s.body, s.post⟩

@[simp] theorem map_pre (f : β → γ) (s : Slot β) : (s.map f).pre = s.pre := rfl

@[simp] theorem map_body (f : β → γ) (s : Slot β) : (s.map f).body = f s.body := rfl

@[simp] theorem map_post (f : β → γ) (s : Slot β) : (s.map f).post = s.post := rfl

def text (s : Slot Units) : Units := s.pre.1 ++ (s.body ++ s.post.1)

end Slot

/-- The text between the brackets: of an empty container, its layout. -/
def inside (inner : Layout) : List (Slot Units) → Units
  | [] => inner.1
  | slots => commas (slots.map Slot.text)

/-- Slots with the comma after each. -/
def slotsBefore (slots : List (Slot Units)) : Units := slots.flatMap fun s => s.text ++ [unit ',']

/-- Slots with the comma in front of each. -/
def slotsAfter (slots : List (Slot Units)) : Units := slots.flatMap fun s => unit ',' :: s.text

theorem commas_cons (t : Units) (rest : List Units) : commas (t :: rest) = t ++ rest.flatMap (unit ',' :: ·) := by
  induction rest generalizing t with
  | nil => simp [commas]
  | cons u rest ih => rw [commas, ih, List.flatMap_cons, List.cons_append]; exact List.cons_ne_nil u rest

theorem commas_split (left : List Units) (t : Units) (right : List Units) :
    commas (left ++ t :: right) = left.flatMap (· ++ [unit ',']) ++ (t ++ right.flatMap (unit ',' :: ·)) := by
  induction left with
  | nil => exact commas_cons t right
  | cons u left ih =>
    have hne : left ++ t :: right ≠ [] := by simp
    rw [List.cons_append, commas, ih, List.flatMap_cons, List.append_assoc, List.append_assoc, List.singleton_append]
    exact hne

theorem inside_split (inner : Layout) (left : List (Slot Units)) (s : Slot Units) (right : List (Slot Units)) :
    inside inner (left ++ s :: right) = slotsBefore left ++ (s.text ++ slotsAfter right) := by
  have hinside : ∀ slots : List (Slot Units), slots ≠ [] → inside inner slots = commas (slots.map Slot.text) := by
    intro slots h
    cases slots with
    | nil => exact absurd rfl h
    | cons s slots => rfl
  rw [hinside _ (by simp), List.map_append, List.map_cons, commas_split, List.flatMap_map, List.flatMap_map]
  rfl

/-! ## Containers -/

/-- A member of an object, without the layout around it. -/
structure Member where
  name : List Piece
  mid : Layout
  sep : Layout
  value : Cst

namespace Member

/-- The name and the colon, up to the value. -/
def label (m : Member) : Units := quotedText m.name ++ (m.mid.1 ++ unit ':' :: m.sep.1)

def text (m : Member) : Units := m.label ++ m.value.text

end Member

def CstItems.ofSlots (s : Slot Cst) : List (Slot Cst) → CstItems
  | [] => .last s.pre s.body s.post
  | t :: rest => .cons s.pre s.body s.post (.ofSlots t rest)

def CstMembers.ofSlots (s : Slot Member) : List (Slot Member) → CstMembers
  | [] => .last s.pre s.body.name s.body.mid s.body.sep s.body.value s.post
  | t :: rest => .cons s.pre s.body.name s.body.mid s.body.sep s.body.value s.post (.ofSlots t rest)

def CstItems.slots : CstItems → List (Slot Cst)
  | .last pre v post => [⟨pre, v, post⟩]
  | .cons pre v post rest => ⟨pre, v, post⟩ :: rest.slots

def CstMembers.slots : CstMembers → List (Slot Member)
  | .last pre name mid sep v post => [⟨pre, ⟨name, mid, sep, v⟩, post⟩]
  | .cons pre name mid sep v post rest => ⟨pre, ⟨name, mid, sep, v⟩, post⟩ :: rest.slots

namespace Cst

/-- The array of slots; `inner` stands between its brackets when there is none. -/
def items (inner : Layout) : List (Slot Cst) → Cst
  | [] => .noItems inner
  | s :: rest => .arr (.ofSlots s rest)

def members (inner : Layout) : List (Slot Member) → Cst
  | [] => .noMembers inner
  | s :: rest => .obj (.ofSlots s rest)

end Cst

theorem CstItems.slots_ofSlots (s : Slot Cst) (rest : List (Slot Cst)) : (CstItems.ofSlots s rest).slots = s :: rest := by
  induction rest generalizing s with
  | nil => rfl
  | cons t rest ih => rw [ofSlots, slots, ih]

theorem CstMembers.slots_ofSlots (s : Slot Member) (rest : List (Slot Member)) :
    (CstMembers.ofSlots s rest).slots = s :: rest := by
  induction rest generalizing s with
  | nil => rfl
  | cons t rest ih => rw [ofSlots, slots, ih]

theorem CstItems.exists_ofSlots : ∀ c : CstItems, ∃ s rest, c = .ofSlots s rest
  | .last pre v post => ⟨⟨pre, v, post⟩, [], rfl⟩
  | .cons pre v post rest => by
    obtain ⟨s, more, rfl⟩ := rest.exists_ofSlots
    exact ⟨⟨pre, v, post⟩, s :: more, rfl⟩

theorem CstMembers.exists_ofSlots : ∀ c : CstMembers, ∃ s rest, c = .ofSlots s rest
  | .last pre name mid sep v post => ⟨⟨pre, ⟨name, mid, sep, v⟩, post⟩, [], rfl⟩
  | .cons pre name mid sep v post rest => by
    obtain ⟨s, more, rfl⟩ := rest.exists_ofSlots
    exact ⟨⟨pre, ⟨name, mid, sep, v⟩, post⟩, s :: more, rfl⟩

theorem CstItems.text_ofSlots (s : Slot Cst) (rest : List (Slot Cst)) :
    (CstItems.ofSlots s rest).text = inside noLayout ((s :: rest).map (Slot.map Cst.text)) ++ [unit ']'] := by
  induction rest generalizing s with
  | nil => simp [ofSlots, text, inside, commas, Slot.text]
  | cons t rest ih =>
    rw [ofSlots, text, ih]
    simp [inside, commas, Slot.text]

theorem CstMembers.text_ofSlots (s : Slot Member) (rest : List (Slot Member)) :
    (CstMembers.ofSlots s rest).text = inside noLayout ((s :: rest).map (Slot.map Member.text)) ++ [unit '\x7d'] := by
  induction rest generalizing s with
  | nil => simp [ofSlots, text, inside, commas, Slot.text, Member.text, Member.label]
  | cons t rest ih =>
    rw [ofSlots, text, ih]
    simp [inside, commas, Slot.text, Member.text, Member.label]

namespace Cst

theorem text_items (inner : Layout) (slots : List (Slot Cst)) :
    (items inner slots).text = unit '[' :: (inside inner (slots.map (Slot.map Cst.text)) ++ [unit ']']) := by
  cases slots with
  | nil => rfl
  | cons s rest => rw [items, Cst.text, CstItems.text_ofSlots]; rfl

theorem text_members (inner : Layout) (slots : List (Slot Member)) :
    (members inner slots).text = unit '\x7b' :: (inside inner (slots.map (Slot.map Member.text)) ++ [unit '\x7d']) := by
  cases slots with
  | nil => rfl
  | cons s rest => rw [members, Cst.text, CstMembers.text_ofSlots]; rfl

end Cst

/-! ## Children -/

/-- A child of a container: its step of a path, what is written in front of its value, and the value. -/
structure Child where
  step : Units
  label : Units
  value : Cst

def Child.text (c : Child) : Units := c.label ++ c.value.text

def Child.ofItem (i : Nat) (v : Cst) : Child := ⟨natText i, [], v⟩

def Child.ofMember (m : Member) : Child := ⟨piecesUnits m.name, m.label, m.value⟩

/-- The items of an array from its `i`-th on. -/
def itemChildren : Nat → List (Slot Cst) → List (Slot Child)
  | _, [] => []
  | i, s :: rest => s.map (.ofItem i) :: itemChildren (i + 1) rest

def memberChildren (slots : List (Slot Member)) : List (Slot Child) := slots.map (Slot.map .ofMember)

namespace Cst

def children : Cst → List (Slot Child)
  | .arr items => itemChildren 0 items.slots
  | .obj members => memberChildren members.slots
  | _ => []

theorem children_items (inner : Layout) (slots : List (Slot Cst)) : (items inner slots).children = itemChildren 0 slots := by
  cases slots with
  | nil => rfl
  | cons s rest => rw [items, children, CstItems.slots_ofSlots]

theorem children_members (inner : Layout) (slots : List (Slot Member)) :
    (members inner slots).children = memberChildren slots := by
  cases slots with
  | nil => rfl
  | cons s rest => rw [members, children, CstMembers.slots_ofSlots]

/-- A value that is no container, or one with its slots. -/
theorem shape (c : Cst) : c.children = [] ∨ (∃ slots, c = items noLayout slots) ∨ ∃ slots, c = members noLayout slots := by
  cases c with
  | arr items =>
    obtain ⟨s, rest, rfl⟩ := items.exists_ofSlots
    exact Or.inr (Or.inl ⟨s :: rest, rfl⟩)
  | obj members =>
    obtain ⟨s, rest, rfl⟩ := members.exists_ofSlots
    exact Or.inr (Or.inr ⟨s :: rest, rfl⟩)
  | _ => exact Or.inl rfl

end Cst

theorem itemChildren_append (i : Nat) (left right : List (Slot Cst)) :
    itemChildren i (left ++ right) = itemChildren i left ++ itemChildren (i + left.length) right := by
  induction left generalizing i with
  | nil => rfl
  | cons s left ih =>
    rw [List.cons_append, itemChildren, itemChildren, ih, List.cons_append, List.length_cons]
    congr 3
    omega

theorem length_itemChildren (i : Nat) (slots : List (Slot Cst)) : (itemChildren i slots).length = slots.length := by
  induction slots generalizing i with
  | nil => rfl
  | cons s slots ih => rw [itemChildren, List.length_cons, List.length_cons, ih]

theorem mem_itemChildren (i : Nat) {slots : List (Slot Cst)} {s : Slot Cst} (h : s ∈ slots) :
    ∃ t ∈ itemChildren i slots, t.body.value = s.body := by
  induction slots generalizing i with
  | nil => cases h
  | cons u slots ih =>
    rcases List.mem_cons.mp h with rfl | h
    · exact ⟨_, List.mem_cons_self, rfl⟩
    · obtain ⟨t, ht, hvalue⟩ := ih (i + 1) h
      exact ⟨t, List.mem_cons_of_mem _ ht, hvalue⟩

theorem mem_of_itemChildren {i : Nat} {slots : List (Slot Cst)} {s : Slot Child} (h : s ∈ itemChildren i slots) :
    ∃ t ∈ slots, s.body.value = t.body := by
  induction slots generalizing i with
  | nil => cases h
  | cons u slots ih =>
    rcases List.mem_cons.mp h with rfl | h
    · exact ⟨u, List.mem_cons_self, rfl⟩
    · obtain ⟨t, ht, hvalue⟩ := ih h
      exact ⟨t, List.mem_cons_of_mem _ ht, hvalue⟩

theorem map_text_itemChildren (i : Nat) (slots : List (Slot Cst)) :
    (itemChildren i slots).map (Slot.map Child.text) = slots.map (Slot.map Cst.text) := by
  induction slots generalizing i with
  | nil => rfl
  | cons s slots ih => rw [itemChildren, List.map_cons, List.map_cons, ih]; rfl

theorem map_text_memberChildren (slots : List (Slot Member)) :
    (memberChildren slots).map (Slot.map Child.text) = slots.map (Slot.map Member.text) := by
  rw [memberChildren, List.map_map]
  rfl

mutual

/-- A property of trees holds if each tree inherits it from its children. -/
theorem Cst.childInduction {P : Cst → Prop} (h : ∀ c : Cst, (∀ s ∈ c.children, P s.body.value) → P c) : ∀ c : Cst, P c
  | .null => h _ nofun
  | .bool _ => h _ nofun
  | .num _ => h _ nofun
  | .str _ => h _ nofun
  | .noItems _ => h _ nofun
  | .noMembers _ => h _ nofun
  | .arr items => h _ (items.childInduction h 0)
  | .obj members => h _ (members.childInduction h)

theorem CstItems.childInduction {P : Cst → Prop} (h : ∀ c : Cst, (∀ s ∈ c.children, P s.body.value) → P c) :
    ∀ (c : CstItems) (i : Nat), ∀ s ∈ itemChildren i c.slots, P s.body.value
  | .last _ v _, _, s, hs => by
    rw [List.mem_singleton.mp hs]
    exact v.childInduction h
  | .cons _ v _ rest, i, s, hs => by
    rcases List.mem_cons.mp hs with rfl | hs
    · exact v.childInduction h
    · exact rest.childInduction h (i + 1) s hs

theorem CstMembers.childInduction {P : Cst → Prop} (h : ∀ c : Cst, (∀ s ∈ c.children, P s.body.value) → P c) :
    ∀ (c : CstMembers), ∀ s ∈ memberChildren c.slots, P s.body.value
  | .last _ _ _ _ v _, s, hs => by
    rw [List.mem_singleton.mp hs]
    exact v.childInduction h
  | .cons _ _ _ _ v _ rest, s, hs => by
    rcases List.mem_cons.mp hs with rfl | hs
    · exact v.childInduction h
    · exact rest.childInduction h s hs

end

/-! ## Repeated names -/

mutual

/-- No object of the tree repeats a name. -/
def Cst.Distinct : Cst → Prop
  | .arr items => items.Distinct
  | .obj members => (members.slots.map fun s => piecesUnits s.body.name).Nodup ∧ members.Distinct
  | _ => True

def CstItems.Distinct : CstItems → Prop
  | .last _ v _ => v.Distinct
  | .cons _ v _ rest => v.Distinct ∧ rest.Distinct

def CstMembers.Distinct : CstMembers → Prop
  | .last _ _ _ _ v _ => v.Distinct
  | .cons _ _ _ _ v _ rest => v.Distinct ∧ rest.Distinct

end

theorem natText_injective {m n : Nat} (h : natText m = natText n) : m = n := by
  rw [← digitsValue_natText m, h, digitsValue_natText]

/-- The items after the `i`-th have other steps. -/
theorem step_itemChildren_ne {i j : Nat} {slots : List (Slot Cst)} {s : Slot Child} (hs : s ∈ itemChildren j slots)
    (h : i < j) : s.body.step ≠ natText i := by
  induction slots generalizing j with
  | nil => cases hs
  | cons t slots ih =>
    rcases List.mem_cons.mp hs with rfl | hs
    · intro he
      have := natText_injective he
      omega
    · exact ih hs (by omega)

theorem nodup_itemChildren (i : Nat) (slots : List (Slot Cst)) :
    ((itemChildren i slots).map fun s => s.body.step).Nodup := by
  induction slots generalizing i with
  | nil => exact List.nodup_nil
  | cons s slots ih =>
    rw [itemChildren, List.map_cons, List.nodup_cons]
    refine ⟨fun hmem => ?_, ih (i + 1)⟩
    obtain ⟨t, ht, hstep⟩ := List.mem_map.mp hmem
    exact step_itemChildren_ne ht (Nat.lt_succ_self i) hstep

theorem CstItems.distinct_iff : ∀ (c : CstItems) (i : Nat), c.Distinct ↔ ∀ s ∈ itemChildren i c.slots, s.body.value.Distinct
  | .last _ v _, i => by simp [Distinct, slots, itemChildren, Child.ofItem]
  | .cons _ v _ rest, i => by
    rw [Distinct, rest.distinct_iff (i + 1)]
    simp [slots, itemChildren, Child.ofItem]

theorem CstMembers.distinct_iff : ∀ c : CstMembers, c.Distinct ↔ ∀ s ∈ memberChildren c.slots, s.body.value.Distinct
  | .last _ _ _ _ v _ => by simp [Distinct, slots, memberChildren, Child.ofMember]
  | .cons _ _ _ _ v _ rest => by
    rw [Distinct, rest.distinct_iff]
    simp [slots, memberChildren, Child.ofMember]

theorem Cst.distinct_iff (c : Cst) : c.Distinct ↔
    (c.children.map fun s => s.body.step).Nodup ∧ ∀ s ∈ c.children, s.body.value.Distinct := by
  cases c with
  | arr items =>
    rw [Distinct, items.distinct_iff 0]
    exact ⟨fun h => ⟨nodup_itemChildren 0 _, h⟩, And.right⟩
  | obj members =>
    rw [Distinct, members.distinct_iff, children, memberChildren, List.map_map]
    rfl
  | _ => exact ⟨fun _ => ⟨List.nodup_nil, nofun⟩, fun _ => trivial⟩


/-! ## Values -/

section
variable {ν : Type} (toNumber : Units → ν) (entries : List (Units × Value ν) → List (Units × Value ν))

mutual

/-- What a tree says, with what is made of the members of an object. -/
def Cst.value : Cst → Value ν
  | .null => .null
  | .bool b => .bool b
  | .num n => .num (toNumber n.1)
  | .str ps => .str (piecesUnits ps)
  | .noItems _ => .arr []
  | .arr items => .arr items.values
  | .noMembers _ => .obj []
  | .obj members => .obj (entries members.values)

def CstItems.values : CstItems → List (Value ν)
  | .last _ v _ => [v.value]
  | .cons _ v _ rest => v.value :: rest.values

def CstMembers.values : CstMembers → List (Units × Value ν)
  | .last _ name _ _ v _ => [(piecesUnits name, v.value)]
  | .cons _ name _ _ v _ rest => (piecesUnits name, v.value) :: rest.values

end

theorem CstItems.values_eq : ∀ c : CstItems, c.values toNumber entries = c.slots.map fun s => s.body.value toNumber entries
  | .last _ _ _ => rfl
  | .cons _ _ _ rest => by rw [values, rest.values_eq]; rfl

theorem CstMembers.values_eq : ∀ c : CstMembers, c.values toNumber entries =
    c.slots.map fun s => (piecesUnits s.body.name, s.body.value.value toNumber entries)
  | .last _ _ _ _ _ _ => rfl
  | .cons _ _ _ _ _ _ rest => by rw [values, rest.values_eq]; rfl

theorem Cst.value_items (inner : Layout) (slots : List (Slot Cst)) :
    (items inner slots).value toNumber entries = .arr (slots.map fun s => s.body.value toNumber entries) := by
  cases slots with
  | nil => rfl
  | cons s rest => rw [items, value, CstItems.values_eq, CstItems.slots_ofSlots]

theorem Cst.value_members (hentries : entries [] = []) (inner : Layout) (slots : List (Slot Member)) :
    (members inner slots).value toNumber entries =
      .obj (entries (slots.map fun s => (piecesUnits s.body.name, s.body.value.value toNumber entries))) := by
  cases slots with
  | nil => rw [members, value, List.map_nil, hentries]
  | cons s rest => rw [members, value, CstMembers.values_eq, CstMembers.slots_ofSlots]

/-- Without repeated names it does not matter what is made of them. -/
theorem Cst.value_of_distinct {toNumber : Units → ν} {entries : List (Units × Value ν) → List (Units × Value ν)}
    (hentries : ∀ ms : List (Units × Value ν), (ms.map Prod.fst).Nodup → entries ms = ms) :
    ∀ c : Cst, c.Distinct → c.value toNumber entries = c.value toNumber id := by
  apply Cst.childInduction
  intro c ih hd
  obtain ⟨hnames, hd⟩ := c.distinct_iff.mp hd
  cases c with
  | arr items =>
    rw [value, value, CstItems.values_eq, CstItems.values_eq]
    refine congrArg Value.arr (List.map_congr_left fun s hs => ?_)
    obtain ⟨t, ht, hvalue⟩ := mem_itemChildren 0 hs
    rw [← hvalue]
    exact ih t ht (hd t ht)
  | obj members =>
    have hvalues : members.values toNumber entries = members.values toNumber id := by
      rw [CstMembers.values_eq, CstMembers.values_eq]
      refine List.map_congr_left fun s hs => ?_
      have hmem : s.map Child.ofMember ∈ (Cst.obj members).children := List.mem_map.mpr ⟨s, hs, rfl⟩
      rw [show s.body.value.value toNumber entries = s.body.value.value toNumber id from ih _ hmem (hd _ hmem)]
    rw [value, value, hvalues, hentries _ ?_]
    · rfl
    · rw [CstMembers.values_eq, List.map_map]
      rw [children, memberChildren, List.map_map] at hnames
      exact hnames
  | _ => rfl

end

end Desk
