import Desk.Lib.JsonEdit

/-!
# One slot more

A new member takes the layout of the one it is put in front of, or of the last
when it is put behind all of them. The slots around it stay as they are.
-/

namespace Desk

/-! ## Slots -/

/-- One space, which stands on both sides of the only member. -/
def spaceLayout : Layout := ⟨[unit ' '], by decide⟩

namespace Slot

variable {β γ : Type}

/-- A slot with more layout around it. -/
def wrap (l r : Layout) (s : Slot β) : Slot β := ⟨.append l s.pre, s.body, .append s.post r⟩

theorem text_wrap (l r : Layout) (s : Slot Units) : (s.wrap l r).text = l.1 ++ (s.text ++ r.1) := by
  simp [wrap, text]

end Slot

section
variable {β γ : Type}

/-- The slots with a new one at a position. -/
def insertSlot (fresh : Slot β) : Nat → List (Slot β) → List (Slot β)
  | _, [] => [fresh.wrap spaceLayout spaceLayout]
  | 0, s :: rest => fresh.wrap s.pre noLayout :: s :: rest
  | _ + 1, [s] => [⟨s.pre, s.body, noLayout⟩, fresh.wrap s.pre s.post]
  | i + 1, s :: t :: rest => s :: insertSlot fresh i (t :: rest)

theorem map_insertSlot (f : β → γ) (fresh : Slot β) (i : Nat) (slots : List (Slot β)) :
    (insertSlot fresh i slots).map (Slot.map f) = insertSlot (fresh.map f) i (slots.map (Slot.map f)) := by
  induction slots generalizing i with
  | nil => cases i <;> rfl
  | cons s rest ih =>
    cases i with
    | zero => rfl
    | succ i =>
      cases rest with
      | nil => rfl
      | cons t rest => rw [insertSlot, List.map_cons, ih]; rfl

/-- A reading of the slots that does not see their layout. -/
theorem read_insertSlot (g : Slot β → γ) (hg : ∀ s t, s.body = t.body → g s = g t) (fresh : Slot β) {i : Nat}
    {slots : List (Slot β)} (h : i ≤ slots.length) :
    (insertSlot fresh i slots).map g = (slots.map g).insertIdx i (g fresh) := by
  induction slots generalizing i with
  | nil =>
    obtain rfl := Nat.le_zero.mp h
    exact congrArg (fun x => [x]) (hg _ _ rfl)
  | cons s rest ih =>
    cases i with
    | zero => exact congrArg (fun x => x :: g s :: rest.map g) (hg _ _ rfl)
    | succ i =>
      have hle := Nat.le_of_succ_le_succ h
      cases rest with
      | nil =>
        obtain rfl := Nat.le_zero.mp hle
        rw [insertSlot, List.map_cons, List.map_singleton, hg (fresh.wrap s.pre s.post) fresh rfl, hg ⟨s.pre, s.body, noLayout⟩ s rfl]
        rfl
      | cons t rest =>
        rw [insertSlot, List.map_cons, ih hle]
        rfl

/-- In front of another slot the new one has its layout. -/
theorem insertSlot_at (fresh : Slot β) (left : List (Slot β)) (s : Slot β) (right : List (Slot β)) :
    insertSlot fresh left.length (left ++ s :: right) = left ++ fresh.wrap s.pre noLayout :: s :: right := by
  induction left with
  | nil => rfl
  | cons t left ih =>
    cases left with
    | nil => rfl
    | cons u left => rw [List.length_cons, List.cons_append, List.cons_append, insertSlot, ← List.cons_append, ih]; rfl

/-- Behind all others the new slot has the layout of the last. -/
theorem insertSlot_end (fresh : Slot β) (left : List (Slot β)) (s : Slot β) :
    insertSlot fresh (left.length + 1) (left ++ [s]) = left ++ [⟨s.pre, s.body, noLayout⟩, fresh.wrap s.pre s.post] := by
  induction left with
  | nil => rfl
  | cons t left ih =>
    have hne : left ++ [s] ≠ [] := by simp
    obtain ⟨u, rest, hrest⟩ := List.exists_cons_of_ne_nil hne
    rw [List.length_cons, List.cons_append, hrest, insertSlot, ← hrest, ih]
    rfl

end

/-! ## Containers -/

namespace Value

variable {ν : Type}

/-- A container with one child more: an element, or a member of a name. -/
def insertChild (i : Nat) (name : Option Units) (w : Value ν) : Value ν → Value ν
  | .arr items => .arr (items.insertIdx i w)
  | .obj members =>
    match name with
    | none => .obj members
    | some name => .obj (members.insertIdx i (name, w))
  | v => v

end Value

theorem mem_body_insertSlot {β : Type} {fresh : Slot β} {i : Nat} {slots : List (Slot β)} (h : i ≤ slots.length) {s : Slot β}
    (hs : s ∈ insertSlot fresh i slots) : s.body = fresh.body ∨ ∃ t ∈ slots, s.body = t.body := by
  have hmem := List.mem_map_of_mem (f := fun s : Slot β => s.body) hs
  rw [read_insertSlot _ (fun _ _ h => h) fresh h, List.mem_insertIdx (by rw [List.length_map]; exact h)] at hmem
  rcases hmem with hmem | hmem
  · exact Or.inl hmem
  · obtain ⟨t, ht, hbody⟩ := List.mem_map.mp hmem
    exact Or.inr ⟨t, ht, hbody.symm⟩

theorem distinct_insertItem {inner inner' : Layout} {slots : List (Slot Cst)} {fresh : Slot Cst} {i : Nat} (hi : i ≤ slots.length)
    (h : (Cst.items inner slots).Distinct) (hfresh : fresh.body.Distinct) :
    (Cst.items inner' (insertSlot fresh i slots)).Distinct := by
  rw [Cst.distinct_iff, Cst.children_items] at h ⊢
  refine ⟨nodup_itemChildren 0 _, fun s hs => ?_⟩
  obtain ⟨t, ht, hvalue⟩ := mem_of_itemChildren hs
  rw [hvalue]
  rcases mem_body_insertSlot hi ht with hbody | ⟨u, hu, hbody⟩
  · rw [hbody]
    exact hfresh
  · obtain ⟨x, hx, hvalue⟩ := mem_itemChildren 0 hu
    rw [hbody, ← hvalue]
    exact h.2 x hx

theorem distinct_insertMember {inner inner' : Layout} {slots : List (Slot Member)} {fresh : Slot Member} {i : Nat}
    (hi : i ≤ slots.length) (h : (Cst.members inner slots).Distinct) (hfresh : fresh.body.value.Distinct)
    (hname : piecesUnits fresh.body.name ∉ slots.map fun s => piecesUnits s.body.name) :
    (Cst.members inner' (insertSlot fresh i slots)).Distinct := by
  rw [Cst.distinct_iff, Cst.children_members, memberChildren, List.map_map] at h ⊢
  have hnames : (insertSlot fresh i slots).map (fun s => piecesUnits s.body.name) =
      (slots.map fun s => piecesUnits s.body.name).insertIdx i (piecesUnits fresh.body.name) :=
    read_insertSlot (fun s => piecesUnits s.body.name) (fun s t h => by rw [h]) fresh hi
  refine ⟨?_, fun s hs => ?_⟩
  · show ((insertSlot fresh i slots).map fun s => piecesUnits s.body.name).Nodup
    rw [hnames, (List.perm_insertIdx _ _ (by rw [List.length_map]; exact hi)).nodup_iff, List.nodup_cons]
    exact ⟨hname, h.1⟩
  · obtain ⟨t, ht, rfl⟩ := List.mem_map.mp hs
    show t.body.value.Distinct
    rcases mem_body_insertSlot hi ht with hbody | ⟨u, hu, hbody⟩
    · rw [hbody]
      exact hfresh
    · rw [hbody]
      exact h.2 (u.map Child.ofMember) (List.mem_map_of_mem hu)

/-! ## Trees of containers -/

theorem Cst.exists_items {ν : Type} {n : Units → ν} {c : Cst} {vs : List (Value ν)} (h : c.value n id = .arr vs) :
    ∃ inner slots, c = .items inner slots := by
  cases c with
  | noItems inner => exact ⟨inner, [], rfl⟩
  | arr items =>
    obtain ⟨s, rest, rfl⟩ := items.exists_ofSlots
    exact ⟨noLayout, s :: rest, rfl⟩
  | _ => cases h

theorem Cst.exists_members {ν : Type} {n : Units → ν} {c : Cst} {ms : List (Units × Value ν)} (h : c.value n id = .obj ms) :
    ∃ inner slots, c = .members inner slots := by
  cases c with
  | noMembers inner => exact ⟨inner, [], rfl⟩
  | obj members =>
    obtain ⟨s, rest, rfl⟩ := members.exists_ofSlots
    exact ⟨noLayout, s :: rest, rfl⟩
  | _ => cases h

end Desk
