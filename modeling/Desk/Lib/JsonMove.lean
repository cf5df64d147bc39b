import Desk.Lib.JsonPlaces

/-!
# Slots with other bodies

What stands in the slots of a container changes places; the layout of each slot
stays where it is.
-/

namespace Desk

section
variable {β γ : Type}

def rebody (slots : List (Slot β)) (bodies : List β) : List (Slot β) :=
  List.zipWith (fun s b => ⟨s.pre, b, s.post⟩) slots bodies

@[simp] theorem rebody_nil : rebody ([] : List (Slot β)) [] = [] := rfl

@[simp] theorem rebody_cons (s : Slot β) (slots : List (Slot β)) (b : β) (bodies : List β) :
    rebody (s :: slots) (b :: bodies) = ⟨s.pre, b, s.post⟩ :: rebody slots bodies := rfl

theorem length_rebody {slots : List (Slot β)} {bodies : List β} (h : slots.length = bodies.length) :
    (rebody slots bodies).length = slots.length := by
  rw [rebody, List.length_zipWith, ← h, Nat.min_self]

theorem map_rebody (f : β → γ) (slots : List (Slot β)) (bodies : List β) :
    (rebody slots bodies).map (Slot.map f) = rebody (slots.map (Slot.map f)) (bodies.map f) := by
  rw [rebody, rebody, List.map_zipWith, List.zipWith_map]
  rfl

/-- A reading of the slots that sees only the layout. -/
theorem layout_rebody (g : Slot β → γ) (hg : ∀ s b, g ⟨s.pre, b, s.post⟩ = g s) {slots : List (Slot β)} {bodies : List β}
    (h : slots.length = bodies.length) : (rebody slots bodies).map g = slots.map g := by
  induction slots generalizing bodies with
  | nil => rfl
  | cons s slots ih =>
    cases bodies with
    | nil => cases h
    | cons b bodies => rw [rebody_cons, List.map_cons, List.map_cons, hg, ih (Nat.succ.inj h)]

/-- A reading of the slots that sees only what stands in them. -/
theorem read_rebody (g : Slot β → γ) (r : β → γ) (hg : ∀ s, g s = r s.body) {slots : List (Slot β)} {bodies : List β}
    (h : slots.length = bodies.length) : (rebody slots bodies).map g = bodies.map r := by
  induction slots generalizing bodies with
  | nil =>
    rw [List.length_nil, eq_comm, List.length_eq_zero_iff] at h
    rw [h]
    rfl
  | cons s slots ih =>
    cases bodies with
    | nil => cases h
    | cons b bodies => rw [rebody_cons, List.map_cons, List.map_cons, hg, ih (Nat.succ.inj h)]

theorem rebody_self (slots : List (Slot β)) : rebody slots (slots.map Slot.body) = slots := by
  induction slots with
  | nil => rfl
  | cons s slots ih => rw [List.map_cons, rebody_cons, ih]

theorem rebody_rebody {slots : List (Slot β)} {bodies : List β} (h : slots.length = bodies.length) (others : List β) :
    rebody (rebody slots bodies) others = rebody slots others := by
  induction slots generalizing bodies others with
  | nil => rfl
  | cons s slots ih =>
    cases bodies with
    | nil => cases h
    | cons b bodies =>
      cases others with
      | nil => rfl
      | cons o others => rw [rebody_cons, rebody_cons, rebody_cons, ih (Nat.succ.inj h)]

end

/-! ## Their text -/

/-- The pieces of the slots, the last without the layout behind it. -/
def slotPieces (slots : List (Slot Units)) : List Units :=
  slots.mapIdx fun i s => s.pre.1 ++ s.body ++ (if i = slots.length - 1 then [] else s.post.1 ++ [unit ','])

theorem inside_pieces (inner : Layout) {slots : List (Slot Units)} {last : Slot Units} (h : slots.getLast? = some last) :
    inside inner slots = (slotPieces slots).flatten ++ last.post.1 := by
  obtain ⟨left, rfl⟩ := List.getLast?_eq_some_iff.mp h
  have hleft : left.mapIdx (fun i s => s.pre.1 ++ s.body ++
      (if i = (left ++ [last]).length - 1 then [] else s.post.1 ++ [unit ','])) = left.map fun s => s.text ++ [unit ','] := by
    apply List.ext_getElem
    · rw [List.length_mapIdx, List.length_map]
    intro i hi hi'
    rw [List.getElem_mapIdx, List.getElem_map, if_neg, Slot.text]
    · simp
    · rw [List.length_append, List.length_singleton]
      rw [List.length_mapIdx] at hi
      omega
  rw [inside_split, slotPieces, List.mapIdx_append, hleft, slotsBefore, List.flatMap_def]
  simp [Slot.text, slotsAfter]

/-- The length of what is inside does not depend on which body stands where. -/
theorem length_inside_rebody (inner : Layout) {slots : List (Slot Units)} {bodies : List Units}
    (h : bodies.Perm (slots.map Slot.body)) : (inside inner (rebody slots bodies)).length = (inside inner slots).length := by
  have hlength : slots.length = bodies.length := by rw [h.length_eq, List.length_map]
  have hsum : ∀ {part : List (Slot Units)} {others : List Units}, part.length = others.length →
      ((rebody part others).map fun s => s.text.length + 1).sum =
        (part.map fun s => s.pre.1.length + s.post.1.length + 1).sum + (others.map List.length).sum := by
    intro part
    induction part with
    | nil =>
      intro others hlength
      rw [List.length_nil, eq_comm, List.length_eq_zero_iff] at hlength
      rw [hlength]
      rfl
    | cons s part ih =>
      intro others hlength
      cases others with
      | nil => cases hlength
      | cons o others =>
        have hrest := ih (Nat.succ.inj hlength)
        simp only [rebody_cons, List.map_cons, List.sum_cons, Slot.text, List.length_append] at hrest ⊢
        omega
  have hinside : ∀ part : List (Slot Units), part ≠ [] →
      (inside inner part).length + 1 = (part.map fun s => s.text.length + 1).sum := by
    intro part hpart
    obtain ⟨left, last, rfl⟩ := (List.eq_nil_or_concat part).resolve_left hpart
    rw [List.concat_eq_append, inside_split, slotsBefore, List.length_append, List.length_append, List.length_flatMap,
      List.map_append, List.sum_append]
    simp [slotsAfter]
    omega
  cases slots with
  | nil => rfl
  | cons s slots =>
    have hne : rebody (s :: slots) bodies ≠ [] := by
      rw [← List.length_pos_iff, length_rebody hlength]
      exact Nat.succ_pos _
    have hnew := hinside _ hne
    have hold := hinside (s :: slots) (List.cons_ne_nil s slots)
    rw [hsum hlength, (h.map List.length).sum_nat] at hnew
    rw [← rebody_self (s :: slots), hsum (by rw [List.length_map])] at hold
    rw [rebody_self] at hold
    omega

end Desk
