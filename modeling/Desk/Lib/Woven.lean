import Mathlib.Data.List.Sort

/-!
# Sorted lists that grow

A stable sort, of what some predicate keeps, and of a list into which more is woven.
What is shown of a sorted list down to a bound stays at the front of what is shown
of the longer list exactly where nothing that was added comes before it.
-/

namespace Desk

variable {α : Type} {r : α → α → Prop}

/-! ## What is kept -/

/-- What a bound keeps of a sorted list is its front. -/
theorem filter_front {p : α → Bool} (hp : ∀ a b, r a b → p b = true → p a = true) {l : List α} (h : l.Pairwise r) :
    l.filter p <+: l := by
  induction l with
  | nil => exact List.prefix_rfl
  | cons a l ih =>
    obtain ⟨ha, hl⟩ := List.pairwise_cons.mp h
    rw [List.filter_cons]
    split
    · exact List.cons_prefix_cons.mpr ⟨rfl, ih hl⟩
    · next hpa =>
      have hnone : l.filter p = [] := List.filter_eq_nil_iff.mpr fun b hb hpb => hpa (hp a b (ha b hb) hpb)
      rw [hnone]
      exact List.nil_prefix

theorem filter_and {p q : α → Bool} (hpq : ∀ a, p a = true → q a = true) (l : List α) :
    (l.filter fun a => p a && q a) = l.filter p := by
  refine List.filter_congr fun a _ => ?_
  cases hpa : p a with
  | false => rfl
  | true => rw [hpq a hpa, Bool.true_and]

theorem filter_split {p q : α → Bool} (hpq : ∀ a, p a = true → q a = true) (l : List α) :
    (l.filter q).Perm (l.filter p ++ l.filter fun a => !p a && q a) := by
  have hparts := (List.filter_append_perm p (l.filter q)).symm
  rwa [List.filter_filter, List.filter_filter, filter_and hpq] at hparts

/-! ## Weaving -/

variable (r) in
/-- The second list woven into the first. What is added before an item is not its equal. -/
inductive Woven : List α → List α → List α → Prop
  | nil : Woven [] [] []
  | old (a : α) {o n l : List α} (h : Woven o n l) : Woven (a :: o) n (a :: l)
  | new (x : α) {o n l : List α} (hx : ∀ b ∈ o, ¬ (r x b ∧ r b x)) (h : Woven o n l) : Woven o (x :: n) (x :: l)

theorem Woven.prepend_old {o n l : List α} (h : Woven r o n l) (o' : List α) : Woven r (o' ++ o) n (o' ++ l) := by
  induction o' with
  | nil => exact h
  | cons a o' ih => exact .old a ih

theorem Woven.prepend_new {o n l : List α} (h : Woven r o n l) (n' : List α)
    (hn' : ∀ x ∈ n', ∀ b ∈ o, ¬ (r x b ∧ r b x)) : Woven r o (n' ++ n) (n' ++ l) := by
  induction n' with
  | nil => exact h
  | cons x n' ih =>
    exact .new x (hn' x (List.mem_cons_self ..)) (ih fun y hy => hn' y (List.mem_cons_of_mem _ hy))

theorem Woven.filter {o n l : List α} (h : Woven r o n l) (p : α → Bool) :
    Woven r (o.filter p) (n.filter p) (l.filter p) := by
  induction h with
  | nil => exact .nil
  | old a _ ih =>
    rw [List.filter_cons, List.filter_cons]
    split
    · exact .old a ih
    · exact ih
  | new x hx _ ih =>
    rw [List.filter_cons, List.filter_cons]
    split
    · exact .new x (fun b hb => hx b (List.mem_filter.mp hb).1) ih
    · exact ih

theorem Woven.perm {o n l : List α} (h : Woven r o n l) : l.Perm (o ++ n) := by
  induction h with
  | nil => exact .nil
  | old a _ ih => exact ih.cons a
  | new x _ _ ih => exact (ih.cons x).trans List.perm_middle.symm

/-! ## Insertion -/

section
variable [DecidableRel r]

/-- An item stays before what it may stand before. -/
theorem orderedInsert_left {a : α} (L : List α) {M : List α} (h : ∀ m ∈ M, r a m) :
    (L ++ M).orderedInsert r a = L.orderedInsert r a ++ M := by
  induction L with
  | nil =>
    cases M with
    | nil => rfl
    | cons m M => exact List.orderedInsert_cons_of_le r M (h m (List.mem_cons_self ..))
  | cons l L ih =>
    by_cases hl : r a l
    · rw [List.cons_append, List.orderedInsert_cons_of_le r _ hl, List.orderedInsert_cons_of_le r _ hl]
      rfl
    · rw [List.cons_append, List.orderedInsert_of_not_le r _ hl, List.orderedInsert_of_not_le r _ hl, ih]
      rfl

/-- An item goes behind what it may not stand before. -/
theorem orderedInsert_right {a : α} {L : List α} (M : List α) (h : ∀ l ∈ L, ¬ r a l) :
    (L ++ M).orderedInsert r a = L ++ M.orderedInsert r a := by
  induction L with
  | nil => rfl
  | cons l L ih =>
    rw [List.cons_append, List.orderedInsert_of_not_le r _ (h l (List.mem_cons_self ..)),
      ih fun x hx => h x (List.mem_cons_of_mem _ hx)]
    rfl

theorem filter_orderedInsert [IsTrans α r] (p : α → Bool) (a : α) {l : List α} (h : l.Pairwise r) :
    (l.orderedInsert r a).filter p = if p a then (l.filter p).orderedInsert r a else l.filter p := by
  induction l with
  | nil => by_cases hp : p a = true <;> simp [hp]
  | cons x l ih =>
    obtain ⟨hx, hl⟩ := List.pairwise_cons.mp h
    by_cases hax : r a x
    · -- the item stands before everything that is kept
      have hall : ∀ y ∈ (x :: l).filter p, r a y := by
        intro y hy
        rcases List.mem_cons.mp (List.mem_filter.mp hy).1 with rfl | hy
        · exact hax
        · exact IsTrans.trans a x y hax (hx y hy)
      rw [List.orderedInsert_cons_of_le r _ hax, List.filter_cons]
      split
      · exact (orderedInsert_left [] hall).symm
      · rfl
    · rw [List.orderedInsert_of_not_le r _ hax, List.filter_cons, ih hl, List.filter_cons]
      by_cases hp : p a = true <;> by_cases hpx : p x = true <;> simp [hp, hpx, hax]

/-- Where nothing new comes before what is old, it is sorted behind it. -/
theorem Woven.sort {o n l : List α} (h : Woven r o n l) (hbehind : ∀ x ∈ n, ∀ y ∈ o, r y x) :
    l.insertionSort r = o.insertionSort r ++ n.insertionSort r := by
  induction h with
  | nil => rfl
  | old a h ih =>
    rw [List.insertionSort_cons, List.insertionSort_cons, ih fun x hx y hy => hbehind x hx y (List.mem_cons_of_mem _ hy)]
    refine orderedInsert_left _ fun m hm => ?_
    exact hbehind m ((List.mem_insertionSort r).mp hm) a (List.mem_cons_self ..)
  | new x hx h ih =>
    rw [List.insertionSort_cons, List.insertionSort_cons, ih fun y hy => hbehind y (List.mem_cons_of_mem _ hy)]
    refine orderedInsert_right _ fun b hb => ?_
    have hb := (List.mem_insertionSort r).mp hb
    exact fun hxb => hx b hb ⟨hxb, hbehind x (List.mem_cons_self ..) b hb⟩

/-! ## Sorting -/

variable [IsTrans α r] [Std.Total r]

/-- What is kept of a sorted list is what is kept, sorted. -/
theorem filter_insertionSort (p : α → Bool) (l : List α) :
    (l.insertionSort r).filter p = (l.filter p).insertionSort r := by
  induction l with
  | nil => rfl
  | cons a l ih =>
    rw [List.insertionSort_cons, filter_orderedInsert p a (List.pairwise_insertionSort r l), ih, List.filter_cons]
    split
    · rfl
    · rfl

/-- What is shown of a sorted list down to a bound stays at the front as more is woven in and the bound falls, exactly
where nothing that is woven in comes before it. -/
theorem Woven.shown_iff {o n l : List α} (h : Woven r o n l) {p q : α → Bool} (hp : ∀ a b, r a b → p b = true → p a = true)
    (hpq : ∀ a, p a = true → q a = true) (hq : ∀ x ∈ n, q x = false → ∀ y ∈ o, p y = true → r y x) :
    (o.insertionSort r).filter p <+: (l.insertionSort r).filter q ↔ ∀ x ∈ n, ∀ y ∈ o, p y = true → r y x := by
  have hsorted : ((l.insertionSort r).filter q).Pairwise r := (List.pairwise_insertionSort r l).filter q
  constructor
  · rintro ⟨rest, hrest⟩ x hx y hy hpy
    cases hqx : q x with
    | false => exact hq x hx hqx y hy hpy
    | true =>
      have hold : ((o.insertionSort r).filter p).Perm (o.filter p) := (List.perm_insertionSort r o).filter p
      have hall : ((o.insertionSort r).filter p ++ rest).Perm (o.filter q ++ n.filter q) := by
        rw [hrest, ← List.filter_append]
        exact ((List.perm_insertionSort r l).trans h.perm).filter q
      have hparts : (o.filter p ++ rest).Perm (o.filter p ++ ((o.filter fun a => !p a && q a) ++ n.filter q)) := by
        rw [← List.append_assoc]
        exact (hold.symm.append_right rest).trans (hall.trans ((filter_split hpq o).append_right _))
      -- what is woven in and shown is shown behind what was shown
      have hmem : x ∈ rest :=
        ((List.perm_append_left_iff _).mp hparts).symm.subset
          (List.mem_append_right _ (List.mem_filter.mpr ⟨hx, hqx⟩))
      rw [← hrest] at hsorted
      refine (List.pairwise_append.mp hsorted).2.2 y ?_ x hmem
      exact List.mem_filter.mpr ⟨(List.mem_insertionSort r).mpr hy, hpy⟩
  · intro hbehind
    have hfront : (l.insertionSort r).filter p <+: (l.insertionSort r).filter q := by
      have hsame : ((l.insertionSort r).filter q).filter p = (l.insertionSort r).filter p := by
        rw [List.filter_filter, filter_and hpq]
      rw [← hsame]
      exact filter_front hp hsorted
    refine List.IsPrefix.trans ?_ hfront
    rw [filter_insertionSort, filter_insertionSort, (h.filter p).sort]
    · exact List.prefix_append _ _
    · intro x hx y hy
      obtain ⟨hy, hpy⟩ := List.mem_filter.mp hy
      exact hbehind x (List.mem_filter.mp hx).1 y hy hpy

end

end Desk
