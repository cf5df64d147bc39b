import Desk.Lib.Table

/-!
# Bounded records

A table that remembers the last `bound` keys it was told of, in the order they
came. The order is of the table's keys and no longer than the bound, whatever is
recorded.
-/

namespace Desk

section
variable {V : Type}

/-- While the order is past the bound, its oldest key goes. -/
def dropPast (bound : Nat) : List String → Table V → List String × Table V
  | [], held => ([], held)
  | oldest :: order, held =>
    if bound < (oldest :: order).length then dropPast bound order (held.delete oldest) else (oldest :: order, held)

/-- A table and its keys in the order they came, at most `bound` of them. -/
structure Ring (V : Type) (bound : Nat) where
  held : Table V
  order : List String
  nodup : order.Nodup
  same : ∀ k, held.has k = true ↔ k ∈ order
  bounded : order.length ≤ bound

theorem dropPast_suffix (bound : Nat) (order : List String) (held : Table V) :
    (dropPast bound order held).1 <:+ order := by
  induction order generalizing held with
  | nil => exact List.suffix_rfl
  | cons oldest order ih =>
    unfold dropPast
    split
    · exact (ih _).trans (List.suffix_cons _ _)
    · exact List.suffix_rfl

theorem dropPast_bounded (bound : Nat) (order : List String) (held : Table V) :
    (dropPast bound order held).1.length ≤ bound := by
  induction order generalizing held with
  | nil => exact Nat.zero_le _
  | cons oldest order ih =>
    unfold dropPast
    split
    · exact ih _
    · rename_i h
      exact Nat.le_of_not_lt h

theorem dropPast_same (bound : Nat) {order : List String} {held : Table V} (hnodup : order.Nodup)
    (hsame : ∀ k, held.has k = true ↔ k ∈ order) (k : String) :
    (dropPast bound order held).2.has k = true ↔ k ∈ (dropPast bound order held).1 := by
  induction order generalizing held with
  | nil => exact hsame k
  | cons oldest order ih =>
    unfold dropPast
    split
    · obtain ⟨hnew, hrest⟩ := List.nodup_cons.mp hnodup
      refine ih hrest fun k' => ?_
      have := hsame k'
      rw [Table.has_eq_true, List.mem_cons] at this
      rw [Table.has_eq_true, Table.get?_delete]
      by_cases hk : k' = oldest
      · rw [if_pos hk, hk]
        simp [hnew]
      · rw [if_neg hk, this]
        simp [hk]
    · exact hsame k

theorem get?_of_dropPast {bound : Nat} {order : List String} {held : Table V} {k : String} {v : V}
    (h : (dropPast bound order held).2.get? k = some v) : held.get? k = some v := by
  induction order generalizing held with
  | nil => exact h
  | cons oldest order ih =>
    unfold dropPast at h
    split at h
    · exact (Table.get?_of_delete (ih h)).2
    · exact h

namespace Ring

variable {bound : Nat}

def empty (V : Type) (bound : Nat) : Ring V bound where
  held := Table.empty
  order := []
  nodup := List.nodup_nil
  same k := by simp [Table.has]
  bounded := Nat.zero_le _

/-- The order with a key that comes, where it is not one of it. -/
def arrived (r : Ring V bound) (k : String) : List String := if r.held.has k then r.order else r.order ++ [k]

theorem nodup_arrived (r : Ring V bound) (k : String) : (r.arrived k).Nodup := by
  unfold arrived
  split
  · exact r.nodup
  · rename_i hnew
    rw [r.same] at hnew
    exact List.nodup_append.mpr ⟨r.nodup, List.nodup_singleton k, fun a ha b hb => by
      rw [List.mem_singleton] at hb
      subst hb
      exact fun he => hnew (he ▸ ha)⟩

theorem same_arrived (r : Ring V bound) (k : String) (v : V) (k' : String) :
    (r.held.set k v).has k' = true ↔ k' ∈ r.arrived k := by
  have hsame := r.same k'
  rw [Table.has_eq_true] at hsame
  rw [Table.has_eq_true, Table.get?_set, arrived]
  by_cases hk : k' = k
  · subst hk
    cases hhas : r.held.has k' with
    | true => simp [(r.same k').mp hhas]
    | false => simp
  · rw [if_neg hk, hsame]
    cases r.held.has k <;> simp [hk]

/-- A key is recorded, and past the bound the oldest goes. -/
def record (r : Ring V bound) (k : String) (v : V) : Ring V bound where
  held := (dropPast bound (r.arrived k) (r.held.set k v)).2
  order := (dropPast bound (r.arrived k) (r.held.set k v)).1
  nodup := (dropPast_suffix bound _ _).sublist.nodup (r.nodup_arrived k)
  same := dropPast_same bound (r.nodup_arrived k) (r.same_arrived k v)
  bounded := dropPast_bounded bound _ _

def get? (r : Ring V bound) (k : String) : Option V := r.held.get? k

@[simp] theorem get?_empty (k : String) : (empty V bound).get? k = none := Table.get?_empty k

/-- What is held after one record was recorded by it or held before. -/
theorem get?_of_record {r : Ring V bound} {k k' : String} {v w : V} (h : (r.record k v).get? k' = some w) :
    k' = k ∧ w = v ∨ k' ≠ k ∧ r.get? k' = some w := by
  have hset := get?_of_dropPast (show (dropPast bound (r.arrived k) (r.held.set k v)).2.get? k' = some w from h)
  rw [Table.get?_set] at hset
  by_cases hk : k' = k
  · rw [if_pos hk] at hset
    cases hset
    exact Or.inl ⟨hk, rfl⟩
  · rw [if_neg hk] at hset
    exact Or.inr ⟨hk, hset⟩

/-- A ring holds no more than its bound. -/
theorem size_le (r : Ring V bound) : r.held.size ≤ bound := by
  refine le_trans (List.subperm_of_subset r.held.keys_nodup fun k hk => ?_).length_le r.bounded
  refine (r.same k).mp ?_
  refine Classical.byContradiction fun hn => ?_
  rw [Table.has, Bool.not_eq_true, Option.isSome_eq_false_iff, Option.isNone_iff_eq_none] at hn
  exact Table.get?_eq_none.mp hn hk

end Ring

end

end Desk
