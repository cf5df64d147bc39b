import Mathlib.Data.List.AList
import Mathlib.Data.List.Dedup

/-!
# Tables

A Go map from strings, as an association list without repeated keys. The order
of the entries stands for one iteration order; `all` does not depend on it.
-/

namespace Desk

/-- A `map[string]V`. -/
abbrev Table (V : Type) : Type := AList fun _ : String => V

namespace Table

variable {V : Type}

instance [DecidableEq V] : DecidableEq (Table V) := inferInstanceAs (DecidableEq (AList _))

instance : Inhabited (Table V) := ⟨(∅ : AList fun _ : String => V)⟩

def empty : Table V := (∅ : AList fun _ : String => V)

def get? (t : Table V) (k : String) : Option V := AList.lookup k t

def set (t : Table V) (k : String) (v : V) : Table V := AList.insert k v t

def entries (t : Table V) : List (String × V) := (AList.entries t).map fun e => (e.1, e.2)

/-- `len(m)`. -/
def size (t : Table V) : Nat := (AList.keys t).length

def all (t : Table V) (p : String → V → Bool) : Bool := t.entries.all fun e => p e.1 e.2

def has (t : Table V) (k : String) : Bool := (t.get? k).isSome

@[simp] theorem get?_empty (k : String) : (empty : Table V).get? k = none := AList.lookup_empty k

@[simp] theorem size_empty : (empty : Table V).size = 0 := rfl

@[simp] theorem all_empty (p : String → V → Bool) : (empty : Table V).all p = true := rfl

@[simp] theorem get?_set_self (t : Table V) (k : String) (v : V) : (t.set k v).get? k = some v :=
  AList.lookup_insert t

theorem get?_set_ne (t : Table V) {k k' : String} (v : V) (h : k' ≠ k) : (t.set k v).get? k' = t.get? k' :=
  AList.lookup_insert_ne h

theorem get?_set (t : Table V) (k k' : String) (v : V) :
    (t.set k v).get? k' = if k' = k then some v else t.get? k' := by
  by_cases h : k' = k
  · subst h; simp
  · rw [get?_set_ne t v h, if_neg h]

theorem mem_entries {t : Table V} {k : String} {v : V} : (k, v) ∈ t.entries ↔ t.get? k = some v := by
  have key := AList.mem_lookup_iff (a := k) (b := v) (s := t)
  rw [Option.mem_def] at key
  rw [show t.get? k = AList.lookup k t from rfl, key, entries, List.mem_map]
  constructor
  · rintro ⟨⟨a, b⟩, hm, he⟩
    cases he; exact hm
  · exact fun h => ⟨⟨k, v⟩, h, rfl⟩

theorem get?_eq_none {t : Table V} {k : String} : t.get? k = none ↔ k ∉ AList.keys t :=
  AList.lookup_eq_none

theorem get?_of_size_zero {t : Table V} (h : t.size = 0) (k : String) : t.get? k = none := by
  rw [get?_eq_none, List.eq_nil_of_length_eq_zero h]
  exact List.not_mem_nil

theorem size_set_new {t : Table V} {k : String} {v : V} (h : t.get? k = none) :
    (t.set k v).size = t.size + 1 := by
  have hk : k ∉ AList.keys t := get?_eq_none.mp h
  show (AList.keys (AList.insert k v t)).length = _
  rw [AList.keys_insert, List.length_cons, List.erase_of_not_mem hk]
  rfl

theorem size_set_old {t : Table V} {k : String} {v w : V} (h : t.get? k = some w) :
    (t.set k v).size = t.size := by
  have hk : k ∈ AList.keys t := by
    refine Classical.byContradiction fun hk => ?_
    rw [get?_eq_none.mpr hk] at h; cases h
  show (AList.keys (AList.insert k v t)).length = _
  rw [AList.keys_insert, List.length_cons, List.length_erase_of_mem hk]
  exact Nat.sub_add_cancel (List.length_pos_of_mem hk)

theorem size_set_le (t : Table V) (k : String) (v : V) : (t.set k v).size ≤ t.size + 1 := by
  cases h : t.get? k with
  | none => rw [size_set_new h]
  | some w => rw [size_set_old h]; omega

/-- A table has no more entries than one that has all its keys. -/
theorem size_le_size {W : Type} {t : Table V} {u : Table W} (h : ∀ k v, t.get? k = some v → u.has k = true) :
    t.size ≤ u.size := by
  refine (List.subperm_of_subset t.keys_nodup fun k hk => ?_).length_le
  have hsome : ∃ v, t.get? k = some v := by
    cases hg : t.get? k with
    | none => exact absurd hk (get?_eq_none.mp hg)
    | some v => exact ⟨v, rfl⟩
  obtain ⟨v, hv⟩ := hsome
  refine Classical.byContradiction fun hn => ?_
  have := h k v hv
  rw [has, get?_eq_none.mpr hn] at this
  cases this

/-- `delete(m, k)`. -/
def delete (t : Table V) (k : String) : Table V := AList.erase k t

@[simp] theorem get?_delete_self (t : Table V) (k : String) : (t.delete k).get? k = none :=
  AList.lookup_erase k t

theorem get?_delete_ne (t : Table V) {k k' : String} (h : k' ≠ k) : (t.delete k).get? k' = t.get? k' :=
  AList.lookup_erase_ne h

theorem get?_delete (t : Table V) (k k' : String) :
    (t.delete k).get? k' = if k' = k then none else t.get? k' := by
  by_cases h : k' = k
  · subst h; simp
  · rw [get?_delete_ne t h, if_neg h]

/-- What a table holds after a deletion it held before. -/
theorem get?_of_delete {t : Table V} {k k' : String} {v : V} (h : (t.delete k).get? k' = some v) :
    k' ≠ k ∧ t.get? k' = some v := by
  rw [get?_delete] at h
  split at h
  · cases h
  · rename_i hne
    exact ⟨hne, h⟩

theorem size_delete {t : Table V} {k : String} {v : V} (h : t.get? k = some v) : (t.delete k).size + 1 = t.size := by
  have hk : k ∈ AList.keys t := by
    refine Classical.byContradiction fun hk => ?_
    rw [get?_eq_none.mpr hk] at h; cases h
  show (AList.keys (AList.erase k t)).length + 1 = _
  rw [AList.keys_erase, List.length_erase_of_mem hk]
  exact Nat.sub_add_cancel (List.length_pos_of_mem hk)

theorem all_iff {t : Table V} {p : String → V → Bool} :
    t.all p = true ↔ ∀ k v, t.get? k = some v → p k v = true := by
  rw [all, List.all_eq_true]
  constructor
  · exact fun h k v hv => h (k, v) (mem_entries.mpr hv)
  · rintro h ⟨k, v⟩ hm
    exact h k v (mem_entries.mp hm)

/-- What held of every entry holds of every entry after one write. -/
theorem all_set {t : Table V} {k : String} {v : V} {p q : String → V → Bool} (h : t.all p = true)
    (hold : ∀ k' w, t.get? k' = some w → k' ≠ k → p k' w = true → q k' w = true)
    (hnew : q k v = true) : (t.set k v).all q = true := by
  rw [all_iff] at h ⊢
  intro k' w hw
  rw [get?_set] at hw
  split at hw
  · rename_i hk; cases hw; rw [hk]; exact hnew
  · rename_i hk; exact hold k' w hw hk (h k' w hw)

theorem all_mono {t : Table V} {p q : String → V → Bool} (h : t.all p = true)
    (hpq : ∀ k v, t.get? k = some v → p k v = true → q k v = true) : t.all q = true := by
  rw [all_iff] at h ⊢
  exact fun k v hv => hpq k v hv (h k v hv)

/-! ## Entries told apart -/

theorem ne_of_nodup {α : Type} {t : Table V} {f : V → α} (h : (t.entries.map fun e => f e.2).Nodup) {k k' : String}
    {v w : V} (hv : t.get? k = some v) (hw : t.get? k' = some w) (hk : k' ≠ k) : f w ≠ f v := by
  intro hf
  have := List.inj_on_of_nodup_map h (mem_entries.mpr hw) (mem_entries.mpr hv) hf
  cases this
  exact hk rfl

theorem nodup_set {α : Type} {t : Table V} {f : V → α} (h : (t.entries.map fun e => f e.2).Nodup) {k : String} {v : V}
    (hne : ∀ k' w, t.get? k' = some w → k' ≠ k → f w ≠ f v) : ((t.set k v).entries.map fun e => f e.2).Nodup := by
  have hentries : (t.set k v).entries = (k, v) :: (List.kerase k (AList.entries t)).map fun e => (e.1, e.2) := by
    rw [entries, show AList.entries (t.set k v) = _ from AList.entries_insert, List.map_cons]
  rw [hentries, List.map_cons, List.nodup_cons, List.map_map]
  constructor
  · intro hmem
    obtain ⟨⟨k', w⟩, hw, hf⟩ := List.mem_map.mp hmem
    have hk : k' ≠ k := by
      rintro rfl
      exact List.notMem_keys_kerase k' t.nodupKeys (List.mem_map.mpr ⟨_, hw, rfl⟩)
    have hget : t.get? k' = some w :=
      mem_entries.mp (List.mem_map.mpr ⟨⟨k', w⟩, (List.kerase_sublist k _).subset hw, rfl⟩)
    exact hne k' w hget hk hf
  · rw [entries, List.map_map] at h
    exact h.sublist ((List.kerase_sublist k _).map _)

/-- Where the keys are counted, the next one is not taken. -/
theorem get?_next {t : Table V} (key : Nat → String) (hinj : Function.Injective key)
    (h : ∀ n < t.size, ∃ v, t.get? (key n) = some v) : t.get? (key t.size) = none := by
  cases hlast : t.get? (key t.size) with
  | none => rfl
  | some v =>
    exfalso
    have hsub : (List.range (t.size + 1)).map key ⊆ AList.keys t := by
      intro k hk
      obtain ⟨n, hn, rfl⟩ := List.mem_map.mp hk
      obtain ⟨w, hw⟩ : ∃ w, t.get? (key n) = some w := by
        rcases Nat.lt_succ_iff_lt_or_eq.mp (List.mem_range.mp hn) with hlt | heq
        · exact h n hlt
        · exact ⟨v, by rw [heq]; exact hlast⟩
      refine Classical.byContradiction fun hnone => ?_
      rw [get?_eq_none.mpr hnone] at hw
      cases hw
    have hnodup : ((List.range (t.size + 1)).map key).Nodup := List.nodup_range.map hinj
    have hle := (List.subperm_of_subset hnodup hsub).length_le
    rw [List.length_map, List.length_range] at hle
    exact absurd hle (Nat.not_succ_le_self _)

/-! ## What is new -/

/-- Every entry of `t'` that is not one of `t` has `p`. -/
def New (t t' : Table V) (p : String → V → Prop) : Prop := ∀ k v, t'.get? k = some v → t.get? k = some v ∨ p k v

theorem New.refl (t : Table V) (p : String → V → Prop) : New t t p := fun _ _ h => Or.inl h

theorem New.set {t : Table V} {k : String} {v : V} {p : String → V → Prop} (h : p k v) : New t (t.set k v) p := by
  intro k' w hw
  rw [get?_set] at hw
  split at hw
  · rename_i hk
    cases hw
    exact Or.inr (by rw [hk]; exact h)
  · exact Or.inl hw

theorem has_eq_true {t : Table V} {k : String} : t.has k = true ↔ ∃ v, t.get? k = some v := by
  rw [has, Option.isSome_iff_exists]

theorem mem_keys_of_has {t : Table V} {k : String} (h : t.has k = true) : k ∈ AList.keys t := by
  refine Classical.byContradiction fun hn => ?_
  rw [has, get?_eq_none.mpr hn] at h
  cases h

/-- A table of as many keys as are listed, that has them all, has no other. -/
theorem mem_of_size_eq {t : Table V} {keys : List String} (hsize : t.size = keys.dedup.length)
    (hall : ∀ k ∈ keys, t.has k = true) {k : String} (hk : t.has k = true) : k ∈ keys := by
  have hsub : keys.dedup.Subperm (AList.keys t) :=
    List.subperm_of_subset (List.nodup_dedup keys) fun k hk => mem_keys_of_has (hall k (List.mem_dedup.mp hk))
  have hperm := hsub.perm_of_length_le (le_of_eq hsize)
  exact List.mem_dedup.mp (hperm.mem_iff.mpr (mem_keys_of_has hk))

/-! ## What stays -/

/-- Every entry of `t` is one of `t'`. -/
def Extends (t t' : Table V) : Prop := ∀ k v, t.get? k = some v → t'.get? k = some v

theorem Extends.refl (t : Table V) : t.Extends t := fun _ _ h => h

theorem Extends.trans {a b c : Table V} (h : a.Extends b) (h' : b.Extends c) : a.Extends c :=
  fun k v hv => h' k v (h k v hv)

end Table

end Desk
