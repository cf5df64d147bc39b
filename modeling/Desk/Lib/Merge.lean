import Desk.Lib.Keyed

/-!
# Entries put into a keyed list

An entry takes the place of the one with its key, or stands at the end; what is
put there may depend on what it takes the place of. Where the keys differ, the
entries put one after another are put as at once (`foldl_upsert`).
-/

namespace Desk

section
variable {α κ : Type} [BEq κ] (key : α → κ) (revise : α → Option α → α)

/-- The search gives the place of the entry with the key. -/
def upsert (l : List α) (x : α) : List α :=
  match l.findIdx? fun c => key c == key x with
  | none => l ++ [revise x none]
  | some i => l.set i (revise x l[i]?)

/-- Every entry of `l` with what takes its place, and then what has no place in `l`. -/
def merge (l xs : List α) : List α :=
  l.map (fun c => match xs.find? fun x => key x == key c with
    | some x => revise x (some c)
    | none => c) ++
  (xs.filter fun x => !l.any fun c => key c == key x).map fun x => revise x none

variable {key revise}

/-- What the search finds is what is found by key. -/
theorem findIdx?_bind (p : α → Bool) (l : List α) : (l.findIdx? p).bind (fun i => l[i]?) = l.find? p := by
  induction l with
  | nil => rfl
  | cons c l ih =>
    rw [List.findIdx?_cons, List.find?_cons]
    cases p c with
    | true => rfl
    | false =>
      rw [← ih]
      cases l.findIdx? p <;> rfl

@[simp] theorem upsert_nil (x : α) : upsert key revise [] x = [revise x none] := rfl

theorem merge_nil (l : List α) : merge key revise l [] = l := by simp [merge]

variable [LawfulBEq κ] [DecidableEq κ]

theorem upsert_cons (c : α) (l : List α) (x : α) :
    upsert key revise (c :: l) x = if key c = key x then revise x (some c) :: l else c :: upsert key revise l x := by
  unfold upsert
  rw [List.findIdx?_cons]
  by_cases h : key c = key x
  · rw [if_pos h, beq_iff_eq.mpr h]
    rfl
  · rw [if_neg h, beq_eq_false_iff_ne.mpr h]
    cases l.findIdx? fun c => key c == key x <;> rfl

omit [DecidableEq κ] in
theorem any_key {l : List α} {k : κ} : (l.any fun c => key c == k) = true ↔ k ∈ l.map key := by
  rw [List.any_eq_true, List.mem_map]
  exact exists_congr fun c => and_congr_right fun _ => beq_iff_eq

/-- Where the key is not in the list, the entry stands at the end. -/
theorem upsert_of_not_mem {l : List α} {x : α} (h : key x ∉ l.map key) : upsert key revise l x = l ++ [revise x none] := by
  induction l with
  | nil => rfl
  | cons c l ih =>
    rw [List.map_cons, List.mem_cons, not_or] at h
    rw [upsert_cons, if_neg (Ne.symm h.1), ih h.2, List.cons_append]

/-- Where the key is in the list, the entry with it is replaced. -/
theorem upsert_of_mem {l : List α} (hn : (l.map key).Nodup) {x : α} (h : key x ∈ l.map key) :
    upsert key revise l x = l.map fun c => if key c = key x then revise x (some c) else c := by
  induction l with
  | nil => exact absurd h (List.not_mem_nil)
  | cons c l ih =>
    rw [List.map_cons, List.nodup_cons] at hn
    rw [upsert_cons, List.map_cons]
    by_cases hc : key c = key x
    · have hrest : l.map (fun c => if key c = key x then revise x (some c) else c) = l := by
        rw [List.map_congr_left (g := id), List.map_id]
        intro c' hc'
        exact if_neg fun e : key c' = key x => hn.1 (hc.trans e.symm ▸ List.mem_map_of_mem hc')
      rw [if_pos hc, if_pos hc, hrest]
    · have hx : key x ∈ l.map key := (List.mem_cons.mp h).resolve_left fun e => hc e.symm
      rw [if_neg hc, if_neg hc, ih hn.2 hx]

variable (hkey : ∀ x c, key (revise x c) = key x)
include hkey

theorem map_key_upsert (l : List α) (x : α) :
    (upsert key revise l x).map key = if key x ∈ l.map key then l.map key else l.map key ++ [key x] := by
  induction l with
  | nil => simp [hkey]
  | cons c l ih =>
    rw [upsert_cons]
    by_cases h : key c = key x
    · simp [h, hkey]
    · have h' : key x ≠ key c := fun e => h e.symm
      rw [if_neg h, List.map_cons, ih, List.map_cons]
      by_cases hx : key x ∈ l.map key
      · rw [if_pos hx, if_pos (List.mem_cons_of_mem _ hx)]
      · rw [if_neg hx, if_neg (by simpa [h'] using hx), List.cons_append]

theorem nodup_upsert {l : List α} (hn : (l.map key).Nodup) (x : α) : ((upsert key revise l x).map key).Nodup := by
  rw [map_key_upsert hkey]
  by_cases h : key x ∈ l.map key
  · rwa [if_pos h]
  · rw [if_neg h]
    exact nodup_append_singleton.mpr ⟨hn, h⟩

theorem find?_upsert_ne {x : α} {k : κ} (hk : k ≠ key x) (l : List α) :
    (upsert key revise l x).find? (fun c => key c == k) = l.find? fun c => key c == k := by
  have hx : (key x == k) = false := beq_eq_false_iff_ne.mpr (Ne.symm hk)
  induction l with
  | nil => simp [hkey, hx]
  | cons c l ih =>
    rw [upsert_cons]
    by_cases h : key c = key x
    · rw [if_pos h, List.find?_cons, List.find?_cons, hkey, h, hx]
    · rw [if_neg h, List.find?_cons, List.find?_cons, ih]

/-- One more entry. -/
theorem merge_upsert {l xs : List α} {x : α} (hn : (l.map key).Nodup) (hx : key x ∉ xs.map key) :
    merge key revise (upsert key revise l x) xs = merge key revise l (x :: xs) := by
  have hother : ∀ {k}, k = key x → (xs.find? fun x => key x == k) = none := by
    rintro k rfl
    rw [List.find?_eq_none]
    intro y hy e
    exact hx (beq_iff_eq.mp e ▸ List.mem_map_of_mem hy)
  have hnew : (xs.filter fun y => !(upsert key revise l x).any fun c => key c == key y) =
      xs.filter fun y => !l.any fun c => key c == key y := by
    apply List.filter_congr
    intro y hy
    have hne : key y ≠ key x := fun e => hx (e ▸ List.mem_map_of_mem hy)
    rw [Bool.not_inj_iff, Bool.eq_iff_iff, any_key, any_key, map_key_upsert hkey]
    split
    · exact Iff.rfl
    · simp [hne]
  unfold merge
  rw [hnew]
  by_cases h : key x ∈ l.map key
  · have hin : (l.any fun c => key c == key x) = true := any_key.mpr h
    rw [upsert_of_mem hn h, List.map_map, List.filter_cons, hin, Bool.not_true, if_neg (by decide)]
    congr 1
    apply List.map_congr_left
    intro c _
    by_cases hc : key c = key x
    · simp only [Function.comp_apply, if_pos hc, List.find?_cons, beq_iff_eq.mpr hc.symm, hother (hkey x (some c))]
    · simp only [Function.comp_apply, if_neg hc, List.find?_cons, beq_eq_false_iff_ne.mpr (Ne.symm hc)]
  · have hin : (l.any fun c => key c == key x) = false := Bool.eq_false_iff.mpr fun e => h (any_key.mp e)
    rw [upsert_of_not_mem h, List.map_append, List.filter_cons, hin, Bool.not_false, if_pos rfl, List.map_cons,
      List.map_cons, List.map_nil, hother (hkey x none), List.append_assoc, List.singleton_append]
    congr 1
    apply List.map_congr_left
    intro c hc
    have hne : key x ≠ key c := fun e => h (e ▸ List.mem_map_of_mem hc)
    simp only [List.find?_cons, beq_eq_false_iff_ne.mpr hne]

/-- One after another is at once. -/
theorem foldl_upsert {l xs : List α} (hn : (l.map key).Nodup) (hxs : (xs.map key).Nodup) :
    xs.foldl (upsert key revise) l = merge key revise l xs := by
  induction xs generalizing l with
  | nil => exact (merge_nil l).symm
  | cons x xs ih =>
    rw [List.map_cons, List.nodup_cons] at hxs
    rw [List.foldl_cons, ih (nodup_upsert hkey hn x) hxs.2, merge_upsert hkey hn hxs.1]

theorem nodup_foldl_upsert {l : List α} (hn : (l.map key).Nodup) (xs : List α) :
    ((xs.foldl (upsert key revise) l).map key).Nodup := by
  induction xs generalizing l with
  | nil => exact hn
  | cons x xs ih => exact ih (nodup_upsert hkey hn x)

end

end Desk
