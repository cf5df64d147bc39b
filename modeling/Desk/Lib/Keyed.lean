import Mathlib.Data.List.Nodup

/-!
# Lists read by key

A map built by a loop over a list: a later entry replaces an earlier one with
the same key. Where the keys differ the map is membership.
-/

namespace Desk

variable {α κ : Type}

theorem key_inj {key : α → κ} {l : List α} (hn : (l.map key).Nodup) {x y : α} (hx : x ∈ l) (hy : y ∈ l)
    (h : key x = key y) : x = y := List.inj_on_of_nodup_map hn hx hy h

theorem nodup_append_singleton {l : List κ} {k : κ} : (l ++ [k]).Nodup ↔ l.Nodup ∧ k ∉ l := by
  rw [List.nodup_append]
  constructor
  · rintro ⟨h, _, hd⟩
    exact ⟨h, fun hk => hd k hk k (List.mem_singleton.mpr rfl) rfl⟩
  · rintro ⟨h, hk⟩
    refine ⟨h, List.nodup_singleton k, fun a ha b hb => ?_⟩
    rw [List.mem_singleton.mp hb]
    rintro rfl
    exact hk ha

variable [DecidableEq κ] (key : α → κ)

/-- What the map holds under `k`. -/
def lastWith (l : List α) (k : κ) : Option α := l.reverse.find? fun x => key x == k

variable {key}

theorem lastWith_spec {l : List α} {k : κ} {x : α} (h : lastWith key l k = some x) : x ∈ l ∧ key x = k := by
  have h₁ := List.mem_of_find?_eq_some h
  have h₂ := List.find?_some h
  exact ⟨List.mem_reverse.mp h₁, by simpa using h₂⟩

theorem lastWith_eq_none {l : List α} {k : κ} : lastWith key l k = none ↔ ∀ x ∈ l, key x ≠ k := by
  simp [lastWith, List.find?_eq_none]

theorem lastWith_eq_some {l : List α} (hn : (l.map key).Nodup) {k : κ} {x : α} :
    lastWith key l k = some x ↔ x ∈ l ∧ key x = k := by
  refine ⟨lastWith_spec, fun ⟨hx, hk⟩ => ?_⟩
  cases h : lastWith key l k with
  | none => exact absurd hk (lastWith_eq_none.mp h x hx)
  | some y =>
    obtain ⟨hy, hky⟩ := lastWith_spec h
    exact congrArg some (key_inj hn hy hx (hky.trans hk.symm))

theorem lastWith_isSome {l : List α} {k : κ} : (lastWith key l k).isSome ↔ ∃ x ∈ l, key x = k := by
  rw [← Option.ne_none_iff_isSome, Ne, lastWith_eq_none]
  push Not
  rfl

theorem lastWith_append_ne {l : List α} {k : κ} {x : α} (h : key x ≠ k) :
    lastWith key (l ++ [x]) k = lastWith key l k := by
  simp [lastWith, h]

theorem lastWith_append_self (l : List α) (x : α) : lastWith key (l ++ [x]) (key x) = some x := by
  simp [lastWith]

end Desk
