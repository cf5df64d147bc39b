import Mathlib.Data.List.Infix

/-!
# Replacing parts of a text

A text in which parts were replaced by another text keeps no new occurrence of anything
that shares no symbol with it (`Replaced.infix_of`), and where every occurrence of a part
is replaced from the left none is left (`not_infix_replaceEach`).
-/

namespace Desk

namespace Replace

variable {α : Type}

/-- A text with some of its parts replaced by `new`. -/
inductive Replaced (new : List α) : List α → List α → Prop
  | nil : Replaced new [] []
  | keep (c : α) {text out : List α} (h : Replaced new text out) : Replaced new (c :: text) (c :: out)
  | gone (part : List α) {text out : List α} (h : Replaced new text out) : Replaced new (part ++ text) (new ++ out)

namespace Replaced

variable {new text out part : List α}

theorem refl (new text : List α) : Replaced new text text := by
  induction text with
  | nil => exact .nil
  | cons c text ih => exact .keep c ih

theorem keep_append (pre : List α) (h : Replaced new text out) : Replaced new (pre ++ text) (pre ++ out) := by
  induction pre with
  | nil => exact h
  | cons c pre ih => exact .keep c ih

theorem prefix_of (h : Replaced new text out) (hne : new ≠ []) (hnew : ∀ c ∈ new, c ∉ part) (hpart : part <+: out) :
    part <+: text := by
  induction h generalizing part with
  | nil => exact hpart
  | keep c _ ih =>
    rcases part with - | ⟨d, part⟩
    · exact List.nil_prefix
    · obtain ⟨rfl, hrest⟩ := List.cons_prefix_cons.mp hpart
      exact (List.cons_prefix_cons).mpr ⟨rfl, ih (fun c hc hin => hnew c hc (List.mem_cons_of_mem _ hin)) hrest⟩
  | gone _ _ _ =>
    rcases part with - | ⟨d, part⟩
    · exact List.nil_prefix
    · obtain ⟨c, new, rfl⟩ := List.exists_cons_of_ne_nil hne
      obtain ⟨rfl, -⟩ := List.cons_prefix_cons.mp hpart
      exact absurd List.mem_cons_self (hnew d List.mem_cons_self)

/-- A part without a symbol of a text stands in what follows it. -/
theorem infix_right (hne : part ≠ []) (hnew : ∀ c ∈ new, c ∉ part) (h : part <:+: new ++ out) : part <:+: out := by
  induction new with
  | nil => exact h
  | cons c new ih =>
    rcases List.infix_cons_iff.mp h with hpre | hin
    · obtain ⟨d, rest, rfl⟩ := List.exists_cons_of_ne_nil hne
      obtain ⟨rfl, -⟩ := List.cons_prefix_cons.mp hpre
      exact absurd List.mem_cons_self (hnew d List.mem_cons_self)
    · exact ih (fun c hc => hnew c (List.mem_cons_of_mem _ hc)) hin

/-- Nothing comes about by a replacement but what shares a symbol with the new text. -/
theorem infix_of (h : Replaced new text out) (hne : new ≠ []) (hnew : ∀ c ∈ new, c ∉ part) (hpart : part <:+: out) :
    part <:+: text := by
  rcases eq_or_ne part [] with rfl | hpne
  · exact List.nil_infix
  induction h with
  | nil => exact hpart
  | keep c h ih =>
    rcases List.infix_cons_iff.mp hpart with hpre | hin
    · exact ((Replaced.keep c h).prefix_of hne hnew hpre).isInfix
    · exact (ih hin).trans (List.suffix_cons c _).isInfix
  | gone gone _ ih => exact (ih (infix_right hpne hnew hpart)).trans (List.suffix_append gone _).isInfix

end Replaced

/-! ## Every occurrence -/

variable [DecidableEq α]

/-- Every occurrence of a part, from the left; `skip` symbols of the last one are still to come. -/
def replaceFrom (old new : List α) : Nat → List α → List α
  | _, [] => []
  | skip + 1, _ :: rest => replaceFrom old new skip rest
  | 0, c :: rest =>
    if old.isPrefixOf (c :: rest) then new ++ replaceFrom old new (old.length - 1) rest
    else c :: replaceFrom old new 0 rest

/-- `strings.ReplaceAll` of a part that is not empty. -/
def replaceEach (old new text : List α) : List α := replaceFrom old new 0 text

variable {old new part text : List α}

theorem replaced_replaceFrom (hne : old ≠ []) (skip : Nat) (text : List α) :
    Replaced new (text.drop skip) (replaceFrom old new skip text) := by
  induction text generalizing skip with
  | nil =>
    rw [List.drop_nil]
    cases skip <;> exact .nil
  | cons c rest ih =>
    cases skip with
    | succ skip => exact ih skip
    | zero =>
      rw [List.drop_zero, replaceFrom]
      split
      · rename_i hpre
        obtain ⟨after, heq⟩ := List.isPrefixOf_iff_prefix.mp hpre
        have hafter : rest.drop (old.length - 1) = after := by
          obtain ⟨d, old, rfl⟩ := List.exists_cons_of_ne_nil hne
          obtain ⟨rfl, rfl⟩ := List.cons.inj heq
          rw [List.length_cons, Nat.add_sub_cancel]
          exact List.drop_left
        rw [← heq]
        refine .gone old ?_
        rw [← hafter]
        exact ih _
      · exact .keep c (ih 0)

theorem replaced_replaceEach (hne : old ≠ []) (text : List α) : Replaced new text (replaceEach old new text) :=
  replaced_replaceFrom hne 0 text

/-- No occurrence is left where the new text shares no symbol with the old one. -/
theorem not_infix_replaceFrom (hne : old ≠ []) (hnne : new ≠ []) (hnew : ∀ c ∈ new, c ∉ old) (skip : Nat) (text : List α) :
    ¬old <:+: replaceFrom old new skip text := by
  induction text generalizing skip with
  | nil => cases skip <;> exact fun h => hne (List.infix_nil.mp h)
  | cons c rest ih =>
    cases skip with
    | succ skip => exact ih skip
    | zero =>
      rw [replaceFrom]
      split
      · exact fun h => ih _ (Replaced.infix_right hne hnew h)
      · rename_i hpre
        intro h
        rcases List.infix_cons_iff.mp h with hstart | hin
        · have hkeep : Replaced new (c :: rest) (c :: replaceFrom old new 0 rest) := .keep c (replaced_replaceFrom hne 0 rest)
          exact hpre (List.isPrefixOf_iff_prefix.mpr (hkeep.prefix_of hnne hnew hstart))
        · exact ih 0 hin

theorem not_infix_replaceEach (hne : old ≠ []) (hnne : new ≠ []) (hnew : ∀ c ∈ new, c ∉ old) (text : List α) :
    ¬old <:+: replaceEach old new text := not_infix_replaceFrom hne hnne hnew 0 text

theorem replaceEach_kept (h : ¬old <:+: text) : replaceEach old new text = text := by
  induction text with
  | nil => rfl
  | cons c rest ih =>
    rw [List.infix_cons_iff, not_or] at h
    rw [replaceEach, replaceFrom, if_neg fun hpre => h.1 (List.isPrefixOf_iff_prefix.mp hpre)]
    exact congrArg (c :: ·) (ih h.2)

/-- One symbol for another. -/
theorem replaceEach_singleton (a b : α) (text : List α) :
    replaceEach [a] [b] text = text.map fun c => if c = a then b else c := by
  induction text with
  | nil => rfl
  | cons c rest ih =>
    rw [replaceEach, replaceFrom]
    by_cases h : c = a
    · subst h
      rw [if_pos (by simp), List.map_cons, if_pos rfl, ← ih]
      rfl
    · rw [if_neg (by simpa using fun heq => h heq.symm), List.map_cons, if_neg h, ← ih]
      rfl

/-! ## The first occurrence -/

/-- What stands before the first occurrence of a part, and what after it. -/
def cut (part : List α) : List α → Option (List α × List α)
  | [] => if part = [] then some ([], []) else none
  | c :: rest =>
    if part.isPrefixOf (c :: rest) then some ([], (c :: rest).drop part.length)
    else (cut part rest).map fun (before, after) => (c :: before, after)

theorem eq_of_cut {before after : List α} (h : cut part text = some (before, after)) : text = before ++ (part ++ after) := by
  induction text generalizing before after with
  | nil =>
    rw [cut] at h
    split at h
    · rename_i hnil
      cases h
      rw [hnil]
      rfl
    · cases h
  | cons c rest ih =>
    rw [cut] at h
    split at h
    · rename_i hpre
      obtain ⟨tail, heq⟩ := List.isPrefixOf_iff_prefix.mp hpre
      rw [← heq, List.drop_left] at h
      cases h
      rw [← heq]
      rfl
    · obtain ⟨⟨b, a⟩, hcut, heq⟩ := Option.map_eq_some_iff.mp h
      cases heq
      rw [ih hcut]
      rfl

end Replace

end Desk
