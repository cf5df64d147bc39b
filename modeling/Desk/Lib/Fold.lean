import Mathlib.Data.List.DropRight

/-!
# Finding a text whatever its blanks

The first place of a pattern in a text, and its first place where every run of
separators is read as one blank, mapped back to the places of the text. What is
found so is found again, as it stands in the text, at the same place.
-/

namespace Desk

variable {α : Type}

/-! ## The first place -/

section
variable [DecidableEq α]

def indexOf (pat : List α) : List α → Option Nat
  | [] => if pat = [] then some 0 else none
  | x :: rest => if pat.isPrefixOf (x :: rest) then some 0 else (indexOf pat rest).map (· + 1)

theorem indexOf_split {pat text : List α} {i : Nat} (h : indexOf pat text = some i) :
    ∃ pre post, text = pre ++ (pat ++ post) ∧ pre.length = i := by
  induction text generalizing i with
  | nil =>
    rw [indexOf] at h
    split at h
    · next hnil =>
      cases h
      exact ⟨[], [], by rw [hnil]; rfl, rfl⟩
    · cases h
  | cons x rest ih =>
    rw [indexOf] at h
    split at h
    · next hpre =>
      cases h
      obtain ⟨post, hpost⟩ := List.isPrefixOf_iff_prefix.mp hpre
      exact ⟨[], post, hpost.symm, rfl⟩
    · obtain ⟨j, hj, rfl⟩ := Option.map_eq_some_iff.mp h
      obtain ⟨pre, post, rfl, rfl⟩ := ih hj
      exact ⟨x :: pre, post, rfl, rfl⟩

/-- A pattern is found where it stands, or before. -/
theorem indexOf_le (pat pre post : List α) :
    ∃ i, indexOf pat (pre ++ (pat ++ post)) = some i ∧ i ≤ pre.length := by
  induction pre with
  | nil =>
    refine ⟨0, ?_, Nat.le_refl 0⟩
    cases pat with
    | nil => cases post <;> rfl
    | cons x pat =>
      rw [List.nil_append, List.cons_append, indexOf, if_pos]
      exact List.isPrefixOf_iff_prefix.mpr (List.prefix_append (x :: pat) post)
  | cons x pre ih =>
    obtain ⟨i, hi, hle⟩ := ih
    rw [List.cons_append, indexOf, hi]
    split
    · exact ⟨0, rfl, Nat.zero_le _⟩
    · exact ⟨i + 1, rfl, Nat.succ_le_succ hle⟩

/-- A pattern that stands nowhere before is found where it stands. -/
theorem indexOf_eq {pat pre post : List α}
    (hfirst : ∀ pre' post', pre ++ (pat ++ post) = pre' ++ (pat ++ post') → pre.length ≤ pre'.length) :
    indexOf pat (pre ++ (pat ++ post)) = some pre.length := by
  obtain ⟨i, hi, hle⟩ := indexOf_le pat pre post
  obtain ⟨pre', post', heq, rfl⟩ := indexOf_split hi
  rw [hi, Nat.le_antisymm hle (hfirst pre' post' heq)]

end

/-! ## Folding -/

variable (sep : α → Bool) (blank : α)

/-- Every run of separators as one blank, each with its place; none at the start where `last`. -/
def fold : Bool → Nat → List α → List (α × Nat)
  | _, _, [] => []
  | last, i, x :: rest =>
    if sep x then if last then fold true (i + 1) rest else (blank, i) :: fold true (i + 1) rest
    else (x, i) :: fold false (i + 1) rest

/-- Every run of separators as one blank. -/
def squeeze (l : List α) : List α := (fold sep blank false 0 l).map Prod.fst

def trim (l : List α) : List α := (l.dropWhile sep).rdropWhile sep

/-- Neither end is a separator. -/
def Bounded (l : List α) : Prop :=
  ∃ x y, l.head? = some x ∧ l.getLast? = some y ∧ sep x = false ∧ sep y = false

variable {sep blank}

/-- A bounded text is one item, or two and what is between them. -/
theorem Bounded.cases {l : List α} (h : Bounded sep l) :
    (∃ x, l = [x] ∧ sep x = false) ∨ ∃ x mid y, l = x :: (mid ++ [y]) ∧ sep x = false ∧ sep y = false := by
  obtain ⟨x, y, hhead, hlast, hx, hy⟩ := h
  cases l with
  | nil => cases hhead
  | cons z rest =>
    cases hhead
    rcases List.eq_nil_or_concat rest with rfl | ⟨mid, last, rfl⟩
    · exact Or.inl ⟨x, rfl, hx⟩
    · rw [List.concat_eq_append, ← List.cons_append, List.getLast?_concat] at hlast
      cases hlast
      exact Or.inr ⟨x, mid, y, by rw [List.concat_eq_append], hx, hy⟩

theorem Bounded.length_pos {l : List α} (h : Bounded sep l) : 0 < l.length := by
  obtain ⟨x, _, hhead, _⟩ := h
  exact List.length_pos_of_mem (List.mem_of_head? hhead)

theorem bounded_singleton {x : α} (hx : sep x = false) : Bounded sep [x] := ⟨x, x, rfl, rfl, hx, hx⟩

theorem bounded_ends {x y : α} (mid : List α) (hx : sep x = false) (hy : sep y = false) :
    Bounded sep (x :: (mid ++ [y])) :=
  ⟨x, y, rfl, by rw [← List.cons_append, List.getLast?_concat], hx, hy⟩

theorem dropWhile_of_head {l : List α} {x : α} (h : l.head? = some x) (hx : sep x = false) : l.dropWhile sep = l := by
  cases l with
  | nil => rfl
  | cons y rest =>
    cases h
    rw [List.dropWhile_cons_of_neg (by rw [hx]; exact Bool.false_ne_true)]

theorem trim_of_bounded {l : List α} (h : Bounded sep l) : trim sep l = l := by
  obtain ⟨x, y, hhead, hlast, hx, hy⟩ := h
  rw [trim, dropWhile_of_head hhead hx, List.rdropWhile]
  rw [← List.head?_reverse] at hlast
  rw [dropWhile_of_head hlast hy, List.reverse_reverse]

/-- A text that is trimmed and not empty is bounded. -/
theorem bounded_trim {l : List α} (h : trim sep l ≠ []) : Bounded sep (trim sep l) := by
  have hlast : sep ((trim sep l).getLast h) = false := by
    have := List.rdropWhile_last_not sep (l.dropWhile sep) h
    exact Bool.eq_false_iff.mpr this
  have hnil : l.dropWhile sep ≠ [] := by
    intro hnil
    rw [trim, hnil] at h
    exact h rfl
  have hpre : trim sep l <+: l.dropWhile sep := List.rdropWhile_prefix sep (l.dropWhile sep)
  obtain ⟨post, hpost⟩ := hpre
  obtain ⟨x, rest, hcons⟩ := List.exists_cons_of_ne_nil h
  have hhead : sep x = false := by
    have hfirst := List.head_dropWhile_not sep hnil
    have hx : (l.dropWhile sep).head hnil = x := by
      simp only [← hpost, hcons, List.cons_append, List.head_cons]
    rw [hx] at hfirst
    exact hfirst
  exact ⟨x, _, by rw [hcons]; rfl, List.getLast?_eq_getLast_of_ne_nil h, hhead, hlast⟩

/-- The places do not matter to what is folded. -/
theorem map_fst_fold (last : Bool) (i j : Nat) (l : List α) :
    (fold sep blank last i l).map Prod.fst = (fold sep blank last j l).map Prod.fst := by
  induction l generalizing last i j with
  | nil => rfl
  | cons x rest ih =>
    simp only [fold]
    split
    · split
      · exact ih true (i + 1) (j + 1)
      · exact congrArg (blank :: ·) (ih true (i + 1) (j + 1))
    · exact congrArg (x :: ·) (ih false (i + 1) (j + 1))

/-- From an item that is no separator the folding starts anew. -/
theorem fold_append (blank : α) {x : α} (hx : sep x = false) (last : Bool) (i : Nat) (pre suf : List α) :
    fold sep blank last i (pre ++ x :: suf) =
      fold sep blank last i pre ++ (x, i + pre.length) :: fold sep blank false (i + pre.length + 1) suf := by
  induction pre generalizing last i with
  | nil => simp [fold, hx]
  | cons y pre ih =>
    have hplace : i + 1 + pre.length = i + (y :: pre).length := by
      rw [List.length_cons]
      omega
    simp only [List.cons_append, fold, ih, hplace]
    split
    · split <;> rfl
    · rfl

/-- An item that is no separator divides the text where it divides what is folded. -/
theorem fold_split (hblank : sep blank = true) {x : α} (hx : sep x = false) {p : Nat} {text : List α}
    {a b : List (α × Nat)} {last : Bool} {i : Nat} (h : fold sep blank last i text = a ++ (x, p) :: b) :
    ∃ pre suf, text = pre ++ x :: suf ∧ p = i + pre.length ∧ a = fold sep blank last i pre ∧
      b = fold sep blank false (p + 1) suf := by
  induction text generalizing last i a with
  | nil => cases a <;> cases h
  | cons y rest ih =>
    rw [fold] at h
    split at h
    · next hy =>
      split at h
      · next hlast =>
        obtain ⟨pre, suf, rfl, hp, ha, hb⟩ := ih h
        refine ⟨y :: pre, suf, rfl, by rw [hp, List.length_cons]; omega, ?_, hb⟩
        rw [fold, if_pos hy, if_pos hlast, ha]
      · next hlast =>
        cases a with
        | nil =>
          -- a blank is a separator
          cases h
          rw [hblank] at hx
          cases hx
        | cons e a =>
          obtain ⟨rfl, htail⟩ := List.cons.inj h
          obtain ⟨pre, suf, rfl, hp, ha, hb⟩ := ih htail
          refine ⟨y :: pre, suf, rfl, by rw [hp, List.length_cons]; omega, ?_, hb⟩
          rw [fold, if_pos hy, if_neg hlast, ha]
    · next hy =>
      cases a with
      | nil =>
        cases h
        exact ⟨[], rest, rfl, rfl, rfl, rfl⟩
      | cons e a =>
        obtain ⟨rfl, htail⟩ := List.cons.inj h
        obtain ⟨pre, suf, rfl, hp, ha, hb⟩ := ih htail
        refine ⟨y :: pre, suf, rfl, by rw [hp, List.length_cons]; omega, ?_, hb⟩
        rw [fold, if_neg hy, ha]

theorem squeeze_singleton {x : α} (hx : sep x = false) : squeeze sep blank [x] = [x] := by simp [squeeze, fold, hx]

theorem squeeze_ends {x y : α} (mid : List α) (hx : sep x = false) (hy : sep y = false) (i : Nat) :
    squeeze sep blank (x :: (mid ++ [y])) = x :: ((fold sep blank false i mid).map Prod.fst ++ [y]) := by
  have hmid : fold sep blank false 1 (mid ++ [y]) = fold sep blank false 1 mid ++ [(y, 1 + mid.length)] :=
    fold_append blank hy false 1 mid []
  rw [squeeze, fold, if_neg (by rw [hx]; exact Bool.false_ne_true), hmid, map_fst_fold false i 1]
  simp

theorem bounded_squeeze {l : List α} (h : Bounded sep l) : Bounded sep (squeeze sep blank l) := by
  rcases h.cases with ⟨x, rfl, hx⟩ | ⟨x, mid, y, rfl, hx, hy⟩
  · rw [squeeze_singleton hx]
    exact bounded_singleton hx
  · rw [squeeze_ends mid hx hy 0]
    exact bounded_ends _ hx hy

/-- A bounded part of a text is folded by itself. -/
theorem fold_part (blank : α) {part : List α} (h : Bounded sep part) (last : Bool) (i : Nat) (pre post : List α) :
    ∃ j, (fold sep blank last i (pre ++ (part ++ post))).map Prod.fst =
      (fold sep blank last i pre).map Prod.fst ++ (squeeze sep blank part ++ (fold sep blank false j post).map Prod.fst) := by
  rcases h.cases with ⟨x, rfl, hx⟩ | ⟨x, mid, y, rfl, hx, hy⟩
  · refine ⟨i + pre.length + 1, ?_⟩
    rw [squeeze_singleton hx, List.singleton_append, fold_append blank hx, List.map_append, List.map_cons]
    rfl
  · have hinner := fold_append blank hy false (i + pre.length + 1) mid post
    refine ⟨i + pre.length + 1 + mid.length + 1, ?_⟩
    rw [squeeze_ends mid hx hy (i + pre.length + 1), List.cons_append, List.append_assoc, List.singleton_append,
      fold_append blank hx, hinner]
    simp

/-- A bounded part of what is folded is a bounded part of the text, folded. -/
theorem part_of_fold (hblank : sep blank = true) {text : List α} {a q c : List (α × Nat)}
    (hq : Bounded sep (q.map Prod.fst)) (h : fold sep blank true 0 text = a ++ (q ++ c)) :
    ∃ pre part post, text = pre ++ (part ++ post) ∧ Bounded sep part ∧ squeeze sep blank part = q.map Prod.fst ∧
      a = fold sep blank true 0 pre ∧ q.head?.map Prod.snd = some pre.length ∧
      q.getLast?.map Prod.snd = some (pre.length + part.length - 1) := by
  rcases hq.cases with ⟨x, heq, hx⟩ | ⟨x, mid, y, heq, hx, hy⟩
  · obtain ⟨⟨u, p⟩, rfl, rfl⟩ := List.map_eq_singleton_iff.mp heq
    obtain ⟨pre, suf, rfl, rfl, ha, -⟩ := fold_split hblank hx h
    refine ⟨pre, [u], suf, rfl, bounded_singleton hx, squeeze_singleton hx, ha, ?_, ?_⟩
    · simp
    · simp
  · obtain ⟨⟨u, p⟩, q', rfl, rfl, hq'⟩ := List.map_eq_cons_iff.mp heq
    obtain ⟨q, last, rfl, rfl, hlast⟩ := List.map_eq_append_iff.mp hq'
    obtain ⟨⟨v, e⟩, rfl, rfl⟩ := List.map_eq_singleton_iff.mp hlast
    obtain ⟨pre, suf, rfl, rfl, ha, hsuf⟩ := fold_split hblank hx h
    have hsuf : fold sep blank false (0 + pre.length + 1) suf = q ++ (v, e) :: c := by
      rw [← hsuf]
      exact List.append_assoc q [(v, e)] c
    obtain ⟨mid, post, rfl, rfl, rfl, -⟩ := fold_split hblank hy hsuf
    refine ⟨pre, u :: (mid ++ [v]), post, ?_, bounded_ends mid hx hy, ?_, ha, ?_, ?_⟩
    · simp
    · rw [squeeze_ends mid hx hy (0 + pre.length + 1)]
      simp
    · simp
    · rw [← List.cons_append, List.getLast?_concat]
      simp only [Option.map_some, List.length_cons, List.length_append, List.length_nil, Option.some.injEq]
      omega

/-- A bounded part that stands earlier is folded earlier. -/
theorem length_fold_lt (blank : α) {pre pre' part post post' : List α}
    (h : pre ++ (part ++ post) = pre' ++ (part ++ post')) (hpart : Bounded sep part) (hlt : pre'.length < pre.length) :
    (fold sep blank true 0 pre').length < (fold sep blank true 0 pre).length := by
  rcases List.append_eq_append_iff.mp h with ⟨d, rfl, -⟩ | ⟨d, rfl, hd⟩
  · rw [List.length_append] at hlt
    omega
  · obtain ⟨x, y, hhead, -, hx, -⟩ := hpart
    obtain ⟨t, rfl⟩ := List.head?_eq_some_iff.mp hhead
    cases d with
    | nil =>
      rw [List.append_nil] at hlt
      exact absurd hlt (lt_irrefl _)
    | cons z d =>
      obtain ⟨rfl, -⟩ := List.cons.inj hd
      rw [fold_append blank hx, List.length_append, List.length_cons]
      omega

section
variable [DecidableEq α]

/-- What is found in the folded text is a part of the text: it folds to the pattern, and it is found where it is. -/
theorem indexOf_fold (hblank : sep blank = true) {text pat : List α} (hpat : Bounded sep pat) {k : Nat}
    (h : indexOf pat ((fold sep blank true 0 text).map Prod.fst) = some k) :
    ∃ pre part post, text = pre ++ (part ++ post) ∧ Bounded sep part ∧ squeeze sep blank part = pat ∧
      indexOf part text = some pre.length ∧ (fold sep blank true 0 text)[k]?.map Prod.snd = some pre.length ∧
      (fold sep blank true 0 text)[k + pat.length - 1]?.map Prod.snd = some (pre.length + part.length - 1) := by
  obtain ⟨a', c', hsplit, rfl⟩ := indexOf_split h
  obtain ⟨a, qc, hfold, rfl, hqc⟩ := List.map_eq_append_iff.mp hsplit
  obtain ⟨q, c, rfl, rfl, rfl⟩ := List.map_eq_append_iff.mp hqc
  obtain ⟨pre, part, post, htext, hbounded, hsqueeze, ha, hfirst, hlast⟩ := part_of_fold hblank hpat hfold
  refine ⟨pre, part, post, htext, hbounded, hsqueeze, ?_, ?_, ?_⟩
  · rw [htext]
    refine indexOf_eq fun pre' post' heq => ?_
    -- a part before it would be folded to the pattern before it
    by_contra hbefore
    rw [not_le] at hbefore
    obtain ⟨j, hrest⟩ := fold_part blank hbounded true 0 pre' post'
    obtain ⟨k, hk, hle⟩ := indexOf_le (q.map Prod.fst) ((fold sep blank true 0 pre').map Prod.fst)
      ((fold sep blank false j post').map Prod.fst)
    rw [htext, heq, hrest, hsqueeze, hk] at h
    have hk := Option.some.inj h
    have hlonger := length_fold_lt blank heq hbounded hbefore
    rw [List.length_map] at hk hle
    rw [ha] at hk
    omega
  · have hpos := hpat.length_pos
    rw [List.length_map] at hpos
    rw [hfold, List.length_map, List.getElem?_append_right le_rfl, Nat.sub_self, List.getElem?_append_left hpos,
      ← List.head?_eq_getElem?]
    exact hfirst
  · have hpos := hpat.length_pos
    rw [List.length_map] at hpos
    rw [hfold, List.length_map, List.length_map, List.getElem?_append_right (by omega),
      List.getElem?_append_left (by omega), show a.length + q.length - 1 - a.length = q.length - 1 by omega,
      ← List.getLast?_eq_getElem?]
    exact hlast

end

end Desk
