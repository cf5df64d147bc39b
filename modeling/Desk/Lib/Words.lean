import Desk.Lib.Fold

/-!
# A text word by word

The text with every run of separators as one blank and none at its ends, and where
a pattern stands in it. The words of the text have places, and the blank after each
of them, so that what is folded is read off the words.
-/

namespace Desk

variable {α : Type} {sep : α → Bool} {blank : α}

/-! ## Trimming -/

theorem dropWhile_around {x : α} (hx : sep x = false) (pre post : List α) :
    (pre ++ x :: post).dropWhile sep = pre.dropWhile sep ++ x :: post := by
  rw [List.dropWhile_append]
  split
  · next hempty =>
    rw [List.isEmpty_iff.mp hempty, List.nil_append, List.dropWhile_cons_of_neg (by rw [hx]; exact Bool.false_ne_true)]
  · rfl

theorem rdropWhile_around {y : α} (hy : sep y = false) (pre post : List α) :
    (pre ++ y :: post).rdropWhile sep = pre ++ y :: post.rdropWhile sep := by
  rw [List.rdropWhile, List.reverse_append, List.reverse_cons, List.append_assoc, List.singleton_append,
    dropWhile_around hy, List.reverse_append, List.reverse_cons, List.reverse_reverse, List.append_assoc,
    List.singleton_append, List.rdropWhile]

/-- What is around a bounded part is trimmed by itself. -/
theorem rdropWhile_part {part : List α} (h : Bounded sep part) (pre post : List α) :
    (pre ++ (part ++ post)).rdropWhile sep = pre ++ (part ++ post.rdropWhile sep) := by
  rcases h.cases with ⟨x, rfl, hx⟩ | ⟨x, mid, y, rfl, hx, hy⟩
  · exact rdropWhile_around hx pre post
  · have hall := rdropWhile_around hy (pre ++ x :: mid) post
    simpa using hall

theorem trim_around (l : List α) :
    ∃ pre post, l = pre ++ (trim sep l ++ post) ∧ (∀ x ∈ pre, sep x = true) ∧ ∀ x ∈ post, sep x = true := by
  refine ⟨l.takeWhile sep, (l.dropWhile sep).rtakeWhile sep, ?_, fun x hx => ?_, fun x hx => ?_⟩
  · rw [trim, List.rdropWhile_append_rtakeWhile, List.takeWhile_append_dropWhile]
  · exact List.all_eq_true.mp List.all_takeWhile x hx
  · exact List.mem_rtakeWhile_imp hx

/-! ## Where a pattern stands -/

section
variable [DecidableEq α]

theorem indexOf_eq_none_iff {pat text : List α} : indexOf pat text = none ↔ ¬ pat <:+: text := by
  constructor
  · rintro hnone ⟨pre, post, rfl⟩
    obtain ⟨i, hi, -⟩ := indexOf_le pat pre post
    rw [List.append_assoc, hi] at hnone
    cases hnone
  · intro hnot
    cases hindex : indexOf pat text with
    | none => rfl
    | some i =>
      obtain ⟨pre, post, rfl, -⟩ := indexOf_split hindex
      exact absurd ⟨pre, post, List.append_assoc pre pat post⟩ hnot

/-- No place of the pattern is before the one that is found. -/
theorem indexOf_first {pat text : List α} {i : Nat} (h : indexOf pat text = some i) {pre post : List α}
    (htext : text = pre ++ (pat ++ post)) : i ≤ pre.length := by
  obtain ⟨j, hj, hle⟩ := indexOf_le pat pre post
  rw [htext, hj] at h
  cases h
  exact hle

/-- A bounded pattern stands nowhere in the separators at the end. -/
theorem indexOf_rdropWhile {pat : List α} (h : Bounded sep pat) (l : List α) :
    indexOf pat (l.rdropWhile sep) = indexOf pat l := by
  have hl : l.rdropWhile sep ++ l.rtakeWhile sep = l := List.rdropWhile_append_rtakeWhile
  cases hindex : indexOf pat l with
  | none =>
    rw [indexOf_eq_none_iff] at hindex ⊢
    exact fun hstands => hindex (hstands.trans (List.rdropWhile_prefix sep l).isInfix)
  | some i =>
    obtain ⟨pre, post, htext, rfl⟩ := indexOf_split hindex
    rw [htext, rdropWhile_part h]
    refine indexOf_eq fun pre' post' heq => ?_
    apply indexOf_first hindex
    rw [← hl, htext, rdropWhile_part h, heq, List.append_assoc, List.append_assoc]

end

/-! ## The folded text -/

variable (sep blank) in
/-- Every run of separators as one blank, and none at the ends. -/
def folded (l : List α) : List α := trim sep (squeeze sep blank l)

theorem dropWhile_fold (i : Nat) (l : List α) :
    ((fold sep blank true i l).map Prod.fst).dropWhile sep = (fold sep blank true i l).map Prod.fst := by
  induction l generalizing i with
  | nil => rfl
  | cons x rest ih =>
    rw [fold, if_pos rfl]
    split
    · exact ih (i + 1)
    · next hx => exact List.dropWhile_cons_of_neg hx

/-- Where the folding begins after a separator, the blanks at the start are left out. -/
theorem map_fold_true (hblank : sep blank = true) (i : Nat) (l : List α) :
    (fold sep blank true i l).map Prod.fst = ((fold sep blank false i l).map Prod.fst).dropWhile sep := by
  cases l with
  | nil => rfl
  | cons x rest =>
    rw [fold, fold, if_pos rfl]
    split
    · rw [if_neg Bool.false_ne_true, List.map_cons, List.dropWhile_cons_of_pos hblank, dropWhile_fold]
    · next hx => rw [List.map_cons, List.dropWhile_cons_of_neg hx]

theorem folded_eq (hblank : sep blank = true) (i : Nat) (l : List α) :
    folded sep blank l = ((fold sep blank true i l).map Prod.fst).rdropWhile sep := by
  rw [folded, trim, squeeze, ← map_fold_true hblank, map_fst_fold true i 0]

theorem fold_separators {pre : List α} (h : ∀ x ∈ pre, sep x = true) (i : Nat) (l : List α) :
    fold sep blank true i (pre ++ l) = fold sep blank true (i + pre.length) l := by
  induction pre generalizing i with
  | nil => rfl
  | cons x pre ih =>
    rw [List.cons_append, fold, if_pos (h x (List.mem_cons_self ..)), if_pos rfl,
      ih (fun y hy => h y (List.mem_cons_of_mem _ hy)), List.length_cons, Nat.add_assoc, Nat.add_comm 1]

theorem separators_fold (hblank : sep blank = true) {l : List α} (h : ∀ x ∈ l, sep x = true) (last : Bool) (i : Nat) :
    ∀ e ∈ fold sep blank last i l, sep e.1 = true := by
  induction l generalizing last i with
  | nil => exact nofun
  | cons x rest ih =>
    have hrest := ih (fun y hy => h y (List.mem_cons_of_mem _ hy))
    rw [fold, if_pos (h x (List.mem_cons_self ..))]
    split
    · exact hrest true (i + 1)
    · intro e he
      rcases List.mem_cons.mp he with rfl | he
      · exact hblank
      · exact hrest true (i + 1) e he

/-- What is trimmed off a text is folded to nothing. -/
theorem folded_trim (hblank : sep blank = true) (l : List α) : folded sep blank l = squeeze sep blank (trim sep l) := by
  obtain ⟨pre, post, hl, hpre, hpost⟩ := trim_around l
  rw [folded_eq hblank 0]
  by_cases hnil : trim sep l = []
  · have hall : ∀ x ∈ l, sep x = true := by
      intro x hx
      rw [hl, hnil, List.nil_append, List.mem_append] at hx
      exact hx.elim (hpre x) (hpost x)
    rw [hnil, List.rdropWhile_eq_nil_iff.mpr]
    · rfl
    · intro x hx
      obtain ⟨e, he, rfl⟩ := List.mem_map.mp hx
      exact separators_fold hblank hall true 0 e he
  · have hbounded := bounded_trim hnil
    obtain ⟨j, hj⟩ := fold_part blank hbounded true 0 pre post
    have hnone : fold sep blank true 0 pre = [] := by
      have hall : fold sep blank true 0 (pre ++ []) = [] := fold_separators hpre 0 []
      rwa [List.append_nil] at hall
    have hrest : ((fold sep blank false j post).map Prod.fst).rdropWhile sep = [] := by
      refine List.rdropWhile_eq_nil_iff.mpr fun x hx => ?_
      obtain ⟨e, he, rfl⟩ := List.mem_map.mp hx
      exact separators_fold hblank hpost false j e he
    rw [← hl, hnone] at hj
    rw [hj, rdropWhile_part (bounded_squeeze hbounded), hrest, List.append_nil, List.map_nil, List.nil_append]

section
variable [DecidableEq α]

/-- A bounded pattern stands in the folded text where it stands in what is folded. -/
theorem indexOf_folded (hblank : sep blank = true) {pat : List α} (h : Bounded sep pat) (text : List α) :
    indexOf pat (folded sep blank text) = indexOf pat ((fold sep blank true 0 text).map Prod.fst) := by
  rw [folded_eq hblank 0, indexOf_rdropWhile h]

end

/-- What stands in a text, its folding stands in the folded text. -/
theorem folded_infix (hblank : sep blank = true) {part : List α} (h : Bounded sep part) (pre post : List α) :
    squeeze sep blank part <:+: folded sep blank (pre ++ (part ++ post)) := by
  obtain ⟨j, hj⟩ := fold_part blank h true 0 pre post
  rw [folded_eq hblank 0, hj, rdropWhile_part (bounded_squeeze h)]
  exact ⟨_, _, List.append_assoc ..⟩

/-! ## Words -/

variable (sep) in
/-- The runs of what is no separator, with their places; `word` is the run that has begun at `place`. -/
def wordsFrom : Nat → List α → List α → List (Nat × List α)
  | place, word, [] => if word.isEmpty then [] else [(place, word)]
  | place, word, x :: rest =>
    if sep x then
      if word.isEmpty then wordsFrom (place + 1) [] rest
      else (place, word) :: wordsFrom (place + word.length + 1) [] rest
    else wordsFrom place (word ++ [x]) rest

variable (sep) in
def wordsOf (text : List α) : List (Nat × List α) := wordsFrom sep 0 [] text

variable (blank) in
/-- The words with their places, and a blank after each. -/
def marked : List (Nat × List α) → List (α × Nat)
  | [] => []
  | (place, word) :: rest => word.zipIdx place ++ (blank, place + word.length) :: marked rest

/-- What is folded is the words, with a blank between them and perhaps one at the end. -/
theorem fold_marked (text : List α) (place : Nat) (word : List α) :
    word.zipIdx place ++ fold sep blank word.isEmpty (place + word.length) text <+: marked blank (wordsFrom sep place word text) := by
  induction text generalizing place word with
  | nil =>
    cases word with
    | nil => exact List.prefix_rfl
    | cons y word =>
      rw [wordsFrom, List.isEmpty_cons, if_neg Bool.false_ne_true, fold, List.append_nil, marked]
      exact List.prefix_append _ _
  | cons x rest ih =>
    rw [fold, wordsFrom]
    by_cases hx : sep x = true
    · rw [if_pos hx, if_pos hx]
      cases word with
      | nil => exact ih (place + 1) []
      | cons y word =>
        rw [List.isEmpty_cons, if_neg Bool.false_ne_true, if_neg Bool.false_ne_true, marked]
        exact (List.prefix_append_right_inj _).mpr (List.cons_prefix_cons.mpr ⟨rfl, ih (place + (y :: word).length + 1) []⟩)
    · rw [if_neg hx, if_neg hx]
      have hmore := ih place (word ++ [x])
      have hempty : (word ++ [x]).isEmpty = false := by simp
      rw [hempty, List.zipIdx_append, List.length_append, List.length_singleton, List.append_assoc, ← Nat.add_assoc] at hmore
      exact hmore

theorem fold_words (text : List α) : fold sep blank true 0 text <+: marked blank (wordsOf sep text) :=
  fold_marked text 0 []

end Desk
