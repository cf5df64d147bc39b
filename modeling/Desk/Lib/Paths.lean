import Mathlib.Data.List.Induction
import Mathlib.Data.List.TakeWhile

/-!
# Slash-separated paths

A path is cleaned one segment after the other (`clean`), or in one pass over a
buffer (`cleanInPlace`). The two agree, and cleaning commutes with a change of
alphabet that keeps the slash and the dot (`Encoding`).
-/

namespace Desk.Paths

section
variable {α : Type} [DecidableEq α] (slash dot : α)

/-- What a segment does to the segments kept so far. -/
def keep (rooted : Bool) (out : List (List α)) (segment : List α) : List (List α) :=
  if segment = [] ∨ segment = [dot] then out
  else if segment = [dot, dot] then
    if out ≠ [] ∧ out.getLast? ≠ some [dot, dot] then out.dropLast
    else if rooted then out
    else out ++ [[dot, dot]]
  else out ++ [segment]

/-- The segments kept, of the whole path. -/
def kept (raw : List α) : List (List α) :=
  (raw.splitOn slash).foldl (keep dot (raw.head? == some slash)) []

def render (rooted : Bool) (out : List (List α)) : List α :=
  if out = [] then if rooted then [slash] else [dot]
  else (if rooted then [slash] else []) ++ [slash].intercalate out

def clean (raw : List α) : List α := render slash dot (raw.head? == some slash) (kept slash dot raw)

/-! ## In one pass -/

/-- The text ends here, or a slash is next. -/
def atEnd (rest : List α) : Bool := rest.head?.all (· == slash)

/-- Takes the last symbol off the buffer, and more until a slash is off or `dotdot` symbols are left. -/
def back (dotdot : Nat) : List α → List α
  | [] => []
  | c :: out => if dotdot < out.length ∧ c ≠ slash then back dotdot out else out

/-- The loop over the text; the buffer has its last symbol first. -/
def cleanLoop (rooted : Bool) (rest out : List α) (dotdot : Nat) : List α :=
  match rest with
  | [] => out
  | c :: tail =>
    if c = slash then cleanLoop rooted tail out dotdot
    else if c = dot ∧ atEnd slash tail then cleanLoop rooted tail out dotdot
    else if c = dot ∧ tail.head? = some dot ∧ atEnd slash tail.tail then
      if dotdot < out.length then cleanLoop rooted tail.tail (back slash dotdot out) dotdot
      else if rooted then cleanLoop rooted tail.tail out dotdot
      else
        let out := dot :: dot :: (if 0 < out.length then slash :: out else out)
        cleanLoop rooted tail.tail out out.length
    else
      let out := if out.length ≠ (if rooted then 1 else 0) then slash :: out else out
      cleanLoop rooted (tail.dropWhile (· ≠ slash)) ((c :: tail.takeWhile (· ≠ slash)).reverse ++ out) dotdot
termination_by rest.length
decreasing_by
  all_goals simp only [List.length_cons, List.length_tail]
  all_goals first | omega | exact Nat.lt_succ_of_le (List.dropWhile_sublist _).length_le

def cleanInPlace (raw : List α) : List α :=
  if raw = [] then [dot]
  else
    let rooted := raw.head? == some slash
    let out := if rooted then cleanLoop slash dot true raw.tail [slash] 1 else cleanLoop slash dot false raw [] 0
    if out = [] then [dot] else out.reverse

/-! ## Segments -/

variable {slash dot}

/-- A segment of a path, as opposed to what `keep` drops. -/
def IsName (slash dot : α) (segment : List α) : Prop :=
  segment ≠ [] ∧ segment ≠ [dot] ∧ segment ≠ [dot, dot] ∧ slash ∉ segment

theorem keep_empty (rooted : Bool) (out : List (List α)) : keep dot rooted out [] = out := if_pos (Or.inl rfl)

theorem keep_dot (rooted : Bool) (out : List (List α)) : keep dot rooted out [dot] = out := if_pos (Or.inr rfl)

theorem keep_name {segment : List α} (h : IsName slash dot segment) (rooted : Bool) (out : List (List α)) :
    keep dot rooted out segment = out ++ [segment] := by
  unfold keep
  rw [if_neg (not_or.mpr ⟨h.1, h.2.1⟩), if_neg h.2.2.1]

theorem keep_up (rooted : Bool) (out : List (List α)) : keep dot rooted out [dot, dot] =
    if out ≠ [] ∧ out.getLast? ≠ some [dot, dot] then out.dropLast else if rooted then out else out ++ [[dot, dot]] := by
  unfold keep
  rw [if_neg (by simp), if_pos rfl]

theorem isName_or (dot : α) {segment : List α} (h : slash ∉ segment) :
    segment = [] ∨ segment = [dot] ∨ segment = [dot, dot] ∨ IsName slash dot segment := by
  by_cases hempty : segment = []
  · exact Or.inl hempty
  · by_cases hone : segment = [dot]
    · exact Or.inr (Or.inl hone)
    · by_cases htwo : segment = [dot, dot]
      · exact Or.inr (Or.inr (Or.inl htwo))
      · exact Or.inr (Or.inr (Or.inr ⟨hempty, hone, htwo, h⟩))

theorem slash_not_mem_segment {raw segment : List α} (h : segment ∈ raw.splitOn slash) : slash ∉ segment := by
  induction raw generalizing segment with
  | nil =>
    rw [List.splitOn_nil, List.mem_singleton] at h
    simp [h]
  | cons c tail ih =>
    rw [List.splitOn_cons_eq_if_modifyHead] at h
    cases hs : tail.splitOn slash with
    | nil => exact absurd hs (List.splitOn_ne_nil _ _)
    | cons first others =>
      rw [hs] at h ih
      split at h
      · rcases List.mem_cons.mp h with rfl | h
        · exact List.not_mem_nil
        · exact ih h
      · rename_i hc
        rcases List.mem_cons.mp h with rfl | h
        · intro hmem
          rcases List.mem_cons.mp hmem with heq | hmem
          · exact hc (by simp [heq])
          · exact ih List.mem_cons_self hmem
        · exact ih (List.mem_cons_of_mem _ h)

/-- Segments can be folded over one element at a time. -/
theorem foldl_element (f : List (List α) → List α → List (List α)) (hf : ∀ out, f out [] = out) {element rest : List α}
    (he : slash ∉ element) (hr : atEnd slash rest = true) (out : List (List α)) :
    ((element ++ rest).splitOn slash).foldl f out = (rest.splitOn slash).foldl f (f out element) := by
  cases rest with
  | nil =>
    rw [List.append_nil, List.splitOn_eq_singleton he, List.splitOn_nil]
    simp only [List.foldl_cons, List.foldl_nil, hf]
  | cons c rest =>
    have hc : c = slash := by simpa [atEnd] using hr
    subst hc
    rw [List.splitOn_append_cons_self_of_not_mem he, List.splitOn_cons_eq_if_modifyHead, if_pos (by simp)]
    simp only [List.foldl_cons, hf]

theorem atEnd_dropWhile (slash : α) (l : List α) : atEnd slash (l.dropWhile (· ≠ slash)) = true := by
  induction l with
  | nil => rfl
  | cons c tail ih =>
    by_cases hc : c = slash
    · rw [List.dropWhile_cons_of_neg (by simpa using hc)]
      simp [atEnd, hc]
    · rw [List.dropWhile_cons_of_pos (by simpa using hc)]
      exact ih

theorem slash_not_mem_takeWhile (l : List α) : slash ∉ l.takeWhile (· ≠ slash) := by
  intro h
  simpa using List.mem_takeWhile_imp h

theorem mem_keep {rooted : Bool} {out : List (List α)} {segment s : List α} (h : s ∈ keep dot rooted out segment) :
    s ∈ out ∨ s = segment ∧ s ≠ [] ∧ s ≠ [dot] := by
  unfold keep at h
  split at h
  · exact Or.inl h
  · rename_i hsegment
    split at h
    · rename_i hup
      split at h
      · exact Or.inl (List.dropLast_subset _ h)
      · split at h
        · exact Or.inl h
        · rcases List.mem_append.mp h with h | h
          · exact Or.inl h
          · rw [List.mem_singleton.mp h]
            exact Or.inr ⟨hup.symm, by simp, by simp⟩
    · rcases List.mem_append.mp h with h | h
      · exact Or.inl h
      · rw [List.mem_singleton.mp h]
        exact Or.inr ⟨rfl, (not_or.mp hsegment).1, (not_or.mp hsegment).2⟩

theorem mem_foldl_keep {rooted : Bool} (segments : List (List α)) {out : List (List α)} {s : List α}
    (h : s ∈ segments.foldl (keep dot rooted) out) : s ∈ out ∨ s ∈ segments ∧ s ≠ [] ∧ s ≠ [dot] := by
  induction segments generalizing out with
  | nil => exact Or.inl h
  | cons segment segments ih =>
    rcases ih h with h | ⟨hmem, hs⟩
    · rcases mem_keep h with h | ⟨rfl, hs⟩
      · exact Or.inl h
      · exact Or.inr ⟨List.mem_cons_self, hs⟩
    · exact Or.inr ⟨List.mem_cons_of_mem _ hmem, hs⟩

/-- What a segment that is kept is. -/
theorem mem_kept {raw s : List α} (h : s ∈ kept slash dot raw) : s ≠ [] ∧ s ≠ [dot] ∧ slash ∉ s := by
  rcases mem_foldl_keep _ h with h | ⟨hmem, hempty, hdot⟩
  · cases h
  · exact ⟨hempty, hdot, slash_not_mem_segment hmem⟩

/-! ## Joined segments -/

omit [DecidableEq α] in
theorem join_append (out : List (List α)) (segment : List α) : [slash].intercalate (out ++ [segment]) =
    [slash].intercalate out ++ (if out = [] then [] else [slash]) ++ segment := by
  induction out with
  | nil => simp
  | cons first others ih =>
    cases others with
    | nil => simp [List.intercalate_cons_cons]
    | cons second others =>
      rw [List.cons_append, List.cons_append, List.intercalate_cons_cons, ← List.cons_append, ih,
        List.intercalate_cons_cons]
      simp

omit [DecidableEq α] in
theorem join_eq_nil (slash : α) {out : List (List α)} (h : ∀ segment ∈ out, segment ≠ []) :
    [slash].intercalate out = [] ↔ out = [] := by
  constructor
  · intro hjoin
    cases out with
    | nil => rfl
    | cons first others =>
      have hfirst := h first List.mem_cons_self
      cases others with
      | nil => exact absurd (by simpa using hjoin) hfirst
      | cons second others => simp [List.intercalate_cons_cons] at hjoin
  · rintro rfl
    rfl

/-! ## The buffer -/

theorem back_fixed {name : List α} (out : List α) (h : slash ∉ name) (hne : name ≠ []) :
    back slash out.length (name ++ out) = out := by
  induction name with
  | nil => exact absurd rfl hne
  | cons c name ih =>
    rw [List.cons_append, back]
    cases name with
    | nil => rw [if_neg (by simp), List.nil_append]
    | cons d name =>
      rw [if_pos ⟨by simp only [List.length_append, List.length_cons]; omega, fun hc => h (by simp [hc])⟩]
      exact ih (fun hmem => h (List.mem_cons_of_mem _ hmem)) (by simp)

theorem back_slash {dotdot : Nat} {name out : List α} (h : slash ∉ name) (hlen : dotdot ≤ out.length) :
    back slash dotdot (name ++ slash :: out) = out := by
  induction name with
  | nil => rw [List.nil_append, back, if_neg (by simp)]
  | cons c name ih =>
    rw [List.cons_append, back, if_pos ⟨by simp; omega, fun hc => h (by simp [hc])⟩]
    exact ih fun hmem => h (List.mem_cons_of_mem _ hmem)

def root (slash : α) (rooted : Bool) : List α := if rooted then [slash] else []

/-- The buffer holds the segments kept, and `dotdot` is where its climbs end. -/
structure Holds (slash dot : α) (rooted : Bool) (climbs : Nat) (names : List (List α)) (out : List α) (dotdot : Nat) :
    Prop where
  text : out = (root slash rooted ++ [slash].intercalate (List.replicate climbs [dot, dot] ++ names)).reverse
  fixed : dotdot = (root slash rooted ++ [slash].intercalate (List.replicate climbs [dot, dot])).length
  named : ∀ name ∈ names, IsName slash dot name
  still : rooted = true → climbs = 0

namespace Holds

variable {rooted : Bool} {climbs dotdot : Nat} {names : List (List α)} {out : List α}

omit [DecidableEq α] in
theorem ne_nil (h : Holds slash dot rooted climbs names out dotdot) :
    ∀ segment ∈ List.replicate climbs [dot, dot] ++ names, segment ≠ [] := by
  intro segment hmem
  rcases List.mem_append.mp hmem with hmem | hmem
  · rw [List.eq_of_mem_replicate hmem]
    exact List.cons_ne_nil _ _
  · exact (h.named _ hmem).1

omit [DecidableEq α] in
theorem length_eq (h : Holds slash dot rooted climbs names out dotdot) :
    out.length = (if rooted then 1 else 0) ↔ List.replicate climbs [dot, dot] ++ names = [] := by
  rw [← join_eq_nil slash h.ne_nil, h.text, List.length_reverse, List.length_append, ← List.length_eq_zero_iff]
  cases rooted <;> simp [root]

omit [DecidableEq α] in
theorem append (h : Holds slash dot rooted climbs names out dotdot) {element : List α} (he : IsName slash dot element) :
    Holds slash dot rooted climbs (names ++ [element])
      (element.reverse ++ if out.length ≠ (if rooted then 1 else 0) then slash :: out else out) dotdot where
  text := by
    rw [← List.append_assoc, join_append]
    by_cases hempty : List.replicate climbs [dot, dot] ++ names = []
    · rw [if_neg (not_not.mpr (h.length_eq.mpr hempty)), if_pos hempty, h.text]
      simp
    · rw [if_pos (fun heq => hempty (h.length_eq.mp heq)), if_neg hempty, h.text]
      simp
  fixed := h.fixed
  named := by
    intro name hmem
    rcases List.mem_append.mp hmem with hmem | hmem
    · exact h.named name hmem
    · rw [List.mem_singleton.mp hmem]
      exact he
  still := h.still

omit [DecidableEq α] in
theorem fixed_lt (h : Holds slash dot rooted climbs names out dotdot) : dotdot < out.length ↔ names ≠ [] := by
  constructor
  · rintro hlt rfl
    rw [h.text, h.fixed, List.append_nil, List.length_reverse] at hlt
    exact absurd hlt (Nat.lt_irrefl _)
  · intro hne
    rcases List.eq_nil_or_concat names with rfl | ⟨names, last, rfl⟩
    · exact absurd rfl hne
    · have hlast : last ≠ [] := (h.named last (by simp)).1
      have hprefix : ([slash].intercalate (List.replicate climbs [dot, dot])).length ≤
          ([slash].intercalate (List.replicate climbs [dot, dot] ++ names)).length := by
        clear h hne
        induction names using List.reverseRecOn with
        | nil => simp
        | append_singleton names name ih =>
          rw [← List.append_assoc, join_append, List.append_assoc, List.length_append]
          exact Nat.le_trans ih (Nat.le_add_right _ _)
      have hpos := List.length_pos_iff.mpr hlast
      rw [h.text, h.fixed, List.concat_eq_append, ← List.append_assoc, join_append, List.length_reverse]
      simp only [List.length_append]
      omega

/-- What the buffer has after its last name is taken back. -/
theorem pop (h : Holds slash dot rooted climbs names out dotdot) (hne : names ≠ []) :
    Holds slash dot rooted climbs names.dropLast (back slash dotdot out) dotdot := by
  rcases List.eq_nil_or_concat names with rfl | ⟨names, last, rfl⟩
  · exact absurd rfl hne
  · rw [List.concat_eq_append] at h ⊢
    have hlast := h.named last (by simp)
    have hmem : slash ∉ last.reverse := fun hmem => hlast.2.2.2 (List.mem_reverse.mp hmem)
    have hnamed : ∀ name ∈ names, IsName slash dot name := fun name hmem => h.named name (List.mem_append_left _ hmem)
    rw [List.dropLast_concat]
    refine ⟨?_, h.fixed, hnamed, h.still⟩
    rw [h.text, ← List.append_assoc, join_append]
    by_cases hempty : List.replicate climbs [dot, dot] ++ names = []
    · have hdotdot : dotdot = (root slash rooted).reverse.length := by
        rw [h.fixed, (List.append_eq_nil_iff.mp hempty).1]
        simp
      rw [if_pos hempty, hempty, hdotdot]
      simpa using back_fixed (root slash rooted).reverse hmem (by simpa using hlast.1)
    · rw [if_neg hempty]
      have hlen : dotdot ≤ (root slash rooted ++ [slash].intercalate (List.replicate climbs [dot, dot] ++ names)).reverse.length := by
        have hbefore : Holds slash dot rooted climbs names
            (root slash rooted ++ [slash].intercalate (List.replicate climbs [dot, dot] ++ names)).reverse dotdot :=
          ⟨rfl, h.fixed, hnamed, h.still⟩
        by_cases hnames : names = []
        · rw [h.fixed, hnames, List.append_nil, List.length_reverse]
        · exact Nat.le_of_lt (hbefore.fixed_lt.mpr hnames)
      simpa using back_slash hmem hlen

omit [DecidableEq α] in
theorem climb (h : Holds slash dot false climbs [] out dotdot) :
    Holds slash dot false (climbs + 1) [] (dot :: dot :: (if 0 < out.length then slash :: out else out))
      (dot :: dot :: (if 0 < out.length then slash :: out else out)).length := by
  have htext : dot :: dot :: (if 0 < out.length then slash :: out else out) =
      (root slash false ++ [slash].intercalate (List.replicate (climbs + 1) [dot, dot] ++ [])).reverse := by
    have hlength := h.length_eq
    rw [List.append_nil, List.replicate_succ', join_append]
    rw [List.append_nil] at hlength
    by_cases hempty : List.replicate climbs [dot, dot] = []
    · have hout : out.length = 0 := hlength.mpr hempty
      rw [if_neg (by omega), if_pos hempty, h.text]
      simp [root, hempty]
    · have hout : out.length ≠ 0 := fun heq => hempty (hlength.mp heq)
      rw [if_pos (by omega), if_neg hempty, h.text]
      simp [root]
  refine ⟨htext, ?_, nofun, nofun⟩
  rw [htext, List.append_nil, List.length_reverse]

theorem keep_parent (h : Holds slash dot rooted climbs names out dotdot) :
    keep dot rooted (List.replicate climbs [dot, dot] ++ names) [dot, dot] =
      if names ≠ [] then List.replicate climbs [dot, dot] ++ names.dropLast
      else if rooted then List.replicate climbs [dot, dot]
      else List.replicate (climbs + 1) [dot, dot] := by
  rw [keep_up]
  by_cases hne : names = []
  · subst hne
    rw [if_neg (not_not.mpr rfl), List.append_nil, if_neg, List.replicate_succ']
    rintro ⟨hclimbs, hlast⟩
    obtain ⟨k, rfl⟩ : ∃ k, climbs = k + 1 := ⟨climbs - 1, by cases climbs <;> simp_all⟩
    rw [List.replicate_succ', List.getLast?_concat] at hlast
    exact hlast rfl
  · rw [if_pos hne, if_pos, List.dropLast_append_of_ne_nil hne]
    refine ⟨fun heq => hne (List.append_eq_nil_iff.mp heq).2, ?_⟩
    rw [List.getLast?_append, List.getLast?_eq_some_getLast hne, Option.some_or]
    intro hlast
    exact (h.named _ (List.getLast_mem hne)).2.2.1 (Option.some.inj hlast)

end Holds

/-- The pass over the buffer keeps the segments that folding over them keeps. -/
theorem cleanLoop_eq (hdot : dot ≠ slash) {rooted : Bool} {climbs dotdot : Nat} {names : List (List α)} {rest out : List α}
    (h : Holds slash dot rooted climbs names out dotdot) :
    cleanLoop slash dot rooted rest out dotdot = (root slash rooted ++ [slash].intercalate
      ((rest.splitOn slash).foldl (keep dot rooted) (List.replicate climbs [dot, dot] ++ names))).reverse := by
  induction hn : rest.length using Nat.strong_induction_on generalizing climbs names rest out dotdot with
  | _ n ih =>
    subst hn
    -- an element that the fold does before the rest
    have hstep : ∀ (element : List α) {after : List α}, slash ∉ element → atEnd slash after = true →
        ((element ++ after).splitOn slash).foldl (keep dot rooted) (List.replicate climbs [dot, dot] ++ names) =
          (after.splitOn slash).foldl (keep dot rooted)
            (keep dot rooted (List.replicate climbs [dot, dot] ++ names) element) :=
      fun _ _ helement hafter => foldl_element (keep dot rooted) (keep_empty rooted) helement hafter _
    cases rest with
    | nil =>
      rw [cleanLoop, List.splitOn_nil, List.foldl_cons, List.foldl_nil, keep_empty]
      exact h.text
    | cons c tail =>
      rw [cleanLoop]
      split
      · rename_i hc
        rw [ih tail.length (Nat.lt_succ_self _) h rfl, hc, List.splitOn_cons_eq_if_modifyHead, if_pos (by simp),
          List.foldl_cons, keep_empty]
      · rename_i hc
        split
        · rename_i hone
          have hfold := hstep [dot] (by simpa using hdot.symm) hone.2
          rw [keep_dot] at hfold
          rw [ih tail.length (Nat.lt_succ_self _) h rfl, hone.1, ← hfold, List.singleton_append]
        · rename_i hone
          split
          · rename_i htwo
            obtain ⟨rfl, hhead, hend⟩ := htwo
            obtain ⟨after, rfl⟩ : ∃ after, tail = c :: after := by
              cases tail with
              | nil => cases hhead
              | cons d after => exact ⟨after, by rw [Option.some.inj hhead]⟩
            have hlen : after.length < (c :: c :: after).length := by simp only [List.length_cons]; omega
            have hfold := hstep [c, c] (by simpa using hdot.symm) hend
            rw [List.tail_cons] at hend hfold ⊢
            rw [h.keep_parent] at hfold
            rw [show c :: c :: after = [c, c] ++ after from rfl, hfold]
            split
            · rename_i hlt
              have hnames := h.fixed_lt.mp hlt
              rw [ih after.length hlen (h.pop hnames) rfl, if_pos hnames]
            · rename_i hlt
              have hnames : names = [] := not_not.mp fun hne => hlt (h.fixed_lt.mpr hne)
              subst hnames
              rw [if_neg (not_not.mpr rfl)]
              split
              · rw [ih after.length hlen h rfl, List.append_nil]
              · rename_i hroot
                obtain rfl : rooted = false := by simpa using hroot
                rw [ih after.length hlen h.climb rfl, List.append_nil]
          · rename_i htwo
            have hmem : slash ∉ c :: tail.takeWhile (· ≠ slash) := by
              intro hmem
              rcases List.mem_cons.mp hmem with heq | hmem
              · exact hc heq.symm
              · exact slash_not_mem_takeWhile tail hmem
            have hend := atEnd_dropWhile slash tail
            have hcut : tail.takeWhile (· ≠ slash) ++ tail.dropWhile (· ≠ slash) = tail := List.takeWhile_append_dropWhile
            have hname : IsName slash dot (c :: tail.takeWhile (· ≠ slash)) := by
              rcases isName_or dot hmem with hnil | hdot' | hdots | hname
              · cases hnil
              · obtain ⟨rfl, hrest⟩ := List.cons.inj hdot'
                rw [hrest, List.nil_append] at hcut
                rw [hcut] at hend
                exact absurd ⟨rfl, hend⟩ hone
              · obtain ⟨rfl, hrest⟩ := List.cons.inj hdots
                rw [hrest] at hcut
                exact absurd ⟨rfl, by rw [← hcut]; exact ⟨rfl, hend⟩⟩ htwo
              · exact hname
            have hlen : (tail.dropWhile (· ≠ slash)).length < (c :: tail).length :=
              Nat.lt_succ_of_le (List.dropWhile_sublist _).length_le
            have hfold := hstep _ hmem hend
            rw [List.cons_append, hcut, keep_name hname, List.append_assoc] at hfold
            rw [ih _ hlen (h.append hname) rfl, hfold]

omit [DecidableEq α] in
theorem holds_start (rooted : Bool) : Holds slash dot rooted 0 [] (root slash rooted) (root slash rooted).length where
  text := by cases rooted <;> simp [root]
  fixed := by simp
  named := nofun
  still := fun _ => rfl

theorem kept_rooted (tail : List α) : kept slash dot (slash :: tail) = (tail.splitOn slash).foldl (keep dot true) [] := by
  unfold kept
  rw [List.head?_cons, beq_self_eq_true, List.splitOn_cons_eq_if_modifyHead, if_pos (beq_self_eq_true _), List.foldl_cons,
    keep_empty]

theorem cleanInPlace_eq (hdot : dot ≠ slash) (raw : List α) : cleanInPlace slash dot raw = clean slash dot raw := by
  cases raw with
  | nil => simp [cleanInPlace, clean, render, kept, keep_empty]
  | cons c tail =>
    unfold cleanInPlace clean
    rw [if_neg (List.cons_ne_nil _ _), List.head?_cons]
    by_cases hroot : c = slash
    · subst hroot
      have hloop : cleanLoop c dot true tail [c] 1 = (c :: [c].intercalate (kept c dot (c :: tail))).reverse := by
        rw [kept_rooted]
        exact cleanLoop_eq hdot (holds_start true)
      rw [beq_self_eq_true, List.tail_cons]
      dsimp only
      rw [if_pos rfl, hloop, if_neg (by simp), List.reverse_reverse, render]
      split
      · rename_i hkept
        rw [hkept]
        rfl
      · rfl
    · have hhead : (some c == some slash) = false := by simpa using hroot
      have hloop : cleanLoop slash dot false (c :: tail) [] 0 = ([slash].intercalate (kept slash dot (c :: tail))).reverse := by
        unfold kept
        rw [List.head?_cons, hhead]
        exact cleanLoop_eq hdot (holds_start false)
      have hjoin := join_eq_nil slash fun segment (hmem : segment ∈ kept slash dot (c :: tail)) => (mem_kept hmem).1
      rw [hhead]
      dsimp only
      rw [if_neg Bool.false_ne_true, hloop]
      simp only [render, List.reverse_eq_nil_iff, List.reverse_reverse, hjoin, Bool.false_eq_true, if_false, List.nil_append]

/-! ## How deep a path leads -/

/-- How deep a segment leads from a depth; `none` is above the start. -/
def descend (dot : α) : Option Nat → List α → Option Nat
  | none, _ => none
  | some depth, segment =>
    if segment = [] ∨ segment = [dot] then some depth
    else if segment = [dot, dot] then (if depth = 0 then none else some (depth - 1))
    else some (depth + 1)

/-- How deep under its start a path leads; `none` where it climbs out on the way. -/
def depth (slash dot : α) (raw : List α) : Option Nat := (raw.splitOn slash).foldl (descend dot) (some 0)

/-- The segments kept of a path that is so deep. -/
def AtDepth (dot : α) (out : List (List α)) : Option Nat → Prop
  | none => out.head? = some [dot, dot]
  | some depth => out.length = depth ∧ [dot, dot] ∉ out

theorem atDepth_keep {out : List (List α)} {d : Option Nat} (h : AtDepth dot out d) (segment : List α) :
    AtDepth dot (keep dot false out segment) (descend dot d segment) := by
  by_cases hdrop : segment = [] ∨ segment = [dot]
  · have hkeep : keep dot false out segment = out := if_pos hdrop
    rw [hkeep]
    cases d with
    | none => exact h
    | some depth =>
      rw [descend, if_pos hdrop]
      exact h
  · by_cases hup : segment = [dot, dot]
    · subst hup
      rw [keep_up]
      cases d with
      | none =>
        rw [AtDepth] at h
        split
        · rename_i hlast
          rcases out with _ | ⟨first, _ | ⟨second, others⟩⟩
          · cases h
          · exact absurd h hlast.2
          · exact h
        · rw [if_neg Bool.false_ne_true]
          cases out with
          | nil => cases h
          | cons first others => exact h
      | some depth =>
        obtain ⟨hlen, hmem⟩ := h
        rw [descend, if_neg hdrop, if_pos rfl]
        by_cases hzero : depth = 0
        · subst hzero
          rw [if_pos rfl, List.length_eq_zero_iff.mp hlen, if_neg (fun hne => hne.1 rfl), if_neg Bool.false_ne_true]
          exact rfl
        · have hne : out ≠ [] := fun heq => hzero (by rw [← hlen, heq]; rfl)
          rw [if_neg hzero, if_pos ⟨hne, fun hlast => hmem (List.mem_of_getLast? hlast)⟩]
          exact ⟨by rw [List.length_dropLast, hlen], fun hdots => hmem (List.dropLast_subset _ hdots)⟩
    · have hkeep : keep dot false out segment = out ++ [segment] := by
        unfold keep
        rw [if_neg hdrop, if_neg hup]
      rw [hkeep]
      cases d with
      | none =>
        cases out with
        | nil => cases h
        | cons first others => exact h
      | some depth =>
        rw [descend, if_neg hdrop, if_neg hup]
        refine ⟨by rw [List.length_append, h.1]; rfl, fun hmem => ?_⟩
        rcases List.mem_append.mp hmem with hmem | hmem
        · exact h.2 hmem
        · exact hup (List.mem_singleton.mp hmem).symm

theorem atDepth_foldl (segments : List (List α)) {out : List (List α)} {d : Option Nat} (h : AtDepth dot out d) :
    AtDepth dot (segments.foldl (keep dot false) out) (segments.foldl (descend dot) d) := by
  induction segments generalizing out d with
  | nil => exact h
  | cons segment segments ih => exact ih (atDepth_keep h segment)

theorem atDepth_kept (dot : α) {raw : List α} (h : raw.head? ≠ some slash) : AtDepth dot (kept slash dot raw) (depth slash dot raw) := by
  have hroot : (raw.head? == some slash) = false := by simpa using h
  unfold kept depth
  rw [hroot]
  exact atDepth_foldl _ ⟨rfl, List.not_mem_nil⟩

theorem clean_eq {raw : List α} (h : raw.head? ≠ some slash) : clean slash dot raw =
    if kept slash dot raw = [] then [dot] else [slash].intercalate (kept slash dot raw) := by
  have hroot : (raw.head? == some slash) = false := by simpa using h
  unfold clean render
  rw [hroot]
  simp only [Bool.false_eq_true, if_false, List.nil_append]

theorem splitOn_clean {raw : List α} (h : raw.head? ≠ some slash) (hne : kept slash dot raw ≠ []) :
    (clean slash dot raw).splitOn slash = kept slash dot raw := by
  rw [clean_eq h, if_neg hne, List.splitOn_intercalate slash (fun _ hmem => (mem_kept hmem).2.2) hne]

theorem clean_eq_dot {raw : List α} (h : raw.head? ≠ some slash) : clean slash dot raw = [dot] ↔ kept slash dot raw = [] := by
  rw [clean_eq h]
  split
  · rename_i hempty
    exact iff_of_true rfl hempty
  · rename_i hne
    refine iff_of_false (fun hjoin => ?_) hne
    have hsegments := splitOn_clean h hne
    rw [clean_eq h, if_neg hne, hjoin] at hsegments
    by_cases hdot : slash ∈ [dot]
    · rw [List.mem_singleton.mp hdot, List.splitOn_cons_eq_if_modifyHead, if_pos (beq_self_eq_true _)] at hsegments
      exact (mem_kept (hsegments ▸ List.mem_cons_self)).1 rfl
    · rw [List.splitOn_eq_singleton hdot] at hsegments
      exact (mem_kept (hsegments ▸ List.mem_cons_self)).2.1 rfl

theorem head?_splitOn {element path : List α} (he : slash ∉ element) :
    (path.splitOn slash).head? = some element ↔ path = element ∨ element ++ [slash] <+: path := by
  constructor
  · intro hhead
    have hjoin : [slash].intercalate (path.splitOn slash) = path := List.intercalate_splitOn slash
    rcases hs : path.splitOn slash with _ | ⟨first, _ | ⟨second, others⟩⟩
    · exact absurd hs (List.splitOn_ne_nil _ _)
    · rw [hs] at hhead hjoin
      rw [List.intercalate_singleton] at hjoin
      exact Or.inl (hjoin.symm.trans (Option.some.inj hhead))
    · rw [hs] at hhead hjoin
      rw [List.intercalate_cons_cons, Option.some.inj hhead] at hjoin
      exact Or.inr ⟨_, hjoin⟩
  · rintro (rfl | ⟨rest, rfl⟩)
    · rw [List.splitOn_eq_singleton he, List.head?_cons]
    · rw [List.append_assoc, List.singleton_append, List.splitOn_append_cons_self_of_not_mem he, List.head?_cons]

theorem head?_eq_slash {l : List α} : l.head? = some slash ↔ l ≠ [] ∧ (l.splitOn slash).head? = some [] := by
  rw [head?_splitOn List.not_mem_nil]
  cases l with
  | nil => simp
  | cons c l => simp [List.cons_prefix_cons, eq_comm]

theorem kept_eq_nil {raw : List α} (h : raw.head? ≠ some slash) : kept slash dot raw = [] ↔ depth slash dot raw = some 0 := by
  have hdepth := atDepth_kept dot h
  constructor
  · intro hempty
    rw [hempty] at hdepth
    cases hd : depth slash dot raw with
    | none =>
      rw [hd] at hdepth
      cases hdepth
    | some depth =>
      rw [hd] at hdepth
      rw [← hdepth.1]
      rfl
  · intro hzero
    rw [hzero] at hdepth
    exact List.length_eq_zero_iff.mp hdepth.1

theorem up_mem_kept {raw : List α} (h : raw.head? ≠ some slash) :
    [dot, dot] ∈ kept slash dot raw ↔ depth slash dot raw = none := by
  have hdepth := atDepth_kept dot h
  constructor
  · intro hmem
    cases hd : depth slash dot raw with
    | none => rfl
    | some depth =>
      rw [hd] at hdepth
      exact absurd hmem hdepth.2
  · intro hnone
    rw [hnone] at hdepth
    exact List.mem_of_mem_head? hdepth

/-- What climbs out shows it at the start. -/
theorem climbs_clean (hdot : dot ≠ slash) {raw : List α} (h : raw.head? ≠ some slash) :
    (clean slash dot raw = [dot, dot] ∨ [dot, dot] ++ [slash] <+: clean slash dot raw) ↔ depth slash dot raw = none := by
  have hslash : ∀ n, slash ∉ List.replicate n dot := fun n hmem => hdot (List.eq_of_mem_replicate hmem).symm
  rw [← head?_splitOn (show slash ∉ [dot, dot] from hslash 2)]
  by_cases hempty : kept slash dot raw = []
  · rw [(clean_eq_dot h).mpr hempty, List.splitOn_eq_singleton (show slash ∉ [dot] from hslash 1), (kept_eq_nil h).mp hempty]
    simp
  · rw [splitOn_clean h hempty]
    have hdepth := atDepth_kept dot h
    constructor
    · intro hhead
      exact (up_mem_kept h).mp (List.mem_of_mem_head? hhead)
    · intro hnone
      rw [hnone] at hdepth
      exact hdepth

end

/-! ## Another alphabet -/

/-- A change of alphabet that keeps slashes apart and tells dots from everything else. -/
structure Encoding {α β : Type} (slash dot : α) (slash' dot' : β) (f : List α → List β) : Prop where
  append : ∀ a b, f (a ++ slash :: b) = f a ++ slash' :: f b
  slashless : ∀ a, slash ∉ a → slash' ∉ f a
  nil : ∀ a, f a = [] ↔ a = []
  one : ∀ a, f a = [dot'] ↔ a = [dot]
  two : ∀ a, f a = [dot', dot'] ↔ a = [dot, dot]

namespace Encoding

variable {α β : Type} [DecidableEq α] [DecidableEq β] {slash dot : α} {slash' dot' : β} {f : List α → List β}

omit [DecidableEq α] [DecidableEq β] in
theorem join (h : Encoding slash dot slash' dot' f) (out : List (List α)) :
    f ([slash].intercalate out) = [slash'].intercalate (out.map f) := by
  induction out with
  | nil => exact (h.nil []).mpr rfl
  | cons first others ih =>
    cases others with
    | nil => simp
    | cons second others =>
      rw [List.map_cons, List.map_cons, List.intercalate_cons_cons, List.intercalate_cons_cons, ← List.map_cons, ← ih,
        List.append_assoc, List.singleton_append, h.append, List.append_assoc, List.singleton_append]

theorem splitOn (h : Encoding slash dot slash' dot' f) (a : List α) :
    (f a).splitOn slash' = (a.splitOn slash).map f := by
  have hne : (a.splitOn slash).map f ≠ [] := fun hnil => List.splitOn_ne_nil _ _ (List.map_eq_nil_iff.mp hnil)
  have hslash : ∀ segment ∈ (a.splitOn slash).map f, slash' ∉ segment := by
    intro segment hmem
    obtain ⟨s, hs, rfl⟩ := List.mem_map.mp hmem
    exact h.slashless s (slash_not_mem_segment hs)
  calc (f a).splitOn slash'
      = (f ([slash].intercalate (a.splitOn slash))).splitOn slash' := by rw [List.intercalate_splitOn]
    _ = ([slash'].intercalate ((a.splitOn slash).map f)).splitOn slash' := by rw [h.join]
    _ = (a.splitOn slash).map f := List.splitOn_intercalate slash' hslash hne

theorem head?_eq (h : Encoding slash dot slash' dot' f) (a : List α) :
    (f a).head? = some slash' ↔ a.head? = some slash := by
  rw [head?_eq_slash, head?_eq_slash (l := a), h.splitOn, List.head?_map, Ne, h.nil]
  refine and_congr_right fun _ => ?_
  cases (a.splitOn slash).head? with
  | none => simp
  | some first => simp [h.nil]

theorem keep_eq (h : Encoding slash dot slash' dot' f) (rooted : Bool) (out : List (List α)) (segment : List α) :
    keep dot' rooted (out.map f) (f segment) = (keep dot rooted out segment).map f := by
  have hlast : (out.map f).getLast? = some [dot', dot'] ↔ out.getLast? = some [dot, dot] := by
    rw [List.getLast?_map]
    cases out.getLast? with
    | none => simp
    | some last => simp [h.two]
  unfold keep
  simp only [h.nil, h.one, h.two, Ne, List.map_eq_nil_iff, hlast]
  split
  · rfl
  · split
    · split
      · rw [List.map_dropLast]
      · split
        · rfl
        · rw [List.map_append, List.map_singleton, (h.two _).mpr rfl]
    · rw [List.map_append, List.map_singleton]

theorem kept_eq (h : Encoding slash dot slash' dot' f) (a : List α) : kept slash' dot' (f a) = (kept slash dot a).map f := by
  have hfold : ∀ (rooted : Bool) (segments out : List (List α)),
      (segments.map f).foldl (keep dot' rooted) (out.map f) = (segments.foldl (keep dot rooted) out).map f := by
    intro rooted segments
    induction segments with
    | nil => exact fun _ => rfl
    | cons segment segments ih =>
      intro out
      rw [List.map_cons, List.foldl_cons, List.foldl_cons, h.keep_eq, ih]
  have hroot : ((f a).head? == some slash') = (a.head? == some slash) := by
    rw [Bool.eq_iff_iff]
    simpa using h.head?_eq a
  unfold kept
  rw [h.splitOn, hroot]
  exact hfold _ _ []

theorem clean_eq (h : Encoding slash dot slash' dot' f) {a : List α} (ha : a.head? ≠ some slash) :
    clean slash' dot' (f a) = f (clean slash dot a) := by
  rw [Paths.clean_eq (fun hhead => ha ((h.head?_eq a).mp hhead)), Paths.clean_eq ha, h.kept_eq]
  simp only [List.map_eq_nil_iff]
  split
  · exact ((h.one _).mpr rfl).symm
  · exact (h.join _).symm

end Encoding

end Desk.Paths
