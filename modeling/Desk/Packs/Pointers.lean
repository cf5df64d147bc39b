import Desk.Lib.JsonText

/-!
# Pointers

A path of names and indices as one string, and back. `~` and `/` of a step are
written `~0` and `~1`; any other escape is refused.
-/

namespace Desk

namespace Pointers

/-- One unit of a step as a pointer writes it; the halves of a surrogate pair are neither `~` nor `/`. -/
def escapeStep (u : UInt16) : Units :=
  if u = unit '~' then [unit '~', unit '0'] else if u = unit '/' then [unit '~', unit '1'] else [u]

def escaped (part : Units) : Units := part.flatMap escapeStep

def pointer (parts : List Units) : Units := parts.flatMap fun part => unit '/' :: escaped part

/-- One token of a pointer. -/
def unescape : Units → Option Units
  | [] => some []
  | c :: rest =>
    if c ≠ unit '~' then (unescape rest).map fun out => c :: out
    else
      match rest with
      | [] => none
      | next :: rest =>
        if next = unit '0' then (unescape rest).map fun out => unit '~' :: out
        else if next = unit '1' then (unescape rest).map fun out => unit '/' :: out
        else none

def parsePointer : Units → Option (List Units)
  | [] => some []
  | c :: rest => if c = unit '/' then (rest.splitOn (unit '/')).mapM unescape else none

/-! ## What is written is read back -/

theorem unescape_escaped (part : Units) : unescape (escaped part) = some part := by
  induction part with
  | nil => rfl
  | cons u part ih =>
    rw [escaped, List.flatMap_cons, ← escaped, escapeStep]
    split
    · next h =>
      show unescape (unit '~' :: unit '0' :: escaped part) = _
      rw [unescape, if_neg (by simp), if_pos rfl, ih, h]
      rfl
    · next hne =>
      split
      · next h =>
        show unescape (unit '~' :: unit '1' :: escaped part) = _
        rw [unescape, if_neg (by simp), if_neg (by decide), if_pos rfl, ih, h]
        rfl
      · show unescape (u :: escaped part) = _
        rw [unescape.eq_def]
        simp only [if_pos hne, ih]
        rfl

/-- No slash is left in a step that is escaped. -/
theorem slash_not_mem_escaped (part : Units) : unit '/' ∉ escaped part := by
  intro h
  obtain ⟨u, _, hu⟩ := List.mem_flatMap.mp h
  unfold escapeStep at hu
  split at hu
  · exact absurd hu (by decide)
  · split at hu
    · exact absurd hu (by decide)
    · next h => exact h (List.mem_singleton.mp hu).symm

theorem pointer_cons (part : Units) (parts : List Units) : pointer (part :: parts) = unit '/' :: (escaped part ++ pointer parts) :=
  rfl

theorem pointer_append (a b : List Units) : pointer (a ++ b) = pointer a ++ pointer b := List.flatMap_append

theorem pointer_concat (path : List Units) (x : Units) : pointer (path ++ [x]) = pointer path ++ unit '/' :: escaped x := by
  rw [pointer_append]
  simp [pointer]

/-- The tokens with slashes between them, after the first slash. -/
theorem pointer_intercalate (part : Units) (parts : List Units) :
    escaped part ++ pointer parts = List.intercalate [unit '/'] ((part :: parts).map escaped) := by
  induction parts generalizing part with
  | nil => simp [pointer, List.intercalate]
  | cons next parts ih =>
    rw [pointer_cons, ih]
    simp [List.intercalate]

theorem parsePointer_pointer (parts : List Units) : parsePointer (pointer parts) = some parts := by
  cases parts with
  | nil => rfl
  | cons part parts =>
    have hsplit : (escaped part ++ pointer parts).splitOn (unit '/') = (part :: parts).map escaped := by
      rw [pointer_intercalate, List.splitOn_intercalate _ _ (by simp)]
      intro l hl
      obtain ⟨x, _, rfl⟩ := List.mem_map.mp hl
      exact slash_not_mem_escaped x
    rw [pointer_cons, parsePointer, if_pos rfl, hsplit]
    generalize part :: parts = all
    induction all with
    | nil => rfl
    | cons x all ih =>
      rw [List.map_cons, List.mapM_cons, unescape_escaped, ih]
      rfl

theorem pointer_injective {a b : List Units} (h : pointer a = pointer b) : a = b := by
  have ha := parsePointer_pointer a
  rw [h, parsePointer_pointer] at ha
  exact (Option.some.inj ha).symm

/-! ## What is read was written so -/

theorem escaped_of_unescape (token : Units) : ∀ {part : Units}, unit '/' ∉ token → unescape token = some part →
    escaped part = token := by
  fun_induction unescape token with
  | case1 =>
    intro part _ h
    rw [← Option.some.inj h]
    rfl
  | case2 c rest hc ih =>
    intro part hslash h
    obtain ⟨out, hout, rfl⟩ := Option.map_eq_some_iff.mp h
    rw [List.mem_cons, not_or] at hslash
    rw [escaped, List.flatMap_cons, ← escaped, ih hslash.2 hout, escapeStep, if_neg hc, if_neg (Ne.symm hslash.1)]
    rfl
  | case3 c hc => exact fun _ h => nomatch h
  | case4 c hc rest ih =>
    intro part hslash h
    obtain ⟨out, hout, rfl⟩ := Option.map_eq_some_iff.mp h
    rw [List.mem_cons, List.mem_cons, not_or, not_or] at hslash
    rw [escaped, List.flatMap_cons, ← escaped, ih hslash.2.2 hout, escapeStep, if_pos rfl, not_not.mp hc]
    rfl
  | case5 c hc rest _ ih =>
    intro part hslash h
    obtain ⟨out, hout, rfl⟩ := Option.map_eq_some_iff.mp h
    rw [List.mem_cons, List.mem_cons, not_or, not_or] at hslash
    rw [escaped, List.flatMap_cons, ← escaped, ih hslash.2.2 hout, escapeStep, if_neg (by decide), if_pos rfl, not_not.mp hc]
    rfl
  | case6 c hc next rest h0 h1 => exact fun _ h => nomatch h

theorem not_mem_of_splitOn {x : UInt16} : ∀ {text token : Units}, token ∈ text.splitOn x → x ∉ token
  | [], token, h => by
    rw [List.splitOn_nil, List.mem_singleton] at h
    rw [h]
    exact List.not_mem_nil
  | c :: rest, token, h => by
    rw [List.splitOn_cons_eq_if_modifyHead] at h
    split at h
    · rcases List.mem_cons.mp h with rfl | h
      · exact List.not_mem_nil
      · exact not_mem_of_splitOn h
    · rename_i hc
      cases hrest : rest.splitOn x with
      | nil => exact absurd hrest (List.splitOn_ne_nil x rest)
      | cons head tail =>
        have hmem : ∀ {t}, t ∈ head :: tail → x ∉ t := fun ht => not_mem_of_splitOn (hrest ▸ ht)
        rw [hrest, List.modifyHead_cons, List.mem_cons] at h
        rcases h with rfl | h
        · rw [List.mem_cons, not_or]
          exact ⟨fun heq => hc (by rw [heq]; exact BEq.refl c), hmem (List.mem_cons_self ..)⟩
        · exact hmem (List.mem_cons_of_mem _ h)

/-- Only the pointer of a path is read as that path. -/
theorem pointer_of_parse {text : Units} {parts : List Units} (h : parsePointer text = some parts) : pointer parts = text := by
  cases text with
  | nil => rw [← Option.some.inj h]; rfl
  | cons c rest =>
    rw [parsePointer] at h
    split at h
    · rename_i hc
      have htokens : ∀ {tokens parts : List Units}, (∀ token ∈ tokens, unit '/' ∉ token) →
          tokens.mapM unescape = some parts → parts.map escaped = tokens := by
        intro tokens
        induction tokens with
        | nil => intro parts _ hparts; rw [List.mapM_nil] at hparts; rw [← Option.some.inj hparts]; rfl
        | cons token tokens ih =>
          intro parts hslash hparts
          simp only [List.mapM_cons, Option.bind_eq_bind, Option.bind_eq_some_iff] at hparts
          obtain ⟨part, hpart, parts, hrest, hsame⟩ := hparts
          rw [← Option.some.inj hsame, List.map_cons, ih (fun t ht => hslash t (List.mem_cons_of_mem _ ht)) hrest,
            escaped_of_unescape token (hslash token (List.mem_cons_self ..)) hpart]
      have hsplit := htokens (fun token ht => not_mem_of_splitOn ht) h
      have hrest : List.intercalate [unit '/'] (rest.splitOn (unit '/')) = rest := List.intercalate_splitOn (unit '/')
      rw [← hsplit] at hrest
      cases parts with
      | nil => exact absurd hsplit.symm (List.splitOn_ne_nil _ _)
      | cons part parts => rw [pointer_cons, pointer_intercalate, hrest, hc]
    · cases h

/-! ## Children -/

/-- The last slash splits a text in one way. -/
theorem split_last {a b a' b' : Units} {x : UInt16} (h : a ++ x :: b = a' ++ x :: b') (hb : x ∉ b) (hb' : x ∉ b') :
    a = a' ∧ b = b' := by
  rcases List.append_eq_append_iff.mp h with ⟨m, rfl, hm⟩ | ⟨m, rfl, hm⟩
  · cases m with
    | nil =>
      rw [List.nil_append, List.cons.injEq] at hm
      exact ⟨(List.append_nil a).symm, hm.2⟩
    | cons y m =>
      rw [List.cons_append, List.cons.injEq] at hm
      exact absurd (hm.2 ▸ List.mem_append_right m List.mem_cons_self) hb
  · cases m with
    | nil =>
      rw [List.nil_append, List.cons.injEq] at hm
      exact ⟨List.append_nil a', hm.2.symm⟩
    | cons y m =>
      rw [List.cons_append, List.cons.injEq] at hm
      exact absurd (hm.2 ▸ List.mem_append_right m List.mem_cons_self) hb'

/-- One token behind a pointer is one step behind its path. -/
theorem pointer_child {path q : List Units} {rest : Units} (h : pointer q = pointer path ++ unit '/' :: rest)
    (hrest : unit '/' ∉ rest) : ∃ x, q = path ++ [x] ∧ rest = escaped x := by
  rcases List.eq_nil_or_concat q with rfl | ⟨q', x, rfl⟩
  · exact absurd h (by simp [pointer])
  · rw [List.concat_eq_append, pointer_concat] at h
    obtain ⟨hpath, hx⟩ := split_last h (slash_not_mem_escaped x) hrest
    refine ⟨x, ?_, hx.symm⟩
    rw [List.concat_eq_append, pointer_injective hpath]

/-- The first slash splits a text in one way. -/
theorem split_first {a b a' b' : Units} {x : UInt16} (h : a ++ x :: b = a' ++ x :: b') (ha : x ∉ a) (ha' : x ∉ a') :
    a = a' ∧ b = b' := by
  have hreverse : b.reverse ++ x :: a.reverse = b'.reverse ++ x :: a'.reverse := by
    simpa using congrArg List.reverse h
  obtain ⟨hb, ha⟩ := split_last hreverse (by simpa using ha) (by simpa using ha')
  exact ⟨List.reverse_inj.mp ha, List.reverse_inj.mp hb⟩

/-- Whether a pointer is at or under another. -/
def under (container pointer : Units) : Bool :=
  pointer == container || (container ++ [unit '/']).isPrefixOf pointer

theorem prefix_of_pointer : ∀ {path q : List Units} {rest : Units}, pointer q = pointer path ++ unit '/' :: rest → path <+: q
  | [], q, _, _ => List.nil_prefix
  | a :: path, [], _, h => by simp [pointer] at h
  | a :: path, b :: q, rest, h => by
    rw [pointer_cons, pointer_cons, List.cons_append, List.cons.injEq, List.append_assoc] at h
    obtain ⟨more, hmore⟩ : ∃ more, pointer path ++ unit '/' :: rest = unit '/' :: more := by
      cases path with
      | nil => exact ⟨rest, rfl⟩
      | cons c path => exact ⟨_, rfl⟩
    have hb := h.2
    rw [hmore] at hb
    cases q with
    | nil =>
      rw [pointer, List.flatMap_nil, List.append_nil] at hb
      exact absurd (hb ▸ List.mem_append_right _ List.mem_cons_self) (slash_not_mem_escaped b)
    | cons c q =>
      obtain ⟨more', hmore'⟩ : ∃ more', pointer (c :: q) = unit '/' :: more' := ⟨_, rfl⟩
      rw [hmore'] at hb
      obtain ⟨hab, hrest⟩ := split_first hb (slash_not_mem_escaped b) (slash_not_mem_escaped a)
      have hstep : b = a := by
        have hunescape := unescape_escaped b
        rw [hab, unescape_escaped] at hunescape
        exact (Option.some.inj hunescape).symm
      rw [hstep]
      have hrest' : pointer (c :: q) = pointer path ++ unit '/' :: rest := by rw [hmore', hrest, hmore]
      exact List.cons_prefix_cons.mpr ⟨rfl, prefix_of_pointer hrest'⟩

/-- The pointers at or under that of a path are those of the paths that start with it. -/
theorem under_pointer (path q : List Units) : under (pointer path) (pointer q) = path.isPrefixOf q := by
  rw [Bool.eq_iff_iff, under, Bool.or_eq_true, beq_iff_eq, List.isPrefixOf_iff_prefix, List.isPrefixOf_iff_prefix]
  constructor
  · rintro (h | ⟨rest, h⟩)
    · exact pointer_injective h ▸ List.prefix_refl _
    · rw [List.append_assoc] at h
      exact prefix_of_pointer h.symm
  · rintro ⟨more, rfl⟩
    cases more with
    | nil => exact Or.inl (by rw [List.append_nil])
    | cons x more =>
      refine Or.inr ⟨escaped x ++ pointer more, ?_⟩
      rw [pointer_append, pointer_cons, List.append_assoc]
      rfl

/-- One step down from a pointer. -/
def child (at_ step : Units) : Units :=
  match parsePointer at_ with
  | none => at_
  | some parts => pointer (parts ++ [step])

/-- Pointers are one to one with paths, a text is read as a path or it is no pointer, and a step down is one token
behind the pointer, whatever characters the step has. -/
theorem parsePointer_iff :
    (∀ text parts, parsePointer text = some parts ↔ pointer parts = text) ∧
      ∀ parts step, child (pointer parts) step = pointer parts ++ unit '/' :: escaped step ∧
        parsePointer (child (pointer parts) step) = some (parts ++ [step]) := by
  refine ⟨fun text parts => ⟨pointer_of_parse, ?_⟩, fun parts step => ?_⟩
  · rintro rfl
    exact parsePointer_pointer parts
  · rw [child, parsePointer_pointer]
    exact ⟨pointer_concat parts step, parsePointer_pointer _⟩

end Pointers

end Desk
