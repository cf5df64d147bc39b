import Desk.Service.PathText

/-!
# No path from a root is left in a sentence

Where a path may start, none does (`withoutPathsUnder_free`), exactly the sentences without
paths stay as they are (`withoutPathsUnder_page`), and of the paths that Desk knows none is
left whole (`replaceSpans_leaves`).
-/

namespace Desk

namespace PathText

open Replace

/-! ## Characters as they are printed -/

/-- A character of ASCII that is printed stays. -/
theorem displayed_ascii {c : Char} (hlow : 0x20 ≤ c.toNat) (hhigh : c.toNat < 0x7f) : displayedRune c = c := by
  refine if_neg fun h => ?_
  rcases Bool.or_eq_true_iff.mp h with h | h
  · have := of_decide_eq_true h
    omega
  · obtain ⟨e, he, hin⟩ := List.any_eq_true.mp h
    have hranges : ∀ e ∈ formatRanges, 0xad ≤ e.1 := by decide
    have := hranges e he
    have := of_decide_eq_true hin
    omega

theorem isAlpha_ascii {c : Char} (h : c.isAlpha = true) : 0x20 ≤ c.toNat ∧ c.toNat < 0x7f := by
  have hval : c.toNat = c.val.toNat := rfl
  have hcase : (decide ('A'.val ≤ c.val ∧ c.val ≤ 'Z'.val) || (decide ('a'.val ≤ c.val) && decide (c.val ≤ 'z'.val))) = true := h
  simp only [Bool.or_eq_true, Bool.and_eq_true, decide_eq_true_eq, UInt32.le_iff_toNat_le] at hcase
  have h₁ : UInt32.toNat 'A'.val = 65 := rfl
  have h₂ : UInt32.toNat 'Z'.val = 90 := rfl
  have h₃ : UInt32.toNat 'a'.val = 97 := rfl
  have h₄ : UInt32.toNat 'z'.val = 122 := rfl
  omega

/-! ## Where paths start -/

/-- No path from a root stands at the start or after a boundary. -/
def PathFree (text : Runes) : Prop :=
  ∀ before after, text = before ++ after → before.getLast?.all isBoundary = true → rootOf after = none

/-- Nor at the start where `starts`. -/
def freeFrom : Bool → Runes → Bool
  | _, [] => true
  | starts, c :: rest => (!starts || (rootOf (c :: rest)).isNone) && freeFrom (isBoundary c) rest

theorem freeFrom_iff (starts : Bool) (text : Runes) :
    freeFrom starts text = true ↔
      ∀ before after, text = before ++ after → (before.getLast?.map isBoundary).getD starts = true → rootOf after = none := by
  induction text generalizing starts with
  | nil =>
    refine ⟨fun _ before after h _ => ?_, fun _ => rfl⟩
    obtain ⟨-, rfl⟩ := List.append_eq_nil_iff.mp h.symm
    rfl
  | cons c rest ih =>
    rw [freeFrom, Bool.and_eq_true, ih]
    constructor
    · rintro ⟨hhere, hrest⟩ before after h hstart
      cases before with
      | nil =>
        cases h
        have hstarts : starts = true := hstart
        rw [hstarts] at hhere
        simpa using hhere
      | cons d before =>
        obtain ⟨rfl, rfl⟩ := List.cons.inj h
        refine hrest before after rfl ?_
        cases before with
        | nil => exact hstart
        | cons e before => rwa [List.getLast?_cons_cons] at hstart
    · intro h
      refine ⟨?_, fun before after hrest hstart => ?_⟩
      · cases starts with
        | false => rfl
        | true => simpa using h [] (c :: rest) rfl rfl
      · refine h (c :: before) after (by rw [hrest]; rfl) ?_
        cases before with
        | nil => exact hstart
        | cons e before => rwa [List.getLast?_cons_cons]

theorem pathFree_iff (text : Runes) : PathFree text ↔ freeFrom true text = true := by
  rw [freeFrom_iff]
  refine forall_congr' fun before => forall_congr' fun after => imp_congr_right fun _ => ?_
  cases before.getLast? <;> exact Iff.rfl

/-- What no path starts with and is no boundary is passed over. -/
theorem freeFrom_cons {c : Char} (hc : isBoundary c = false) (starts : Bool) (hroot : ∀ rest, starts = true → rootOf (c :: rest) = none)
    (rest : Runes) : freeFrom starts (c :: rest) = freeFrom false rest := by
  rw [freeFrom, hc]
  cases starts with
  | false => rfl
  | true =>
    rw [hroot rest rfl]
    rfl

theorem freeFrom_append {pre : Runes} (hpre : ∀ c ∈ pre, isBoundary c = false) (rest : Runes) :
    freeFrom false (pre ++ rest) = freeFrom false rest := by
  induction pre with
  | nil => rfl
  | cons c pre ih =>
    rw [List.cons_append, freeFrom_cons (hpre c List.mem_cons_self) _ (fun _ h => Bool.noConfusion h)]
    exact ih fun c hc => hpre c (List.mem_cons_of_mem _ hc)

theorem rootOf_ellipsis (rest : Runes) : rootOf ('\u2026' :: rest) = none := by
  unfold rootOf
  split
  · rename_i h
    exact absurd (List.cons.inj h).1 (by decide)
  · rename_i c d rest' h
    have := (List.cons.inj h).1
    subst this
    rfl
  · rfl

/-! ## One pass -/

section
variable {pattern : Pattern}

/-- Where no path may start the first two characters stay. -/
theorem withoutFrom_head {c d : Char} {text rest : Runes} (hc : isBoundary c = false)
    (h : withoutFrom pattern 0 false text = c :: d :: rest) : ∃ rest', text = c :: d :: rest' := by
  have hcons : ∀ c text, withoutFrom pattern 0 false (c :: text) = c :: withoutFrom pattern 0 (isBoundary c) text := by
    intro c text
    rw [withoutFrom, if_neg Bool.false_ne_true]
  cases text with
  | nil => cases h
  | cons c' text =>
    obtain ⟨hc', htail⟩ := List.cons.inj (hcons c' text ▸ h)
    rw [hc', hc] at htail
    cases text with
    | nil => cases htail
    | cons d' text =>
      obtain ⟨hd', -⟩ := List.cons.inj (hcons d' text ▸ htail)
      exact ⟨text, by rw [hc', hd']⟩

end

theorem trimClause_append (path : Runes) :
    ∃ tail, path = trimClause path ++ tail ∧ ∀ c ∈ tail, c ∈ ['.', ',', ':', ';'] := by
  refine ⟨path.rtakeWhile (· ∈ ['.', ',', ':', ';']), (List.rdropWhile_append_rtakeWhile ..).symm, fun c hc => ?_⟩
  have := List.mem_rtakeWhile_imp hc
  exact of_decide_eq_true this

/-- What stands for a path starts no other, nor does the clause's punctuation. -/
theorem freeFrom_shownPath (starts : Bool) (path rest : Runes) :
    freeFrom starts (shownPath path ++ rest) = freeFrom false rest := by
  obtain ⟨tail, hpath, htail⟩ := trimClause_append path
  have hdrop : path.drop (trimClause path).length = tail := by
    have hleft : (trimClause path ++ tail).drop (trimClause path).length = tail := List.drop_left
    rwa [← hpath] at hleft
  have hboundary : ∀ c ∈ tail, isBoundary c = false := by
    intro c hc
    have hall : (['.', ',', ':', ';'].all fun c => !isBoundary c) = true := by decide
    exact Bool.not_eq_eq_eq_not.mp (List.all_eq_true.mp hall c (htail c hc))
  unfold shownPath
  dsimp only
  rw [hdrop]
  split
  · rename_i hbase
    have hall : (runtimeFileNames.all fun name => name.all fun c => !isBoundary c) = true := by decide
    have hname : ∀ name ∈ runtimeFileNames, ∀ c ∈ name, isBoundary c = false := fun name hn c hc =>
      Bool.not_eq_eq_eq_not.mp (List.all_eq_true.mp (List.all_eq_true.mp hall name hn) c hc)
    rw [List.append_assoc, List.cons_append, freeFrom_cons (by decide) _ fun rest _ => rootOf_ellipsis rest, List.cons_append,
      freeFrom_cons (by decide) _ fun _ h => Bool.noConfusion h, freeFrom_append (hname _ hbase), freeFrom_append hboundary]
  · rw [List.append_assoc, List.cons_append, freeFrom_cons (by decide) _ fun rest _ => rootOf_ellipsis rest, List.nil_append,
      freeFrom_append hboundary]

theorem not_boundary_of_isAlpha {c : Char} (h : c.isAlpha = true) : isBoundary c = false := by
  by_contra hc
  have hc : c ∈ ['\t', '\n', '\x0c', '\r', ' '] ++ ['"', '(', '=', '['] := by
    rw [Bool.not_eq_false, isBoundary, isBlank, Bool.or_eq_true, decide_eq_true_eq, decide_eq_true_eq] at hc
    exact List.mem_append.mpr hc
  have hall : (['\t', '\n', '\x0c', '\r', ' '] ++ ['"', '(', '=', '[']).all (fun c => !c.isAlpha) = true := by decide
  rw [Bool.not_eq_eq_eq_not.mp (List.all_eq_true.mp hall c hc)] at h
  cases h

/-- A pass makes no root where there was none. -/
theorem rootOf_kept {pattern : Pattern} {c : Char} {rest : Runes} (h : rootOf (c :: rest) = none) :
    rootOf (c :: withoutFrom pattern 0 (isBoundary c) rest) = none := by
  generalize hkept : withoutFrom pattern 0 (isBoundary c) rest = kept
  unfold rootOf
  split
  · rename_i heq
    rw [(List.cons.inj heq).1] at h
    cases h
  · rename_i c' d kept' heq
    obtain ⟨rfl, rfl⟩ := List.cons.inj heq
    split
    · rename_i hdrive
      have hc : isBoundary c = false := by
        have halpha : c.isAlpha = true := (Bool.and_eq_true_iff.mp hdrive).1
        exact not_boundary_of_isAlpha halpha
      rw [hc] at hkept
      obtain ⟨rest', rfl⟩ := withoutFrom_head (by decide) hkept
      unfold rootOf at h
      split at h
      · cases h
      · rename_i heq'
        cases heq'
        rw [if_pos hdrive] at h
        cases h
      · rename_i hne
        exact absurd rfl (hne _ _ _)
    · rfl
  · rfl

/-- The last pass takes every path that is left. -/
theorem freeFrom_pathInMessage (starts : Bool) (skip : Nat) (text : Runes) :
    freeFrom starts (withoutFrom pathInMessage skip starts text) = true := by
  induction text generalizing skip starts with
  | nil => cases skip <;> rfl
  | cons c rest ih =>
    cases skip with
    | succ skip => exact ih starts skip
    | zero =>
      rw [withoutFrom]
      split
      · rename_i n taken hmatch
        have hsame : taken = n := by
          split at hmatch
          · obtain ⟨_, _, heq⟩ := Option.map_eq_some_iff.mp hmatch
            cases heq
            rfl
          · cases hmatch
        have hnone : ((c :: rest).take taken).drop n = [] := by
          rw [hsame]
          exact List.drop_eq_nil_of_le (List.length_take_le ..)
        rw [hnone, List.nil_append, freeFrom_shownPath]
        exact ih false _
      · rename_i hmatch
        rw [freeFrom, ih, Bool.and_true]
        cases starts with
        | false => rfl
        | true =>
          have hroot : rootOf (c :: rest) = none := by
            rw [if_pos rfl] at hmatch
            exact Option.map_eq_none_iff.mp hmatch
          rw [rootOf_kept hroot]
          rfl

theorem withoutAbsolutePaths_free (message : Runes) : PathFree (withoutAbsolutePaths message) :=
  (pathFree_iff _).mpr (freeFrom_pathInMessage true 0 _)

/-! ## The sign for what is held -/

theorem rootOf_isSome_iff (text : Runes) :
    (rootOf text).isSome = true ↔ text.head? = some '/' ∨
      ∃ c d rest, text = c :: ':' :: d :: rest ∧ c.isAlpha = true ∧ (d = '\\' ∨ d = '/') := by
  constructor
  · intro h
    unfold rootOf at h
    split at h
    · exact Or.inl rfl
    · split at h
      · rename_i hdrive
        rw [Bool.and_eq_true, Bool.or_eq_true, beq_iff_eq, beq_iff_eq] at hdrive
        exact Or.inr ⟨_, _, _, rfl, hdrive⟩
      · cases h
    · cases h
  · rintro (h | ⟨c, d, rest, rfl, hc, hd⟩)
    · obtain ⟨rest, rfl⟩ := List.head?_eq_some_iff.mp h
      rfl
    · unfold rootOf
      split
      · rfl
      · rename_i c' d' rest' _ heq
        cases heq
        rw [if_pos (by rw [hc]; rcases hd with rfl | rfl <;> rfl)]
        rfl
      · rename_i hne
        exact absurd rfl (hne _ _ _)

/-- A character that no path starts with in place of another. -/
def shownHeld (c : Char) : Char := if c = Host.held then '\u2026' else c

theorem eq_of_shownHeld {c d : Char} (h : shownHeld c = d) (hd : d ≠ '\u2026') : c = d := by
  unfold shownHeld at h
  split at h
  · exact absurd h.symm hd
  · exact h

theorem freeFrom_map {starts : Bool} {text : Runes} (h : freeFrom starts text = true) : freeFrom starts (text.map shownHeld) = true := by
  induction text generalizing starts with
  | nil => rfl
  | cons c rest ih =>
    rw [freeFrom, Bool.and_eq_true] at h
    have hboundary : isBoundary (shownHeld c) = isBoundary c := by
      unfold shownHeld
      split
      · rename_i heq
        rw [heq]
        rfl
      · rfl
    have hroot : (rootOf ((c :: rest).map shownHeld)).isSome = true → (rootOf (c :: rest)).isSome = true := by
      rw [rootOf_isSome_iff, rootOf_isSome_iff]
      rintro (hhead | ⟨x, d, tail, heq, hx, hd⟩)
      · exact Or.inl (congrArg some (eq_of_shownHeld (Option.some.inj hhead) (by decide)))
      · right
        obtain ⟨hc, heq⟩ := List.cons.inj heq
        obtain ⟨y, rest, rfl, hy, heq⟩ := List.map_eq_cons_iff.mp heq
        obtain ⟨z, rest, rfl, hz, -⟩ := List.map_eq_cons_iff.mp heq
        have hne : x ≠ '\u2026' := by
          rintro rfl
          cases hx
        have hdne : d ≠ '\u2026' := by rcases hd with rfl | rfl <;> decide
        exact ⟨x, d, rest, by rw [eq_of_shownHeld hc hne, eq_of_shownHeld hy (by decide), eq_of_shownHeld hz hdne], hx, hd⟩
    rw [List.map_cons, freeFrom, hboundary, ih h.2, Bool.and_true]
    cases starts with
    | false => rfl
    | true =>
      have hhere : (rootOf (c :: rest)).isNone = true := by simpa using h.1
      rw [Bool.not_true, Bool.false_or]
      by_contra hsome
      have := hroot (Option.ne_none_iff_isSome.mp fun hnone => hsome (Option.isNone_iff_eq_none.mpr hnone))
      rw [Option.isNone_iff_eq_none.mp hhere] at this
      cases this

theorem withoutPathsUnder_toList (host : Host) (message auditDir : String) :
    (withoutPathsUnder host message auditDir).toList =
      (withoutAbsolutePaths (replaceSpans (message.toList.filter (· != Host.held))
        (host.knownSpans (message.toList.filter (· != Host.held)) auditDir))).map shownHeld := by
  rw [withoutPathsUnder, String.toList_ofList, replaceEach_singleton]
  rfl

theorem pathFree_map {text : Runes} (h : PathFree text) : PathFree (text.map shownHeld) :=
  (pathFree_iff _).mpr (freeFrom_map ((pathFree_iff _).mp h))

/-- A message for the page has no path from a root where one may start. -/
theorem withoutPathsUnder_free (host : Host) (message auditDir : String) :
    PathFree (withoutPathsUnder host message auditDir).toList := by
  rw [withoutPathsUnder_toList]
  exact pathFree_map (withoutAbsolutePaths_free _)

/-! ## What has no paths stays -/

theorem withoutFrom_kept {pattern : Pattern} (hpattern : ∀ text, (pattern text).isSome = true → (rootOf text).isSome = true)
    {starts : Bool} {text : Runes} (h : freeFrom starts text = true) : withoutFrom pattern 0 starts text = text := by
  induction text generalizing starts with
  | nil => rfl
  | cons c rest ih =>
    rw [freeFrom, Bool.and_eq_true] at h
    rw [withoutFrom]
    split
    · rename_i hmatch
      exfalso
      split at hmatch
      · rename_i hstarts
        have hroot := hpattern (c :: rest) (by rw [hmatch]; rfl)
        rw [hstarts, Bool.not_true, Bool.false_or, Option.isNone_iff_eq_none] at h
        rw [h.1] at hroot
        cases hroot
      · cases hmatch
    · rw [ih h.2]

theorem root_of_pathInMessage (text : Runes) (h : (pathInMessage text).isSome = true) : (rootOf text).isSome = true := by
  rwa [pathInMessage, Option.isSome_map] at h

theorem root_of_pathToRuntimeFile (text : Runes) (h : (pathToRuntimeFile text).isSome = true) : (rootOf text).isSome = true := by
  cases hroot : rootOf text with
  | none =>
    rw [pathToRuntimeFile, hroot] at h
    cases h
  | some n => rfl

/-- Exactly the texts without paths stay as they are. -/
theorem withoutAbsolutePaths_eq_iff (message : Runes) : withoutAbsolutePaths message = message ↔ PathFree message := by
  constructor
  · intro h
    rw [← h]
    exact withoutAbsolutePaths_free message
  · intro h
    have hfree := (pathFree_iff _).mp h
    rw [withoutAbsolutePaths, withoutPathsMatching, withoutPathsMatching, withoutFrom_kept root_of_pathToRuntimeFile hfree,
      withoutFrom_kept root_of_pathInMessage hfree]

/-! ## Spans -/

theorem cut_eq_none_iff (part text : Runes) : cut part text = none ↔ ¬part <:+: text := by
  induction text with
  | nil =>
    rw [cut, List.infix_nil]
    split <;> simp_all
  | cons c rest ih =>
    rw [cut, List.infix_cons_iff]
    split
    · rename_i hpre
      exact ⟨fun h => (by cases h), fun h => absurd (Or.inl (List.isPrefixOf_iff_prefix.mp hpre)) h⟩
    · rename_i hpre
      rw [Option.map_eq_none_iff, ih, not_or]
      exact ⟨fun h => ⟨fun hp => hpre (List.isPrefixOf_iff_prefix.mpr hp), h⟩, fun h => h.2⟩

theorem replaced_replaceDirectory (dir with_ : Runes) (fuel : Nat) (message : Runes) :
    Replaced with_ message (replaceDirectory dir with_ fuel message) := by
  induction fuel generalizing message with
  | zero => exact .refl with_ message
  | succ fuel ih =>
    rw [replaceDirectory]
    split
    · exact .refl with_ message
    · rename_i before rest hcut
      rw [eq_of_cut hcut]
      dsimp only
      split
      · generalize (trimClause _).length = tail
        have hrest : dir ++ rest = (dir ++ rest.take tail) ++ rest.drop tail := by
          rw [List.append_assoc, List.take_append_drop]
        rw [hrest]
        exact .keep_append before (.gone _ (ih _))
      · split
        · exact .keep_append before (.gone dir (ih rest))
        · exact .keep_append before (.keep_append dir (ih rest))

theorem replaced_replaceSpan (message : Runes) (span : PathSpan) :
    Replaced span.with_.toList message (replaceSpan message span) := by
  unfold replaceSpan
  split
  · exact .refl _ message
  · rename_i hspan
    split
    · exact replaced_replaceDirectory ..
    · exact replaced_replaceEach (fun hnil => hspan (Or.inl (String.toList_eq_nil_iff.mp hnil))) message

/-- A span leaves a message alone where it does not stand in it. -/
theorem replaceSpan_kept {message : Runes} {span : PathSpan} (h : span.value = "" ∨ ¬span.value.toList <:+: message) :
    replaceSpan message span = message := by
  unfold replaceSpan
  split
  · rfl
  · rename_i hspan
    have hnone := h.resolve_left fun hnil => hspan (Or.inl hnil)
    split
    · rw [replaceDirectory, (cut_eq_none_iff _ _).mpr hnone]
    · exact replaceEach_kept hnone

theorem replaceSpans_kept {message : Runes} {spans : List PathSpan}
    (h : ∀ span ∈ spans, span.value = "" ∨ ¬span.value.toList <:+: message) : replaceSpans message spans = message := by
  have hfold : ∀ l : List PathSpan, (∀ span ∈ l, span.value = "" ∨ ¬span.value.toList <:+: message) →
      l.foldl replaceSpan message = message := by
    intro l hl
    induction l with
    | nil => rfl
    | cons span l ih =>
      rw [List.foldl_cons, replaceSpan_kept (hl span List.mem_cons_self)]
      exact ih fun s hs => hl s (List.mem_cons_of_mem _ hs)
  exact hfold _ fun span hspan => h span ((List.mergeSort_perm spans _).mem_iff.mp hspan)

/-- What no span's text shares a character with is not made by any span. -/
theorem infix_of_foldl {spans : List PathSpan} {message part : Runes}
    (hwith : ∀ span ∈ spans, span.with_ ≠ "" ∧ ∀ c ∈ span.with_.toList, c ∉ part) (h : part <:+: spans.foldl replaceSpan message) :
    part <:+: message := by
  induction spans generalizing message with
  | nil => exact h
  | cons span spans ih =>
    obtain ⟨hne, hdisjoint⟩ := hwith span List.mem_cons_self
    have hin := ih (fun s hs => hwith s (List.mem_cons_of_mem _ hs)) h
    exact (replaced_replaceSpan message span).infix_of (fun hnil => hne (String.toList_eq_nil_iff.mp hnil)) hdisjoint hin

/-- Of the paths that are replaced wherever they stand none is left. -/
theorem replaceSpans_leaves (message : Runes) (spans : List PathSpan) {span : PathSpan} (hspan : span ∈ spans)
    (hvalue : span.value ≠ "") (hexact : span.directory = false)
    (hwith : ∀ s ∈ spans, s.with_ ≠ "" ∧ ∀ c ∈ s.with_.toList, c ∉ span.value.toList) :
    ¬span.value.toList <:+: replaceSpans message spans := by
  have hmem : ∀ s, s ∈ longestFirst spans ↔ s ∈ spans := fun s => (List.mergeSort_perm spans _).mem_iff
  obtain ⟨before, after, hsplit⟩ := List.append_of_mem ((hmem span).mpr hspan)
  have hafter : ∀ s ∈ after, s ∈ spans := by
    intro s hs
    exact (hmem s).mp (by rw [hsplit]; exact List.mem_append_right _ (List.mem_cons_of_mem _ hs))
  have hne : span.value.toList ≠ [] := fun hnil => hvalue (String.toList_eq_nil_iff.mp hnil)
  obtain ⟨hwne, hdisjoint⟩ := hwith span hspan
  have hwlist : span.with_.toList ≠ [] := fun hnil => hwne (String.toList_eq_nil_iff.mp hnil)
  have hdiff : span.value ≠ span.with_ := by
    intro heq
    obtain ⟨c, rest, hlist⟩ := List.exists_cons_of_ne_nil hwlist
    exact hdisjoint c (by rw [hlist]; exact List.mem_cons_self) (by rw [heq, hlist]; exact List.mem_cons_self)
  rw [replaceSpans, hsplit, List.foldl_append, List.foldl_cons]
  intro h
  have hin := infix_of_foldl (fun s hs => hwith s (hafter s hs)) h
  rw [replaceSpan, if_neg (by rintro (h | h) <;> contradiction), hexact, if_neg Bool.false_ne_true] at hin
  exact not_infix_replaceEach hne hwlist hdisjoint _ hin

theorem replaceSpans_leaves_nested :
    ¬"/a/b".toList <:+: replaceSpans "see /a/b/c, or x/a/b".toList [⟨"/a", "\u2026", true⟩, ⟨"/a/b", "\u2026", false⟩] := by
  have hwith : ∀ s ∈ [PathSpan.mk "/a" "\u2026" true, ⟨"/a/b", "\u2026", false⟩], s.with_ = "\u2026" := by decide
  refine @replaceSpans_leaves _ _ ⟨"/a/b", "\u2026", false⟩ (List.mem_cons_of_mem _ List.mem_cons_self) (by decide) rfl fun s hs => ?_
  rw [hwith s hs]
  refine ⟨by decide, fun c hc => ?_⟩
  rw [List.mem_singleton.mp hc]
  decide

theorem held_not_mem (host : Host) (message auditDir : String) : Host.held ∉ (withoutPathsUnder host message auditDir).toList := by
  rw [withoutPathsUnder_toList]
  intro h
  obtain ⟨c, -, hc⟩ := List.mem_map.mp h
  unfold shownHeld at hc
  split at hc
  · exact absurd hc (by decide)
  · contradiction

/-- A message for the page has no path from a root where one may start, and one in which no path stands
that Desk knows is shown as it is exactly where it has no path at all. -/
theorem withoutPathsUnder_page (host : Host) (message auditDir : String) :
    PathFree (withoutPathsUnder host message auditDir).toList ∧ Host.held ∉ (withoutPathsUnder host message auditDir).toList ∧
      ((∀ span ∈ host.knownSpans (message.toList.filter (· != Host.held)) auditDir,
          span.value = "" ∨ ¬span.value.toList <:+: message.toList) →
        (withoutPathsUnder host message auditDir = message ↔ PathFree message.toList ∧ Host.held ∉ message.toList)) := by
  refine ⟨withoutPathsUnder_free host message auditDir, held_not_mem host message auditDir, fun hspans => ⟨fun h => ?_, ?_⟩⟩
  · have hfree := withoutPathsUnder_free host message auditDir
    have hheld := held_not_mem host message auditDir
    rw [h] at hfree hheld
    exact ⟨hfree, hheld⟩
  · rintro ⟨hfree, hheld⟩
    have hother : ∀ c ∈ message.toList, c ≠ Host.held := by
      rintro c hc rfl
      exact hheld hc
    have hfilter : message.toList.filter (· != Host.held) = message.toList :=
      List.filter_eq_self.mpr fun c hc => bne_iff_ne.mpr (hother c hc)
    have hmap : message.toList.map shownHeld = message.toList := by
      refine (List.map_congr_left fun c hc => ?_).trans (List.map_id _)
      exact if_neg (hother c hc)
    rw [hfilter] at hspans
    rw [← String.toList_inj, withoutPathsUnder_toList, hfilter, replaceSpans_kept hspans, (withoutAbsolutePaths_eq_iff _).mpr hfree, hmap]

end PathText

end Desk
