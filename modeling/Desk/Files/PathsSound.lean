import Desk.Packs.PackPath
import Desk.Files.WirePath

/-!
# The page's paths and the chassis's

Where the two readings of one string agree: what each refuses is told by the
string's symbols and by how deep its segments lead.
-/

namespace Desk.PackPath

open WirePath (wireRelativePath PathError)

/-- What is refused for its spelling: empty, a NUL or a colon in it, rooted, or not leading below the start. -/
def Misspelt (s : Units) : Prop :=
  s = [] ∨ 0 ∈ s ∨ colon ∈ s ∨ s.head? = some slash ∨ s.head? = some backslash ∨ ∀ n, Paths.depth slash dot s ≠ some (n + 1)

/-- The page and the chassis read a string alike: each refuses it where the other does, names of files that the desk keeps
apart, and they clean it alike. -/
def Alike (s : Units) : Prop :=
  (cleanRelative s = none ↔ ∃ e, wireRelativePath (utf8 s) = .error e ∧ ¬ e.IsName) ∧
    ∀ p c, cleanRelative s = some p → wireRelativePath (utf8 s) = .ok c → c = utf8 p

/-! ## The page -/

theorem dot_ne_slash : dot ≠ slash := by decide

/-- What is not rooted is cleaned to a path that is refused unless it leads below the start. -/
theorem depth_cases {s : Units} (h : s.head? ≠ some slash) :
    ((clean s = [dot, dot] ∨ [dot, dot] ++ [slash] <+: clean s) ∨ clean s = [dot]) ↔
      ∀ n, Paths.depth slash dot s ≠ some (n + 1) := by
  rw [clean, Paths.climbs_clean dot_ne_slash h, Paths.clean_eq_dot h, Paths.kept_eq_nil h]
  cases Paths.depth slash dot s with
  | none => simp
  | some depth =>
    cases depth with
    | zero => simp
    | succ depth => simp

theorem cleanRelative_eq_none (s : Units) : cleanRelative s = none ↔ Misspelt s := by
  unfold cleanRelative Misspelt
  split
  · rename_i h
    exact iff_of_true rfl (h.imp_right Or.inl)
  · rename_i hplain
    obtain ⟨hempty, hnul⟩ := not_or.mp hplain
    split
    · rename_i h
      refine iff_of_true rfl (Or.inr (Or.inr ?_))
      rcases h with h | h | h
      · exact Or.inr (Or.inl h)
      · exact Or.inr (Or.inr (Or.inl h))
      · exact Or.inl h
    · rename_i hrooted
      obtain ⟨hslash, hrooted⟩ := not_or.mp hrooted
      obtain ⟨hbackslash, hcolon⟩ := not_or.mp hrooted
      have hdepth := depth_cases hslash
      simp only [hempty, hnul, hcolon, hslash, hbackslash, false_or, ← hdepth]
      split
      · rename_i h
        exact iff_of_true rfl (Or.inl h)
      · rename_i hclimbs
        split
        · rename_i h
          exact iff_of_true rfl (Or.inr h)
        · rename_i hstart
          exact iff_of_false (Option.some_ne_none _) (not_or.mpr ⟨hclimbs, hstart⟩)

theorem cleanRelative_eq_some {s p : Units} (h : cleanRelative s = some p) : s.head? ≠ some slash ∧ p = clean s := by
  unfold cleanRelative at h
  split at h
  · cases h
  · split at h
    · cases h
    · rename_i hrooted
      dsimp only at h
      split at h
      · cases h
      · split at h
        · cases h
        · exact ⟨(not_or.mp hrooted).1, (Option.some.inj h).symm⟩

/-! ## The chassis -/

theorem encoding : Paths.Encoding slash dot WirePath.slash WirePath.dot utf8 :=
  utf8_encoding slash dot (by decide) (by decide)

theorem clean_utf8 {s : Units} (h : s.head? ≠ some slash) : WirePath.clean (utf8 s) = utf8 (clean s) := by
  rw [WirePath.clean, Paths.cleanInPlace_eq (by decide), encoding.clean_eq h, clean]

theorem validateUTF8_utf8 (s : Units) : ByteArray.validateUTF8 ⟨(utf8 s).toArray⟩ = true := by
  rw [ByteArray.validateUTF8_eq_true_iff]
  refine ⟨charsOfUnits s, ?_⟩
  ext1
  rw [List.utf8Encode, List.data_toByteArray]
  rfl

theorem validPath_utf8 {s : Units} (h : s.head? ≠ some slash) (hstart : clean s ≠ [dot]) :
    WirePath.validPath (utf8 (clean s)) = false ↔ clean s = [dot, dot] ∨ [dot, dot] ++ [slash] <+: clean s := by
  have hkept : Paths.kept slash dot s ≠ [] := fun hnil => hstart ((Paths.clean_eq_dot h).mpr hnil)
  have hsegments : (utf8 (clean s)).splitOn WirePath.slash = (Paths.kept slash dot s).map utf8 := by
    rw [encoding.splitOn, clean, Paths.splitOn_clean h hkept]
  have hdot : (utf8 (clean s) == [WirePath.dot]) = false := by simpa [encoding.one] using hstart
  rw [WirePath.validPath, validateUTF8_utf8, hdot, hsegments, Bool.true_and, Bool.false_or, List.all_eq_false, clean,
    Paths.climbs_clean dot_ne_slash h, ← Paths.up_mem_kept h]
  constructor
  · rintro ⟨elem, hmem, helem⟩
    obtain ⟨segment, hsegment, rfl⟩ := List.mem_map.mp hmem
    obtain ⟨hempty, hone, -⟩ := Paths.mem_kept hsegment
    have htwo : segment = [dot, dot] := by simpa [encoding.nil, encoding.one, encoding.two, hempty, hone] using helem
    rw [← htwo]
    exact hsegment
  · intro hmem
    refine ⟨utf8 [dot, dot], List.mem_map_of_mem hmem, ?_⟩
    rw [(encoding.two _).mpr rfl]
    simp

/-- A refusal that is not for a name the desk keeps apart. -/
theorem refuses_iff (rel : WirePath.Bytes) : (∃ e, wireRelativePath rel = .error e ∧ ¬ e.IsName) ↔
    rel = [] ∨ 0 ∈ rel ∨ JsonScan.byte '\\' ∈ rel ∨ (rel.head? = some WirePath.slash ∨ JsonScan.byte ':' ∈ rel) ∨
      WirePath.clean rel = [WirePath.dot] ∨ WirePath.validPath (WirePath.clean rel) = false := by
  have hnamed : ∀ {e : PathError}, e.IsName →
      ¬ ∃ e', (Except.error e : Except PathError WirePath.Bytes) = .error e' ∧ ¬ e'.IsName := by
    rintro e he ⟨e', heq, he'⟩
    exact he' (Except.error.inj heq ▸ he)
  unfold wireRelativePath
  by_cases hempty : rel = []
  · exact iff_of_true ⟨.required, if_pos hempty, not_false⟩ (Or.inl hempty)
  by_cases hnul : 0 ∈ rel
  · exact iff_of_true ⟨.outsideProject, by rw [if_neg hempty, if_pos hnul], not_false⟩ (Or.inr (Or.inl hnul))
  by_cases hback : JsonScan.byte '\\' ∈ rel
  · exact iff_of_true ⟨.outsideProject, by rw [if_neg hempty, if_neg hnul, if_pos hback], not_false⟩ (Or.inr (Or.inr (Or.inl hback)))
  rw [if_neg hempty, if_neg hnul, if_neg hback]
  simp only [hempty, hnul, hback, false_or]
  split
  · rename_i hrooted
    exact iff_of_true ⟨.outsideProject, rfl, not_false⟩ (Or.inl hrooted)
  · rename_i hrooted
    simp only [hrooted, false_or]
    split
    · rename_i hstart
      exact iff_of_true ⟨.outsideProject, rfl, not_false⟩ (Or.inl hstart)
    · rename_i hstart
      simp only [hstart, false_or]
      split
      · rename_i hvalid
        exact iff_of_true ⟨.outsideProject, rfl, not_false⟩ (by simpa using hvalid)
      · rename_i hvalid
        refine iff_of_false ?_ (by simpa using hvalid)
        split
        · exact hnamed trivial
        · split
          · exact hnamed trivial
          · rintro ⟨e, he, -⟩
            cases he

theorem accepts {rel c : WirePath.Bytes} (h : wireRelativePath rel = .ok c) : c = WirePath.clean rel := by
  unfold wireRelativePath at h
  dsimp only at h
  repeat' split at h
  all_goals cases h
  rfl

theorem chassis_refuses (s : Units) :
    (∃ e, wireRelativePath (utf8 s) = .error e ∧ ¬ e.IsName) ↔ backslash ∈ s ∨ Misspelt s := by
  have hnul : (0 : UInt8) ∈ utf8 s ↔ 0 ∈ s := mem_utf8 (u := 0) (by decide) s
  have hback : JsonScan.byte '\\' ∈ utf8 s ↔ backslash ∈ s := mem_utf8 (u := backslash) (by decide) s
  have hcolon : JsonScan.byte ':' ∈ utf8 s ↔ colon ∈ s := mem_utf8 (u := colon) (by decide) s
  have hhead : s.head? = some backslash → backslash ∈ s := fun h => List.mem_of_mem_head? h
  rw [refuses_iff, encoding.nil, hnul, hback, hcolon, encoding.head?_eq, Misspelt]
  by_cases hslash : s.head? = some slash
  · exact iff_of_true (Or.inr (Or.inr (Or.inr (Or.inl (Or.inl hslash))))) (Or.inr (Or.inr (Or.inr (Or.inr (Or.inl hslash)))))
  · have hdepth : (WirePath.clean (utf8 s) = [WirePath.dot] ∨ WirePath.validPath (WirePath.clean (utf8 s)) = false) ↔
        ∀ n, Paths.depth slash dot s ≠ some (n + 1) := by
      rw [clean_utf8 hslash, encoding.one, ← depth_cases hslash]
      by_cases hstart : clean s = [dot]
      · exact iff_of_true (Or.inl hstart) (Or.inr hstart)
      · rw [validPath_utf8 hslash hstart, or_comm]
    simp only [hslash, hdepth, false_or]
    constructor
    · rintro (h | h | h | h | h)
      · exact Or.inr (Or.inl h)
      · exact Or.inr (Or.inr (Or.inl h))
      · exact Or.inl h
      · exact Or.inr (Or.inr (Or.inr (Or.inl h)))
      · exact Or.inr (Or.inr (Or.inr (Or.inr (Or.inr h))))
    · rintro (h | h | h | h | h | h)
      · exact Or.inr (Or.inr (Or.inl h))
      · exact Or.inl h
      · exact Or.inr (Or.inl h)
      · exact Or.inr (Or.inr (Or.inr (Or.inl h)))
      · exact Or.inr (Or.inr (Or.inl (hhead h)))
      · exact Or.inr (Or.inr (Or.inr (Or.inr h)))

/-! ## Where they agree -/

/-- The page and the chassis read a string alike unless there is a backslash in a string that is well spelt otherwise. -/
theorem alike_iff (s : Units) : Alike s ↔ backslash ∉ s ∨ Misspelt s := by
  rw [Alike, cleanRelative_eq_none, chassis_refuses]
  constructor
  · rintro ⟨hrefuse, -⟩
    by_cases hback : backslash ∈ s
    · exact Or.inr (hrefuse.mpr (Or.inl hback))
    · exact Or.inl hback
  · intro h
    refine ⟨⟨Or.inr, fun hrefuse => ?_⟩, ?_⟩
    · rcases hrefuse with hback | hmisspelt
      · exact h.resolve_left (not_not.mpr hback)
      · exact hmisspelt
    · intro p c hp hc
      obtain ⟨hslash, rfl⟩ := cleanRelative_eq_some hp
      rw [accepts hc, clean_utf8 hslash]

/-! ## Two spellings of one file -/

section
variable (toLowerCase : Units → Units)

theorem equalFold_iff (a b : Units) :
    equalFold toLowerCase a b = true ↔ (runes a).map (foldRune toLowerCase) = (runes b).map (foldRune toLowerCase) := by
  have hall : ∀ l r : List Units, l.length = r.length →
      (((l.zip r).all fun pair => runeFolds toLowerCase pair.1 pair.2) = true ↔
        l.map (foldRune toLowerCase) = r.map (foldRune toLowerCase)) := by
    intro l
    induction l with
    | nil =>
      intro r hlen
      rw [List.length_eq_zero_iff.mp hlen.symm]
      simp
    | cons x l ih =>
      intro r hlen
      cases r with
      | nil => cases hlen
      | cons y r =>
        have hfolds : runeFolds toLowerCase x y = true ↔ foldRune toLowerCase x = foldRune toLowerCase y := by
          rw [runeFolds, Bool.or_eq_true, beq_iff_eq, beq_iff_eq]
          exact ⟨fun h => h.elim (congrArg _) id, Or.inr⟩
        rw [List.zip_cons_cons, List.all_cons, Bool.and_eq_true, hfolds, ih r (Nat.succ.inj hlen), List.map_cons, List.map_cons,
          List.cons_eq_cons]
  unfold equalFold
  split
  · rename_i heq
    rw [heq]
    simp
  · split
    · rename_i hlen
      refine iff_of_false Bool.false_ne_true fun heq => hlen ?_
      simpa using congrArg List.length heq
    · rename_i hlen
      exact hall _ _ (not_not.mp hlen)

theorem samePath_iff {a b left right : Units} (ha : cleanRelative a = some left) (hb : cleanRelative b = some right) :
    samePath toLowerCase a b = true ↔
      (runes left).map (foldRune toLowerCase) = (runes right).map (foldRune toLowerCase) := by
  rw [samePath, ha, hb]
  simp only [Bool.or_eq_true, beq_iff_eq, equalFold_iff]
  constructor
  · rintro (rfl | h)
    · rfl
    · exact h
  · exact Or.inr

end

/-- A path that the page and the chassis accept. -/
def Accepted (s : Units) : Prop := (cleanRelative s).isSome = true ∧ ∃ c, wireRelativePath (utf8 s) = .ok c

theorem samePath_equivalence (toLowerCase : Units → Units) :
    Equivalence fun a b : {s : Units // Accepted s} => samePath toLowerCase a.1 b.1 = true := by
  have hclean : ∀ a : {s : Units // Accepted s}, ∃ p, cleanRelative a.1 = some p :=
    fun a => Option.isSome_iff_exists.mp a.2.1
  constructor
  · intro a
    obtain ⟨p, hp⟩ := hclean a
    exact (samePath_iff toLowerCase hp hp).mpr rfl
  · intro a b h
    obtain ⟨p, hp⟩ := hclean a
    obtain ⟨q, hq⟩ := hclean b
    exact (samePath_iff toLowerCase hq hp).mpr ((samePath_iff toLowerCase hp hq).mp h).symm
  · intro a b c hab hbc
    obtain ⟨p, hp⟩ := hclean a
    obtain ⟨q, hq⟩ := hclean b
    obtain ⟨r, hr⟩ := hclean c
    exact (samePath_iff toLowerCase hp hr).mpr
      (((samePath_iff toLowerCase hp hq).mp hab).trans ((samePath_iff toLowerCase hq hr).mp hbc))

/-- Paths are read alike where no backslash makes a difference, and naming one file is an equivalence of the paths that both
sides accept. -/
theorem paths_alike (toLowerCase : Units → Units) : (∀ s, Alike s ↔ backslash ∉ s ∨ Misspelt s) ∧
    Equivalence fun a b : {s : Units // Accepted s} => samePath toLowerCase a.1 b.1 = true :=
  ⟨alike_iff, samePath_equivalence toLowerCase⟩

/-- A backslash inside a name is a symbol of it to the page and refused by the chassis. -/
theorem inner_backslash_not_alike : ¬ Alike (unitsOf ['a', '\\', 'b']) := by
  intro h
  have haccepts : cleanRelative (unitsOf ['a', '\\', 'b']) = some (unitsOf ['a', '\\', 'b']) := by decide
  have hrefuses : wireRelativePath (utf8 (unitsOf ['a', '\\', 'b'])) = .error .outsideProject := by decide
  have hnone := h.1.mpr ⟨_, hrefuses, not_false⟩
  rw [haccepts] at hnone
  cases hnone

end Desk.PackPath
