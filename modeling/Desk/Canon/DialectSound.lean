import Desk.Canon.Dialect
import Desk.Canon.VerifySound

/-!
# The dialect and the verifier

The two renderings of the dialect are read back as the value that was written,
and the gateway form is the verifier's canonical text.
-/

namespace Desk

namespace Dialect

/-! ## The strings of the reader -/

theorem unicode_eq_paired (s : Units) : unicode s = paired s := by
  have single : ∀ u : UInt16, (!decide (0xd800 ≤ u.toNat ∧ u.toNat ≤ 0xdfff)) = isPlane u := by
    intro u
    rw [Bool.eq_iff_iff, isPlane_iff, Bool.not_eq_true', decide_eq_false_iff_not]
    omega
  unfold unicode
  induction s using codePoints.induct with
  | case1 => rfl
  | case2 u =>
    rw [codePoints, List.all_cons, single, paired]
    simp [isPlane]
  | case3 u v rest h ih =>
    rw [Bool.and_eq_true] at h
    have hrange := point_range (isHigh_iff.mp h.1) (isLow_iff.mp h.2)
    have hpoint : (!decide (0xd800 ≤ pairPoint u v ∧ pairPoint u v ≤ 0xdfff)) = true := by
      rw [Bool.not_eq_true', decide_eq_false_iff_not]
      intro hle
      exact absurd (Nat.le_trans hrange.1 hle.2) (by decide)
    rw [codePoints_pair h.1 h.2, List.all_cons, hpoint, ih, paired, if_pos h.1, h.2]
  | case4 u v rest h ih =>
    rw [codePoints, if_neg h, List.all_cons, single, ih, paired]
    cases hh : isHigh u
    · simp [isPlane, hh]
    · rw [hh, Bool.true_and, Bool.not_eq_true] at h
      simp [isPlane, hh, h]

/-- The pieces of a token. -/
def wellFormed (ps : List Piece) : Option Units := if unicode (piecesUnits ps) then some (piecesUnits ps) else none

theorem string_sound {input v rest : Units} (h : string input = some (v, rest)) :
    ∃ ps, input = piecesText ps ++ quoteUnit :: rest ∧ wellFormed ps = some v := by
  simp only [string, Option.bind_eq_bind, Option.bind_eq_some_iff, Prod.exists] at h
  obtain ⟨body, rest', ht, h⟩ := h
  obtain ⟨rfl, hb⟩ := JsonParse.token_sound ht
  split at h
  · rename_i value hp
    split at h
    · rename_i hu
      obtain ⟨rfl, rfl⟩ := Prod.mk.inj (Option.some.inj h)
      obtain ⟨ps, hps, rfl⟩ := JsonParse.quoted_of_parse hp hb
      refine ⟨ps, ?_, by rw [wellFormed, if_pos hu]⟩
      rw [quotedText, List.cons.injEq] at hps
      rw [hps.2, List.append_assoc]
      rfl
    · cases h
  · cases h

theorem string_complete {ps : List Piece} {v : Units} (rest : Units) (h : wellFormed ps = some v) :
    string (piecesText ps ++ quoteUnit :: rest) = some (v, rest) := by
  unfold wellFormed at h
  split at h
  · rename_i hu
    have hparse : JsonParse.parse toNumber (quoteUnit :: (piecesText ps ++ [quoteUnit])) = some (.str (piecesUnits ps)) :=
      JsonParse.parse_quoted toNumber ps
    rw [string, JsonParse.token_pieces, Option.bind_eq_bind, Option.bind_some]
    dsimp only
    rw [hparse]
    show (if unicode (piecesUnits ps) = true then _ else _) = _
    rw [if_pos hu, ← Option.some.inj h]
    rfl
  · cases h

theorem numberForm_of_integer {l : Units} {n : Num} (h : integer l = some n) : numberForm l = true := by
  unfold integer at h
  split at h
  · rename_i hl
    exact numberForm_of_integerForm hl
  · cases h

/-- What the reader makes of strings and numbers. -/
def spelling : Spelling reader where
  string := wellFormed
  number n := integer n.1
  string_sound := string_sound
  string_complete := string_complete
  number_sound h := readRun_sound integer numberForm_of_integer h
  number_complete h hr := readRun_complete integer h hr

/-! ## The strings of the renderings -/

theorem stringifyPoint_ascii : ∀ n < 128, JsonParse.stringifyPoint n = Verify.canonicalUnit (UInt16.ofNat n) := by decide +kernel

theorem canonicalUnit_of_plain {u : UInt16} (h : isPlain u = true) : Verify.canonicalUnit u = [u] := by
  obtain ⟨hc, hq, hb⟩ := JsonParse.isPlain_iff.mp h
  have hne : ∀ x : UInt16, x < 0x20 → u ≠ x := by
    rintro x hx rfl
    exact hc hx
  rw [Verify.canonicalUnit, if_neg hq, if_neg hb, if_neg (hne _ (by decide)), if_neg (hne _ (by decide)),
    if_neg (hne _ (by decide)), if_neg (hne _ (by decide)), if_neg (hne _ (by decide)), if_neg hc]

theorem stringifyPoint_large {n : Nat} (h : 128 ≤ n) (hs : ¬ (0xd800 ≤ n ∧ n ≤ 0xdfff)) :
    JsonParse.stringifyPoint n = unitsOfPoint n := by
  unfold JsonParse.stringifyPoint
  rw [if_neg (by omega), if_neg (by omega), if_neg (by omega), if_neg (by omega), if_neg (by omega), if_neg (by omega),
    if_neg (by omega), if_neg (by omega)]

theorem isPlain_of_large {u : UInt16} (h : 128 ≤ u.toNat) : isPlain u = true := by
  rw [JsonParse.isPlain_iff]
  refine ⟨fun hlt => ?_, ?_, ?_⟩
  · have hlt' : u.toNat < 32 := UInt16.lt_iff_toNat_lt.mp hlt
    omega
  · rintro rfl
    exact absurd h (by decide)
  · rintro rfl
    exact absurd h (by decide)

theorem stringifyPoint_unit {u : UInt16} (h : isPlane u = true) : JsonParse.stringifyPoint u.toNat = Verify.canonicalUnit u := by
  by_cases hlt : u.toNat < 128
  · rw [stringifyPoint_ascii u.toNat hlt, UInt16.ofNat_toNat]
  · rw [isPlane_iff] at h
    rw [stringifyPoint_large (by omega) (by omega), unitsOfPoint_toNat, canonicalUnit_of_plain (isPlain_of_large (by omega))]

/-- On paired strings `JSON.stringify` is the verifier's string. -/
theorem stringify_eq {s : Units} (h : paired s = true) : JsonParse.stringify s = Verify.canonicalString s := by
  have hbody : (codePoints s).flatMap JsonParse.stringifyPoint = s.flatMap Verify.canonicalUnit := by
    induction s using codePoints.induct with
    | case1 => rfl
    | case2 u => rw [codePoints, List.flatMap_cons, stringifyPoint_unit (by simpa [paired, isPlane] using h)]; rfl
    | case3 u v rest huv ih =>
      rw [Bool.and_eq_true] at huv
      rw [paired, if_pos huv.1, huv.2, Bool.true_and] at h
      have hrange : 0x10000 ≤ pairPoint u v ∧ pairPoint u v < 0x110000 :=
        point_range (isHigh_iff.mp huv.1) (isLow_iff.mp huv.2)
      have hpoint : JsonParse.stringifyPoint (pairPoint u v) = [u, v] := by
        rw [stringifyPoint_large (Nat.le_trans (by decide) hrange.1), unitsOfPoint_pair huv.1 huv.2]
        exact fun hle => absurd (Nat.le_trans hrange.1 hle.2) (by decide)
      rw [codePoints_pair huv.1 huv.2, List.flatMap_cons, List.flatMap_cons, List.flatMap_cons, hpoint, ih h,
        canonicalUnit_of_plain (Verify.isPlain_of_isHigh huv.1), canonicalUnit_of_plain (Verify.isPlain_of_isLow huv.2)]
      rfl
    | case4 u v rest huv ih =>
      have hh : isHigh u = false := by
        rw [← Bool.not_eq_true]
        intro hh
        rw [paired, if_pos hh, Bool.and_eq_true] at h
        exact huv (by rw [hh, h.1]; rfl)
      rw [paired, hh, if_neg (by decide), Bool.and_eq_true] at h
      rw [codePoints, if_neg huv, List.flatMap_cons, List.flatMap_cons, stringifyPoint_unit (by rw [isPlane, hh, h.1]; rfl),
        ih h.2]
  rw [JsonParse.stringify, hbody, Verify.canonicalString]

theorem hexDigitValue_of_isMarkup {u : UInt16} (h : isMarkup u = true) : hexDigitValue u = none ∧ shortEscape u = none := by
  simp only [isMarkup, Bool.or_eq_true, beq_iff_eq] at h
  rcases h with (((h | h) | h) | h) | h <;> rw [h] <;> decide

theorem escapeMarkup_of_not {u : UInt16} (h : isMarkup u = false) : escapeMarkup u = [u] := by
  rw [escapeMarkup, h]
  rfl

theorem markup_hex {u : UInt16} (h : isMarkup u = true) :
    ∃ a b c d, escapeMarkup u = [escapeUnit, unit 'u', a, b, c, d] ∧ hexUnits a b c d = some u := by
  refine ⟨_, _, _, _, by rw [escapeMarkup, h]; rfl, ?_⟩
  simp only [isMarkup, Bool.or_eq_true, beq_iff_eq] at h
  rcases h with (((h | h) | h) | h) | h <;> rw [h] <;> decide

/-- Markup escaped in a piece. -/
theorem piece_markup (p : Piece) : ∃ p' : Piece, p'.text = p.text.flatMap escapeMarkup ∧ p'.unit = p.unit := by
  have hdigit : ∀ {u : UInt16} {n : Nat}, hexDigitValue u = some n → escapeMarkup u = [u] := by
    intro u n h
    refine escapeMarkup_of_not ?_
    rw [← Bool.not_eq_true]
    intro hm
    rw [(hexDigitValue_of_isMarkup hm).1] at h
    cases h
  cases p with
  | plain u h =>
    cases hm : isMarkup u
    · exact ⟨.plain u h, by simp [Piece.text, escapeMarkup_of_not hm], rfl⟩
    · obtain ⟨a, b, c, d, ht, hx⟩ := markup_hex hm
      exact ⟨.hex a b c d u hx, by simp [Piece.text, ht], rfl⟩
  | short e u h =>
    have he : isMarkup e = false := by
      rw [← Bool.not_eq_true]
      intro hm
      rw [(hexDigitValue_of_isMarkup hm).2] at h
      cases h
    exact ⟨.short e u h, by simp [Piece.text, escapeMarkup_of_not he, escapeMarkup_of_not (u := escapeUnit) (by decide)], rfl⟩
  | hex a b c d u h =>
    have hx := h
    simp only [hexUnits, Option.bind_eq_bind, Option.bind_eq_some_iff] at hx
    obtain ⟨_, ha, _, hb, _, hc, _, hd, _⟩ := hx
    refine ⟨.hex a b c d u h, ?_, rfl⟩
    simp [Piece.text, hdigit ha, hdigit hb, hdigit hc, hdigit hd, escapeMarkup_of_not (u := escapeUnit) (by decide),
      escapeMarkup_of_not (u := unit 'u') (by decide)]

theorem quoted_markup (ps : List Piece) :
    ∃ ps', quotedText ps' = (quotedText ps).flatMap escapeMarkup ∧ piecesUnits ps' = piecesUnits ps := by
  have hpieces : ∃ ps', piecesText ps' = (piecesText ps).flatMap escapeMarkup ∧ piecesUnits ps' = piecesUnits ps := by
    induction ps with
    | nil => exact ⟨[], rfl, rfl⟩
    | cons p ps ih =>
      obtain ⟨ps', ht, hu⟩ := ih
      obtain ⟨p', ht', hu'⟩ := piece_markup p
      refine ⟨p' :: ps', ?_, by rw [piecesUnits, List.map_cons, hu', ← piecesUnits, hu]; rfl⟩
      show p'.text ++ piecesText ps' = (p.text ++ piecesText ps).flatMap escapeMarkup
      rw [List.flatMap_append, ht, ht']
  obtain ⟨ps', ht, hu⟩ := hpieces
  refine ⟨ps', ?_, hu⟩
  rw [quotedText, quotedText, ht, List.flatMap_cons, List.flatMap_append, escapeMarkup_of_not (u := quoteUnit) (by decide)]
  simp [escapeMarkup_of_not (u := quoteUnit) (by decide)]

/-- What a rendering writes for a string is read as that string. -/
theorem renderString_pieces {preparation : Bool} {u t : Units} (h : renderString preparation u = some t) :
    paired u = true ∧ ∃ ps, t = quotedText ps ∧ wellFormed ps = some u := by
  unfold renderString at h
  split at h
  · rename_i hu
    have hp : paired u = true := by rwa [← unicode_eq_paired]
    obtain ⟨ps, hps, hunits⟩ := Verify.canonicalString_units u
    have hread : ∀ ps', piecesUnits ps' = u → wellFormed ps' = some u := by
      rintro ps' rfl
      rw [wellFormed, if_pos hu]
    refine ⟨hp, ?_⟩
    rw [← Option.some.inj h, stringify_eq hp, hps]
    split
    · obtain ⟨ps', ht, hu'⟩ := quoted_markup ps
      exact ⟨ps', ht.symm, hread ps' (hu'.trans hunits)⟩
    · exact ⟨ps, rfl, hread ps hunits⟩
  · cases h

/-! ## The numbers of the renderings -/

/-- What a number is read as: the gateway form has no `-0`. -/
def reread (preparation : Bool) : Num → Num
  | .negZero => if preparation then .negZero else .int 0
  | n => n

theorem integer_intText {n : Int} (h : isSafeInteger (.int n) = true) : integer (intText n) = some (.int n) := by
  have hnum : toNumber (intText n) = .int n := by
    rw [toNumber, literalInt_intText]
    split
    · rename_i hz
      rw [hz.2] at hz
      exact absurd hz.1 (by decide)
    · rfl
  rw [integer, if_pos (integerForm_intText n)]
  dsimp only
  rw [hnum, if_pos h]

theorem renderNumber_literal {preparation : Bool} {n : Num} {t : Units} (h : renderNumber preparation n = some t) :
    ∃ l : Numeral, t = l.1 ∧ integer l.1 = some (reread preparation n) := by
  unfold renderNumber at h
  split at h
  · rename_i hs
    have hint : ∀ m, isSafeInteger (.int m) = true →
        ∃ l : Numeral, intText m = l.1 ∧ integer l.1 = some (.int m) := fun m hm =>
      ⟨⟨_, numberForm_intText m⟩, rfl, integer_intText hm⟩
    cases n with
    | int m =>
      rw [← Option.some.inj h]
      exact hint m hs
    | negZero =>
      rw [← Option.some.inj h]
      cases preparation
      · exact hint 0 (by decide)
      · exact ⟨⟨[unit '-', unit '0'], by decide⟩, rfl, by decide⟩
    | other => cases h
  · cases h

theorem compareNames_le (a b : Units) : decide (compareNames a b ≤ 0) = true ↔ codePoints a ≤ codePoints b := by
  rw [decide_eq_true_eq, compareNames]
  generalize codePoints a = xs
  generalize codePoints b = ys
  rw [← Desk.comparePoints_le_iff]
  induction xs generalizing ys with
  | nil =>
    cases ys with
    | nil => simp [comparePoints, Desk.comparePoints]
    | cons y ys =>
      simp only [comparePoints, Desk.comparePoints, List.length_cons, List.length_nil]
      omega
  | cons x xs ih =>
    cases ys with
    | nil =>
      simp only [comparePoints, Desk.comparePoints, List.length_cons, List.length_nil]
      omega
    | cons y ys =>
      simp only [comparePoints, Desk.comparePoints]
      by_cases hxy : x = y
      · rw [if_neg (by omega), if_pos hxy, ih]
      · rw [if_pos (by omega), if_neg hxy]
        split <;> omega

/-! ## The three forms -/

theorem writes (preparation : Bool) :
    Writes (fun u => paired u = true) (renderer preparation) spelling (reread preparation) where
  string _ h := (renderString_pieces h).2
  number h := renderNumber_literal h
  order := compareNames_le
  entries h := refuseRepeats_eq_some.mpr ⟨rfl, h⟩

theorem toNumber_of_integer {l : Units} {n : Num} (h : integer l = some n) :
    integerForm l = true ∧ n = toNumber l ∧ isSafeInteger n = true := by
  unfold integer at h
  split at h
  · rename_i hl
    dsimp only at h
    split at h
    · rename_i hs
      rw [← Option.some.inj h]
      exact ⟨hl, rfl, hs⟩
    · cases h
  · cases h

theorem toNumber_cases (l : Units) : toNumber l = .negZero ∧ literalInt l = 0 ∨ toNumber l = .int (literalInt l) := by
  unfold toNumber
  split
  · rename_i h
    exact Or.inl ⟨rfl, h.2⟩
  · exact Or.inr rfl

theorem covers (preparation : Bool) : Covers spelling (renderer preparation) where
  string := by
    intro ps u h
    change wellFormed ps = some u at h
    unfold wellFormed at h
    split at h
    · rename_i hu
      rw [← Option.some.inj h]
      exact ⟨_, if_pos hu⟩
    · cases h
  number := by
    intro l n h
    obtain ⟨_, rfl, hs⟩ := toNumber_of_integer h
    show ∃ t, renderNumber preparation (toNumber l.1) = some t
    unfold renderNumber
    rw [if_pos hs]
    rcases toNumber_cases l.1 with ⟨h, _⟩ | h <;> rw [h] <;> exact ⟨_, rfl⟩
  nests h := h
  entries := rfl

/-- Where the surrogates of a text are paired the verifier reads what the dialect does. -/
theorem readsAlike : ReadsAlike spelling Verify.spelling pairedText fun n l => integer l = some n where
  string := by
    intro ps u hp h
    change wellFormed ps = some u at h
    unfold wellFormed at h
    split at h
    · rename_i hu
      rw [← Option.some.inj h]
      exact Verify.strict_of_paired ps hp (by rwa [← unicode_eq_paired])
    · cases h
  number {l n} h := ⟨l.1, rfl, h⟩
  nests h := by
    simp only [reader, nesting, decide_eq_true_eq] at h
    exact decide_eq_true (Nat.lt_trans h (by decide))
  entries := rfl
  entries' := rfl

theorem writesAlike : WritesAlike (renderer false) Verify.renderer fun n l => integer l = some n where
  string := by
    intro u t h
    change renderString false u = some t at h
    unfold renderString at h
    split at h
    · rename_i hu
      rw [← Option.some.inj h]
      show some (Verify.canonicalString u) = some (JsonParse.stringify u)
      rw [stringify_eq (by rwa [← unicode_eq_paired])]
    · cases h
  number := by
    intro n l t h ht
    obtain ⟨hform, rfl, hs⟩ := toNumber_of_integer h
    change renderNumber false (toNumber l) = some t at ht
    change Verify.renderNumber l = some t
    unfold renderNumber at ht
    rw [if_pos hs] at ht
    rw [Verify.renderNumber, if_pos hform]
    dsimp only
    rcases toNumber_cases l with ⟨h, hz⟩ | h
    · rw [h] at ht
      rw [hz, if_neg (by decide)]
      exact ht
    · rw [h] at ht hs
      have hrange : -9007199254740991 ≤ literalInt l ∧ literalInt l ≤ 9007199254740991 := of_decide_eq_true hs
      rw [if_neg (by rw [Verify.maxInteger]; omega)]
      exact ht
  nests _ := rfl
  order := compareNames_le
  order' := Verify.compareCodePoints_le

/-- What is read of a rendering. -/
theorem parseJSON_render {v : Value Num} {preparation : Bool} {out : Units} (hd : v.Distinct)
    (h : render v preparation = some out) :
    ∃ v', parseJSON out = some v' ∧ v.Same (fun n m => m = reread preparation n) v' := by
  have hf := (renderer preparation).render_fits (fun h => (renderString_pieces h).1) v h
  exact ⟨_, (renderer preparation).parse_render (writes preparation) h hd hf, v.same_sorted _⟩

theorem paired_of_wellFormed {ps : List Piece} {u : Units} (h : wellFormed ps = some u) : paired u = true := by
  unfold wellFormed at h
  split at h
  · rename_i hu
    rw [← Option.some.inj h, ← unicode_eq_paired]
    exact hu
  · cases h

theorem distinct_of_parse {text : Units} {v : Value Num} (h : parseJSON text = some v) : v.Distinct :=
  (Reader.parse_fits spelling rfl paired_of_wellFormed h).1

theorem render_of_parse {text : Units} {v : Value Num} (h : parseJSON text = some v) (preparation : Bool) :
    ∃ out, render v preparation = some out := by
  obtain ⟨_, c, _, _, hb⟩ := (Reader.parse_iff spelling).mp h
  exact c.build_renders (covers preparation) hb

theorem paired_of_tree (pre post : Layout) (c : Cst) : paired (pre.1 ++ (c.text ++ post.1)) = c.strings pairedText := by
  have hpost := paired_layout post []
  rw [List.append_nil] at hpost
  rw [paired_layout, c.paired_text, hpost, paired, Bool.and_true]

/-- The verifier accepts what the dialect reads exactly when the surrogates of the text are paired. -/
theorem canonicalText_of_parse {text : Units} {v : Value Num} (h : parseJSON text = some v) {out : Units}
    (hr : canonicalize v = some out) :
    Verify.canonicalText text = if paired text then some (encode out) else none := by
  obtain ⟨pre, c, post, rfl, hb⟩ := (Reader.parse_iff spelling).mp h
  rw [paired_of_tree]
  split
  · rename_i hp
    obtain ⟨v', hb', hs⟩ := c.build_same readsAlike hp hb
    have hparse : Verify.parseJsonText (pre.1 ++ (c.text ++ post.1)) = some v' :=
      (Reader.parse_iff Verify.spelling).mpr ⟨pre, c, post, rfl, hb'⟩
    have hrender : Verify.render v' = some out :=
      (renderer false).render_of_same writesAlike v hs (distinct_of_parse h) hr
    rw [Verify.canonicalText, hparse, Option.bind_some, Verify.canonicalize, hrender]
    rfl
  · rename_i hp
    cases hc : Verify.canonicalText (pre.1 ++ (c.text ++ post.1)) with
    | none => rfl
    | some bytes =>
      obtain ⟨v', _, hv', _, _⟩ := Verify.canonicalText_eq_some hc
      obtain ⟨pre', c', post', htext, hb'⟩ := (Reader.parse_iff Verify.spelling).mp hv'
      have hpair := congrArg paired htext
      rw [paired_of_tree, paired_of_tree, c'.build_strings Verify.spelling (fun h => (Verify.paired_of_strict h).2) hb']
        at hpair
      exact absurd hpair hp

/-- The forms of what is read, and what is read of them and of every rendering. -/
theorem canonical_forms_round_trip :
    (∀ text v, parseJSON text = some v → ∃ out prep, canonicalize v = some out ∧ canonicalPreparation v = some prep ∧
      Verify.canonicalText text = (if paired text then some (encode out) else none) ∧
      (∃ v', parseJSON out = some v' ∧ v.Same (fun n m => m = reread false n) v') ∧
      ∃ v', parseJSON prep = some v' ∧ v.Same (fun n m => m = n) v') ∧
    ∀ (v : Value Num) preparation out, v.Distinct → render v preparation = some out → ∃ v', parseJSON out = some v' := by
  constructor
  · intro text v h
    have hd := distinct_of_parse h
    obtain ⟨out, hout⟩ := render_of_parse h false
    obtain ⟨prep, hprep⟩ := render_of_parse h true
    obtain ⟨v', hv', hs⟩ := parseJSON_render hd hprep
    refine ⟨out, prep, hout, hprep, canonicalText_of_parse h hout, parseJSON_render hd hout, v', hv', ?_⟩
    exact Value.Same.imp (fun {n m} hnm => by cases n <;> exact hnm) v hs
  · intro v preparation out hd h
    obtain ⟨v', hv', _⟩ := parseJSON_render hd h
    exact ⟨v', hv'⟩

/-- A surrogate pair with one half written out and the other escaped is read by the dialect only. -/
theorem half_escaped_pair_differs : ¬ ∀ text v out, parseJSON text = some v → canonicalize v = some out →
    Verify.canonicalText text = some (encode out) := by
  intro h
  have hparse : parseJSON [quoteUnit, 0xd800, escapeUnit, unit 'u', unit 'D', unit 'C', unit '0', unit '0', quoteUnit] =
      some (.str [0xd800, 0xdc00]) := by rfl
  have hrefused : Verify.canonicalText
      [quoteUnit, 0xd800, escapeUnit, unit 'u', unit 'D', unit 'C', unit '0', unit '0', quoteUnit] = none := by
    decide +kernel
  obtain ⟨out, hout⟩ := render_of_parse hparse false
  have hsome := h _ _ out hparse hout
  rw [hrefused] at hsome
  cases hsome

end Dialect

end Desk
