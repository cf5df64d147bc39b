import Desk.Canon.Verify

/-!
# Canonical bytes identify the value
-/

namespace Desk

namespace Verify

/-! ## The strings of the parser -/

/-- A surrogate is one half of a pair, both written out or both escaped. -/
def strictUnits : List Piece → Option Units
  | [] => some []
  | .plain u _ :: rest =>
    if isHigh u then
      match rest with
      | .plain v _ :: rest => if isLow v then (strictUnits rest).map fun out => u :: v :: out else none
      | _ => none
    else if isLow u then none
    else (strictUnits rest).map fun out => u :: out
  | .short _ u _ :: rest => (strictUnits rest).map fun out => u :: out
  | .hex _ _ _ _ u _ :: rest =>
    if isHigh u then
      match rest with
      | .hex _ _ _ _ v _ :: rest => if isLow v then (strictUnits rest).map fun out => u :: v :: out else none
      | _ => none
    else if isLow u then none
    else (strictUnits rest).map fun out => u :: out

theorem isPlain_of_isHigh {u : UInt16} (h : isHigh u = true) : isPlain u = true := by
  rw [isHigh_iff] at h
  simp only [isPlain, Bool.and_eq_true, decide_eq_true_eq, bne_iff_ne, ne_eq, UInt16.le_iff_toNat_le]
  refine ⟨⟨?_, ?_⟩, ?_⟩
  · exact Nat.le_trans (by decide) h.1
  · rintro rfl
    exact absurd h (by decide)
  · rintro rfl
    exact absurd h (by decide)

theorem isPlain_of_isLow {u : UInt16} (h : isLow u = true) : isPlain u = true := by
  rw [isLow_iff] at h
  simp only [isPlain, Bool.and_eq_true, decide_eq_true_eq, bne_iff_ne, ne_eq, UInt16.le_iff_toNat_le]
  refine ⟨⟨?_, ?_⟩, ?_⟩
  · exact Nat.le_trans (by decide) h.1
  · rintro rfl
    exact absurd h (by decide)
  · rintro rfl
    exact absurd h (by decide)

theorem isPlain_iff {u : UInt16} : isPlain u = true ↔ ¬ u < 0x20 ∧ u ≠ quoteUnit ∧ u ≠ escapeUnit := by
  simp only [isPlain, Bool.and_eq_true, decide_eq_true_eq, bne_iff_ne, ne_eq, UInt16.not_lt, and_assoc]

theorem strictUnits_plain {u : UInt16} (h : isPlain u = true) (hh : ¬ isHigh u = true) (hl : ¬ isLow u = true)
    (ps : List Piece) : strictUnits (.plain u h :: ps) = (strictUnits ps).map (u :: ·) := by
  conv_lhs => unfold strictUnits
  rw [if_neg hh, if_neg hl]

theorem strictUnits_hex {a b c d u : UInt16} (h : hexUnits a b c d = some u) (hh : ¬ isHigh u = true)
    (hl : ¬ isLow u = true) (ps : List Piece) : strictUnits (.hex a b c d u h :: ps) = (strictUnits ps).map (u :: ·) := by
  conv_lhs => unfold strictUnits
  rw [if_neg hh, if_neg hl]

/-- One piece or a pair in front of a string that was read. -/
theorem prepend_read (first : List Piece) (out : Units → Units) {input v rest : Units}
    (ih : ∀ {v rest : Units}, string input = some (v, rest) →
      ∃ ps, input = piecesText ps ++ quoteUnit :: rest ∧ strictUnits ps = some v)
    (hs : ∀ ps, strictUnits (first ++ ps) = (strictUnits ps).map out)
    (h : ((string input).map fun (x : Units × Units) => (out x.1, x.2)) = some (v, rest)) :
    ∃ ps, piecesText first ++ input = piecesText ps ++ quoteUnit :: rest ∧ strictUnits ps = some v := by
  obtain ⟨⟨v', rest'⟩, hread, heq⟩ := Option.map_eq_some_iff.mp h
  obtain ⟨rfl, rfl⟩ := Prod.mk.inj heq
  obtain ⟨ps, rfl, hps⟩ := ih hread
  exact ⟨first ++ ps, by simp [piecesText], by rw [hs, hps]; rfl⟩

theorem string_sound {input v rest : Units} (h : string input = some (v, rest)) :
    ∃ ps, input = piecesText ps ++ quoteUnit :: rest ∧ strictUnits ps = some v := by
  fun_induction string input generalizing v rest with
  | case2 input =>
    obtain ⟨rfl, rfl⟩ := Prod.mk.inj (Option.some.inj h)
    exact ⟨[], rfl, rfl⟩
  | case5 c _ _ _ hc next input hn ih =>
    refine prepend_read [.plain c (isPlain_of_isHigh hc), .plain next (isPlain_of_isLow hn)] (fun out => c :: next :: out)
      ih (fun ps => ?_) h
    simp [strictUnits, hc, hn]
  | case8 c input hq hcontrol hb hh hl ih =>
    exact prepend_read [.plain c (isPlain_iff.mpr ⟨hcontrol, hq, hb⟩)] (c :: ·) ih (strictUnits_plain _ hh hl) h
  | case11 c _ _ hb e input _ u he ih =>
    rw [not_ne_iff] at hb
    rw [hb]
    exact prepend_read [.short e u he] (u :: ·) ih (fun ps => rfl) h
  | case14 c _ _ hb e he a b x d high hx hh backslash u a' b' x' d' input hu low hx' hl ih =>
    rw [not_ne_iff] at hb he
    rw [hb, he, hu.1, hu.2]
    refine prepend_read [.hex a b x d high hx, .hex a' b' x' d' low hx'] (fun out => high :: low :: out)
      ih (fun ps => ?_) h
    simp [strictUnits, hh, hl]
  | case19 c _ _ hb e he a b x d input u hx hh hl ih =>
    rw [not_ne_iff] at hb he
    rw [hb, he]
    exact prepend_read [.hex a b x d u hx] (u :: ·) ih (strictUnits_hex hx hh hl) h
  | _ => cases h

theorem string_complete {ps : List Piece} {v : Units} (rest : Units) (h : strictUnits ps = some v) :
    string (piecesText ps ++ quoteUnit :: rest) = some (v, rest) := by
  fun_induction strictUnits ps generalizing v with
  | case1 =>
    rw [← Option.some.inj h]
    show string (quoteUnit :: rest) = _
    rw [string.eq_def]
    rfl
  | case2 u hu hh v hv ps hl ih =>
    obtain ⟨out, hout, rfl⟩ := Option.map_eq_some_iff.mp h
    obtain ⟨hc, hq, hb⟩ := isPlain_iff.mp hu
    show string (u :: v :: (piecesText ps ++ quoteUnit :: rest)) = _
    rw [string.eq_def]
    dsimp only
    rw [if_neg hq, if_neg hc, if_pos hb, if_pos hh]
    show (if isLow v = true then _ else _) = _
    rw [if_pos hl, ih hout]
    rfl
  | case6 u hu ps hh hl ih =>
    obtain ⟨out, hout, rfl⟩ := Option.map_eq_some_iff.mp h
    obtain ⟨hc, hq, hb⟩ := isPlain_iff.mp hu
    show string (u :: (piecesText ps ++ quoteUnit :: rest)) = _
    rw [string.eq_def]
    dsimp only
    rw [if_neg hq, if_neg hc, if_pos hb, if_neg hh, if_neg hl, ih hout]
    rfl
  | case7 e u he ps ih =>
    obtain ⟨out, hout, rfl⟩ := Option.map_eq_some_iff.mp h
    have hne : e ≠ unit 'u' := by
      rintro rfl
      have hnone : shortEscape (unit 'u') = none := by decide
      rw [hnone] at he
      cases he
    show string (escapeUnit :: e :: (piecesText ps ++ quoteUnit :: rest)) = _
    rw [string.eq_def]
    dsimp only
    rw [if_neg (by decide), if_neg (by decide), if_neg (by decide)]
    show (if e ≠ unit 'u' then _ else _) = _
    rw [if_pos hne, he]
    show Option.map _ (string _) = _
    rw [ih hout]
    rfl
  | case8 a b c d high hx hh a' b' c' d' low hx' ps hl ih =>
    obtain ⟨out, hout, rfl⟩ := Option.map_eq_some_iff.mp h
    show string (escapeUnit :: unit 'u' :: a :: b :: c :: d :: escapeUnit :: unit 'u' :: a' :: b' :: c' :: d' ::
      (piecesText ps ++ quoteUnit :: rest)) = _
    rw [string.eq_def]
    dsimp only
    rw [if_neg (by decide), if_neg (by decide), if_neg (by decide)]
    rw [hx]
    show (if isHigh high = true then _ else _) = _
    rw [if_pos hh]
    rw [hx']
    show (if isLow low = true then _ else _) = _
    rw [if_pos hl, ih hout]
    rfl
  | case12 a b c d u hx ps hh hl ih =>
    obtain ⟨out, hout, rfl⟩ := Option.map_eq_some_iff.mp h
    show string (escapeUnit :: unit 'u' :: a :: b :: c :: d :: (piecesText ps ++ quoteUnit :: rest)) = _
    rw [string.eq_def]
    dsimp only
    rw [if_neg (by decide), if_neg (by decide), if_neg (by decide)]
    rw [hx]
    show (if isHigh u = true then _ else if isLow u = true then _ else _) = _
    rw [if_neg hh, if_neg hl, ih hout]
    rfl
  | _ => cases h

theorem nodup_entries {es : List (Units × Value Units)} (h : (es.map Prod.fst).Nodup) : parser.entries es = some es :=
  refuseRepeats_eq_some.mpr ⟨rfl, h⟩

theorem numberForm_of_number {l n : Units} (h : number l = some n) : numberForm l = true ∧ n = l := by
  unfold number at h
  split at h
  · rename_i hl
    exact ⟨hl, (Option.some.inj h).symm⟩
  · cases h

/-- What the parser makes of strings and numbers. -/
def spelling : Spelling parser where
  string := strictUnits
  number n := some n.1
  string_sound := string_sound
  string_complete := string_complete
  number_sound h := by
    obtain ⟨l, hl, hn⟩ := readRun_sound number (fun h => (numberForm_of_number h).1) h
    exact ⟨l, hl, by rw [(numberForm_of_number hn).2]⟩
  number_complete {l v rest} h hr := by
    rw [← Option.some.inj h]
    exact readRun_complete number (by rw [number, if_pos l.2]) hr

theorem shortEscape_plane {e u : UInt16} (h : shortEscape e = some u) : isPlane u = true ∧ isPlane e = true := by
  unfold shortEscape at h
  split at h
  · rename_i he
    rw [← Option.some.inj h]
    rcases he with rfl | rfl | rfl <;> decide
  · repeat' split at h
    all_goals first | (rename_i he; rw [← Option.some.inj h, he]; decide) | cases h

theorem hexDigitValue_plane {u : UInt16} {n : Nat} (h : hexDigitValue u = some n) : isPlane u = true := by
  unfold hexDigitValue at h
  rw [isPlane_iff]
  split at h
  · rename_i hd
    rw [isDigit_iff] at hd
    omega
  · split at h
    · rename_i hr
      simp only [UInt16.le_iff_toNat_le] at hr
      exact Or.inl (Nat.lt_of_le_of_lt hr.2 (by decide))
    · split at h
      · rename_i hr
        simp only [UInt16.le_iff_toNat_le] at hr
        exact Or.inl (Nat.lt_of_le_of_lt hr.2 (by decide))
      · cases h

theorem hexText_plane {a b c d u : UInt16} (h : hexUnits a b c d = some u) :
    ∀ x ∈ [escapeUnit, unit 'u', a, b, c, d], isPlane x = true := by
  simp only [hexUnits, Option.bind_eq_bind, Option.bind_eq_some_iff] at h
  obtain ⟨_, ha, _, hb, _, hc, _, hd, _⟩ := h
  intro x hx
  simp only [List.mem_cons, List.not_mem_nil, or_false] at hx
  rcases hx with rfl | rfl | rfl | rfl | rfl | rfl
  · decide
  · decide
  · exact hexDigitValue_plane ha
  · exact hexDigitValue_plane hb
  · exact hexDigitValue_plane hc
  · exact hexDigitValue_plane hd

/-- Strings the parser accepts are paired, and so are their texts. -/
theorem paired_of_strict {ps : List Piece} {u : Units} (h : strictUnits ps = some u) :
    paired u = true ∧ pairedText ps = true := by
  have single : ∀ {x : UInt16}, ¬ isHigh x = true → ¬ isLow x = true → isPlane x = true := by
    intro x hh hl
    simp [isPlane, hh, hl]
  have pair : ∀ {x y : UInt16} {rest : Units}, isHigh x = true → isLow y = true → paired rest = true →
      paired (x :: y :: rest) = true := by
    intro x y rest hx hy hr
    rw [paired, if_pos hx, hy, hr]
    rfl
  have plane : ∀ {l : Units} {rest : Units}, (∀ x ∈ l, isPlane x = true) → paired rest = true → paired (l ++ rest) = true := by
    intro l rest hl hr
    rw [paired_append hl, hr]
  fun_induction strictUnits ps generalizing u with
  | case1 => rw [← Option.some.inj h]; exact ⟨rfl, rfl⟩
  | case2 x hx hh y hy ps hl ih =>
    obtain ⟨out, hout, rfl⟩ := Option.map_eq_some_iff.mp h
    exact ⟨pair hh hl (ih hout).1, pair hh hl (ih hout).2⟩
  | case6 x hx ps hh hl ih =>
    obtain ⟨out, hout, rfl⟩ := Option.map_eq_some_iff.mp h
    rw [paired_cons (single hh hl)]
    refine ⟨(ih hout).1, ?_⟩
    show paired (x :: piecesText ps) = true
    rw [paired_cons (single hh hl)]
    exact (ih hout).2
  | case7 e x he ps ih =>
    obtain ⟨out, hout, rfl⟩ := Option.map_eq_some_iff.mp h
    obtain ⟨hx, he'⟩ := shortEscape_plane he
    rw [paired_cons hx]
    exact ⟨(ih hout).1, plane (l := [escapeUnit, e]) (by simp [he']; decide) (ih hout).2⟩
  | case8 a b c d high hx hh a' b' c' d' low hx' ps hl ih =>
    obtain ⟨out, hout, rfl⟩ := Option.map_eq_some_iff.mp h
    exact ⟨pair hh hl (ih hout).1, plane (hexText_plane hx) (plane (hexText_plane hx') (ih hout).2)⟩
  | case12 a b c d x hx ps hh hl ih =>
    obtain ⟨out, hout, rfl⟩ := Option.map_eq_some_iff.mp h
    rw [paired_cons (single hh hl)]
    exact ⟨(ih hout).1, plane (hexText_plane hx) (ih hout).2⟩
  | _ => cases h

/-- A string whose text and whose units are both paired is one the parser accepts. -/
theorem strict_of_paired (ps : List Piece) (ht : pairedText ps = true) (hu : paired (piecesUnits ps) = true) :
    strictUnits ps = some (piecesUnits ps) := by
  have not_plane : ∀ {x : UInt16}, isPlane x = true → ¬ isHigh x = true ∧ ¬ isLow x = true := by
    intro x hx
    simp only [isPlane, Bool.and_eq_true, Bool.not_eq_true'] at hx
    simp [hx]
  have after_high : ∀ {x : UInt16} {rest : Units}, isHigh x = true → paired (x :: rest) = true →
      ∃ y more, rest = y :: more ∧ isLow y = true ∧ paired more = true := by
    intro x rest hx h
    cases rest with
    | nil => simp [paired, hx] at h
    | cons y more =>
      rw [paired, if_pos hx, Bool.and_eq_true] at h
      exact ⟨y, more, rfl, h⟩
  have not_low : ∀ {x : UInt16} {rest : Units}, isLow x = true → ¬ isHigh x = true → paired (x :: rest) = true → False := by
    intro x rest hl hh h
    cases rest <;> simp [paired, hh, hl] at h
  fun_induction strictUnits ps with
  | case1 => rfl
  | case2 x hx hh y hy ps hl ih =>
    obtain ⟨_, _, heq, _, hpt⟩ := after_high hh ht
    obtain ⟨_, _, heq', _, hpu⟩ := after_high hh hu
    obtain ⟨rfl, rfl⟩ := List.cons.inj heq
    obtain ⟨rfl, rfl⟩ := List.cons.inj heq'
    rw [ih hpt hpu]
    rfl
  | case3 x hx hh y hy ps hl =>
    obtain ⟨_, _, heq, hlow, _⟩ := after_high hh ht
    obtain ⟨rfl, rfl⟩ := List.cons.inj heq
    exact absurd hlow hl
  | case4 x hx ps hh hps =>
    obtain ⟨y, more, heq, hlow, _⟩ := after_high hh ht
    cases ps with
    | nil => cases heq
    | cons p ps =>
      cases p with
      | plain v hv => exact absurd rfl (hps v hv ps)
      | short e v hv =>
        obtain ⟨rfl, _⟩ := List.cons.inj heq
        exact absurd hlow (by decide)
      | hex a b c d v hv =>
        obtain ⟨rfl, _⟩ := List.cons.inj heq
        exact absurd hlow (by decide)
  | case5 x hx ps hh hl => exact absurd ht fun h => not_low hl hh h
  | case6 x hx ps hh hl ih =>
    have hplane : isPlane x = true := by simp [isPlane, hh, hl]
    rw [ih (by rw [← ht]; exact (paired_cons hplane _).symm) (by rw [← hu]; exact (paired_cons hplane _).symm)]
    rfl
  | case7 e x he ps ih =>
    obtain ⟨hx, he'⟩ := shortEscape_plane he
    have htext : pairedText ps = true := by
      have h : paired ([escapeUnit, e] ++ piecesText ps) = true := ht
      rwa [paired_append (by simp [he']; decide)] at h
    rw [ih htext (by rw [← hu]; exact (paired_cons hx _).symm)]
    rfl
  | case8 a b c d x hx hh a' b' c' d' y hy ps hl ih =>
    have htext : pairedText ps = true := by
      have h : paired ([escapeUnit, unit 'u', a, b, c, d] ++ ([escapeUnit, unit 'u', a', b', c', d'] ++ piecesText ps)) =
          true := ht
      rwa [paired_append (hexText_plane hx), paired_append (hexText_plane hy)] at h
    obtain ⟨_, _, heq, _, hpu⟩ := after_high hh hu
    obtain ⟨rfl, rfl⟩ := List.cons.inj heq
    rw [ih htext hpu]
    rfl
  | case9 a b c d x hx hh a' b' c' d' y hy ps hl =>
    obtain ⟨_, _, heq, hlow, _⟩ := after_high hh hu
    obtain ⟨rfl, rfl⟩ := List.cons.inj heq
    exact absurd hlow hl
  | case10 a b c d x hx ps hh hps =>
    obtain ⟨y, more, heq, hlow, _⟩ := after_high hh hu
    cases ps with
    | nil => cases heq
    | cons p ps =>
      obtain ⟨rfl, _⟩ := List.cons.inj heq
      cases p with
      | plain v hv =>
        have h : paired ([escapeUnit, unit 'u', a, b, c, d] ++ (v :: piecesText ps)) = true := ht
        rw [paired_append (hexText_plane hx)] at h
        have hl : isLow v = true := hlow
        have hh' : ¬ isHigh v = true := by
          rw [isLow_iff] at hl
          rw [isHigh_iff]
          omega
        exact absurd h fun h => not_low hl hh' h
      | short e v hv => exact absurd hlow (not_plane (shortEscape_plane hv).1).2
      | hex a' b' c' d' v hv => exact absurd rfl (hps a' b' c' d' v hv ps)
  | case11 a b c d x hx ps hh hl => exact absurd hu fun h => not_low hl hh h
  | case12 a b c d x hx ps hh hl ih =>
    have hplane : isPlane x = true := by simp [isPlane, hh, hl]
    have htext : pairedText ps = true := by
      have h : paired ([escapeUnit, unit 'u', a, b, c, d] ++ piecesText ps) = true := ht
      rwa [paired_append (hexText_plane hx)] at h
    rw [ih htext (by rw [← hu]; exact (paired_cons hplane _).symm)]
    rfl

/-! ## The strings of the renderer -/

theorem hexUnits_control : ∀ n < 32, hexUnits (unit '0') (unit '0') (hexDigit (n / 16)) (hexDigit (n % 16)) =
    some (UInt16.ofNat n) := by
  decide

/-- How the renderer writes one unit. -/
theorem canonicalUnit_piece (u : UInt16) : ∃ p : Piece, p.text = canonicalUnit u ∧ p.unit = u ∧
    ((∃ h, p = .plain u h) ∨ isHigh u = false ∧ isLow u = false ∧ ∀ ps, strictUnits (p :: ps) = (strictUnits ps).map (u :: ·)) := by
  have short : ∀ (e x : UInt16) (h : shortEscape e = some x), ∀ ps,
      strictUnits (.short e x h :: ps) = (strictUnits ps).map (x :: ·) := fun _ _ _ _ => rfl
  unfold canonicalUnit
  split
  · rename_i h
    rw [h]
    exact ⟨.short quoteUnit quoteUnit (by decide), rfl, rfl, Or.inr ⟨by decide, by decide, short _ _ _⟩⟩
  split
  · rename_i h
    rw [h]
    exact ⟨.short escapeUnit escapeUnit (by decide), rfl, rfl, Or.inr ⟨by decide, by decide, short _ _ _⟩⟩
  split
  · rename_i h
    rw [h]
    exact ⟨.short (unit 'b') 0x08 (by decide), rfl, rfl, Or.inr ⟨by decide, by decide, short _ _ _⟩⟩
  split
  · rename_i h
    rw [h]
    exact ⟨.short (unit 'f') 0x0c (by decide), rfl, rfl, Or.inr ⟨by decide, by decide, short _ _ _⟩⟩
  split
  · rename_i h
    rw [h]
    exact ⟨.short (unit 'n') 0x0a (by decide), rfl, rfl, Or.inr ⟨by decide, by decide, short _ _ _⟩⟩
  split
  · rename_i h
    rw [h]
    exact ⟨.short (unit 'r') 0x0d (by decide), rfl, rfl, Or.inr ⟨by decide, by decide, short _ _ _⟩⟩
  split
  · rename_i h
    rw [h]
    exact ⟨.short (unit 't') 0x09 (by decide), rfl, rfl, Or.inr ⟨by decide, by decide, short _ _ _⟩⟩
  split
  · rename_i h
    have hlt : u.toNat < 32 := UInt16.lt_iff_toNat_lt.mp h
    have hplane : isPlane u = true := isPlane_iff.mpr (by omega)
    simp only [isPlane, Bool.and_eq_true, Bool.not_eq_true'] at hplane
    have hx := hexUnits_control u.toNat hlt
    rw [UInt16.ofNat_toNat] at hx
    exact ⟨.hex _ _ _ _ u hx, rfl, rfl, Or.inr ⟨hplane.1, hplane.2,
      strictUnits_hex hx (by simp [hplane.1]) (by simp [hplane.2])⟩⟩
  · rename_i hq hb _ _ _ _ _ hc
    exact ⟨.plain u (isPlain_iff.mpr ⟨hc, hq, hb⟩), rfl, rfl, Or.inl ⟨_, rfl⟩⟩

theorem canonicalUnit_of_surrogate {u : UInt16} (h : isPlane u = false) : canonicalUnit u = [u] ∧ isPlain u = true := by
  have hp : isPlain u = true := by
    rw [isPlane, Bool.and_eq_false_iff, Bool.not_eq_false', Bool.not_eq_false'] at h
    exact h.elim isPlain_of_isHigh isPlain_of_isLow
  obtain ⟨p, hp', _, hcase⟩ := canonicalUnit_piece u
  rcases hcase with ⟨hplain, rfl⟩ | ⟨hh, hl, _⟩
  · exact ⟨hp'.symm, hp⟩
  · rw [isPlane, hh, hl] at h
    cases h

/-- Every string is written in pieces of its units. -/
theorem canonicalString_units (s : Units) : ∃ ps, canonicalString s = quotedText ps ∧ piecesUnits ps = s := by
  have hpieces : ∃ ps, s.flatMap canonicalUnit = piecesText ps ∧ piecesUnits ps = s := by
    induction s with
    | nil => exact ⟨[], rfl, rfl⟩
    | cons u s ih =>
      obtain ⟨ps, hps, hs⟩ := ih
      obtain ⟨p, hp, hu, _⟩ := canonicalUnit_piece u
      exact ⟨p :: ps, by rw [List.flatMap_cons, hps, ← hp]; rfl, by rw [piecesUnits, List.map_cons, hu, ← piecesUnits, hs]⟩
  obtain ⟨ps, hps, hs⟩ := hpieces
  exact ⟨ps, by rw [canonicalString, hps, quotedText], hs⟩

theorem bare_canonicalString (s : Units) : Bare (canonicalString s) := by
  obtain ⟨ps, hps, _⟩ := canonicalString_units s
  rw [hps]
  exact bare_quoted ps

/-- A paired string is written in pieces that the parser reads as that string. -/
theorem canonicalString_pieces {s : Units} (h : paired s = true) :
    ∃ ps, canonicalString s = quotedText ps ∧ strictUnits ps = some s := by
  have hpieces : ∃ ps, s.flatMap canonicalUnit = piecesText ps ∧ strictUnits ps = some s := by
    have step : ∀ {u : UInt16} {rest : Units}, isPlane u = true → (∃ ps, rest.flatMap canonicalUnit = piecesText ps ∧
        strictUnits ps = some rest) → ∃ ps, (u :: rest).flatMap canonicalUnit = piecesText ps ∧
          strictUnits ps = some (u :: rest) := by
      rintro u rest hu ⟨ps, ht, hs⟩
      obtain ⟨p, hp, _, hcase⟩ := canonicalUnit_piece u
      refine ⟨p :: ps, by rw [List.flatMap_cons, ht, ← hp]; rfl, ?_⟩
      simp only [isPlane, Bool.and_eq_true, Bool.not_eq_true'] at hu
      rcases hcase with ⟨hplain, rfl⟩ | ⟨_, _, hstrict⟩
      · rw [strictUnits_plain hplain (by simp [hu.1]) (by simp [hu.2]), hs]
        rfl
      · rw [hstrict, hs]
        rfl
    induction s using paired.induct with
    | case1 => exact ⟨[], rfl, rfl⟩
    | case2 u => exact step (by simpa [paired, isPlane] using h) ⟨[], rfl, rfl⟩
    | case3 u v rest hu ih =>
      rw [paired, if_pos hu, Bool.and_eq_true] at h
      obtain ⟨ps, ht, hs⟩ := ih h.2
      obtain ⟨hcu, hpu⟩ := canonicalUnit_of_surrogate (u := u) (by simp [isPlane, hu])
      obtain ⟨hcv, hpv⟩ := canonicalUnit_of_surrogate (u := v) (by simp [isPlane, h.1])
      refine ⟨.plain u hpu :: .plain v hpv :: ps, ?_, by simp [strictUnits, hu, h.1, hs]⟩
      rw [List.flatMap_cons, List.flatMap_cons, ht, hcu, hcv]
      rfl
    | case4 u v rest hu ih =>
      rw [paired, if_neg hu, Bool.and_eq_true, Bool.not_eq_true'] at h
      exact step (by simp [isPlane, hu, h.1]) (ih h.2)
  obtain ⟨ps, ht, hs⟩ := hpieces
  exact ⟨ps, by rw [canonicalString, ht, quotedText], hs⟩

/-! ## The renderer and the parser -/

/-- The literal an integer is written with. -/
def respelled (literal : Units) : Units := intText (literalInt literal)

theorem compareCodePoints_le (a b : Units) : decide (compareCodePoints a b ≤ 0) = true ↔ codePoints a ≤ codePoints b := by
  rw [decide_eq_true_eq, compareCodePoints, comparePoints_le_iff]

theorem renderNumber_eq {l t : Units} (h : renderNumber l = some t) : t = respelled l ∧ renderNumber t = some t := by
  unfold renderNumber at h
  split at h
  · dsimp only at h
    split at h
    · cases h
    · rename_i hrange
      rw [← Option.some.inj h]
      refine ⟨rfl, ?_⟩
      rw [renderNumber, if_pos (integerForm_intText _)]
      dsimp only
      rw [literalInt_intText, if_neg hrange]
  · cases h

theorem writes : Writes (fun u => paired u = true) renderer spelling respelled where
  string hu h := by
    rw [← Option.some.inj h]
    exact canonicalString_pieces hu
  number h := by
    obtain ⟨rfl, _⟩ := renderNumber_eq h
    exact ⟨⟨_, numberForm_intText _⟩, rfl, rfl⟩
  order := compareCodePoints_le
  entries := nodup_entries

theorem respell : WritesAlike renderer renderer fun l l' => l' = respelled l where
  string h := h
  number := by
    rintro l _ t rfl h
    obtain ⟨rfl, h'⟩ := renderNumber_eq h
    exact h'
  nests h := h
  order := compareCodePoints_le
  order' := compareCodePoints_le

/-- The same number; the literals the renderer takes are integers. -/
def SameNumber (l l' : Units) : Prop := literalInt l = literalInt l'

theorem writesAlike : WritesAlike renderer renderer fun l l' => SameNumber l l' ∧ ∃ t, renderer.number l' = some t where
  string h := h
  number := by
    rintro l l' t ⟨heq, t', h'⟩ h
    rw [h', (renderNumber_eq h).1, (renderNumber_eq h').1, respelled, respelled, heq]
  nests h := h
  order := compareCodePoints_le
  order' := compareCodePoints_le

/-! ## Canonical text -/

theorem encode_injective {s t : Units} (hs : paired s = true) (ht : paired t = true) (h : encode s = encode t) : s = t :=
  charsOfUnits_injective hs ht (String.ofList_injective (bytesOf_injective h))

/-- What the parser reads of what the renderer writes of what the parser read. -/
structure Canonical (v : Value Units) (out : Units) : Prop where
  paired : paired out = true
  parsed : parseJsonText out = some (v.sorted respelled)
  fixed : render (v.sorted respelled) = some out
  bare : ∀ u ∈ outside false out, isVisible u = true

theorem canonical_of_render {text out : Units} {v : Value Units} (hp : parseJsonText text = some v)
    (hr : render v = some out) : Canonical v out := by
  obtain ⟨hd, hf⟩ := Reader.parse_fits spelling rfl (fun h => (paired_of_strict h).1) hp
  obtain ⟨c, hc, hb⟩ := renderer.spells writes v hr hd hf
  have hbare : Bare out := renderer.render_bare
    (fun {u t} h => by
      rw [← Option.some.inj h]
      exact bare_canonicalString u)
    (fun h => by
      rw [(renderNumber_eq h).1]
      exact bare_numeric (all_isNumeric (numberForm_intText _))) v hr
  obtain ⟨bare, heq, hv⟩ := hbare []
  refine ⟨?_, renderer.parse_render writes hr hd hf, ?_, ?_⟩
  · have hpair := c.paired_text []
    rw [List.append_nil, c.build_strings spelling (fun h => (paired_of_strict h).2) hb, hc] at hpair
    exact hpair
  · have hsame := v.same_sorted respelled
    exact renderer.render_of_same respell v hsame hd hr
  · rw [List.append_nil, show outside false [] = [] from rfl, List.append_nil] at heq
    rw [heq]
    exact hv

theorem canonicalText_eq_some {text : Units} {bytes : List UInt8} (h : canonicalText text = some bytes) :
    ∃ v out, parseJsonText text = some v ∧ render v = some out ∧ encode out = bytes := by
  obtain ⟨v, hv, hc⟩ := Option.bind_eq_some_iff.mp h
  obtain ⟨out, hr, he⟩ := Option.map_eq_some_iff.mp hc
  exact ⟨v, out, hv, hr, he⟩

/-- Canonical bytes are equal exactly for texts of one value, and are the text of that value's canonical form. -/
theorem canonicalText_identifies {text₁ text₂ : Units} {bytes₁ bytes₂ : List UInt8}
    (h₁ : canonicalText text₁ = some bytes₁) (h₂ : canonicalText text₂ = some bytes₂) :
    (bytes₁ = bytes₂ ↔ ∃ v₁ v₂, parseJsonText text₁ = some v₁ ∧ parseJsonText text₂ = some v₂ ∧ v₁.Same SameNumber v₂) ∧
      ∃ chars, bytes₁ = bytesOf (String.ofList chars) ∧ canonicalText (unitsOf chars) = some bytes₁ ∧
        ∀ u ∈ outside false (unitsOf chars), isVisible u = true := by
  obtain ⟨v₁, out₁, hp₁, hr₁, rfl⟩ := canonicalText_eq_some h₁
  obtain ⟨v₂, out₂, hp₂, hr₂, rfl⟩ := canonicalText_eq_some h₂
  have hc₁ := canonical_of_render hp₁ hr₁
  have hc₂ := canonical_of_render hp₂ hr₂
  constructor
  · constructor
    · intro h
      have hout : out₁ = out₂ := encode_injective hc₁.paired hc₂.paired h
      have hsorted := hc₁.parsed.symm.trans (hout ▸ hc₂.parsed)
      refine ⟨v₁, v₂, hp₁, hp₂, ?_⟩
      exact Value.Same.imp (fun h => intText_injective h) v₁
        (Value.same_of_sorted respelled respelled v₁ v₂ (Option.some.inj hsorted))
    · rintro ⟨w₁, w₂, hw₁, hw₂, hsame⟩
      rw [hp₁, Option.some.injEq] at hw₁
      rw [hp₂, Option.some.injEq] at hw₂
      subst hw₁ hw₂
      have hd := (Reader.parse_fits spelling rfl (fun h => (paired_of_strict h).1) hp₁).1
      have hwritten := renderer.render_of_same writesAlike v₁ (renderer.same_number v₁ hsame hr₂) hd hr₁
      have hout := Option.some.inj (hwritten.symm.trans hr₂)
      rw [hout]
  · have hchars := unitsOf_charsOfUnits hc₁.paired
    refine ⟨charsOfUnits out₁, rfl, ?_, ?_⟩
    · rw [hchars, canonicalText, hc₁.parsed]
      show (render (v₁.sorted respelled)).map encode = _
      rw [hc₁.fixed]
      rfl
    · rw [hchars]
      exact hc₁.bare

theorem canonicalText_identifies_sample :
    (bytesOf "\x7b\"a\":[1],\"b\":0\x7d" = bytesOf "\x7b\"a\":[1],\"b\":0\x7d" ↔ ∃ v₁ v₂,
        parseJsonText (wordText "\x7b\"b\":-0, \"a\":[1]\x7d") = some v₁ ∧
          parseJsonText (wordText "\x7b\"a\":[1],\"b\":0\x7d") = some v₂ ∧ v₁.Same SameNumber v₂) ∧
      ∃ chars, bytesOf "\x7b\"a\":[1],\"b\":0\x7d" = bytesOf (String.ofList chars) ∧
        canonicalText (unitsOf chars) = some (bytesOf "\x7b\"a\":[1],\"b\":0\x7d") ∧
          ∀ u ∈ outside false (unitsOf chars), isVisible u = true :=
  canonicalText_identifies (by decide +kernel) (by decide +kernel)

end Verify

end Desk
