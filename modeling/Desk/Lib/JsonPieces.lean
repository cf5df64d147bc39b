import Mathlib.Data.List.DropRight
import Desk.Lib.Fold
import Desk.Lib.JsonScan
import Desk.Lib.Wire

/-!
# JSON texts with what they are made of

A value is a literal or a container of values, each as it is written (`Text`). Every
text the scanner accepts is one (`text_of_isValue`), a text is accepted wherever its
nesting is allowed (`Text.valid`), and a container is read as its members (`split_pieces`).
-/

namespace Desk

namespace JsonScan

/-! ## Values inside containers -/

namespace Scanner

theorem fits_above {base : List Level} (hbase : base ≠ []) (s : Scanner) : (s.above base).Fits :=
  fun _ hnil => hbase (List.append_eq_nil_iff.mp hnil).2

/-- What ends a value by itself is to its container what follows the value. -/
theorem step_ended_above {s : Scanner} {c : UInt8} (base : List Level) (hs : s.Fits) (h : s.step c = .ended) :
    (s.above base).step c = endValue base c := by
  obtain ⟨hends, hlevels⟩ := ends_of_step hs h
  obtain ⟨q, levels⟩ := s
  cases hlevels
  cases q <;> first | exact absurd hends Bool.false_ne_true | rfl | skip
  all_goals
    simp only [above, List.nil_append, step, afterWhole, goto] at h ⊢
    split_ifs at h ⊢
    rfl

/-- Where a value may end, and what follows it belongs to the container. -/
def Awaits (s : Scanner) (rest : List UInt8) : Prop :=
  s.state.ends = true ∧ ∀ c, rest.head? = some c → s.step c = endValue s.levels c

/-- What is scanned inside containers is scanned by itself. -/
theorem scan_above {base : List Level} (hbase : base ≠ []) {s : Scanner} {input : List UInt8} {r : List UInt8 × List UInt8}
    (hs : s.Fits) (h : (s.above base).scan input = some r) :
    ∃ v rest s', s.scan input = some (v, rest) ∧ (s.above base).run v = some s' ∧ s'.levels = base ∧ s'.Awaits rest := by
  induction input generalizing s r with
  | nil =>
    rw [scan] at h
    split at h
    · rename_i hstep
      obtain ⟨_, hlevels⟩ := ends_of_step (fits_above hbase s) hstep
      exact absurd (List.append_eq_nil_iff.mp hlevels).2 hbase
    · cases h
  | cons c input ih =>
    rw [scan] at h
    have hover := step_over base (c := c) hs
    cases hstep : s.step c with
    | scanning s₁ =>
      rw [hstep] at hover
      rcases hover (by simp) with hover | hover
      · rw [hover] at h
        obtain ⟨⟨v₁, r₁⟩, hscan, _⟩ := Option.map_eq_some_iff.mp h
        obtain ⟨v, rest, s', hs₁, hrun, hlevels, hawaits⟩ := ih (fits_step (c := c) hs (by rw [hstep]; rfl)) hscan
        refine ⟨c :: v, rest, s', ?_, ?_, hlevels, hawaits⟩
        · rw [scan, hstep]
          dsimp only
          rw [hs₁]
          rfl
        · rw [run, hover]
          exact hrun
      · rw [hover] at h
        cases h
    | closed s₁ =>
      rw [hstep] at hover
      rcases hover (by simp) with hover | hover
      · have hne : (s₁.above base).levels ≠ [] := fun hnil => hbase (List.append_eq_nil_iff.mp hnil).2
        rw [hover] at h
        replace h := (if_neg hne).symm.trans h
        obtain ⟨⟨v₁, r₁⟩, hscan, _⟩ := Option.map_eq_some_iff.mp h
        have hrun : ∀ v, (s.above base).run (c :: v) = (s₁.above base).run v := by
          intro v
          rw [run, hover]
          exact if_neg hne
        by_cases hlevels : s₁.levels = []
        · refine ⟨[c], input, s₁.above base, ?_, ?_, ?_, ?_⟩
          · rw [scan, hstep]
            exact if_pos hlevels
          · rw [hrun]
            rfl
          · rw [over_levels, hlevels, List.nil_append]
          · have hstate := closed_state hstep
            refine ⟨by rw [over_state, hstate]; rfl, fun d _ => ?_⟩
            obtain ⟨q, levels⟩ := s₁
            cases hstate
            rfl
        · obtain ⟨v, rest, s', hs₁, hrun', hlevels', hawaits⟩ := ih (fits_step (c := c) hs (by rw [hstep]; rfl)) hscan
          refine ⟨c :: v, rest, s', ?_, ?_, hlevels', hawaits⟩
          · rw [scan, hstep]
            dsimp only
            rw [if_neg hlevels, hs₁]
            rfl
          · rw [hrun]
            exact hrun'
      · rw [hover] at h
        cases h
    | ended =>
      obtain ⟨hends, hlevels⟩ := ends_of_step hs hstep
      refine ⟨[], c :: input, s.above base, ?_, rfl, ?_, hends, ?_⟩
      · rw [scan, hstep]
      · rw [over_levels, hlevels, List.nil_append]
      · intro d hd
        cases hd
        rw [step_ended_above base hs hstep, over_levels, hlevels, List.nil_append]
    | failed =>
      rw [hstep] at hover
      rcases hover (by simp) with hover | hover
      · rw [hover] at h
        cases h
      · rw [hover] at h
        cases h

/-! ## Numbers and words -/

end Scanner

/-- Inside a number or a word. -/
def State.isScalar : State → Bool
  | .neg | .one | .zero | .dot | .dot0 | .e | .eSign | .e0 | .t | .tr | .tru | .f | .fa | .fal | .fals | .n | .nu | .nul => true
  | _ => false

namespace Scanner

/-- What a byte of a number or a word is does not depend on the containers around it. -/
theorem step_scalar {q : State} (hq : q.isScalar = true) (levels : List Level) (c : UInt8) :
    (∃ q', (q'.isScalar = true ∨ q' = .endValue) ∧ step ⟨q, []⟩ c = .scanning ⟨q', []⟩ ∧
      step ⟨q, levels⟩ c = .scanning ⟨q', levels⟩) ∨ step ⟨q, []⟩ c = .failed ∨ step ⟨q, []⟩ c = .ended := by
  cases q <;> first | exact absurd hq Bool.false_ne_true | skip
  all_goals
    simp only [step, letter, afterWhole, goto, endValue]
    split_ifs
    all_goals first | exact .inr (.inl rfl) | exact .inr (.inr rfl) | exact .inl ⟨_, .inl rfl, rfl, rfl⟩ | exact .inl ⟨_, .inr rfl, rfl, rfl⟩

theorem run_scalar {q : State} (hq : q.isScalar = true ∨ q = .endValue) (levels : List Level) {body : List UInt8}
    (h : scan ⟨q, []⟩ body = some (body, [])) : ∃ q', run ⟨q, levels⟩ body = some ⟨q', levels⟩ ∧ q'.ends = true := by
  induction body generalizing q with
  | nil =>
    rw [scan] at h
    split at h
    · rename_i hstep
      have hfits : (Scanner.mk q []).Fits := by
        refine fits_of_ne ?_ ?_
        · rintro rfl
          rcases hq with hq | hq <;> cases hq
        · rintro rfl
          rcases hq with hq | hq <;> cases hq
      exact ⟨q, rfl, (ends_of_step hfits hstep).1⟩
    · cases h
  | cons c body ih =>
    rw [scan] at h
    rcases hq with hq | rfl
    · rcases step_scalar hq levels c with ⟨q', hor, hstep, hlevels⟩ | hstep | hstep
      · rw [hstep] at h
        obtain ⟨⟨body', r⟩, hscan, heq⟩ := Option.map_eq_some_iff.mp h
        simp only [Prod.mk.injEq, List.cons.injEq, true_and] at heq
        obtain ⟨rfl, rfl⟩ := heq
        rw [run, hlevels]
        exact ih hor hscan
      · rw [hstep] at h
        cases h
      · rw [hstep] at h
        cases h
    · cases h

theorem beginLiteral_scalar {c : UInt8} {q : State} (h : beginLiteral c = some q) (hc : c ≠ quoteByte) : q.isScalar = true := by
  unfold beginLiteral at h
  rw [if_neg hc] at h
  split_ifs at h <;> cases h <;> rfl

end Scanner

/-- What begins a container or a string. -/
def Structural (c : UInt8) : Prop := c = quoteByte ∨ c = byte '[' ∨ c = byte '\x7b'

/-- A number or a word is read inside containers as by itself. -/
theorem run_leaf {v : List UInt8} (h : IsValue v) (hc : ∀ c, v.head? = some c → ¬Structural c) (levels : List Level) :
    ∃ s', Scanner.run ⟨.beginValue, levels⟩ v = some s' ∧ s'.state.ends = true ∧ s'.levels = levels := by
  obtain ⟨hread, hspace⟩ := h
  cases v with
  | nil => exact absurd rfl (ne_nil_of_read hread)
  | cons c body =>
    have hc := hc c rfl
    have hspace := hspace c rfl
    simp only [Structural, not_or] at hc
    obtain ⟨hquote, harr, hobj⟩ := hc
    have hstep : ∀ levels, Scanner.step ⟨.beginValue, levels⟩ c =
        (Scanner.beginLiteral c).elim .failed fun q => .scanning ⟨q, levels⟩ := by
      intro levels
      show Scanner.beginValue ⟨.beginValue, levels⟩ c = _
      unfold Scanner.beginValue
      rw [if_neg (by rw [hspace]; exact Bool.false_ne_true), if_neg hobj, if_neg harr]
      cases Scanner.beginLiteral c <;> rfl
    rw [readValue, Scanner.scan, begin_, hstep []] at hread
    cases hq : Scanner.beginLiteral c with
    | none =>
      rw [hq] at hread
      cases hread
    | some q =>
      rw [hq] at hread
      obtain ⟨⟨body', r⟩, hscan, heq⟩ := Option.map_eq_some_iff.mp hread
      simp only [Prod.mk.injEq, List.cons.injEq, true_and] at heq
      obtain ⟨rfl, rfl⟩ := heq
      obtain ⟨q', hrun, hends⟩ := Scanner.run_scalar (.inl (Scanner.beginLiteral_scalar hq hquote)) levels hscan
      refine ⟨⟨q', levels⟩, ?_, hends, rfl⟩
      rw [Scanner.run, hstep levels, hq]
      exact hrun

/-! ## Characters -/

/-- What the first character of a text is, and the bytes it takes. -/
theorem rune_cases {raw : List UInt8} (hne : raw ≠ []) :
    (∃ b rest, raw = b :: rest ∧ b.toNat < 0x80 ∧ runes 0 raw = Char.ofNat b.toNat :: runes 0 rest) ∨
      ∃ c high rest, raw = high ++ rest ∧ high ≠ [] ∧ (∀ b ∈ high, 0x80 ≤ b.toNat) ∧ 0x80 ≤ c.toNat ∧
        runes 0 raw = c :: runes 0 rest := by
  obtain ⟨b, rest, rfl⟩ := List.exists_cons_of_ne_nil hne
  by_cases hb : b.toNat < 0x80
  · refine .inl ⟨b, rest, rfl, hb, ?_⟩
    have hnat : (Char.ofNat b.toNat).toNat = b.toNat := toNat_charOfNat (.inl (by omega))
    have hencode := encode_ascii (c := Char.ofNat b.toNat) (by rw [hnat]; exact hb)
    rw [hnat, UInt8.ofNat_toNat] at hencode
    have := runes_encode (Char.ofNat b.toNat) rest
    rw [hencode] at this
    exact this
  · refine .inr ?_
    cases hdecode : ByteArray.utf8DecodeChar? ⟨(b :: rest).toArray⟩ 0 with
    | none =>
      refine ⟨'\ufffd', [b], rest, rfl, List.cons_ne_nil _ _, ?_, by decide, ?_⟩
      · rintro b' hb'
        rw [List.mem_singleton.mp hb']
        omega
      · rw [runes, decodeRune, hdecode]
        rfl
    | some c =>
      obtain ⟨l, hl⟩ := ByteArray.exists_of_utf8DecodeChar?_eq_some hdecode
      have hbytes : b :: rest = String.utf8EncodeChar c ++ l.data.toList := by
        have := congrArg (fun a : ByteArray => a.data.toList) hl
        simpa using this
      have hc : 0x80 ≤ c.toNat := by
        by_contra hlow
        have hencode := encode_ascii (Nat.lt_of_not_le hlow)
        rw [hencode] at hbytes
        obtain ⟨hhead, _⟩ := List.cons.inj hbytes
        rw [hhead, UInt8.toNat_ofNat'] at hb
        omega
      refine ⟨c, String.utf8EncodeChar c, l.data.toList, hbytes, encode_ne_nil c, fun b hb => encode_high hc hb, hc, ?_⟩
      rw [hbytes]
      exact runes_encode c _

theorem runes_ascii {b : UInt8} (hb : b.toNat < 0x80) (rest : List UInt8) :
    runes 0 (b :: rest) = Char.ofNat b.toNat :: runes 0 rest := by
  rcases rune_cases (List.cons_ne_nil b rest) with ⟨b', rest', heq, _, hrunes⟩ | ⟨c, high, rest', heq, hne, hhigh, _⟩
  · cases heq
    exact hrunes
  · obtain ⟨d, more, rfl⟩ := List.exists_cons_of_ne_nil hne
    obtain ⟨rfl, _⟩ := List.cons.inj heq
    exact absurd (hhigh b List.mem_cons_self) (Nat.not_le_of_lt hb)

/-! ## Strings that are read -/

theorem readString_plain {c : Char} (hback : c ≠ '\\') (hquote : c ≠ Char.ofNat 0x22) (hvisible : ¬c.toNat < 0x20)
    (rest : List Char) : Json.readString (c :: rest) = (Json.readString rest).map fun r => (c :: r.1, r.2) := by
  rw [Json.readString]
  · rw [if_neg hquote, if_neg hvisible]
    cases Json.readString rest <;> rfl
  · intro _ _ _ _ _ _ _ _ _ h _
    exact hback h
  · intro _ _ _ _ _ h _
    exact hback h
  · intro _ _ h _
    exact hback h

/-- A text is a string to its end. -/
def Reads (chars : List Char) : Prop := ∃ s, Json.readString chars = some (s, [])

theorem Reads.plain {c : Char} {rest : List Char} (hback : c ≠ '\\') (hquote : c ≠ Char.ofNat 0x22) (hvisible : ¬c.toNat < 0x20)
    (h : Reads rest) : Reads (c :: rest) := by
  obtain ⟨s, hs⟩ := h
  exact ⟨c :: s, by rw [readString_plain hback hquote hvisible, hs]; rfl⟩

theorem Reads.escape {e : Char} {rest : List Char} (he : e ∈ ['\\', Char.ofNat 0x22, '/', 'b', 'f', 'n', 'r', 't']) (h : Reads rest) :
    Reads ('\\' :: e :: rest) := by
  obtain ⟨s, hs⟩ := h
  simp only [List.mem_cons, List.not_mem_nil, or_false] at he
  rcases he with rfl | rfl | rfl | rfl | rfl | rfl | rfl | rfl <;> exact ⟨_, by simp [Json.readString, hs]; rfl⟩

/-- What follows an escape that is no first half of a pair is read. -/
theorem Reads.of_unicode {a b c d : Char} {rest : List Char} (h : Reads ('\\' :: 'u' :: a :: b :: c :: d :: rest)) :
    ∃ unit, Json.hexUnit a b c d = some unit ∧ ((0xd800 ≤ unit ∧ unit ≤ 0xdbff) ∨ Reads rest) := by
  obtain ⟨s, hs⟩ := h
  by_cases hpair : ∃ a' b' c' d' more, rest = '\\' :: 'u' :: a' :: b' :: c' :: d' :: more
  · obtain ⟨a', b', c', d', more, rfl⟩ := hpair
    rw [Json.readString] at hs
    split at hs
    · rename_i hi lo hhi hlo
      refine ⟨hi, hhi, ?_⟩
      split at hs
      · rename_i hhalves
        exact .inl ⟨hhalves.1, hhalves.2.1⟩
      · obtain ⟨⟨s', left⟩, hread, heq⟩ := Option.bind_eq_some_iff.mp hs
        cases heq
        exact .inr ⟨s', hread⟩
    · cases hs
  · rw [Json.readString] at hs
    · obtain ⟨unit, hunit, hs⟩ := Option.bind_eq_some_iff.mp hs
      obtain ⟨⟨s', left⟩, hread, heq⟩ := Option.bind_eq_some_iff.mp hs
      cases heq
      exact ⟨unit, hunit, .inr ⟨s', hread⟩⟩
    · intro a' b' c' d' more heq
      exact hpair ⟨a', b', c', d', more, heq⟩

theorem Reads.unicode {a b c d : Char} {rest : List Char} {unit : Nat} (hunit : Json.hexUnit a b c d = some unit) (h : Reads rest) :
    Reads ('\\' :: 'u' :: a :: b :: c :: d :: rest) := by
  by_cases hpair : ∃ a' b' c' d' more, rest = '\\' :: 'u' :: a' :: b' :: c' :: d' :: more
  · obtain ⟨a', b', c', d', more, rfl⟩ := hpair
    obtain ⟨lo, hlo, hmore⟩ := h.of_unicode
    obtain ⟨s, hs⟩ := h
    unfold Reads
    rw [Json.readString, hunit, hlo]
    dsimp only
    split
    · rename_i hhalves
      -- A second half is no first half.
      rcases hmore with hfirst | ⟨s', hs'⟩
      · omega
      · rw [hs']
        exact ⟨_, rfl⟩
    · rw [hs]
      exact ⟨_, rfl⟩
  · obtain ⟨s, hs⟩ := h
    unfold Reads
    rw [Json.readString, hunit, hs]
    · exact ⟨_, rfl⟩
    · intro a' b' c' d' more heq
      exact hpair ⟨a', b', c', d', more, heq⟩

theorem hexValue_of_isHex {b : UInt8} (h : isHex b = true) : b.toNat < 0x80 ∧ (Json.hexValue (Char.ofNat b.toNat)).isSome = true := by
  have hall : ∀ n < 256, isHex (UInt8.ofNat n) = true → n < 0x80 ∧ (Json.hexValue (Char.ofNat n)).isSome = true := by
    decide +kernel
  have := hall b.toNat (UInt8.toNat_lt b) (by rw [UInt8.ofNat_toNat]; exact h)
  exact this

theorem inStringEsc_cases {levels : List Level} {b : UInt8} {o : Scanner} (h : Scanner.step ⟨.inStringEsc, levels⟩ b = .scanning o) :
    b.toNat < 0x80 ∧ ((Char.ofNat b.toNat ∈ ['\\', Char.ofNat 0x22, '/', 'b', 'f', 'n', 'r', 't'] ∧ o = ⟨.inString, levels⟩) ∨
      (b = byte 'u' ∧ o = ⟨.inStringEscU, levels⟩)) := by
  rw [Scanner.step] at h
  dsimp only at h
  split at h
  · rename_i hb
    cases h
    rcases hb with rfl | rfl | rfl | rfl | rfl | rfl | rfl | rfl <;> exact ⟨by decide, .inl ⟨by decide, rfl⟩⟩
  · unfold Scanner.letter Scanner.goto at h
    split at h
    · rename_i hb
      cases h
      exact ⟨by rw [hb]; decide, .inr ⟨hb, rfl⟩⟩
    · cases h

/-- Scanned to its end from here. -/
def Whole (s : Scanner) (input : List UInt8) : Prop := s.scan input = some (input, [])

theorem Whole.cons {s : Scanner} {c : UInt8} {input : List UInt8} (h : Whole s (c :: input)) :
    (∃ s', s.step c = .scanning s' ∧ Whole s' input) ∨
      ∃ s', s.step c = .closed s' ∧ (s'.levels = [] ∧ input = [] ∨ s'.levels ≠ [] ∧ Whole s' input) := by
  unfold Whole at h ⊢
  rw [Scanner.scan] at h
  split at h
  · rename_i s' hstep
    obtain ⟨⟨v, r⟩, hscan, heq⟩ := Option.map_eq_some_iff.mp h
    simp only [Prod.mk.injEq, List.cons.injEq, true_and] at heq
    obtain ⟨rfl, rfl⟩ := heq
    exact .inl ⟨s', hstep, hscan⟩
  · rename_i s' hstep
    split at h
    · rename_i hlevels
      obtain ⟨hv, -⟩ := Prod.mk.inj (Option.some.inj h)
      exact .inr ⟨s', hstep, .inl ⟨hlevels, (List.cons.inj hv).2.symm⟩⟩
    · rename_i hlevels
      obtain ⟨⟨v, r⟩, hscan, heq⟩ := Option.map_eq_some_iff.mp h
      simp only [Prod.mk.injEq, List.cons.injEq, true_and] at heq
      obtain ⟨rfl, rfl⟩ := heq
      exact .inr ⟨s', hstep, .inr ⟨hlevels, hscan⟩⟩
  · cases h
  · cases h

/-- Inside a string nothing is closed. -/
theorem Whole.step {q : State} {c : UInt8} {input : List UInt8} (h : Whole ⟨q, []⟩ (c :: input)) (hq : q.isString = true) :
    ∃ s', Scanner.step ⟨q, []⟩ c = .scanning s' ∧ Whole s' input := by
  rcases h.cons with h | ⟨s', hstep, _⟩
  · exact h
  · rcases Scanner.step_string hq [] c with ⟨q', _, _, hlevels⟩ | hfailed
    · rw [hlevels] at hstep
      cases hstep
    · rw [hfailed] at hstep
      cases hstep

theorem Whole.string_ne_nil {q : State} {input : List UInt8} (h : Whole ⟨q, []⟩ input) (hq : q.isString = true) : input ≠ [] := by
  rintro rfl
  unfold Whole at h
  rw [Scanner.scan] at h
  split at h
  · rename_i hstep
    rcases Scanner.step_string hq [] (byte ' ') with ⟨q', _, _, hlevels⟩ | hfailed
    · rw [hlevels] at hstep
      cases hstep
    · rw [hfailed] at hstep
      cases hstep
  · cases h

theorem Whole.append {s s' : Scanner} {v input : List UInt8} (h : Whole s (v ++ input)) (hrun : s.run v = some s') :
    Whole s' input := by
  unfold Whole at h ⊢
  rw [Scanner.scan_run hrun] at h
  obtain ⟨⟨v', r⟩, hscan, heq⟩ := Option.map_eq_some_iff.mp h
  obtain ⟨hv, rfl⟩ := Prod.mk.inj heq
  have hv : v' = input := List.append_cancel_left hv
  rw [hscan, hv]

theorem Whole.endValue {input : List UInt8} (h : Whole ⟨.endValue, []⟩ input) : input = [] := by
  cases input with
  | nil => rfl
  | cons c input => cases h

/-- One of the four digits of an escape. -/
theorem Whole.hex {q q' : State} {input : List UInt8} (h : Whole ⟨q, []⟩ input) (hq : q.isString = true)
    (hstep : ∀ b, Scanner.step ⟨q, []⟩ b = Scanner.hexDigit ⟨q, []⟩ b q') :
    ∃ b rest, input = b :: rest ∧ isHex b = true ∧ Whole ⟨q', []⟩ rest := by
  obtain ⟨b, rest, rfl⟩ := List.exists_cons_of_ne_nil (h.string_ne_nil hq)
  obtain ⟨s', hs, hrest⟩ := h.step hq
  rw [hstep b, Scanner.hexDigit] at hs
  split at hs
  · rename_i hb
    cases hs
    exact ⟨b, rest, rfl, hb, hrest⟩
  · cases hs

/-- A literal that is scanned to its end is read. -/
theorem reads_of_scan {body : List UInt8} (h : Whole ⟨.inString, []⟩ body) : Reads (runes 0 body) := by
  induction hn : body.length using Nat.strong_induction_on generalizing body with
  | _ n ih =>
    rcases rune_cases (h.string_ne_nil rfl) with ⟨b, rest, rfl, hb, hrunes⟩ | ⟨c, high, rest, rfl, hne, hhigh, hc, hrunes⟩
    · obtain ⟨s', hstep, hrest⟩ := h.step rfl
      rw [hrunes]
      rw [List.length_cons] at hn
      rw [Scanner.step] at hstep
      dsimp only at hstep
      split at hstep
      · rename_i hquote
        cases hstep
        rw [hquote, hrest.endValue]
        exact ⟨[], rfl⟩
      · rename_i hquote
        split at hstep
        · rename_i hback
          cases hstep
          rw [hback]
          obtain ⟨e, rest₂, rfl⟩ := List.exists_cons_of_ne_nil (hrest.string_ne_nil rfl)
          obtain ⟨s₂, hs₂, hrest₂⟩ := hrest.step rfl
          rw [List.length_cons] at hn
          obtain ⟨he, ⟨hplain, rfl⟩ | ⟨rfl, rfl⟩⟩ := inStringEsc_cases hs₂
          · rw [runes_ascii he]
            exact (ih _ (by omega) hrest₂ rfl).escape hplain
          · obtain ⟨a, rest₃, rfl, ha, h₃⟩ := hrest₂.hex rfl fun _ => rfl
            obtain ⟨b, rest₄, rfl, hb, h₄⟩ := h₃.hex rfl fun _ => rfl
            obtain ⟨c, rest₅, rfl, hc, h₅⟩ := h₄.hex rfl fun _ => rfl
            obtain ⟨d, rest₆, rfl, hd, h₆⟩ := h₅.hex rfl fun _ => rfl
            obtain ⟨ha, hxa⟩ := hexValue_of_isHex ha
            obtain ⟨hb, hxb⟩ := hexValue_of_isHex hb
            obtain ⟨hc, hxc⟩ := hexValue_of_isHex hc
            obtain ⟨hd, hxd⟩ := hexValue_of_isHex hd
            simp only [List.length_cons] at hn
            rw [runes_ascii (by decide), runes_ascii ha, runes_ascii hb, runes_ascii hc, runes_ascii hd]
            obtain ⟨xa, hxa⟩ := Option.isSome_iff_exists.mp hxa
            obtain ⟨xb, hxb⟩ := Option.isSome_iff_exists.mp hxb
            obtain ⟨xc, hxc⟩ := Option.isSome_iff_exists.mp hxc
            obtain ⟨xd, hxd⟩ := Option.isSome_iff_exists.mp hxd
            refine Reads.unicode (?_ : _ = some (((xa * 16 + xb) * 16 + xc) * 16 + xd)) (ih _ (by omega) h₆ rfl)
            rw [Json.hexUnit, hxa, hxb, hxc, hxd]
            rfl
        · rename_i hback
          split at hstep
          · cases hstep
          · rename_i hvisible
            cases hstep
            have hnat : (Char.ofNat b.toNat).toNat = b.toNat := toNat_charOfNat (.inl (by omega))
            refine (ih _ (by omega) hrest rfl).plain ?_ ?_ ?_
            · intro heq
              have := congrArg Char.toNat heq
              rw [hnat] at this
              exact hback (UInt8.toNat_inj.mp this)
            · intro heq
              have := congrArg Char.toNat heq
              rw [hnat] at this
              exact hquote (UInt8.toNat_inj.mp this)
            · rw [hnat]
              exact hvisible
    · have hinside : Inside high := by
        refine inside_plain fun b hb => ?_
        have := hhigh b hb
        refine ⟨?_, ?_, ?_⟩
        · rintro rfl
          exact absurd this (by decide)
        · rintro rfl
          exact absurd this (by decide)
        · rw [UInt8.lt_iff_toNat_lt]
          show ¬b.toNat < 32
          omega
      have hrest : Whole ⟨.inString, []⟩ rest := h.append (hinside [])
      have hlen : rest.length < n := by
        rw [← hn, List.length_append]
        have := List.length_pos_iff.mpr hne
        omega
      rw [hrunes]
      refine (ih _ hlen hrest rfl).plain ?_ ?_ ?_
      · rintro rfl
        exact absurd hc (by decide)
      · rintro rfl
        exact absurd hc (by decide)
      · omega

theorem exists_unquote {l : List UInt8} (h : IsLiteral l) : ∃ s, unquote l = some s := by
  obtain ⟨⟨hread, -⟩, hhead⟩ := h
  cases l with
  | nil => cases hhead
  | cons c body =>
    cases hhead
    obtain ⟨s', hstep, hbody⟩ | ⟨s', hstep, _⟩ := Whole.cons (s := begin_) hread
    · cases hstep
      obtain ⟨s, hs⟩ := reads_of_scan hbody
      refine ⟨String.ofList s, ?_⟩
      show (Json.readString (runes 0 body)).map _ = _
      rw [hs]
      rfl
    · cases hstep

/-! ## Containers -/

inductive Kind where
  | array | object
deriving DecidableEq

namespace Kind

def opening : Kind → UInt8
  | array => byte '['
  | object => byte '\x7b'

def closing : Kind → UInt8
  | array => byte ']'
  | object => byte '\x7d'

/-- The scanner where a member is awaited. -/
def awaiting : Kind → List Level → Scanner
  | array, levels => ⟨.beginValue, .arrayValue :: levels⟩
  | object, levels => ⟨.beginString, .objectKey :: levels⟩

/-- The scanner behind the opening bracket. -/
def opened : Kind → List Level → Scanner
  | array, levels => ⟨.beginValueOrEmpty, .arrayValue :: levels⟩
  | object, levels => ⟨.beginStringOrEmpty, .objectKey :: levels⟩

/-- The level of a member's value. -/
def level : Kind → Level
  | array => .arrayValue
  | object => .objectValue

end Kind

/-- A value as it is written; the items of an array have no names. -/
inductive Tree where
  | leaf (raw : List UInt8)
  | str (raw : List UInt8)
  | node (k : Kind) (members : List (String × Tree))

/-! ## Reading members -/

/-- What stands before a member's value. -/
def readName (k : Kind) (input : List UInt8) : Option (String × List UInt8) :=
  match k with
  | .array => some ("", input)
  | .object =>
    if (skipSpace input).head? = some quoteByte then do
      let (literal, rest) ← readValue (skipSpace input)
      let name ← unquote literal
      match skipSpace rest with
      | c :: rest => if c = byte ':' then some (name, rest) else none
      | [] => none
    else none

/-- The members from a member on. -/
def splitFrom (k : Kind) : Nat → List UInt8 → Option (List (String × List UInt8))
  | 0, _ => none
  | fuel + 1, input => do
    let (name, rest) ← readName k input
    let (raw, rest) ← readValue (skipSpace rest)
    match skipSpace rest with
    | c :: rest =>
      if c = byte ',' then (splitFrom k fuel rest).map ((name, raw) :: ·)
      else if c = k.closing then some [(name, raw)]
      else none
    | [] => none

/-- The members of a container, each with its value as it is written. -/
def split (k : Kind) (raw : List UInt8) : Option (List (String × List UInt8)) :=
  match raw with
  | [] => none
  | c :: body =>
    if c = k.opening then
      if (skipSpace body).head? = some k.closing then some [] else splitFrom k (body.length + 1) body
    else none

/-- A value as `Unmarshal` decodes it; the fuel is past its length. -/
def treeOf : Nat → List UInt8 → Option Tree
  | 0, _ => none
  | fuel + 1, raw =>
    match raw.head? with
    | none => none
    | some c =>
      if c = quoteByte then some (.str raw)
      else if c = Kind.array.opening then do
        let members ← split .array raw
        let trees ← members.mapM fun m => (treeOf fuel m.2).map fun t => (m.1, t)
        return .node .array trees
      else if c = Kind.object.opening then do
        let members ← split .object raw
        let trees ← members.mapM fun m => (treeOf fuel m.2).map fun t => (m.1, t)
        return .node .object trees
      else some (.leaf raw)

/-! ## Texts -/

/-- A member: what stands before its value, the value, and the spaces after it. -/
structure Piece where
  lead : List UInt8
  name : String
  raw : List UInt8
  after : List UInt8

/-- What may stand before a value: spaces, and in an object the name. -/
inductive Lead : Kind → List UInt8 → String → Prop
  | array {s : List UInt8} (hs : s.all isSpace = true) : Lead .array s ""
  | object {s s' s'' literal : List UInt8} {name : String} (hs : s.all isSpace = true) (hl : IsLiteral literal)
      (hname : unquote literal = some name) (hs' : s'.all isSpace = true) (hs'' : s''.all isSpace = true) :
      Lead .object (s ++ (literal ++ (s' ++ byte ':' :: s''))) name

structure Piece.Wf (k : Kind) (p : Piece) : Prop where
  lead : Lead k p.lead p.name
  after : p.after.all isSpace = true

/-- The text of members, to the closing bracket. -/
def piecesText (k : Kind) : List Piece → List UInt8
  | [] => [k.closing]
  | [p] => p.lead ++ (p.raw ++ (p.after ++ [k.closing]))
  | p :: rest => p.lead ++ (p.raw ++ (p.after ++ byte ',' :: piecesText k rest))

/-- The text of a value with at most `n` containers in one another. -/
inductive Text : Nat → Tree → List UInt8 → Prop
  | leaf {n : Nat} {raw : List UInt8} (h : IsValue raw)
      (hc : ∀ c, raw.head? = some c → c ≠ quoteByte ∧ c ≠ Kind.array.opening ∧ c ≠ Kind.object.opening) : Text n (.leaf raw) raw
  | str {n : Nat} {raw : List UInt8} (h : IsLiteral raw) : Text n (.str raw) raw
  | empty {n : Nat} {k : Kind} {s : List UInt8} (hs : s.all isSpace = true) :
      Text (n + 1) (.node k []) (k.opening :: (s ++ [k.closing]))
  | node {n : Nat} {k : Kind} {ps : List (Piece × Tree)} (hne : ps ≠ []) (hwf : ∀ p ∈ ps, p.1.Wf k)
      (h : ∀ p ∈ ps, Text n p.2 p.1.raw) :
      Text (n + 1) (.node k (ps.map fun p => (p.1.name, p.2))) (k.opening :: piecesText k (ps.map Prod.fst))

/-! ## Members -/

namespace Kind

theorem step_opening (k : Kind) {levels : List Level} (h : levels.length < Json.maxNesting) {q : State}
    (hq : q = .beginValue ∨ q = .beginValueOrEmpty) : Scanner.step ⟨q, levels⟩ k.opening = .scanning (k.opened levels) := by
  rcases hq with rfl | rfl <;> cases k <;>
    simp [Scanner.step, Scanner.beginValue, Scanner.pushParseState, opening, opened, isSpace, byte, h]

theorem opening_fails (k : Kind) {levels : List Level} (h : ¬levels.length < Json.maxNesting) :
    Scanner.step ⟨.beginValue, levels⟩ k.opening = .failed := by
  cases k <;> simp [Scanner.step, Scanner.beginValue, Scanner.pushParseState, opening, isSpace, byte, h]

theorem step_space (k : Kind) (levels : List Level) {c : UInt8} (hc : isSpace c = true) :
    (k.opened levels).step c = .scanning (k.opened levels) ∧ (k.awaiting levels).step c = .scanning (k.awaiting levels) := by
  cases k <;> exact ⟨if_pos hc, if_pos hc⟩

/-- A first member is read as any other. -/
theorem step_first (k : Kind) (levels : List Level) {c : UInt8} (hc : isSpace c = false) (hclose : c ≠ k.closing) :
    (k.opened levels).step c = (k.awaiting levels).step c := by
  have hspace : ¬isSpace c = true := by
    rw [hc]
    exact Bool.false_ne_true
  cases k with
  | array =>
    have hclose : c ≠ byte ']' := hclose
    show (if isSpace c = true then _ else if c = byte ']' then _ else _) = _
    rw [if_neg hspace, if_neg hclose]
    show Scanner.beginValue _ c = Scanner.beginValue _ c
    unfold Scanner.beginValue
    rw [if_neg hspace, if_neg hspace]
    rfl
  | object =>
    have hclose : c ≠ byte '\x7d' := hclose
    show (if isSpace c = true then _ else if c = byte '\x7d' then _ else _) = _
    rw [if_neg hspace, if_neg hclose]
    show Scanner.beginString _ c = Scanner.beginString _ c
    unfold Scanner.beginString
    rw [if_neg hspace, if_neg hspace]
    rfl

theorem scan_first (k : Kind) (levels : List Level) {input : List UInt8} (h : (skipSpace input).head? ≠ some k.closing) :
    (k.opened levels).scan input = (k.awaiting levels).scan input := by
  induction input with
  | nil => cases k <;> rfl
  | cons c input ih =>
    by_cases hc : isSpace c = true
    · obtain ⟨h₁, h₂⟩ := k.step_space levels hc
      have hskip : skipSpace (c :: input) = skipSpace input := List.dropWhile_cons_of_pos hc
      rw [hskip] at h
      rw [Scanner.scan, Scanner.scan, h₁, h₂]
      dsimp only
      rw [ih h]
    · have hskip : skipSpace (c :: input) = c :: input := List.dropWhile_cons_of_neg hc
      rw [hskip] at h
      have hstep := k.step_first levels (Bool.eq_false_iff.mpr hc) fun heq => h (congrArg some heq)
      rw [Scanner.scan, Scanner.scan, hstep]

theorem run_first (k : Kind) (levels : List Level) {input : List UInt8} (hne : skipSpace input ≠ [])
    (h : (skipSpace input).head? ≠ some k.closing) : (k.opened levels).run input = (k.awaiting levels).run input := by
  induction input with
  | nil => exact absurd rfl hne
  | cons c input ih =>
    by_cases hc : isSpace c = true
    · obtain ⟨h₁, h₂⟩ := k.step_space levels hc
      have hskip : skipSpace (c :: input) = skipSpace input := List.dropWhile_cons_of_pos hc
      rw [hskip] at h hne
      rw [Scanner.run, Scanner.run, h₁, h₂]
      exact ih hne h
    · have hskip : skipSpace (c :: input) = c :: input := List.dropWhile_cons_of_neg hc
      rw [hskip] at h
      have hstep := k.step_first levels (Bool.eq_false_iff.mpr hc) fun heq => h (congrArg some heq)
      rw [Scanner.run, Scanner.run, hstep]

end Kind

namespace Scanner

/-- The spaces after a value, and the byte behind them, are the container's. -/
theorem Awaits.spaces {s : Scanner} {input : List UInt8} {r : List UInt8 × List UInt8} (hs : s.Awaits input) (hne : s.levels ≠ [])
    (h : s.scan input = some r) :
    ∃ sp c more r', sp.all isSpace = true ∧ isSpace c = false ∧ input = sp ++ c :: more ∧
      scan ⟨.endValue, s.levels⟩ (c :: more) = some r' ∧ r = (sp ++ r'.1, r'.2) := by
  obtain ⟨q, levels⟩ := s
  obtain ⟨l, rest, rfl⟩ := List.exists_cons_of_ne_nil hne
  induction input generalizing q r with
  | nil =>
    rw [scan] at h
    split at h
    · rename_i hstep
      rw [step_ends hs.1 rfl] at hstep
      exact absurd (endValue_eq_ended.mp hstep) hne
    · cases h
  | cons c more ih =>
    have hstep := hs.2 c rfl
    by_cases hc : isSpace c = true
    · have hspace : endValue (l :: rest) c = .scanning ⟨.endValue, l :: rest⟩ := if_pos hc
      rw [scan, hstep, hspace] at h
      obtain ⟨r₁, hscan, heq⟩ := Option.map_eq_some_iff.mp h
      obtain ⟨sp, d, more', r', hsp, hd, rfl, hr', rfl⟩ := ih .endValue ⟨rfl, fun _ _ => rfl⟩ hne hscan
      exact ⟨c :: sp, d, more', r', by rw [List.all_cons, hc, hsp]; rfl, hd, rfl, hr', heq.symm⟩
    · refine ⟨[], c, more, r, rfl, Bool.eq_false_iff.mpr hc, rfl, ?_, rfl⟩
      rw [scan, hstep] at h
      rw [scan]
      exact h

end Scanner

theorem splitSpaces (input : List UInt8) : ∃ sp, sp.all isSpace = true ∧ input = sp ++ skipSpace input :=
  ⟨input.takeWhile isSpace, List.all_takeWhile, List.takeWhile_append_dropWhile.symm⟩

theorem skipSpace_skipSpace (input : List UInt8) : skipSpace (skipSpace input) = skipSpace input :=
  List.dropWhile_idempotent _ _

/-- What stands before a value is scanned to where the value begins. -/
theorem run_lead {k : Kind} {lead : List UInt8} {name : String} (h : Lead k lead name) (levels : List Level) :
    (k.awaiting levels).run lead = some ⟨.beginValue, k.level :: levels⟩ := by
  cases h with
  | array hs => exact Scanner.run_spaces (.inl rfl) hs
  | @object s s' s'' literal name hs hl hname hs' hs'' =>
    have hcolon : Scanner.run ⟨.endValue, .objectKey :: levels⟩ [byte ':'] = some ⟨.beginValue, .objectValue :: levels⟩ := rfl
    rw [show byte ':' :: s'' = [byte ':'] ++ s'' from rfl, Scanner.run_append, Scanner.run_spaces (.inr (.inl rfl)) hs,
      Option.bind_some, Scanner.run_append]
    show ((Scanner.run ⟨.beginString, .objectKey :: levels⟩ literal).bind _) = _
    rw [Scanner.run_literal hl _ (.inr (.inl rfl)), Option.bind_some, Scanner.run_append,
      Scanner.run_spaces (.inr (.inr (.inr ⟨rfl, List.cons_ne_nil _ _⟩))) hs', Option.bind_some, Scanner.run_append, hcolon,
      Option.bind_some, Scanner.run_spaces (.inl rfl) hs'']
    rfl

/-- A member that is scanned has what may stand before its value. -/
theorem lead_of_scan {k : Kind} {levels : List Level} {input : List UInt8} {r : List UInt8 × List UInt8}
    (h : (k.awaiting levels).scan input = some r) :
    ∃ lead name rest, Lead k lead name ∧ input = lead ++ rest ∧ skipSpace rest = rest := by
  cases k with
  | array =>
    obtain ⟨sp, hsp, heq⟩ := splitSpaces input
    exact ⟨sp, "", skipSpace input, .array hsp, heq, skipSpace_skipSpace input⟩
  | object =>
    obtain ⟨sp, hsp, heq⟩ := splitSpaces input
    have hskip := skipSpace_skipSpace input
    rw [heq, Scanner.scan_run (Scanner.run_spaces (.inr (.inl rfl)) hsp)] at h
    obtain ⟨r₁, hscan, -⟩ := Option.map_eq_some_iff.mp h
    cases hbody : skipSpace input with
    | nil =>
      rw [hbody] at hscan
      cases hscan
    | cons c body =>
      have hhead : (skipSpace input).head? = some c := by
        rw [hbody]
        rfl
      have hc : isSpace c = false := head_skipSpace hhead
      rw [hbody, Scanner.scan] at hscan
      have hstep : (Kind.object.awaiting levels).step c = if c = quoteByte then .scanning ⟨.inString, .objectKey :: levels⟩ else .failed := by
        show Scanner.beginString _ c = _
        unfold Scanner.beginString
        rw [if_neg (by rw [hc]; exact Bool.false_ne_true)]
        rfl
      by_cases hquote : c = quoteByte
      · subst hquote
        rw [hstep, if_pos rfl] at hscan
        obtain ⟨r₂, hscan₂, -⟩ := Option.map_eq_some_iff.mp hscan
        obtain ⟨v, rest, s', hv, hrun, hlevels, hawaits⟩ := Scanner.scan_above (List.cons_ne_nil Level.objectKey levels)
          (s := ⟨.inString, []⟩) (Scanner.fits_of_ne (by simp) (by simp)) hscan₂
        have hvrest := Scanner.scan_eq hv
        have hread : readValue (skipSpace input) = some (quoteByte :: v, rest) := by
          rw [hbody]
          show ((Scanner.scan ⟨.inString, []⟩ body).map fun r => (quoteByte :: r.1, r.2)) = _
          rw [hv]
          rfl
        have hliteral : IsLiteral (quoteByte :: v) := ⟨(isValue_of_read hread).1, rfl⟩
        obtain ⟨name, hname⟩ := exists_unquote hliteral
        have hafter : s'.scan rest ≠ none := by
          intro hnone
          have hscan₂ : Scanner.scan ((Scanner.mk .inString []).above (.objectKey :: levels)) body = some r₂ := hscan₂
          rw [hvrest, Scanner.scan_run hrun, hnone] at hscan₂
          cases hscan₂
        obtain ⟨r₃, hr₃⟩ := Option.ne_none_iff_exists'.mp hafter
        obtain ⟨sp', d, more, r', hsp', hd, hrest, hr', -⟩ := hawaits.spaces (by rw [hlevels]; exact List.cons_ne_nil _ _) hr₃
        have hcolon : d = byte ':' := by
          rw [hlevels, Scanner.scan] at hr'
          by_contra hne
          have hfail : Scanner.step ⟨.endValue, .objectKey :: levels⟩ d = .failed := by
            rw [Scanner.step, Scanner.endValue]
            dsimp only
            rw [if_neg (by rw [hd]; exact Bool.false_ne_true), if_neg hne]
          rw [hfail] at hr'
          cases hr'
        obtain ⟨sp'', hsp'', hmore⟩ := splitSpaces more
        refine ⟨sp ++ (quoteByte :: v ++ (sp' ++ byte ':' :: sp'')), name, skipSpace more, .object hsp hliteral hname hsp' hsp'', ?_,
          skipSpace_skipSpace more⟩
        rw [heq, hbody, hvrest, hrest, hcolon]
        nth_rewrite 1 [hmore]
        simp only [List.append_assoc, List.cons_append]
      · rw [hstep, if_neg hquote] at hscan
        cases hscan

namespace Kind

/-- What follows a value in a container. -/
theorem step_end (k : Kind) (levels : List Level) (c : UInt8) :
    Scanner.step ⟨.endValue, k.level :: levels⟩ c = if isSpace c = true then .scanning ⟨.endValue, k.level :: levels⟩
      else if c = byte ',' then .scanning (k.awaiting levels)
      else if c = k.closing then .closed ⟨.endValue, levels⟩ else .failed := by
  cases k <;> rfl

end Kind

/-- Members that are scanned to the end of their container are values, each behind what may stand before it. -/
theorem pieces_of_scan {k : Kind} {input : List UInt8} (h : Whole (k.awaiting []) input) :
    ∃ ps, ps ≠ [] ∧ (∀ p ∈ ps, p.Wf k ∧ IsValue p.raw) ∧ input = piecesText k ps := by
  induction hn : input.length using Nat.strong_induction_on generalizing input with
  | _ n ih =>
    obtain ⟨lead, name, rest, hlead, rfl, hskip⟩ := lead_of_scan h
    have hvalue : Whole ((begin_).above [k.level]) rest := h.append (run_lead hlead [])
    obtain ⟨v, rest', s', hv, hrun, hlevels, hawaits⟩ := Scanner.scan_above (List.cons_ne_nil k.level []) fits_begin hvalue
    have hvrest := Scanner.scan_eq hv
    have hread : readValue (skipSpace rest) = some (v, rest') := by
      rw [hskip]
      exact hv
    have hisValue := (isValue_of_read hread).1
    have hend : Whole s' rest' := by
      rw [hvrest] at hvalue
      exact hvalue.append hrun
    obtain ⟨sp, c, more, ⟨r₁, r₂⟩, hsp, hc, hrest', hr', heq⟩ := hawaits.spaces (by rw [hlevels]; exact List.cons_ne_nil _ _) hend
    obtain ⟨hr₁, rfl⟩ := Prod.mk.inj heq
    have hwhole : Whole ⟨.endValue, [k.level]⟩ (c :: more) := by
      rw [hlevels] at hr'
      have hr₁ : c :: more = r₁ := List.append_cancel_left (hrest'.symm.trans hr₁)
      unfold Whole
      rw [hr', hr₁]
    have hstep := k.step_end [] c
    rw [if_neg (by rw [hc]; exact Bool.false_ne_true)] at hstep
    have hpiece : Piece.Wf k ⟨lead, name, v, sp⟩ ∧ IsValue v := ⟨⟨hlead, hsp⟩, hisValue⟩
    split at hstep
    · rename_i hcomma
      obtain ⟨s₂, hs₂, hmore⟩ | ⟨s₂, hs₂, _⟩ := hwhole.cons
      · rw [hstep] at hs₂
        cases hs₂
        obtain ⟨ps, hne, hps, rfl⟩ := ih more.length (by
          rw [← hn, List.length_append, hvrest, List.length_append, hrest', List.length_append, List.length_cons]
          omega) hmore rfl
        refine ⟨⟨lead, name, v, sp⟩ :: ps, List.cons_ne_nil _ _, List.forall_mem_cons.mpr ⟨hpiece, hps⟩, ?_⟩
        obtain ⟨q, qs, rfl⟩ := List.exists_cons_of_ne_nil hne
        rw [hvrest, hrest', hcomma]
        rfl
      · rw [hstep] at hs₂
        cases hs₂
    · split at hstep
      · rename_i hclose
        obtain ⟨s₂, hs₂, _⟩ | ⟨s₂, hs₂, hor⟩ := hwhole.cons
        · rw [hstep] at hs₂
          cases hs₂
        · rw [hstep] at hs₂
          cases hs₂
          rcases hor with ⟨_, rfl⟩ | ⟨hne, _⟩
          · refine ⟨[⟨lead, name, v, sp⟩], List.cons_ne_nil _ _, List.forall_mem_singleton.mpr hpiece, ?_⟩
            rw [hvrest, hrest', hclose]
            rfl
          · exact absurd rfl hne
      · obtain ⟨s₂, hs₂, _⟩ | ⟨s₂, hs₂, _⟩ := hwhole.cons
        · rw [hstep] at hs₂
          cases hs₂
        · rw [hstep] at hs₂
          cases hs₂

/-- A value inside containers leaves the scanner where what follows it is the container's. -/
def Runs (levels : List Level) (raw : List UInt8) : Prop :=
  ∃ s', Scanner.run ⟨.beginValue, levels⟩ raw = some s' ∧ s'.state.ends = true ∧ s'.levels = levels

theorem stops_spaces {sp : List UInt8} (hsp : sp.all isSpace = true) {c : UInt8} (hc : isNumeric c = false) (rest : List UInt8) :
    Stops (sp ++ c :: rest) := by
  have hspace : ∀ b, isSpace b = true → isNumeric b = false := by
    intro b hb
    simp only [isSpace, Bool.or_eq_true, beq_iff_eq] at hb
    rcases hb with ((rfl | rfl) | rfl) | rfl <;> rfl
  cases sp with
  | nil => exact stops_cons hc rest
  | cons b sp =>
    rw [List.all_cons, Bool.and_eq_true] at hsp
    exact stops_cons (hspace b hsp.1) _

/-- The spaces after a value leave the scanner to the byte behind them. -/
theorem Scanner.run_after {s : Scanner} (hs : s.state.ends = true) (hne : s.levels ≠ []) {sp : List UInt8}
    (hsp : sp.all isSpace = true) :
    ∃ s', s.run sp = some s' ∧ s'.levels = s.levels ∧ ∀ c, isNumeric c = false → s'.step c = Scanner.endValue s.levels c := by
  cases sp with
  | nil => exact ⟨s, rfl, rfl, fun c hc => Scanner.step_ends hs hc⟩
  | cons b sp =>
    rw [List.all_cons, Bool.and_eq_true] at hsp
    have hstep : s.step b = .scanning ⟨.endValue, s.levels⟩ := by
      have hstops : isNumeric b = false := by
        have hspace : [b].all isSpace = true := by
          rw [List.all_cons, hsp.1]
          rfl
        have hcomma : isNumeric (byte ',') = false := rfl
        exact stops_spaces hspace hcomma [] b rfl
      rw [Scanner.step_ends hs hstops]
      obtain ⟨l, rest, hl⟩ := List.exists_cons_of_ne_nil hne
      rw [hl]
      exact if_pos hsp.1
    refine ⟨⟨.endValue, s.levels⟩, ?_, rfl, fun _ _ => rfl⟩
    rw [Scanner.run, hstep]
    exact Scanner.run_spaces (s := ⟨.endValue, s.levels⟩) (.inr (.inr (.inr ⟨rfl, hne⟩))) hsp.2

/-- Members are scanned to the closing bracket of their container. -/
theorem run_pieces {k : Kind} {levels : List Level} {ps : List Piece} (hne : ps ≠ []) (hwf : ∀ p ∈ ps, p.Wf k)
    (hrun : ∀ p ∈ ps, Runs (k.level :: levels) p.raw) :
    ∃ init s', piecesText k ps = init ++ [k.closing] ∧ (k.awaiting levels).run init = some s' ∧
      s'.step k.closing = .closed ⟨.endValue, levels⟩ := by
  have hone : ∀ p ∈ ps, ∃ s', (k.awaiting levels).run (p.lead ++ (p.raw ++ p.after)) = some s' ∧
      ∀ c, isNumeric c = false → s'.step c = Scanner.step ⟨.endValue, k.level :: levels⟩ c := by
    intro p hp
    obtain ⟨s', hs', hends, hlevels⟩ := hrun p hp
    obtain ⟨s₂, hs₂, _, hstep⟩ := Scanner.run_after hends (by rw [hlevels]; exact List.cons_ne_nil _ _) (hwf p hp).after
    refine ⟨s₂, ?_, fun c hc => by rw [hstep c hc, hlevels]; rfl⟩
    rw [Scanner.run_append, run_lead (hwf p hp).lead, Option.bind_some, Scanner.run_append, hs', Option.bind_some, hs₂]
  induction ps with
  | nil => exact absurd rfl hne
  | cons p rest ih =>
    obtain ⟨s', hs', hstep⟩ := hone p List.mem_cons_self
    cases rest with
    | nil =>
      refine ⟨p.lead ++ (p.raw ++ p.after), s', by simp [piecesText], hs', ?_⟩
      rw [hstep _ (by cases k <;> rfl), k.step_end]
      cases k <;> rfl
    | cons q rest =>
      obtain ⟨init, s₂, hinit, hs₂, hclose⟩ := ih (List.cons_ne_nil q rest) (fun p hp => hwf p (List.mem_cons_of_mem _ hp))
        (fun p hp => hrun p (List.mem_cons_of_mem _ hp)) fun p hp => hone p (List.mem_cons_of_mem _ hp)
      refine ⟨p.lead ++ (p.raw ++ (p.after ++ byte ',' :: init)), s₂, ?_, ?_, hclose⟩
      · rw [piecesText, hinit]
        · simp
        · exact List.cons_ne_nil q rest
      · have hcomma : s'.step (byte ',') = .scanning (k.awaiting levels) := by
          rw [hstep _ rfl, k.step_end]
          rfl
        have hassoc : p.lead ++ (p.raw ++ (p.after ++ byte ',' :: init)) = (p.lead ++ (p.raw ++ p.after)) ++ byte ',' :: init := by
          simp
        rw [hassoc, Scanner.run_append, hs', Option.bind_some, Scanner.run, hcomma]
        exact hs₂

/-! ## Texts are scanned -/

/-- A container from its opening bracket to its closing one. -/
structure Encloses (k : Kind) (levels : List Level) (body : List UInt8) : Prop where
  ends : ∃ init s', body = init ++ [k.closing] ∧ (k.opened levels).run init = some s' ∧
    s'.step k.closing = .closed ⟨.endValue, levels⟩

theorem skipSpace_spaces {sp : List UInt8} (hsp : sp.all isSpace = true) (rest : List UInt8) :
    skipSpace (sp ++ rest) = skipSpace rest := by
  induction sp with
  | nil => rfl
  | cons c sp ih =>
    rw [List.all_cons, Bool.and_eq_true] at hsp
    rw [List.cons_append, skipSpace, List.dropWhile_cons_of_pos hsp.1]
    exact ih hsp.2

theorem skipSpace_of_head {c : UInt8} (hc : isSpace c = false) (rest : List UInt8) : skipSpace (c :: rest) = c :: rest :=
  List.dropWhile_cons_of_neg (by rw [hc]; exact Bool.false_ne_true)

/-- No value begins as a container ends. -/
theorem head_ne_closing {v : List UInt8} (h : IsValue v) (k : Kind) : ∀ c, v.head? = some c → c ≠ k.closing := by
  rintro c hc rfl
  obtain ⟨hread, -⟩ := h
  cases v with
  | nil => cases hc
  | cons d body =>
    cases hc
    rw [readValue, Scanner.scan] at hread
    cases k <;> cases hread

/-- What is read of a first member, spaces aside, does not close its container. -/
theorem first_of_piece {k : Kind} {p : Piece} (hwf : p.Wf k) (hvalue : IsValue p.raw) (rest : List UInt8) :
    ∃ c more, skipSpace (p.lead ++ (p.raw ++ rest)) = c :: more ∧ c ≠ k.closing := by
  obtain ⟨d, body, hraw⟩ := List.exists_cons_of_ne_nil (ne_nil_of_read hvalue.1)
  have hclose := head_ne_closing hvalue k d (by rw [hraw]; rfl)
  have hspace := hvalue.2 d (by rw [hraw]; rfl)
  obtain ⟨lead, name, raw, after⟩ := p
  obtain ⟨hlead, -⟩ := hwf
  simp only at hlead hraw ⊢
  cases hlead with
  | array hs =>
    refine ⟨d, body ++ rest, ?_, hclose⟩
    rw [skipSpace_spaces hs, hraw, List.cons_append, skipSpace_of_head hspace]
  | @object s s' s'' literal name hs hl _ _ _ =>
    obtain ⟨q, more, hliteral⟩ := List.exists_cons_of_ne_nil (ne_nil_of_read hl.1.1)
    have hq : q = quoteByte := by
      have := hl.2
      rw [hliteral] at this
      exact Option.some.inj this
    refine ⟨quoteByte, more ++ (s' ++ byte ':' :: s'') ++ (raw ++ rest), ?_, by decide⟩
    rw [List.append_assoc, skipSpace_spaces hs, hliteral, hq]
    simp only [List.cons_append]
    rw [skipSpace_of_head (by decide)]

theorem encloses_spaces (k : Kind) (levels : List Level) {sp : List UInt8} (hsp : sp.all isSpace = true) :
    Encloses k levels (sp ++ [k.closing]) := by
  refine ⟨sp, k.opened levels, rfl, ?_, ?_⟩
  · induction sp with
    | nil => rfl
    | cons c sp ih =>
      rw [List.all_cons, Bool.and_eq_true] at hsp
      rw [Scanner.run, (k.step_space levels hsp.1).1]
      exact ih hsp.2
  · cases k <;> rfl

theorem encloses_pieces {k : Kind} {levels : List Level} {ps : List Piece} (hne : ps ≠ []) (hwf : ∀ p ∈ ps, p.Wf k)
    (hvalue : ∀ p ∈ ps, IsValue p.raw) (hrun : ∀ p ∈ ps, Runs (k.level :: levels) p.raw) :
    Encloses k levels (piecesText k ps) := by
  obtain ⟨init, s', hinit, hs', hclose⟩ := run_pieces hne hwf hrun
  refine ⟨init, s', hinit, ?_, hclose⟩
  obtain ⟨p, rest, rfl⟩ := List.exists_cons_of_ne_nil hne
  have htext : ∃ more, piecesText k (p :: rest) = p.lead ++ (p.raw ++ more) := by
    cases rest with
    | nil => exact ⟨_, rfl⟩
    | cons q rest => exact ⟨_, rfl⟩
  obtain ⟨more, hmore⟩ := htext
  obtain ⟨c, tail, hskip, hc⟩ := first_of_piece (hwf p List.mem_cons_self) (hvalue p List.mem_cons_self) more
  rw [← hmore, hinit] at hskip
  have hclosing : skipSpace [k.closing] = [k.closing] := by cases k <;> rfl
  have happend : skipSpace (init ++ [k.closing]) = if (skipSpace init).isEmpty then [k.closing] else skipSpace init ++ [k.closing] := by
    rw [skipSpace, List.dropWhile_append, show List.dropWhile isSpace [k.closing] = [k.closing] from hclosing]
    rfl
  cases hfirst : skipSpace init with
  | nil =>
    rw [happend, hfirst] at hskip
    exact absurd (List.cons.inj hskip).1.symm hc
  | cons d more' =>
    rw [happend, hfirst] at hskip
    obtain ⟨rfl, -⟩ := List.cons.inj hskip
    rw [k.run_first levels (by rw [hfirst]; exact List.cons_ne_nil _ _) (by rw [hfirst]; exact fun h => hc (Option.some.inj h)), hs']

/-- A container is scanned wherever its nesting is allowed. -/
theorem Encloses.runs {k : Kind} {levels : List Level} {body : List UInt8} (h : Encloses k levels body) (hne : levels ≠ [])
    (hdepth : levels.length < Json.maxNesting) : Runs levels (k.opening :: body) := by
  obtain ⟨init, s', rfl, hinit, hclose⟩ := h.ends
  refine ⟨⟨.endValue, levels⟩, ?_, rfl, rfl⟩
  rw [Scanner.run, k.step_opening hdepth (.inl rfl)]
  dsimp only
  rw [Scanner.run_append, hinit, Option.bind_some, Scanner.run, hclose]
  exact if_neg hne

theorem Encloses.isValue {k : Kind} {body : List UInt8} (h : Encloses k [] body) : IsValue (k.opening :: body) := by
  obtain ⟨init, s', rfl, hinit, hclose⟩ := h.ends
  have hscan : s'.scan [k.closing] = some ([k.closing], []) := by
    rw [Scanner.scan, hclose]
    rfl
  refine ⟨?_, fun c hc => ?_⟩
  · rw [readValue, Scanner.scan, begin_, k.step_opening (by decide) (.inl rfl)]
    dsimp only
    rw [Scanner.scan_run hinit, hscan]
    rfl
  · cases hc
    cases k <;> rfl

theorem Text.valid {n : Nat} {t : Tree} {raw : List UInt8} (h : Text n t raw) (hn : n ≤ Json.maxNesting) :
    IsValue raw ∧ ∀ levels, levels ≠ [] → levels.length + n ≤ Json.maxNesting → Runs levels raw := by
  induction h with
  | leaf h hc =>
    refine ⟨h, fun levels _ _ => run_leaf h ?_ levels⟩
    intro c hc' hstructural
    obtain ⟨h₁, h₂, h₃⟩ := hc c hc'
    rcases hstructural with hs | hs | hs
    · exact h₁ hs
    · exact h₂ hs
    · exact h₃ hs
  | str h =>
    exact ⟨h.1, fun levels _ _ => ⟨⟨.endValue, levels⟩, Scanner.run_literal h levels (.inl rfl), rfl, rfl⟩⟩
  | @empty n k s hs =>
    refine ⟨(encloses_spaces k [] hs).isValue, fun levels hne hlen => ?_⟩
    exact (encloses_spaces k levels hs).runs hne (by omega)
  | @node n k ps hne hwf _ ih =>
    have hne' : ps.map Prod.fst ≠ [] := fun hnil => hne (List.map_eq_nil_iff.mp hnil)
    have hall : ∀ levels : List Level, levels.length + (n + 1) ≤ Json.maxNesting → Encloses k levels (piecesText k (ps.map Prod.fst)) := by
      intro levels hlen
      refine encloses_pieces hne' ?_ ?_ ?_
      · intro p hp
        obtain ⟨q, hq, rfl⟩ := List.mem_map.mp hp
        exact hwf q hq
      · intro p hp
        obtain ⟨q, hq, rfl⟩ := List.mem_map.mp hp
        exact (ih q hq (by omega)).1
      · intro p hp
        obtain ⟨q, hq, rfl⟩ := List.mem_map.mp hp
        refine (ih q hq (by omega)).2 _ (List.cons_ne_nil _ _) ?_
        rw [List.length_cons]
        omega
    refine ⟨(hall [] (by simpa using hn)).isValue, fun levels hne hlen => ?_⟩
    exact (hall levels hlen).runs hne (by omega)

/-! ## Every value is a text -/

/-- What is scanned does not fail. -/
def Goes (s : Scanner) (input : List UInt8) : Prop := s.scan input ≠ none

theorem Goes.append {s s' : Scanner} {v input : List UInt8} (h : Goes s (v ++ input)) (hrun : s.run v = some s') : Goes s' input := by
  unfold Goes at h ⊢
  rw [Scanner.scan_run hrun] at h
  exact fun hnone => h (by rw [hnone]; rfl)

theorem Goes.step {s s' : Scanner} {c : UInt8} {input : List UInt8} (h : Goes s (c :: input)) (hstep : s.step c = .scanning s') :
    Goes s' input := by
  refine h.append (v := [c]) ?_
  rw [Scanner.run, hstep]
  rfl

theorem piecesText_cons (k : Kind) (p : Piece) (rest : List Piece) :
    ∃ more, piecesText k (p :: rest) = p.lead ++ (p.raw ++ more) ∧
      (rest ≠ [] → more = p.after ++ byte ',' :: piecesText k rest) := by
  cases rest with
  | nil => exact ⟨_, rfl, fun h => absurd rfl h⟩
  | cons q rest => exact ⟨_, rfl, fun _ => rfl⟩

/-- The values of members that are scanned are texts, if each value that is scanned is one. -/
theorem trees_of_pieces {k : Kind} {levels : List Level} {n : Nat} (hn : (k.level :: levels).length + n ≤ Json.maxNesting)
    {ps : List Piece} (hwf : ∀ p ∈ ps, p.Wf k)
    (hvalue : ∀ p ∈ ps, ∀ rest, Goes ⟨.beginValue, k.level :: levels⟩ (p.raw ++ rest) → ∃ t, Text n t p.raw)
    {rest : List UInt8} (h : Goes (k.awaiting levels) (piecesText k ps ++ rest)) :
    ∃ qs : List (Piece × Tree), qs.map Prod.fst = ps ∧ ∀ q ∈ qs, Text n q.2 q.1.raw := by
  induction ps with
  | nil => exact ⟨[], rfl, fun q hq => (List.not_mem_nil hq).elim⟩
  | cons p ps ih =>
    obtain ⟨more, htext, hmore⟩ := piecesText_cons k p ps
    have hp := hwf p List.mem_cons_self
    rw [htext, List.append_assoc, List.append_assoc] at h
    have hraw := h.append (run_lead hp.lead levels)
    obtain ⟨t, ht⟩ := hvalue p List.mem_cons_self _ hraw
    by_cases hps : ps = []
    · subst hps
      exact ⟨[(p, t)], rfl, List.forall_mem_singleton.mpr ht⟩
    · obtain ⟨s', hs', hends, hlevels⟩ := (ht.valid (by omega)).2 _ (List.cons_ne_nil _ _) hn
      obtain ⟨s₂, hs₂, _, hstep⟩ := Scanner.run_after hends (by rw [hlevels]; exact List.cons_ne_nil _ _) hp.after
      have hafter := hraw.append hs'
      rw [hmore hps, List.append_assoc] at hafter
      have hcomma : s₂.step (byte ',') = .scanning (k.awaiting levels) := by
        rw [hstep _ rfl, hlevels]
        cases k <;> rfl
      obtain ⟨qs, hqs, hall⟩ := ih (fun q hq => hwf q (List.mem_cons_of_mem _ hq)) (fun q hq => hvalue q (List.mem_cons_of_mem _ hq))
        ((hafter.append hs₂).step hcomma)
      exact ⟨(p, t) :: qs, by rw [List.map_cons, hqs], List.forall_mem_cons.mpr ⟨ht, hall⟩⟩

theorem raw_shorter {k : Kind} {ps : List Piece} {p : Piece} (hp : p ∈ ps) : p.raw.length < (k.opening :: piecesText k ps).length := by
  have hle : p.raw.length ≤ (piecesText k ps).length := by
    induction ps with
    | nil => cases hp
    | cons q rest ih =>
      obtain ⟨more, htext, hmore⟩ := piecesText_cons k q rest
      rw [htext, List.length_append, List.length_append]
      rcases List.mem_cons.mp hp with rfl | hp
      · omega
      · have := ih hp
        rw [hmore (List.ne_nil_of_mem hp), List.length_append, List.length_cons]
        omega
  rw [List.length_cons]
  omega

theorem text_of_scan {raw : List UInt8} (h : IsValue raw) {levels : List Level} (hlevels : levels.length ≤ Json.maxNesting)
    {rest : List UInt8} (hgoes : Goes ⟨.beginValue, levels⟩ (raw ++ rest)) : ∃ t, Text (Json.maxNesting - levels.length) t raw := by
  induction hn : raw.length using Nat.strong_induction_on generalizing raw levels rest with
  | _ n ih =>
    obtain ⟨c, body, hraw⟩ := List.exists_cons_of_ne_nil (ne_nil_of_read h.1)
    by_cases hquote : c = quoteByte
    · exact ⟨.str raw, .str ⟨h, by rw [hraw, hquote]; rfl⟩⟩
    by_cases hk : ∃ k : Kind, c = k.opening
    · obtain ⟨k, rfl⟩ := hk
      subst hraw
      have hdepth : levels.length < Json.maxNesting := by
        by_contra hdeep
        refine hgoes ?_
        rw [List.cons_append, Scanner.scan, k.opening_fails hdeep]
      have hbody : Whole (k.opened []) body := by
        have hstep : begin_.step k.opening = .scanning (k.opened []) := k.step_opening (by decide) (.inl rfl)
        obtain ⟨s', hs', hrest⟩ | ⟨s', hs', _⟩ := Whole.cons (s := begin_) h.1
        · rw [hstep] at hs'
          cases hs'
          exact hrest
        · rw [hstep] at hs'
          cases hs'
      have hin : Goes (k.opened levels) (body ++ rest) := hgoes.step (k.step_opening hdepth (.inl rfl))
      have hfuel : Json.maxNesting - levels.length = (Json.maxNesting - (levels.length + 1)) + 1 := by omega
      rw [hfuel]
      by_cases hclose : (skipSpace body).head? = some k.closing
      · obtain ⟨sp, hsp, hsplit⟩ := splitSpaces body
        obtain ⟨more, hmore⟩ : ∃ more, skipSpace body = k.closing :: more := by
          cases hskip : skipSpace body with
          | nil =>
            rw [hskip] at hclose
            cases hclose
          | cons d more =>
            rw [hskip] at hclose
            exact ⟨more, by rw [Option.some.inj hclose]⟩
        rw [hmore] at hsplit
        obtain ⟨init, s', hinit, hrun, hend⟩ := (encloses_spaces k [] hsp).ends
        obtain ⟨rfl, -⟩ := List.append_inj' hinit rfl
        rw [hsplit] at hbody
        obtain ⟨s₂, hs₂, _⟩ | ⟨s₂, hs₂, hor⟩ := (hbody.append hrun).cons
        · rw [hend] at hs₂
          cases hs₂
        · rw [hend] at hs₂
          cases hs₂
          rcases hor with ⟨_, rfl⟩ | ⟨hne, _⟩
          · rw [hsplit]
            exact ⟨.node k [], .empty hsp⟩
          · exact absurd rfl hne
      · have hawaiting : Whole (k.awaiting []) body := by
          unfold Whole at hbody ⊢
          rw [← k.scan_first [] hclose]
          exact hbody
        obtain ⟨ps, hne, hps, rfl⟩ := pieces_of_scan hawaiting
        have hgoes' : Goes (k.awaiting levels) (piecesText k ps ++ rest) := by
          obtain ⟨p, tail, rfl⟩ := List.exists_cons_of_ne_nil hne
          obtain ⟨more, htext, _⟩ := piecesText_cons k p tail
          have hp := hps p List.mem_cons_self
          obtain ⟨d, more', hskip, hd⟩ := first_of_piece hp.1 hp.2 (more ++ rest)
          unfold Goes at hin ⊢
          rw [htext, List.append_assoc, List.append_assoc] at hin ⊢
          rw [← k.scan_first levels (by rw [hskip]; exact fun heq => hd (Option.some.inj heq))]
          exact hin
        obtain ⟨qs, rfl, hqs⟩ := trees_of_pieces (n := Json.maxNesting - (levels.length + 1)) (by rw [List.length_cons]; omega)
          (fun p hp => (hps p hp).1) (fun p hp rest' hp' =>
            @ih _ (by rw [← hn]; exact raw_shorter hp) _ (hps p hp).2 (k.level :: levels) hdepth _ hp' rfl) hgoes'
        exact ⟨_, .node (fun hnil => hne (by rw [hnil]; rfl)) (fun q hq => (hps _ (List.mem_map_of_mem hq)).1) hqs⟩
    · refine ⟨.leaf raw, .leaf h fun d hd => ?_⟩
      rw [hraw] at hd
      cases hd
      exact ⟨hquote, fun heq => hk ⟨.array, heq⟩, fun heq => hk ⟨.object, heq⟩⟩

/-- Every value is the text of a tree. -/
theorem text_of_isValue {raw : List UInt8} (h : IsValue raw) : ∃ t, Text Json.maxNesting t raw := by
  have hgoes : Goes ⟨.beginValue, []⟩ (raw ++ []) := by
    have hread : Scanner.scan ⟨.beginValue, []⟩ raw = some (raw, []) := h.1
    rw [List.append_nil]
    unfold Goes
    rw [hread]
    exact Option.some_ne_none _
  exact text_of_scan h (Nat.zero_le _) hgoes

/-! ## Texts are read back -/

theorem skipSpace_value {v : List UInt8} (h : IsValue v) (rest : List UInt8) : skipSpace (v ++ rest) = v ++ rest := by
  obtain ⟨c, body, rfl⟩ := List.exists_cons_of_ne_nil (ne_nil_of_read h.1)
  exact skipSpace_of_head (h.2 c rfl) _

theorem closing_stops (k : Kind) : isSpace k.closing = false ∧ isNumeric k.closing = false := by
  cases k <;> exact ⟨rfl, rfl⟩

theorem readName_lead {k : Kind} {lead : List UInt8} {name : String} (h : Lead k lead name) {v : List UInt8} (hv : IsValue v)
    (rest : List UInt8) : ∃ left, readName k (lead ++ (v ++ rest)) = some (name, left) ∧ skipSpace left = v ++ rest := by
  cases h with
  | array hs => exact ⟨_, rfl, by rw [skipSpace_spaces hs, skipSpace_value hv]⟩
  | @object s s' s'' literal name hs hl hname hs' hs'' =>
    refine ⟨s'' ++ (v ++ rest), ?_, by rw [skipSpace_spaces hs'', skipSpace_value hv]⟩
    have hinput : skipSpace (s ++ (literal ++ (s' ++ byte ':' :: s'')) ++ (v ++ rest)) =
        literal ++ (s' ++ byte ':' :: (s'' ++ (v ++ rest))) := by
      rw [List.append_assoc, skipSpace_spaces hs]
      simp only [List.append_assoc, List.cons_append]
      exact skipSpace_value hl.1 _
    have hhead : (literal ++ (s' ++ byte ':' :: (s'' ++ (v ++ rest)))).head? = some quoteByte := by
      rw [List.head?_append_of_ne_nil _ (ne_nil_of_read hl.1.1)]
      exact hl.2
    have hcolon : skipSpace (s' ++ byte ':' :: (s'' ++ (v ++ rest))) = byte ':' :: (s'' ++ (v ++ rest)) := by
      rw [skipSpace_spaces hs', skipSpace_of_head rfl]
    rw [readName]
    dsimp only
    rw [hinput, if_pos hhead, readValue_append hl.1 (stops_spaces hs' rfl _)]
    show ((unquote literal).bind fun name => match skipSpace (s' ++ byte ':' :: (s'' ++ (v ++ rest))) with
      | c :: rest => if c = byte ':' then some (name, rest) else none
      | [] => none) = _
    rw [hname, hcolon]
    rfl

def Piece.member (p : Piece) : String × List UInt8 := (p.name, p.raw)

theorem splitFrom_pieces {k : Kind} {ps : List Piece} (hne : ps ≠ []) (hwf : ∀ p ∈ ps, p.Wf k) (hvalue : ∀ p ∈ ps, IsValue p.raw)
    {fuel : Nat} (hfuel : ps.length ≤ fuel) : splitFrom k fuel (piecesText k ps) = some (ps.map Piece.member) := by
  induction ps generalizing fuel with
  | nil => exact absurd rfl hne
  | cons p rest ih =>
    obtain ⟨fuel, rfl⟩ : ∃ m, fuel = m + 1 := ⟨fuel - 1, by rw [List.length_cons] at hfuel; omega⟩
    have hp := hwf p List.mem_cons_self
    have hv := hvalue p List.mem_cons_self
    have hread : ∀ c more, isSpace c = false → isNumeric c = false →
        ∃ left, readName k (p.lead ++ (p.raw ++ (p.after ++ c :: more))) = some (p.name, left) ∧
          readValue (skipSpace left) = some (p.raw, p.after ++ c :: more) ∧ skipSpace (p.after ++ c :: more) = c :: more := by
      intro c more hspace hc
      obtain ⟨left, hname, hleft⟩ := readName_lead hp.lead hv (p.after ++ c :: more)
      refine ⟨left, hname, ?_, by rw [skipSpace_spaces hp.after, skipSpace_of_head hspace]⟩
      rw [hleft]
      exact readValue_append hv (stops_spaces hp.after hc more)
    cases rest with
    | nil =>
      obtain ⟨left, hname, hraw, hskip⟩ := hread k.closing [] (closing_stops k).1 (closing_stops k).2
      rw [splitFrom, piecesText, hname]
      show ((readValue (skipSpace left)).bind _) = _
      rw [hraw, Option.bind_some]
      dsimp only
      rw [hskip]
      dsimp only
      rw [if_neg (by cases k <;> decide), if_pos rfl]
      rfl
    | cons q rest =>
      obtain ⟨left, hname, hraw, hskip⟩ := hread (byte ',') (piecesText k (q :: rest)) rfl rfl
      have hshorter : (q :: rest).length ≤ fuel := by
        rw [List.length_cons] at hfuel
        omega
      have htail := ih (List.cons_ne_nil q rest) (fun p hp => hwf p (List.mem_cons_of_mem _ hp))
        (fun p hp => hvalue p (List.mem_cons_of_mem _ hp)) hshorter
      rw [splitFrom, piecesText, hname]
      · show ((readValue (skipSpace left)).bind _) = _
        rw [hraw, Option.bind_some]
        dsimp only
        rw [hskip]
        dsimp only
        rw [if_pos rfl, htail]
        rfl
      · exact List.cons_ne_nil q rest

theorem length_pieces_le (k : Kind) (ps : List Piece) : ps.length ≤ (piecesText k ps).length := by
  induction ps with
  | nil => exact Nat.zero_le _
  | cons p rest ih =>
    cases rest with
    | nil =>
      rw [piecesText]
      simp only [List.length_append, List.length_cons, List.length_nil]
      omega
    | cons q rest =>
      rw [piecesText]
      · simp only [List.length_append, List.length_cons] at ih ⊢
        omega
      · exact List.cons_ne_nil q rest

/-- A container is read as its members, each with its value as it is written. -/
theorem split_pieces {k : Kind} {ps : List Piece} (hne : ps ≠ []) (hwf : ∀ p ∈ ps, p.Wf k) (hvalue : ∀ p ∈ ps, IsValue p.raw) :
    split k (k.opening :: piecesText k ps) = some (ps.map Piece.member) := by
  obtain ⟨p, rest, rfl⟩ := List.exists_cons_of_ne_nil hne
  obtain ⟨more, htext, _⟩ := piecesText_cons k p rest
  obtain ⟨c, tail, hskip, hc⟩ := first_of_piece (hwf p List.mem_cons_self) (hvalue p List.mem_cons_self) more
  rw [split, if_pos rfl, if_neg]
  · exact splitFrom_pieces hne hwf hvalue (Nat.le_succ_of_le (length_pieces_le k _))
  · rw [htext, hskip]
    exact fun heq => hc (Option.some.inj heq)

theorem split_empty (k : Kind) {sp : List UInt8} (hsp : sp.all isSpace = true) : split k (k.opening :: (sp ++ [k.closing])) = some [] := by
  rw [split, if_pos rfl, if_pos]
  rw [skipSpace_spaces hsp, skipSpace_of_head (closing_stops k).1]
  rfl

theorem mapM_trees {fuel : Nat} {qs : List (Piece × Tree)} (h : ∀ q ∈ qs, treeOf fuel q.1.raw = some q.2) :
    ((qs.map Prod.fst).map Piece.member).mapM (fun m => (treeOf fuel m.2).map fun t => (m.1, t)) =
      some (qs.map fun q => (q.1.name, q.2)) := by
  induction qs with
  | nil => rfl
  | cons q rest ih =>
    have hq := h q List.mem_cons_self
    rw [List.map_cons, List.map_cons, List.mapM_cons, ih fun q hq => h q (List.mem_cons_of_mem _ hq)]
    show ((treeOf fuel q.1.raw).map _).bind _ = _
    rw [hq]
    rfl

theorem treeOf_node {k : Kind} {fuel : Nat} {body : List UInt8} {members : List (String × List UInt8)} {trees : List (String × Tree)}
    (hsplit : split k (k.opening :: body) = some members)
    (htrees : members.mapM (fun m => (treeOf fuel m.2).map fun t => (m.1, t)) = some trees) :
    treeOf (fuel + 1) (k.opening :: body) = some (.node k trees) := by
  rw [treeOf]
  dsimp only [List.head?_cons]
  cases k with
  | array =>
    rw [if_neg (by decide), if_pos rfl, hsplit]
    show Option.bind (members.mapM fun m => (treeOf fuel m.2).map fun t => (m.1, t)) _ = _
    rw [htrees]
    rfl
  | object =>
    rw [if_neg (by decide), if_neg (by decide), if_pos rfl, hsplit]
    show Option.bind (members.mapM fun m => (treeOf fuel m.2).map fun t => (m.1, t)) _ = _
    rw [htrees]
    rfl

/-- A text is decoded as its tree. -/
theorem treeOf_text {n : Nat} {t : Tree} {raw : List UInt8} (h : Text n t raw) (hn : n ≤ Json.maxNesting) {fuel : Nat}
    (hfuel : raw.length < fuel) : treeOf fuel raw = some t := by
  induction h generalizing fuel with
  | @leaf n raw h hc =>
    obtain ⟨fuel, rfl⟩ : ∃ m, fuel = m + 1 := ⟨fuel - 1, by omega⟩
    obtain ⟨c, body, rfl⟩ := List.exists_cons_of_ne_nil (ne_nil_of_read h.1)
    obtain ⟨h₁, h₂, h₃⟩ := hc c rfl
    rw [treeOf]
    dsimp only [List.head?_cons]
    rw [if_neg h₁, if_neg h₂, if_neg h₃]
  | @str n raw h =>
    obtain ⟨fuel, rfl⟩ : ∃ m, fuel = m + 1 := ⟨fuel - 1, by omega⟩
    rw [treeOf, h.2]
    rfl
  | @empty n k s hs =>
    obtain ⟨fuel, rfl⟩ : ∃ m, fuel = m + 1 := ⟨fuel - 1, by omega⟩
    exact treeOf_node (split_empty k hs) rfl
  | @node n k ps hne hwf h ih =>
    obtain ⟨fuel, rfl⟩ : ∃ m, fuel = m + 1 := ⟨fuel - 1, by omega⟩
    have hall : ∀ {P : Piece → Prop}, (∀ q ∈ ps, P q.1) → ∀ p ∈ ps.map Prod.fst, P p := by
      intro P hP p hp
      obtain ⟨q, hq, rfl⟩ := List.mem_map.mp hp
      exact hP q hq
    refine treeOf_node (split_pieces (fun hnil => hne (List.map_eq_nil_iff.mp hnil)) (hall hwf)
      (hall fun q hq => ((h q hq).valid (by omega)).1)) (mapM_trees fun q hq => ih q hq (by omega) ?_)
    have := raw_shorter (k := k) (List.mem_map_of_mem (f := Prod.fst) hq)
    omega

/-! ## Spaces around texts -/

/-- A space of ASCII. -/
def asciiSpace (c : UInt8) : Bool := isSpace c || c == 0x0b || c == 0x0c

theorem step_asciiSpace {s : Scanner} {c : UInt8} (hc : asciiSpace c = true) :
    (∀ s', s.step c ≠ .closed s') ∧ ∀ s', s.step c = .scanning s' → s'.levels = [] → s'.state.ends = false := by
  have hvalues : c = 0x20 ∨ c = 0x09 ∨ c = 0x0d ∨ c = 0x0a ∨ c = 0x0b ∨ c = 0x0c := by
    simp only [asciiSpace, isSpace, Bool.or_eq_true, beq_iff_eq] at hc
    rcases hc with ((((h | h) | h) | h) | h) | h <;> simp [h, byte]
  obtain ⟨q, levels⟩ := s
  rcases hvalues with rfl | rfl | rfl | rfl | rfl | rfl
  all_goals
    cases levels with
    | nil =>
      cases q <;> refine ⟨fun s' h => ?_, fun s' h hl => ?_⟩ <;> cases h <;> rfl
    | cons l levels =>
      cases q <;> cases l <;> refine ⟨fun s' h => ?_, fun s' h hl => ?_⟩ <;> cases h <;> first | rfl | cases hl

/-- Nothing is scanned to its end by a space. -/
theorem not_whole_space {s : Scanner} {input : List UInt8} {c : UInt8} (hs : s.Fits) (hc : asciiSpace c = true) :
    ¬Whole s (input ++ [c]) := by
  induction input generalizing s with
  | nil =>
    intro h
    obtain ⟨hclosed, hscanning⟩ := step_asciiSpace (s := s) hc
    obtain ⟨s', hstep, hend⟩ | ⟨s', hstep, _⟩ := h.cons
    · unfold Whole at hend
      rw [Scanner.scan] at hend
      split at hend
      · rename_i hended
        obtain ⟨hends, hlevels⟩ := Scanner.ends_of_step (Scanner.fits_step (c := c) hs (by rw [hstep]; rfl)) hended
        rw [hscanning s' hstep hlevels] at hends
        cases hends
      · cases hend
    · exact hclosed s' hstep
  | cons d input ih =>
    intro h
    obtain ⟨s', hstep, hrest⟩ | ⟨s', hstep, ⟨_, hnil⟩ | ⟨_, hrest⟩⟩ := h.cons
    · exact ih (Scanner.fits_step (c := d) hs (by rw [hstep]; rfl)) hrest
    · exact absurd hnil (by simp)
    · exact ih (Scanner.fits_step (c := d) hs (by rw [hstep]; rfl)) hrest

theorem asciiSpace_fails {c : UInt8} (hc : asciiSpace c = true) (hspace : isSpace c = false) : begin_.step c = .failed := by
  simp only [asciiSpace, hspace, Bool.false_or, Bool.or_eq_true, beq_iff_eq] at hc
  rcases hc with rfl | rfl <;> rfl

/-- A value has no spaces around it. -/
theorem bounded_value {v : List UInt8} (h : IsValue v) : Bounded asciiSpace v := by
  obtain ⟨c, body, hv⟩ := List.exists_cons_of_ne_nil (ne_nil_of_read h.1)
  refine ⟨c, v.getLast (ne_nil_of_read h.1), by rw [hv]; rfl, List.getLast?_eq_some_getLast _, ?_, ?_⟩
  · have hspace := h.2 c (by rw [hv]; rfl)
    by_contra hc
    have hread := h.1
    rw [hv, readValue, Scanner.scan, asciiSpace_fails (Bool.eq_true_of_not_eq_false hc) hspace] at hread
    cases hread
  · by_contra hc
    have hwhole : Whole begin_ (v.dropLast ++ [v.getLast (ne_nil_of_read h.1)]) := by
      rw [List.dropLast_concat_getLast]
      exact h.1
    exact not_whole_space fits_begin (Bool.eq_true_of_not_eq_false hc) hwhole

theorem trim_value {v : List UInt8} (h : IsValue v) : trim asciiSpace v = v := trim_of_bounded (bounded_value h)

/-- What stands between spaces. -/
theorem trim_between {a v b : List UInt8} (ha : ∀ c ∈ a, asciiSpace c = true) (hv : Bounded asciiSpace v)
    (hb : ∀ c ∈ b, asciiSpace c = true) : trim asciiSpace (a ++ (v ++ b)) = v := by
  have hleft : (a ++ (v ++ b)).dropWhile asciiSpace = v ++ b := by
    obtain ⟨x, _, hhead, _, hx, _⟩ := hv
    rw [List.dropWhile_append, List.dropWhile_eq_nil_iff.mpr ha, List.isEmpty_nil, if_pos rfl]
    refine dropWhile_of_head (x := x) ?_ hx
    rw [List.head?_append, hhead]
    rfl
  have hright : (v ++ b).rdropWhile asciiSpace = v.rdropWhile asciiSpace := by
    rw [List.rdropWhile, List.rdropWhile, List.reverse_append, List.dropWhile_append,
      List.dropWhile_eq_nil_iff.mpr fun c hc => hb c (List.mem_reverse.mp hc), List.isEmpty_nil, if_pos rfl]
  have hwhole := trim_of_bounded hv
  obtain ⟨x, _, hhead, _, hx, _⟩ := hv
  rw [trim, dropWhile_of_head hhead hx] at hwhole
  rw [trim, hleft, hright, hwhole]

/-- A text without its spaces is the same without other spaces too. -/
theorem trim_isValue {data : List UInt8} (h : IsValue (trim isSpace data)) : trim asciiSpace data = trim isSpace data := by
  have hspace : ∀ c, isSpace c = true → asciiSpace c = true := by
    intro c hc
    unfold asciiSpace
    rw [hc]
    rfl
  have hright : data.dropWhile isSpace = trim isSpace data ++ (data.dropWhile isSpace).rtakeWhile isSpace :=
    (List.rdropWhile_append_rtakeWhile ..).symm
  have hdata : data = data.takeWhile isSpace ++ (trim isSpace data ++ (data.dropWhile isSpace).rtakeWhile isSpace) := by
    rw [← hright]
    exact List.takeWhile_append_dropWhile.symm
  have hbetween := trim_between (a := data.takeWhile isSpace) (b := (data.dropWhile isSpace).rtakeWhile isSpace)
    (fun c hc => hspace c (List.mem_takeWhile_imp hc)) (bounded_value h) fun c hc => hspace c (List.mem_rtakeWhile_imp hc)
  rwa [← hdata] at hbetween

end JsonScan

end Desk
