import Desk.Lib.JsonRead

/-!
# JSON.parse and JSON.stringify

Strings may hold lone surrogates, containers stand at any depth and a repeated
name keeps its place with its last value. Names that are array indices, which a
JavaScript object lists first, are kept in the order of the text.
-/

namespace Desk

namespace JsonParse

/-- After the opening quote. -/
def string : Units → Option (Units × Units)
  | [] => none
  | c :: rest =>
    if c = quoteUnit then some ([], rest)
    else if c ≠ escapeUnit then
      if c < 0x20 then none else (string rest).map fun (out, rest) => (c :: out, rest)
    else
      match rest with
      | [] => none
      | e :: rest =>
        if e ≠ unit 'u' then
          match shortEscape e with
          | none => none
          | some u => (string rest).map fun (out, rest) => (u :: out, rest)
        else
          match rest with
          | a :: b :: c :: d :: rest =>
            match hexUnits a b c d with
            | none => none
            | some u => (string rest).map fun (out, rest) => (u :: out, rest)
          | _ => none

variable {ν : Type}

/-- A member is defined or redefined. -/
def define (members : List (Units × Value ν)) (m : Units × Value ν) : List (Units × Value ν) :=
  if m.1 ∈ members.map Prod.fst then members.map fun e => if e.1 = m.1 then m else e else members ++ [m]

/-- The number of a literal is `Number` of it. -/
def number (toNumber : Units → ν) (literal : Units) : Option ν :=
  if numberForm literal then some (toNumber literal) else none

/-- A repeated name keeps its place and has its last value. -/
def keepLast (members : List (Units × Value ν)) : Option (List (Units × Value ν)) := some (members.foldl define [])

/-- `JSON.parse` up to what it makes of repeated names. -/
def readerWith (toNumber : Units → ν) (entries : List (Units × Value ν) → Option (List (Units × Value ν))) : Reader ν where
  string := string
  number := readRun (number toNumber)
  nests _ := true
  entries := entries

def reader (toNumber : Units → ν) : Reader ν := readerWith toNumber keepLast

def parse (toNumber : Units → ν) (text : Units) : Option (Value ν) := (reader toNumber).parse text

/-! ## What it makes of strings and numbers -/

theorem isPlain_iff {u : UInt16} : isPlain u = true ↔ ¬ u < 0x20 ∧ u ≠ quoteUnit ∧ u ≠ escapeUnit := by
  simp only [isPlain, Bool.and_eq_true, decide_eq_true_eq, bne_iff_ne, ne_eq, UInt16.not_lt, and_assoc]

/-- A piece in front of a string that was read. -/
theorem prepend_read (p : Piece) {input v rest : Units}
    (ih : ∀ {v rest : Units}, string input = some (v, rest) →
      ∃ ps, input = piecesText ps ++ quoteUnit :: rest ∧ piecesUnits ps = v)
    (h : ((string input).map fun (x : Units × Units) => (p.unit :: x.1, x.2)) = some (v, rest)) :
    ∃ ps, p.text ++ input = piecesText ps ++ quoteUnit :: rest ∧ piecesUnits ps = v := by
  obtain ⟨⟨v', rest'⟩, hread, heq⟩ := Option.map_eq_some_iff.mp h
  obtain ⟨rfl, rfl⟩ := Prod.mk.inj heq
  obtain ⟨ps, rfl, rfl⟩ := ih hread
  exact ⟨p :: ps, by simp [piecesText], rfl⟩

theorem string_sound {input v rest : Units} (h : string input = some (v, rest)) :
    ∃ ps, input = piecesText ps ++ quoteUnit :: rest ∧ piecesUnits ps = v := by
  fun_induction string input generalizing v rest with
  | case2 input =>
    obtain ⟨rfl, rfl⟩ := Prod.mk.inj (Option.some.inj h)
    exact ⟨[], rfl, rfl⟩
  | case4 c input hq hb hc ih => exact prepend_read (.plain c (isPlain_iff.mpr ⟨hc, hq, hb⟩)) ih h
  | case7 c _ hb e input _ u he ih =>
    rw [not_ne_iff] at hb
    rw [hb]
    exact prepend_read (.short e u he) ih h
  | case9 c _ hb e he a b x d input u hx ih =>
    rw [not_ne_iff] at hb he
    rw [hb, he]
    exact prepend_read (.hex a b x d u hx) ih h
  | _ => cases h

theorem string_piece (p : Piece) (rest : Units) :
    string (p.text ++ rest) = (string rest).map fun x => (p.unit :: x.1, x.2) := by
  cases p with
  | plain u h =>
    obtain ⟨hc, hq, hb⟩ := isPlain_iff.mp h
    show string (u :: rest) = _
    rw [string.eq_def]
    dsimp only
    rw [if_neg hq, if_pos hb, if_neg hc]
    rfl
  | short e u h =>
    have hne : e ≠ unit 'u' := by
      rintro rfl
      have hnone : shortEscape (unit 'u') = none := by decide
      rw [hnone] at h
      cases h
    show string (escapeUnit :: e :: rest) = _
    rw [string.eq_def]
    dsimp only
    rw [if_neg (by decide), if_neg (by decide), if_pos hne, h]
    rfl
  | hex a b c d u h =>
    show string (escapeUnit :: unit 'u' :: a :: b :: c :: d :: rest) = _
    rw [string.eq_def]
    dsimp only
    rw [if_neg (by decide), if_neg (by decide), if_neg (by decide), h]
    rfl

theorem string_complete (ps : List Piece) (rest : Units) :
    string (piecesText ps ++ quoteUnit :: rest) = some (piecesUnits ps, rest) := by
  induction ps with
  | nil =>
    show string (quoteUnit :: rest) = _
    rw [string.eq_def]
    rfl
  | cons p ps ih =>
    show string (p.text ++ piecesText ps ++ quoteUnit :: rest) = _
    rw [List.append_assoc, string_piece, ih]
    rfl

theorem numberForm_of_number {toNumber : Units → ν} {l : Units} {n : ν} (h : number toNumber l = some n) :
    numberForm l = true := by
  unfold number at h
  split at h
  · assumption
  · cases h

def spellingWith (toNumber : Units → ν) (entries : List (Units × Value ν) → Option (List (Units × Value ν))) :
    Spelling (readerWith toNumber entries) where
  string ps := some (piecesUnits ps)
  number n := some (toNumber n.1)
  string_sound h := by
    obtain ⟨ps, hps, hv⟩ := string_sound h
    exact ⟨ps, hps, by rw [hv]⟩
  string_complete {ps v} rest h := by
    rw [← Option.some.inj h]
    exact string_complete ps rest
  number_sound h := by
    obtain ⟨l, hl, hn⟩ := readRun_sound (number toNumber) numberForm_of_number h
    rw [number, if_pos l.2] at hn
    exact ⟨l, hl, hn⟩
  number_complete {l v rest} h hr :=
    readRun_complete (number toNumber) (by rw [number, if_pos l.2]; exact h) hr

def spelling (toNumber : Units → ν) : Spelling (reader toNumber) := spellingWith toNumber keepLast

/-! ## Tokens -/

/-- After the opening quote: the token up to and with its closing quote, escapes passed over. -/
def token : Units → Option (Units × Units)
  | [] => none
  | c :: rest =>
    if c = escapeUnit then
      match rest with
      | [] => none
      | e :: rest => (token rest).map fun (out, rest) => (c :: e :: out, rest)
    else if c = quoteUnit then some ([c], rest)
    else (token rest).map fun (out, rest) => (c :: out, rest)

theorem token_sound {input body rest : Units} (h : token input = some (body, rest)) :
    input = body ++ rest ∧ ∃ inner, body = inner ++ [quoteUnit] := by
  fun_induction token input generalizing body rest with
  | case1 => cases h
  | case2 => cases h
  | case3 e input ih =>
    obtain ⟨⟨body', rest'⟩, hread, heq⟩ := Option.map_eq_some_iff.mp h
    obtain ⟨rfl, rfl⟩ := Prod.mk.inj heq
    obtain ⟨rfl, inner, rfl⟩ := ih hread
    exact ⟨rfl, escapeUnit :: e :: inner, rfl⟩
  | case4 input =>
    obtain ⟨rfl, rfl⟩ := Prod.mk.inj (Option.some.inj h)
    exact ⟨rfl, [], rfl⟩
  | case5 c input hc hq ih =>
    obtain ⟨⟨body', rest'⟩, hread, heq⟩ := Option.map_eq_some_iff.mp h
    obtain ⟨rfl, rfl⟩ := Prod.mk.inj heq
    obtain ⟨rfl, inner, rfl⟩ := ih hread
    exact ⟨rfl, c :: inner, rfl⟩

theorem token_plain {u : UInt16} (hq : u ≠ quoteUnit) (hb : u ≠ escapeUnit) (rest : Units) :
    token (u :: rest) = (token rest).map fun x => (u :: x.1, x.2) := by
  rw [token.eq_def]
  dsimp only
  rw [if_neg hb, if_neg hq]

theorem token_escaped (u : UInt16) (rest : Units) :
    token (escapeUnit :: u :: rest) = (token rest).map fun x => (escapeUnit :: u :: x.1, x.2) := by
  rw [token, if_pos rfl]

theorem token_piece (p : Piece) (rest : Units) :
    token (p.text ++ rest) = (token rest).map fun x => (p.text ++ x.1, x.2) := by
  cases p with
  | plain u h =>
    obtain ⟨_, hq, hb⟩ := isPlain_iff.mp h
    exact token_plain hq hb rest
  | short e u h => exact token_escaped e rest
  | hex a b c d u h =>
    simp only [hexUnits, Option.bind_eq_bind, Option.bind_eq_some_iff] at h
    obtain ⟨_, ha, _, hb, _, hc, _, hd, _⟩ := h
    show token (escapeUnit :: unit 'u' :: a :: b :: c :: d :: rest) = _
    rw [token_escaped, token_plain (hexDigitValue_ne ha).1 (hexDigitValue_ne ha).2,
      token_plain (hexDigitValue_ne hb).1 (hexDigitValue_ne hb).2,
      token_plain (hexDigitValue_ne hc).1 (hexDigitValue_ne hc).2,
      token_plain (hexDigitValue_ne hd).1 (hexDigitValue_ne hd).2]
    cases token rest <;> rfl

theorem token_pieces (ps : List Piece) (rest : Units) :
    token (piecesText ps ++ quoteUnit :: rest) = some (piecesText ps ++ [quoteUnit], rest) := by
  induction ps with
  | nil =>
    show token (quoteUnit :: rest) = _
    rw [token.eq_def]
    rfl
  | cons p ps ih =>
    show token (p.text ++ piecesText ps ++ quoteUnit :: rest) = some (p.text ++ piecesText ps ++ [quoteUnit], rest)
    rw [List.append_assoc, token_piece, ih, List.append_assoc]
    rfl

theorem parse_quoted (toNumber : Units → ν) (ps : List Piece) : parse toNumber (quotedText ps) = some (.str (piecesUnits ps)) :=
  (Reader.parse_iff (spelling toNumber)).mpr ⟨noLayout, .str ps, noLayout, by simp [noLayout, Cst.text], rfl⟩

/-- A token that `JSON.parse` takes for a string is a string with its quotes. -/
theorem quoted_of_parse {toNumber : Units → ν} {body : Units} {v : Units} (h : parse toNumber (quoteUnit :: body) = some (.str v))
    (hb : ∃ inner, body = inner ++ [quoteUnit]) : ∃ ps, quoteUnit :: body = quotedText ps ∧ v = piecesUnits ps := by
  obtain ⟨pre, c, post, htext, hbuild⟩ := (Reader.parse_iff (spelling toNumber)).mp h
  obtain ⟨inner, rfl⟩ := hb
  have hpre : pre.1 = [] := by
    cases hp : pre.1 with
    | nil => rfl
    | cons u l =>
      have hu := List.all_eq_true.mp pre.2 u (hp ▸ List.mem_cons_self)
      rw [hp, List.cons_append, List.cons.injEq] at htext
      rw [← htext.1] at hu
      exact absurd hu (by decide)
  have hpost : post.1 = [] := by
    rcases List.eq_nil_or_concat post.1 with h' | ⟨l, u, hl⟩
    · exact h'
    · have hu := List.all_eq_true.mp post.2 u (by rw [hl]; simp)
      rw [hl, List.concat_eq_append, ← List.append_assoc, ← List.append_assoc, ← List.cons_append] at htext
      have hlast := (List.append_inj' htext rfl).2
      rw [← List.singleton_inj.mp hlast] at hu
      exact absurd hu (by decide)
  rw [hpre, hpost, List.nil_append, List.append_nil] at htext
  cases c with
  | str ps =>
    have hv : Value.str (piecesUnits ps) = Value.str v := Option.some.inj hbuild
    exact ⟨ps, htext, (Value.str.inj hv).symm⟩
  | null => cases hbuild
  | bool => cases hbuild
  | num => cases hbuild
  | noItems => cases hbuild
  | arr items =>
    simp only [Cst.build, reader, readerWith, if_true, Option.map_eq_some_iff] at hbuild
    obtain ⟨_, _, h⟩ := hbuild
    cases h
  | noMembers => cases hbuild
  | obj members =>
    simp only [Cst.build, reader, readerWith, if_true, Option.map_eq_some_iff] at hbuild
    obtain ⟨_, _, h⟩ := hbuild
    cases h

/-! ## JSON.stringify -/

def hexDigit (n : Nat) : UInt16 := if n < 10 then UInt16.ofNat (48 + n) else UInt16.ofNat (87 + n)

def hex4 (n : Nat) : Units := [hexDigit (n / 4096 % 16), hexDigit (n / 256 % 16), hexDigit (n / 16 % 16), hexDigit (n % 16)]

/-- One code point as `JSON.stringify` writes it. -/
def stringifyPoint (point : Nat) : Units :=
  if point = 0x08 then [escapeUnit, unit 'b']
  else if point = 0x09 then [escapeUnit, unit 't']
  else if point = 0x0a then [escapeUnit, unit 'n']
  else if point = 0x0c then [escapeUnit, unit 'f']
  else if point = 0x0d then [escapeUnit, unit 'r']
  else if point = 0x22 then [escapeUnit, quoteUnit]
  else if point = 0x5c then [escapeUnit, escapeUnit]
  else if point < 0x20 ∨ 0xd800 ≤ point ∧ point ≤ 0xdfff then escapeUnit :: unit 'u' :: hex4 point
  else unitsOfPoint point

def stringify (value : Units) : Units := quoteUnit :: ((codePoints value).flatMap stringifyPoint ++ [quoteUnit])

/-! ## What it writes is a string -/

theorem hexDigitValue_hexDigit : ∀ n < 16, hexDigitValue (hexDigit n) = some n := by decide

theorem hexUnits_hex4 (u : UInt16) : hexUnits (hexDigit (u.toNat / 4096 % 16)) (hexDigit (u.toNat / 256 % 16))
    (hexDigit (u.toNat / 16 % 16)) (hexDigit (u.toNat % 16)) = some u := by
  have hlt := u.toNat_lt
  have hsum : ((u.toNat / 4096 % 16 * 16 + u.toNat / 256 % 16) * 16 + u.toNat / 16 % 16) * 16 + u.toNat % 16 = u.toNat := by
    omega
  simp only [hexUnits, hexDigitValue_hexDigit _ (Nat.mod_lt _ (by decide : 16 > 0)), Option.bind_eq_bind, Option.bind_some, hsum]
  exact congrArg some UInt16.ofNat_toNat

/-- One unit that is no part of a pair. -/
theorem stringifyPoint_piece (u : UInt16) : ∃ p : Piece, stringifyPoint u.toNat = p.text ∧ p.unit = u := by
  have hof : ∀ n : Nat, u.toNat = n → u = UInt16.ofNat n := fun n h => by rw [← h, UInt16.ofNat_toNat]
  unfold stringifyPoint
  repeat' split
  · next h => exact ⟨.short (unit 'b') _ (by decide), rfl, (hof _ h).symm⟩
  · next h => exact ⟨.short (unit 't') _ (by decide), rfl, (hof _ h).symm⟩
  · next h => exact ⟨.short (unit 'n') _ (by decide), rfl, (hof _ h).symm⟩
  · next h => exact ⟨.short (unit 'f') _ (by decide), rfl, (hof _ h).symm⟩
  · next h => exact ⟨.short (unit 'r') _ (by decide), rfl, (hof _ h).symm⟩
  · next h => exact ⟨.short quoteUnit _ (by decide), rfl, (hof _ h).symm⟩
  · next h => exact ⟨.short escapeUnit _ (by decide), rfl, (hof _ h).symm⟩
  · exact ⟨.hex _ _ _ _ u (hexUnits_hex4 u), rfl, rfl⟩
  · next hquote hescape hcontrol =>
    refine ⟨.plain u (isPlain_iff.mpr ⟨?_, ?_, ?_⟩), unitsOfPoint_toNat u, rfl⟩
    · rw [UInt16.lt_iff_toNat_lt]
      exact fun h => hcontrol (Or.inl h)
    · rintro rfl
      exact hquote rfl
    · rintro rfl
      exact hescape rfl

theorem isPlain_of_surrogate {u : UInt16} (h : 0xd800 ≤ u.toNat) : isPlain u = true := by
  rw [isPlain_iff]
  refine ⟨fun hlt => ?_, ?_, ?_⟩
  · have hlt' : u.toNat < 32 := UInt16.lt_iff_toNat_lt.mp hlt
    omega
  · rintro rfl
    exact absurd h (by decide)
  · rintro rfl
    exact absurd h (by decide)

/-- The two halves of a pair stand for themselves. -/
theorem stringifyPoint_pair {u v : UInt16} (hu : isHigh u = true) (hv : isLow v = true) :
    stringifyPoint (pairPoint u v) = [u, v] := by
  have hrange := point_range (isHigh_iff.mp hu) (isLow_iff.mp hv)
  have hlarge : 0x10000 ≤ pairPoint u v := hrange.1
  unfold stringifyPoint
  rw [if_neg (by omega), if_neg (by omega), if_neg (by omega), if_neg (by omega), if_neg (by omega), if_neg (by omega),
    if_neg (by omega), if_neg (by omega), unitsOfPoint_pair hu hv]

/-- `JSON.stringify` of a string is a string that means it, unpaired surrogates included. -/
theorem stringify_pieces (s : Units) : ∃ ps, stringify s = quotedText ps ∧ piecesUnits ps = s := by
  have hbody : ∃ ps, (codePoints s).flatMap stringifyPoint = piecesText ps ∧ piecesUnits ps = s := by
    induction s using codePoints.induct with
    | case1 => exact ⟨[], rfl, rfl⟩
    | case2 u =>
      obtain ⟨p, htext, hunit⟩ := stringifyPoint_piece u
      exact ⟨[p], by rw [codePoints, List.flatMap_cons, htext]; rfl, by rw [piecesUnits, List.map_singleton, hunit]⟩
    | case3 u v rest huv ih =>
      rw [Bool.and_eq_true] at huv
      obtain ⟨ps, htext, hunits⟩ := ih
      have hhigh := (isHigh_iff.mp huv.1).1
      have hlow := (isLow_iff.mp huv.2).1
      refine ⟨.plain u (isPlain_of_surrogate hhigh) :: .plain v (isPlain_of_surrogate (by omega)) :: ps, ?_, ?_⟩
      · rw [codePoints_pair huv.1 huv.2, List.flatMap_cons, stringifyPoint_pair huv.1 huv.2, htext]
        rfl
      · rw [piecesUnits, List.map_cons, List.map_cons, ← piecesUnits, hunits]
        rfl
    | case4 u v rest huv ih =>
      obtain ⟨ps, htext, hunits⟩ := ih
      obtain ⟨p, hp, hunit⟩ := stringifyPoint_piece u
      refine ⟨p :: ps, ?_, ?_⟩
      · rw [codePoints, if_neg huv, List.flatMap_cons, hp, htext]
        rfl
      · rw [piecesUnits, List.map_cons, ← piecesUnits, hunits, hunit]
  obtain ⟨ps, htext, hunits⟩ := hbody
  exact ⟨ps, by rw [stringify, htext, quotedText], hunits⟩

/-! ## The names of an object -/

theorem mem_define {members : List (Units × Value ν)} {m x : Units × Value ν} (h : x ∈ define members m) :
    x ∈ members ∨ x = m := by
  unfold define at h
  split at h
  · obtain ⟨y, hy, rfl⟩ := List.mem_map.mp h
    split
    · exact .inr rfl
    · exact .inl hy
  · simpa using h

theorem nodup_define {members : List (Units × Value ν)} (m : Units × Value ν) (h : (members.map Prod.fst).Nodup) :
    ((define members m).map Prod.fst).Nodup := by
  unfold define
  split
  · have hnames : (members.map fun e => if e.1 = m.1 then m else e).map Prod.fst = members.map Prod.fst := by
      rw [List.map_map]
      refine List.map_congr_left fun e _ => ?_
      by_cases he : e.1 = m.1
      · simp [he]
      · simp [he]
    rw [hnames]
    exact h
  · rename_i hnew
    rw [List.map_append, List.map_singleton, List.nodup_append]
    exact ⟨h, by simp, fun a ha b hb hab => hnew (List.mem_singleton.mp hb ▸ hab ▸ ha)⟩

theorem foldl_define (ms : List (Units × Value ν)) : ∀ {members : List (Units × Value ν)}, (members.map Prod.fst).Nodup →
    ((ms.foldl define members).map Prod.fst).Nodup ∧ ∀ x ∈ ms.foldl define members, x ∈ members ∨ x ∈ ms := by
  induction ms with
  | nil => exact fun h => ⟨h, fun x hx => .inl hx⟩
  | cons m ms ih =>
    intro members h
    obtain ⟨hnodup, hmem⟩ := ih (nodup_define m h)
    refine ⟨hnodup, fun x hx => ?_⟩
    rcases hmem x hx with hx | hx
    · exact (mem_define hx).imp_right fun hm => List.mem_cons.mpr (.inl hm)
    · exact .inr (List.mem_cons_of_mem _ hx)

/-- A value that some tree has, at some depth. -/
def Built (toNumber : Units → ν) (v : Value ν) : Prop := ∃ (c : Cst) (depth : Nat), c.build (spelling toNumber) depth = some v

theorem built_of_parse {toNumber : Units → ν} {text : Units} {v : Value ν} (h : parse toNumber text = some v) :
    Built toNumber v := by
  obtain ⟨_, c, _, _, hbuild⟩ := (Reader.parse_iff (spelling toNumber)).mp h
  exact ⟨c, 0, hbuild⟩

theorem built_members {toNumber : Units → ν} : ∀ (c : CstMembers) {depth : Nat} {ms : List (Units × Value ν)},
    c.build (spelling toNumber) depth = some ms → ∀ m ∈ ms, Built toNumber m.2
  | .last _ _ _ _ v _, depth, ms, h => by
    simp only [CstMembers.build, Option.bind_eq_bind, Option.bind_eq_some_iff] at h
    obtain ⟨name, _, x, hx, h⟩ := h
    intro m hm
    rw [← Option.some.inj h] at hm
    rw [List.mem_singleton.mp hm]
    exact ⟨v, depth, hx⟩
  | .cons _ _ _ _ v _ rest, depth, ms, h => by
    simp only [CstMembers.build, Option.bind_eq_bind, Option.bind_eq_some_iff] at h
    obtain ⟨name, _, x, hx, xs, hxs, h⟩ := h
    intro m hm
    rw [← Option.some.inj h] at hm
    rcases List.mem_cons.mp hm with rfl | hm
    · exact ⟨v, depth, hx⟩
    · exact built_members rest hxs m hm

/-- An object that was parsed has each name once, at every depth. -/
theorem Built.members {toNumber : Units → ν} {ms : List (Units × Value ν)} (h : Built toNumber (.obj ms)) :
    (ms.map Prod.fst).Nodup ∧ ∀ m ∈ ms, Built toNumber m.2 := by
  obtain ⟨c, depth, hbuild⟩ := h
  cases c with
  | noMembers => cases (Value.obj.inj (Option.some.inj hbuild)); exact ⟨List.nodup_nil, nofun⟩
  | obj members =>
    obtain ⟨entries, hentries, hms⟩ := Option.map_eq_some_iff.mp hbuild
    obtain ⟨read, hread, hkept⟩ := Option.bind_eq_some_iff.mp hentries
    cases Value.obj.inj hms
    cases Option.some.inj hkept
    have hnil : (([] : List (Units × Value ν)).map Prod.fst).Nodup := List.nodup_nil
    obtain ⟨hnodup, hmem⟩ := foldl_define read hnil
    exact ⟨hnodup, fun m hm => built_members members hread m ((hmem m hm).resolve_left List.not_mem_nil)⟩
  | str ps => simp [Cst.build] at hbuild
  | num n => simp [Cst.build] at hbuild
  | arr items =>
    rw [Cst.build] at hbuild
    split at hbuild <;> simp at hbuild
  | _ => cases hbuild

end JsonParse

end Desk
