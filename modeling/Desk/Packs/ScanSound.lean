import Desk.Lib.JsonPlaces
import Desk.Packs.DocumentText

/-!
# The scanner on a JSON text

On the text of a tree the scanner reads the value of the tree, the first of
each repeated name kept, and records a span for each value and each repeated
name it meets.
-/

namespace Desk

namespace DocumentText

/-! ## What is recorded -/

/-- A member is kept unless its name is seen. -/
def keep {ν : Type} (object : List (Units × ν)) (m : Units × ν) : List (Units × ν) :=
  if object.any (fun o => o.1 == m.1) then object else object ++ [m]

def keepFirst {ν : Type} (members : List (Units × ν)) : List (Units × ν) := members.foldl keep []

def spanOf (e : Entry) : Span := ⟨pointerOf e.path, e.valueStart, e.valueEnd, e.memberStart, e.valueEnd⟩

def recordAll (spans : List Span) (entries : List Entry) : List Span := (entries.map spanOf).foldl recordSpan spans

theorem recordAll_append (spans : List Span) (a b : List Entry) :
    recordAll spans (a ++ b) = recordAll (recordAll spans a) b := by
  rw [recordAll, List.map_append, List.foldl_append]
  rfl

/-- The repeated name, if this one is. -/
def repeated (path : List Units) (seen : List Units) (name : Units) : List DuplicateMember :=
  if seen.contains name then [⟨pointerOf (path ++ [name]), name⟩] else []

def addSeen (seen : List Units) (name : Units) : List Units := if seen.contains name then seen else seen ++ [name]

mutual

/-- The names that are met again. -/
def Cst.repeats : Cst → List Units → List DuplicateMember
  | .arr items, path => CstItems.repeats items path 0
  | .obj members, path => CstMembers.repeats members path []
  | _, _ => []

def CstItems.repeats : CstItems → List Units → Nat → List DuplicateMember
  | .last _ v _, path, i => Cst.repeats v (path ++ [natText i])
  | .cons _ v _ rest, path, i => Cst.repeats v (path ++ [natText i]) ++ CstItems.repeats rest path (i + 1)

def CstMembers.repeats : CstMembers → List Units → List Units → List DuplicateMember
  | .last _ name _ _ v _, path, seen =>
    Cst.repeats v (path ++ [piecesUnits name]) ++ repeated path seen (piecesUnits name)
  | .cons _ name _ _ v _ rest, path, seen =>
    Cst.repeats v (path ++ [piecesUnits name]) ++ (repeated path seen (piecesUnits name) ++
      CstMembers.repeats rest path (addSeen seen (piecesUnits name)))

end

/-! ## Steps of the scanner -/

section
variable {α β : Type} {pos : Nat} {rest : Units} {spans : List Span} {dups : List DuplicateMember}

theorem bind_ok {x : Scan α} {f : α → Scan β} {s s' : Scanner} {a : α} (h : x s = .ok a s') : (x >>= f) s = f a s' := by
  simp only [bind, EStateM.bind, h]

theorem get_run (s : Scanner) : (get : Scan Scanner) s = .ok s s := rfl

theorem char_run (u : UInt16) : char ⟨pos, u :: rest, spans, dups⟩ = .ok (some u) ⟨pos, u :: rest, spans, dups⟩ := rfl

theorem advance_run {taken : Units} {n : Nat} (h : n = taken.length) :
    advance n ⟨pos, taken ++ rest, spans, dups⟩ = .ok () ⟨pos + taken.length, rest, spans, dups⟩ := by
  show EStateM.Result.ok () (Scanner.mk (pos + n) ((taken ++ rest).drop n) spans dups) = _
  rw [h, List.drop_left]

theorem advance_one (u : UInt16) : advance 1 ⟨pos, u :: rest, spans, dups⟩ = .ok () ⟨pos + 1, rest, spans, dups⟩ := rfl

theorem skip_run {l : Layout} (h : skipLayout rest = rest) :
    skip ⟨pos, l.1 ++ rest, spans, dups⟩ = .ok () ⟨pos + l.1.length, rest, spans, dups⟩ := by
  have htake : ((l.1 ++ rest).takeWhile isLayout) = l.1 := by
    rw [List.takeWhile_append_of_pos (List.all_eq_true.mp l.2)]
    have : rest.takeWhile isLayout = [] := by
      have hsplit := List.takeWhile_append_dropWhile (p := isLayout) (l := rest)
      rw [skipLayout] at h
      rw [h] at hsplit
      exact List.append_cancel_right hsplit
    rw [this, List.append_nil]
  show advance ((l.1 ++ rest).takeWhile isLayout).length _ = _
  exact advance_run (by rw [htake])

theorem skip_none (h : skipLayout rest = rest) : skip ⟨pos, rest, spans, dups⟩ = .ok () ⟨pos, rest, spans, dups⟩ :=
  skip_run (l := noLayout) h

end

theorem stringEnd_piece (p : Piece) (rest : Units) :
    stringEnd (p.text ++ rest) = ((stringEnd rest).1 + p.text.length, (stringEnd rest).2) := by
  have plain : ∀ {u : UInt16} (rest : Units), u ≠ quoteUnit → u ≠ escapeUnit →
      stringEnd (u :: rest) = ((stringEnd rest).1 + 1, (stringEnd rest).2) := by
    intro u rest hq he
    rw [stringEnd.eq_def]
    simp only [if_neg he, if_neg hq]
  have escaped : ∀ (u : UInt16) (rest : Units),
      stringEnd (escapeUnit :: u :: rest) = ((stringEnd rest).1 + 2, (stringEnd rest).2) := by
    intro u rest
    rw [stringEnd, if_pos rfl]
  cases p with
  | plain u h =>
    obtain ⟨_, hq, hb⟩ := JsonParse.isPlain_iff.mp h
    exact plain rest hq hb
  | short e u h => exact escaped e rest
  | hex a b c d u h =>
    simp only [hexUnits, Option.bind_eq_bind, Option.bind_eq_some_iff] at h
    obtain ⟨_, ha, _, hb, _, hc, _, hd, _⟩ := h
    show stringEnd (escapeUnit :: unit 'u' :: a :: b :: c :: d :: rest) = _
    rw [escaped, plain _ (hexDigitValue_ne ha).1 (hexDigitValue_ne ha).2,
      plain _ (hexDigitValue_ne hb).1 (hexDigitValue_ne hb).2, plain _ (hexDigitValue_ne hc).1 (hexDigitValue_ne hc).2,
      plain _ (hexDigitValue_ne hd).1 (hexDigitValue_ne hd).2]
    rfl

theorem stringEnd_pieces (ps : List Piece) (rest : Units) :
    stringEnd (piecesText ps ++ quoteUnit :: rest) = ((piecesText ps).length + 1, true) := by
  induction ps with
  | nil =>
    show stringEnd (quoteUnit :: rest) = _
    rw [stringEnd.eq_def]
    rfl
  | cons p ps ih =>
    show stringEnd (p.text ++ piecesText ps ++ quoteUnit :: rest) = ((p.text ++ piecesText ps).length + 1, true)
    rw [List.append_assoc, stringEnd_piece, ih, List.length_append]
    simp only [Prod.mk.injEq, and_true]
    omega

section
variable {ν : Type} {e : Engine ν} {pos : Nat} {rest : Units} {spans : List Span} {dups : List DuplicateMember}

theorem readString_run (ps : List Piece) : readString e ⟨pos, quotedText ps ++ rest, spans, dups⟩ =
    .ok (piecesUnits ps) ⟨pos + (quotedText ps).length, rest, spans, dups⟩ := by
  have hrest : quotedText ps ++ rest = quoteUnit :: (piecesText ps ++ quoteUnit :: rest) := by simp [quotedText]
  have hend := stringEnd_pieces ps rest
  have hslice : (quoteUnit :: (piecesText ps ++ quoteUnit :: rest)).take (1 + ((piecesText ps).length + 1)) = quotedText ps := by
    rw [Nat.add_comm, List.take_succ_cons, quotedText]
    congr 1
    rw [← List.singleton_append (l := rest), ← List.append_assoc]
    exact List.take_left' (by simp)
  rw [readString, bind_ok (get_run _)]
  simp only [hrest, List.head?_cons, List.tail_cons, ne_eq, not_true_eq_false, if_false, hend, hslice, if_true,
    JsonParse.parse_quoted]
  rw [bind_ok (advance_one quoteUnit)]
  have hadvance : piecesText ps ++ quoteUnit :: rest = (piecesText ps ++ [quoteUnit]) ++ rest := by simp
  rw [hadvance, bind_ok (advance_run (by simp))]
  show EStateM.Result.ok _ _ = _
  congr 2
  simp [quotedText]
  omega

theorem numberRun_numeral (n : Numeral) (hr : Stops rest) : numberRun (n.1 ++ rest) = n.1 := by
  obtain ⟨u, more, hn, _⟩ := numeral_head n
  have hall := all_isNumeric n.2
  have htake := (takeWhile_isNumeric hall hr).1
  rw [hn, List.cons_append] at htake ⊢
  rw [numberRun]
  split
  · rw [hn] at hall
    rw [(takeWhile_isNumeric (fun v hv => hall v (List.mem_cons_of_mem _ hv)) hr).1]
  · exact htake

theorem readNumber_run (n : Numeral) (hr : Stops rest) : readNumber e ⟨pos, n.1 ++ rest, spans, dups⟩ =
    .ok (e.number n.1) ⟨pos + n.1.length, rest, spans, dups⟩ := by
  have hne : ¬ (n.1 = [] ∨ e.isNaN (e.number n.1) = true) := by
    rw [e.number_literal n.2]
    obtain ⟨u, more, hn, _⟩ := numeral_head n
    simp [hn]
  rw [readNumber, bind_ok (get_run _)]
  simp only [numberRun_numeral n hr]
  rw [bind_ok (advance_run rfl)]
  simp only [if_neg hne]
  rfl

theorem literal_run (w : String) (v : Value ν) : literal w v ⟨pos, wordText w ++ rest, spans, dups⟩ =
    .ok v ⟨pos + (wordText w).length, rest, spans, dups⟩ := by
  have hw : startsWord w (wordText w ++ rest) = true := List.isPrefixOf_iff_prefix.mpr ⟨rest, rfl⟩
  rw [literal, bind_ok (get_run _)]
  simp only [hw, if_true]
  rw [bind_ok (advance_run (by rw [wordText, List.length_map, String.length_toList]))]
  rfl

/-! ## A value, between its layout and its record -/

theorem skipLayout_of_head {text : Units} {u : UInt16} (h : text.head? = some u) (hu : isLayout u = false) :
    skipLayout text = text := by
  rw [cons_tail_of_head? h, skipLayout_cons hu]

theorem readValue_run {fuel : Nat} {path : List Units} {memberStart : Nat} {l : Layout} {text : Units} {u : UInt16}
    {v : Value ν} {pos' : Nat} {spans' : List Span} {dups' : List DuplicateMember} (htext : text.head? = some u)
    (hu : isLayout u = false)
    (h : readHere e (readMembers e fuel path []) (readItems e fuel path []) (some u) ⟨pos + l.1.length, text, spans, dups⟩ =
      .ok v ⟨pos', rest, spans', dups'⟩) :
    readValue e (fuel + 1) path memberStart ⟨pos, l.1 ++ text, spans, dups⟩ =
      .ok v ⟨pos', rest, recordSpan spans' ⟨pointerOf path, pos + l.1.length, pos', memberStart, pos'⟩, dups'⟩ := by
  have hchar : char ⟨pos + l.1.length, text, spans, dups⟩ = .ok (some u) ⟨pos + l.1.length, text, spans, dups⟩ := by
    rw [← htext]
    rfl
  rw [readValue, bind_ok (skip_run (skipLayout_of_head htext hu)), bind_ok (get_run _), bind_ok hchar, bind_ok h]
  rfl

theorem pure_ok {α β : Type} {x : Scan α} {f : α → β} {s s' : Scanner} {a : α} (h : x s = .ok a s') :
    (x >>= fun a => pure (f a)) s = .ok (f a) s' := by
  rw [bind_ok h]
  rfl

theorem recordAll_entry (c : Cst) (path : List Units) (start memberStart : Nat) (lead : Units) (before : List Entry) :
    recordAll spans (before ++ [c.entry path start memberStart lead]) = recordSpan (recordAll spans before)
      ⟨pointerOf path, start, start + c.text.length, memberStart, start + c.text.length⟩ := by
  rw [recordAll_append]
  rfl

/-! ## Containers -/

theorem readItems_skip {fuel : Nat} {path : List Units} {array : List (Value ν)} {l : Layout} (h : skipLayout rest = rest) :
    readItems e (fuel + 1) path array ⟨pos + l.1.length, rest, spans, dups⟩ =
      readItems e (fuel + 1) path array ⟨pos, l.1 ++ rest, spans, dups⟩ := by
  rw [readItems, bind_ok (skip_none h), bind_ok (skip_run h)]

theorem readMembers_skip {fuel : Nat} {path : List Units} {object : List (Units × Value ν)} {l : Layout}
    (h : skipLayout rest = rest) :
    readMembers e (fuel + 1) path object ⟨pos + l.1.length, rest, spans, dups⟩ =
      readMembers e (fuel + 1) path object ⟨pos, l.1 ++ rest, spans, dups⟩ := by
  rw [readMembers, bind_ok (skip_none h), bind_ok (skip_run h)]

theorem skip_split (text : Units) : ∃ l : Layout, text = l.1 ++ skipLayout text ∧
    skipLayout (skipLayout text) = skipLayout text := by
  obtain ⟨l, hl⟩ := skipLayout_split text
  refine ⟨l, hl, ?_⟩
  conv_rhs => rw [hl, skipLayout_layout]

/-- An array with items is read as its items are. -/
theorem readHere_items {members : Scan (List (Units × Value ν))} {fuel : Nat} {path : List Units} {text : Units}
    {vs : List (Value ν)} {s : Scanner} (hhead : (skipLayout text).head? ≠ some (unit ']'))
    (h : readItems e (fuel + 1) path [] ⟨pos + 1, text, spans, dups⟩ = .ok vs s) :
    readHere e members (readItems e (fuel + 1) path []) (some (unit '[')) ⟨pos, unit '[' :: text, spans, dups⟩ =
      .ok (.arr vs) s := by
  obtain ⟨l, hl, hskip⟩ := skip_split text
  rw [hl, ← readItems_skip hskip] at h
  rw [readHere, if_neg (by decide), if_pos rfl, bind_ok (advance_one _), hl, bind_ok (skip_run hskip)]
  have hchar : char ⟨pos + 1 + l.1.length, skipLayout text, spans, dups⟩ =
      .ok (skipLayout text).head? ⟨pos + 1 + l.1.length, skipLayout text, spans, dups⟩ := rfl
  rw [bind_ok hchar, if_neg hhead, pure_ok h]

theorem readHere_members {items : Scan (List (Value ν))} {fuel : Nat} {path : List Units} {text : Units}
    {vs : List (Units × Value ν)} {s : Scanner} (hhead : (skipLayout text).head? ≠ some (unit '\x7d'))
    (h : readMembers e (fuel + 1) path [] ⟨pos + 1, text, spans, dups⟩ = .ok vs s) :
    readHere e (readMembers e (fuel + 1) path []) items (some (unit '\x7b')) ⟨pos, unit '\x7b' :: text, spans, dups⟩ =
      .ok (.obj vs) s := by
  obtain ⟨l, hl, hskip⟩ := skip_split text
  rw [hl, ← readMembers_skip hskip] at h
  rw [readHere, if_pos rfl, bind_ok (advance_one _), hl, bind_ok (skip_run hskip)]
  have hchar : char ⟨pos + 1 + l.1.length, skipLayout text, spans, dups⟩ =
      .ok (skipLayout text).head? ⟨pos + 1 + l.1.length, skipLayout text, spans, dups⟩ := rfl
  rw [bind_ok hchar, if_neg hhead, pure_ok h]

theorem keepMember_run (path : List Units) (object : List (Units × Value ν)) (name : Units) (member : Value ν) :
    keepMember path object name member ⟨pos, rest, spans, dups⟩ =
      .ok (keep object (name, member)) ⟨pos, rest, spans, dups ++ repeated path (object.map Prod.fst) name⟩ := by
  have hseen : (object.map Prod.fst).contains name = object.any (fun o => o.1 == name) := by
    rw [List.contains_eq_any_beq, List.any_map]
    congr 1
    funext o
    exact BEq.comm
  unfold keepMember repeated keep
  rw [hseen]
  cases object.any (fun o => o.1 == name) with
  | true => rfl
  | false =>
    simp only [Bool.false_eq_true, if_false, List.append_nil]
    rfl

theorem map_fst_keep (object : List (Units × Value ν)) (m : Units × Value ν) :
    (keep object m).map Prod.fst = addSeen (object.map Prod.fst) m.1 := by
  have hseen : (object.map Prod.fst).contains m.1 = object.any (fun o => o.1 == m.1) := by
    rw [List.contains_eq_any_beq, List.any_map]
    congr 1
    funext o
    exact BEq.comm
  unfold keep addSeen
  rw [hseen]
  split
  · rfl
  · rw [List.map_append, List.map_singleton]

/-! ## Trees -/

/-- A tree is read as what stands here is, and recorded after what is under it. -/
theorem scan_of {c : Cst} {fuel : Nat} {path : List Units} {memberStart : Nat} {l : Layout} {lead : Units} {u : UInt16}
    {v : Value ν} {deep : List Entry} {more : List DuplicateMember} (htext : c.text.head? = some u) (hu : isLayout u = false)
    (hentries : c.entries path (pos + l.1.length) memberStart lead = deep ++ [c.entry path (pos + l.1.length) memberStart lead])
    (h : readHere e (readMembers e fuel path []) (readItems e fuel path []) (some u)
      ⟨pos + l.1.length, c.text ++ rest, spans, dups⟩ =
        .ok v ⟨pos + l.1.length + c.text.length, rest, recordAll spans deep, dups ++ more⟩) :
    readValue e (fuel + 1) path memberStart ⟨pos, l.1 ++ (c.text ++ rest), spans, dups⟩ =
      .ok v ⟨pos + l.1.length + c.text.length, rest, recordAll spans (c.entries path (pos + l.1.length) memberStart lead),
        dups ++ more⟩ := by
  have hhead : (c.text ++ rest).head? = some u := by rw [cons_tail_of_head? htext]; rfl
  rw [readValue_run hhead hu h, hentries, recordAll_entry]

/-- A tree without children. -/
theorem scan_leaf {c : Cst} {fuel : Nat} {path : List Units} {memberStart : Nat} {l : Layout} {lead : Units} {u : UInt16}
    {v : Value ν} (htext : c.text.head? = some u) (hu : isLayout u = false) (hc : c.children = [])
    (hrepeats : Cst.repeats c path = [])
    (h : readHere e (readMembers e fuel path []) (readItems e fuel path []) (some u)
      ⟨pos + l.1.length, c.text ++ rest, spans, dups⟩ = .ok v ⟨pos + l.1.length + c.text.length, rest, spans, dups⟩) :
    readValue e (fuel + 1) path memberStart ⟨pos, l.1 ++ (c.text ++ rest), spans, dups⟩ =
      .ok v ⟨pos + l.1.length + c.text.length, rest, recordAll spans (c.entries path (pos + l.1.length) memberStart lead),
        dups ++ Cst.repeats c path⟩ := by
  rw [hrepeats]
  have hentries : c.entries path (pos + l.1.length) memberStart lead =
      [] ++ [c.entry path (pos + l.1.length) memberStart lead] := by
    rw [c.entries_eq, hc]
    rfl
  refine scan_of htext hu hentries ?_
  rw [h, List.append_nil]
  rfl

theorem isLayout_of_isDigit {u : UInt16} (h : isDigit u = true) : isLayout u = false := by
  rw [← Bool.not_eq_true]
  intro hu
  have := isNumeric_of_isLayout hu
  rw [isNumeric_of_isDigit h] at this
  cases this

variable (e)

mutual

/-- The scanner on the text of a tree. -/
theorem Cst.scan : ∀ (c : Cst) (fuel : Nat) (path : List Units) (memberStart pos : Nat) (rest : Units) (spans : List Span)
    (dups : List DuplicateMember) (l : Layout) (lead : Units), Stops rest → c.text.length < fuel →
    readValue e fuel path memberStart ⟨pos, l.1 ++ (c.text ++ rest), spans, dups⟩ = .ok (c.value e.number keepFirst)
      ⟨pos + l.1.length + c.text.length, rest, recordAll spans (c.entries path (pos + l.1.length) memberStart lead),
        dups ++ Cst.repeats c path⟩
  | _, 0, _, _, _, _, _, _, _, _, _, hf => absurd hf (Nat.not_lt_zero _)
  | .null, fuel + 1, path, memberStart, pos, rest, spans, dups, l, lead, _, _ =>
    scan_leaf (u := unit 'n') rfl rfl rfl rfl (literal_run "null" .null)
  | .bool false, fuel + 1, path, memberStart, pos, rest, spans, dups, l, lead, _, _ =>
    scan_leaf (u := unit 'f') rfl rfl rfl rfl (literal_run "false" (.bool false))
  | .bool true, fuel + 1, path, memberStart, pos, rest, spans, dups, l, lead, _, _ =>
    scan_leaf (u := unit 't') rfl rfl rfl rfl (literal_run "true" (.bool true))
  | .num n, fuel + 1, path, memberStart, pos, rest, spans, dups, l, lead, hr, _ => by
    obtain ⟨u, more, hn, hu⟩ := numeral_head n
    have hne : ∀ w : UInt16, isNumeric w = false → ¬ some u = some w := by
      rintro w hw huw
      rw [← Option.some.inj huw] at hw
      rcases hu with rfl | hu
      · exact absurd hw (by decide)
      · rw [isNumeric, hu] at hw
        exact absurd hw (by simp)
    have hlayout : isLayout u = false := by
      rcases hu with rfl | hu
      · decide
      · exact isLayout_of_isDigit hu
    refine scan_leaf (u := u) (by rw [Cst.text, hn]; rfl) hlayout rfl rfl ?_
    rw [readHere, if_neg (hne _ (by decide)), if_neg (hne _ (by decide)), if_neg (hne _ (by decide)),
      if_neg (hne _ (by decide)), if_neg (hne _ (by decide)), if_neg (hne _ (by decide))]
    exact pure_ok (readNumber_run n hr)
  | .str ps, fuel + 1, path, memberStart, pos, rest, spans, dups, l, lead, _, _ => by
    refine scan_leaf (u := quoteUnit) rfl rfl rfl rfl ?_
    rw [readHere, if_neg (by decide), if_neg (by decide), if_pos rfl]
    exact pure_ok (readString_run ps)
  | .noItems inner, fuel + 1, path, memberStart, pos, rest, spans, dups, l, lead, _, _ => by
    have hskip : skipLayout (unit ']' :: rest) = unit ']' :: rest := skipLayout_cons (by decide) rest
    have htext : (Cst.noItems inner).text ++ rest = unit '[' :: (inner.1 ++ unit ']' :: rest) := by simp [Cst.text]
    refine scan_leaf (u := unit '[') rfl rfl rfl rfl ?_
    rw [readHere, if_neg (by decide), if_pos rfl, htext, bind_ok (advance_one _), bind_ok (skip_run hskip),
      bind_ok (char_run _), if_pos rfl, bind_ok (advance_one _)]
    show EStateM.Result.ok _ _ = _
    congr 2
    simp [Cst.text]
    omega
  | .arr items, fuel + 1, path, memberStart, pos, rest, spans, dups, l, lead, _, hf => by
    have hpos : 0 < items.text.length := by cases items <;> simp [CstItems.text] <;> omega
    rw [Cst.text, List.length_cons] at hf
    obtain ⟨fuel, rfl⟩ : ∃ f, fuel = f + 1 := ⟨fuel - 1, by omega⟩
    have hread := CstItems.scan items (fuel + 1) path (pos + l.1.length + 1) rest spans dups [] (by omega)
    refine scan_of (u := unit '[') rfl rfl rfl ?_
    rw [Cst.text, List.cons_append, readHere_items (items.skipLayout_text_head rest) hread, List.nil_append, List.length_cons,
      Nat.add_assoc _ 1, Nat.add_comm 1]
    rfl
  | .noMembers inner, fuel + 1, path, memberStart, pos, rest, spans, dups, l, lead, _, _ => by
    have hskip : skipLayout (unit '\x7d' :: rest) = unit '\x7d' :: rest := skipLayout_cons (by decide) rest
    have htext : (Cst.noMembers inner).text ++ rest = unit '\x7b' :: (inner.1 ++ unit '\x7d' :: rest) := by simp [Cst.text]
    refine scan_leaf (u := unit '\x7b') rfl rfl rfl rfl ?_
    rw [readHere, if_pos rfl, htext, bind_ok (advance_one _), bind_ok (skip_run hskip), bind_ok (char_run _), if_pos rfl,
      bind_ok (advance_one _)]
    show EStateM.Result.ok _ _ = _
    congr 2
    simp [Cst.text]
    omega
  | .obj members, fuel + 1, path, memberStart, pos, rest, spans, dups, l, lead, _, hf => by
    have hpos : 0 < members.text.length := by cases members <;> simp [CstMembers.text] <;> omega
    rw [Cst.text, List.length_cons] at hf
    obtain ⟨fuel, rfl⟩ : ∃ f, fuel = f + 1 := ⟨fuel - 1, by omega⟩
    have hread := CstMembers.scan members (fuel + 1) path (pos + l.1.length + 1) rest spans dups [] (by omega)
    refine scan_of (u := unit '\x7b') rfl rfl rfl ?_
    rw [Cst.text, List.cons_append, readHere_members (members.skipLayout_text_head rest) hread, List.length_cons,
      Nat.add_assoc _ 1, Nat.add_comm 1]
    rfl

theorem CstItems.scan : ∀ (c : CstItems) (fuel : Nat) (path : List Units) (pos : Nat) (rest : Units) (spans : List Span)
    (dups : List DuplicateMember) (array : List (Value ν)), c.text.length < fuel →
    readItems e fuel path array ⟨pos, c.text ++ rest, spans, dups⟩ = .ok (array ++ c.values e.number keepFirst)
      ⟨pos + c.text.length, rest, recordAll spans (c.entries path array.length pos),
        dups ++ CstItems.repeats c path array.length⟩
  | _, 0, _, _, _, _, _, _, hf => absurd hf (Nat.not_lt_zero _)
  | .last pre v post, fuel + 1, path, pos, rest, spans, dups, array, hf => by
    rw [CstItems.text] at hf ⊢
    simp only [List.length_append, List.length_cons, List.length_nil] at hf
    have hskip : skipLayout (v.text ++ (post.1 ++ unit ']' :: rest)) = v.text ++ (post.1 ++ unit ']' :: rest) :=
      v.skipLayout_text _
    have hend : skipLayout (unit ']' :: rest) = unit ']' :: rest := skipLayout_cons (by decide) rest
    have hread := Cst.scan v fuel (path ++ [natText array.length]) (pos + pre.1.length) (pos + pre.1.length)
      (post.1 ++ unit ']' :: rest) spans dups noLayout pre.1 (stops_layout post (stops_cons bracket_stops rest)) (by omega)
    simp only [noLayout, List.nil_append, List.length_nil, Nat.add_zero] at hread
    simp only [List.append_assoc, List.singleton_append]
    rw [readItems, bind_ok (skip_run hskip), bind_ok (get_run _)]
    dsimp only
    rw [bind_ok hread, bind_ok (skip_run hend), bind_ok (char_run _), if_neg (by decide), if_pos rfl,
      bind_ok (advance_one _)]
    show EStateM.Result.ok _ _ = _
    congr 2
    simp only [List.length_append, List.length_cons, List.length_nil]
    omega
  | .cons pre v post more, fuel + 1, path, pos, rest, spans, dups, array, hf => by
    rw [CstItems.text] at hf ⊢
    simp only [List.length_append, List.length_cons] at hf
    have hskip : skipLayout (v.text ++ (post.1 ++ unit ',' :: (more.text ++ rest))) =
        v.text ++ (post.1 ++ unit ',' :: (more.text ++ rest)) := v.skipLayout_text _
    have hend : skipLayout (unit ',' :: (more.text ++ rest)) = unit ',' :: (more.text ++ rest) :=
      skipLayout_cons (by decide) _
    have hread := Cst.scan v fuel (path ++ [natText array.length]) (pos + pre.1.length) (pos + pre.1.length)
      (post.1 ++ unit ',' :: (more.text ++ rest)) spans dups noLayout pre.1
      (stops_layout post (stops_cons comma_stops _)) (by omega)
    simp only [noLayout, List.nil_append, List.length_nil, Nat.add_zero] at hread
    simp only [List.append_assoc, List.cons_append]
    rw [readItems, bind_ok (skip_run hskip), bind_ok (get_run _)]
    dsimp only
    rw [bind_ok hread, bind_ok (skip_run hend), bind_ok (char_run _), if_pos rfl, bind_ok (advance_one _),
      CstItems.scan more fuel _ _ _ _ _ (array ++ [v.value e.number keepFirst]) (by omega)]
    rw [CstItems.values, CstItems.entries, recordAll_append, CstItems.repeats, List.append_assoc, List.append_assoc,
      List.length_append, List.length_singleton]
    congr 2
    · simp only [List.length_append, List.length_cons]
      omega
    · congr 2
      simp only [List.length_append]
      omega

theorem CstMembers.scan : ∀ (c : CstMembers) (fuel : Nat) (path : List Units) (pos : Nat) (rest : Units) (spans : List Span)
    (dups : List DuplicateMember) (object : List (Units × Value ν)), c.text.length < fuel →
    readMembers e fuel path object ⟨pos, c.text ++ rest, spans, dups⟩ = .ok ((c.values e.number keepFirst).foldl keep object)
      ⟨pos + c.text.length, rest, recordAll spans (c.entries path pos),
        dups ++ CstMembers.repeats c path (object.map Prod.fst)⟩
  | _, 0, _, _, _, _, _, _, hf => absurd hf (Nat.not_lt_zero _)
  | .last pre name mid sep v post, fuel + 1, path, pos, rest, spans, dups, object, hf => by
    rw [CstMembers.text] at hf ⊢
    simp only [List.length_append, List.length_cons, List.length_nil] at hf
    have hskip : ∀ more : Units, skipLayout (quotedText name ++ more) = quotedText name ++ more := fun more =>
      skipLayout_cons (by decide) _
    have hcolon : ∀ more : Units, skipLayout (unit ':' :: more) = unit ':' :: more := fun more => skipLayout_cons (by decide) _
    have hend : skipLayout (unit '\x7d' :: rest) = unit '\x7d' :: rest := skipLayout_cons (by decide) rest
    have hread := Cst.scan v fuel (path ++ [piecesUnits name]) (pos + pre.1.length)
      (pos + pre.1.length + (quotedText name).length + mid.1.length + 1) (post.1 ++ unit '\x7d' :: rest)
      spans dups sep pre.1 (stops_layout post (stops_cons brace_stops rest)) (by omega)
    simp only [List.append_assoc, List.cons_append, List.nil_append]
    rw [readMembers, bind_ok (skip_run (hskip _)), bind_ok (get_run _), bind_ok (readString_run name),
      bind_ok (skip_run (hcolon _)), bind_ok (char_run _)]
    simp only [ne_eq, not_true_eq_false, if_false]
    rw [bind_ok (advance_one _), bind_ok hread, bind_ok (keepMember_run ..), bind_ok (skip_run hend), bind_ok (char_run _),
      if_neg (by decide), if_pos rfl, bind_ok (advance_one _)]
    show EStateM.Result.ok _ _ = _
    rw [CstMembers.entries, CstMembers.repeats, List.append_assoc]
    congr 2
    · simp only [List.length_append, List.length_cons, List.length_nil]
      omega
    · congr 2
      simp only [Member.label, List.length_append, List.length_cons]
      omega
  | .cons pre name mid sep v post more, fuel + 1, path, pos, rest, spans, dups, object, hf => by
    rw [CstMembers.text] at hf ⊢
    simp only [List.length_append, List.length_cons] at hf
    have hskip : ∀ more : Units, skipLayout (quotedText name ++ more) = quotedText name ++ more := fun more =>
      skipLayout_cons (by decide) _
    have hcolon : ∀ more : Units, skipLayout (unit ':' :: more) = unit ':' :: more := fun more => skipLayout_cons (by decide) _
    have hend : skipLayout (unit ',' :: (more.text ++ rest)) = unit ',' :: (more.text ++ rest) :=
      skipLayout_cons (by decide) _
    have hread := Cst.scan v fuel (path ++ [piecesUnits name]) (pos + pre.1.length)
      (pos + pre.1.length + (quotedText name).length + mid.1.length + 1)
      (post.1 ++ unit ',' :: (more.text ++ rest)) spans dups sep pre.1
      (stops_layout post (stops_cons comma_stops _)) (by omega)
    simp only [List.append_assoc, List.cons_append]
    rw [readMembers, bind_ok (skip_run (hskip _)), bind_ok (get_run _), bind_ok (readString_run name),
      bind_ok (skip_run (hcolon _)), bind_ok (char_run _)]
    simp only [ne_eq, not_true_eq_false, if_false]
    rw [bind_ok (advance_one _), bind_ok hread, bind_ok (keepMember_run ..), bind_ok (skip_run hend), bind_ok (char_run _),
      if_pos rfl, bind_ok (advance_one _), CstMembers.scan more fuel _ _ _ _ _ _ (by omega)]
    rw [CstMembers.values, List.foldl_cons, CstMembers.entries, CstMembers.repeats, recordAll_append, map_fst_keep,
      List.append_assoc, List.append_assoc]
    have hstart : pos + pre.1.length + (quotedText name).length + mid.1.length + 1 + sep.1.length =
        pos + pre.1.length + (Member.mk name mid sep v).label.length := by
      simp only [Member.label, List.length_append, List.length_cons]
      omega
    have hnext : pos + pre.1.length + (Member.mk name mid sep v).label.length + v.text.length + post.1.length + 1 =
        pos + (pre.1 ++ ((Member.mk name mid sep v).text ++ post.1)).length + 1 := by
      simp only [Member.text, List.length_append]
      omega
    rw [hstart, hnext]
    congr 2
    simp only [Member.text, Member.label, List.length_append, List.length_cons]
    omega

end

end

end DocumentText

end Desk
