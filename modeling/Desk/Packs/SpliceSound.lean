import Desk.Lib.JsonEdit
import Desk.Packs.GateSound

/-!
# Splices of a document

An edit changes the text of one container or value and leaves what is in front
of it and behind it. The result is the text of a tree again: the gate stays
open, and the value changes where the edit is.
-/

namespace Desk

namespace DocumentText

/-! ## Runs of layout -/

theorem takeWhile_layout (l : Layout) {y : UInt16} {rest : Units} (hy : isLayout y = false) :
    (l.1 ++ y :: rest).takeWhile isLayout = l.1 := by
  rw [List.takeWhile_append_of_pos (List.all_eq_true.mp l.2), List.takeWhile_cons_of_neg (by simp [hy]), List.append_nil]

theorem layoutBefore_eq {t a r : Units} {y : UInt16} {l : Layout} {position : Nat} (h : t = a ++ y :: (l.1 ++ r))
    (hy : isLayout y = false) (hposition : position = (a ++ y :: l.1).length) : layoutBefore t position = l.1.length := by
  have htake : t.take position = a ++ y :: l.1 := by
    rw [h, hposition, ← List.cons_append, ← List.append_assoc, List.take_left]
  have hreverse : (a ++ y :: l.1).reverse = l.1.reverse ++ y :: a.reverse := by simp
  have hlayout : l.1.reverse.all isLayout = true := by rw [List.all_reverse]; exact l.2
  rw [layoutBefore, htake, hreverse, takeWhile_layout ⟨l.1.reverse, hlayout⟩ hy, List.length_reverse]

theorem layoutAfter_eq {t a r : Units} {y : UInt16} {l : Layout} {position : Nat} (h : t = a ++ (l.1 ++ y :: r))
    (hy : isLayout y = false) (hposition : position = a.length) :
    layoutAfter t position = l.1.length ∧ t[position + l.1.length]? = some y := by
  constructor
  · rw [layoutAfter, h, hposition, List.drop_left, takeWhile_layout l hy]
  · exact getElem?_mid (a := a ++ l.1) (by rw [h, List.append_assoc]) (by rw [hposition, List.length_append])

theorem leadingLayout_eq {t a r : Units} {y : UInt16} {l : Layout} {position : Nat} (h : t = a ++ y :: (l.1 ++ r))
    (hy : isLayout y = false) (hposition : position = (a ++ y :: l.1).length) : leadingLayout t position = l.1 := by
  rw [leadingLayout, layoutBefore_eq h hy hposition]
  refine slice_mid (a := a ++ [y]) (c := r) (by rw [h]; simp) ?_ ?_
  · rw [hposition]
    simp
    omega
  · rw [hposition]
    simp
    omega

/-- At the start of a text all of the layout is in front. -/
theorem leadingLayout_start {t rest : Units} {l : Layout} (h : t = l.1 ++ rest) : leadingLayout t l.1.length = l.1 := by
  have htake : t.take l.1.length = l.1 := by rw [h, List.take_left]
  have hall : l.1.reverse.takeWhile isLayout = l.1.reverse :=
    List.takeWhile_eq_self_iff.mpr fun u hu => List.all_eq_true.mp l.2 u (List.mem_reverse.mp hu)
  rw [leadingLayout, layoutBefore, htake, hall, List.length_reverse, Nat.sub_self, slice, htake, List.drop_zero]

/-! ## Members and their layout -/

section
variable {ν : Type} {e : Engine ν} {text : Units}

namespace Spelled

/-- The text around the member in the last frame of a place. -/
theorem text_member (d : Spelled text) {p : Place} {f : Frame} {k : Cst} (h : d.tree = (p ++ [f]).plug k) :
    text = (d.pre.1 ++ (Place.head p ++ f.head)) ++ ((f.label ++ k.text) ++ (f.tail ++ (Place.tail p ++ d.post.1))) := by
  conv_lhs => rw [d.text_eq, h, Place.text_plug, Place.head_append, Place.tail_append]
  simp [Place.head, Place.tail]

theorem spanAt_member (d : Spelled text) {p : Place} {f : Frame} {k : Cst} (h : d.tree = (p ++ [f]).plug k) :
    ∃ span, spanAt (indexDocument e text) (pointerOf (p.path ++ [f.step])) = some span ∧ span = d.spanAtPlace (p ++ [f]) k ∧
      span.memberStart = (d.pre.1 ++ (Place.head p ++ f.head)).length ∧
      span.memberEnd = (d.pre.1 ++ (Place.head p ++ f.head)).length + (f.label ++ k.text).length := by
  have hspan := d.spanAt_place (e := e) h
  have hpath : Place.path (p ++ [f]) = p.path ++ [f.step] := by simp [Place.path]
  rw [hpath] at hspan
  refine ⟨_, hspan, rfl, ?_, ?_⟩
  · show Place.memberAt (p ++ [f]) d.pre.1.length d.pre.1.length = _
    rw [Place.memberAt_concat]
    simp
  · show d.pre.1.length + (Place.head (p ++ [f])).length + k.text.length = _
    rw [Place.head_append]
    simp [Place.head]
    omega

/-- The layout in front of every member is what is recorded with it. -/
theorem leadingLayout_entry (d : Spelled text) {x : Entry} (hx : x ∈ d.entries) :
    leadingLayout text x.memberStart = x.lead := by
  obtain ⟨p, k, htree, rfl⟩ := d.tree.mem_entries hx
  show leadingLayout text (p.memberAt d.pre.1.length d.pre.1.length) = p.lead d.pre.1
  rcases List.eq_nil_or_concat p with rfl | ⟨q, f, rfl⟩
  · exact leadingLayout_start d.text_eq
  · rw [List.concat_eq_append] at htree ⊢
    obtain ⟨a, y, hhead, hy, -⟩ := f.head_split
    rw [Place.memberAt_concat, Place.lead_concat]
    refine leadingLayout_eq (r := (f.label ++ k.text) ++ (f.tail ++ (Place.tail q ++ d.post.1)))
      (a := d.pre.1 ++ (Place.head q ++ a)) (y := y) ?_ hy ?_
    · refine (d.text_member htree).trans ?_
      rw [hhead]
      simp
    · rw [hhead]
      simp

end Spelled

/-! ## Another value at a place -/

namespace Spelled

/-- The text with another value at a place. -/
def put (d : Spelled text) {p : Place} {k : Cst} (h : d.tree = p.plug k) {k' : Cst} (hk : k'.Distinct) :
    Spelled ((d.pre.1 ++ Place.head p) ++ (k'.text ++ (Place.tail p ++ d.post.1))) where
  pre := d.pre
  tree := p.plug k'
  post := d.post
  text_eq := by rw [Place.text_plug]; simp only [List.append_assoc]
  distinct := Place.distinct_plug (h ▸ d.distinct) hk

theorem value_put (d : Spelled text) {p : Place} {k : Cst} (h : d.tree = p.plug k) {k' : Cst} (hk : k'.Distinct)
    {g : Value ν → Value ν} (hg : g (k.value e.number id) = k'.value e.number id) :
    (d.put h hk).value e = (d.value e).update g p.path := by
  have hd := d.distinct
  rw [h] at hd
  rw [value, value, h, p.update_plug e.number hd hg]
  rfl

end Spelled

/-- The text with a spelled text at a place, the layout around it included. -/
theorem Spelled.splice (d : Spelled text) {p : Place} {k : Cst} (h : d.tree = p.plug k) {json : Units} (j : Spelled json) :
    ∃ d' : Spelled ((d.pre.1 ++ Place.head p) ++ (json ++ (Place.tail p ++ d.post.1))),
      d'.value e = (d.value e).update (fun _ => j.value e) p.path := by
  have hd := d.distinct
  rw [h] at hd
  have htree : (p.plug j.tree).Distinct := Place.distinct_plug hd j.distinct
  have hvalue : (d.value e).update (fun _ => j.value e) p.path = (p.plug j.tree).value e.number id := by
    show (d.tree.value e.number id).update (fun _ => j.value e) p.path = _
    rw [h]
    exact p.update_plug e.number hd rfl
  rcases List.eq_nil_or_concat p with rfl | ⟨q, f, rfl⟩
  · refine ⟨⟨.append d.pre j.pre, j.tree, .append j.post d.post, ?_, j.distinct⟩, hvalue.symm⟩
    conv_lhs => rw [j.text_eq]
    simp [Place.head, Place.tail, Layout.append]
  · rw [List.concat_eq_append] at htree hvalue ⊢
    rw [Place.plug_append] at htree hvalue
    have hinner : (f.plug j.tree).Distinct := Place.distinct_of_plug htree
    refine ⟨⟨d.pre, Place.plug q ((f.pad j.pre j.post).plug j.tree), d.post, ?_, ?_⟩, ?_⟩
    · conv_lhs => rw [j.text_eq]
      rw [Place.text_plug, Frame.text_pad, Place.head_append, Place.tail_append]
      simp [Place.head, Place.tail]
    · exact Place.distinct_plug htree (Frame.distinct_pad hinner)
    · rw [hvalue]
      show (Place.plug q ((f.pad j.pre j.post).plug j.tree)).value e.number id = (Place.plug q (f.plug j.tree)).value e.number id
      have hpad : id ((f.plug j.tree).value e.number id) = ((f.pad j.pre j.post).plug j.tree).value e.number id :=
        (Frame.value_pad e.number j.pre j.post f j.tree).symm
      rw [← Place.update_plug e.number q htree hpad]
      exact Place.update_plug e.number q htree rfl

theorem Spelled.find_place (d : Spelled text) {p : Place} {k : Cst} (h : d.tree = p.plug k) :
    (d.value e).find p.path = some (k.value e.number id) :=
  (d.tree.find_value e.number p.path d.distinct).mpr ⟨p, k, h, rfl, rfl⟩

/-! ## One value is replaced -/

/-- The text with a value for a value. -/
theorem Spelled.replaceValue_value (d : Spelled text) {pointer json : Units} {span : Span}
    (hspan : spanAt (indexDocument e text) pointer = some span) (j : Spelled json) :
    ∃ path, pointer = pointerOf path ∧ ((d.value e).find path).isSome = true ∧
      ∃ d' : Spelled (replaceValue text (indexDocument e text) pointer json),
        d'.value e = (d.value e).update (fun _ => j.value e) path := by
  obtain ⟨p, k, htree, rfl, rfl⟩ := d.place_of_spanAt hspan
  obtain ⟨d', hvalue⟩ := d.splice (e := e) htree j
  have hsplice : replaceValue text (indexDocument e text) (pointerOf p.path) json =
      (d.pre.1 ++ Place.head p) ++ (json ++ (Place.tail p ++ d.post.1)) := by
    rw [replaceValue, hspan]
    show text.take (d.spanAtPlace p k).valueStart ++ json ++ text.drop (d.spanAtPlace p k).valueEnd = _
    rw [take_mid (d.text_place htree) (by simp [Spelled.spanAtPlace, spanOf, Cst.entry]),
      drop_mid (d.text_place htree) (by simp [Spelled.spanAtPlace, spanOf, Cst.entry]), List.append_assoc]
  refine ⟨p.path, rfl, by rw [d.find_place htree]; rfl, ?_⟩
  rw [hsplice]
  exact ⟨d', hvalue⟩

/-- A value for a value: the gate stays open, the document says what it said but for that value, and no other unit of
the text changes. -/
theorem replaceValue_lossless {pointer json : Units} {span : Span} {w : Value ν}
    (h : agreesWithParse e text (indexDocument e text) = [])
    (hspan : spanAt (indexDocument e text) pointer = some span)
    (hw : JsonParse.parse e.number json = some w) (hjson : NoRepeats e.number json) :
    ∃ path v, pointer = pointerOf path ∧ JsonParse.parse e.number text = some v ∧ (v.find path).isSome = true ∧
      agreesWithParse e (replaceValue text (indexDocument e text) pointer json)
        (indexDocument e (replaceValue text (indexDocument e text) pointer json)) = [] ∧
      JsonParse.parse e.number (replaceValue text (indexDocument e text) pointer json) = some (v.update (fun _ => w) path) ∧
      replaceValue text (indexDocument e text) pointer json =
        text.take span.valueStart ++ json ++ text.drop span.valueEnd := by
  obtain ⟨d⟩ := spelled_of_agrees e h
  obtain ⟨j⟩ := (spelled_iff e).mpr ⟨⟨w, hw⟩, hjson⟩
  rw [j.parse_eq e, Option.some.injEq] at hw
  subst hw
  obtain ⟨path, rfl, hfind, d', hvalue⟩ := d.replaceValue_value hspan j
  refine ⟨path, d.value e, rfl, d.parse_eq e, hfind, agrees_of_spelled e d', ?_, ?_⟩
  · rw [d'.parse_eq e, hvalue]
  · rw [replaceValue, hspan]

namespace Sample

/-- Numbers as their literals. -/
def engine : Engine (Option Units) where
  number l := if numberForm l then some l else none
  isNaN n := n.isNone
  same a b := a.isSome && a == b
  syntaxError _ := wordText "SyntaxError"
  number_literal h := by rw [if_pos h]; rfl
  same_self {n} h := by
    cases n with
    | none => cases h
    | some l => simp

def document : Units := wordText "\x7b \"a\": [1 , true],\t\"b/c\" : \x7b\x7d \x7d"

def spanOfFirst : Span := ⟨wordText "/a/0", 8, 9, 8, 9⟩

theorem document_agrees : agreesWithParse engine document (indexDocument engine document) = [] := by decide +kernel

theorem document_first : spanAt (indexDocument engine document) (wordText "/a/0") = some spanOfFirst := by decide +kernel

theorem noRepeats_empty : NoRepeats engine.number (wordText "{}") := by
  intro v hv
  have hparse : (everyMember engine.number).parse (wordText "{}") = some (.obj []) := rfl
  rw [hparse] at hv
  cases hv
  exact ⟨List.nodup_nil, trivial⟩

end Sample

theorem replaceValue_lossless_sample : ∃ path v, wordText "/a/0" = pointerOf path ∧
    JsonParse.parse Sample.engine.number Sample.document = some v ∧ (v.find path).isSome = true ∧
    agreesWithParse Sample.engine (replaceValue Sample.document (indexDocument Sample.engine Sample.document)
        (wordText "/a/0") (wordText "{}"))
      (indexDocument Sample.engine (replaceValue Sample.document (indexDocument Sample.engine Sample.document)
        (wordText "/a/0") (wordText "{}"))) = [] ∧
    JsonParse.parse Sample.engine.number (replaceValue Sample.document (indexDocument Sample.engine Sample.document)
      (wordText "/a/0") (wordText "{}")) = some (v.update (fun _ => .obj []) path) ∧
    replaceValue Sample.document (indexDocument Sample.engine Sample.document) (wordText "/a/0") (wordText "{}") =
      Sample.document.take 8 ++ wordText "{}" ++ Sample.document.drop 9 :=
  replaceValue_lossless Sample.document_agrees Sample.document_first (w := .obj []) rfl Sample.noRepeats_empty

/-! ## One member is removed -/

theorem filter_layout (l : Layout) : l.1.filter (fun u => !isLayout u) = [] := by
  rw [List.filter_eq_nil_iff]
  intro u hu
  rw [List.all_eq_true.mp l.2 u hu]
  exact Bool.false_ne_true

/-- The range that goes with a member, and what is left of its container. -/
theorem removedRange_spec (d : Spelled text) {p : Place} {f : Frame} {k : Cst} (h : d.tree = (p ++ [f]).plug k) {span : Span}
    (hstart : span.memberStart = (d.pre.1 ++ (Place.head p ++ f.head)).length)
    (hend : span.memberEnd = (d.pre.1 ++ (Place.head p ++ f.head)).length + (f.label ++ k.text).length) :
    ∃ start stop, removedRange text span = (start, stop) ∧
      text.take start ++ text.drop stop = (d.pre.1 ++ Place.head p) ++ (f.without.text ++ (Place.tail p ++ d.post.1)) ∧
      start ≤ span.memberStart ∧ span.memberEnd ≤ stop ∧
      ((slice text start span.memberStart ++ slice text span.memberEnd stop).filter (fun u => !isLayout u) = [] ∨
        (slice text start span.memberStart ++ slice text span.memberEnd stop).filter (fun u => !isLayout u) = [unit ',']) := by
  have htext := d.text_member h
  obtain ⟨a, y, hhead, hy, hfirst, hcomma⟩ := f.head_split
  obtain ⟨z, b, htail, hz, hlast, hmore⟩ := f.tail_split
  generalize hM : f.label ++ k.text = M at htext hend
  generalize hB : Place.tail p ++ d.post.1 = B at htext ⊢
  generalize hP : d.pre.1 ++ Place.head p = P at ⊢
  have hA : d.pre.1 ++ (Place.head p ++ f.head) = (P ++ a) ++ y :: f.pre.1 := by
    rw [hhead, ← hP]
    simp
  rw [hA] at htext hstart hend
  rw [htail] at htext
  have hbefore : layoutBefore text span.memberStart = f.pre.1.length :=
    layoutBefore_eq (a := P ++ a) (r := M ++ ((f.post.1 ++ z :: b) ++ B)) (by rw [htext]; simp) hy hstart
  obtain ⟨hafter, hz?⟩ := layoutAfter_eq (t := text) (a := ((P ++ a) ++ y :: f.pre.1) ++ M) (r := b ++ B) (l := f.post)
    (by rw [htext]; simp) hz (show span.memberEnd = _ by rw [hend]; exact List.length_append.symm)
  have hS : span.memberStart = P.length + a.length + 1 + f.pre.1.length := by
    rw [hstart]
    simp only [List.length_append, List.length_cons]
    omega
  have hE : span.memberEnd = P.length + a.length + 1 + f.pre.1.length + M.length := by
    rw [hend, ← hstart, hS]
  have hlayoutStart : span.memberStart - layoutBefore text span.memberStart = P.length + a.length + 1 := by
    rw [hbefore, hS]
    omega
  have hback : text[P.length + a.length + 1 - 1]? = some y :=
    getElem?_mid (a := P ++ a) (htext.trans (List.append_assoc ..)) (by rw [Nat.add_sub_cancel, List.length_append])
  unfold removedRange
  simp only [hlayoutStart, hafter, hz?, hback]
  by_cases hr : f.right = []
  · obtain ⟨rfl, rfl⟩ := hlast hr
    have hne : ¬ some f.closes = some (unit ',') := by
      cases f
      · exact (by decide : ¬ some (unit ']') = some (unit ','))
      · exact (by decide : ¬ some (unit '\x7d') = some (unit ','))
    rw [if_neg hne]
    by_cases hl : f.left = []
    · obtain ⟨rfl, rfl⟩ := hfirst hl
      have hopen : ¬ (0 < P.length + ([] : Units).length + 1 ∧ some f.opens = some (unit ',')) := by
        cases f
        · exact fun h => absurd h.2 (by decide : ¬ some (unit '[') = some (unit ','))
        · exact fun h => absurd h.2 (by decide : ¬ some (unit '\x7b') = some (unit ','))
      rw [if_neg hopen]
      refine ⟨_, _, rfl, ?_, ?_, Nat.le_refl _, Or.inl ?_⟩
      · rw [take_mid (a := P ++ [f.opens]) (b := f.pre.1 ++ M) (c := (f.post.1 ++ f.closes :: []) ++ B)
          (by rw [htext]; simp) (by simp), drop_mid (a := P ++ [f.opens]) (b := f.pre.1 ++ M)
            (c := (f.post.1 ++ f.closes :: []) ++ B) (by rw [htext]; simp)
            (by simp only [hE, List.length_append, List.length_cons, List.length_nil]; omega), f.text_without_only hr hl, htail]
        simp
      · rw [hS]
        omega
      · rw [slice_mid (a := P ++ [f.opens]) (b := f.pre.1) (c := M ++ ((f.post.1 ++ f.closes :: []) ++ B))
          (by rw [htext]; simp) (by simp)
          (by simp only [hS, List.length_append, List.length_cons, List.length_nil]),
          slice_mid (a := (P ++ f.opens :: f.pre.1) ++ M) (b := []) (c := (f.post.1 ++ f.closes :: []) ++ B)
          (by rw [htext]; simp) (by simp only [hE, List.length_append, List.length_cons, List.length_nil]; omega)
          (by simp only [hE, List.length_append, List.length_cons, List.length_nil]; omega), List.append_nil, filter_layout]
    · have hyc := hcomma hl
      subst hyc
      rw [if_pos ⟨Nat.succ_pos _, rfl⟩]
      refine ⟨_, _, rfl, ?_, ?_, Nat.le_refl _, Or.inr ?_⟩
      · rw [take_mid (a := P ++ a) (b := unit ',' :: (f.pre.1 ++ M)) (c := (f.post.1 ++ f.closes :: []) ++ B)
          (by rw [htext]; simp) (by simp), drop_mid (a := P ++ a) (b := unit ',' :: (f.pre.1 ++ M))
            (c := (f.post.1 ++ f.closes :: []) ++ B) (by rw [htext]; simp)
            (by simp only [hE, List.length_append, List.length_cons]; omega), f.text_without_last hr hl hhead, htail]
        simp
      · rw [hS]
        omega
      · rw [slice_mid (a := P ++ a) (b := unit ',' :: f.pre.1) (c := M ++ ((f.post.1 ++ f.closes :: []) ++ B))
          (by rw [htext]; simp) (by simp) (by simp only [hS, List.length_append, List.length_cons]; omega),
          slice_mid (a := ((P ++ a) ++ unit ',' :: f.pre.1) ++ M) (b := []) (c := (f.post.1 ++ f.closes :: []) ++ B)
          (by rw [htext]; simp) (by simp only [hE, List.length_append, List.length_cons]; omega)
          (by simp only [hE, List.length_append, List.length_cons, List.length_nil]; omega), List.append_nil,
          List.filter_cons_of_pos (by decide), filter_layout]
  · have hzc := hmore hr
    subst hzc
    rw [if_pos rfl]
    refine ⟨_, _, rfl, ?_, ?_, ?_, Or.inr ?_⟩
    · rw [take_mid (a := (P ++ a) ++ [y]) (b := f.pre.1 ++ (M ++ (f.post.1 ++ [unit ',']))) (c := b ++ B)
        (by rw [htext]; simp) (by simp only [List.length_append, List.length_cons, List.length_nil]),
        drop_mid (a := (P ++ a) ++ [y]) (b := f.pre.1 ++ (M ++ (f.post.1 ++ [unit ',']))) (c := b ++ B) (by rw [htext]; simp)
          (by simp only [hE, List.length_append, List.length_cons, List.length_nil]; omega),
        f.text_without_right hr hhead htail]
      simp
    · rw [hS]
      omega
    · omega
    · rw [slice_mid (a := (P ++ a) ++ [y]) (b := f.pre.1) (c := M ++ ((f.post.1 ++ unit ',' :: b) ++ B))
        (by rw [htext]; simp) (by simp only [List.length_append, List.length_cons, List.length_nil])
        (by simp only [hS, List.length_append, List.length_cons, List.length_nil]),
        slice_mid (a := ((P ++ a) ++ y :: f.pre.1) ++ M) (b := f.post.1 ++ [unit ',']) (c := b ++ B)
          (by rw [htext]; simp) (by simp only [hE, List.length_append, List.length_cons]; omega)
          (by simp only [hE, List.length_append, List.length_cons, List.length_nil]; omega), List.filter_append,
        List.filter_append, filter_layout, filter_layout]
      rfl

/-- What a removal leaves: the container without the member. -/
theorem Spelled.removeMember_spec (d : Spelled text) {p : Place} {f : Frame} {k : Cst} (h : d.tree = (p ++ [f]).plug k)
    (hroot : pointerOf (p.path ++ [f.step]) ≠ []) :
    ∃ span start stop, spanAt (indexDocument e text) (pointerOf (p.path ++ [f.step])) = some span ∧
      removeMember text (indexDocument e text) (pointerOf (p.path ++ [f.step])) = text.take start ++ text.drop stop ∧
      text.take start ++ text.drop stop = (d.pre.1 ++ Place.head p) ++ (f.without.text ++ (Place.tail p ++ d.post.1)) ∧
      start ≤ span.memberStart ∧ span.memberEnd ≤ stop ∧
      ((slice text start span.memberStart ++ slice text span.memberEnd stop).filter (fun u => !isLayout u) = [] ∨
        (slice text start span.memberStart ++ slice text span.memberEnd stop).filter (fun u => !isLayout u) = [unit ',']) := by
  obtain ⟨span, hspan, -, hstart, hend⟩ := d.spanAt_member (e := e) h
  obtain ⟨start, stop, hrange, htext, hle, hle', hlayout⟩ := removedRange_spec d h hstart hend
  refine ⟨span, start, stop, hspan, ?_, htext, hle, hle', hlayout⟩
  rw [removeMember, hspan]
  simp only [if_neg hroot, hrange]

/-- The container without the member, and what the document says then. -/
theorem Spelled.put_without (d : Spelled text) {p : Place} {f : Frame} {k : Cst} (h : d.tree = (p ++ [f]).plug k) :
    ∃ (htree : d.tree = Place.plug p (f.plug k)) (hwithout : f.without.Distinct),
      (d.put htree hwithout).value e = (d.value e).update (Value.removeChild f.step) (Place.path p) := by
  have htree : d.tree = Place.plug p (f.plug k) := by rw [h, Place.plug_append]; rfl
  have hd := d.distinct
  rw [htree] at hd
  have hapart := Frame.apart_of_distinct (Place.distinct_of_plug hd)
  exact ⟨htree, Frame.distinct_without (Place.distinct_of_plug hd),
    d.value_put htree _ (Frame.value_without e.number hapart k)⟩

/-- The text without a member. -/
theorem Spelled.removeMember_value (d : Spelled text) {path : List Units} {x : Units}
    (hfind : ((d.value e).find (path ++ [x])).isSome = true) :
    ∃ d' : Spelled (removeMember text (indexDocument e text) (pointerOf (path ++ [x]))),
      d'.value e = (d.value e).update (Value.removeChild x) path := by
  obtain ⟨w, hw⟩ := Option.isSome_iff_exists.mp hfind
  obtain ⟨q, k, htree, hq, -⟩ := (d.tree.find_value e.number (path ++ [x]) d.distinct).mp hw
  rcases List.eq_nil_or_concat q with rfl | ⟨p, f, rfl⟩
  · exact absurd hq.symm (by simp [Place.path])
  rw [List.concat_eq_append] at htree hq
  rw [Place.path, List.map_append, List.map_singleton] at hq
  obtain ⟨rfl, hstep⟩ := List.append_inj' hq rfl
  have hx : f.step = x := List.singleton_inj.mp hstep
  subst hx
  have hroot : pointerOf (Place.path p ++ [f.step]) ≠ [] := by
    rw [pointerOf, Pointers.pointer_concat]
    simp
  obtain ⟨_, _, _, _, hresult, htext, _⟩ := d.removeMember_spec (e := e) htree hroot
  obtain ⟨htree', hwithout, hvalue⟩ := d.put_without (e := e) htree
  have hsame := hresult.trans htext
  rw [Place.path] at hsame
  rw [hsame]
  exact ⟨d.put htree' hwithout, hvalue⟩

/-- The layouts in front of all members are those recorded with them. -/
theorem Spelled.map_leadingLayout (d : Spelled text) (keep : Span → Bool) :
    ((indexDocument e text).spans.filter keep).map (fun s => leadingLayout text s.memberStart) =
      (d.entries.filter fun x => keep (spanOf x)).map Entry.lead := by
  rw [d.index_eq e]
  show ((d.entries.map spanOf).filter keep).map _ = _
  rw [List.filter_map, List.map_map]
  exact List.map_congr_left fun x hx => d.leadingLayout_entry (List.mem_of_mem_filter hx)

/-- A member goes with its layout and at most one comma; the others stay in their order, each with the layout that was in
front of it. -/
theorem removeMember_one {pointer : Units} {span : Span} (h : agreesWithParse e text (indexDocument e text) = [])
    (hspan : spanAt (indexDocument e text) pointer = some span) (hroot : pointer ≠ []) :
    ∃ path x v, pointer = pointerOf (path ++ [x]) ∧ JsonParse.parse e.number text = some v ∧
      (v.find (path ++ [x])).isSome = true ∧
      agreesWithParse e (removeMember text (indexDocument e text) pointer)
        (indexDocument e (removeMember text (indexDocument e text) pointer)) = [] ∧
      JsonParse.parse e.number (removeMember text (indexDocument e text) pointer) =
        some (v.update (Value.removeChild x) path) ∧
      (∃ start stop, removeMember text (indexDocument e text) pointer = text.take start ++ text.drop stop ∧
        start ≤ span.memberStart ∧ span.memberEnd ≤ stop ∧
        ((slice text start span.memberStart ++ slice text span.memberEnd stop).filter (fun u => !isLayout u) = [] ∨
          (slice text start span.memberStart ++ slice text span.memberEnd stop).filter (fun u => !isLayout u) =
            [unit ','])) ∧
      (indexDocument e (removeMember text (indexDocument e text) pointer)).spans.map (fun s =>
          leadingLayout (removeMember text (indexDocument e text) pointer) s.memberStart) =
        ((indexDocument e text).spans.filter fun s => !Pointers.under pointer s.pointer).map fun s =>
          leadingLayout text s.memberStart := by
  obtain ⟨d⟩ := spelled_of_agrees e h
  obtain ⟨q, k, htree, rfl, rfl⟩ := d.place_of_spanAt hspan
  rcases List.eq_nil_or_concat q with rfl | ⟨p, f, rfl⟩
  · exact absurd rfl hroot
  rw [List.concat_eq_append] at *
  have hpath : Place.path (p ++ [f]) = Place.path p ++ [f.step] := by simp [Place.path]
  rw [hpath] at hspan hroot ⊢
  obtain ⟨span, start, stop, hspan', hresult, htext, hle, hle', hlayout⟩ := d.removeMember_spec (e := e) htree hroot
  rw [hspan, Option.some.injEq] at hspan'
  subst hspan'
  obtain ⟨htree', hwithout, hvalue⟩ := d.put_without (e := e) htree
  have hd := d.distinct
  rw [htree'] at hd
  have hapart := Frame.apart_of_distinct (Place.distinct_of_plug hd)
  generalize removeMember text (indexDocument e text) (pointerOf (Place.path p ++ [f.step])) = result at hresult ⊢
  have hspelled := hresult.trans htext
  subst hspelled
  refine ⟨Place.path p, f.step, d.value e, rfl, d.parse_eq e, ?_, agrees_of_spelled e (d.put htree' hwithout), ?_,
    ⟨start, stop, hresult, hle, hle', hlayout⟩, ?_⟩
  · rw [← hpath, d.find_place htree]
    rfl
  · rw [(d.put htree' hwithout).parse_eq e, hvalue]
  · have hnew := (d.put htree' hwithout).map_leadingLayout (e := e) fun _ => true
    rw [List.filter_true, List.filter_true] at hnew
    have hold := d.map_leadingLayout (e := e) fun s => !Pointers.under (pointerOf (Place.path p ++ [f.step])) s.pointer
    rw [hnew, hold]
    have hunder : d.entries.filter (fun x => !Pointers.under (pointerOf (Place.path p ++ [f.step])) (spanOf x).pointer) =
        outsideOf ([] ++ Place.path p ++ [f.step]) d.entries := by
      rw [List.nil_append]
      exact List.filter_congr fun x _ => by rw [spanOf, pointerOf, pointerOf, Pointers.under_pointer]
    have hleads := Place.leads_plug p hd (Frame.leads_without hapart k) [] d.pre.1.length d.pre.1.length
      d.pre.1
    have hold' : (outsideOf ([] ++ Place.path p ++ [f.step]) d.entries).map Entry.lead =
        (Place.plug p f.without).leads d.pre.1 := by
      show (outsideOf _ (d.tree.entries [] d.pre.1.length d.pre.1.length d.pre.1)).map Entry.lead = _
      rw [htree']
      exact hleads
    rw [hunder, hold']
    exact Cst.map_lead_entries _ _ _ _ _

end

theorem removeMember_one_sample : ∃ path x v, wordText "/a/0" = pointerOf (path ++ [x]) ∧
    JsonParse.parse Sample.engine.number Sample.document = some v ∧ (v.find (path ++ [x])).isSome = true ∧
    JsonParse.parse Sample.engine.number
      (removeMember Sample.document (indexDocument Sample.engine Sample.document) (wordText "/a/0")) =
        some (v.update (Value.removeChild x) path) := by
  obtain ⟨path, x, v, hpointer, hparse, hfind, -, hresult, -⟩ :=
    removeMember_one Sample.document_agrees Sample.document_first (by decide)
  exact ⟨path, x, v, hpointer, hparse, hfind, hresult⟩

end DocumentText

end Desk
