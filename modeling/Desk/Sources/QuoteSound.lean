import Desk.Sources.Quote
import Desk.Sources.RestoreSound

/-!
# A quotation is found where it is

The two ways to map a place in the folded text back to the text agree. A quotation
is found exactly where its folding stands in the folded text, the range found folds
to it, and over every run of the ledger an excerpt is the range its quotation was
found at, numbered within its source and the only one of that range.
-/

namespace Desk

namespace Sources

open Verify

/-! ## The walk over the words -/

section
variable {index length : Nat}

/-- The walk ends in the word of the last unit. -/
theorem walkWords_stop {y : UInt16} (hy : isSpace y = false) {q found : Nat} : ∀ (words : List (Nat × Units)) (cursor : Nat),
    cursor < index + length → (marked (unit ' ') words)[index + length - 1 - cursor]? = some (y, q) →
      walkWords index length cursor (some found) words = some (found, q + 1)
  | [], cursor, _, h => by cases h
  | (place, word) :: rest, cursor, hlt, h => by
    have hstart : ¬ ((some found : Option Nat) = none ∧ cursor ≤ index ∧ index < cursor + word.length) :=
      fun hnone => Option.some_ne_none _ hnone.1
    rw [walkWords, if_neg hstart]
    dsimp only
    rw [marked] at h
    by_cases hword : index + length - 1 - cursor < word.length
    · rw [List.getElem?_append_left (by simpa using hword), List.getElem?_zipIdx] at h
      obtain ⟨u, -, hu⟩ := Option.map_eq_some_iff.mp h
      have hq : place + (index + length - 1 - cursor) = q := (Prod.mk.inj hu).2
      rw [if_pos (by omega)]
      congr 2
      omega
    · rw [List.getElem?_append_right (by simpa using hword), List.length_zipIdx] at h
      obtain ⟨k, hk⟩ : ∃ k, index + length - 1 - cursor - word.length = k := ⟨_, rfl⟩
      rw [hk] at h
      cases k with
      | zero =>
        -- the unit would be the blank after the word
        rw [List.getElem?_cons_zero] at h
        cases h
        rw [isSpace_blank] at hy
        cases hy
      | succ k =>
        rw [if_neg (by omega)]
        refine walkWords_stop hy rest _ (by omega) ?_
        rw [List.getElem?_cons_succ] at h
        rw [← h]
        congr 1
        omega

/-- The walk begins in the word of the first unit. -/
theorem walkWords_start {x y : UInt16} (hx : isSpace x = false) (hy : isSpace y = false) (hlength : 0 < length) {p q : Nat} :
    ∀ (words : List (Nat × Units)) (cursor : Nat), cursor ≤ index →
      (marked (unit ' ') words)[index - cursor]? = some (x, p) →
      (marked (unit ' ') words)[index + length - 1 - cursor]? = some (y, q) →
      walkWords index length cursor none words = some (p, q + 1)
  | [], cursor, _, h, _ => by cases h
  | (place, word) :: rest, cursor, hle, h, hlast => by
    have hfirst := h
    rw [marked] at h
    by_cases hword : index - cursor < word.length
    · -- from here on the walk is one that has begun at this word
      have hwalk : walkWords index length cursor none ((place, word) :: rest) =
          walkWords index length cursor (some (place + index - cursor)) ((place, word) :: rest) := by
        rw [walkWords, walkWords]
        rw [if_pos ⟨rfl, hle, by omega⟩, if_neg fun hnone => Option.some_ne_none _ hnone.1]
      rw [List.getElem?_append_left (by simpa using hword), List.getElem?_zipIdx] at h
      obtain ⟨u, -, hu⟩ := Option.map_eq_some_iff.mp h
      have hp : place + (index - cursor) = p := (Prod.mk.inj hu).2
      rw [hwalk, walkWords_stop hy _ cursor (by omega) hlast]
      congr 2
      omega
    · rw [List.getElem?_append_right (by simpa using hword), List.length_zipIdx] at h
      obtain ⟨k, hk⟩ : ∃ k, index - cursor - word.length = k := ⟨_, rfl⟩
      rw [hk] at h
      cases k with
      | zero =>
        rw [List.getElem?_cons_zero] at h
        cases h
        rw [isSpace_blank] at hx
        cases hx
      | succ k =>
        have hstart : ¬ ((none : Option Nat) = none ∧ cursor ≤ index ∧ index < cursor + word.length) := by
          rintro ⟨-, -, hin⟩
          omega
        rw [marked, List.getElem?_append_right (by rw [List.length_zipIdx]; omega), List.length_zipIdx,
          show index + length - 1 - cursor - word.length = (k + length - 1) + 1 by omega,
          List.getElem?_cons_succ] at hlast
        rw [walkWords, if_neg hstart]
        rw [List.getElem?_cons_succ] at h
        refine walkWords_start hx hy hlength rest _ (by omega) ?_ ?_
        · rw [← h]
          congr 1
          omega
        · rw [← hlast]
          congr 1
          omega

end

/-- The ends of a bounded pattern in what is folded. -/
theorem ends_of_split {folded : List (UInt16 × Nat)} {pat pre post : Units} (h : Bounded isSpace pat)
    (hsplit : folded.map Prod.fst = pre ++ (pat ++ post)) :
    ∃ x p y q, folded[pre.length]? = some (x, p) ∧ isSpace x = false ∧
      folded[pre.length + pat.length - 1]? = some (y, q) ∧ isSpace y = false := by
  have hpos := h.length_pos
  obtain ⟨x, y, hhead, hlast, hx, hy⟩ := h
  have hfirst : (folded.map Prod.fst)[pre.length]? = some x := by
    rw [hsplit, List.getElem?_append_right le_rfl, Nat.sub_self, List.getElem?_append_left hpos, ← List.head?_eq_getElem?]
    exact hhead
  have hend : (folded.map Prod.fst)[pre.length + pat.length - 1]? = some y := by
    rw [hsplit, List.getElem?_append_right (by omega), List.getElem?_append_left (by omega),
      show pre.length + pat.length - 1 - pre.length = pat.length - 1 by omega, ← List.getLast?_eq_getElem?]
    exact hlast
  rw [List.getElem?_map] at hfirst hend
  obtain ⟨⟨_, p⟩, hp, rfl⟩ := Option.map_eq_some_iff.mp hfirst
  obtain ⟨⟨_, q⟩, hq, rfl⟩ := Option.map_eq_some_iff.mp hend
  exact ⟨_, p, _, q, hp, hx, hq, hy⟩

/-- The walk over the words finds the places that the folding kept. -/
theorem walkWords_eq {text pat : Units} (h : Bounded isSpace pat) {k : Nat}
    (hk : indexOf pat ((fold isSpace (unit ' ') true 0 text).map Prod.fst) = some k) :
    walkWords k pat.length 0 none (wordsOf isSpace text) =
      some (placeOf (fold isSpace (unit ' ') true 0 text) k,
        placeOf (fold isSpace (unit ' ') true 0 text) (k + pat.length - 1) + 1) := by
  obtain ⟨pre, post, hsplit, rfl⟩ := indexOf_split hk
  obtain ⟨x, p, y, q, hfirst, hx, hlast, hy⟩ := ends_of_split h hsplit
  have hmarked : fold isSpace (unit ' ') true 0 text <+: marked (unit ' ') (wordsOf isSpace text) := fold_words text
  have hkept : ∀ {i : Nat} {e : UInt16 × Nat}, (fold isSpace (unit ' ') true 0 text)[i]? = some e →
      (marked (unit ' ') (wordsOf isSpace text))[i]? = some e := by
    intro i e hi
    obtain ⟨rest, hrest⟩ := hmarked
    obtain ⟨hlt, -⟩ := List.getElem?_eq_some_iff.mp hi
    rw [← hrest, List.getElem?_append_left hlt]
    exact hi
  rw [walkWords_start hx hy h.length_pos _ 0 (Nat.zero_le _) (hkept hfirst) (hkept hlast), placeOf, placeOf, hfirst, hlast]
  rfl

/-! ## The range of a quotation -/

theorem locate_eq (text : Units) {quote : Units} (h : quoteLength ≤ (trim isSpace quote).length) :
    locate text quote = match literalRange text quote with
      | some range => .ok range
      | none => .error (wordText "the quote is not in the source text as written; quote it exactly") := by
  have hne : trim isSpace quote ≠ [] := fun hnil => by
    rw [hnil] at h
    exact absurd h (by decide)
  have hbounded : Bounded isSpace (squeeze isSpace (unit ' ') (trim isSpace quote)) := bounded_squeeze (bounded_trim hne)
  rw [locate, literalRange]
  dsimp only
  rw [if_neg (Nat.not_lt.mpr h), if_neg hne, indexOf_folded isSpace_blank hbounded]
  cases indexOf (trim isSpace quote) text with
  | some start => rfl
  | none =>
    dsimp only
    cases hk : indexOf (squeeze isSpace (unit ' ') (trim isSpace quote)) ((fold isSpace (unit ' ') true 0 text).map Prod.fst) with
    | none => rfl
    | some k =>
      dsimp only
      rw [walkWords_eq hbounded hk]

/-- The text with every run of whitespace as one space, and none at the ends. -/
def foldText (text : Units) : Units := folded isSpace (unit ' ') text

theorem foldText_trim (quote : Units) : foldText quote = squeeze isSpace (unit ' ') (trim isSpace quote) :=
  folded_trim isSpace_blank quote

/-- The range is a part of the text that folds to the quotation: its first place, where it stands in the text itself. -/
structure Found (text quote : Units) (start stop : Nat) : Prop where
  nonempty : start < stop
  within : stop ≤ text.length
  folds : foldText (slice text start stop) = foldText quote
  first : ∀ pre post, text = pre ++ (trim isSpace quote ++ post) →
    start ≤ pre.length ∧ slice text start stop = trim isSpace quote

theorem slice_part (pre part post : Units) :
    slice (pre ++ (part ++ post)) pre.length (pre.length + part.length) = part := by
  rw [slice, Nat.add_sub_cancel_left, List.drop_left, List.take_left]

theorem found_of_part {text quote pre part post : Units} (htext : text = pre ++ (part ++ post)) (hpart : Bounded isSpace part)
    (hfold : squeeze isSpace (unit ' ') part = squeeze isSpace (unit ' ') (trim isSpace quote))
    (hfirst : ∀ pre' post', text = pre' ++ (trim isSpace quote ++ post') → pre.length ≤ pre'.length ∧ part = trim isSpace quote) :
    Found text quote pre.length (pre.length + part.length) := by
  have hslice : slice text pre.length (pre.length + part.length) = part := by
    rw [htext]
    exact slice_part pre part post
  refine ⟨Nat.lt_add_of_pos_right hpart.length_pos, ?_, ?_, ?_⟩
  · rw [htext, List.length_append, List.length_append]
    omega
  · rw [hslice, foldText_trim, foldText_trim, trim_of_bounded hpart, hfold]
  · rw [hslice]
    exact hfirst

theorem literalRange_found {text quote : Units} {start stop : Nat} (h : literalRange text quote = some (start, stop)) :
    Found text quote start stop := by
  rw [literalRange] at h
  dsimp only at h
  split at h
  · cases h
  · next hne =>
    have hbounded := bounded_trim hne
    cases hindex : indexOf (trim isSpace quote) text with
    | some exact_ =>
      rw [hindex] at h
      cases h
      obtain ⟨pre, post, htext, rfl⟩ := indexOf_split hindex
      exact found_of_part htext hbounded rfl fun pre' post' heq => ⟨indexOf_first hindex heq, rfl⟩
    | none =>
      rw [hindex] at h
      dsimp only at h
      rw [indexOf_folded isSpace_blank (bounded_squeeze hbounded)] at h
      split at h
      · cases h
      · next k hk =>
        rw [walkWords_eq (bounded_squeeze hbounded) hk] at h
        obtain ⟨pre, part, post, htext, hpart, hfold, -, hstart, hstop⟩ :=
          indexOf_fold isSpace_blank (bounded_squeeze hbounded) hk
        have hpos := hpart.length_pos
        have hrange : (pre.length, pre.length + part.length) = (start, stop) := by
          rw [placeOf, placeOf, hstart, hstop] at h
          rw [← Option.some.inj h]
          simp only [Option.getD_some, Prod.mk.injEq, true_and]
          omega
        cases hrange
        refine found_of_part htext hpart hfold fun pre' post' heq => ?_
        -- the quotation does not stand in the text itself
        exact absurd ⟨pre', post', by rw [heq, List.append_assoc]⟩ (indexOf_eq_none_iff.mp hindex)

theorem literalRange_isSome {text quote : Units} :
    (literalRange text quote).isSome = true ↔ trim isSpace quote ≠ [] ∧ foldText quote <:+: foldText text := by
  rw [literalRange, foldText_trim]
  dsimp only
  split
  · next hnil => exact ⟨fun h => (by cases h), fun h => absurd hnil h.1⟩
  · next hne =>
    have hbounded := bounded_trim hne
    cases hindex : indexOf (trim isSpace quote) text with
    | some exact_ =>
      obtain ⟨pre, post, htext, -⟩ := indexOf_split hindex
      refine ⟨fun _ => ⟨hne, ?_⟩, fun _ => rfl⟩
      rw [htext]
      exact folded_infix isSpace_blank hbounded pre post
    | none =>
      dsimp only
      cases hk : indexOf (squeeze isSpace (unit ' ') (trim isSpace quote)) (folded isSpace (unit ' ') text) with
      | none => exact ⟨fun h => (by cases h), fun h => absurd h.2 (indexOf_eq_none_iff.mp hk)⟩
      | some k =>
        have hstands : squeeze isSpace (unit ' ') (trim isSpace quote) <:+: foldText text := by
          obtain ⟨pre, post, htext, -⟩ := indexOf_split hk
          exact ⟨pre, post, by rw [foldText, htext, List.append_assoc]⟩
        rw [indexOf_folded isSpace_blank (bounded_squeeze hbounded)] at hk
        dsimp only
        rw [walkWords_eq (bounded_squeeze hbounded) hk]
        exact ⟨fun _ => ⟨hne, hstands⟩, fun _ => rfl⟩

theorem literalRange_trim (text quote : Units) : literalRange text (trim isSpace quote) = literalRange text quote := by
  have htrim : trim isSpace (trim isSpace quote) = trim isSpace quote := by
    by_cases hnil : trim isSpace quote = []
    · rw [hnil]
      rfl
    · exact trim_of_bounded (bounded_trim hnil)
  rw [literalRange, literalRange, htrim]

/-- A range of the quotation itself, else of the quotation without one balanced pair of marks. -/
theorem quoteRange_eq (text quote : Units) :
    quoteRange text quote = (literalRange text quote).or
      (if wrapped (trim isSpace quote) then literalRange text (unwrap (trim isSpace quote)) else none) := by
  rw [quoteRange, literalRange_trim]
  cases literalRange text quote <;> rfl

theorem wrapped_eq {trimmed : Units} (h : wrapped trimmed = true) :
    ∃ first last, (first, last) ∈ pairs ∧ trimmed = first :: (unwrap trimmed ++ [last]) := by
  rw [wrapped, Bool.and_eq_true, decide_eq_true_eq, beq_iff_eq] at h
  obtain ⟨hlong, hpair⟩ := h
  cases trimmed with
  | nil => exact absurd hlong (by decide)
  | cons first rest =>
    rcases List.eq_nil_or_concat rest with rfl | ⟨inner, last, rfl⟩
    · rw [List.length_singleton] at hlong
      omega
    · rw [List.concat_eq_append, ← List.cons_append, List.getLast?_concat] at hpair
      obtain ⟨pre, post, hpairs, -⟩ := List.lookup_eq_some_iff.mp hpair
      refine ⟨first, last, ?_, by simp [unwrap]⟩
      rw [hpairs]
      exact List.mem_append_right _ (List.mem_cons_self ..)

/-! ## The excerpts of a run -/

section
variable {H D : Type}

/-- The document of a source is read once. -/
def ReadsOnce (l : Ledger H D) : Act H D → Prop
  | .settle id (.response _ _ (some _)) => ∀ r, l.byId id = some r → r.document = none
  | _ => True

/-- The excerpts of a record are of its document. -/
def SourceRecord.Quotes (r : SourceRecord H D) : Prop :=
  match r.document with
  | some document => Cited r.id document.text r.excerpts
  | none => r.excerpts = []

def Quoted (l : Ledger H D) : Prop := ∀ id r, l.byId id = some r → r.Quotes

/-- What one step makes of a record: nothing of what it quotes, a document that is read, or an excerpt more. -/
inductive Moved (act : Act H D) (r r' : SourceRecord H D) : Prop where
  | kept (hid : r'.id = r.id) (hdocument : r'.document = r.document) (hexcerpts : r'.excerpts = r.excerpts)
  | read (response : Response) (hits : Option H) (document : ReadDocument D)
      (hact : act = .settle r.id (.response response hits (some document))) (hid : r'.id = r.id)
      (hdocument : r'.document = some document) (hexcerpts : r'.excerpts = r.excerpts)
  | cited (document : ReadDocument D) (quote : Units) (start stop : Nat) (hid : r'.id = r.id)
      (hfrom : r.document = some document) (hdocument : r'.document = some document)
      (hfound : locate document.text quote = .ok (start, stop))
      (hnew : r.excerpts.find? (fun e => e.start == start && e.stop == stop) = none)
      (hexcerpts : r'.excerpts = r.excerpts ++
        [⟨excerptId r.id (r.excerpts.length + 1), r.id, start, stop, slice document.text start stop⟩])

theorem byId_update (l : Ledger H D) (id : Units) {f : SourceRecord H D → SourceRecord H D} (hid : ∀ r, (f r).id = r.id)
    (id' : Units) : (l.update id f).byId id' = (l.byId id').map fun r => if r.id = id then f r else r := by
  have hsame : ((fun r : SourceRecord H D => r.id == id') ∘ fun r => if r.id = id then f r else r) = fun r => r.id == id' := by
    funext r
    rw [Function.comp_apply]
    split
    · rw [hid]
    · rfl
  rw [Ledger.byId, Ledger.update, List.find?_map, hsame]
  rfl

/-- A citation that is not refused, inverted. -/
theorem cite_eq_ok {l l' : Ledger H D} {id quote : Units} {e : Excerpt} (h : l.cite id quote = .ok (e, l')) :
    ∃ r document, l.byId id = some r ∧ r.kind = .page ∧ r.document = some document ∧
      locate document.text quote = .ok (e.start, e.stop) ∧
      (e ∈ r.excerpts ∧ l' = l ∨
        r.excerpts.find? (fun e' => e'.start == e.start && e'.stop == e.stop) = none ∧
        e = ⟨excerptId id (r.excerpts.length + 1), id, e.start, e.stop, slice document.text e.start e.stop⟩ ∧
        l' = l.update id fun r => { r with excerpts := r.excerpts ++ [e] }) := by
  unfold Ledger.cite at h
  split at h
  · cases h
  · next record hrecord =>
    split at h
    · next document hkind hdocument =>
      split at h
      · cases h
      · next start stop hfound =>
        split at h
        · next existing hexisting =>
          cases h
          have hplace := List.find?_some hexisting
          rw [Bool.and_eq_true, beq_iff_eq, beq_iff_eq] at hplace
          rw [hplace.1, hplace.2]
          exact ⟨record, document, hrecord, hkind, hdocument, hfound, .inl ⟨List.mem_of_find?_eq_some hexisting, rfl⟩⟩
        · next hnew =>
          cases h
          exact ⟨record, document, hrecord, hkind, hdocument, hfound, .inr ⟨hnew, rfl, rfl⟩⟩
    · cases h

/-- A record that is there stays, moved as the step moves it. -/
theorem moved_step (l : Ledger H D) (act : Act H D) {id : Units} {r : SourceRecord H D} (h : l.byId id = some r) :
    ∃ r', (step l act).byId id = some r' ∧ Moved act r r' := by
  have hstays : ∀ (id' : Units) (f : SourceRecord H D → SourceRecord H D), (∀ r, (f r).id = r.id) →
      (r.id = id' → Moved act r (f r)) → ∃ r', (l.update id' f).byId id = some r' ∧ Moved act r r' := by
    intro id' f hid hmoved
    refine ⟨_, by rw [byId_update l id' hid, h, Option.map_some], ?_⟩
    split
    · next heq => exact hmoved heq
    · exact .kept rfl rfl rfl
  cases act with
  | openSession session => exact ⟨r, h, .kept rfl rfl rfl⟩
  | openRecord kind request now =>
    refine ⟨r, ?_, .kept rfl rfl rfl⟩
    have hold : l.records.find? (fun r => r.id == id) = some r := h
    rw [step, Ledger.openRecord, Ledger.byId, List.find?_append, hold, Option.some_or]
  | settle id' outcome =>
    rw [step, Ledger.settle]
    split
    · refine hstays id' (·.settled outcome) (fun r => by cases outcome <;> rfl) fun heq => ?_
      subst heq
      cases outcome with
      | failure failure => exact .kept rfl rfl rfl
      | response response hits document =>
        cases document with
        | none => exact .kept rfl rfl rfl
        | some document => exact .read response hits document rfl rfl rfl rfl
    · exact ⟨r, h, .kept rfl rfl rfl⟩
  | cite id' quote =>
    rw [step]
    split
    · next e l' hcite =>
      obtain ⟨r', document, hr', -, hdocument, hfound, ⟨-, rfl⟩ | ⟨hnew, he, rfl⟩⟩ := cite_eq_ok hcite
      · exact ⟨r, h, .kept rfl rfl rfl⟩
      · refine hstays id' (fun r => { r with excerpts := r.excerpts ++ [e] }) (fun _ => rfl) fun heq => ?_
        have hid := (byId_eq_some h).2
        rw [← heq, hid, h] at hr'
        cases hr'
        rw [← heq] at he
        exact .cited document quote e.start e.stop rfl hdocument hdocument hfound hnew (by rw [← he])
    · exact ⟨r, h, .kept rfl rfl rfl⟩
  | verified id' verification =>
    exact hstays id' ({ · with verification := verification }) (fun _ => rfl) fun _ => .kept rfl rfl rfl

/-- A record that was not there is opened empty. -/
theorem opened_step (l : Ledger H D) (act : Act H D) {id : Units} {r : SourceRecord H D} (h : l.byId id = none)
    (hr : (step l act).byId id = some r) : r.document = none ∧ r.excerpts = [] := by
  have hnone : ∀ (id' : Units) (f : SourceRecord H D → SourceRecord H D), (∀ r, (f r).id = r.id) →
      (l.update id' f).byId id = none := by
    intro id' f hid
    rw [byId_update l id' hid, h, Option.map_none]
  cases act with
  | openSession session => cases h.symm.trans hr
  | openRecord kind request now =>
    rw [step, Ledger.openRecord, Ledger.byId, List.find?_append] at hr
    have hold : l.records.find? (fun r => r.id == id) = none := h
    rw [hold, Option.none_or] at hr
    have hmem := List.mem_of_find?_eq_some hr
    rw [List.mem_singleton.mp hmem]
    exact ⟨rfl, rfl⟩
  | settle id' outcome =>
    rw [step, Ledger.settle] at hr
    split at hr
    · cases (hnone id' (·.settled outcome) (fun r => by cases outcome <;> rfl)).symm.trans hr
    · cases h.symm.trans hr
  | cite id' quote =>
    rw [step] at hr
    split at hr
    · next e l' hcite =>
      obtain ⟨r', document, -, -, -, -, ⟨-, rfl⟩ | ⟨-, -, rfl⟩⟩ := cite_eq_ok hcite
      · cases h.symm.trans hr
      · cases (hnone id' (fun r => { r with excerpts := r.excerpts ++ [e] }) fun _ => rfl).symm.trans hr
    · cases h.symm.trans hr
  | verified id' verification =>
    cases (hnone id' ({ · with verification := verification }) fun _ => rfl).symm.trans hr

theorem quoted_step (l : Ledger H D) (act : Act H D) (h : Quoted l) (hread : ReadsOnce l act) : Quoted (step l act) := by
  intro id r' hr'
  cases hold : l.byId id with
  | none =>
    obtain ⟨hdocument, hexcerpts⟩ := opened_step l act hold hr'
    rw [SourceRecord.Quotes, hdocument]
    exact hexcerpts
  | some r =>
    obtain ⟨r'', hr'', hmoved⟩ := moved_step l act hold
    cases hr'.symm.trans hr''
    have hquotes := h id r hold
    have hid := (byId_eq_some hold).2
    cases hmoved with
    | kept hid hdocument hexcerpts =>
      rw [SourceRecord.Quotes, hid, hdocument, hexcerpts]
      exact hquotes
    | read response hits document hact hsame hdocument hexcerpts =>
      subst hact
      have hnone : r.document = none := hread r (hid ▸ hold)
      rw [SourceRecord.Quotes, hnone] at hquotes
      rw [SourceRecord.Quotes, hdocument, hexcerpts, hquotes]
      exact Cited.nil _ _
    | cited document quote start stop hsame hfrom hdocument hfound hnew hexcerpts =>
      rw [SourceRecord.Quotes, hfrom] at hquotes
      rw [SourceRecord.Quotes, hdocument, hexcerpts, hsame]
      exact hquotes.append hfound hnew

theorem quoted_run {l : Ledger H D} (h : Quoted l) {as : List (Act H D)} (hread : Along step ReadsOnce l as) :
    Quoted (run step l as) :=
  run_invariant_along quoted_step h hread

/-- No excerpt of a record is lost. -/
theorem excerpts_run (l : Ledger H D) (as : List (Act H D)) {id : Units} {r : SourceRecord H D} (h : l.byId id = some r) :
    ∃ r', (run step l as).byId id = some r' ∧ r.excerpts <+: r'.excerpts := by
  induction as generalizing l r with
  | nil => exact ⟨r, h, List.prefix_rfl⟩
  | cons act as ih =>
    obtain ⟨r₁, hr₁, hmoved⟩ := moved_step l act h
    obtain ⟨r₂, hr₂, hgrown⟩ := ih (step l act) hr₁
    refine ⟨r₂, hr₂, List.IsPrefix.trans ?_ hgrown⟩
    cases hmoved with
    | kept _ _ hexcerpts => exact hexcerpts ▸ List.prefix_rfl
    | read _ _ _ _ _ _ hexcerpts => exact hexcerpts ▸ List.prefix_rfl
    | cited _ _ _ _ _ _ _ _ _ hexcerpts =>
      rw [hexcerpts]
      exact List.prefix_append _ _

theorem excerptId_injective (id : Units) {m n : Nat} (h : excerptId id m = excerptId id n) : m = n := by
  have h := List.append_cancel_left (List.append_cancel_left h)
  rw [← digitsValue_natText m, h, digitsValue_natText]

theorem Cited.nodup {id text : Units} {excerpts : List Excerpt} (h : Cited id text excerpts) :
    (excerpts.map Excerpt.id).Nodup := by
  rw [h.numbered]
  exact List.nodup_range.map fun i j hij => Nat.succ.inj (excerptId_injective id hij)

/-- A page that was read is cited where the quotation is located. -/
theorem cite_page {l : Ledger H D} {id : Units} {r : SourceRecord H D} {document : ReadDocument D} (hr : l.byId id = some r)
    (hkind : r.kind = .page) (hdocument : r.document = some document) (quote : Units) :
    (∀ why, locate document.text quote = .error why → l.cite id quote = .error why) ∧
      ∀ start stop, locate document.text quote = .ok (start, stop) →
        ∃ e l', l.cite id quote = .ok (e, l') ∧ e.start = start ∧ e.stop = stop := by
  constructor
  · intro why hwhy
    simp only [Ledger.cite, hr, hkind, hdocument, hwhy]
  · intro start stop hfound
    simp only [Ledger.cite, hr, hkind, hdocument, hfound]
    split
    · next e he =>
      have hplace := List.find?_some he
      rw [Bool.and_eq_true, beq_iff_eq, beq_iff_eq] at hplace
      exact ⟨e, l, rfl, hplace.1, hplace.2⟩
    · exact ⟨_, _, rfl, rfl, rfl⟩

theorem cited_mem {l l' : Ledger H D} {id quote : Units} {e : Excerpt} (h : l.cite id quote = .ok (e, l')) :
    ∃ r, l'.byId id = some r ∧ e ∈ r.excerpts := by
  obtain ⟨r, document, hr, -, -, -, ⟨he, rfl⟩ | ⟨-, -, rfl⟩⟩ := cite_eq_ok h
  · exact ⟨r, hr, he⟩
  · have hupdate := byId_update l id (f := fun r => { r with excerpts := r.excerpts ++ [e] }) (fun _ => rfl) id
    rw [hr, Option.map_some, if_pos (byId_eq_some hr).2] at hupdate
    exact ⟨_, hupdate, List.mem_append_right _ (List.mem_singleton.mpr rfl)⟩

/-- Over one run of the ledger, a range of a source is one excerpt. -/
theorem cite_again {l l' l'' : Ledger H D} (h : Quoted l) {id quote quote' : Units} {e e' : Excerpt}
    (hcite : l.cite id quote = .ok (e, l')) {later : List (Act H D)} (hlater : Along step ReadsOnce l' later)
    (hcite' : (run step l' later).cite id quote' = .ok (e', l'')) (hstart : e'.start = e.start) (hstop : e'.stop = e.stop) :
    e' = e := by
  have hl' : step l (.cite id quote) = l' := by
    rw [step, hcite]
  have hquoted : Quoted (run step l' later) := quoted_run (hl' ▸ quoted_step l (.cite id quote) h trivial) hlater
  obtain ⟨r₁, hr₁, he⟩ := cited_mem hcite
  obtain ⟨r₂, hr₂, hgrown⟩ := excerpts_run l' later hr₁
  have he : e ∈ r₂.excerpts := hgrown.subset he
  obtain ⟨r, document, hr, -, hdocument, -, hplace⟩ := cite_eq_ok hcite'
  cases hr₂.symm.trans hr
  have hcited : Cited r₂.id document.text r₂.excerpts := by
    have hquotes := hquoted id r₂ hr₂
    rwa [SourceRecord.Quotes, hdocument] at hquotes
  rcases hplace with ⟨he', -⟩ | ⟨hnew, -, -⟩
  · exact List.inj_on_of_nodup_map hcited.apart he' he (Prod.ext hstart hstop)
  · have hnot := List.find?_eq_none.mp hnew e he
    rw [hstart, hstop, beq_self_eq_true, beq_self_eq_true] at hnot
    exact absurd rfl hnot

/-- A quotation of a page is refused exactly where its folding does not stand in the folded text. An excerpt is the first
range of its quotation, numbered within its source, the only one of that range, and `quoteRange` finds the same; else
`quoteRange` finds a quotation that is too short to be cited, or one without a balanced pair of marks. -/
theorem quotation_found (session : Units) {as : List (Act H D)} (hread : Along step ReadsOnce (.empty session) as) :
    let l := run step (.empty session) as
    ∀ id r document, l.byId id = some r → r.kind = .page → r.document = some document →
      (∀ quote, quoteLength ≤ (trim isSpace quote).length →
        ((∃ refused, l.cite id quote = .error refused) ↔ ¬ foldText quote <:+: foldText document.text)) ∧
      (∀ quote e l', l.cite id quote = .ok (e, l') →
        Found document.text quote e.start e.stop ∧ e.text = slice document.text e.start e.stop ∧
        quoteRange document.text quote = some (e.start, e.stop) ∧
        ∀ later, Along step ReadsOnce l' later → ∀ quote' e' l'', (run step l' later).cite id quote' = .ok (e', l'') →
          e'.start = e.start → e'.stop = e.stop → e' = e) ∧
      (r.excerpts.map Excerpt.id).Nodup ∧
      ∀ quote start stop, quoteRange document.text quote = some (start, stop) →
        (Found document.text quote start stop ∧ (quoteLength ≤ (trim isSpace quote).length →
          ∃ e l', l.cite id quote = .ok (e, l') ∧ e.start = start ∧ e.stop = stop)) ∨
        (¬ foldText quote <:+: foldText document.text ∧ ∃ opens closes inner, (opens, closes) ∈ pairs ∧
          trim isSpace quote = opens :: (inner ++ [closes]) ∧ Found document.text inner start stop) := by
  intro l id r document hr hkind hdocument
  have hquoted : Quoted l := quoted_run (fun _ _ h => by cases h) hread
  have hcited : Cited r.id document.text r.excerpts := by
    have hquotes := hquoted id r hr
    rwa [SourceRecord.Quotes, hdocument] at hquotes
  have hlocated : ∀ {quote start stop}, locate document.text quote = .ok (start, stop) →
      quoteLength ≤ (trim isSpace quote).length ∧ literalRange document.text quote = some (start, stop) := by
    intro quote start stop hfound
    by_cases hlong : quoteLength ≤ (trim isSpace quote).length
    · refine ⟨hlong, ?_⟩
      rw [locate_eq _ hlong] at hfound
      split at hfound
      · next range hrange =>
        cases hfound
        exact hrange
      · cases hfound
    · obtain ⟨why, hwhy⟩ := locate_short document.text (Nat.not_le.mp hlong)
      cases hwhy.symm.trans hfound
  refine ⟨fun quote hlong => ?_, fun quote e l' hcite => ?_, hcited.nodup, fun quote start stop hrange => ?_⟩
  · have hne : trim isSpace quote ≠ [] := fun hnil => by
      rw [hnil] at hlong
      exact absurd hlong (by decide)
    have hsome : (literalRange document.text quote).isSome = true ↔ _ := literalRange_isSome
    have hlocate := locate_eq document.text hlong
    obtain ⟨herror, hok⟩ := cite_page hr hkind hdocument quote
    cases hliteral : literalRange document.text quote with
    | none =>
      rw [hliteral] at hlocate hsome
      exact ⟨fun _ hstands => absurd (hsome.mpr ⟨hne, hstands⟩) Bool.false_ne_true, fun _ => ⟨_, herror _ hlocate⟩⟩
    | some range =>
      rw [hliteral] at hlocate hsome
      obtain ⟨e, l', hcite, -⟩ := hok range.1 range.2 hlocate
      refine ⟨fun ⟨refused, hrefused⟩ => ?_, fun hnot => absurd (hsome.mp rfl).2 hnot⟩
      cases hcite.symm.trans hrefused
  · obtain ⟨r', document', hr', -, hdocument', hfound, hplace⟩ := cite_eq_ok hcite
    cases hr.symm.trans hr'
    cases hdocument.symm.trans hdocument'
    obtain ⟨-, hliteral⟩ := hlocated hfound
    refine ⟨literalRange_found hliteral, ?_, ?_, fun later hlater quote' e' l'' => cite_again hquoted hcite hlater⟩
    · rcases hplace with ⟨he, -⟩ | ⟨-, he, -⟩
      · exact (hcited.each e he).2.slice
      · rw [he]
    · rw [quoteRange_eq, hliteral, Option.some_or]
  · rw [quoteRange_eq] at hrange
    cases hliteral : literalRange document.text quote with
    | some range =>
      rw [hliteral, Option.some_or] at hrange
      cases hrange
      refine .inl ⟨literalRange_found hliteral, fun hlong => ?_⟩
      have hlocate := locate_eq document.text hlong
      rw [hliteral] at hlocate
      exact (cite_page hr hkind hdocument quote).2 start stop hlocate
    | none =>
      rw [hliteral, Option.none_or] at hrange
      split at hrange
      · next hwrapped =>
        obtain ⟨opens, closes, hpair, htrim⟩ := wrapped_eq hwrapped
        refine .inr ⟨fun hstands => ?_, opens, closes, _, hpair, htrim, literalRange_found hrange⟩
        have hne : trim isSpace quote ≠ [] := by
          rw [htrim]
          exact List.cons_ne_nil _ _
        have hsome := literalRange_isSome.mpr ⟨hne, hstands⟩
        rw [hliteral] at hsome
        cases hsome
      · cases hrange

end

theorem Sample.reads_page : Along step ReadsOnce (.empty []) Sample.page := by
  refine ⟨trivial, fun r hr => ?_, trivial⟩
  rw [List.mem_singleton.mp (byId_eq_some hr).1]

theorem quotation_found_sample :
    let l := run step (.empty []) Sample.page
    (∃ refused, l.cite (sourceId 1) (wordText "ab cc is it") = .error refused) ∧
      ¬ foldText (wordText "ab cc is it") <:+: foldText (wordText "so ab c is it") := by
  intro l
  have hquote : quoteLength ≤ (trim isSpace (wordText "ab cc is it")).length := by decide +kernel
  have hrefused : ∃ refused, l.cite (sourceId 1) (wordText "ab cc is it") = .error refused := ⟨_, by rfl⟩
  obtain ⟨hrefuses, -⟩ := quotation_found [] Sample.reads_page (sourceId 1) _ ⟨wordText "so ab c is it", ()⟩ rfl rfl rfl
  exact ⟨hrefused, (hrefuses _ hquote).mp hrefused⟩

/-- A quotation of fewer than eight characters is refused, and its range is that of the quotation, not of a part of it. -/
theorem short_quotation_found :
    let l := run step (.empty []) Sample.page
    ((l.byId (sourceId 1)).bind SourceRecord.document).map ReadDocument.text = some (wordText "so ab c is it") ∧
      (∃ refused, l.cite (sourceId 1) (wordText "ab c") = .error refused) ∧
      quoteRange (wordText "so ab c is it") (wordText "ab c") = some (3, 7) ∧ wrapped (wordText "ab c") = false :=
  ⟨by rfl, ⟨_, by rfl⟩, by decide +kernel, by decide +kernel⟩

end Sources

end Desk
