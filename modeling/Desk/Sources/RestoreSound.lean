import Desk.Lib.Run
import Desk.Sources.Ledger

/-!
# Saved sources are restored

A checkpoint's sources give back the ledger they were saved from exactly where no
excerpt is shorter than a quote may be: an excerpt found by folding is found again,
as it stands in the text, where it was.
-/

namespace Desk

namespace Sources

open Verify

/-! ## An excerpt is found again -/

theorem isSpace_blank : isSpace (unit ' ') = true := by decide

/-- A found quote is a part of the text, trimmed, which is found where it is as long as a quote may be. -/
theorem locate_again {text quote : Units} {a b : Nat} (h : locate text quote = .ok (a, b)) :
    trim isSpace (slice text a b) = slice text a b ∧
      (quoteLength ≤ (slice text a b).length → locate text (slice text a b) = .ok (a, b)) := by
  have hagain : ∀ pre part post, text = pre ++ (part ++ post) → Bounded isSpace part →
      indexOf part text = some pre.length → (pre.length, pre.length + part.length) = (a, b) → trim isSpace (slice text a b) = slice text a b ∧
        (quoteLength ≤ (slice text a b).length → locate text (slice text a b) = .ok (a, b)) := by
    intro pre part post htext hbounded hindex heq
    cases heq
    have hslice : slice text pre.length (pre.length + part.length) = part := by
      rw [slice, htext, Nat.add_sub_cancel_left, List.drop_left, List.take_left]
    rw [hslice, locate, trim_of_bounded hbounded, hindex]
    exact ⟨rfl, fun hlong => if_neg (Nat.not_lt.mpr hlong)⟩
  unfold locate at h
  dsimp only at h
  split at h
  · cases h
  · next hlong =>
    have hne : trim isSpace quote ≠ [] := fun hnil => by
      rw [hnil] at hlong
      exact hlong (by decide)
    have hbounded := bounded_trim hne
    cases hindex : indexOf (trim isSpace quote) text with
    | some start =>
      rw [hindex] at h
      obtain ⟨pre, post, htext, rfl⟩ := indexOf_split hindex
      exact hagain pre _ post htext hbounded hindex (Except.ok.inj h)
    | none =>
      rw [hindex] at h
      dsimp only at h
      split at h
      · cases h
      · next k hk =>
        obtain ⟨pre, part, post, htext, hpart, -, hfirst, hstart, hstop⟩ :=
          indexOf_fold isSpace_blank (bounded_squeeze hbounded) hk
        refine hagain pre part post htext hpart hfirst ?_
        have hpos := hpart.length_pos
        have h := Except.ok.inj h
        rw [placeOf, placeOf, hstart, hstop] at h
        rw [← h]
        simp only [Option.getD_some, Prod.mk.injEq, true_and]
        omega

/-- A quote that is too short once it is trimmed is refused. -/
theorem locate_short (text : Units) {quote : Units} (h : (trim isSpace quote).length < quoteLength) :
    ∃ why, locate text quote = .error why := ⟨_, if_pos h⟩

/-! ## Records that are reached -/

section
variable {H D : Type}

/-- An excerpt of a text. -/
structure Excerpt.Of (e : Excerpt) (text : Units) : Prop where
  slice : e.text = Sources.slice text e.start e.stop
  trimmed : trim isSpace e.text = e.text
  again : quoteLength ≤ e.text.length → locate text e.text = .ok (e.start, e.stop)

theorem Excerpt.of_locate {text quote : Units} {start stop : Nat} (h : locate text quote = .ok (start, stop))
    (id source : Units) : (⟨id, source, start, stop, Sources.slice text start stop⟩ : Excerpt).Of text :=
  ⟨rfl, (locate_again h).1, (locate_again h).2⟩

def Excerpt.place (e : Excerpt) : Nat × Nat := (e.start, e.stop)

/-- The excerpts of a record are numbered, and no two are of one place. -/
structure Cited (id text : Units) (excerpts : List Excerpt) : Prop where
  each : ∀ e ∈ excerpts, e.sourceId = id ∧ e.Of text
  numbered : excerpts.map Excerpt.id = (List.range excerpts.length).map fun i => excerptId id (i + 1)
  apart : (excerpts.map Excerpt.place).Nodup

theorem Cited.nil (id text : Units) : Cited id text [] := ⟨nofun, rfl, List.nodup_nil⟩

/-- What the dialect of a record's request reads out of a response. -/
def ReadBy (dialects : Dialects H D) (r : SourceRecord H D) (response : Response) (hits : Option H)
    (document : Option (ReadDocument D)) : Prop :=
  acquire response.text = some response ∧
    dialects.read r.kind r.request.dialect response.result = some (hits, document)

structure SourceRecord.Ok (dialects : Dialects H D) (r : SourceRecord H D) : Prop where
  unsettled : r.response = none → r.acquisition = none ∧ r.hits = none ∧ r.document = none
  settled : ∀ response, r.response = some response → r.failure = none ∧ r.acquisition = summarize response.receipt ∧
    ReadBy dialects r response r.hits r.document
  cited : match r.document with
    | some document => Cited r.id document.text r.excerpts
    | none => r.excerpts = []

structure Inv (dialects : Dialects H D) (l : Ledger H D) : Prop where
  ids : l.records.map SourceRecord.id = (List.range l.records.length).map fun i => sourceId (i + 1)
  each : ∀ r ∈ l.records, r.Ok dialects

theorem sourceId_injective {m n : Nat} (h : sourceId m = sourceId n) : m = n := by
  have h := List.append_cancel_left h
  rw [← digitsValue_natText m, h, digitsValue_natText]

theorem Inv.nodup {dialects : Dialects H D} {l : Ledger H D} (h : Inv dialects l) :
    (l.records.map SourceRecord.id).Nodup := by
  rw [h.ids]
  exact List.nodup_range.map fun i j hij => Nat.succ.inj (sourceId_injective hij)

/-- A record is settled once, and a response by what the dialect of its request reads. -/
def Settles (dialects : Dialects H D) (l : Ledger H D) : Act H D → Prop
  | .settle id (.failure _) => ∀ r, l.byId id = some r → r.response = none ∧ r.failure = none
  | .settle id (.response response hits document) => ∀ r, l.byId id = some r →
    r.response = none ∧ r.failure = none ∧ ReadBy dialects r response hits document
  | _ => True

/-! ## Every step -/

theorem byId_eq_some {l : Ledger H D} {id : Units} {r : SourceRecord H D} (h : l.byId id = some r) :
    r ∈ l.records ∧ r.id = id := by
  have hid : (r.id == id) = true := List.find?_some (p := fun r : SourceRecord H D => r.id == id) h
  exact ⟨List.mem_of_find?_eq_some h, eq_of_beq hid⟩

theorem Inv.byId {dialects : Dialects H D} {l : Ledger H D} (h : Inv dialects l) {r : SourceRecord H D}
    (hr : r ∈ l.records) : l.byId r.id = some r := by
  cases hfind : l.byId r.id with
  | none =>
    have hnot := List.find?_eq_none.mp hfind r hr
    exact absurd (beq_self_eq_true r.id) hnot
  | some found =>
    obtain ⟨hfound, hid⟩ := byId_eq_some hfind
    rw [List.inj_on_of_nodup_map h.nodup hfound hr hid]

/-- One record is changed, and keeps its id. -/
theorem Inv.update {dialects : Dialects H D} {l : Ledger H D} (h : Inv dialects l) {id : Units}
    {f : SourceRecord H D → SourceRecord H D} (hid : ∀ r, (f r).id = r.id)
    (hok : ∀ r, l.byId id = some r → r.Ok dialects → (f r).Ok dialects) : Inv dialects (l.update id f) where
  ids := by
    have hsame : (l.update id f).records.map SourceRecord.id = l.records.map SourceRecord.id := by
      rw [Ledger.update, List.map_map]
      refine List.map_congr_left fun r _ => ?_
      show (if r.id = id then f r else r).id = r.id
      split
      · exact hid r
      · rfl
    have hlength : (l.update id f).records.length = l.records.length := List.length_map _
    rw [hsame, hlength]
    exact h.ids
  each r hr := by
    obtain ⟨old, hold, rfl⟩ := List.mem_map.mp hr
    split
    · next heq => exact hok old (heq ▸ h.byId hold) (h.each old hold)
    · exact h.each old hold

theorem Inv.openRecord {dialects : Dialects H D} {l : Ledger H D} (h : Inv dialects l) (kind : Kind) (request : Request)
    (now : Int) : Inv dialects (l.openRecord kind request now).1 where
  ids := by
    simp only [Ledger.openRecord, List.map_append, List.map_cons, List.map_nil, List.length_append, List.length_cons,
      List.length_nil, Nat.zero_add, List.range_succ, h.ids]
  each r hr := by
    rcases List.mem_append.mp hr with hold | hnew
    · exact h.each r hold
    · rw [List.mem_singleton.mp hnew]
      exact ⟨fun _ => ⟨rfl, rfl, rfl⟩, nofun, rfl⟩

theorem ok_settled {dialects : Dialects H D} {r : SourceRecord H D} (h : r.Ok dialects) (hresponse : r.response = none)
    (hfailure : r.failure = none) {response : Response} {hits : Option H} {document : Option (ReadDocument D)}
    (hread : ReadBy dialects r response hits document) : (r.settled (.response response hits document)).Ok dialects := by
  obtain ⟨-, hhits, hdocument⟩ := h.unsettled hresponse
  have hexcerpts : r.excerpts = [] := by
    have hcited := h.cited
    rw [hdocument] at hcited
    exact hcited
  refine ⟨nofun, fun response' heq => ?_, ?_⟩
  · cases heq
    refine ⟨hfailure, rfl, ?_⟩
    show ReadBy dialects r response (hits.or r.hits) (document.or r.document)
    rw [hhits, hdocument, Option.or_none, Option.or_none]
    exact hread
  · show match document.or r.document with
      | some document => Cited r.id document.text r.excerpts
      | none => r.excerpts = []
    rw [hdocument, Option.or_none, hexcerpts]
    cases document with
    | none => rfl
    | some document => exact Cited.nil r.id document.text

theorem inv_settle {dialects : Dialects H D} {l : Ledger H D} (h : Inv dialects l) {id : Units} {outcome : Outcome H D}
    (hsettles : Settles dialects l (.settle id outcome)) : Inv dialects ((l.settle id outcome).getD l) := by
  unfold Ledger.settle
  split
  · cases outcome with
    | failure failure =>
      refine h.update (fun _ => rfl) fun r hr hok => ?_
      obtain ⟨hresponse, -⟩ := hsettles r hr
      exact ⟨hok.unsettled, fun response heq => absurd (hresponse.symm.trans heq) nofun, hok.cited⟩
    | response response hits document =>
      refine h.update (fun _ => rfl) fun r hr hok => ?_
      obtain ⟨hresponse, hfailure, hread⟩ := hsettles r hr
      exact ok_settled hok hresponse hfailure hread
  · exact h

/-- An excerpt at a new place is added. -/
theorem Cited.append {id text : Units} {excerpts : List Excerpt} (h : Cited id text excerpts) {quote : Units}
    {start stop : Nat} (hfound : locate text quote = .ok (start, stop))
    (hnew : excerpts.find? (fun e => e.start == start && e.stop == stop) = none) :
    Cited id text (excerpts ++ [⟨excerptId id (excerpts.length + 1), id, start, stop, slice text start stop⟩]) where
  each e he := by
    rcases List.mem_append.mp he with hold | hlast
    · exact h.each e hold
    · rw [List.mem_singleton.mp hlast]
      exact ⟨rfl, Excerpt.of_locate hfound _ _⟩
  numbered := by
    simp only [List.map_append, List.map_cons, List.map_nil, List.length_append, List.length_cons, List.length_nil,
      Nat.zero_add, List.range_succ, h.numbered]
  apart := by
    rw [List.map_append, List.nodup_append]
    refine ⟨h.apart, List.nodup_singleton _, fun place hplace place' hplace' heq => ?_⟩
    obtain ⟨e, he, rfl⟩ := List.mem_map.mp hplace
    rw [List.mem_singleton.mp hplace'] at heq
    have hnot := List.find?_eq_none.mp hnew e he
    obtain ⟨hstart, hstop⟩ := Prod.mk.inj heq
    rw [hstart, hstop] at hnot
    exact hnot (by rw [beq_self_eq_true, beq_self_eq_true, Bool.and_self])

theorem inv_cite {dialects : Dialects H D} {l : Ledger H D} (h : Inv dialects l) {id quote : Units} {e : Excerpt}
    {l' : Ledger H D} (hcite : l.cite id quote = .ok (e, l')) : Inv dialects l' := by
  unfold Ledger.cite at hcite
  split at hcite
  · cases hcite
  · next record hrecord =>
    split at hcite
    · next document hkind hdocument =>
      split at hcite
      · cases hcite
      · next start stop hfound =>
        split at hcite
        · cases hcite
          exact h
        · next hnew =>
          cases hcite
          refine h.update (fun _ => rfl) fun r hr hok => ?_
          cases hrecord.symm.trans hr
          refine ⟨hok.unsettled, hok.settled, ?_⟩
          have hcited := hok.cited
          have hid := (byId_eq_some hrecord).2
          rw [hdocument] at hcited
          subst hid
          show match record.document with
            | some document => Cited record.id document.text _
            | none => _
          rw [hdocument]
          exact hcited.append hfound hnew
    · cases hcite

theorem inv_step {dialects : Dialects H D} (l : Ledger H D) (act : Act H D) (h : Inv dialects l)
    (hsettles : Settles dialects l act) : Inv dialects (step l act) := by
  cases act with
  | openSession id => exact ⟨h.ids, h.each⟩
  | openRecord kind request now => exact h.openRecord kind request now
  | settle id outcome => exact inv_settle h hsettles
  | cite id quote =>
    rw [step]
    split
    · next hcite => exact inv_cite h hcite
    · exact h
  | verified id verification =>
    exact h.update (fun _ => rfl) fun r _ hok => ⟨hok.unsettled, hok.settled, hok.cited⟩

theorem run_inv {dialects : Dialects H D} (session : Units) {as : List (Act H D)}
    (h : Along step (Settles dialects) (.empty session) as) : Inv dialects (run step (.empty session) as) :=
  run_invariant_along (P := Inv dialects) inv_step ⟨rfl, fun _ hr => absurd hr List.not_mem_nil⟩ h

/-! ## Restoring one source -/

/-- A record as it is restored: unverified, and interrupted where it was not settled. -/
def SourceRecord.restored (r : SourceRecord H D) : SourceRecord H D :=
  { r with
    verification := .unchecked
    failure := if r.response.isNone && r.failure.isNone then some interrupted else r.failure }

/-- The response with every salt the text has. -/
def Response.resalted (response : Response) : Response :=
  { response with salts := ((parseJsonText response.text).map saltsOf).getD [] }

def SourceRecord.rebuilt (r : SourceRecord H D) : SourceRecord H D :=
  { r.restored with response := r.response.map Response.resalted }

section
variable {pre : List (SourceRecord H D)} {r : SourceRecord H D} {session : Units}

theorem byId_last (hfresh : ∀ p ∈ pre, p.id ≠ r.id) : (⟨pre ++ [r], session⟩ : Ledger H D).byId r.id = some r := by
  have hnone : pre.find? (fun p => p.id == r.id) = none :=
    List.find?_eq_none.mpr fun p hp heq => hfresh p hp (eq_of_beq heq)
  rw [Ledger.byId, List.find?_append, hnone, Option.none_or]
  exact List.find?_cons_of_pos (beq_self_eq_true r.id)

theorem update_last (hfresh : ∀ p ∈ pre, p.id ≠ r.id) (f : SourceRecord H D → SourceRecord H D) :
    (⟨pre ++ [r], session⟩ : Ledger H D).update r.id f = ⟨pre ++ [f r], session⟩ := by
  have hpre : pre.map (fun p => if p.id = r.id then f p else p) = pre :=
    (List.map_congr_left fun p hp => if_neg (hfresh p hp)).trans (List.map_id' pre)
  rw [Ledger.update, List.map_append, hpre, List.map_singleton, if_pos rfl]

theorem settle_last (hfresh : ∀ p ∈ pre, p.id ≠ r.id) (outcome : Outcome H D) :
    (⟨pre ++ [r], session⟩ : Ledger H D).settle r.id outcome = some ⟨pre ++ [r.settled outcome], session⟩ := by
  rw [Ledger.settle, byId_last hfresh, update_last hfresh]
  rfl

/-- The next excerpt in order is cited again as it was. -/
theorem cite_last (hfresh : ∀ p ∈ pre, p.id ≠ r.id) {document : ReadDocument D} (hkind : r.kind = .page)
    (hdocument : r.document = some document) {e : Excerpt} {rest : List Excerpt}
    (hcited : Cited r.id document.text (r.excerpts ++ e :: rest)) (hlong : quoteLength ≤ e.text.length) :
    (⟨pre ++ [r], session⟩ : Ledger H D).cite r.id e.text =
      .ok (e, ⟨pre ++ [{ r with excerpts := r.excerpts ++ [e] }], session⟩) := by
  have hmem : e ∈ r.excerpts ++ e :: rest := List.mem_append_right _ List.mem_cons_self
  obtain ⟨hsource, hof⟩ := hcited.each e hmem
  have hnew : r.excerpts.find? (fun x => x.start == e.start && x.stop == e.stop) = none := by
    refine List.find?_eq_none.mpr fun x hx heq => ?_
    have hapart := hcited.apart
    rw [List.map_append, List.nodup_append] at hapart
    rw [Bool.and_eq_true, beq_iff_eq, beq_iff_eq] at heq
    exact hapart.2.2 _ (List.mem_map_of_mem hx) _ List.mem_cons_self (Prod.ext heq.1 heq.2)
  have hid : e.id = excerptId r.id (r.excerpts.length + 1) := by
    have hat := congrArg (·[r.excerpts.length]?) hcited.numbered
    simpa using hat
  have hexcerpt : (⟨excerptId r.id (r.excerpts.length + 1), r.id, e.start, e.stop,
      slice document.text e.start e.stop⟩ : Excerpt) = e := by
    rw [← hid, ← hsource, ← hof.slice]
  unfold Ledger.cite
  rw [byId_last hfresh]
  simp only [hkind, hdocument, hof.again hlong, hnew, hexcerpt, update_last hfresh]

theorem citeAll_last {r : SourceRecord H D} (hfresh : ∀ p ∈ pre, p.id ≠ r.id) {document : ReadDocument D}
    (hkind : r.kind = .page) (hdocument : r.document = some document) {rest : List Excerpt}
    (hcited : Cited r.id document.text (r.excerpts ++ rest)) (hlong : ∀ e ∈ rest, quoteLength ≤ e.text.length) :
    (⟨pre ++ [r], session⟩ : Ledger H D).citeAll r.id (rest.map Excerpt.text) =
      some ⟨pre ++ [{ r with excerpts := r.excerpts ++ rest }], session⟩ := by
  induction rest generalizing r with
  | nil => simp [Ledger.citeAll]
  | cons e rest ih =>
    rw [List.map_cons, Ledger.citeAll, cite_last hfresh hkind hdocument hcited (hlong e List.mem_cons_self)]
    have hnext : r.excerpts ++ e :: rest = (r.excerpts ++ [e]) ++ rest := by simp
    rw [hnext] at hcited ⊢
    exact @ih { r with excerpts := r.excerpts ++ [e] } hfresh hkind hdocument hcited
      fun x hx => hlong x (List.mem_cons_of_mem e hx)

end

/-- Every excerpt is as long as a quote may be. -/
def SourceRecord.Quotable (r : SourceRecord H D) : Prop := ∀ e ∈ r.excerpts, quoteLength ≤ e.text.length

theorem acquire_eq_some {text : Units} {response : Response} (h : acquire text = some response) :
    ∃ parsed, parseJsonText text = some parsed ∧ memberOf parsed "result" = some response.result ∧
      memberOf parsed "receipt" = some response.receipt ∧ response.text = text ∧
      response.salts = (saltsOf parsed).filter fun m => m.1 != protoName := by
  unfold acquire at h
  obtain ⟨parsed, hparsed, h⟩ := Option.bind_eq_some_iff.mp h
  obtain ⟨result, hresult, h⟩ := Option.bind_eq_some_iff.mp h
  obtain ⟨receipt, hreceipt, h⟩ := Option.bind_eq_some_iff.mp h
  cases h
  exact ⟨parsed, hparsed, hresult, hreceipt, rfl, rfl⟩

/-- The record as `openRecord` makes it. -/
def SourceRecord.fresh (r : SourceRecord H D) : SourceRecord H D :=
  { id := r.id, kind := r.kind, session := r.session, requestedAt := r.requestedAt, request := r.request
    response := none, acquisition := none, failure := none, hits := none, document := none
    verification := .unchecked, excerpts := [] }

theorem openRecord_save {r : SourceRecord H D} {pre : List (SourceRecord H D)} (hid : r.id = sourceId (pre.length + 1))
    (session : Units) :
    ((⟨pre, session⟩ : Ledger H D).openSession r.session).openRecord r.kind r.request r.requestedAt =
      (⟨pre ++ [r.fresh], r.session⟩, r.fresh) := by
  simp only [Ledger.openSession, Ledger.openRecord, SourceRecord.fresh, hid]

theorem rebuilt_unsettled {dialects : Dialects H D} {r : SourceRecord H D} (hok : r.Ok dialects)
    (hresponse : r.response = none) : r.rebuilt = r.fresh.settled (.failure (r.failure.getD interrupted)) := by
  obtain ⟨hacquisition, hhits, hdocument⟩ := hok.unsettled hresponse
  have hcited := hok.cited
  rw [hdocument] at hcited
  have hexcerpts : r.excerpts = [] := hcited
  unfold SourceRecord.rebuilt SourceRecord.restored SourceRecord.fresh SourceRecord.settled
  cases hfailure : r.failure with
  | none => simp [hresponse, hacquisition, hhits, hdocument, hexcerpts]
  | some failure => simp [hresponse, hacquisition, hhits, hdocument, hexcerpts]

theorem rebuilt_settled {dialects : Dialects H D} {r : SourceRecord H D} (hok : r.Ok dialects) {response : Response}
    (hresponse : r.response = some response) {parsed : JsonNode} (hparsed : parseJsonText response.text = some parsed) :
    r.rebuilt = { r.fresh.settled (.response ⟨response.text, response.result, response.receipt, saltsOf parsed⟩
      r.hits r.document) with excerpts := r.excerpts } := by
  obtain ⟨hfailure, hacquisition, -⟩ := hok.settled response hresponse
  unfold SourceRecord.rebuilt SourceRecord.restored SourceRecord.fresh SourceRecord.settled
  simp [hresponse, hfailure, hacquisition, Response.resalted, hparsed]

/-- A record that was read and cites nothing is no page. -/
theorem citeAll_settled {dialects : Dialects H D} {r : SourceRecord H D} (hok : r.Ok dialects) (hquotable : r.Quotable)
    {pre : List (SourceRecord H D)} (hfresh : ∀ p ∈ pre, p.id ≠ r.id) {response : Response}
    (hread : dialects.read r.kind r.request.dialect response.result = some (r.hits, r.document)) (response' : Response) :
    (⟨pre ++ [r.fresh.settled (.response response' r.hits r.document)], r.session⟩ : Ledger H D).citeAll r.id
        (r.excerpts.map Excerpt.text) =
      some ⟨pre ++ [{ r.fresh.settled (.response response' r.hits r.document) with excerpts := r.excerpts }],
        r.session⟩ := by
  have hcited := hok.cited
  cases hdocument : r.document with
  | none =>
    rw [hdocument] at hcited
    have hexcerpts : r.excerpts = [] := hcited
    rw [hexcerpts]
    rfl
  | some document =>
    rw [hdocument] at hcited
    have hkind : r.kind = .page := by
      cases hkind : r.kind with
      | page => rfl
      | search =>
        rw [hkind, hdocument, Dialects.read] at hread
        obtain ⟨_, _, hread⟩ := Option.bind_eq_some_iff.mp hread
        obtain ⟨_, _, hread⟩ := Option.bind_eq_some_iff.mp hread
        obtain ⟨-, hnone⟩ := Prod.mk.inj (Option.some.inj hread)
        cases hnone
    exact citeAll_last (r := r.fresh.settled (.response response' r.hits (some document))) hfresh hkind rfl hcited
      hquotable

/-- A saved source is restored after those before it. -/
theorem restoreSource_save {dialects : Dialects H D} {r : SourceRecord H D} (hok : r.Ok dialects) (hquotable : r.Quotable)
    {pre : List (SourceRecord H D)} (hfresh : ∀ p ∈ pre, p.id ≠ r.id) (hid : r.id = sourceId (pre.length + 1))
    (session : Units) : restoreSource dialects ⟨pre, session⟩ r.save = some ⟨pre ++ [r.rebuilt], r.session⟩ := by
  have hopen := openRecord_save hid session
  unfold restoreSource SourceRecord.save
  simp only [hopen]
  cases hresponse : r.response with
  | none =>
    rw [rebuilt_unsettled hok hresponse]
    exact settle_last (r := r.fresh) hfresh _
  | some response =>
    obtain ⟨-, -, hacquire, hread⟩ := hok.settled response hresponse
    obtain ⟨parsed, hparsed, hresult, hreceipt, -, -⟩ := acquire_eq_some hacquire
    rw [rebuilt_settled hok hresponse hparsed]
    have hsettle := @settle_last H D pre r.fresh r.session hfresh
      (.response ⟨response.text, response.result, response.receipt, saltsOf parsed⟩ r.hits r.document)
    simp only [Option.map_some, hparsed, hresult, hreceipt, hread, Option.bind_eq_bind, Option.bind_some, hsettle]
    exact citeAll_settled hok hquotable hfresh hread _

/-! ## Restoring a checkpoint -/

/-- The sources that are left are restored after those that are. -/
theorem restoreSources_save {dialects : Dialects H D} {l : Ledger H D} (h : Inv dialects l)
    (hquotable : ∀ r ∈ l.records, r.Quotable) (done : List (SourceRecord H D)) {rest : List (SourceRecord H D)}
    (hall : l.records = done ++ rest)
    (session : Units) :
    ∃ session', restoreSources dialects ⟨done.map SourceRecord.rebuilt, session⟩ (rest.map SourceRecord.save) =
      some ⟨l.records.map SourceRecord.rebuilt, session'⟩ := by
  induction rest generalizing done session with
  | nil =>
    rw [List.append_nil] at hall
    exact ⟨session, by rw [hall]; rfl⟩
  | cons r rest ih =>
    have hmem : r ∈ l.records := hall ▸ List.mem_append_right done List.mem_cons_self
    have hfresh : ∀ p ∈ done.map SourceRecord.rebuilt, p.id ≠ r.id := by
      intro p hp heq
      obtain ⟨q, hq, rfl⟩ := List.mem_map.mp hp
      have hnodup := h.nodup
      rw [hall, List.map_append, List.nodup_append] at hnodup
      exact hnodup.2.2 _ (List.mem_map_of_mem hq) _ List.mem_cons_self heq
    have hid : r.id = sourceId ((done.map SourceRecord.rebuilt).length + 1) := by
      have hat := congrArg (·[done.length]?) h.ids
      rw [hall] at hat
      simpa using hat
    obtain ⟨session', hrest⟩ := ih (done ++ [r]) (by rw [hall]; simp) r.session
    refine ⟨session', ?_⟩
    rw [List.map_cons, restoreSources, restoreSource_save (h.each r hmem) (hquotable r hmem) hfresh hid session,
      Option.bind_some]
    rw [List.map_append, List.map_singleton] at hrest
    exact hrest

/-- A ledger with an excerpt that is too short is not restored at all. -/
theorem citeAll_short {e : Excerpt} (hshort : (trim isSpace e.text).length < quoteLength) {excerpts : List Excerpt}
    (he : e ∈ excerpts) (l : Ledger H D) (id : Units) : l.citeAll id (excerpts.map Excerpt.text) = none := by
  induction excerpts generalizing l with
  | nil => cases he
  | cons x rest ih =>
    rw [List.map_cons, Ledger.citeAll]
    rcases List.mem_cons.mp he with rfl | hin
    · have hrefused : ∃ why, l.cite id e.text = .error why := by
        unfold Ledger.cite
        split
        · exact ⟨_, rfl⟩
        · split
          · next document _ _ =>
            obtain ⟨why, hwhy⟩ := locate_short document.text hshort
            rw [hwhy]
            exact ⟨why, rfl⟩
          · exact ⟨_, rfl⟩
      obtain ⟨why, hwhy⟩ := hrefused
      rw [hwhy]
    · split
      · rfl
      · exact ih hin _

theorem restoreSource_short {dialects : Dialects H D} {r : SourceRecord H D} (hok : r.Ok dialects) {e : Excerpt}
    (he : e ∈ r.excerpts) (hshort : (trim isSpace e.text).length < quoteLength) (l : Ledger H D) :
    restoreSource dialects l r.save = none := by
  cases hresponse : r.response with
  | none =>
    -- nothing is cited from what was not read
    have hcited := hok.cited
    rw [(hok.unsettled hresponse).2.2] at hcited
    have hexcerpts : r.excerpts = [] := hcited
    rw [hexcerpts] at he
    cases he
  | some response =>
    refine Option.eq_none_iff_forall_ne_some.mpr fun back hback => ?_
    unfold restoreSource SourceRecord.save at hback
    simp only [hresponse, Option.map_some] at hback
    obtain ⟨_, -, hback⟩ := Option.bind_eq_some_iff.mp hback
    obtain ⟨_, -, hback⟩ := Option.bind_eq_some_iff.mp hback
    obtain ⟨_, -, hback⟩ := Option.bind_eq_some_iff.mp hback
    obtain ⟨_, -, hback⟩ := Option.bind_eq_some_iff.mp hback
    obtain ⟨_, -, hback⟩ := Option.bind_eq_some_iff.mp hback
    rw [citeAll_short hshort he] at hback
    cases hback

theorem restoreSources_short {dialects : Dialects H D} {records : List (SourceRecord H D)} {r : SourceRecord H D}
    (hr : r ∈ records) (hok : r.Ok dialects) {e : Excerpt} (he : e ∈ r.excerpts)
    (hshort : (trim isSpace e.text).length < quoteLength) (l : Ledger H D) :
    restoreSources dialects l (records.map SourceRecord.save) = none := by
  induction records generalizing l with
  | nil => cases hr
  | cons x rest ih =>
    rw [List.map_cons, restoreSources]
    rcases List.mem_cons.mp hr with rfl | hin
    · rw [restoreSource_short hok he hshort]
      rfl
    · cases restoreSource dialects l x.save with
      | none => rfl
      | some l' => exact ih hin l'

/-- No salt of the answer is named `__proto__`. -/
def SourceRecord.Assigned (r : SourceRecord H D) : Prop :=
  ∀ response, r.response = some response → ∀ parsed, parseJsonText response.text = some parsed →
    ∀ m ∈ saltsOf parsed, m.1 ≠ protoName

theorem rebuilt_eq_iff {dialects : Dialects H D} {r : SourceRecord H D} (hok : r.Ok dialects) :
    r.rebuilt = r.restored ↔ r.Assigned := by
  have hiff : r.rebuilt = r.restored ↔ r.response.map Response.resalted = r.response :=
    ⟨fun h => congrArg SourceRecord.response h, fun h => by rw [SourceRecord.rebuilt, h]; rfl⟩
  rw [hiff]
  cases hresponse : r.response with
  | none =>
    refine ⟨fun _ response h => ?_, fun _ => rfl⟩
    rw [hresponse] at h
    cases h
  | some response =>
    obtain ⟨-, -, hacquire, -⟩ := hok.settled response hresponse
    obtain ⟨parsed, hparsed, -, -, -, hsalts⟩ := acquire_eq_some hacquire
    have hresalted : response.resalted = { response with salts := saltsOf parsed } := by
      rw [Response.resalted, hparsed]
      rfl
    rw [Option.map_some, hresalted, Option.some.injEq]
    constructor
    · intro heq response' hresponse' parsed' hparsed' m hm
      rw [hresponse] at hresponse'
      cases hresponse'
      cases hparsed.symm.trans hparsed'
      have hall : saltsOf parsed = (saltsOf parsed).filter fun m => m.1 != protoName :=
        (congrArg Response.salts heq).trans hsalts
      rw [hall] at hm
      exact bne_iff_ne.mp (List.mem_filter.mp hm).2
    · intro hassigned
      have hall : (saltsOf parsed).filter (fun m => m.1 != protoName) = saltsOf parsed :=
        List.filter_eq_self.mpr fun m hm => bne_iff_ne.mpr (hassigned response hresponse parsed hparsed m hm)
      rw [← hall, ← hsalts]

end

namespace Sample

def request : Request := ⟨wordText "web", wordText "reader", none, some (wordText "u")⟩

/-- Every result is one page. -/
def dialects : Dialects Unit Unit where
  document _ := some fun _ => some ⟨wordText "so ab c is it", ()⟩
  hits _ := none

def answer : Units := wordText "\x7b\"result\":1,\"receipt\":2\x7d"

def response : Response := (acquire answer).getD ⟨[], .null, .null, []⟩

theorem acquire_answer : acquire answer = some response := by
  have hsome : (acquire answer).isSome = true := by decide +kernel
  obtain ⟨found, hfound⟩ := Option.isSome_iff_exists.mp hsome
  rw [response, hfound, Option.getD_some]

def page : List (Act Unit Unit) :=
  [.openRecord .page request 0,
    .settle (sourceId 1) (.response response none (some ⟨wordText "so ab c is it", ()⟩))]

/-- A quote with a run of blanks that the page has as one. -/
def short : List (Act Unit Unit) := page ++ [.cite (sourceId 1) (wordText "ab     c")]

def long : List (Act Unit Unit) := page ++ [.cite (sourceId 1) (wordText "ab c  is it")]

theorem text_response : response.text = answer := (acquire_eq_some acquire_answer).choose_spec.2.2.2.1

theorem settles_page : Along step (Settles dialects) (.empty []) page := by
  refine ⟨trivial, fun r hr => ?_, trivial⟩
  have hr := List.mem_singleton.mp (byId_eq_some hr).1
  subst hr
  refine ⟨rfl, rfl, ?_, rfl⟩
  rw [text_response]
  exact acquire_answer

theorem settles_cite (quote : Units) : Along step (Settles dialects) (.empty []) (page ++ [.cite (sourceId 1) quote]) :=
  ⟨settles_page.1, settles_page.2.1, trivial, trivial⟩

end Sample

end Sources

end Desk
