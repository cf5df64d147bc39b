import Desk.Policy.Validate

/-!
# The history of a record

A record that passes the validator has one history: its revisions, reviews and
publications in the order of their numbers. Replaying it tracks the latest
revision and the latest review of it, so every publication in it stands on the
review that was current when it was made.
-/

namespace Desk

open Slots

/-! ## The latest revision and its latest review -/

namespace PolicyEvent

def revision? : PolicyEvent → Option PolicyRevision
  | revision item => some item
  | _ => none

def review? : PolicyEvent → Option PolicyReview
  | review item => some item
  | _ => none

def publication? : PolicyEvent → Option PolicyPublication
  | publication item => some item
  | _ => none

end PolicyEvent

def latestRevision (history : List PolicyEvent) : Option PolicyRevision :=
  history.reverse.findSome? PolicyEvent.revision?

/-- The latest review that no revision follows. -/
def latestReview (history : List PolicyEvent) : Option PolicyReview :=
  (history.reverse.takeWhile fun e => e.kind ≠ .revision).findSome? PolicyEvent.review?

@[simp] theorem latestRevision_nil : latestRevision [] = none := rfl

@[simp] theorem latestReview_nil : latestReview [] = none := rfl

@[simp] theorem latestRevision_revision (h : List PolicyEvent) (r : PolicyRevision) :
    latestRevision (h ++ [.revision r]) = some r := by
  simp [latestRevision, List.findSome?_cons, PolicyEvent.revision?]

@[simp] theorem latestRevision_review (h : List PolicyEvent) (v : PolicyReview) :
    latestRevision (h ++ [.review v]) = latestRevision h := by
  simp [latestRevision, List.findSome?_cons, PolicyEvent.revision?]

@[simp] theorem latestRevision_publication (h : List PolicyEvent) (p : PolicyPublication) :
    latestRevision (h ++ [.publication p]) = latestRevision h := by
  simp [latestRevision, List.findSome?_cons, PolicyEvent.revision?]

@[simp] theorem latestReview_revision (h : List PolicyEvent) (r : PolicyRevision) :
    latestReview (h ++ [.revision r]) = none := by
  simp [latestReview]

@[simp] theorem latestReview_review (h : List PolicyEvent) (v : PolicyReview) :
    latestReview (h ++ [.review v]) = some v := by
  simp [latestReview, List.findSome?_cons, PolicyEvent.review?]

@[simp] theorem latestReview_publication (h : List PolicyEvent) (p : PolicyPublication) :
    latestReview (h ++ [.publication p]) = latestReview h := by
  simp [latestReview, List.findSome?_cons, PolicyEvent.review?]

theorem latestRevision_mem {h : List PolicyEvent} {r : PolicyRevision} (hr : latestRevision h = some r) :
    PolicyEvent.revision r ∈ h := by
  obtain ⟨e, he, hre⟩ := List.exists_of_findSome?_eq_some hr
  cases e with
  | revision item => cases hre; exact List.mem_reverse.mp he
  | review item => cases hre
  | publication item => cases hre

theorem latestReview_mem {h : List PolicyEvent} {v : PolicyReview} (hv : latestReview h = some v) :
    PolicyEvent.review v ∈ h := by
  obtain ⟨e, he, hve⟩ := List.exists_of_findSome?_eq_some hv
  cases e with
  | revision item => cases hve
  | review item => cases hve; exact List.mem_reverse.mp ((List.takeWhile_sublist _).subset he)
  | publication item => cases hve

/-! ## The replay tracks them -/

/-- What the replay's variables stand for after `h`. -/
def replayState (h : List PolicyEvent) : Replay where
  currentRevision := ((latestRevision h).map PolicyRevision.id).getD ""
  currentReview := ((latestReview h).map PolicyReview.id).getD ""

theorem replayEvent_snoc {h : List PolicyEvent} {e : PolicyEvent} {s : Replay}
    (he : replayEvent (replayState h) e = some s) : s = replayState (h ++ [e]) := by
  cases e with
  | revision item => cases he; simp [replayState]
  | review item =>
    rw [replayEvent] at he
    split at he
    · cases he
    · cases he; simp [replayState]
  | publication item =>
    rw [replayEvent] at he
    split at he
    · cases he
    · cases he; simp [replayState]

theorem replay_append (xs ys : List (Option PolicyEvent)) (s : Replay) :
    replay (xs ++ ys) s = (replay xs s).bind (replay ys) := by
  induction xs generalizing s with
  | nil => rfl
  | cons x xs ih =>
    cases x with
    | none => rfl
    | some e =>
      rw [List.cons_append, replay, replay, Option.bind_assoc]
      exact Option.bind_congr fun s' _ => ih s'

/-- A replayed row has no empty slot. -/
theorem replay_full {slots : List (Option PolicyEvent)} {s s' : Replay} (h : replay slots s = some s') :
    ∃ history : List PolicyEvent, slots = history.map some := by
  induction slots generalizing s with
  | nil => exact ⟨[], rfl⟩
  | cons x rest ih =>
    cases x with
    | none => cases h
    | some e =>
      rw [replay] at h
      obtain ⟨mid, _, hrest⟩ := Option.bind_eq_some_iff.mp h
      obtain ⟨history, rfl⟩ := ih hrest
      exact ⟨e :: history, rfl⟩

theorem replay_eq (pre : List PolicyEvent) {history : List PolicyEvent} {s : Replay}
    (h : replay (history.map some) (replayState pre) = some s) : s = replayState (pre ++ history) := by
  induction history generalizing pre with
  | nil => cases h; rw [List.append_nil]
  | cons e rest ih =>
    rw [List.map_cons, replay] at h
    obtain ⟨mid, hmid, hrest⟩ := Option.bind_eq_some_iff.mp h
    have hm := replayEvent_snoc hmid
    subst hm
    rw [ih _ hrest, List.append_assoc]
    rfl

/-- At every publication the replay's comparison was with the latest revision and review. -/
theorem replay_at {history pre post : List PolicyEvent} {e : PolicyEvent} {s : Replay}
    (h : replay (history.map some) ⟨"", ""⟩ = some s) (hs : history = pre ++ e :: post) :
    ∃ s', replayEvent (replayState pre) e = some s' := by
  subst hs
  rw [List.map_append, List.map_cons, replay_append] at h
  obtain ⟨mid, hpre, hrest⟩ := Option.bind_eq_some_iff.mp h
  have hm : mid = replayState pre := by
    have := replay_eq [] hpre
    rwa [List.nil_append] at this
  subst hm
  rw [replay] at hrest
  obtain ⟨s', hs', _⟩ := Option.bind_eq_some_iff.mp hrest
  exact ⟨s', hs'⟩

/-! ## The event order and its history -/

/-- `history` is the record's three lists in the order of their numbers. -/
structure IsHistory (record : PolicyStoredRecord) (history : List PolicyEvent) : Prop where
  numbered : Numbered PolicyEvent.sequence history
  parts : ∀ k, record.events k = history.filter (·.kind = k)

theorem mem_eventKinds (k : EventKind) : k ∈ EventKind.all := by cases k <;> decide

theorem kind_of_mem_events {record : PolicyStoredRecord} (k : EventKind) :
    ∀ e ∈ record.events k, e.kind = k := by
  intro e he
  cases k with
  | revision => obtain ⟨_, _, rfl⟩ := List.mem_map.mp he; rfl
  | review => obtain ⟨_, _, rfl⟩ := List.mem_map.mp he; rfl
  | publication => obtain ⟨_, _, rfl⟩ := List.mem_map.mp he; rfl

theorem length_by_kind (history : List PolicyEvent) :
    (history.filter (·.kind = .revision)).length + (history.filter (·.kind = .review)).length +
      (history.filter (·.kind = .publication)).length = history.length := by
  induction history with
  | nil => rfl
  | cons e rest ih =>
    cases e <;> simp only [List.filter_cons, PolicyEvent.kind_revision, PolicyEvent.kind_review,
      PolicyEvent.kind_publication, decide_true, decide_false,
      reduceCtorEq, if_true, Bool.false_eq_true, if_false, List.length_cons] <;> omega

theorem IsHistory.length {record : PolicyStoredRecord} {history : List PolicyEvent} (h : IsHistory record history) :
    history.length = policyEventCount record := by
  rw [← length_by_kind, ← h.parts, ← h.parts, ← h.parts]
  simp [PolicyStoredRecord.events, policyEventCount]

theorem IsHistory.mem_revision {record : PolicyStoredRecord} {history : List PolicyEvent}
    (h : IsHistory record history) {r : PolicyRevision} : .revision r ∈ history ↔ r ∈ record.revisions := by
  have : PolicyEvent.revision r ∈ record.events .revision ↔ PolicyEvent.revision r ∈ history := by
    rw [h.parts, List.mem_filter]; simp
  rw [← this]
  simp [PolicyStoredRecord.events]

theorem IsHistory.mem_review {record : PolicyStoredRecord} {history : List PolicyEvent}
    (h : IsHistory record history) {v : PolicyReview} : .review v ∈ history ↔ v ∈ record.reviews := by
  have : PolicyEvent.review v ∈ record.events .review ↔ PolicyEvent.review v ∈ history := by
    rw [h.parts, List.mem_filter]; simp
  rw [← this]
  simp [PolicyStoredRecord.events]

theorem IsHistory.mem_publication {record : PolicyStoredRecord} {history : List PolicyEvent}
    (h : IsHistory record history) {p : PolicyPublication} : .publication p ∈ history ↔ p ∈ record.publications := by
  have : PolicyEvent.publication p ∈ record.events .publication ↔ PolicyEvent.publication p ∈ history := by
    rw [h.parts, List.mem_filter]; simp
  rw [← this]
  simp [PolicyStoredRecord.events]

theorem fill_record_iff {record : PolicyStoredRecord} {history : List PolicyEvent}
    (hl : history.length = policyEventCount record) :
    fill PolicyEvent.sequence (EventKind.all.map record.events) (List.replicate (policyEventCount record + 1) none) =
      some (none :: history.map some) ↔ IsHistory record history := by
  rw [← hl, fill_iff PolicyEvent.kind EventKind.all (by decide) (fun e => mem_eventKinds e.kind) kind_of_mem_events]
  exact ⟨fun h => ⟨h.1, fun k => h.2 k (mem_eventKinds k)⟩, fun h => ⟨h.numbered, fun k _ => h.parts k⟩⟩

/-- A filled row starts with the empty slot zero, so a row with the other slots full is a history. -/
theorem history_of_fill {record : PolicyStoredRecord} {slots : List (Option PolicyEvent)}
    (hf : fill PolicyEvent.sequence (EventKind.all.map record.events)
      (List.replicate (policyEventCount record + 1) none) = some slots) {history : List PolicyEvent}
    (hh : slots.drop 1 = history.map some) : slots = none :: history.map some ∧ IsHistory record history := by
  obtain ⟨hlen, hholds, hpos⟩ := fill_spec (holds_replicate PolicyEvent.sequence _) hf
  rw [List.length_replicate] at hlen
  have hslots : slots = none :: history.map some := by
    cases slots with
    | nil => cases hlen
    | cons x rest =>
      rw [List.drop_one, List.tail_cons] at hh
      rw [hh]
      congr 1
      cases x with
      | none => rfl
      | some e =>
        obtain ⟨hmem, h0⟩ := (hholds 0 e).mp rfl
        rw [List.nil_append, List.mem_flatten] at hmem
        obtain ⟨l, hl, he⟩ := hmem
        have := (hpos l hl).2 e he
        omega
  refine ⟨hslots, (fill_record_iff ?_).mp (hslots ▸ hf)⟩
  have : (none :: history.map some).length = policyEventCount record + 1 := hslots ▸ hlen
  simpa using this

theorem eventOrder_iff {record : PolicyStoredRecord} :
    validatePolicyEventOrder record = true ↔
      (1 ≤ policyEventCount record ∧ policyEventCount record ≤ policyEventLimit) ∧
        ∃ history, IsHistory record history ∧
          replay (history.map some) ⟨"", ""⟩ = some ⟨record.headRevisionID, record.currentReviewID⟩ ∧
          history.getLast?.map PolicyEvent.at_ = some record.updatedAt := by
  have hlast : ∀ history : List PolicyEvent, 1 ≤ policyEventCount record →
      history.length = policyEventCount record →
      ((none :: history.map some)[policyEventCount record]?).join = history.getLast? := by
    intro history hpos hl
    obtain ⟨n, hn⟩ : ∃ n, policyEventCount record = n + 1 := ⟨policyEventCount record - 1, by omega⟩
    rw [hn, List.getElem?_cons_succ, List.getElem?_map, List.getLast?_eq_getElem?, hl, hn, Nat.add_sub_cancel]
    cases history[n]? <;> rfl
  unfold validatePolicyEventOrder
  rw [Bool.and_eq_true, decide_eq_true_eq]
  refine and_congr_right fun hcount => ?_
  constructor
  · intro h
    split at h
    · cases h
    · rename_i slots hf
      split at h
      · cases h
      · rename_i s hs
        obtain ⟨history, hh⟩ := replay_full hs
        obtain ⟨rfl, hist⟩ := history_of_fill hf hh
        rw [hlast history hcount.1 hist.length] at h
        simp only [Bool.and_eq_true, beq_iff_eq] at h
        obtain ⟨⟨h₁, h₂⟩, h₃⟩ := h
        refine ⟨history, hist, ?_, h₃.symm⟩
        rw [h₁, h₂]
        exact hs
  · rintro ⟨history, hist, hr, hu⟩
    rw [(fill_record_iff hist.length).mpr hist]
    simp only [List.drop_one, List.tail_cons, hr, hlast history hcount.1 hist.length, hu, beq_self_eq_true, Bool.and_self]

/-! ## What the validator establishes of a record -/

/-- A publication stands on the review that was current when it was made. -/
structure ReviewedPublication (pre : List PolicyEvent) (p : PolicyPublication) (r : PolicyRevision)
    (v : PolicyReview) : Prop where
  revision : latestRevision pre = some r
  review : latestReview pre = some v
  approved : v.decision = .approve
  reviewed : p.reviewID = v.id
  reviewRevision : v.candidateRevisionID = r.id ∧ v.candidateDigest = r.digest ∧ v.workflowDigest = r.workflowDigest
  publishedRevision : p.candidateRevisionID = r.id ∧ p.candidateDigest = r.digest ∧
    p.workflowDigest = r.workflowDigest ∧ p.content = r.content

structure ReviewedHistory (record : PolicyStoredRecord) (history : List PolicyEvent) : Prop where
  total : history.length = policyEventCount record
  numbered : Numbered PolicyEvent.sequence history
  parts : record.revisions = history.filterMap PolicyEvent.revision? ∧
    record.reviews = history.filterMap PolicyEvent.review? ∧
    record.publications = history.filterMap PolicyEvent.publication?
  published : ∀ pre p post, history = pre ++ .publication p :: post → ∃ r v, ReviewedPublication pre p r v
  versions : (record.publications.map PolicyPublication.artifactVersion).Nodup
  independent : ∀ r ∈ record.revisions, r.workflow.independentReviewRequired = true →
    (∀ v ∈ record.reviews, v.candidateRevisionID = r.id → v.decision ≠ .approve) ∧
      ∀ p ∈ record.publications, p.candidateRevisionID ≠ r.id
  head : (latestRevision history).map PolicyRevision.id = some record.headRevisionID
  currentReview : ((latestReview history).map PolicyReview.id).getD "" = record.currentReviewID
  updatedAt : history.getLast?.map PolicyEvent.at_ = some record.updatedAt

/-- The checks of `validatePolicyRecord`, by name. -/
structure RecordValid (id : String) (record : PolicyStoredRecord) : Prop where
  schema : record.schemaVersion = policyRecordSchemaVersion
  ident : record.id = id
  form : policyIDForm id = true
  created : validPolicyTime record.createdAt = true
  updated : validPolicyTime record.updatedAt = true
  nonempty : record.revisions ≠ []
  revisionLimit : record.revisions.length ≤ policyHistoryLimit
  reviewLimit : record.reviews.length ≤ policyHistoryLimit
  publicationLimit : record.publications.length ≤ policyHistoryLimit
  revisions : ∀ r ∈ record.revisions, validPolicyRevision r = true
  revisionIDs : (record.revisions.map PolicyRevision.id).Nodup
  head : (revisionOf record record.headRevisionID).isSome = true
  createdAt : some record.createdAt = record.revisions.head?.map PolicyRevision.at_
  reviews : ∀ v ∈ record.reviews, validPolicyReview record v = true
  reviewIDs : (record.reviews.map PolicyReview.id).Nodup
  current : record.currentReviewID = "" ∨ (policyCurrentReview record).isSome = true
  publications : ∀ p ∈ record.publications, validPolicyPublication record p = true
  publicationIDs : (record.publications.map PolicyPublication.id).Nodup
  versions : (record.publications.map PolicyPublication.artifactVersion).Nodup
  order : validatePolicyEventOrder record = true

theorem recordValid_iff {id : String} {record : PolicyStoredRecord} :
    validatePolicyRecord id record = true ↔ RecordValid id record := by
  unfold validatePolicyRecord
  simp only [Bool.and_eq_true, Bool.or_eq_true, beq_iff_eq, decide_eq_true_eq, Bool.not_eq_true',
    List.isEmpty_eq_false_iff, List.all_eq_true]
  constructor
  · rintro ⟨⟨⟨⟨⟨⟨⟨⟨⟨⟨⟨⟨⟨⟨⟨⟨⟨⟨⟨h₁, h₂⟩, h₃⟩, h₄⟩, h₅⟩, h₆⟩, h₇⟩, h₈⟩, h₉⟩, h₁₀⟩, h₁₁⟩, h₁₂⟩, h₁₃⟩, h₁₄⟩, h₁₅⟩,
      h₁₆⟩, h₁₇⟩, h₁₈⟩, h₁₉⟩, h₂₀⟩
    exact ⟨h₁, h₂, h₃, h₄, h₅, h₆, h₇, h₈, h₉, h₁₀, h₁₁, h₁₂, h₁₃, h₁₄, h₁₅, h₁₆, h₁₇, h₁₈, h₁₉, h₂₀⟩
  · rintro ⟨h₁, h₂, h₃, h₄, h₅, h₆, h₇, h₈, h₉, h₁₀, h₁₁, h₁₂, h₁₃, h₁₄, h₁₅, h₁₆, h₁₇, h₁₈, h₁₉, h₂₀⟩
    exact ⟨⟨⟨⟨⟨⟨⟨⟨⟨⟨⟨⟨⟨⟨⟨⟨⟨⟨⟨h₁, h₂⟩, h₃⟩, h₄⟩, h₅⟩, h₆⟩, h₇⟩, h₈⟩, h₉⟩, h₁₀⟩, h₁₁⟩, h₁₂⟩, h₁₃⟩, h₁₄⟩, h₁₅⟩,
      h₁₆⟩, h₁₇⟩, h₁₈⟩, h₁₉⟩, h₂₀⟩

theorem validPolicyReview_iff {record : PolicyStoredRecord} {v : PolicyReview} :
    validPolicyReview record v = true ↔
      policyEventIDForm v.id = true ∧ hasPrefix v.id "review_" = true ∧
        ∃ r, revisionOf record v.candidateRevisionID = some r ∧ v.candidateDigest = r.digest ∧
          v.workflowDigest = r.workflowDigest ∧
          (v.decision = .approve → r.workflow.independentReviewRequired = false) ∧ len v.comment ≤ 8192 ∧
          validPolicyTime v.at_ = true ∧ validPolicyActor v.actor = true := by
  unfold validPolicyReview
  rw [Bool.and_eq_true, Bool.and_eq_true, and_assoc]
  refine and_congr_right fun _ => and_congr_right fun _ => ?_
  cases revisionOf record v.candidateRevisionID with
  | none => simp
  | some r =>
    simp only [Bool.and_eq_true, beq_iff_eq, decide_eq_true_eq, Bool.not_eq_true', Bool.and_eq_false_iff,
      beq_eq_false_iff_ne, Option.some.injEq, exists_eq_left', and_assoc]
    refine and_congr_right fun _ => and_congr_right fun _ => and_congr_left fun _ => ?_
    exact Decidable.imp_iff_not_or.symm

theorem validPolicyPublication_iff {record : PolicyStoredRecord} {p : PolicyPublication} :
    validPolicyPublication record p = true ↔
      policyEventIDForm p.id = true ∧ hasPrefix p.id "publication_" = true ∧
        ∃ r v, revisionOf record p.candidateRevisionID = some r ∧ reviewOf record p.reviewID = some v ∧
          p.candidateDigest = r.digest ∧ p.workflowDigest = r.workflowDigest ∧ p.content = r.content ∧
          p.artifactVersion ≠ "" ∧ p.artifactVersion = r.artifactVersion ∧ v.decision = .approve ∧
          v.candidateRevisionID = r.id ∧ validPolicyTime p.at_ = true ∧ validPolicyActor p.actor = true := by
  unfold validPolicyPublication
  rw [Bool.and_eq_true, Bool.and_eq_true, and_assoc]
  refine and_congr_right fun _ => and_congr_right fun _ => ?_
  cases revisionOf record p.candidateRevisionID with
  | none => simp
  | some r =>
    cases reviewOf record p.reviewID with
    | none => simp
    | some v =>
      simp only [Bool.and_eq_true, beq_iff_eq, bne_iff_ne, Option.some.injEq, exists_and_left, exists_eq_left', and_assoc]

theorem ne_empty_of_hexForm {pre s : String} {n : Nat} (h : hexForm pre n s = true) (hn : 0 < n) : s ≠ "" := by
  rintro rfl
  simp only [hexForm, Bool.and_eq_true, decide_eq_true_eq] at h
  have := h.1.2
  simp at this
  omega

theorem ne_empty_of_eventIDForm {s : String} (h : policyEventIDForm s = true) : s ≠ "" := by
  simp only [policyEventIDForm, Bool.or_eq_true] at h
  rcases h with (h | h) | h
  · exact ne_empty_of_hexForm h (by decide)
  · exact ne_empty_of_hexForm h (by decide)
  · exact ne_empty_of_hexForm h (by decide)

section
variable {id : String} {record : PolicyStoredRecord} (hv : RecordValid id record)
include hv

theorem RecordValid.revisionOf {x : String} {r : PolicyRevision} :
    revisionOf record x = some r ↔ r ∈ record.revisions ∧ r.id = x := lastWith_eq_some hv.revisionIDs

theorem RecordValid.reviewOf {x : String} {v : PolicyReview} :
    reviewOf record x = some v ↔ v ∈ record.reviews ∧ v.id = x := lastWith_eq_some hv.reviewIDs

/-- No revision that requires independent review is ever approved. -/
theorem RecordValid.not_approved {r : PolicyRevision} (hr : r ∈ record.revisions)
    (hi : r.workflow.independentReviewRequired = true) {v : PolicyReview} (hvm : v ∈ record.reviews)
    (hid : v.candidateRevisionID = r.id) : v.decision ≠ .approve := by
  obtain ⟨_, _, r', hr', _, _, hind, _⟩ := validPolicyReview_iff.mp (hv.reviews v hvm)
  have : r' = r := by
    rw [hid, hv.revisionOf.mpr ⟨hr, rfl⟩] at hr'
    exact (Option.some.inj hr').symm
  intro ha
  rw [this] at hind
  rw [hind ha] at hi
  cases hi

/-- The review and revision a publication names are the latest ones before it. -/
theorem RecordValid.reviewedPublication {history pre post : List PolicyEvent} {p : PolicyPublication} {s : Replay}
    (hist : IsHistory record history) (hr : replay (history.map some) ⟨"", ""⟩ = some s)
    (hs : history = pre ++ .publication p :: post) : ∃ r v, ReviewedPublication pre p r v := by
  have hpm : p ∈ record.publications := hist.mem_publication.mp (by rw [hs]; simp)
  obtain ⟨_, _, r, v, hrev, hrvw, hd, hw, hc, _, _, happ, hcand, _, _⟩ :=
    validPolicyPublication_iff.mp (hv.publications p hpm)
  obtain ⟨hrm, hrid⟩ := hv.revisionOf.mp hrev
  obtain ⟨hvm, hvid⟩ := hv.reviewOf.mp hrvw
  obtain ⟨s', he⟩ := replay_at hr hs
  rw [replayEvent] at he
  split at he
  · cases he
  rename_i hcur
  simp only [replayState, Bool.or_eq_true, bne_iff_ne, not_or, not_not, ne_eq] at hcur
  obtain ⟨hcur₁, hcur₂⟩ := hcur
  have hsub : ∀ e ∈ pre, e ∈ history := fun e he => by rw [hs]; exact List.mem_append_left _ he
  have hne₁ : p.candidateRevisionID ≠ "" := by
    have := hv.revisions r hrm
    simp only [validPolicyRevision, Bool.and_eq_true] at this
    rw [← hrid]
    exact ne_empty_of_eventIDForm this.1.1.1.1.1.1.1.1.1.1
  have hne₂ : p.reviewID ≠ "" := by
    rw [← hvid]
    exact ne_empty_of_eventIDForm (validPolicyReview_iff.mp (hv.reviews v hvm)).1
  cases hlr : latestRevision pre with
  | none => rw [hlr] at hcur₁; exact absurd hcur₁ hne₁
  | some r₀ =>
    cases hlv : latestReview pre with
    | none => rw [hlv] at hcur₂; exact absurd hcur₂ hne₂
    | some v₀ =>
      rw [hlr] at hcur₁
      rw [hlv] at hcur₂
      have hr₀ : r₀ ∈ record.revisions := hist.mem_revision.mp (hsub _ (latestRevision_mem hlr))
      have hv₀ : v₀ ∈ record.reviews := hist.mem_review.mp (hsub _ (latestReview_mem hlv))
      obtain rfl : r₀ = r := key_inj hv.revisionIDs hr₀ hrm (hcur₁.symm.trans hrid.symm)
      obtain rfl : v₀ = v := key_inj hv.reviewIDs hv₀ hvm (hcur₂.symm.trans hvid.symm)
      obtain ⟨_, _, r', hr', hvd, hvw, _, _⟩ := validPolicyReview_iff.mp (hv.reviews v₀ hvm)
      rw [hcand, hv.revisionOf.mpr ⟨hrm, rfl⟩] at hr'
      obtain rfl := Option.some.inj hr'
      exact ⟨r₀, v₀, hlr, hlv, happ, hvid.symm, ⟨hcand, hvd, hvw⟩, ⟨hrid.symm, hd, hw, hc⟩⟩

end

theorem filterMap_map_of_kind {β : Type} (f : PolicyEvent → Option β) (g : β → PolicyEvent) (k : EventKind)
    (hg : ∀ b, (g b).kind = k ∧ f (g b) = some b) (hf : ∀ e, e.kind ≠ k → f e = none) {l : List β}
    {history : List PolicyEvent} (h : l.map g = history.filter (·.kind = k)) : l = history.filterMap f := by
  have h₁ : (l.map g).filterMap f = l := by
    rw [List.filterMap_map]
    exact (List.filterMap_congr fun b _ => (hg b).2).trans List.filterMap_some
  rw [← h₁, h, List.filterMap_filter]
  refine List.filterMap_congr fun e _ => ?_
  by_cases hk : e.kind = k
  · simp [hk]
  · simp [hk, hf e hk]

theorem IsHistory.parts_eq {record : PolicyStoredRecord} {history : List PolicyEvent} (h : IsHistory record history) :
    record.revisions = history.filterMap PolicyEvent.revision? ∧
      record.reviews = history.filterMap PolicyEvent.review? ∧
      record.publications = history.filterMap PolicyEvent.publication? := by
  refine ⟨?_, ?_, ?_⟩
  · refine filterMap_map_of_kind _ .revision .revision (fun _ => ⟨rfl, rfl⟩) (fun e he => ?_) (h.parts .revision)
    cases e <;> first | rfl | exact absurd rfl he
  · refine filterMap_map_of_kind _ .review .review (fun _ => ⟨rfl, rfl⟩) (fun e he => ?_) (h.parts .review)
    cases e <;> first | rfl | exact absurd rfl he
  · refine filterMap_map_of_kind _ .publication .publication (fun _ => ⟨rfl, rfl⟩) (fun e he => ?_) (h.parts .publication)
    cases e <;> first | rfl | exact absurd rfl he

/-- A validated record is one history of reviewed publications. -/
theorem RecordValid.reviewedHistory {id : String} {record : PolicyStoredRecord} (hv : RecordValid id record) :
    ∃ history, ReviewedHistory record history := by
  obtain ⟨_, history, hist, hreplay, hlast⟩ := eventOrder_iff.mp hv.order
  have hstate : (⟨record.headRevisionID, record.currentReviewID⟩ : Replay) = replayState history :=
    replay_eq [] hreplay
  have hhead : record.headRevisionID = ((latestRevision history).map PolicyRevision.id).getD "" :=
    congrArg Replay.currentRevision hstate
  refine ⟨history, hist.length, hist.numbered, hist.parts_eq, ?_, hv.versions, ?_, ?_, ?_, hlast⟩
  · exact fun pre p post hs => hv.reviewedPublication hist hreplay hs
  · intro r hr hi
    refine ⟨fun v hvm hid => hv.not_approved hr hi hvm hid, fun p hp hid => ?_⟩
    obtain ⟨_, _, r', v, hr', hv', _, _, _, _, _, happ, hcand, _⟩ := validPolicyPublication_iff.mp (hv.publications p hp)
    rw [hid, hv.revisionOf.mpr ⟨hr, rfl⟩] at hr'
    obtain rfl := Option.some.inj hr'
    exact hv.not_approved hr hi (hv.reviewOf.mp hv').1 hcand happ
  · obtain ⟨r, hr⟩ := Option.isSome_iff_exists.mp hv.head
    obtain ⟨hrm, hrid⟩ := hv.revisionOf.mp hr
    have hne : record.headRevisionID ≠ "" := by
      have := hv.revisions r hrm
      simp only [validPolicyRevision, Bool.and_eq_true] at this
      rw [← hrid]
      exact ne_empty_of_eventIDForm this.1.1.1.1.1.1.1.1.1.1
    cases hl : latestRevision history with
    | none => rw [hl] at hhead; exact absurd hhead hne
    | some r₀ => rw [hl] at hhead; exact congrArg some hhead.symm
  · exact (congrArg Replay.currentReview hstate).symm

end Desk
