import Desk.Evaluation.Journal
import Desk.Lib.Run

/-!
# What an evaluation journal retains

Over any calls, by any callers, what a journal holds keeps what it held before:
its frozen fields, its job and confirmation, its rows and its handoffs.
-/

namespace Desk.Evaluation

/-! ## Continuations -/

section
variable {α : Type} {R : α → α → Prop}

/-- A list that keeps the items of another, each changed as `R` allows, and may add to them. -/
inductive Continues (R : α → α → Prop) : List α → List α → Prop
  | nil (rest : List α) : Continues R [] rest
  | cons {a b : α} {l l' : List α} (head : R a b) (tail : Continues R l l') : Continues R (a :: l) (b :: l')

theorem Continues.refl (h : ∀ a, R a a) : ∀ l, Continues R l l
  | [] => .nil []
  | a :: l => .cons (h a) (Continues.refl h l)

theorem Continues.trans (h : ∀ a b c, R a b → R b c → R a c) {l₁ l₂ : List α} (h₁ : Continues R l₁ l₂) :
    ∀ {l₃}, Continues R l₂ l₃ → Continues R l₁ l₃ := by
  induction h₁ with
  | nil rest =>
    intro l₃ _
    exact .nil l₃
  | cons head tail ih =>
    intro l₃ h₂
    cases h₂ with
    | cons head' tail' => exact .cons (h _ _ _ head head') (ih tail')

end

/-! ## Raw messages -/

namespace RawMessage

/-- What a message says: nil and the text `null` say the same. -/
def value (r : RawMessage) : RawMessage := if r = some "null" then none else r

theorem value_of_marshal {r : RawMessage} {x : String} (h : r.marshal = some x) :
    r.value = if x = "null" then none else some x := by
  cases r with
  | none =>
    obtain rfl : "null" = x := Option.some.inj h
    rfl
  | some text =>
    simp only [marshal] at h
    split_ifs at h
    obtain rfl := Option.some.inj h
    simp [value]

theorem parseChars_nil : Json.parseChars [] = none := rfl

theorem ne_empty_of_parse {text : String} (h : (Json.parseChars text.toList).isSome = true) : text ≠ "" := by
  rintro rfl
  rw [String.toList_empty, parseChars_nil] at h
  cases h

theorem written_of_marshal {r : RawMessage} {x : String} (h : r.marshal = some x) : r.written = some r := by
  cases r with
  | none => rfl
  | some text =>
    have hmarshal := h
    simp only [marshal] at h
    split_ifs at h with hp
    obtain rfl := Option.some.inj h
    have hpresent : present (some text) = true := by simpa [present] using ne_empty_of_parse hp
    rw [written, if_pos hpresent, hmarshal]
    rfl

/-- What is written says the same, less an empty text that is no message at all. -/
theorem written_cases {r r' : RawMessage} (h : r.written = some r') :
    r.present = false ∧ r' = none ∨ r' = r ∧ ∃ x, r.marshal = some x := by
  unfold written at h
  split_ifs at h with hp
  · rw [Option.map_eq_some_iff] at h
    obtain ⟨x, hx, rfl⟩ := h
    refine .inr ⟨?_, x, hx⟩
    cases r with
    | none => cases hp
    | some text =>
      simp only [marshal] at hx
      split_ifs at hx
      exact hx.symm
  · exact .inl ⟨by simpa using hp, (Option.some.inj h).symm⟩

theorem written_written {r r' : RawMessage} (h : r.written = some r') : r'.written = some r' := by
  obtain ⟨-, rfl⟩ | ⟨rfl, -⟩ := written_cases h
  · rfl
  · exact h

/-- Two messages that are written alike say the same once they are written. -/
theorem value_of_same {old r r' : RawMessage} (hsame : sameEvaluationValue old.marshal r.marshal = true)
    (hr : r.written = some r') : r'.value = old.value := by
  unfold sameEvaluationValue at hsame
  split at hsame
  · rename_i x y hx hy
    obtain rfl := of_decide_eq_true hsame
    rw [written_of_marshal hy] at hr
    obtain rfl := Option.some.inj hr
    rw [value_of_marshal hx, value_of_marshal hy]
  · cases hsame

end RawMessage

theorem same_symm {α : Type} [DecidableEq α] {a b : Option α} (h : sameEvaluationValue a b = true) :
    sameEvaluationValue b a = true := by
  unfold sameEvaluationValue at h ⊢
  split at h
  · simpa [eq_comm] using h
  · cases h

theorem eq_of_same {α : Type} [DecidableEq α] {a b : Option α} {x y : α} (h : sameEvaluationValue a b = true)
    (ha : a = some x) (hb : b = some y) : x = y := by
  rw [ha, hb] at h
  exact of_decide_eq_true h

/-! ## Rows -/

/-- What a row keeps. -/
structure RowRetained (old row : InputEvaluationRow) : Prop where
  recordID : row.recordID = old.recordID
  recordDigest : row.recordDigest = old.recordDigest
  eventID : row.eventID = old.eventID
  eventAt : row.eventAt = old.eventAt
  runID : old.runID ≠ "" → row.runID = old.runID
  occurrenceID : old.occurrenceID ≠ "" → row.occurrenceID = old.occurrenceID
  input : row.input.value = old.input.value ∨ row.input.value = none
  terminal : evaluationRowTerminal old.state = true →
    row.state = old.state ∧ row.result.value = old.result.value ∧ row.signing.value = old.signing.value

theorem RowRetained.refl (row : InputEvaluationRow) : RowRetained row row :=
  ⟨rfl, rfl, rfl, rfl, fun _ => rfl, fun _ => rfl, .inl rfl, fun _ => ⟨rfl, rfl, rfl⟩⟩

theorem RowRetained.trans (a b c : InputEvaluationRow) (h : RowRetained a b) (h' : RowRetained b c) : RowRetained a c where
  recordID := h'.recordID.trans h.recordID
  recordDigest := h'.recordDigest.trans h.recordDigest
  eventID := h'.eventID.trans h.eventID
  eventAt := h'.eventAt.trans h.eventAt
  runID hne := by
    have hb := h.runID hne
    exact (h'.runID (hb ▸ hne)).trans hb
  occurrenceID hne := by
    have hb := h.occurrenceID hne
    exact (h'.occurrenceID (hb ▸ hne)).trans hb
  input := by
    obtain hc | hc := h'.input
    · rw [hc]
      exact h.input
    · exact .inr hc
  terminal ht := by
    obtain ⟨hs, hr, hg⟩ := h.terminal ht
    obtain ⟨hs', hr', hg'⟩ := h'.terminal (hs ▸ ht)
    exact ⟨hs'.trans hs, hr'.trans hr, hg'.trans hg⟩

theorem row_written {row row' : InputEvaluationRow} (h : row.written = some row') :
    row.input.written = some row'.input ∧ row.result.written = some row'.result ∧
      row.signing.written = some row'.signing ∧
      row' = { row with input := row'.input, result := row'.result, signing := row'.signing } := by
  unfold InputEvaluationRow.written at h
  obtain ⟨input, hi, h⟩ := Option.bind_eq_some_iff.mp h
  obtain ⟨result, hr, h⟩ := Option.bind_eq_some_iff.mp h
  obtain ⟨signing, hs, h⟩ := Option.bind_eq_some_iff.mp h
  obtain rfl := Option.some.inj h
  exact ⟨hi, hr, hs, rfl⟩

theorem row_written_written {row row' : InputEvaluationRow} (h : row.written = some row') : row'.written = some row' := by
  obtain ⟨hi, hr, hs, -⟩ := row_written h
  simp [InputEvaluationRow.written, RawMessage.written_written hi, RawMessage.written_written hr,
    RawMessage.written_written hs]

theorem inputKept_value {subscribed : Bool} {old row row' : InputEvaluationRow} (h : inputKept subscribed old row = true)
    (hw : row.written = some row') : row'.input.value = old.input.value ∨ row'.input.value = none := by
  obtain ⟨hi, -, -, -⟩ := row_written hw
  simp only [inputKept, Bool.or_eq_true, Bool.and_eq_true, Bool.not_eq_true'] at h
  obtain hsame | ⟨⟨⟨-, habsent⟩, -⟩, -⟩ := h
  · exact .inl (RawMessage.value_of_same hsame hi)
  · right
    rw [RawMessage.written, if_neg (by simp [habsent])] at hi
    rw [← Option.some.inj hi]
    rfl

theorem rowKept_retained {subscribed : Bool} {old row row' : InputEvaluationRow} (h : rowKept subscribed old row = true)
    (hw : row.written = some row') : RowRetained old row' := by
  obtain ⟨-, hr, hs, heq⟩ := row_written hw
  simp only [rowKept, Bool.and_eq_true, Bool.or_eq_true, beq_iff_eq, Bool.not_eq_true'] at h
  obtain ⟨⟨⟨⟨⟨⟨⟨h1, h2⟩, h3⟩, h4⟩, h5⟩, h6⟩, hinput⟩, hterminal⟩ := h
  refine ⟨?_, ?_, ?_, ?_, ?_, ?_, inputKept_value hinput hw, ?_⟩
  · rw [heq]
    exact h1
  · rw [heq]
    exact h2
  · rw [heq]
    exact h3
  · rw [heq]
    exact h4
  · intro hne
    rw [heq]
    exact h5.resolve_left hne
  · intro hne
    rw [heq]
    exact h6.resolve_left hne
  · intro ht
    obtain hno | ⟨⟨hstate, hresult⟩, hsigning⟩ := hterminal
    · rw [ht] at hno
      cases hno
    · refine ⟨?_, RawMessage.value_of_same (same_symm hresult) hr, RawMessage.value_of_same (same_symm hsigning) hs⟩
      rw [heq]
      exact hstate

theorem mapM_cons_some {α β : Type} {f : α → Option β} {a : α} {l : List α} {l' : List β}
    (h : (a :: l).mapM f = some l') : ∃ b rest, f a = some b ∧ l.mapM f = some rest ∧ l' = b :: rest := by
  rw [List.mapM_cons] at h
  obtain ⟨b, hb, h⟩ := Option.bind_eq_some_iff.mp h
  obtain ⟨rest, hrest, h⟩ := Option.bind_eq_some_iff.mp h
  exact ⟨b, rest, hb, hrest, (Option.some.inj h).symm⟩

theorem mapM_idempotent {α : Type} {f : α → Option α} (hf : ∀ {a b}, f a = some b → f b = some b) :
    ∀ {l l' : List α}, l.mapM f = some l' → l'.mapM f = some l'
  | [], l', h => by
    obtain rfl : [] = l' := Option.some.inj h
    rfl
  | a :: l, l', h => by
    obtain ⟨b, rest, hb, hrest, rfl⟩ := mapM_cons_some h
    simp [List.mapM_cons, hf hb, mapM_idempotent hf hrest]

theorem rowsKept_continues {subscribed : Bool} :
    ∀ {rows rows' saved : List InputEvaluationRow}, rowsKept subscribed rows rows' = true →
      rows'.mapM InputEvaluationRow.written = some saved → Continues RowRetained rows saved ∧
        (subscribed = false → saved.length = rows.length)
  | [], rows', saved, hkept, hsaved => by
    refine ⟨.nil saved, ?_⟩
    rintro rfl
    obtain rfl : rows' = [] := by simpa [rowsKept] using hkept
    obtain rfl : [] = saved := Option.some.inj hsaved
    rfl
  | old :: rows, [], saved, hkept, hsaved => by cases hkept
  | old :: rows, row :: rows', saved, hkept, hsaved => by
    simp only [rowsKept, Bool.and_eq_true] at hkept
    obtain ⟨row', rest, hrow, hrest, rfl⟩ := mapM_cons_some hsaved
    obtain ⟨htail, hlen⟩ := rowsKept_continues hkept.2 hrest
    refine ⟨.cons (rowKept_retained hkept.1 hrow) htail, ?_⟩
    intro hs
    rw [List.length_cons, List.length_cons, hlen hs]

/-! ## Handoffs -/

/-- The same candidate, whose attempt may have settled. -/
structure SuccessorRetained (old next : SubscriptionSuccessor) : Prop where
  candidateID : next.candidateID = old.candidateID
  state : next.state = old.state ∨ old.state = "pending" ∧ (next.state = "complete" ∨ next.state = "refused")

theorem SuccessorRetained.refl (s : SubscriptionSuccessor) : SuccessorRetained s s := ⟨rfl, .inl rfl⟩

theorem SuccessorRetained.trans (a b c : SubscriptionSuccessor) (h : SuccessorRetained a b) (h' : SuccessorRetained b c) :
    SuccessorRetained a c := by
  refine ⟨h'.candidateID.trans h.candidateID, ?_⟩
  obtain hb | ⟨ha, hb⟩ := h.state
  · rw [← hb]
    exact h'.state
  · obtain hc | ⟨hb', -⟩ := h'.state
    · rw [hc]
      exact .inr ⟨ha, hb⟩
    · rw [hb'] at hb
      obtain hb | hb := hb
      · exact absurd hb (by decide)
      · exact absurd hb (by decide)

theorem successorKept_retained {last : Bool} {old next : SubscriptionSuccessor} (h : successorKept last old next = true) :
    SuccessorRetained old next := by
  simp only [successorKept, Bool.and_eq_true, Bool.or_eq_true, beq_iff_eq] at h
  obtain ⟨hid, hstate⟩ := h
  refine ⟨hid, ?_⟩
  obtain hsame | ⟨⟨-, hpending⟩, hsettled⟩ := hstate
  · exact .inl hsame.symm
  · exact .inr ⟨hpending, by simpa using hsettled⟩

theorem successorsKept_continues :
    ∀ {l l' : List SubscriptionSuccessor}, successorsKept l l' = true → Continues SuccessorRetained l l'
  | [], l', _ => .nil l'
  | _ :: _, [], h => by cases h
  | old :: rest, next :: rest', h => by
    simp only [successorsKept, Bool.and_eq_true] at h
    exact .cons (successorKept_retained h.1) (successorsKept_continues h.2)

/-! ## Documents -/

/-- What a journal keeps. -/
structure Retained (b b' : InputEvaluation) : Prop where
  frozen : frozenEvaluation b' = frozenEvaluation b
  jobID : b.jobID ≠ "" → b'.jobID = b.jobID
  confirmedAt : b.confirmedAt ≠ "" → b'.confirmedAt = b.confirmedAt
  subscription : b.subscription ≠ none → b'.subscription ≠ none
  rows : b.subscription ≠ none ∨ b'.subscription = none → Continues RowRetained b.rows b'.rows
  length : b'.subscription = none → b'.rows.length = b.rows.length
  /-- Rows are dropped where the subscription is confirmed, and there alone. -/
  dropped : b.subscription = none → b'.subscription ≠ none → b.confirmedAt = "" ∧ b'.confirmedAt ≠ ""
  successors : Continues SuccessorRetained b.successors b'.successors

theorem Retained.refl (b : InputEvaluation) : Retained b b where
  frozen := rfl
  jobID _ := rfl
  confirmedAt _ := rfl
  subscription h := h
  rows _ := Continues.refl RowRetained.refl b.rows
  length _ := rfl
  dropped h h' := absurd h h'
  successors := Continues.refl SuccessorRetained.refl b.successors

theorem Retained.trans {a b c : InputEvaluation} (h : Retained a b) (h' : Retained b c) : Retained a c where
  frozen := h'.frozen.trans h.frozen
  jobID hne := by
    have hb := h.jobID hne
    exact (h'.jobID (hb ▸ hne)).trans hb
  confirmedAt hne := by
    have hb := h.confirmedAt hne
    exact (h'.confirmedAt (hb ▸ hne)).trans hb
  subscription ha := h'.subscription (h.subscription ha)
  rows hs := by
    have hb : b.subscription ≠ none ∨ b.subscription = none := (eq_or_ne b.subscription none).symm
    have hac : a.subscription ≠ none ∨ b.subscription = none := by
      obtain ha | hc := hs
      · exact .inl ha
      · exact .inr (by_contra fun hb => h'.subscription hb hc)
    have hbc : b.subscription ≠ none ∨ c.subscription = none := by
      obtain ha | hc := hs
      · exact .inl (h.subscription ha)
      · exact .inr hc
    exact (h.rows hac).trans RowRetained.trans (h'.rows hbc)
  length hc := by
    have hb : b.subscription = none := by_contra fun hb => h'.subscription hb hc
    exact (h'.length hc).trans (h.length hb)
  dropped ha hc := by
    by_cases hb : b.subscription = none
    · obtain ⟨hempty, hset⟩ := h'.dropped hb hc
      exact ⟨by_contra fun hne => hne ((h.confirmedAt hne).symm.trans hempty), hset⟩
    · obtain ⟨hempty, hset⟩ := h.dropped ha hb
      rw [h'.confirmedAt hset]
      exact ⟨hempty, hset⟩
  successors := h.successors.trans SuccessorRetained.trans h'.successors

/-- An evaluation that has an upgrade is confirmed only as a subscription's handoff, after its receipt. -/
def Separate (b : InputEvaluation) : Prop :=
  ∀ u, b.upgrade = some u → b.confirmedAt ≠ "" ∨ b.subscription ≠ none →
    b.subscriptionUpgrade ≠ none ∧ u.result.present = true

/-- The parts of a document as it is read back. -/
theorem evaluation_written {b b' : InputEvaluation} (h : b.written = some b') :
    b.upgrade.mapM InputUpgradeReview.written = some b'.upgrade ∧ b.release.written = some b'.release ∧
      b.rows.mapM InputEvaluationRow.written = some b'.rows ∧
      b' = { b with
        upgrade := b'.upgrade, subscription := b.subscription.map InputSubscription.written, release := b'.release,
        rows := b'.rows } := by
  unfold InputEvaluation.written at h
  obtain ⟨upgrade, hu, h⟩ := Option.bind_eq_some_iff.mp h
  obtain ⟨release, hr, h⟩ := Option.bind_eq_some_iff.mp h
  obtain ⟨rows, hrows, h⟩ := Option.bind_eq_some_iff.mp h
  obtain rfl := Option.some.inj h
  exact ⟨hu, hr, hrows, rfl⟩

theorem upgrade_written_written {u u' : InputUpgradeReview} (h : u.written = some u') : u'.written = some u' := by
  unfold InputUpgradeReview.written at h
  obtain ⟨result, hr, h⟩ := Option.bind_eq_some_iff.mp h
  obtain rfl := Option.some.inj h
  simp [InputUpgradeReview.written, RawMessage.written_written hr]

theorem upgrade_written {u u' : InputUpgradeReview} (h : u.written = some u') : u'.result.present = u.result.present := by
  unfold InputUpgradeReview.written at h
  obtain ⟨result, hr, h⟩ := Option.bind_eq_some_iff.mp h
  obtain rfl := Option.some.inj h
  obtain ⟨habsent, rfl⟩ | ⟨rfl, -⟩ := RawMessage.written_cases hr
  · rw [habsent]
    rfl
  · rfl

theorem subscription_written_written (a : InputSubscription) : a.written.written = a.written := by
  simp only [InputSubscription.written, Option.filter_filter]
  simp

theorem optionM_idempotent {α : Type} {f : α → Option α} (hf : ∀ {a b}, f a = some b → f b = some b) {x y : Option α}
    (h : x.mapM f = some y) : y.mapM f = some y := by
  cases x with
  | none =>
    obtain rfl : none = y := Option.some.inj h
    rfl
  | some a =>
    obtain ⟨b, hb, rfl⟩ := Option.map_eq_some_iff.mp h
    exact congrArg (Option.map some) (hf hb)

theorem written_written {b b' : InputEvaluation} (h : b.written = some b') : b'.written = some b' := by
  obtain ⟨hu, hr, hrows, heq⟩ := evaluation_written h
  have hsub : b'.subscription.map InputSubscription.written = b'.subscription := by
    rw [heq]
    simp only [Option.map_map]
    congr 1
    exact funext subscription_written_written
  rw [InputEvaluation.written, optionM_idempotent upgrade_written_written hu, RawMessage.written_written hr,
    mapM_idempotent row_written_written hrows, hsub]
  rfl

theorem frozen_written {b b' : InputEvaluation} (h : b.written = some b') :
    (frozenEvaluation b).written = some (frozenEvaluation b') := by
  obtain ⟨-, hr, -, heq⟩ := evaluation_written h
  have hrelease : (frozenEvaluation b).release.written = some b'.release := hr
  rw [heq, InputEvaluation.written, hrelease]
  rfl

/-! ## Transitions -/

/-- What the successor of a document is held to. -/
structure Follows (before next : InputEvaluation) : Prop where
  frozen : sameEvaluationValue (frozenEvaluation before).written (frozenEvaluation next).written = true
  confirmedAt : before.confirmedAt ≠ "" → next.confirmedAt = before.confirmedAt
  jobID : before.jobID ≠ "" → next.jobID = before.jobID
  successors : successorsKept before.successors next.successors = true
  rows : match before.subscription, next.subscription with
    | some _, some _ => rowsKept true before.rows next.rows = true
    | some _, none => False
    | none, some _ => before.confirmedAt = "" ∧ next.confirmedAt ≠ ""
    | none, none => rowsKept false before.rows next.rows = true

theorem problem_none {c : Prop} [Decidable c] {p : String} {rest : Option String} :
    (if c then some p else rest) = none ↔ ¬c ∧ rest = none := by
  by_cases hc : c <;> simp [hc]

theorem unless_none {c : Prop} [Decidable c] {p : String} : (if c then none else some p) = none ↔ c := by
  by_cases hc : c <;> simp [hc]

theorem orElse_none {p q : Option String} : (p <|> q) = none ↔ p = none ∧ q = none := by
  cases p <;> simp

theorem validateSubscriptionSuccessors_none {before next : InputEvaluation}
    (h : validateSubscriptionSuccessors before next = none) :
    successorsKept before.successors next.successors = true := by
  simp only [validateSubscriptionSuccessors, unless_none, Bool.and_eq_true] at h
  exact h.1.1.2

theorem validateEvaluationTransition_none {before next : InputEvaluation}
    (h : validateEvaluationTransition before next = none) : Follows before next := by
  simp only [validateEvaluationTransition, problem_none, orElse_none] at h
  obtain ⟨hfixed, hsuccessors, -, h⟩ := h
  simp only [Bool.or_eq_true, Bool.and_eq_true, Bool.not_eq_true', bne_iff_ne, not_or, not_and, not_not,
    Bool.not_eq_false] at hfixed
  obtain ⟨⟨hfrozen, hconfirmed⟩, hjob⟩ := hfixed
  refine ⟨hfrozen, fun hne => (hconfirmed hne).symm, fun hne => (hjob hne).symm,
    validateSubscriptionSuccessors_none hsuccessors, ?_⟩
  cases hb : before.subscription with
  | none =>
    cases hn : next.subscription with
    | none =>
      simp only [hb, hn, unless_none] at h
      exact h
    | some a =>
      simp only [hb, hn, unless_none, Bool.and_eq_true, beq_iff_eq, bne_iff_ne] at h
      exact h.1
  | some a =>
    cases hn : next.subscription with
    | none => simp [hb, hn] at h
    | some a' =>
      simp only [hb, hn, unless_none, Bool.and_eq_true] at h
      exact h.2

theorem Follows.retained {before next saved : InputEvaluation} (f : Follows before next)
    (hbefore : before.written = some before) (hsaved : next.written = some saved) : Retained before saved := by
  obtain ⟨-, -, hrows, heq⟩ := evaluation_written hsaved
  have hsub : saved.subscription = none ↔ next.subscription = none := by
    rw [heq]
    simp
  have hconfirmed : saved.confirmedAt = next.confirmedAt := by rw [heq]
  have hjob : saved.jobID = next.jobID := by rw [heq]
  have hsuccessors : saved.successors = next.successors := by rw [heq]
  have hfollows := f.rows
  refine ⟨?_, ?_, ?_, ?_, ?_, ?_, ?_, ?_⟩
  · exact (eq_of_same f.frozen (frozen_written hbefore) (frozen_written hsaved)).symm
  · rw [hjob]
    exact f.jobID
  · rw [hconfirmed]
    exact f.confirmedAt
  · intro hb hs
    rw [hsub] at hs
    obtain ⟨a, ha⟩ := Option.ne_none_iff_exists'.mp hb
    simp [ha, hs] at hfollows
  · intro hs
    rw [hsub] at hs
    cases hb : before.subscription with
    | none =>
      have hn : next.subscription = none := hs.resolve_left (absurd hb)
      simp only [hb, hn] at hfollows
      exact (rowsKept_continues hfollows hrows).1
    | some a =>
      cases hn : next.subscription with
      | none => simp [hb, hn] at hfollows
      | some a' =>
        simp only [hb, hn] at hfollows
        exact (rowsKept_continues hfollows hrows).1
  · intro hs
    rw [hsub] at hs
    cases hb : before.subscription with
    | none =>
      simp only [hb, hs] at hfollows
      exact (rowsKept_continues hfollows hrows).2 rfl
    | some a => simp [hb, hs] at hfollows
  · intro hb hs
    rw [ne_eq, hsub] at hs
    obtain ⟨a, ha⟩ := Option.ne_none_iff_exists'.mp hs
    simp only [hb, ha] at hfollows
    rw [hconfirmed]
    exact hfollows
  · rw [hsuccessors]
    exact successorsKept_continues f.successors

/-! ## Valid documents -/

theorem reviewed_confirmed {r : SubscriptionUpgradeReview} {b : InputEvaluation} {u : InputUpgradeReview}
    (h : r.confirmedAs b = true) (hu : b.upgrade = some u) : u.result.present = true := by
  unfold SubscriptionUpgradeReview.confirmedAs at h
  cases hs : b.subscription with
  | none => simp [hs] at h
  | some a =>
    simp only [hs, hu, Bool.and_eq_true] at h
    exact h.1.1.1.1.1.1.1.2

theorem validateEvaluationJournal_separate {b : InputEvaluation} {id : String}
    (h : validateEvaluationJournal b id = none) : Separate b := by
  simp only [validateEvaluationJournal, problem_none, orElse_none] at h
  obtain ⟨-, hreview, hupgrade, -, -⟩ := h
  intro u hu hset
  cases hr : b.subscriptionUpgrade with
  | none =>
    simp only [upgradeProblem, hu, problem_none, hr, Option.isNone_none, Bool.true_and, Bool.or_eq_true, bne_iff_ne, ne_eq,
      Option.isSome_iff_ne_none, not_or] at hupgrade
    tauto
  | some r =>
    refine ⟨by simp, ?_⟩
    simp only [validateSubscriptionUpgradeJournal, hr, unless_none, Bool.and_eq_true, Bool.or_eq_true, beq_iff_eq,
      Option.isNone_iff_eq_none] at hreview
    obtain ⟨⟨-, hnone | hconfirmed⟩, -⟩ := hreview
    · tauto
    · exact reviewed_confirmed hconfirmed hu

theorem Separate.written {b saved : InputEvaluation} (h : Separate b) (hsaved : b.written = some saved) : Separate saved := by
  obtain ⟨hupgrade, -, -, heq⟩ := evaluation_written hsaved
  intro u hu hset
  rw [heq] at hset
  simp only [ne_eq, Option.map_eq_none_iff] at hset
  cases hb : b.upgrade with
  | none =>
    rw [hb, hu] at hupgrade
    cases hupgrade
  | some u₀ =>
    rw [hb, hu] at hupgrade
    obtain ⟨u', hu', hsome⟩ := Option.map_eq_some_iff.mp hupgrade
    obtain rfl := Option.some.inj hsome
    obtain ⟨hreview, hpresent⟩ := h u₀ hb hset
    refine ⟨?_, (upgrade_written hu').trans hpresent⟩
    rw [heq]
    exact hreview

/-! ## Runs -/

/-- A call leaves the file, or puts a valid document there that follows the one before it. -/
theorem swap_cases (e : Encoding) (id : String) (file : Option InputEvaluation) (c : Call) :
    swap e id file c = file ∨
      ∃ saved, swap e id file c = some saved ∧ c.document.written = some saved ∧
        validateEvaluationJournal c.document id = none ∧ ∀ before, file = some before → Follows before c.document := by
  have hwrite : ∀ file raw w, (writeEvaluationJournal e id file raw w).2 = file ∨
      (writeEvaluationJournal e id file raw w).2 = some raw := by
    intro file raw w
    cases w with
    | done => exact .inr rfl
    | uncertain => exact .inr rfl
    | failed => exact .inl rfl
  unfold swap compareAndSwap
  cases hencode : encodeEvaluationJournal e c.document id with
  | error problem => exact .inl rfl
  | ok raw =>
    unfold encodeEvaluationJournal at hencode
    cases hvalid : validateEvaluationJournal c.document id with
    | some problem => simp [hvalid] at hencode
    | none =>
      cases hwritten : c.document.written with
      | none => simp [hvalid, hwritten] at hencode
      | some saved =>
        simp only [hvalid, hwritten] at hencode
        split_ifs at hencode
        obtain rfl := Except.ok.inj hencode
        cases file with
        | none =>
          by_cases hrev : c.revision ≠ ""
          · simp [hrev]
          · simp only [if_neg hrev]
            exact (hwrite none saved c.write).imp_right fun h => ⟨saved, h, rfl, trivial, fun _ hb => nomatch hb⟩
        | some before =>
          cases hdecode : decodeEvaluationSnapshot e before id with
          | error problem =>
            simp [hdecode]
          | ok snapshot =>
            simp only [hdecode]
            by_cases hrev : c.revision = "" ∨ snapshot.sha256 ≠ c.revision
            · rw [if_pos hrev]
              exact .inl rfl
            · rw [if_neg hrev]
              cases htransition : validateEvaluationTransition snapshot.document c.document with
              | some problem => exact .inl rfl
              | none =>
                have hdocument : snapshot.document = before := by
                  unfold decodeEvaluationSnapshot at hdecode
                  split_ifs at hdecode
                  split at hdecode
                  · cases hdecode
                  · rw [← Except.ok.inj hdecode]
                refine (hwrite (some before) saved c.write).imp_right fun h => ⟨saved, h, rfl, trivial, ?_⟩
                rintro _ ⟨⟩
                exact hdocument ▸ validateEvaluationTransition_none htransition

/-- What is in the file is what a valid document is read back as. -/
def Sound (file : Option InputEvaluation) : Prop := ∀ b, file = some b → b.written = some b ∧ Separate b

theorem swap_sound {e : Encoding} {id : String} (file : Option InputEvaluation) (c : Call) (h : Sound file) :
    Sound (swap e id file c) := by
  obtain heq | ⟨saved, heq, hsaved, hvalid, -⟩ := swap_cases e id file c
  · rwa [heq]
  · intro b hb
    rw [heq] at hb
    obtain rfl := Option.some.inj hb
    exact ⟨written_written hsaved, (validateEvaluationJournal_separate hvalid).written hsaved⟩

/-- The file's document is kept by the one after it. -/
def FileRetained (file file' : Option InputEvaluation) : Prop :=
  ∀ b, file = some b → ∃ b', file' = some b' ∧ Retained b b'

theorem swap_retained {e : Encoding} {id : String} (file : Option InputEvaluation) (c : Call) (h : Sound file) :
    FileRetained file (swap e id file c) := by
  intro b hb
  obtain heq | ⟨saved, heq, hsaved, -, hfollows⟩ := swap_cases e id file c
  · exact ⟨b, heq.trans hb, .refl b⟩
  · exact ⟨saved, heq, (hfollows b hb).retained (h b hb).1 hsaved⟩

/-- An evaluation of one record with this input. -/
def evaluationOf (input : RawMessage) : InputEvaluation where
  id := "eval_00000000000000000000000000000000"
  preparationID := "prep_00000000000000000000000000000000"
  revision := "1"
  recipeVersion := 1
  recipe := "\x7b\x7d"
  name := "records"
  fingerprint := "1"
  release := none
  releaseID := "release_00000000000000000000000000000000"
  createdAt := "2026-10-15T12:00:00Z"
  state := "review"
  rows := [{ recordID := "row-1", input, state := "pending" }]
  requireTested := false
  projectReviewed := true

def plainEncoding : Encoding := ⟨fun _ => 0, fun b => b.state⟩

end Desk.Evaluation
