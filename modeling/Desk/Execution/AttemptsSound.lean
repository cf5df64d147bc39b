import Desk.Execution.Attempts

/-!
# What an operation on attempts does

One lemma an operation: all that an activation, a reservation or a start can
change, with every check it has made.
-/

namespace Desk

namespace ExecutionCall

/-! ## The current epoch -/

/-- `epoch` is current and belongs to the session of the call. -/
structure ActiveEpoch (c : ExecutionCall) (e : PolicyExecutionState) (s : PolicyExecutionSession)
    (epoch : PolicyExecutionEpoch) : Prop where
  identity : s.identity = c.identity
  sessionForm : retainedArtifactDigest s.id = true
  challengeForm : retainedArtifactDigest s.challenge = true
  current : e.epochs.get? e.currentEpoch = some epoch
  owner : epoch.sessionID = s.id

theorem session_eq_ok {c : ExecutionCall} {n : Nat} {s : PolicyExecutionSession} {u : Unit} (h : c.session n s = .ok u) :
    s.identity = c.identity ∧ retainedArtifactDigest s.id = true ∧ retainedArtifactDigest s.challenge = true := by
  simp only [session, bind_eq_ok, require_eq_ok, Bool.and_eq_true, beq_iff_eq] at h
  obtain ⟨_, ⟨⟨⟨hi, hs⟩, hc⟩, _⟩, _⟩ := h
  exact ⟨hi, hs, hc⟩

theorem active_eq_ok {c : ExecutionCall} {n : Nat} {e : PolicyExecutionState} {s : PolicyExecutionSession}
    {epoch : PolicyExecutionEpoch} (h : c.active n e s = .ok epoch) : ActiveEpoch c e s epoch := by
  simp only [active, bind_eq_ok, found_eq_ok, require_eq_ok, Bool.and_eq_true, beq_iff_eq] at h
  obtain ⟨_, hs, epoch', hcur, _, ⟨howner, _⟩, h⟩ := h
  cases h
  obtain ⟨hi, hf, hc⟩ := session_eq_ok hs
  exact ⟨hi, hf, hc, hcur, howner⟩

/-! ## Activation -/

/-- The next epoch, of a session that had none. -/
structure NewEpoch (e : PolicyExecutionState) (now : String) (epoch : PolicyExecutionEpoch) : Prop where
  number : epoch.epoch = Nat.repr (e.epochs.size + 1)
  limit : e.epochs.size < policyExecutionEpochLimit
  sessionForm : retainedArtifactDigest epoch.sessionID = true
  challengeForm : retainedArtifactDigest epoch.challenge = true
  firstOfSession : ∀ k v, e.epochs.get? k = some v → v.sessionID ≠ epoch.sessionID
  signing : epoch.signing.valid = true
  digest : epoch.requestDigest = activateDigest ⟨epoch.challenge, epoch.signing⟩
  at_ : epoch.at_ = now

theorem epochOf_eq_none {e : PolicyExecutionState} {sessionID : String} (h : epochOf e sessionID = none) :
    ∀ k v, e.epochs.get? k = some v → v.sessionID ≠ sessionID := by
  intro k v hv hs
  rw [epochOf, Option.map_eq_none_iff, List.find?_eq_none] at h
  exact h (k, v) (Table.mem_entries.mpr hv) (by simpa using hs)

theorem activateUse_eq_ok {c : ExecutionCall} {s : PolicyExecutionSession} {q : PolicyExecutionActivateRequest}
    {l : PolicyLedger} {e next : PolicyExecutionState} {now : String} {changed : Bool}
    {answer : Except GoError PolicyExecutionActivateResult} (hq : q.challenge = s.challenge)
    (hsigning : q.signing.valid = true) (h : c.activateUse s q l e now = .ok (changed, next, answer)) :
    (changed = false ∧ next = e ∧ ∃ r, answer = .ok r ∧ r.delivery = .recovered) ∨
      changed = true ∧ ∃ epoch, NewEpoch e now epoch ∧ epoch.sessionID = s.id ∧
        next = { e with epochs := e.epochs.set epoch.epoch epoch, currentEpoch := epoch.epoch } := by
  simp only [activateUse, bind_eq_ok] at h
  obtain ⟨_, hs, h⟩ := h
  obtain ⟨_, hsession, hchallenge⟩ := session_eq_ok hs
  split at h
  · simp only [bind_eq_ok] at h
    obtain ⟨_, _, _, _, h⟩ := h
    cases h; exact Or.inl ⟨rfl, rfl, _, rfl, rfl⟩
  · rename_i hnone
    -- the new epoch is compared member by member, its number and digest unopened
    have hdigest : activateDigest q = activateDigest ⟨s.challenge, q.signing⟩ := by rw [← hq]
    generalize hnumber : Nat.repr (e.epochs.size + 1) = number at h
    generalize activateDigest q = digest at h hdigest
    simp only [bind_eq_ok, require_eq_ok, decide_eq_true_eq] at h
    obtain ⟨_, hlimit, h⟩ := h
    cases h
    exact Or.inr ⟨rfl, ⟨number, s.id, s.challenge, q.signing, digest, now⟩,
      ⟨hnumber.symm, hlimit, hsession, hchallenge, epochOf_eq_none hnone, hsigning, hdigest, rfl⟩, rfl, rfl⟩

/-! ## Reservation -/

/-- An attempt that a repeated reservation seals. -/
structure Sealable (c : ExecutionCall) (e : PolicyExecutionState) (s : PolicyExecutionSession) (intentID : String)
    (a : PolicyExecutionAttempt) : Prop where
  epoch : ∃ epoch, ActiveEpoch c e s epoch ∧ a.reserved.epoch = epoch.epoch
  attempt : e.attempts.get? intentID = some a
  session : a.sessionID = s.id
  state : a.state = .reserved
  hold : a.hold = none

/-- The first attempt of an intent, in the current epoch of its session. -/
structure NewAttempt (c : ExecutionCall) (l : PolicyLedger) (e : PolicyExecutionState) (now : String)
    (s : PolicyExecutionSession) (a : PolicyExecutionAttempt) (epoch : PolicyExecutionEpoch) (i : PolicyExecutionIntent)
    (r : PolicyExecutionRegisteredResource) : Prop where
  active : ActiveEpoch c e s epoch
  first : e.attempts.get? a.reserve.intentID = none
  intent : e.intents.get? a.reserve.intentID = some i
  resource : e.resources.get? i.resourceID = some r
  binding : i.resource = a.reserve.resource ∧ i.registration = a.reserve.registration ∧
    a.reserve.rawRequestDigest = "sha256:" ++ i.request.sha256
  payload : executionPayloadMatches a.reserve.payload r i epoch = true
  limit : e.attempts.size < policyExecutionIntentLimit
  tokens : ∃ op attempt : Token, c.token 0 = some op ∧ c.token 1 = some attempt ∧
    a.reserved = ⟨.committed, "operation_" ++ op.text, "attempt_" ++ attempt.text, epoch.epoch, reserveDigest a.reserve⟩
  fields : a = reservedAttempt s a.reserve a.reserved (c.eligible l r now) now

@[simp] theorem reservedAttempt_reserve (s : PolicyExecutionSession) (q : PolicyExecutionReserveRequest)
    (result : PolicyExecutionReserveResult) (reason : ExecutionReason) (now : String) :
    (reservedAttempt s q result reason now).reserve = q := by
  unfold reservedAttempt; split <;> rfl

@[simp] theorem reservedAttempt_reserved (s : PolicyExecutionSession) (q : PolicyExecutionReserveRequest)
    (result : PolicyExecutionReserveResult) (reason : ExecutionReason) (now : String) :
    (reservedAttempt s q result reason now).reserved = result := by
  unfold reservedAttempt; split <;> rfl

theorem reservedAttempt_start (s : PolicyExecutionSession) (q : PolicyExecutionReserveRequest)
    (result : PolicyExecutionReserveResult) (reason : ExecutionReason) (now : String) :
    (reservedAttempt s q result reason now).start = none := by
  unfold reservedAttempt; split <;> rfl

theorem newToken_eq_ok {c : ExecutionCall} {n : Nat} {text : String} (h : c.newToken n = .ok text) :
    ∃ token : Token, c.token n = some token ∧ text = token.text := by
  rw [newToken, found_eq_ok, Option.map_eq_some_iff] at h
  obtain ⟨token, ht, rfl⟩ := h
  exact ⟨token, ht, rfl⟩

theorem recoverReservation_eq_ok {s : PolicyExecutionSession} {q : PolicyExecutionReserveRequest}
    {epoch : PolicyExecutionEpoch} {old : PolicyExecutionAttempt} {e next : PolicyExecutionState} {now : String}
    {changed : Bool} {answer : Except GoError PolicyExecutionReserveResult}
    (h : recoverReservation s q epoch old e now = .ok (changed, next, answer)) :
    old.sessionID = s.id ∧ old.reserved.epoch = epoch.epoch ∧ old.state ≠ .blocked ∧
      answer = .ok { old.reserved with delivery := .recovered } ∧
      (changed = false ∧ next = e ∧ (old.state = .reserved → old.hold ≠ none) ∨
        changed = true ∧ old.state = .reserved ∧ old.hold = none ∧ next = { e with
          attempts := e.attempts.set q.intentID { old with hold := some ⟨.operationHeld, now⟩ } }) := by
  simp only [recoverReservation, bind_eq_ok, require_eq_ok, Bool.and_eq_true, beq_iff_eq, bne_iff_ne, ne_eq] at h
  obtain ⟨_, ⟨hs, he⟩, _, _, _, hb, h⟩ := h
  refine ⟨hs, he, hb, ?_⟩
  split at h
  · rename_i hheld
    cases h; exact ⟨rfl, Or.inr ⟨rfl, hheld.1, hheld.2, rfl⟩⟩
  · rename_i hheld
    cases h; exact ⟨rfl, Or.inl ⟨rfl, rfl, fun hr hn => hheld ⟨hr, hn⟩⟩⟩

theorem newReservation_eq_ok {c : ExecutionCall} {s : PolicyExecutionSession} {q : PolicyExecutionReserveRequest}
    {epoch : PolicyExecutionEpoch} {l : PolicyLedger} {e next : PolicyExecutionState} {now : String} {changed : Bool}
    {answer : Except GoError PolicyExecutionReserveResult} (hactive : ActiveEpoch c e s epoch)
    (hfirst : e.attempts.get? q.intentID = none)
    (h : c.newReservation s q epoch l e now = .ok (changed, next, answer)) :
    changed = true ∧ ∃ a i r, NewAttempt c l e now s a epoch i r ∧ a.reserve = q ∧
      next = { e with attempts := e.attempts.set q.intentID a } ∧
      ∀ result, answer = .ok result → result = a.reserved := by
  simp only [newReservation, bind_eq_ok, found_eq_ok, require_eq_ok, Bool.and_eq_true, beq_iff_eq,
    decide_eq_true_eq] at h
  obtain ⟨i, hi, r, hr, _, ⟨⟨⟨⟨hres, hreg⟩, _⟩, _⟩, hraw⟩, _, hpay, _, hlimit, op, hop, attempt, hattempt, h⟩ := h
  obtain ⟨op, hop', rfl⟩ := newToken_eq_ok hop
  obtain ⟨attempt, hattempt', rfl⟩ := newToken_eq_ok hattempt
  have hmatch : executionPayloadMatches q.payload r i epoch = true := by
    unfold payload at hpay
    simp only [Bool.and_eq_true] at hpay
    exact hpay.1.1.1
  cases h
  refine ⟨rfl, _, i, r, ⟨hactive, ?_, ?_, hr, ?_, ?_, hlimit, ?_, ?_⟩, ?_, rfl, ?_⟩
  all_goals simp only [reservedAttempt_reserve, reservedAttempt_reserved]
  · exact hfirst
  · exact hi
  · exact ⟨hres, hreg, hraw⟩
  · exact hmatch
  · exact ⟨op, attempt, hop', hattempt', rfl⟩
  · intro result hanswer
    split at hanswer
    · exact (Except.ok.inj hanswer).symm
    · cases hanswer

/-- A reservation answers from an earlier one, sealing it, or makes the first. -/
theorem reserveUse_eq_ok {c : ExecutionCall} {s : PolicyExecutionSession} {q : PolicyExecutionReserveRequest}
    {l : PolicyLedger} {e next : PolicyExecutionState} {now : String} {changed : Bool}
    {answer : Except GoError PolicyExecutionReserveResult}
    (h : c.reserveUse s q l e now = .ok (changed, next, answer)) :
    (∃ a, e.attempts.get? q.intentID = some a ∧ answer = .ok { a.reserved with delivery := .recovered } ∧
      (changed = false ∧ next = e ∧ (a.state = .reserved → a.hold ≠ none) ∨
        changed = true ∧ Sealable c e s q.intentID a ∧ next = { e with
          attempts := e.attempts.set q.intentID { a with hold := some ⟨.operationHeld, now⟩ } })) ∨
      changed = true ∧ ∃ a epoch i r, NewAttempt c l e now s a epoch i r ∧ a.reserve = q ∧
        next = { e with attempts := e.attempts.set q.intentID a } ∧
        ∀ result, answer = .ok result → result = a.reserved := by
  simp only [reserveUse, bind_eq_ok] at h
  obtain ⟨epoch, hactive, h⟩ := h
  have hactive := active_eq_ok hactive
  split at h
  · rename_i old hold
    obtain ⟨hs, he, _, hanswer, hcase⟩ := recoverReservation_eq_ok h
    refine Or.inl ⟨old, hold, hanswer, ?_⟩
    rcases hcase with hkept | ⟨hc, hstate, hnone, hnext⟩
    · exact Or.inl hkept
    · exact Or.inr ⟨hc, ⟨⟨epoch, hactive, he⟩, hold, hs, hstate, hnone⟩, hnext⟩
  · rename_i hfirst
    obtain ⟨hc, a, i, r, hnew, hq, hnext, hres⟩ := newReservation_eq_ok hactive hfirst h
    exact Or.inr ⟨hc, a, epoch, i, r, hnew, hq, hnext, hres⟩

/-! ## Start -/

/-- The one start of a reserved attempt, by the session that owns the current epoch it was reserved in. -/
structure Started (c : ExecutionCall) (l : PolicyLedger) (e : PolicyExecutionState) (now : String)
    (s : PolicyExecutionSession) (q : PolicyExecutionStartRequest) (a : PolicyExecutionAttempt)
    (epoch : PolicyExecutionEpoch) (start : PolicyExecutionStartResult) : Prop where
  active : ActiveEpoch c e s epoch
  reservedIn : a.reserved.epoch = epoch.epoch
  attempt : e.attempts.get? q.intentID = some a
  session : a.sessionID = s.id
  operation : a.reserved.epoch = q.epoch ∧ a.reserved.operationID = q.operationID ∧ a.reserved.attemptID = q.attemptID
  reserve : a.reserve = q.reserve
  state : a.state = .reserved
  hold : a.hold = none
  first : a.start = none
  revision : retainedArtifactDigest l.authorityRevision = true
  start : start = startResult q (c.startReason l e q epoch now) now l.authorityRevision

/-- A start answers from an earlier one or is the first. -/
theorem commitStartUse_eq_ok {c : ExecutionCall} {s : PolicyExecutionSession} {q : PolicyExecutionStartRequest}
    {l : PolicyLedger} {e next : PolicyExecutionState} {now : String} {changed : Bool}
    {answer : Except GoError PolicyExecutionStartResult}
    (h : c.commitStartUse s q l e now = .ok (changed, next, answer)) :
    (changed = false ∧ next = e ∧ ∃ a start, e.attempts.get? q.intentID = some a ∧ a.start = some start ∧
      answer = .ok { start with delivery := .recovered }) ∨
      changed = true ∧ ∃ a epoch start, Started c l e now s q a epoch start ∧ answer = .ok start ∧
        next = { e with attempts := e.attempts.set q.intentID (startedAttempt a start) } := by
  simp only [commitStartUse, bind_eq_ok, found_eq_ok, require_eq_ok, Bool.and_eq_true, beq_iff_eq] at h
  obtain ⟨epoch, hactive, _, hepoch, a, ha, _, ⟨⟨⟨⟨hs, he⟩, hop⟩, hat⟩, hreserve⟩, h⟩ := h
  have hactive := active_eq_ok hactive
  split at h
  · rename_i start hstart
    simp only [recoverStart, bind_eq_ok] at h
    obtain ⟨_, _, h⟩ := h
    cases h; exact Or.inl ⟨rfl, rfl, a, start, ha, hstart, rfl⟩
  · rename_i hfirst
    simp only [newStart, bind_eq_ok, require_eq_ok, Bool.and_eq_true, beq_iff_eq, Option.isNone_iff_eq_none] at h
    obtain ⟨_, ⟨hstate, hhold⟩, _, hrev, h⟩ := h
    cases h
    refine Or.inr ⟨rfl, a, epoch, startResult q (c.startReason l e q epoch now) now l.authorityRevision, ?_, rfl, rfl⟩
    exact ⟨hactive, he.trans hepoch.symm, ha, hs, ⟨he, hop, hat⟩, hreserve, hstate, hhold, hfirst, hrev, rfl⟩

end ExecutionCall

end Desk
