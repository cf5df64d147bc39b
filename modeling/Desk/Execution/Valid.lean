import Desk.Ledger.Valid

/-!
# Valid execution states

The checks of `validatePolicyExecution` by name.
-/

namespace Desk

/-- The epochs are numbered from one and the last is current. -/
structure EpochNumbers (e : PolicyExecutionState) : Prop where
  current : e.currentEpoch = "" ∨ executionPositive e.currentEpoch = true ∧
    ∃ v, e.epochs.get? e.currentEpoch = some v ∧ v.epoch = e.currentEpoch
  last : e.epochs.size = 0 ∨ e.currentEpoch = Nat.repr e.epochs.size
  all : ∀ n < e.epochs.size, ∃ v, e.epochs.get? (Nat.repr (n + 1)) = some v ∧ v.epoch ≠ ""

structure ExecutionValid (l : PolicyLedger) (e : PolicyExecutionState) : Prop where
  version : e.version = 1
  profile : e.profile = policyExecutionProfile
  identity : e.identity.valid = true
  lastTime : executionTime e.lastTime = true
  resourceLimit : e.resources.size ≤ policyExecutionResourceLimit
  operationLimit : e.registrationOperations.size ≤ policyOperationLimit
  intentLimit : e.intents.size ≤ policyExecutionIntentLimit
  epochLimit : e.epochs.size ≤ policyExecutionEpochLimit
  attemptLimit : e.attempts.size ≤ policyExecutionIntentLimit
  numbers : EpochNumbers e
  resources : e.resources.all (validExecutionResource l e) = true
  operations : e.registrationOperations.all (validRegistrationOperation e) = true
  intents : e.intents.all (validExecutionIntent e) = true
  epochs : e.epochs.all (validExecutionEpoch e) = true
  sessions : (e.epochs.entries.map fun v => v.2.sessionID).Nodup
  attempts : e.attempts.all (validExecutionAttempt e) = true
  operationIDs : (e.attempts.entries.map fun a => a.2.reserved.operationID).Nodup
  attemptIDs : (e.attempts.entries.map fun a => a.2.reserved.attemptID).Nodup

theorem epochNumbers_iff {e : PolicyExecutionState} : validEpochNumbers e = true ↔ EpochNumbers e := by
  unfold validEpochNumbers
  simp only [Bool.and_eq_true, Bool.or_eq_true, beq_iff_eq, Option.any_eq_true, List.all_eq_true, List.mem_range,
    bne_iff_ne, ne_eq]
  constructor
  · rintro ⟨⟨h₁, h₂⟩, h₃⟩
    exact ⟨h₁, h₂, h₃⟩
  · rintro ⟨h₁, h₂, h₃⟩
    exact ⟨⟨h₁, h₂⟩, h₃⟩

theorem executionValid_iff {l : PolicyLedger} {e : PolicyExecutionState} :
    validExecutionState l e = true ↔ ExecutionValid l e := by
  unfold validExecutionState
  simp only [Bool.and_eq_true, beq_iff_eq, decide_eq_true_eq, epochNumbers_iff]
  constructor
  · rintro ⟨⟨⟨⟨⟨⟨⟨⟨⟨⟨⟨⟨⟨⟨⟨⟨⟨h₁, h₂⟩, h₃⟩, h₄⟩, h₅⟩, h₆⟩, h₇⟩, h₈⟩, h₉⟩, h₁₀⟩, h₁₁⟩, h₁₂⟩, h₁₃⟩, h₁₄⟩, h₁₅⟩, h₁₆⟩, h₁₇⟩, h₁₈⟩
    exact ⟨h₁, h₂, h₃, h₄, h₅, h₆, h₇, h₈, h₉, h₁₀, h₁₁, h₁₂, h₁₃, h₁₄, h₁₅, h₁₆, h₁₇, h₁₈⟩
  · rintro ⟨h₁, h₂, h₃, h₄, h₅, h₆, h₇, h₈, h₉, h₁₀, h₁₁, h₁₂, h₁₃, h₁₄, h₁₅, h₁₆, h₁₇, h₁₈⟩
    exact ⟨⟨⟨⟨⟨⟨⟨⟨⟨⟨⟨⟨⟨⟨⟨⟨⟨h₁, h₂⟩, h₃⟩, h₄⟩, h₅⟩, h₆⟩, h₇⟩, h₈⟩, h₉⟩, h₁₀⟩, h₁₁⟩, h₁₂⟩, h₁₃⟩, h₁₄⟩, h₁₅⟩, h₁₆⟩, h₁₇⟩, h₁₈⟩

theorem validatePolicyExecution_iff {l : PolicyLedger} : validatePolicyExecution l = true ↔
    l.schemaVersion = 2 ∧ l.execution = none ∨
      l.schemaVersion = 3 ∧ ∃ e, l.execution = some e ∧ ExecutionValid l e := by
  unfold validatePolicyExecution
  by_cases h : l.schemaVersion = 2
  · simp [h]
  · simp [h, Option.any_eq_true, executionValid_iff]

/-- The execution state of an accepted ledger is valid. -/
theorem LedgerValid.executionValid {l : PolicyLedger} (h : LedgerValid l) {e : PolicyExecutionState}
    (he : l.execution = some e) : ExecutionValid l e := by
  rcases validatePolicyExecution_iff.mp h.execution with ⟨_, hnone⟩ | ⟨_, e', he', hv⟩
  · rw [hnone] at he; cases he
  · rw [he'] at he; cases he; exact hv

/-! ## Attempts -/

/-- What ties a reservation to its intent, its epoch and its resource; a decision does not touch it. -/
structure AttemptBound (e : PolicyExecutionState) (id : String) (q : PolicyExecutionReserveRequest)
    (result : PolicyExecutionReserveResult) (sessionID : String) : Prop where
  parts : ∃ i ep r, e.intents.get? id = some i ∧ e.epochs.get? result.epoch = some ep ∧
    e.resources.get? i.resourceID = some r ∧ q.rawRequestDigest = "sha256:" ++ i.request.sha256 ∧ ep.epoch = result.epoch ∧
    executionPayloadMatches q.payload r i ep = true ∧ q.resource = i.resource ∧ q.registration = i.registration ∧
    ep.sessionID = sessionID
  epochForm : executionPositive result.epoch = true
  sessionForm : retainedArtifactDigest sessionID = true
  key : q.intentID = id
  operationForm : policyExecutionID result.operationID = true
  attemptForm : policyExecutionID result.attemptID = true
  delivery : result.delivery = .committed
  digest : result.requestDigest = reserveDigest q
  shape : executionPayloadShape q.payload = true

theorem attemptValid_iff {e : PolicyExecutionState} {id : String} {a : PolicyExecutionAttempt} :
    validExecutionAttempt e id a = true ↔ AttemptBound e id a.reserve a.reserved a.sessionID ∧
      executionTime a.at_ = true ∧ a.at_ ≤ e.lastTime ∧ validAttemptHold e a = true ∧ validAttemptStart a = true := by
  unfold validExecutionAttempt
  constructor
  · intro h
    split at h
    · rename_i i ep hi hep
      simp only [Bool.and_eq_true, beq_iff_eq, decide_eq_true_eq, Option.any_eq_true] at h
      obtain ⟨⟨⟨⟨⟨⟨⟨⟨⟨⟨⟨⟨⟨⟨⟨⟨⟨hraw, hpos⟩, hepoch⟩, hsf⟩, r, hr, hmatch⟩, hkey⟩, hres⟩, hreg⟩, hop⟩, hat⟩, hdel⟩, hdig⟩,
        hsess⟩, htime⟩, hpast⟩, hshape⟩, hhold⟩, hstart⟩ := h
      exact ⟨⟨⟨i, ep, r, hi, hep, hr, hraw, hepoch, hmatch, hres, hreg, hsess⟩, hpos, hsf, hkey, hop, hat, hdel, hdig,
        hshape⟩, htime, hpast, hhold, hstart⟩
    · cases h
  · rintro ⟨⟨⟨i, ep, r, hi, hep, hr, hraw, hepoch, hmatch, hres, hreg, hsess⟩, hpos, hsf, hkey, hop, hat, hdel, hdig,
      hshape⟩, htime, hpast, hhold, hstart⟩
    rw [hi, hep]
    simp only [Bool.and_eq_true, beq_iff_eq, decide_eq_true_eq, Option.any_eq_true]
    exact ⟨⟨⟨⟨⟨⟨⟨⟨⟨⟨⟨⟨⟨⟨⟨⟨⟨hraw, hpos⟩, hepoch⟩, hsf⟩, r, hr, hmatch⟩, hkey⟩, hres⟩, hreg⟩, hop⟩, hat⟩, hdel⟩, hdig⟩,
      hsess⟩, htime⟩, hpast⟩, hshape⟩, hhold⟩, hstart⟩

theorem ExecutionValid.attempt {l : PolicyLedger} {e : PolicyExecutionState} (hv : ExecutionValid l e) {k : String}
    {a : PolicyExecutionAttempt} (h : e.attempts.get? k = some a) : AttemptBound e k a.reserve a.reserved a.sessionID ∧
      executionTime a.at_ = true ∧ a.at_ ≤ e.lastTime ∧ validAttemptHold e a = true ∧ validAttemptStart a = true :=
  attemptValid_iff.mp (Table.all_iff.mp hv.attempts k a h)

end Desk
