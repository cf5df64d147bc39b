import Desk.Execution.Valid

/-!
# Growing execution states

An entry that is valid stays valid while the tables only grow and the high water
only rises.
-/

namespace Desk

/-- `e'` holds what `e` holds, at the same reading or a later one. -/
structure Grows (e e' : PolicyExecutionState) : Prop where
  identity : e'.identity = e.identity
  later : e.lastTime ≤ e'.lastTime
  resources : ∀ k r, e.resources.get? k = some r → e'.resources.get? k = some r
  intents : ∀ k i, e.intents.get? k = some i → e'.intents.get? k = some i
  epochs : ∀ k v, e.epochs.get? k = some v → e'.epochs.get? k = some v

section
variable {l : PolicyLedger} {e e' : PolicyExecutionState} (g : Grows e e')

include g

theorem validExecutionResource_grows {k : String} {r : PolicyExecutionRegisteredResource}
    (h : validExecutionResource l e k r = true) : validExecutionResource l e' k r = true := by
  have hle : r.content.at_ ≤ e.lastTime → r.content.at_ ≤ e'.lastTime := fun h => h.trans g.later
  simp only [validExecutionResource, g.identity, Bool.and_eq_true, decide_eq_true_eq] at h ⊢
  grind

theorem validExecutionEpoch_grows {k : String} {v : PolicyExecutionEpoch} (h : validExecutionEpoch e k v = true) :
    validExecutionEpoch e' k v = true := by
  simp only [validExecutionEpoch, Bool.and_eq_true, decide_eq_true_eq] at h ⊢
  obtain ⟨⟨h, hat⟩, hdigest⟩ := h
  exact ⟨⟨h, hat.trans g.later⟩, hdigest⟩

theorem validExecutionIntent_grows {k : String} {i : PolicyExecutionIntent} (h : validExecutionIntent e k i = true) :
    validExecutionIntent e' k i = true := by
  unfold validExecutionIntent at h ⊢
  cases hr : e.resources.get? i.resourceID with
  | none => rw [hr] at h; cases h
  | some r =>
    rw [hr] at h
    rw [g.resources _ _ hr, g.identity]
    simp only [Bool.and_eq_true, decide_eq_true_eq] at h ⊢
    exact ⟨h.1, h.2.trans g.later⟩

/-- The receipt of no resource stays one of no resource: no resource has the empty identity. -/
theorem validRegistrationOperation_grows (hkeys : ∀ k r, e'.resources.get? k = some r → r.content.resourceID = k)
    {k : String} {r : PolicyExecutionRegistrationReceipt} (h : validRegistrationOperation e k r = true) :
    validRegistrationOperation e' k r = true := by
  simp only [validRegistrationOperation, Bool.and_eq_true, beq_iff_eq] at h ⊢
  refine ⟨h.1, ?_⟩
  have hid := h.2
  cases hr : e.resources.get? r.resourceID with
  | some resource =>
    rw [hr] at hid
    rw [g.resources _ _ hr]
    exact hid
  | none =>
    rw [hr] at hid
    cases hr' : e'.resources.get? r.resourceID with
    | none => exact hid
    | some resource => exact hkeys _ _ hr'

theorem validAttemptHold_grows {a : PolicyExecutionAttempt} (h : validAttemptHold e a = true) :
    validAttemptHold e' a = true := by
  unfold validAttemptHold at h ⊢
  cases hold : a.hold with
  | none => rfl
  | some hold' =>
    rw [hold] at h
    simp only [Bool.and_eq_true, decide_eq_true_eq] at h ⊢
    exact ⟨h.1, h.2.trans g.later⟩

theorem AttemptBound.grows {k : String} {q : PolicyExecutionReserveRequest} {result : PolicyExecutionReserveResult}
    {sessionID : String} (h : AttemptBound e k q result sessionID) : AttemptBound e' k q result sessionID := by
  obtain ⟨i, ep, r, hi, hep, hr, hrest⟩ := h.parts
  exact { h with parts := ⟨i, ep, r, g.intents _ _ hi, g.epochs _ _ hep, g.resources _ _ hr, hrest⟩ }

theorem validExecutionAttempt_grows {k : String} {a : PolicyExecutionAttempt} (h : validExecutionAttempt e k a = true) :
    validExecutionAttempt e' k a = true := by
  obtain ⟨hbound, htime, hpast, hhold, hstart⟩ := attemptValid_iff.mp h
  exact attemptValid_iff.mpr ⟨hbound.grows g, htime, hpast.trans g.later, validAttemptHold_grows g hhold, hstart⟩

end

end Desk
