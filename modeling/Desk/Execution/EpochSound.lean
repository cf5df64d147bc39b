import Desk.Execution.StartSound

/-!
# Only the current epoch starts

A reservation answered again is sealed, a blocked attempt stays blocked, and a
start is decided by the session of the current epoch. An epoch that has been
superseded is never current again, so its attempts keep their state.
-/

namespace Desk

open ExecutionCall (startedAttempt Started Admitted Change Effect at_)

/-! ## Sealing -/

/-- A reservation that is answered while its attempt is reserved leaves the attempt sealed. -/
theorem reserve_seals {c : ExecutionCall} {s : PolicyExecutionSession} {q : PolicyExecutionReserveRequest}
    {l l' : PolicyLedger} {r : PolicyExecutionReserveResult} {a : PolicyExecutionAttempt}
    (h : c.reserve s q l = (.ok r, l')) (ha : attemptOf l q.intentID = some a) (hstate : a.state = .reserved) :
    r.delivery = .recovered ∧ ∃ hold, attemptOf l' q.intentID = some { a with hold := some hold } := by
  obtain ⟨use, e, next, now, changed, hadmission, hadm, hu, hl⟩ := ExecutionCall.submit_ok h
  simp only [ExecutionCall.reserveAdmission, bind_eq_ok] at hadmission
  obtain ⟨_, _, _, _, huse⟩ := hadmission
  cases huse
  have hattempt : e.attempts.get? q.intentID = some a := by rw [← attemptOf_eq hadm.state]; exact ha
  rcases ExecutionCall.reserveUse_eq_ok hu with ⟨b, hb, hanswer, hcase⟩ | ⟨_, b, epoch, i, res, hnew, rfl, _⟩
  · cases hanswer
    refine ⟨rfl, ?_⟩
    have hab : b = a := Option.some.inj (hb.symm.trans hattempt)
    subst hab
    rcases hcase with ⟨_, rfl, hhold⟩ | ⟨hc, _, rfl⟩
    · -- sealed before
      obtain ⟨hold, hh⟩ := Option.ne_none_iff_exists'.mp (hhold hstate)
      have hsame : ({ b with hold := some hold } : PolicyExecutionAttempt) = b := by rw [← hh]
      refine ⟨hold, ?_⟩
      rw [hsame]
      rcases hl with ⟨_, rfl⟩ | rfl
      · exact ha
      · exact hattempt
    · rcases hl with ⟨hf, _⟩ | rfl
      · rw [hc] at hf; cases hf
      · exact ⟨_, Table.get?_set_self _ _ _⟩
  · rw [show e.attempts.get? b.reserve.intentID = none from hnew.first] at hattempt
    cases hattempt

/-! ## Epochs -/

theorem epoch_key {l : PolicyLedger} {e : PolicyExecutionState} (hv : ExecutionValid l e) {k : String}
    {v : PolicyExecutionEpoch} (h : e.epochs.get? k = some v) : v.epoch = k := by
  have := Table.all_iff.mp hv.epochs k v h
  simp only [validExecutionEpoch, Bool.and_eq_true, beq_iff_eq] at this
  exact this.1.1.1.1.1.1.1.symm

theorem attempt_epoch {l : PolicyLedger} {e : PolicyExecutionState} (hv : ExecutionValid l e) {k : String}
    {a : PolicyExecutionAttempt} (h : e.attempts.get? k = some a) : ∃ v, e.epochs.get? a.reserved.epoch = some v := by
  have := Table.all_iff.mp hv.attempts k a h
  unfold validExecutionAttempt at this
  split at this
  · rename_i i ep _ hep
    exact ⟨ep, hep⟩
  · cases this

/-- The next epoch is not one there is already: the validator counts them. -/
theorem newEpoch_fresh {l : PolicyLedger} {e : PolicyExecutionState} {now : String} {epoch : PolicyExecutionEpoch}
    (hnew : ExecutionCall.NewEpoch e now epoch)
    (hv : ExecutionValid l { e with epochs := e.epochs.set epoch.epoch epoch, currentEpoch := epoch.epoch }) :
    e.epochs.get? epoch.epoch = none := by
  cases h : e.epochs.get? epoch.epoch with
  | none => rfl
  | some old =>
    exfalso
    have hsize : (e.epochs.set epoch.epoch epoch).size = e.epochs.size := Table.size_set_old h
    rcases hv.numbers.last with hzero | hlast
    · simp only [hsize] at hzero
      have hempty := Table.get?_of_size_zero hzero epoch.epoch
      rw [h] at hempty
      cases hempty
    · have hlast : epoch.epoch = Nat.repr (e.epochs.set epoch.epoch epoch).size := hlast
      rw [hsize, hnew.number] at hlast
      have := Nat.repr_inj.mp hlast
      omega

/-! ## Valid ledgers -/

theorem run_valid {l : PolicyLedger} (hv : validatePolicyLedger l = true) (steps : List ExecutionStep) :
    validatePolicyLedger (run executionStep l steps) = true :=
  run_invariant (P := fun l => validatePolicyLedger l = true)
    (fun l step hl => (executionStep_effect l step).valid hl) hv steps

/-! ## Superseded epochs -/

/-- An epoch that is recorded and not current. -/
def Superseded (l : PolicyLedger) (k : String) : Prop :=
  ∃ e, l.execution = some e ∧ e.currentEpoch ≠ k ∧ ∃ v, e.epochs.get? k = some v

theorem ExecutionCall.Effect.superseded {c : ExecutionCall} {command : ExecutionCommand} {l l' : PolicyLedger} {k : String}
    (h : Effect c command l l') (hs : Superseded l k) : Superseded l' k := by
  obtain ⟨e, he, hcur, v, hv⟩ := hs
  cases h with
  | unchanged => exact ⟨e, he, hcur, v, hv⟩
  | initialized hnone => rw [hnone] at he; cases he
  | @observed e' now hadm =>
    refine ⟨at_ e now, ?_, hcur, v, hv⟩
    rw [PolicyLedger.committed_execution, PolicyLedger.observed_execution, he]
    rfl
  | @changed e' next now hadm hchange hvalid =>
    have hee : e' = e := Option.some.inj (hadm.state.symm.trans he)
    subst hee
    refine ⟨next, rfl, ?_⟩
    cases hchange with
    | registered => exact ⟨hcur, v, hv⟩
    | prepared => exact ⟨hcur, v, hv⟩
    | held => exact ⟨hcur, v, hv⟩
    | reserved => exact ⟨hcur, v, hv⟩
    | started => exact ⟨hcur, v, hv⟩
    | @activated s q epoch hnew _ =>
      have hfresh := newEpoch_fresh hnew ((ledgerValid_iff.mp hvalid).executionValid rfl)
      have hne : epoch.epoch ≠ k := by
        rintro rfl
        rw [show e'.epochs.get? epoch.epoch = none from hfresh] at hv
        cases hv
      exact ⟨hne, v, by simpa [Table.get?_set_ne _ _ hne.symm] using hv⟩

/-! ## Decisions -/

/-- The start of an attempt is decided by `step` in `l`: by the session that has reserved it and owns the
current epoch, the epoch it has been reserved in. -/
structure DecidedBy (l : PolicyLedger) (step : ExecutionStep) (intentID : String) (a b : PolicyExecutionAttempt) :
    Prop where
  command : ∃ s q, step.command = .commitStart s q ∧ q.intentID = intentID ∧ a.sessionID = s.id ∧
    ∃ e epoch, l.execution = some e ∧ e.currentEpoch = a.reserved.epoch ∧
      e.epochs.get? e.currentEpoch = some epoch ∧ epoch.sessionID = s.id
  unsealed : a.state = .reserved ∧ a.hold = none
  start : b.start.isSome
  state : b.state = .startCommitted ∨ b.state = .blocked

theorem startedAttempt_state (a : PolicyExecutionAttempt) (q : PolicyExecutionStartRequest)
    (reason : ExecutionReason) (now revision : String) :
    (startedAttempt a (ExecutionCall.startResult q reason now revision)).state = .startCommitted ∨
      (startedAttempt a (ExecutionCall.startResult q reason now revision)).state = .blocked := by
  unfold startedAttempt ExecutionCall.startResult ExecutionCall.startDecision
  split
  · exact Or.inl rfl
  · exact Or.inr rfl

/-- An attempt that is recorded keeps its state and its start, or this step decides it. -/
theorem executionStep_decides {l : PolicyLedger} (hv : validatePolicyLedger l = true) (step : ExecutionStep)
    {intentID : String} {a : PolicyExecutionAttempt} (ha : attemptOf l intentID = some a) :
    ∃ b, attemptOf (executionStep l step) intentID = some b ∧ b.reserved = a.reserved ∧
      (b.state = a.state ∧ b.start = a.start ∨ DecidedBy l step intentID a b) := by
  have hstep := executionStep_attempt l step intentID
  rw [ha] at hstep
  generalize attemptOf (executionStep l step) intentID = new at hstep
  cases hstep with
  | kept => exact ⟨a, rfl, rfl, Or.inl ⟨rfl, rfl⟩⟩
  | held => exact ⟨_, rfl, rfl, Or.inl ⟨rfl, rfl⟩⟩
  | @started a start e now s q epoch hadm hstart hcommand hid =>
    refine ⟨_, rfl, rfl, Or.inr ⟨⟨s, q, hcommand, hid, hstart.session, e, epoch, hadm.state, ?_, hstart.active.current,
      hstart.active.owner⟩, ⟨hstart.state, hstart.hold⟩, rfl, ?_⟩⟩
    · have hkey := epoch_key ((ledgerValid_iff.mp hv).executionValid hadm.state) hstart.active.current
      rw [hstart.reservedIn]
      exact hkey.symm
    · rw [hstart.start]
      exact startedAttempt_state a q _ _ _

/-- The recorded attempt still has the state and the start of `a`. -/
def DecisionKept (a : PolicyExecutionAttempt) (l : PolicyLedger) (intentID : String) : Prop :=
  ∃ b, attemptOf l intentID = some b ∧ b.reserved = a.reserved ∧ b.state = a.state ∧ b.start = a.start

/-- No run decides an attempt of a superseded epoch. -/
theorem run_superseded {l : PolicyLedger} (hv : validatePolicyLedger l = true) {a : PolicyExecutionAttempt}
    {intentID : String} (ha : DecisionKept a l intentID) (hs : Superseded l a.reserved.epoch) (steps : List ExecutionStep) :
    DecisionKept a (run executionStep l steps) intentID := by
  refine (run_invariant
    (P := fun l => validatePolicyLedger l = true ∧ Superseded l a.reserved.epoch ∧ DecisionKept a l intentID)
    (fun l step h => ?_) ⟨hv, hs, ha⟩ steps).2.2
  obtain ⟨hv, hs, b, hb, hreserved, hstate, hstart⟩ := h
  refine ⟨(executionStep_effect l step).valid hv, (executionStep_effect l step).superseded hs, ?_⟩
  obtain ⟨b', hb', hreserved', hkept | hdecided⟩ := executionStep_decides hv step hb
  · exact ⟨b', hb', hreserved'.trans hreserved, hkept.1.trans hstate, hkept.2.trans hstart⟩
  · obtain ⟨s, q, _, _, _, e, epoch, he, hcur, _⟩ := hdecided.command
    obtain ⟨e', he', hne, _⟩ := hs
    rw [he] at he'
    cases he'
    exact absurd (hcur.trans (congrArg PolicyExecutionReserveResult.epoch hreserved)) hne

/-- An activation that is committed supersedes the epochs there were. -/
theorem activate_supersedes {c : ExecutionCall} {s : PolicyExecutionSession} {q : PolicyExecutionActivateRequest}
    {l l' : PolicyLedger} {r : PolicyExecutionActivateResult} (hv : validatePolicyLedger l' = true)
    (h : c.activate s q l = (.ok r, l')) (hr : r.delivery = .committed) {e : PolicyExecutionState}
    (he : l.execution = some e) {k : String} {v : PolicyExecutionEpoch} (hk : e.epochs.get? k = some v) :
    Superseded l' k := by
  obtain ⟨use, e', next, now, changed, hadmission, hadm, hu, hl⟩ := ExecutionCall.submit_ok h
  have hee : e' = e := Option.some.inj (hadm.state.symm.trans he)
  subst hee
  simp only [ExecutionCall.activateAdmission, bind_eq_ok, require_eq_ok, Bool.and_eq_true, beq_iff_eq] at hadmission
  obtain ⟨_, _, _, ⟨hq, hsigning⟩, huse⟩ := hadmission
  cases huse
  rcases ExecutionCall.activateUse_eq_ok hq hsigning hu with ⟨_, _, r', hanswer, hdelivery⟩ | ⟨hc, epoch, hnew, _, rfl⟩
  · cases hanswer
    rw [hr] at hdelivery
    cases hdelivery
  · rcases hl with ⟨hf, _⟩ | rfl
    · rw [hc] at hf; cases hf
    · rw [validatePolicyLedger_committed] at hv
      have hfresh := newEpoch_fresh hnew ((ledgerValid_iff.mp hv).executionValid rfl)
      have hne : epoch.epoch ≠ k := by
        rintro rfl
        rw [show e'.epochs.get? epoch.epoch = none from hfresh] at hk
        cases hk
      exact ⟨_, rfl, hne, v, by simpa [Table.get?_set_ne _ _ hne.symm] using hk⟩

/-! ## The rules of a run -/

/-- What holds of the attempts of an intent between the ledger `before` a step and the ledger of the run that goes on
with it to `last`. -/
structure EpochRules (intentID : String) (before : PolicyLedger) (step : ExecutionStep) (last : PolicyLedger) : Prop where
  /-- A reservation that is answered from a reserved attempt seals it for good. -/
  recovered : ∀ s q r a, step.command = .reserve s q → q.intentID = intentID → attemptOf before intentID = some a →
    a.state = .reserved → (step.call.reserve s q before).1 = .ok r →
    r.delivery = .recovered ∧ ∃ hold, attemptOf last intentID = some { a with hold := some hold }
  blocked : ∀ a, attemptOf before intentID = some a → a.state = .blocked → attemptOf last intentID = some a
  decided : ∀ a, attemptOf before intentID = some a → ∃ b, attemptOf (executionStep before step) intentID = some b ∧
    b.reserved = a.reserved ∧ (b.state = a.state ∧ b.start = a.start ∨ DecidedBy before step intentID a b)
  stale : ∀ a e, attemptOf before intentID = some a → before.execution = some e → e.currentEpoch ≠ a.reserved.epoch →
    DecisionKept a last intentID
  /-- A committed activation leaves every attempt there is as it is. -/
  activated : ∀ s q r a, step.command = .activate s q → (step.call.activate s q before).1 = .ok r →
    r.delivery = .committed → attemptOf before intentID = some a → DecisionKept a last intentID

theorem attempt_recorded_epoch {l : PolicyLedger} (hv : validatePolicyLedger l = true) {intentID : String}
    {a : PolicyExecutionAttempt} (ha : attemptOf l intentID = some a) {e : PolicyExecutionState}
    (he : l.execution = some e) : ∃ v, e.epochs.get? a.reserved.epoch = some v := by
  rw [attemptOf_eq he] at ha
  exact attempt_epoch ((ledgerValid_iff.mp hv).executionValid he) ha

theorem attemptOf_execution {l : PolicyLedger} {intentID : String} {a : PolicyExecutionAttempt}
    (ha : attemptOf l intentID = some a) : ∃ e, l.execution = some e := by
  rw [attemptOf, Option.bind_eq_some_iff] at ha
  obtain ⟨e, he, _⟩ := ha
  exact ⟨e, he⟩

theorem DecisionKept.refl {a : PolicyExecutionAttempt} {l : PolicyLedger} {intentID : String}
    (ha : attemptOf l intentID = some a) : DecisionKept a l intentID := ⟨a, ha, rfl, rfl, rfl⟩

/-- The rules of the current epoch hold at every step of every run from a valid ledger. -/
theorem only_the_current_epoch_starts {l : PolicyLedger} (hv : validatePolicyLedger l = true)
    (pre : List ExecutionStep) (step : ExecutionStep) (post : List ExecutionStep) (intentID : String) :
    EpochRules intentID (run executionStep l pre) step (run executionStep l (pre ++ step :: post)) := by
  have hvalid := run_valid hv pre
  rw [run_append, run_cons]
  generalize run executionStep l pre = before at hvalid ⊢
  have hafter := (executionStep_effect before step).valid hvalid
  constructor
  · intro s q r a hcommand hid ha hstate hr
    subst hid
    have hl : executionStep before step = (step.call.reserve s q before).2 := by
      obtain ⟨c, command⟩ := step
      cases hcommand
      rfl
    have hok : step.call.reserve s q before = (.ok r, executionStep before step) := by rw [hl, ← hr]
    obtain ⟨hdelivery, hold, hsealed⟩ := reserve_seals hok ha hstate
    exact ⟨hdelivery, hold, run_final (Or.inr (Option.some_ne_none hold)) hsealed post⟩
  · intro a ha hstate
    have hfinal : Final a := Or.inl (by rw [hstate]; exact ExecutionState.noConfusion)
    exact run_final hfinal ha (step :: post)
  · exact fun a ha => executionStep_decides hvalid step ha
  · intro a e ha he hne
    exact run_superseded hvalid (DecisionKept.refl ha) ⟨e, he, hne, attempt_recorded_epoch hvalid ha he⟩ (step :: post)
  · intro s q r a hcommand hr hdelivery ha
    have hl : executionStep before step = (step.call.activate s q before).2 := by
      obtain ⟨c, command⟩ := step
      cases hcommand
      rfl
    have hok : step.call.activate s q before = (.ok r, executionStep before step) := by rw [hl, ← hr]
    obtain ⟨e, he⟩ := attemptOf_execution ha
    obtain ⟨v, hepoch⟩ := attempt_recorded_epoch hvalid ha he
    have hsuperseded := activate_supersedes hafter hok hdelivery he hepoch
    obtain ⟨b, hb, hreserved, hkept | hdecided⟩ := executionStep_decides hvalid step ha
    · exact run_superseded hafter ⟨b, hb, hreserved, hkept⟩ hsuperseded post
    · obtain ⟨s', q', hcommand', _⟩ := hdecided.command
      rw [hcommand] at hcommand'
      cases hcommand'

/-! ## Two sessions in turn -/

namespace Sample

def executionIdentity : PolicyExecutionIdentity :=
  { installationID := digest '1', machineWorkspace := digest '2', executorID := digest '3', runnerWorkspace := "runner" }

/-- The published policy under an execution authority without epochs. -/
def executionLedger : PolicyLedger :=
  { ledger with
    schemaVersion := 3
    execution := some (ExecutionCall.initialState executionIdentity "2026-01-02T00:00:00Z") }

theorem executionLedger_valid : LedgerValid executionLedger :=
  { ledgerValid_iff.mp ledger_valid with schema := Or.inr rfl, execution := by decide +kernel }

def executionCall : ExecutionCall where
  codec := ⟨fun _ => none, fun _ => none, fun _ => none, Char.toLower, fun _ _ _ => true⟩
  authorized := fun _ => true
  clock := clock
  token := fun n => some (if n = 0 then ⟨token 'e', hexForm_token⟩ else ⟨token 'f', by decide⟩)
  retained := fun _ => none
  stores := fun _ => true
  storage := ⟨none, none⟩
  reading := ⟨none, none⟩
  identity := executionIdentity
  anchor := some ⟨digest '1', digest '2'⟩
  hasArtifacts := true
  hasClock := true
  resolveRelease := none
  resolveAdoption := none

def session (id : Char) : PolicyExecutionSession :=
  { identity := executionIdentity, id := digest id, challenge := digest '9', owned := some fun _ => true }

def activateStep (id : Char) : ExecutionStep :=
  ⟨executionCall, .activate (session id) ⟨digest '9', ⟨.off, ""⟩⟩⟩

end Sample

theorem only_the_current_epoch_starts_sample :
    validatePolicyLedger Sample.executionLedger = true ∧
      EpochRules "intent_1" (run executionStep Sample.executionLedger [Sample.activateStep '7']) (Sample.activateStep '8')
        (run executionStep Sample.executionLedger [Sample.activateStep '7', Sample.activateStep '8']) :=
  have h := ledgerValid_iff.mpr Sample.executionLedger_valid
  ⟨h, only_the_current_epoch_starts h [Sample.activateStep '7'] (Sample.activateStep '8') [] "intent_1"⟩

end Desk
