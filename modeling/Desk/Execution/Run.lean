import Desk.Execution.AttemptsSound
import Desk.Execution.RegistrationSound
import Desk.Lib.Run

/-!
# Runs of the execution service

The commands of the service as one step function, and everything a step can do
to the ledger: nothing, keep a later reading of the clock, or one of the changes
the operations are limited to.
-/

namespace Desk

/-! ## Steps -/

inductive ExecutionCommand where
  | initialization
  | register (q : PolicyExecutionRegisterRequest) (seen : PolicyLedger)
  | prepareIntent (resource : PolicyExecutionResource) (registration : PolicyExecutionRegistration) (key : String)
      (raw : List UInt8)
  | activate (s : PolicyExecutionSession) (q : PolicyExecutionActivateRequest)
  | reserve (s : PolicyExecutionSession) (q : PolicyExecutionReserveRequest)
  | commitStart (s : PolicyExecutionSession) (q : PolicyExecutionStartRequest)
  | inspect (s : PolicyExecutionSession) (resource : PolicyExecutionResource)
  | history (s : PolicyExecutionSession) (intentID : String)

inductive ExecutionAnswer where
  | initialization (r : Except GoError Unit)
  | register (r : Except GoError PolicyExecutionRegisteredResult)
  | prepareIntent (r : Except GoError (PolicyExecutionIntent × Delivery))
  | activate (r : Except GoError PolicyExecutionActivateResult)
  | reserve (r : Except GoError PolicyExecutionReserveResult)
  | commitStart (r : Except GoError PolicyExecutionStartResult)
  | inspect (r : Except GoError PolicyExecutionInspectResult)
  | history (r : Except GoError PolicyExecutionHistoryResult)

def ExecutionCall.execute (c : ExecutionCall) (command : ExecutionCommand) (l : PolicyLedger) :
    ExecutionAnswer × PolicyLedger :=
  match command with
  | .initialization => (c.initializeExecution l).map .initialization id
  | .register q seen => (c.register q seen l).map .register id
  | .prepareIntent resource registration key raw => (c.prepareIntent resource registration key raw l).map .prepareIntent id
  | .activate s q => (c.activate s q l).map .activate id
  | .reserve s q => (c.reserve s q l).map .reserve id
  | .commitStart s q => (c.commitStart s q l).map .commitStart id
  | .inspect s resource => (.inspect (c.inspect s resource l), l)
  | .history s intentID => (.history (c.history s intentID l), l)

/-- A command with all that its call takes from outside. -/
structure ExecutionStep where
  call : ExecutionCall
  command : ExecutionCommand

def executionStep (l : PolicyLedger) (step : ExecutionStep) : PolicyLedger := (step.call.execute step.command l).2

namespace ExecutionCall

/-! ## One transaction -/

/-- The call is admitted to the state `e` of `l` at `now`. -/
structure Admitted (c : ExecutionCall) (l : PolicyLedger) (e : PolicyExecutionState) (now : String) : Prop where
  schema : l.schemaVersion = 3
  state : l.execution = some e
  identity : e.identity = c.identity
  year : 1970 ≤ c.clock.year ∧ c.clock.year ≤ 9999
  reading : now = c.clock.format
  later : e.lastTime ≤ now

/-- The state an operation of the call runs on. -/
abbrev at_ (e : PolicyExecutionState) (now : String) : PolicyExecutionState := { e with lastTime := now }

/-- Every way an update can end. -/
inductive UpdateEnd {α : Type} (c : ExecutionCall) (use : ExecutionUse α) (l : PolicyLedger) :
    Except GoError α → PolicyLedger → Prop where
  | refused {err : GoError} : UpdateEnd c use l (.error err) l
  | observed {e : PolicyExecutionState} {now : String} {err : GoError} : c.Admitted l e now →
      validatePolicyLedger (l.observed now) = true → UpdateEnd c use l (.error err) (l.observed now).committed
  | answered {e next : PolicyExecutionState} {now : String} {answer : Except GoError α} : c.Admitted l e now →
      use (l.observed now) (at_ e now) now = .ok (false, next, answer) → UpdateEnd c use l answer l
  | committed {e next : PolicyExecutionState} {now : String} {changed : Bool} {answer r : Except GoError α} :
      c.Admitted l e now → use (l.observed now) (at_ e now) now = .ok (changed, next, answer) →
      validatePolicyLedger { l with execution := some next } = true → (r = answer ∨ ∃ err, r = .error err) →
      UpdateEnd c use l r ({ l with execution := some next } : PolicyLedger).committed

theorem scopedState_eq_ok {c : ExecutionCall} {l : PolicyLedger} {e : PolicyExecutionState} (h : c.scopedState l = .ok e) :
    l.schemaVersion = 3 ∧ l.execution = some e ∧ e.identity = c.identity := by
  rw [scopedState, found_eq_ok, Option.filter_eq_some_iff] at h
  obtain ⟨h, hi⟩ := h
  split at h
  · rename_i hs
    exact ⟨hs, h, beq_iff_eq.mp hi⟩
  · cases h

theorem now_eq_ok {c : ExecutionCall} {now : String} (h : c.now = .ok now) :
    (1970 ≤ c.clock.year ∧ c.clock.year ≤ 9999) ∧ now = c.clock.format := by
  simp only [ExecutionCall.now, bind_eq_ok, require_eq_ok, Bool.and_eq_true, decide_eq_true_eq] at h
  obtain ⟨_, ⟨_, hy⟩, h⟩ := h
  cases h
  exact ⟨hy, rfl⟩

theorem outcome_eq_ok {α : Type} {use : ExecutionUse α} {l next : PolicyLedger} {e : PolicyExecutionState} {now : String}
    {changed : Bool} {answer : Except GoError α} (h : outcome use l e now = .ok (changed, next, answer)) :
    ∃ e', use (l.observed now) (at_ e now) now = .ok (changed, e', answer) ∧ next = { l with execution := some e' } := by
  simp only [outcome, bind_eq_ok] at h
  obtain ⟨⟨changed', e', answer'⟩, hu, h⟩ := h
  cases h
  exact ⟨e', hu, rfl⟩

/-- Every way the function of a transaction can end: a denial by the clock, or an observed outcome. -/
theorem transaction_eq_ok {α : Type} {c : ExecutionCall} {use : ExecutionUse α} {l next : PolicyLedger} {changed : Bool}
    {answer : Except GoError α} (h : c.transaction use l = .ok (changed, next, answer)) :
    (changed = false ∧ ∃ err, answer = .error err) ∨
      ∃ e now, c.Admitted l e now ∧ observe (outcome use l e now) e now l = (changed, next, answer) := by
  simp only [transaction, bind_eq_ok] at h
  obtain ⟨_, _, e, he, h⟩ := h
  obtain ⟨hs, hl, hi⟩ := scopedState_eq_ok he
  split at h
  · cases h; exact Or.inl ⟨rfl, _, rfl⟩
  · rename_i now hnow
    obtain ⟨hy, hr⟩ := now_eq_ok hnow
    split at h
    · cases h; exact Or.inl ⟨rfl, _, rfl⟩
    · rename_i hlast
      simp only [bind_eq_ok] at h
      obtain ⟨_, _, h⟩ := h
      exact Or.inr ⟨e, now, ⟨hs, hl, hi, hy, hr, not_lt.mp hlast⟩, Except.ok.inj h⟩

theorem update_end {α : Type} {c : ExecutionCall} {use : ExecutionUse α} {l l' : PolicyLedger} {r : Except GoError α}
    (h : c.update use l = (r, l')) : c.UpdateEnd use l r l' := by
  unfold update at h
  split at h
  · cases h; exact .refused
  · rcases Storage.command_cases h with ⟨rfl, ⟨err, rfl⟩ | ⟨next, hok⟩⟩ | ⟨next, answer, hok, hv, rfl, hr⟩
    · exact .refused
    · rcases transaction_eq_ok hok with ⟨_, err, rfl⟩ | ⟨e, now, hadm, hobs⟩
      · exact .refused
      · rcases observe_cases hobs with ⟨_, err, rfl⟩ | ⟨used, hused⟩
        · exact .refused
        · rw [hused] at hobs
          obtain ⟨e', hu, rfl⟩ := outcome_eq_ok hused
          have hunused : used = false := by
            have := congrArg Prod.fst hobs
            simp only [observe, Bool.or_eq_false_iff] at this
            exact this.2
          subst hunused
          exact .answered hadm hu
    · rcases transaction_eq_ok hok with ⟨hf, _⟩ | ⟨e, now, hadm, hobs⟩
      · cases hf
      · rcases observe_cases hobs with ⟨rfl, err, rfl⟩ | ⟨used, hused⟩
        · rcases hr with rfl | ⟨err', rfl⟩
          · exact .observed hadm hv
          · exact .observed hadm hv
        · obtain ⟨e', hu, rfl⟩ := outcome_eq_ok hused
          exact .committed hadm hu hv hr

/-! ## Changes -/

/-- What the command runs in its transaction. -/
inductive Submitted (c : ExecutionCall) : {α : Type} → ExecutionCommand → ExecutionUse α → Prop where
  | register {q : PolicyExecutionRegisterRequest} {seen : PolicyLedger}
      {use : ExecutionUse PolicyExecutionRegisteredResult} : c.registerAdmission q seen = .ok use →
      Submitted c (.register q seen) use
  | prepareIntent {resource : PolicyExecutionResource} {registration : PolicyExecutionRegistration} {key : String}
      {raw : List UInt8} {use : ExecutionUse (PolicyExecutionIntent × Delivery)} :
      c.prepareIntentAdmission resource registration key raw = .ok use →
      Submitted c (.prepareIntent resource registration key raw) use
  | activate {s : PolicyExecutionSession} {q : PolicyExecutionActivateRequest}
      {use : ExecutionUse PolicyExecutionActivateResult} : c.activateAdmission s q = .ok use →
      Submitted c (.activate s q) use
  | reserve {s : PolicyExecutionSession} {q : PolicyExecutionReserveRequest}
      {use : ExecutionUse PolicyExecutionReserveResult} : c.reserveAdmission s q = .ok use → Submitted c (.reserve s q) use
  | commitStart {s : PolicyExecutionSession} {q : PolicyExecutionStartRequest}
      {use : ExecutionUse PolicyExecutionStartResult} : c.commitStartAdmission s q = .ok use →
      Submitted c (.commitStart s q) use

/-- Everything a command changes in the execution state `e` of `l` at `now`. -/
inductive Change (c : ExecutionCall) (l : PolicyLedger) (e : PolicyExecutionState) (now : String) :
    ExecutionCommand → PolicyExecutionState → Prop where
  | registered {q : PolicyExecutionRegisterRequest} {seen : PolicyLedger} {material : PolicyExecutionReleaseMaterial}
      {resolve : PolicyLedger → String → String → Except GoError PolicyExecutionAdoption}
      {r : PolicyExecutionRegisteredResource} : c.resolveAdoption = some resolve → policyOperationIDForm q.operationID = true →
      Released c q r.content.resource r.content.release material → NewResource c l e now q material resolve r →
      Change c l e now (.register q seen)
        (withResource e q (registerDigest c.identity q) (executionResourceID c.identity q.jobID) r)
  | prepared {resource : PolicyExecutionResource} {registration : PolicyExecutionRegistration} {key : String}
      {raw : List UInt8} {refs : RetainedRequest} {i : PolicyExecutionIntent} {r : PolicyExecutionRegisteredResource} :
      executionKey key = true → RetainedParts refs → NewIntent c l e now resource registration key refs i r →
      Change c l e now (.prepareIntent resource registration key raw) { e with intents := e.intents.set i.id i }
  | activated {s : PolicyExecutionSession} {q : PolicyExecutionActivateRequest} {epoch : PolicyExecutionEpoch} :
      NewEpoch e now epoch → epoch.sessionID = s.id →
      Change c l e now (.activate s q)
        { e with epochs := e.epochs.set epoch.epoch epoch, currentEpoch := epoch.epoch }
  | held {s : PolicyExecutionSession} {q : PolicyExecutionReserveRequest} {a : PolicyExecutionAttempt} :
      Sealable c e s q.intentID a →
      Change c l e now (.reserve s q)
        { e with attempts := e.attempts.set q.intentID { a with hold := some ⟨.operationHeld, now⟩ } }
  | reserved {s : PolicyExecutionSession} {a : PolicyExecutionAttempt} {epoch : PolicyExecutionEpoch}
      {i : PolicyExecutionIntent} {r : PolicyExecutionRegisteredResource} : executionPayloadShape a.reserve.payload = true →
      NewAttempt c l e now s a epoch i r →
      Change c l e now (.reserve s a.reserve) { e with attempts := e.attempts.set a.reserve.intentID a }
  | started {s : PolicyExecutionSession} {q : PolicyExecutionStartRequest} {a : PolicyExecutionAttempt}
      {epoch : PolicyExecutionEpoch} {start : PolicyExecutionStartResult} : Started c l e now s q a epoch start →
      Change c l e now (.commitStart s q) { e with attempts := e.attempts.set q.intentID (startedAttempt a start) }

theorem Submitted.change {α : Type} {c : ExecutionCall} {command : ExecutionCommand} {use : ExecutionUse α}
    (hs : Submitted c command use) {l : PolicyLedger} {e next : PolicyExecutionState} {now : String} {changed : Bool} {answer : Except GoError α}
    (h : use l e now = .ok (changed, next, answer)) :
    (changed = false ∧ next = e) ∨ changed = true ∧ Change c l e now command next := by
  cases hs with
  | @register q seen use hadm =>
    simp only [registerAdmission, bind_eq_ok, require_eq_ok, Bool.and_eq_true] at hadm
    obtain ⟨_, ⟨⟨⟨hop, _⟩, _⟩, _⟩, _, _, existing, _, hadm⟩ := hadm
    split at hadm
    · cases hadm
      exact Or.inl (registeredUse_eq_ok h)
    · unfold firstRegistration at hadm
      split at hadm
      · rename_i resolveRelease resolveAdoption _ hresolve
        simp only [bind_eq_ok] at hadm
        obtain ⟨⟨resource, release, material⟩, hrel, hadm⟩ := hadm
        cases hadm
        rcases registerUse_eq_ok h with hkept | ⟨hc, r, hnew, rfl, rfl, rfl⟩
        · exact Or.inl hkept
        · exact Or.inr ⟨hc, .registered hresolve hop (resolvedRelease_eq_ok hrel) hnew⟩
      · cases hadm
  | prepareIntent hadm =>
    simp only [prepareIntentAdmission, bind_eq_ok, require_eq_ok, Bool.and_eq_true] at hadm
    obtain ⟨_, ⟨_, hkey⟩, body, hbody, _, _, refs, hrefs, hadm⟩ := hadm
    cases hadm
    rcases prepareIntentUse_eq_ok h with hkept | ⟨hc, i, r, hnew, rfl⟩
    · exact Or.inl hkept
    · exact Or.inr ⟨hc, .prepared hkey (retainRequest_eq_ok hbody hrefs) hnew⟩
  | activate hadm =>
    simp only [activateAdmission, bind_eq_ok, require_eq_ok, Bool.and_eq_true, beq_iff_eq] at hadm
    obtain ⟨_, _, _, ⟨hq, hsigning⟩, hadm⟩ := hadm
    cases hadm
    rcases activateUse_eq_ok hq hsigning h with ⟨hc, hn, _⟩ | ⟨hc, epoch, hnew, hsession, rfl⟩
    · exact Or.inl ⟨hc, hn⟩
    · exact Or.inr ⟨hc, .activated hnew hsession⟩
  | reserve hadm =>
    simp only [reserveAdmission, bind_eq_ok, require_eq_ok, Bool.and_eq_true] at hadm
    obtain ⟨_, ⟨⟨_, hshape⟩, _⟩, _, _, hadm⟩ := hadm
    cases hadm
    rcases reserveUse_eq_ok h with ⟨a, _, _, ⟨hc, hn, _⟩ | ⟨hc, hseal, rfl⟩⟩ | ⟨hc, a, epoch, i, r, hnew, rfl, rfl, _⟩
    · exact Or.inl ⟨hc, hn⟩
    · exact Or.inr ⟨hc, .held hseal⟩
    · exact Or.inr ⟨hc, .reserved hshape hnew⟩
  | commitStart hadm =>
    simp only [commitStartAdmission, bind_eq_ok] at hadm
    obtain ⟨_, _, _, _, hadm⟩ := hadm
    cases hadm
    rcases commitStartUse_eq_ok h with ⟨hc, hn, _⟩ | ⟨hc, a, epoch, start, hstart, _, rfl⟩
    · exact Or.inl ⟨hc, hn⟩
    · exact Or.inr ⟨hc, .started hstart⟩

/-! ## Effects -/

/-- Every ledger a command can leave. -/
inductive Effect (c : ExecutionCall) (command : ExecutionCommand) (l : PolicyLedger) : PolicyLedger → Prop where
  | unchanged : Effect c command l l
  | initialized {next : PolicyLedger} {now : String} : l.execution = none →
      next = { l with schemaVersion := 3, execution := some (initialState c.identity now) } →
      validatePolicyLedger next = true → Effect c command l next.committed
  | observed {e : PolicyExecutionState} {now : String} : c.Admitted l e now →
      validatePolicyLedger (l.observed now) = true → Effect c command l (l.observed now).committed
  | changed {e next : PolicyExecutionState} {now : String} : c.Admitted l e now →
      Change c (l.observed now) (at_ e now) now command next →
      validatePolicyLedger { l with execution := some next } = true →
      Effect c command l ({ l with execution := some next } : PolicyLedger).committed

theorem Admitted.observed_eq {c : ExecutionCall} {l : PolicyLedger} {e : PolicyExecutionState} {now : String}
    (h : c.Admitted l e now) : ({ l with execution := some (at_ e now) } : PolicyLedger) = l.observed now := by
  rw [PolicyLedger.observed, h.state]
  rfl

theorem update_effect {α : Type} {c : ExecutionCall} {command : ExecutionCommand} {use : ExecutionUse α}
    (hs : Submitted c command use) {l : PolicyLedger} : c.Effect command l (c.update use l).2 := by
  cases h : c.update use l with
  | mk r l' =>
    cases update_end h with
    | refused => exact .unchanged
    | observed hadm hv => exact .observed hadm hv
    | answered => exact .unchanged
    | committed hadm hu hv =>
      rcases hs.change hu with ⟨_, rfl⟩ | ⟨_, hchange⟩
      · simp only [hadm.observed_eq] at hv ⊢
        exact .observed hadm hv
      · exact .changed hadm hchange hv

theorem submit_effect {α : Type} {c : ExecutionCall} {command : ExecutionCommand}
    {admission : Except GoError (ExecutionUse α)} (hs : ∀ use, admission = .ok use → Submitted c command use)
    {l : PolicyLedger} : c.Effect command l (c.submit admission l).2 := by
  unfold submit
  split
  · exact .unchanged
  · rename_i use
    exact update_effect (hs use rfl)

/-- A successful answer is the answer of the operation, on a state whose successor is committed if it asks for it. -/
theorem submit_ok {α : Type} {c : ExecutionCall} {admission : Except GoError (ExecutionUse α)} {l l' : PolicyLedger}
    {a : α} (h : c.submit admission l = (.ok a, l')) :
    ∃ use e next now changed, admission = .ok use ∧ c.Admitted l e now ∧
      use (l.observed now) (at_ e now) now = .ok (changed, next, .ok a) ∧
      (changed = false ∧ l' = l ∨ l' = ({ l with execution := some next } : PolicyLedger).committed) := by
  unfold submit at h
  split at h
  · cases h
  · rename_i use
    generalize hr : (.ok a : Except GoError α) = r at h
    cases update_end h with
    | refused => cases hr
    | observed => cases hr
    | answered hadm hu => subst hr; exact ⟨use, _, _, _, _, rfl, hadm, hu, Or.inl ⟨rfl, rfl⟩⟩
    | committed hadm hu _ hanswer =>
      rcases hanswer with rfl | ⟨_, rfl⟩
      · subst hr; exact ⟨use, _, _, _, _, rfl, hadm, hu, Or.inr rfl⟩
      · cases hr

theorem initialize_effect {c : ExecutionCall} {l : PolicyLedger} :
    c.Effect .initialization l (c.initializeExecution l).2 := by
  unfold initializeExecution
  split
  · exact .unchanged
  · cases h : c.storage.update c.initializeUse l with
    | mk r l' =>
      rcases Storage.update_cases h with ⟨_, _, rfl⟩ | ⟨_, _, _, _, rfl⟩ | ⟨next, _, hu, hv, rfl, _⟩
      · exact .unchanged
      · exact .unchanged
      · simp only [initializeUse, bind_eq_ok] at hu
        obtain ⟨_, _, hu⟩ := hu
        split at hu
        · simp only [bind_eq_ok] at hu
          obtain ⟨_, _, hu⟩ := hu
          cases hu
        · rename_i hnone
          simp only [initializePolicyExecutionLedger, bind_eq_ok] at hu
          obtain ⟨_, _, now, _, next', ⟨_, _, hn⟩, _, _, hu⟩ := hu
          cases hn
          cases hu
          exact .initialized hnone rfl hv

theorem Effect.valid {c : ExecutionCall} {command : ExecutionCommand} {l l' : PolicyLedger}
    (h : Effect c command l l') (hv : validatePolicyLedger l = true) : validatePolicyLedger l' = true := by
  cases h with
  | unchanged => exact hv
  | initialized _ _ hnext => rwa [validatePolicyLedger_committed]
  | observed _ hnext => rwa [validatePolicyLedger_committed]
  | changed _ _ hnext => rwa [validatePolicyLedger_committed]

end ExecutionCall

theorem executionStep_effect (l : PolicyLedger) (step : ExecutionStep) :
    step.call.Effect step.command l (executionStep l step) := by
  obtain ⟨c, command⟩ := step
  cases command with
  | initialization => exact ExecutionCall.initialize_effect
  | register q seen => exact ExecutionCall.submit_effect fun _ h => .register h
  | prepareIntent resource registration key raw => exact ExecutionCall.submit_effect fun _ h => .prepareIntent h
  | activate s q => exact ExecutionCall.submit_effect fun _ h => .activate h
  | reserve s q => exact ExecutionCall.submit_effect fun _ h => .reserve h
  | commitStart s q => exact ExecutionCall.submit_effect fun _ h => .commitStart h
  | inspect s resource => exact .unchanged
  | history s intentID => exact .unchanged

end Desk
