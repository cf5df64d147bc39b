import Desk.Execution.HighWaterSound

/-!
# Commands that are refused

What a command decides before anything is committed, and that a refusal leaves
the ledger as it was but for the time, and for the one attempt a reservation or
a start of the same intent blocks or holds.
-/

namespace Desk

open ExecutionCall (startedAttempt at_)

/-! ## Decisions -/

/-- What a transaction decides, before the storage commits it. -/
def decision {α : Type} (use : Transaction (Except GoError α)) (l : PolicyLedger) : Except GoError α :=
  match use l with
  | .error e => .error e
  | .ok (_, _, answer) => answer

/-- The decision of a submitted operation. -/
def ExecutionCall.decision {α : Type} (c : ExecutionCall) (admission : Except GoError (ExecutionUse α))
    (l : PolicyLedger) : Except GoError α :=
  match admission with
  | .error e => .error e
  | .ok use => match c.permitted 0 with
    | .error e => .error e
    | .ok _ => Desk.decision (c.transaction use) l

def ExecutionCall.decided (c : ExecutionCall) (command : ExecutionCommand) (l : PolicyLedger) : ExecutionAnswer :=
  match command with
  | .register q seen => .register (c.decision (c.registerAdmission q seen) l)
  | .prepareIntent resource registration key raw =>
    .prepareIntent (c.decision (c.prepareIntentAdmission resource registration key raw) l)
  | .activate s q => .activate (c.decision (c.activateAdmission s q) l)
  | .reserve s q => .reserve (c.decision (c.reserveAdmission s q) l)
  | .commitStart s q => .commitStart (c.decision (c.commitStartAdmission s q) l)
  | .initialization => .initialization (match c.permitted 0 with
    | .error e => .error e
    | .ok _ => (c.initializeUse l).map fun out => out.2.2)
  | .inspect s resource => (c.execute (.inspect s resource) l).1
  | .history s intentID => (c.execute (.history s intentID) l).1

/-- Nothing is granted: an error, a reservation that only recovers an earlier one, a start that is blocked. -/
def ExecutionAnswer.refused : ExecutionAnswer → Bool
  | .initialization (.error _) | .register (.error _) | .prepareIntent (.error _) | .activate (.error _)
  | .reserve (.error _) | .commitStart (.error _) | .inspect (.error _) | .history (.error _) => true
  | .reserve (.ok r) => decide (r.delivery = .recovered)
  | .commitStart (.ok r) => decide (r.decision = .blocked)
  | _ => false

def LifecycleCommand.decided (command : LifecycleCommand) (l : PolicyLedger) : Except GoError PolicyMutationReply :=
  match LifecycleAction.ofText command.request.action with
  | none => .error (.refusal (policyRefusal 400 "bad-request" "Invalid policy lifecycle action."))
  | some action =>
    if !(policyOperationIDForm command.request.operationID) then
      .error (.refusal (policyRefusal 400 "bad-request" "Invalid policy lifecycle action."))
    else decision (command.call.lifecycleAuthorityUpdate command.id command.actor command.request action) l

/-- The storage does not fail after the commit. -/
def Storage.failsBefore (s : Storage) : Prop := ∀ e, s.after ≠ some (e, true)

/-- The command is refused, or fails before the commit. -/
def ClockedCommand.refused (l : PolicyLedger) : ClockedCommand → Prop
  | .execution ⟨c, command⟩ =>
    (c.decided command l).refused = true ∨ (c.execute command l).1.refused = true ∧ c.storage.failsBefore
  | .lifecycle command =>
    (∃ e, command.decided l = .error e) ∨
      (∃ e, (command.call.lifecycleCommand command.id command.actor command.request l).1 = .error e) ∧
        command.call.storage.failsBefore

/-! ## What a refusal leaves -/

/-- The execution state a refused command leaves of `e`. -/
inductive Leaves (e : PolicyExecutionState) : ClockedCommand → PolicyExecutionState → Prop
  | time {command : ClockedCommand} : Leaves e command e
  /-- A reservation that is not eligible enters its intent blocked. -/
  | blocked {c : ExecutionCall} {s : PolicyExecutionSession} {a : PolicyExecutionAttempt} :
      e.attempts.get? a.reserve.intentID = none → a.state = .blocked → a.start = none → a.hold = none →
      Leaves e (.execution ⟨c, .reserve s a.reserve⟩) { e with attempts := e.attempts.set a.reserve.intentID a }
  /-- A repeated reservation holds the attempt. -/
  | held {c : ExecutionCall} {s : PolicyExecutionSession} {q : PolicyExecutionReserveRequest}
      {a : PolicyExecutionAttempt} {hold : PolicyExecutionHold} :
      e.attempts.get? q.intentID = some a → a.hold = none →
      Leaves e (.execution ⟨c, .reserve s q⟩)
        { e with attempts := e.attempts.set q.intentID { a with hold := some hold } }
  /-- A start that is not eligible blocks the attempt. -/
  | unstarted {c : ExecutionCall} {s : PolicyExecutionSession} {q : PolicyExecutionStartRequest}
      {a : PolicyExecutionAttempt} {start : PolicyExecutionStartResult} :
      e.attempts.get? q.intentID = some a → a.state = .reserved → start.decision = .blocked →
      Leaves e (.execution ⟨c, .commitStart s q⟩)
        { e with attempts := e.attempts.set q.intentID (startedAttempt a start) }

/-- What is left of `l` by a refused command: the ledger as it was, or its execution state at a later time. -/
def Kept (l : PolicyLedger) (command : ClockedCommand) (l' : PolicyLedger) : Prop :=
  l' = l ∨ ∃ e now e', l.execution = some e ∧ e.lastTime ≤ now ∧ Leaves (at_ e now) command e' ∧
    l' = ({ l with execution := some e' } : PolicyLedger).committed

/-! ## Transactions -/

namespace Storage

variable {α : Type} {s : Storage} {l l' : PolicyLedger}

/-- What an update commits it answers, unless the storage fails after the commit. -/
theorem update_committed {use : Transaction α} {r : Except GoError α} (h : s.update use l = (r, l')) :
    l' = l ∨ ∃ next a, use l = .ok (true, next, a) ∧ l' = next.committed ∧ (r = .ok a ∨ ¬s.failsBefore) := by
  unfold update at h
  split at h
  · exact Or.inl (congrArg Prod.snd h).symm
  · split at h
    · exact Or.inl (congrArg Prod.snd h).symm
    · exact Or.inl (congrArg Prod.snd h).symm
    · rename_i next a hu
      split at h
      · exact Or.inl (congrArg Prod.snd h).symm
      · split at h
        · exact Or.inl (congrArg Prod.snd h).symm
        · split at h
          · rename_i e took hafter
            cases took with
            | false => exact Or.inl (congrArg Prod.snd h).symm
            | true =>
              refine Or.inr ⟨next, a, hu, (congrArg Prod.snd h).symm, Or.inr fun hbefore => ?_⟩
              exact hbefore e hafter
          · exact Or.inr ⟨next, a, hu, (congrArg Prod.snd h).symm, Or.inl (congrArg Prod.fst h).symm⟩

theorem command_committed {use : Transaction (Except GoError α)} {r : Except GoError α}
    (h : s.command use l = (r, l')) :
    l' = l ∨
      ∃ next answer, use l = .ok (true, next, answer) ∧ l' = next.committed ∧ (r = answer ∨ ¬s.failsBefore) := by
  unfold command at h
  cases hu : s.update use l with
  | mk r₀ l₀ =>
    rw [hu] at h
    rcases update_committed hu with rfl | ⟨next, answer, hok, rfl, hr⟩
    · refine Or.inl ?_
      cases r₀ <;> exact (congrArg Prod.snd h).symm
    · refine Or.inr ⟨next, answer, hok, ?_, ?_⟩
      · cases r₀ <;> exact (congrArg Prod.snd h).symm
      · refine hr.imp_left fun hr₀ => ?_
        rw [hr₀] at h
        exact (congrArg Prod.fst h).symm

/-- What a command commits was refused, if its decision is or its answer without a failure after the commit. -/
theorem command_refused {use : Transaction (Except GoError α)} {R : Except GoError α → Prop}
    (h : R (decision use l) ∨ R (s.command use l).1 ∧ s.failsBefore) :
    (s.command use l).2 = l ∨
      ∃ next answer, use l = .ok (true, next, answer) ∧ (s.command use l).2 = next.committed ∧ R answer := by
  rcases command_committed (Prod.mk.eta (p := s.command use l)).symm with hkept | ⟨next, answer, hok, hnext, hr⟩
  · exact Or.inl hkept
  · refine Or.inr ⟨next, answer, hok, hnext, ?_⟩
    rcases h with hd | ⟨ha, hbefore⟩
    · rw [decision, hok] at hd
      exact hd
    · rw [hr.resolve_right fun hn => hn hbefore] at ha
      exact ha

end Storage

/-! ## Operations of the execution service -/

namespace ExecutionCall

variable {c : ExecutionCall} {l : PolicyLedger} {e next : PolicyExecutionState} {now : String} {changed : Bool}

theorem newRegistration_refused {q : PolicyExecutionRegisterRequest} {resource : PolicyExecutionResource}
    {release : RetainedArtifactRef} {material : PolicyExecutionReleaseMaterial}
    {resolve : PolicyLedger → String → String → Except GoError PolicyExecutionAdoption} {err : GoError}
    (h : c.newRegistration q resource release material resolve l e now = .ok (changed, next, .error err)) : False := by
  generalize hid : executionResourceID c.identity q.jobID = id at h
  generalize hd : registerDigest c.identity q = digest at h
  simp only [newRegistration, hid, hd, bind_eq_ok] at h
  obtain ⟨-, -, -, -, adoption, -, -, -, -, -, -, -, h⟩ := h
  cases h

theorem register_refused {q : PolicyExecutionRegisterRequest} {seen : PolicyLedger}
    {use : ExecutionUse PolicyExecutionRegisteredResult} (hadm : c.registerAdmission q seen = .ok use) {err : GoError}
    (h : use l e now = .ok (changed, next, .error err)) : next = e := by
  simp only [registerAdmission, bind_eq_ok] at hadm
  obtain ⟨-, -, -, -, existing, -, hadm⟩ := hadm
  split at hadm
  · cases hadm
    exact (registeredUse_eq_ok h).2
  · unfold firstRegistration at hadm
    split at hadm
    · simp only [bind_eq_ok] at hadm
      obtain ⟨⟨resource, release, material⟩, -, hadm⟩ := hadm
      cases hadm
      unfold registerUse at h
      split at h
      · exact (registered_eq_ok h).2
      · exact (newRegistration_refused h).elim
    · cases hadm

theorem prepareIntent_refused {resource : PolicyExecutionResource} {registration : PolicyExecutionRegistration}
    {key : String} {raw : List UInt8} {use : ExecutionUse (PolicyExecutionIntent × Delivery)}
    (hadm : c.prepareIntentAdmission resource registration key raw = .ok use) {err : GoError}
    (h : use l e now = .ok (changed, next, .error err)) : next = e := by
  simp only [prepareIntentAdmission, bind_eq_ok] at hadm
  obtain ⟨-, -, body, -, -, -, refs, -, hadm⟩ := hadm
  cases hadm
  unfold prepareIntentUse at h
  simp only at h
  split at h
  · simp only [bind_eq_ok] at h
    obtain ⟨-, -, h⟩ := h
    cases h
  · generalize executionIntentID c.identity resource.jobID key = id at h
    generalize executionResourceID c.identity resource.jobID = rid at h
    generalize executionCaller c.identity = caller at h
    simp only [bind_eq_ok] at h
    obtain ⟨r, -, -, -, -, -, -, -, h⟩ := h
    cases h

theorem activate_refused {s : PolicyExecutionSession} {q : PolicyExecutionActivateRequest}
    {use : ExecutionUse PolicyExecutionActivateResult} (hadm : c.activateAdmission s q = .ok use) {err : GoError}
    (h : use l e now = .ok (changed, next, .error err)) : next = e := by
  simp only [activateAdmission, bind_eq_ok] at hadm
  obtain ⟨-, -, -, -, hadm⟩ := hadm
  cases hadm
  simp only [activateUse, bind_eq_ok] at h
  obtain ⟨-, -, h⟩ := h
  split at h
  · simp only [bind_eq_ok] at h
    obtain ⟨-, -, -, -, h⟩ := h
    cases h
  · generalize Nat.repr (e.epochs.size + 1) = number at h
    generalize activateDigest q = digest at h
    simp only [bind_eq_ok] at h
    obtain ⟨-, -, h⟩ := h
    cases h

theorem newReservation_blocked {s : PolicyExecutionSession} {q : PolicyExecutionReserveRequest}
    {epoch : PolicyExecutionEpoch} {err : GoError}
    (h : c.newReservation s q epoch l e now = .ok (changed, next, .error err)) :
    ∃ a : PolicyExecutionAttempt, a.reserve = q ∧ a.state = .blocked ∧ a.start = none ∧ a.hold = none ∧
      next = { e with attempts := e.attempts.set q.intentID a } := by
  simp only [newReservation, bind_eq_ok] at h
  obtain ⟨i, -, r, -, -, -, -, -, -, -, op, -, attempt, -, h⟩ := h
  by_cases heligible : c.eligible l r now = .eligible
  · rw [if_pos heligible] at h
    cases h
  · rw [if_neg heligible] at h
    cases h
    refine ⟨_, reservedAttempt_reserve .., ?_, reservedAttempt_start .., ?_, rfl⟩
    · rw [reservedAttempt, if_neg heligible]
    · rw [reservedAttempt, if_neg heligible]

theorem reserve_refused {s : PolicyExecutionSession} {q : PolicyExecutionReserveRequest}
    {use : ExecutionUse PolicyExecutionReserveResult} (hadm : c.reserveAdmission s q = .ok use)
    {answer : Except GoError PolicyExecutionReserveResult} (h : use l e now = .ok (changed, next, answer))
    (hrefused : ∀ r, answer = .ok r → r.delivery = .recovered) :
    Leaves e (.execution ⟨c, .reserve s q⟩) next := by
  simp only [reserveAdmission, bind_eq_ok] at hadm
  obtain ⟨-, -, -, -, hadm⟩ := hadm
  cases hadm
  rcases reserveUse_eq_ok h with
    ⟨a, ha, -, ⟨-, rfl, -⟩ | ⟨-, hseal, rfl⟩⟩ | ⟨-, a, epoch, i, r, hnew, rfl, hnext, hanswer⟩
  · exact .time
  · exact .held ha hseal.hold
  · cases answer with
    | ok result =>
      obtain ⟨op, attempt, -, -, hreserved⟩ := hnew.tokens
      have hdelivery := hrefused result rfl
      rw [hanswer result rfl, hreserved] at hdelivery
      cases hdelivery
    | error err =>
      simp only [reserveUse, bind_eq_ok] at h
      obtain ⟨epoch', -, h⟩ := h
      rw [hnew.first] at h
      obtain ⟨b, hb, hstate, hstart, hhold, rfl⟩ := newReservation_blocked h
      rw [← hb]
      exact .blocked (by rw [hb]; exact hnew.first) hstate hstart hhold

theorem commitStart_refused {s : PolicyExecutionSession} {q : PolicyExecutionStartRequest}
    {use : ExecutionUse PolicyExecutionStartResult} (hadm : c.commitStartAdmission s q = .ok use)
    {answer : Except GoError PolicyExecutionStartResult} (h : use l e now = .ok (changed, next, answer))
    (hrefused : ∀ r, answer = .ok r → r.decision = .blocked) :
    Leaves e (.execution ⟨c, .commitStart s q⟩) next := by
  simp only [commitStartAdmission, bind_eq_ok] at hadm
  obtain ⟨-, -, -, -, hadm⟩ := hadm
  cases hadm
  rcases commitStartUse_eq_ok h with ⟨-, rfl, -⟩ | ⟨-, a, epoch, start, hstarted, hanswer, rfl⟩
  · exact .time
  · exact .unstarted hstarted.attempt hstarted.state (hrefused start hanswer)

/-- An operation that is refused keeps the ledger, given what its transaction leaves when it is refused. -/
theorem submit_refused {α : Type} {admission : Except GoError (ExecutionUse α)} {R : Except GoError α → Prop}
    {command : ClockedCommand}
    (huse : ∀ use, admission = .ok use → ∀ l e now changed next answer, use l e now = .ok (changed, next, answer) →
      R answer → Leaves e command next)
    (h : R (c.decision admission l) ∨ R (c.submit admission l).1 ∧ c.storage.failsBefore) :
    Kept l command (c.submit admission l).2 := by
  unfold ExecutionCall.decision submit at h
  unfold submit
  cases admission with
  | error err => exact Or.inl rfl
  | ok use =>
    simp only [update] at h ⊢
    cases hpermitted : c.permitted 0 with
    | error err => exact Or.inl rfl
    | ok u =>
      rw [hpermitted] at h
      rcases Storage.command_refused h with hkept | ⟨committed, answer, hok, hcommitted, hanswer⟩
      · exact Or.inl hkept
      · simp only
        rw [hcommitted]
        rcases transaction_eq_ok hok with ⟨hf, -⟩ | ⟨e, now, hadm, hobs⟩
        · cases hf
        · refine Or.inr ⟨e, now, ?_⟩
          rcases observe_cases hobs with ⟨rfl, -⟩ | ⟨used, hused⟩
          · refine ⟨at_ e now, hadm.state, hadm.later, .time, ?_⟩
            rw [hadm.observed_eq]
          · obtain ⟨e', hu, rfl⟩ := outcome_eq_ok hused
            exact ⟨e', hadm.state, hadm.later, huse use rfl _ _ _ _ _ _ hu hanswer, rfl⟩

theorem initialization_refused
    (h : (c.decided .initialization l).refused = true ∨
      (c.execute .initialization l).1.refused = true ∧ c.storage.failsBefore) :
    (c.execute .initialization l).2 = l := by
  simp only [decided, execute, initializeExecution] at h ⊢
  cases hpermitted : c.permitted 0 with
  | error err => rfl
  | ok u =>
    rw [hpermitted] at h
    rcases Storage.update_committed (Prod.mk.eta (p := c.storage.update c.initializeUse l)).symm with
      hkept | ⟨next, a, hok, -, hr⟩
    · exact hkept
    · exfalso
      rcases h with hd | ⟨ha, hbefore⟩
      · rw [hok] at hd
        cases hd
      · have hanswer := hr.resolve_right fun hn => hn hbefore
        simp only [Prod.map] at ha
        rw [hanswer] at ha
        cases ha

end ExecutionCall

/-! ## Refusals -/

/-- A refused command leaves the ledger but for its time, and the one attempt it blocks or holds. -/
theorem refused_leaves_authority {l : PolicyLedger} {command : ClockedCommand} (h : command.refused l) :
    Kept l command (clockedStep l command) := by
  cases command with
  | lifecycle command =>
    obtain ⟨call, id, actor, q⟩ := command
    simp only [ClockedCommand.refused, LifecycleCommand.decided, Call.lifecycleCommand] at h
    simp only [clockedStep, lifecycleStep, Call.lifecycleCommand]
    split
    · exact Or.inl rfl
    · next action haction =>
      rw [haction] at h
      simp only at h
      split
      · exact Or.inl rfl
      · next hid =>
        rw [if_neg hid, if_neg hid] at h
        rcases Storage.command_refused (R := fun r => ∃ e, r = .error e) h with
          hkept | ⟨next, answer, hok, hnext, err, rfl⟩
        · exact Or.inl hkept
        · rw [hnext]
          unfold Call.lifecycleAuthorityUpdate at hok
          cases he : l.execution with
          | none =>
            rw [he] at hok
            simp only [bind_eq_ok] at hok
            obtain ⟨⟨changed, next', result⟩, _, hok⟩ := hok
            cases hok
          | some e =>
            rw [he] at hok
            simp only [bind_eq_ok, require_eq_ok, Bool.and_eq_true, decide_eq_true_eq] at hok
            obtain ⟨_, _, _, _, _, ⟨_, hlast⟩, work, hw, _, _, hout⟩ := hok
            cases PolicyLedger.reread_eq_ok hw
            refine Or.inr ⟨e, call.lifecycleNow, at_ e call.lifecycleNow, he, hlast, .time, ?_⟩
            rcases observe_cases (Except.ok.inj hout) with ⟨rfl, -⟩ | ⟨used, hu⟩
            · rw [PolicyLedger.observed, he]
              rfl
            · simp only [bind_eq_ok] at hu
              obtain ⟨⟨changed, next', result⟩, _, hu⟩ := hu
              cases hu
  | execution step =>
    obtain ⟨c, command⟩ := step
    have herror : ∀ {α : Type} {r : Except GoError α} {f : Except GoError α → ExecutionAnswer},
        (∀ a, (f (.ok a)).refused = false) → (f r).refused = true → ∃ err, r = .error err := by
      intro α r wrap hok hr
      cases r with
      | error err => exact ⟨err, rfl⟩
      | ok a =>
        rw [hok a] at hr
        cases hr
    cases command with
    | initialization => exact Or.inl (ExecutionCall.initialization_refused h)
    | inspect s resource => exact Or.inl rfl
    | history s intentID => exact Or.inl rfl
    | register q seen =>
      apply ExecutionCall.submit_refused (R := fun r => ∃ err, r = .error err)
      · rintro use hadm _ e now changed next _ hu ⟨err, rfl⟩
        rw [ExecutionCall.register_refused hadm hu]
        exact .time
      · exact h.imp (herror (f := .register) fun _ => rfl) (And.imp_left (herror (f := .register) fun _ => rfl))
    | prepareIntent resource registration key raw =>
      apply ExecutionCall.submit_refused (R := fun r => ∃ err, r = .error err)
      · rintro use hadm _ e now changed next _ hu ⟨err, rfl⟩
        rw [ExecutionCall.prepareIntent_refused hadm hu]
        exact .time
      · exact h.imp (herror (f := .prepareIntent) fun _ => rfl)
          (And.imp_left (herror (f := .prepareIntent) fun _ => rfl))
    | activate s q =>
      apply ExecutionCall.submit_refused (R := fun r => ∃ err, r = .error err)
      · rintro use hadm _ e now changed next _ hu ⟨err, rfl⟩
        rw [ExecutionCall.activate_refused hadm hu]
        exact .time
      · exact h.imp (herror (f := .activate) fun _ => rfl) (And.imp_left (herror (f := .activate) fun _ => rfl))
    | reserve s q =>
      have hrefused : ∀ {r : Except GoError PolicyExecutionReserveResult}, (ExecutionAnswer.reserve r).refused = true →
          ∀ x, r = .ok x → x.delivery = .recovered := by
        rintro r hr x rfl
        exact of_decide_eq_true hr
      apply ExecutionCall.submit_refused (R := fun r => ∀ x, r = .ok x → x.delivery = .recovered)
      · exact fun use hadm _ _ _ _ _ _ hu hr => ExecutionCall.reserve_refused hadm hu hr
      · exact h.imp hrefused (And.imp_left hrefused)
    | commitStart s q =>
      have hrefused : ∀ {r : Except GoError PolicyExecutionStartResult}, (ExecutionAnswer.commitStart r).refused = true →
          ∀ x, r = .ok x → x.decision = .blocked := by
        rintro r hr x rfl
        exact of_decide_eq_true hr
      apply ExecutionCall.submit_refused (R := fun r => ∀ x, r = .ok x → x.decision = .blocked)
      · exact fun use hadm _ _ _ _ _ _ hu hr => ExecutionCall.commitStart_refused hadm hu hr
      · exact h.imp hrefused (And.imp_left hrefused)

/-- A session that is lost between its admission and the transaction. -/
def Sample.lostStep : ExecutionStep :=
  ⟨executionCall, .activate { session '7' with owned := some fun n => n == 0 } ⟨digest '9', ⟨.off, ""⟩⟩⟩

theorem refused_leaves_authority_sample :
    (Sample.lostStep.call.decided Sample.lostStep.command Sample.executionLedger).refused = true ∧
      Kept Sample.executionLedger (.execution Sample.lostStep)
        (clockedStep Sample.executionLedger (.execution Sample.lostStep)) :=
  ⟨by decide +kernel, refused_leaves_authority (Or.inl (by decide +kernel))⟩

end Desk
