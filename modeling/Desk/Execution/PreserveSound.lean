import Desk.Execution.EligibleSound
import Desk.Execution.EpochSound
import Desk.Execution.GrowSound

/-!
# Operations keep the ledger valid

Each operation builds what it enters under its own checks. The validator restates
the rules over the whole ledger, and whatever an operation asks to commit passes
it.
-/

namespace Desk

open ExecutionCall (startedAttempt reservedAttempt withResource Admitted Change NewAttempt NewResource NewIntent NewEpoch
  Released RetainedParts Started Sealable at_)

/-! ## Forms -/

theorem executionHash_form (v : Json) : policyExecutionDigest (executionHash v) = true :=
  hexForm_append _ (digestOf_form _)

theorem executionTime_format {t : Utc} (h : 1970 ≤ t.year ∧ t.year ≤ 9999) : executionTime t.format = true := by
  have hfour : t.FourDigit := ⟨by omega, by omega⟩
  unfold executionTime
  rw [Utc.parse_format hfour]
  simp [Utc.len_format hfour, h.1]

theorem policyExecutionID_token {pre : String} (hpre : pre.toList.all isWordChar = true)
    (hlen : pre.toList.length ≤ 80) (token : Token) : policyExecutionID (pre ++ token.text) = true :=
  wordForm_append hpre token.form (by omega) (by omega)

/-! ## A later reading -/

section
variable {l : PolicyLedger} {e : PolicyExecutionState}

theorem ExecutionValid.of_at {now : String} (hv : ExecutionValid l e) (hle : e.lastTime ≤ now)
    (hnow : executionTime now = true) : ExecutionValid l (at_ e now) := by
  have g : Grows e (at_ e now) := ⟨rfl, hle, fun _ _ h => h, fun _ _ h => h, fun _ _ h => h⟩
  refine ⟨hv.version, hv.profile, hv.identity, hnow, hv.resourceLimit, hv.operationLimit, hv.intentLimit, hv.epochLimit,
    hv.attemptLimit, ⟨hv.numbers.current, hv.numbers.last, hv.numbers.all⟩, ?_, hv.operations, ?_, ?_, hv.sessions, ?_,
    hv.operationIDs, hv.attemptIDs⟩
  · exact Table.all_mono hv.resources fun _ _ _ h => validExecutionResource_grows g h
  · exact Table.all_mono hv.intents fun _ _ _ h => validExecutionIntent_grows g h
  · exact Table.all_mono hv.epochs fun _ _ _ h => validExecutionEpoch_grows g h
  · exact Table.all_mono hv.attempts fun _ _ _ h => validExecutionAttempt_grows g h

theorem resource_key (hv : ExecutionValid l e) {k : String} {r : PolicyExecutionRegisteredResource}
    (h : e.resources.get? k = some r) : r.content.resourceID = k := by
  have := Table.all_iff.mp hv.resources k r h
  simp only [validExecutionResource, Bool.and_eq_true, beq_iff_eq] at this
  grind

/-! ## Attempts -/

/-- One more attempt, or another state of one. -/
theorem ExecutionValid.set_attempt (hv : ExecutionValid l e) {k : String} {a : PolicyExecutionAttempt}
    (ha : validExecutionAttempt e k a = true) (hlimit : (e.attempts.set k a).size ≤ policyExecutionIntentLimit)
    (hop : ∀ k' b, e.attempts.get? k' = some b → k' ≠ k → b.reserved.operationID ≠ a.reserved.operationID)
    (hat : ∀ k' b, e.attempts.get? k' = some b → k' ≠ k → b.reserved.attemptID ≠ a.reserved.attemptID) :
    ExecutionValid l { e with attempts := e.attempts.set k a } := by
  have g : Grows e { e with attempts := e.attempts.set k a } :=
    ⟨rfl, le_rfl, fun _ _ h => h, fun _ _ h => h, fun _ _ h => h⟩
  refine ⟨hv.version, hv.profile, hv.identity, hv.lastTime, hv.resourceLimit, hv.operationLimit, hv.intentLimit,
    hv.epochLimit, hlimit, ⟨hv.numbers.current, hv.numbers.last, hv.numbers.all⟩, ?_, hv.operations, ?_, ?_, hv.sessions,
    ?_, ?_, ?_⟩
  · exact Table.all_mono hv.resources fun _ _ _ h => validExecutionResource_grows g h
  · exact Table.all_mono hv.intents fun _ _ _ h => validExecutionIntent_grows g h
  · exact Table.all_mono hv.epochs fun _ _ _ h => validExecutionEpoch_grows g h
  · exact Table.all_set hv.attempts (fun _ _ _ _ h => validExecutionAttempt_grows g h) (validExecutionAttempt_grows g ha)
  · exact Table.nodup_set (f := fun a : PolicyExecutionAttempt => a.reserved.operationID) hv.operationIDs hop
  · exact Table.nodup_set (f := fun a : PolicyExecutionAttempt => a.reserved.attemptID) hv.attemptIDs hat

/-- A recorded attempt in another state, its reservation kept. -/
theorem ExecutionValid.decide_attempt (hv : ExecutionValid l e) {k : String} {a b : PolicyExecutionAttempt}
    (ha : e.attempts.get? k = some a) (hb : validExecutionAttempt e k b = true) (hreserved : b.reserved = a.reserved) :
    ExecutionValid l { e with attempts := e.attempts.set k b } := by
  refine hv.set_attempt hb ?_ (fun k' v hv' hk => ?_) (fun k' v hv' hk => ?_)
  · rw [Table.size_set_old ha]
    exact hv.attemptLimit
  · rw [hreserved]
    exact Table.ne_of_nodup (f := fun a : PolicyExecutionAttempt => a.reserved.operationID) hv.operationIDs ha hv' hk
  · rw [hreserved]
    exact Table.ne_of_nodup (f := fun a : PolicyExecutionAttempt => a.reserved.attemptID) hv.attemptIDs ha hv' hk

theorem validAttemptStart_reserved {a : PolicyExecutionAttempt} (h : validAttemptStart a = true)
    (hstate : a.state = .reserved) : a.start = none := by
  unfold validAttemptStart at h
  cases hstart : a.start with
  | none => rfl
  | some start =>
    exfalso
    rw [hstart, hstate] at h
    simp only [Bool.and_eq_true, beq_iff_eq] at h
    obtain ⟨⟨⟨⟨⟨_, hdecision⟩, _⟩, _⟩, _⟩, hcase⟩ := h
    rw [hdecision] at hcase
    cases hcase

theorem held_valid {c : ExecutionCall} {s : PolicyExecutionSession} {k : String} {a : PolicyExecutionAttempt}
    (hv : ExecutionValid l e) (hseal : Sealable c e s k a) :
    ExecutionValid l { e with attempts := e.attempts.set k { a with hold := some ⟨.operationHeld, e.lastTime⟩ } } := by
  obtain ⟨hbound, htime, hpast, _, hstart⟩ := hv.attempt hseal.attempt
  refine hv.decide_attempt hseal.attempt ?_ rfl
  refine attemptValid_iff.mpr ⟨hbound, htime, hpast, ?_, hstart⟩
  have hnone := validAttemptStart_reserved hstart hseal.state
  simp [validAttemptHold, hseal.state, hnone, hv.lastTime, hpast]

theorem startRequest_eq {q : PolicyExecutionStartRequest} {a : PolicyExecutionAttempt} (hreserve : a.reserve = q.reserve)
    (hop : a.reserved.epoch = q.epoch ∧ a.reserved.operationID = q.operationID ∧ a.reserved.attemptID = q.attemptID) :
    a.startRequest = q := by
  obtain ⟨hepoch, hoperation, hattempt⟩ := hop
  unfold PolicyExecutionAttempt.startRequest
  rw [hreserve, hepoch, hoperation, hattempt]
  rfl

theorem startReason_blocked {c : ExecutionCall} {q : PolicyExecutionStartRequest} {epoch : PolicyExecutionEpoch}
    {now : String} (h : c.startReason l e q epoch now ≠ .eligible) :
    executionBlockedReason (c.startReason l e q epoch now) = true := by
  unfold ExecutionCall.startReason at h ⊢
  simp only at h ⊢
  split
  · rename_i hpayload
    rw [if_pos hpayload] at h
    exact eligible_blocked h
  · rfl

theorem validAttemptStart_startedAttempt {a : PolicyExecutionAttempt} {q : PolicyExecutionStartRequest}
    (hq : a.startRequest = q) (hop : a.reserved.epoch = q.epoch ∧ a.reserved.operationID = q.operationID ∧
      a.reserved.attemptID = q.attemptID) {reason : ExecutionReason} {now revision : String}
    (hrevision : retainedArtifactDigest revision = true)
    (h : reason ≠ .eligible → executionBlockedReason reason = true) :
    validAttemptStart (startedAttempt a (ExecutionCall.startResult q reason now revision)) = true := by
  have hrequest : (startedAttempt a (ExecutionCall.startResult q reason now revision)).startRequest = q := hq
  unfold validAttemptStart
  simp only [hrequest]
  simp only [startedAttempt, ExecutionCall.startResult, ExecutionCall.startDecision, hop.1, hop.2.1, hop.2.2, hrevision,
    beq_self_eq_true, Bool.and_true, Bool.true_and]
  by_cases hreason : reason = .eligible
  · rw [if_pos hreason]
    rfl
  · rw [if_neg hreason]
    exact h hreason

theorem started_valid {c : ExecutionCall} {l' : PolicyLedger} {s : PolicyExecutionSession} {q : PolicyExecutionStartRequest}
    {a : PolicyExecutionAttempt} {epoch : PolicyExecutionEpoch} {start : PolicyExecutionStartResult}
    (hv : ExecutionValid l e) (hstart : Started c l' e e.lastTime s q a epoch start) :
    ExecutionValid l { e with attempts := e.attempts.set q.intentID (startedAttempt a start) } := by
  obtain ⟨hbound, _⟩ := hv.attempt hstart.attempt
  refine hv.decide_attempt hstart.attempt ?_ rfl
  have hq := startRequest_eq hstart.reserve hstart.operation
  refine attemptValid_iff.mpr ⟨hbound, ?_, ?_, ?_, ?_⟩
  · rw [startedAttempt, hstart.start]
    exact hv.lastTime
  · rw [startedAttempt, hstart.start]
    exact le_rfl
  · rw [validAttemptHold, show (startedAttempt a start).hold = none from hstart.hold]
  · rw [hstart.start]
    exact validAttemptStart_startedAttempt hq hstart.operation hstart.revision startReason_blocked

/-- The tokens of a reservation are new. -/
structure FreshTokens (c : ExecutionCall) (e : PolicyExecutionState) : Prop where
  operation : ∀ token, c.token 0 = some token → ∀ k a, e.attempts.get? k = some a →
    a.reserved.operationID ≠ "operation_" ++ token.text
  attempt : ∀ token, c.token 1 = some token → ∀ k a, e.attempts.get? k = some a →
    a.reserved.attemptID ≠ "attempt_" ++ token.text

theorem validAttemptStart_reservedAttempt (s : PolicyExecutionSession) (q : PolicyExecutionReserveRequest)
    (result : PolicyExecutionReserveResult) {reason : ExecutionReason} (now : String)
    (h : reason ≠ .eligible → executionBlockedReason reason = true) :
    validAttemptStart (reservedAttempt s q result reason now) = true := by
  by_cases hreason : reason = .eligible
  · rw [reservedAttempt, if_pos hreason]
    rfl
  · rw [reservedAttempt, if_neg hreason]
    exact h hreason

theorem reservedAttempt_parts (s : PolicyExecutionSession) (q : PolicyExecutionReserveRequest)
    (result : PolicyExecutionReserveResult) (reason : ExecutionReason) (now : String) :
    (reservedAttempt s q result reason now).sessionID = s.id ∧ (reservedAttempt s q result reason now).at_ = now ∧
      (reservedAttempt s q result reason now).hold = none := by
  unfold reservedAttempt
  split <;> exact ⟨rfl, rfl, rfl⟩

theorem reserved_valid {c : ExecutionCall} {l' : PolicyLedger} {s : PolicyExecutionSession} {a : PolicyExecutionAttempt}
    {epoch : PolicyExecutionEpoch} {i : PolicyExecutionIntent} {r : PolicyExecutionRegisteredResource}
    (hv : ExecutionValid l e) (hfresh : FreshTokens c e) (hshape : executionPayloadShape a.reserve.payload = true)
    (hnew : NewAttempt c l' e e.lastTime s a epoch i r) :
    ExecutionValid l { e with attempts := e.attempts.set a.reserve.intentID a } := by
  obtain ⟨op, attempt, hop, hattempt, hreserved⟩ := hnew.tokens
  obtain ⟨hsession, hat, hhold⟩ := reservedAttempt_parts s a.reserve a.reserved (c.eligible l' r e.lastTime) e.lastTime
  rw [← hnew.fields] at hsession hat hhold
  have hkey := epoch_key hv hnew.active.current
  have hepoch : a.reserved.epoch = epoch.epoch := by rw [hreserved]
  obtain ⟨hresource, hregistration, hraw⟩ := hnew.binding
  refine hv.set_attempt ?_ ?_ (fun k b hb _ => ?_) (fun k b hb _ => ?_)
  · refine attemptValid_iff.mpr ⟨⟨⟨i, epoch, r, hnew.intent, ?_, hnew.resource, hraw, hepoch.symm, hnew.payload,
      hresource.symm, hregistration.symm, ?_⟩, ?_, ?_, rfl, ?_, ?_, ?_, ?_, hshape⟩, ?_, ?_, ?_, ?_⟩
    · rw [hepoch, hkey]
      exact hnew.active.current
    · rw [hnew.active.owner, hsession]
    · have hcurrent := Table.all_iff.mp hv.epochs _ _ hnew.active.current
      simp only [validExecutionEpoch, Bool.and_eq_true] at hcurrent
      rw [hepoch, hkey]
      exact hcurrent.1.1.1.1.1.1.2
    · rw [hsession]
      exact hnew.active.sessionForm
    · rw [hreserved]
      exact policyExecutionID_token (by decide) (by decide) op
    · rw [hreserved]
      exact policyExecutionID_token (by decide) (by decide) attempt
    · rw [hreserved]
    · rw [hreserved]
    · rw [hat]
      exact hv.lastTime
    · rw [hat]
    · rw [validAttemptHold, hhold]
    · rw [hnew.fields]
      exact validAttemptStart_reservedAttempt s _ _ _ eligible_blocked
  · rw [Table.size_set_new hnew.first]
    exact hnew.limit
  · rw [hreserved]
    exact hfresh.operation op hop k b hb
  · rw [hreserved]
    exact hfresh.attempt attempt hattempt k b hb

/-! ## Epochs -/

theorem epochs_next (hv : ExecutionValid l e) : e.epochs.get? (Nat.repr (e.epochs.size + 1)) = none := by
  refine Table.get?_next (fun n => Nat.repr (n + 1)) (fun m n h => ?_) fun n hn => ?_
  · have := Nat.repr_inj.mp h
    omega
  · obtain ⟨v, hv', _⟩ := hv.numbers.all n hn
    exact ⟨v, hv'⟩

theorem activated_numbers (hv : ExecutionValid l e) {now : String} {epoch : PolicyExecutionEpoch}
    (hnew : NewEpoch e now epoch) (hfirst : e.epochs.get? epoch.epoch = none)
    (hpositive : executionPositive epoch.epoch = true) :
    EpochNumbers { e with epochs := e.epochs.set epoch.epoch epoch, currentEpoch := epoch.epoch } := by
  have hsize : (e.epochs.set epoch.epoch epoch).size = e.epochs.size + 1 := Table.size_set_new hfirst
  refine ⟨Or.inr ⟨hpositive, epoch, Table.get?_set_self _ _ _, rfl⟩, Or.inr ?_, fun n hn => ?_⟩
  · show epoch.epoch = Nat.repr (e.epochs.set epoch.epoch epoch).size
    rw [hsize, hnew.number]
  · have hn : n < e.epochs.size + 1 := by rw [← hsize]; exact hn
    show ∃ v, (e.epochs.set epoch.epoch epoch).get? (Nat.repr (n + 1)) = some v ∧ v.epoch ≠ ""
    rcases Nat.lt_succ_iff_lt_or_eq.mp hn with hlt | heq
    · obtain ⟨v, hv', hne⟩ := hv.numbers.all n hlt
      refine ⟨v, ?_, hne⟩
      rw [Table.get?_set_ne _ _ fun hk => ?_]
      · exact hv'
      · rw [hk, hfirst] at hv'
        cases hv'
    · refine ⟨epoch, ?_, ?_⟩
      · rw [heq, ← hnew.number]
        exact Table.get?_set_self _ _ _
      · intro hempty
        exact Nat.repr_ne_empty (hnew.number.symm.trans hempty)

theorem activated_valid (hv : ExecutionValid l e) {epoch : PolicyExecutionEpoch}
    (hnew : NewEpoch e e.lastTime epoch) :
    ExecutionValid l { e with epochs := e.epochs.set epoch.epoch epoch, currentEpoch := epoch.epoch } := by
  have hfirst : e.epochs.get? epoch.epoch = none := by
    rw [hnew.number]
    exact epochs_next hv
  have hlimit := hnew.limit
  have hpositive : executionPositive epoch.epoch = true := by
    rw [hnew.number]
    refine executionPositive_repr (Nat.succ_pos _) ?_
    have : policyExecutionEpochLimit = 256 := rfl
    omega
  have g : Grows e { e with epochs := e.epochs.set epoch.epoch epoch, currentEpoch := epoch.epoch } := by
    refine ⟨rfl, le_rfl, fun _ _ h => h, fun _ _ h => h, fun k v h => ?_⟩
    rw [Table.get?_set_ne _ _ fun hk => ?_]
    · exact h
    · rw [hk, hfirst] at h
      cases h
  refine ⟨hv.version, hv.profile, hv.identity, hv.lastTime, hv.resourceLimit, hv.operationLimit, hv.intentLimit, ?_,
    hv.attemptLimit, activated_numbers hv hnew hfirst hpositive, ?_, hv.operations, ?_, ?_, ?_, ?_, hv.operationIDs,
    hv.attemptIDs⟩
  · exact (Table.size_set_le _ _ _).trans hlimit
  · exact Table.all_mono hv.resources fun _ _ _ h => validExecutionResource_grows g h
  · exact Table.all_mono hv.intents fun _ _ _ h => validExecutionIntent_grows g h
  · refine Table.all_set hv.epochs (fun _ _ _ _ h => validExecutionEpoch_grows g h) ?_
    simp only [validExecutionEpoch, Bool.and_eq_true, beq_iff_eq, decide_eq_true_eq]
    refine ⟨⟨⟨⟨⟨⟨⟨trivial, hpositive⟩, hnew.sessionForm⟩, hnew.challengeForm⟩, hnew.signing⟩, ?_⟩, ?_⟩, hnew.digest⟩
    · rw [hnew.at_]
      exact hv.lastTime
    · rw [hnew.at_]
  · exact Table.nodup_set (f := PolicyExecutionEpoch.sessionID) hv.sessions fun k v h _ => hnew.firstOfSession k v h
  · exact Table.all_mono hv.attempts fun _ _ _ h => validExecutionAttempt_grows g h

/-! ## Intents -/

theorem prepared_valid {c : ExecutionCall} {l' : PolicyLedger} {resource : PolicyExecutionResource}
    {registration : PolicyExecutionRegistration} {key : String} {refs : ExecutionCall.RetainedRequest}
    {i : PolicyExecutionIntent} {r : PolicyExecutionRegisteredResource} (hv : ExecutionValid l e)
    (hid : e.identity = c.identity) (hkey : executionKey key = true) (hrefs : RetainedParts refs)
    (hnew : NewIntent c l' e e.lastTime resource registration key refs i r) :
    ExecutionValid l { e with intents := e.intents.set i.id i } := by
  have g : Grows e { e with intents := e.intents.set i.id i } := by
    refine ⟨rfl, le_rfl, fun _ _ h => h, fun k v h => ?_, fun _ _ h => h⟩
    rw [Table.get?_set_ne _ _ fun hk => ?_]
    · exact h
    · rw [hk, hnew.first] at h
      cases h
  refine ⟨hv.version, hv.profile, hv.identity, hv.lastTime, hv.resourceLimit, hv.operationLimit, ?_, hv.epochLimit,
    hv.attemptLimit, ⟨hv.numbers.current, hv.numbers.last, hv.numbers.all⟩, ?_, hv.operations, ?_, ?_, hv.sessions, ?_,
    hv.operationIDs, hv.attemptIDs⟩
  · exact (Table.size_set_le _ _ _).trans hnew.limit
  · exact Table.all_mono hv.resources fun _ _ _ h => validExecutionResource_grows g h
  · refine Table.all_set hv.intents (fun _ _ _ _ h => validExecutionIntent_grows g h) ?_
    unfold validExecutionIntent
    rw [show ({ e with intents := e.intents.set i.id i } : PolicyExecutionState).resources.get? i.resourceID = some r from
      hnew.registered]
    have hjob : i.resource = resource := by rw [hnew.intent]
    have hkey' : i.idempotencyKey = key := by rw [hnew.intent]
    have hident : i.id = executionIntentID c.identity resource.jobID key := by rw [hnew.intent]
    have hcaller : i.callerDomain = executionCaller c.identity := by rw [hnew.intent]
    have hregistration : i.registration = registration := by rw [hnew.intent]
    have hrequest : i.request = refs.request ∧ i.facts = refs.facts ∧ i.evidence = refs.evidence ∧ i.at_ = e.lastTime := by
      rw [hnew.intent]
      exact ⟨rfl, rfl, rfl, rfl⟩
    obtain ⟨hreq, hfacts, hevidence, hat⟩ := hrequest
    simp only [Bool.and_eq_true, beq_iff_eq, decide_eq_true_eq, hreq, hfacts, hevidence, hat, hkey', hjob, hcaller,
      hregistration, hid, hident]
    refine ⟨⟨⟨⟨⟨⟨⟨⟨⟨⟨⟨⟨trivial, trivial⟩, hkey⟩, trivial⟩, hnew.sameResource.symm⟩, hnew.sameRegistration.symm⟩,
      hrefs.request.1⟩, hrefs.facts.1⟩, hrefs.request.2⟩, hrefs.facts.2⟩, ?_⟩, hv.lastTime⟩, le_rfl⟩
    rw [Option.all_eq_true]
    intro ref href
    simp only [Bool.and_eq_true, decide_eq_true_eq]
    exact hrefs.evidence ref href
  · exact Table.all_mono hv.epochs fun _ _ _ h => validExecutionEpoch_grows g h
  · exact Table.all_mono hv.attempts fun _ _ _ h => validExecutionAttempt_grows g h

/-! ## Resources -/

theorem newResource_valid {c : ExecutionCall} {l' : PolicyLedger} {q : PolicyExecutionRegisterRequest}
    {material : PolicyExecutionReleaseMaterial}
    {resolve : PolicyLedger → String → String → Except GoError PolicyExecutionAdoption}
    {r : PolicyExecutionRegisteredResource} (hid : e.identity = c.identity) (hnow : executionTime e.lastTime = true)
    (hreleased : Released c q r.content.resource r.content.release material)
    (hadoption : ApprovedAdoption l' r.content.adoption)
    (hnew : NewResource c l' e e.lastTime q material resolve r) :
    validExecutionResource l' e (executionResourceID c.identity q.jobID) r = true := by
  have hsnapshot : executionAdoptionSnapshot l' r.content.adoption = true := by
    have := hnew.retained
    simp only [Call.retainedAdoption, Bool.and_eq_true] at this
    exact this.1
  have hcontent := hnew.content
  have hresource : r.content.resourceID = executionResourceID c.identity q.jobID := by rw [hcontent]
  have hpack : r.content.pack = artifactReference material.pack ∧ r.content.packID = material.packID ∧
      r.content.packVersion = material.packVersion ∧ r.content.runtimeDigest = material.runtimeDigest := by
    rw [hcontent]
    exact ⟨rfl, rfl, rfl, rfl⟩
  have hrest : r.content.lifecycleProfile = policyExecutionLifecycle ∧
      r.content.callerDomain = executionCaller c.identity ∧ r.content.at_ = e.lastTime := by
    rw [hcontent]
    exact ⟨rfl, rfl, rfl⟩
  have hregistration : r.registration = ⟨"1", executionHash r.content.toJson⟩ := hnew.registration
  have hvalid : (artifactReference material.pack).valid = true :=
    artifactReference_valid (hreleased.pack.trans (by decide))
  have hhash : r.registration.valid = true ∧ r.registration.digest = executionHash r.content.toJson := by
    rw [hregistration]
    refine ⟨?_, rfl⟩
    simp only [PolicyExecutionRegistration.valid, Bool.and_eq_true, beq_self_eq_true, true_and]
    exact executionHash_form _
  obtain ⟨hpc, hpi, hpv, hruntime⟩ := hpack
  obtain ⟨hprofile, hcaller, hat⟩ := hrest
  obtain ⟨hbasis, hbasisID, hbasisVersion⟩ := hnew.pack
  unfold validExecutionResource
  simp only [hid, hresource, hreleased.job, hreleased.resourceForm, hhash.1, hhash.2, hreleased.releaseForm,
    hreleased.digest, hpc, hvalid, hbasis, hpi, hbasisID, hpv, hbasisVersion, hruntime, hreleased.runtime, hprofile,
    hcaller, hat, hnow, hadoption.idForm, hadoption.candidateForm, hadoption.content, hadoption.approved,
    hadoption.candidate, hadoption.digest, hadoption.basis, hadoption.check, hadoption.dependencies, hsnapshot,
    hadoption.count, hreleased.releaseBytes, beq_self_eq_true, decide_true, le_refl, Bool.and_self]

theorem registered_valid {c : ExecutionCall} {q : PolicyExecutionRegisterRequest}
    {material : PolicyExecutionReleaseMaterial}
    {resolve : PolicyLedger → String → String → Except GoError PolicyExecutionAdoption}
    {r : PolicyExecutionRegisteredResource} (hv : ExecutionValid l e) (hid : e.identity = c.identity)
    (hop : policyOperationIDForm q.operationID = true)
    (hreleased : Released c q r.content.resource r.content.release material)
    (hadoption : ApprovedAdoption l r.content.adoption) (hnew : NewResource c l e e.lastTime q material resolve r) :
    ExecutionValid l
      (withResource e q (registerDigest c.identity q) (executionResourceID c.identity q.jobID) r) := by
  have hresource := newResource_valid hid hv.lastTime hreleased hadoption hnew
  have hfirst := hnew.first
  have hkey : r.content.resourceID = executionResourceID c.identity q.jobID := by rw [hnew.content]
  have hdigest : policyExecutionDigest (registerDigest c.identity q) = true := executionHash_form _
  generalize executionResourceID c.identity q.jobID = id at hresource hfirst hkey ⊢
  generalize registerDigest c.identity q = digest at hdigest ⊢
  have g : Grows e (withResource e q digest id r) := by
    refine ⟨rfl, le_rfl, fun k v h => ?_, fun _ _ h => h, fun _ _ h => h⟩
    rw [withResource, Table.get?_set_ne _ _ fun hk => ?_]
    · exact h
    · rw [hk, hfirst] at h
      cases h
  have hresources : (withResource e q digest id r).resources.all (validExecutionResource l (withResource e q digest id r)) =
      true :=
    Table.all_set hv.resources (fun _ _ _ _ h => validExecutionResource_grows g h)
      (validExecutionResource_grows g hresource)
  have hkeys : ∀ k v, (withResource e q digest id r).resources.get? k = some v → v.content.resourceID = k := by
    intro k v h
    rw [withResource, Table.get?_set] at h
    by_cases hk : k = id
    · rw [if_pos hk] at h
      cases h
      rw [hk, hkey]
    · rw [if_neg hk] at h
      exact resource_key hv h
  refine ⟨hv.version, hv.profile, hv.identity, hv.lastTime, ?_, ?_, hv.intentLimit, hv.epochLimit, hv.attemptLimit,
    ⟨hv.numbers.current, hv.numbers.last, hv.numbers.all⟩, hresources, ?_, ?_, ?_, hv.sessions, ?_, hv.operationIDs,
    hv.attemptIDs⟩
  · exact (Table.size_set_le _ _ _).trans hnew.limits.1
  · exact (Table.size_set_le _ _ _).trans hnew.limits.2
  · refine Table.all_set hv.operations (fun _ _ _ _ h => validRegistrationOperation_grows g hkeys h) ?_
    simp only [validRegistrationOperation, Bool.and_eq_true, beq_iff_eq]
    refine ⟨⟨hop, hdigest⟩, ?_⟩
    rw [withResource, Table.get?_set_self]
    exact hkey
  · exact Table.all_mono hv.intents fun _ _ _ h => validExecutionIntent_grows g h
  · exact Table.all_mono hv.epochs fun _ _ _ h => validExecutionEpoch_grows g h
  · exact Table.all_mono hv.attempts fun _ _ _ h => validExecutionAttempt_grows g h

/-! ## One change -/

/-- The resolver a desk registers with reads the adoptions of the ledger. -/
def ResolvesAdoptions (c : ExecutionCall) : ExecutionCommand → Prop
  | .register _ _ => c.resolveAdoption = some c.toCall.resolvePolicyExecutionAdoption
  | _ => True

theorem Change.valid {c : ExecutionCall} {command : ExecutionCommand} {next : PolicyExecutionState}
    (hv : ExecutionValid l e) (hid : e.identity = c.identity) (hadoptions : validatePolicyAdoptions l = true)
    (hresolve : ResolvesAdoptions c command) (hfresh : FreshTokens c e) (h : Change c l e e.lastTime command next) :
    ExecutionValid l next := by
  cases h with
  | @registered q seen material resolve r hr hop hreleased hnew =>
    cases hr.symm.trans hresolve
    exact registered_valid hv hid hop hreleased (resolvePolicyExecutionAdoption_eq_ok hadoptions hnew.resolved) hnew
  | prepared hkey hrefs hnew => exact prepared_valid hv hid hkey hrefs hnew
  | activated hnew _ => exact activated_valid hv hnew
  | held hseal => exact held_valid hv hseal
  | reserved hshape hnew => exact reserved_valid hv hfresh hshape hnew
  | started hstart => exact started_valid hv hstart

end

/-! ## One transaction -/

theorem validExecutionResource_adoptions {l l' : PolicyLedger} (h : l'.adoptions = l.adoptions) (e : PolicyExecutionState) :
    validExecutionResource l' e = validExecutionResource l e := by
  funext k r
  unfold validExecutionResource executionAdoptionSnapshot
  rw [h]

/-- A ledger says no more of its execution state than its adoptions. -/
theorem ExecutionValid.of_adoptions {l l' : PolicyLedger} {e : PolicyExecutionState} (hv : ExecutionValid l e)
    (h : l'.adoptions = l.adoptions) : ExecutionValid l' e :=
  { hv with resources := by rw [validExecutionResource_adoptions h]; exact hv.resources }

/-- Another valid execution state in a valid ledger. -/
theorem LedgerValid.with_execution {l : PolicyLedger} {e : PolicyExecutionState} (h : LedgerValid l)
    (hs : l.schemaVersion = 3) (hv : ExecutionValid l e) : LedgerValid { l with execution := some e } where
  schema := h.schema
  policyLimit := h.policyLimit
  operationLimit := h.operationLimit
  execution := validatePolicyExecution_iff.mpr (Or.inr ⟨hs, e, rfl, hv.of_adoptions rfl⟩)
  policies := h.policies
  operations := h.operations
  lifecycles := h.lifecycles
  sources := h.sources
  sourceAuthorities := h.sourceAuthorities
  coverages := h.coverages
  adoptions := h.adoptions
  recovery := h.recovery

/-- A ledger that an operation asks to commit, a change or a denial that keeps its reading, passes the validator. -/
theorem execution_commands_preserve_validity {α : Type} {c : ExecutionCall} {command : ExecutionCommand}
    {use : ExecutionUse α} (hs : ExecutionCall.Submitted c command use) {l next : PolicyLedger}
    (hv : validatePolicyLedger l = true) (hresolve : ResolvesAdoptions c command)
    (hfresh : ∀ e, l.execution = some e → FreshTokens c e) {answer : Except GoError α}
    (h : c.transaction use l = .ok (true, next, answer)) :
    validatePolicyLedger next = true ∧ validatePolicyExecution next = true := by
  have hledger := ledgerValid_iff.mp hv
  suffices hnext : LedgerValid next from ⟨ledgerValid_iff.mpr hnext, hnext.execution⟩
  rcases ExecutionCall.transaction_eq_ok h with ⟨hf, _⟩ | ⟨e, now, hadm, hobs⟩
  · cases hf
  · have hat : ExecutionValid l (at_ e now) := by
      refine (hledger.executionValid hadm.state).of_at hadm.later ?_
      rw [hadm.reading]
      exact executionTime_format hadm.year
    have hobserved : LedgerValid (l.observed now) := by
      rw [← hadm.observed_eq]
      exact hledger.with_execution hadm.schema hat
    rcases observe_cases hobs with ⟨rfl, _⟩ | ⟨used, hused⟩
    · exact hobserved
    · obtain ⟨e', hu, rfl⟩ := ExecutionCall.outcome_eq_ok hused
      rcases hs.change hu with ⟨_, rfl⟩ | ⟨_, hchange⟩
      · exact hledger.with_execution hadm.schema hat
      · refine hledger.with_execution hadm.schema ?_
        have hnext := Change.valid (e := at_ e now) (hat.of_adoptions (show (l.observed now).adoptions = _ from rfl)) hadm.identity
          hobserved.adoptions hresolve ⟨(hfresh e hadm.state).operation, (hfresh e hadm.state).attempt⟩ hchange
        exact hnext.of_adoptions rfl

theorem execution_commands_preserve_validity_sample :
    ∃ use next answer, Sample.executionCall.activateAdmission (Sample.session '7') ⟨Sample.digest '9', ⟨.off, ""⟩⟩ = .ok use ∧
      Sample.executionCall.transaction use Sample.executionLedger = .ok (true, next, answer) ∧
      validatePolicyLedger next = true ∧ validatePolicyExecution next = true := by
  have hadmission : Sample.executionCall.activateAdmission (Sample.session '7') ⟨Sample.digest '9', ⟨.off, ""⟩⟩ =
      .ok (Sample.executionCall.activateUse (Sample.session '7') ⟨Sample.digest '9', ⟨.off, ""⟩⟩) := by
    simp only [ExecutionCall.activateAdmission, ExecutionCall.session, bind_eq_ok]
    exact ⟨(), ⟨(), require_eq_ok.mpr (by decide +kernel), require_eq_ok.mpr (by decide +kernel)⟩, (),
      require_eq_ok.mpr (by decide +kernel), rfl⟩
  have hcommits : (Sample.executionCall.transaction (Sample.executionCall.activateUse (Sample.session '7')
      ⟨Sample.digest '9', ⟨.off, ""⟩⟩) Sample.executionLedger).toOption.map Prod.fst = some true := by decide +kernel
  have hfresh : ∀ e, Sample.executionLedger.execution = some e → FreshTokens Sample.executionCall e := by
    intro e he
    cases he
    exact ⟨fun _ _ _ _ h => (by cases h), fun _ _ _ _ h => (by cases h)⟩
  cases h : Sample.executionCall.transaction (Sample.executionCall.activateUse (Sample.session '7')
      ⟨Sample.digest '9', ⟨.off, ""⟩⟩) Sample.executionLedger with
  | error e =>
    rw [h] at hcommits
    cases hcommits
  | ok r =>
    rw [h] at hcommits
    obtain ⟨commit, next, answer⟩ := r
    obtain rfl : commit = true := Option.some.inj hcommits
    exact ⟨_, next, answer, hadmission, h, execution_commands_preserve_validity (.activate hadmission)
      (ledgerValid_iff.mpr Sample.executionLedger_valid) trivial hfresh h⟩

end Desk
