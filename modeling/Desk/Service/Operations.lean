import Desk.Service.LifecycleSound
import Desk.Service.Source
import Desk.Service.SourceStatusSound

/-!
# Operations

The four commands of the policy repository and the table of operations they
share. Each decision enters the operation of its command under an id that was
not taken, together with the answer that is retained for it.
-/

namespace Desk

/-! ## Commands -/

/-- A command, with all that its call takes from outside. -/
inductive RepositoryCommand where
  | policy (call : PolicyCall) (request : PolicyRequest) (actor : PolicyActor)
  | source (call : Call) (id : String) (actor : PolicyActor) (q : PolicySourceSyncRequest) (authority : String)
      (supported : Bool)
  | sourceStatus (call : PolicyCall) (id : String) (actor : PolicyActor) (q : PolicySourceStatusRequest) (authority : String)
  | lifecycle (command : LifecycleCommand)

namespace RepositoryCommand

/-- What names the operation of a command; nothing does where its action is no known word. -/
def identity : RepositoryCommand → Option PolicyCommandIdentity
  | policy _ request actor => some (request.identity actor)
  | source _ id actor q _ _ => (SourceActionKind.ofText q.action).map (sourceIdentity id actor q)
  | sourceStatus _ id actor q _ => (AuthorityKind.ofText q.action).map (sourceStatusIdentity id actor q)
  | lifecycle c => (LifecycleAction.ofText c.request.action).map (lifecycleIdentity c.id c.actor c.request)

/-- The command on `l`; the commands that view the ledger first have seen `seen`. -/
def apply (seen l : PolicyLedger) : RepositoryCommand → Except GoError PolicyMutationReply × PolicyLedger
  | policy call request actor => call.execute request actor seen l
  | source call id actor q authority supported => call.sourceCommand id actor q authority supported l
  | sourceStatus call id actor q authority => call.sourceStatusCommand id actor q authority seen l
  | lifecycle c => c.call.lifecycleCommand c.id c.actor c.request l

end RepositoryCommand

/-! ## The repository over time -/

/-- The ledger and every ledger before it, the latest first. -/
structure Repository where
  ledger : PolicyLedger
  past : List PolicyLedger

/-- A command and the state it views: that many transactions before its own. -/
structure Submission where
  command : RepositoryCommand
  view : Nat

def Repository.viewed (r : Repository) (n : Nat) : PolicyLedger := ((r.ledger :: r.past)[n]?).getD r.ledger

def Repository.answer (r : Repository) (s : Submission) : Except GoError PolicyMutationReply × PolicyLedger :=
  s.command.apply (r.viewed s.view) r.ledger

def Repository.step (r : Repository) (s : Submission) : Repository := ⟨(r.answer s).2, r.ledger :: r.past⟩

/-! ## Decisions -/

/-- An answer that agrees with its own receipt. -/
structure Consistent (result : PolicyMutationReply) : Prop where
  identity : validPolicyMutationIdentity result = true
  lifecycle : validPolicyLifecycleResult result = true
  authority : validPolicySourceAuthorityResult result = true
  coverage : validPolicyCoverageResult result = true
  adoption : validPolicyAdoptionResult result = true

/-- The receipt of an answer names the operation it was given for. -/
structure Receipted (ident : PolicyCommandIdentity) (policyID : String) (result : PolicyMutationReply) : Prop where
  delivery : result.delivery = .committed
  operation : result.receipt.operationID = ident.operationID
  kind : result.receipt.kind = ident.kind
  digest : result.receipt.requestDigest = ident.requestDigest
  policy : result.receipt.policyID = policyID
  actor : result.receipt.actor = ident.actor

/-- A decision enters one operation, under an id that was free. -/
structure Decided (l next : PolicyLedger) (ident : PolicyCommandIdentity) (result : PolicyMutationReply) : Prop where
  fresh : l.operations.get? ident.operationID = none
  entered : ∃ policyID, (ident.kind ≠ .create → policyID = ident.policyID) ∧ Receipted ident policyID result ∧
    next.operations = l.operations.set ident.operationID
      ⟨ident.operationID, ident.kind, policyID, ident.requestDigest, artifactReference result.toJson.marshal⟩
  size : result.toJson.marshal.length ≤ retainedArtifactByteLimit
  consistent : LedgerValid next → Consistent result
  authority : next.execution.isSome = l.execution.isSome

/-- The two members no answer of these commands has. -/
theorem consistent_rest (result : PolicyMutationReply) (hc : result.coverage = none) (ha : result.adoption = none)
    (hr : result.receipt.coverageID = "" ∧ result.receipt.coverageRevision = "" ∧ result.receipt.coverageCandidateID = "" ∧
      result.receipt.adoptionID = "" ∧ result.receipt.adoptionRevision = "" ∧ result.receipt.adoptionCandidateID = "") :
    validPolicyCoverageResult result = true ∧ validPolicyAdoptionResult result = true := by
  obtain ⟨h₁, h₂, h₃, h₄, h₅, h₆⟩ := hr
  simp [validPolicyCoverageResult, validPolicyAdoptionResult, hc, ha, h₁, h₂, h₃, h₄, h₅, h₆]

/-! ## Policy commands -/

theorem Call.reply_eq_ok {call : Call} {n : Nat} {record : PolicyStoredRecord} {stream : Option PolicySourceAuthorityStream}
    {answer : PolicyReply} (h : call.reply n record stream = .ok answer) :
    answer.revision = policyEffectiveRevision record stream ∧ answer.document.id = record.id := by
  simp only [Call.reply, bind_eq_ok] at h
  obtain ⟨_, _, _, _, h⟩ := h
  cases h
  exact ⟨rfl, rfl⟩

section
variable {call : Call} {c : PolicyRequest} {actor : PolicyActor} {ledger next : PolicyLedger} {record : PolicyStoredRecord}
  {result : PolicyMutationReply} {changed : Bool} {now : String}

theorem policyCommandRecord_eq_ok (h : policyCommandRecord ledger c = .ok record) :
    c.kind = .create ∧ record = default ∨ c.kind ≠ .create ∧ ledger.policies.get? c.policyID = some record := by
  cases c with
  | create q =>
    simp only [policyCommandRecord, bind_eq_ok] at h
    obtain ⟨_, _, h⟩ := h
    cases h
    exact Or.inl ⟨rfl, rfl⟩
  | saveDraft id q =>
    simp only [policyCommandRecord, bind_eq_ok, found_eq_ok] at h
    obtain ⟨_, hr, _, _, h⟩ := h
    cases h
    exact Or.inr ⟨by simp [PolicyRequest.kind], hr⟩
  | review id q =>
    simp only [policyCommandRecord, bind_eq_ok, found_eq_ok] at h
    obtain ⟨_, hr, _, _, h⟩ := h
    cases h
    exact Or.inr ⟨by simp [PolicyRequest.kind], hr⟩
  | publish id q =>
    simp only [policyCommandRecord, bind_eq_ok, found_eq_ok] at h
    obtain ⟨_, hr, _, _, h⟩ := h
    cases h
    exact Or.inr ⟨by simp [PolicyRequest.kind], hr⟩

/-- Everything a decision on a policy can do. -/
structure PolicyDecided (call : Call) (ledger next : PolicyLedger) (c : PolicyRequest) (actor : PolicyActor)
    (result : PolicyMutationReply) (record target : PolicyStoredRecord) (change : PolicyChange) (reply : PolicyReply) :
    Prop where
  room : ledger.operations.size < policyOperationLimit
  admitted : policyAdmitted ledger c = .ok record
  resolved : c.kind = .publish → policySourcePending record (ledger.sources.get? record.id) = false
  targeted : call.policyTarget ledger record call.clock.format c = .ok target
  changes : call.policyChange target call.clock.format actor c = .ok change
  replied : call.reply 5 change.record (ledger.sourceAuthorities.get? change.record.id) = .ok reply
  answered : result = Call.policyResult c actor change reply call.clock.format
  size : result.toJson.marshal.length ≤ retainedArtifactByteLimit
  left : next = { ledger with
    policies := ledger.policies.set change.record.id change.record
    operations := ledger.operations.set c.operationID ⟨c.operationID, c.kind, change.record.id,
      (c.identity actor).requestDigest, artifactReference result.toJson.marshal⟩ }

theorem Call.policyUpdate_eq_ok (h : call.policyUpdate c actor ledger = .ok (changed, next, result)) :
    changed = false ∧ next = ledger ∧ call.recovered 4 ledger (c.identity actor) = .ok (some result) ∨
      changed = true ∧ ledger.operations.get? c.operationID = none ∧ ∃ record target change reply,
        PolicyDecided call ledger next c actor result record target change reply := by
  simp only [policyUpdate, bind_eq_ok] at h
  obtain ⟨_, _, recovered, hrec, h⟩ := h
  cases recovered with
  | some r => cases h; exact Or.inl ⟨rfl, rfl, hrec⟩
  | none =>
    simp only [policyDecision, bind_eq_ok, require_eq_ok, decide_eq_true_eq, Bool.or_eq_true, bne_iff_ne, ne_eq,
      Bool.not_eq_true'] at h
    obtain ⟨_, hroom, record, hadm, _, hpend, target, ht, change, hch, reply, hreply, ref, hput, _, _, h⟩ := h
    obtain ⟨rfl, hsize⟩ := put_eq_ok hput
    cases h
    exact Or.inr ⟨rfl, call.recovered_none hrec, record, target, change, reply, hroom, hadm,
      fun hk => hpend.resolve_left (fun hn => hn hk), ht, hch, hreply, rfl, hsize, rfl⟩

theorem policyAdmitted_eq_ok (h : policyAdmitted ledger c = .ok record) :
    policyCommandRecord ledger c = .ok record ∧
      policyAuthorityAdmission (ledger.sourceAuthorities.get? record.id) c.admitted = none ∧
      policyValidateCommand c record (ledger.sourceAuthorities.get? record.id) = .ok () := by
  simp only [policyAdmitted, bind_eq_ok, refuseIf_eq_ok] at h
  obtain ⟨_, hr, _, ha, _, hv, h⟩ := h
  cases h
  exact ⟨hr, ha, hv⟩

/-- No change gives a record another id. -/
theorem Call.policyChange_id {target : PolicyStoredRecord} {change : PolicyChange}
    (h : call.policyChange target now actor c = .ok change) : change.record.id = target.id := by
  have hedit : ∀ q : PolicyEditRequest, call.edit q target now actor = .ok change → change.record.id = target.id := by
    intro q h
    simp only [edit, bind_eq_ok] at h
    obtain ⟨source, _, content, _, h⟩ := h
    split at h
    · simp only [bind_eq_ok] at h
      obtain ⟨_, _, _, _, h⟩ := h
      cases h; rfl
    · cases h; rfl
  cases c with
  | create q => exact hedit q h
  | saveDraft id q => exact hedit q h
  | review id q =>
    simp only [policyChange, reviewed, bind_eq_ok] at h
    obtain ⟨_, _, _, _, h⟩ := h
    cases h; rfl
  | publish id q =>
    simp only [policyChange, published, bind_eq_ok] at h
    obtain ⟨_, _, _, _, h⟩ := h
    cases h; rfl

theorem Call.policyTarget_eq_ok {target : PolicyStoredRecord} (h : call.policyTarget ledger record now c = .ok target) :
    c.kind = .create ∧ ledger.policies.size < policyCountLimit ∧ (∃ token, call.token 0 = some token ∧
        target = newPolicyRecord ("policy_" ++ token.text) now) ∨
      c.kind ≠ .create ∧ target = record := by
  cases c with
  | create q =>
    simp only [policyTarget, bind_eq_ok, require_eq_ok, decide_eq_true_eq] at h
    obtain ⟨_, hroom, id, hid, h⟩ := h
    obtain ⟨token, ht, rfl⟩ := newPolicyEventID_eq_ok hid
    cases h
    exact Or.inl ⟨rfl, hroom, token, ht, rfl⟩
  | saveDraft id q => cases h; exact Or.inr ⟨by simp [PolicyRequest.kind], rfl⟩
  | review id q => cases h; exact Or.inr ⟨by simp [PolicyRequest.kind], rfl⟩
  | publish id q => cases h; exact Or.inr ⟨by simp [PolicyRequest.kind], rfl⟩

theorem PolicyDecided.decided {target : PolicyStoredRecord} {change : PolicyChange} {reply : PolicyReply}
    (hv : LedgerValid ledger) (hfresh : ledger.operations.get? c.operationID = none)
    (h : PolicyDecided call ledger next c actor result record target change reply) :
    Decided ledger next (c.identity actor) result := by
  refine ⟨hfresh, ⟨change.record.id, fun hk => ?_, ?_, by rw [h.left]; rfl⟩, h.size, fun _ => ?_,
    by rw [h.left]⟩
  · rw [call.policyChange_id h.changes]
    rcases call.policyTarget_eq_ok h.targeted with ⟨hkc, _⟩ | ⟨_, rfl⟩
    · exact absurd hkc hk
    · rcases policyCommandRecord_eq_ok (policyAdmitted_eq_ok h.admitted).1 with ⟨hkc, _⟩ | ⟨_, hget⟩
      · exact absurd hkc hk
      · exact (hv.policies _ _ hget).ident
  · rw [h.answered]
    exact ⟨rfl, rfl, rfl, rfl, rfl, rfl⟩
  · obtain ⟨_, hdoc⟩ := call.reply_eq_ok h.replied
    obtain ⟨hcov, hadopt⟩ := consistent_rest result (by rw [h.answered]; rfl) (by rw [h.answered]; rfl)
      (by rw [h.answered]; exact ⟨rfl, rfl, rfl, rfl, rfl, rfl⟩)
    refine ⟨?_, ?_, ?_, hcov, hadopt⟩
    · rw [h.answered]
      unfold validPolicyMutationIdentity Call.policyResult
      cases c <;> simp [PolicyRequest.kind, hdoc] <;> exact ⟨⟨rfl, rfl⟩, rfl⟩
    · rw [h.answered]
      unfold validPolicyLifecycleResult Call.policyResult
      cases c <;> rfl
    · rw [h.answered]
      unfold validPolicySourceAuthorityResult Call.policyResult
      cases c <;> rfl

end

/-! ## Source commands -/

section
variable {call : Call} {c : SourceContext} {action : SourceActionKind} {ledger next : PolicyLedger}
  {record : PolicyStoredRecord} {result : PolicyMutationReply} {changed : Bool}

/-- The record of a policy after a command of its source. -/
def sourceRecord (ledger : PolicyLedger) (c : SourceContext) (action : SourceActionKind) (record : PolicyStoredRecord) :
    PolicyStoredRecord :=
  if policyRecoverySourceHeld (ledger.sources.get? c.id) && action == .bind then consented record else record

/-- Everything a decision on a source can do. -/
structure SourceDecided (call : Call) (ledger next : PolicyLedger) (c : SourceContext) (action : SourceActionKind)
    (result : PolicyMutationReply) (record : PolicyStoredRecord) (moved : PolicyConnectedSource) (answer : PolicyReply) :
    Prop where
  stored : ledger.policies.get? c.id = some record
  room : ledger.operations.size < policyOperationLimit ∧
    ∀ s, ledger.sources.get? c.id = some s → s.actions.length < policyHistoryLimit
  held : policyRecoverySourceHeld (ledger.sources.get? c.id) = true → action = .bind ∨ action = .keepCurrent
  transition : sourceTransition c record (ledger.sources.get? c.id) action = .ok moved
  replied : call.reply 2 (sourceRecord ledger c action record) (ledger.sourceAuthorities.get? c.id) = .ok answer
  answered : ∃ sync, result = Call.sourceResult c action answer sync
  size : result.toJson.marshal.length ≤ retainedArtifactByteLimit
  left : next = { ledger with
    policies := if policyRecoverySourceHeld (ledger.sources.get? c.id) && action == .bind then
        ledger.policies.set c.id (sourceRecord ledger c action record) else ledger.policies
    sources := ledger.sources.set c.id (moved.acted c action)
    operations := ledger.operations.set c.q.operationID ⟨c.q.operationID, .source action, c.id,
      (sourceIdentity c.id c.actor c.q action).requestDigest, artifactReference result.toJson.marshal⟩ }

theorem Call.sourceUpdate_eq_ok (h : call.sourceUpdate c action ledger = .ok (changed, next, result)) :
    changed = false ∧ next = ledger ∧
        call.recovered 1 ledger (sourceIdentity c.id c.actor c.q action) = .ok (some result) ∨
      changed = true ∧ ledger.operations.get? c.q.operationID = none ∧ ∃ record moved answer,
        SourceDecided call ledger next c action result record moved answer := by
  simp only [sourceUpdate, bind_eq_ok] at h
  obtain ⟨_, _, recovered, hrec, h⟩ := h
  cases recovered with
  | some r => cases h; exact Or.inl ⟨rfl, rfl, hrec⟩
  | none =>
    simp only [sourceDecision, bind_eq_ok, found_eq_ok, require_eq_ok] at h
    obtain ⟨record, hr, _, _, _, hroom, _, hheld, moved, hm, answer, hreply, ref, hput, _, _, h⟩ := h
    obtain ⟨rfl, hsize⟩ := put_eq_ok hput
    simp only [Bool.and_eq_true, decide_eq_true_eq] at hroom
    simp only [Bool.or_eq_true, beq_iff_eq, Bool.not_eq_true'] at hheld
    cases h
    refine Or.inr ⟨rfl, call.recovered_none hrec, record, moved, answer, hr, ⟨hroom.1, fun s hs => ?_⟩, fun hh => ?_, hm,
      hreply, ⟨_, rfl⟩, hsize, rfl⟩
    · have hacts := hroom.2
      rw [hs] at hacts
      simpa using hacts
    · rcases hheld with (hn | hb) | hk
      · rw [hh] at hn; cases hn
      · exact Or.inl hb
      · exact Or.inr hk

theorem sourceRecord_id (ledger : PolicyLedger) (c : SourceContext) (action : SourceActionKind) (record : PolicyStoredRecord) :
    (sourceRecord ledger c action record).id = record.id := by
  unfold sourceRecord
  split <;> rfl

theorem SourceDecided.decided {moved : PolicyConnectedSource} {answer : PolicyReply} (hv : LedgerValid ledger)
    (hfresh : ledger.operations.get? c.q.operationID = none)
    (h : SourceDecided call ledger next c action result record moved answer) :
    Decided ledger next (sourceIdentity c.id c.actor c.q action) result := by
  obtain ⟨sync, hresult⟩ := h.answered
  refine ⟨hfresh, ⟨c.id, fun _ => rfl, ?_, by rw [h.left]; rfl⟩, h.size, fun _ => ?_, by rw [h.left]⟩
  · rw [hresult]
    exact ⟨rfl, rfl, rfl, rfl, rfl, rfl⟩
  · have hdoc : answer.document.id = c.id := by
      rw [(call.reply_eq_ok h.replied).2, sourceRecord_id]
      exact (hv.policies _ _ h.stored).ident
    obtain ⟨hcov, hadopt⟩ := consistent_rest result (by rw [hresult]; rfl) (by rw [hresult]; rfl)
      (by rw [hresult]; exact ⟨rfl, rfl, rfl, rfl, rfl, rfl⟩)
    refine ⟨?_, ?_, ?_, hcov, hadopt⟩
    · rw [hresult]
      unfold validPolicyMutationIdentity Call.sourceResult
      simp [hdoc]
      exact ⟨⟨rfl, rfl⟩, rfl⟩
    · rw [hresult]
      rfl
    · rw [hresult]
      rfl

end

/-! ## Source status commands -/

section
variable {call : Call} {id : String} {actor : PolicyActor} {q : PolicySourceStatusRequest} {kind : AuthorityKind}
  {authority : String} {ledger next : PolicyLedger} {record : PolicyStoredRecord} {result : PolicyMutationReply}
  {changed : Bool} {token : Token} {c : StatusChange} {stream : PolicySourceAuthorityStream}

/-- What a decision leaves of the tables it may write. -/
theorem statusChange_ledger (hr : ledger.policies.get? id = some record)
    (h : call.statusChange id q (policySourceStatusView record (ledger.sources.get? id) (ledger.sourceAuthorities.get? id)
      authority) (statusBase call ledger id record kind q actor token) kind = .ok c) :
    c.ledger.policies.get? id = some c.record ∧ c.ledger.sources.get? id = c.source ∧
      c.ledger.operations = ledger.operations ∧ c.ledger.execution = ledger.execution := by
  cases hk : kind with
  | setOwnership => rw [hk] at h; obtain ⟨mode, rfl⟩ := statusOwnership_eq_ok h; exact ⟨hr, rfl, rfl, rfl⟩
  | configure => rw [hk] at h; obtain ⟨_, _, _, _, _, rfl⟩ := call.statusConfigure_eq_ok h; exact ⟨hr, rfl, rfl, rfl⟩
  | applyExternal => rw [hk] at h; obtain ⟨_, _, _, _, _, _, rfl⟩ := call.statusApplyExternal_eq_ok h; exact ⟨hr, rfl, rfl, rfl⟩
  | importDraft =>
    rw [hk] at h
    obtain ⟨_, _, _, _, _, _, _, _, himp⟩ := call.statusImportDraft_eq_ok h
    rw [himp.ledger]
    refine ⟨Table.get?_set_self _ _ _, ?_, rfl, rfl⟩
    show (ledger.sources.set id _).get? id = _
    rw [Table.get?_set_self, himp.source]
    rfl

/-- What the validator accepts, the answer says consistently. -/
theorem StatusDecided.consistent (hn : LedgerValid next) (hv : LedgerValid ledger)
    (h : StatusDecided call ledger next id actor q kind authority result record token c stream) :
    validPolicySourceAuthorityResult result = true := by
  obtain ⟨hpolicy, hsource, _⟩ := statusChange_ledger h.stored h.change
  have hrecord : next.policies.get? id = some c.record := by rw [h.left]; exact hpolicy
  have hstream : next.sourceAuthorities.get? id = some stream := by
    rw [h.left]
    exact Table.get?_set_self _ _ _
  have hsrc : next.sources.get? id = c.source := by rw [h.left]; exact hsource
  obtain ⟨s, b⟩ := exists_policyBasis hn hrecord
  have hloop := b.loop
  have hobs := b.observations
  rw [hstream, hsrc] at hloop
  rw [hsrc] at hobs
  have hrev : ∀ r ∈ c.record.revisions, RevisionForm r := fun r hr => revisionForm_of_valid (b.valid.revisions r hr)
  exact h.result_valid_of (h.version hv) b.valid.revisionIDs (hrev _ (policyHead_mem b.valid))
    (answeredLoop_of_authorityLoop hobs hrev hloop)

theorem Call.sourceStatusUpdate_cases
    (h : call.sourceStatusUpdate id actor q kind authority ledger = .ok (changed, next, result)) :
    changed = false ∧ next = ledger ∧
        call.recovered 3 ledger (sourceStatusIdentity id actor q kind) = .ok (some result) ∨
      changed = true ∧ ledger.operations.get? q.operationID = none ∧ ∃ record token c stream,
        StatusDecided call ledger next id actor q kind authority result record token c stream := by
  have hup := h
  simp only [sourceStatusUpdate, bind_eq_ok] at h
  obtain ⟨_, _, recovered, hrec, h⟩ := h
  cases recovered with
  | some r => cases h; exact Or.inl ⟨rfl, rfl, hrec⟩
  | none =>
    obtain ⟨rfl, hd⟩ := sourceStatusDecision_eq_ok h
    exact Or.inr ⟨rfl, call.recovered_none hrec, hd⟩

theorem StatusDecided.decided (hv : LedgerValid ledger) (hfresh : ledger.operations.get? q.operationID = none)
    (h : StatusDecided call ledger next id actor q kind authority result record token c stream) :
    Decided ledger next (sourceStatusIdentity id actor q kind) result := by
  obtain ⟨_, _, hops, hexec⟩ := statusChange_ledger h.stored h.change
  refine ⟨hfresh, ⟨id, fun _ => rfl, ?_, ?_⟩, h.size, fun hn => ?_, by rw [h.left, ← hexec]⟩
  · rw [h.answered]
    exact ⟨rfl, rfl, rfl, rfl, rfl, rfl⟩
  · rw [h.left]
    show c.ledger.operations.set _ _ = _
    rw [hops]
    rfl
  · obtain ⟨hcov, hadopt⟩ := consistent_rest result (by rw [h.answered]; rfl) (by rw [h.answered]; rfl)
      (by rw [h.answered]; exact ⟨rfl, rfl, rfl, rfl, rfl, rfl⟩)
    refine ⟨?_, ?_, h.consistent hn hv, hcov, hadopt⟩
    · rw [h.answered]
      unfold validPolicyMutationIdentity Call.statusResult
      simp [sourceStatusIdentity]
      exact ⟨rfl, rfl⟩
    · rw [h.answered]
      rfl

end

/-! ## Lifecycle commands -/

theorem Call.lifecycleDecision_decided {call : Call} {id : String} {actor : PolicyActor} {q : PolicyLifecycleRequest}
    {action : LifecycleAction} {ledger next : PolicyLedger} {reading : String} {changed : Bool}
    {result : PolicyMutationReply} (hfresh : ledger.operations.get? q.operationID = none)
    (h : call.lifecycleDecision id actor q action ledger reading = .ok (changed, next, result)) :
    Decided ledger next (lifecycleIdentity id actor q action) result := by
  simp only [lifecycleDecision, bind_eq_ok, found_eq_ok, require_eq_ok, beforeCommit_eq_ok] at h
  obtain ⟨record, _, _, _, _, _, publication, _, _, _, _, _, schedule, _, eventID, _, ref, hput, _, _, h⟩ := h
  obtain ⟨rfl, hsize⟩ := put_eq_ok hput
  cases h
  refine ⟨hfresh, ⟨id, fun _ => rfl, ⟨rfl, rfl, rfl, rfl, rfl, rfl⟩, rfl⟩, hsize, fun _ => ⟨?_, ?_, rfl, ?_, ?_⟩, rfl⟩
  · unfold validPolicyMutationIdentity
    simp [lifecycleIdentity]
    exact ⟨rfl, rfl⟩
  · unfold validPolicyLifecycleResult
    simp [lifecycleIdentity, policyLifecycleView, lifecycleEvents]
  · exact (consistent_rest _ rfl rfl ⟨rfl, rfl, rfl, rfl, rfl, rfl⟩).1
  · exact (consistent_rest _ rfl rfl ⟨rfl, rfl, rfl, rfl, rfl, rfl⟩).2

end Desk
