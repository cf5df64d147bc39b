import Desk.Execution.EligibleSound
import Desk.Execution.EpochSound
import Desk.Service.LifecycleSound

/-!
# The high water of time

Runs that mix execution and lifecycle commands, each with a clock of its own. The
high water of the ledger never falls, whatever a step enters is dated at it or
later, and a release that is over at it carries no start any more.
-/

namespace Desk

open ExecutionCall (startedAttempt Admitted Change Effect at_)

/-! ## Steps -/

inductive ClockedCommand where
  | execution (step : ExecutionStep)
  | lifecycle (command : LifecycleCommand)

def clockedStep (l : PolicyLedger) : ClockedCommand → PolicyLedger
  | .execution step => executionStep l step
  | .lifecycle command => lifecycleStep l command

/-! ## Entries -/

/-- The entries of `e'` that are not in `e` are dated at `t` or later; an attempt carries the time of its last change. -/
structure EntriesFrom (t : String) (e e' : PolicyExecutionState) : Prop where
  resources : Table.New e.resources e'.resources fun _ r => t ≤ r.content.at_
  intents : Table.New e.intents e'.intents fun _ i => t ≤ i.at_
  epochs : Table.New e.epochs e'.epochs fun _ v => t ≤ v.at_
  attempts : Table.New e.attempts e'.attempts fun id a => t ≤ (ExecutionCall.attemptHistory id a).at_
  starts : ∀ id start, (e'.attempts.get? id).bind PolicyExecutionAttempt.start = some start →
    (e.attempts.get? id).bind PolicyExecutionAttempt.start = some start ∨ t ≤ start.at_

section
variable {t : String} {e e' : PolicyExecutionState}

theorem EntriesFrom.same (hr : e'.resources = e.resources) (hi : e'.intents = e.intents) (hep : e'.epochs = e.epochs)
    (ha : e'.attempts = e.attempts) : EntriesFrom t e e' := by
  refine ⟨?_, ?_, ?_, ?_, fun id start h => Or.inl (by rwa [← ha])⟩
  · rw [hr]; exact Table.New.refl _ _
  · rw [hi]; exact Table.New.refl _ _
  · rw [hep]; exact Table.New.refl _ _
  · rw [ha]; exact Table.New.refl _ _

theorem EntriesFrom.of_at {now : String} (h : EntriesFrom t (at_ e now) e') : EntriesFrom t e e' :=
  ⟨h.resources, h.intents, h.epochs, h.attempts, h.starts⟩

/-- One attempt entered. -/
theorem EntriesFrom.attempt {id : String} {a : PolicyExecutionAttempt}
    (hat : t ≤ (ExecutionCall.attemptHistory id a).at_)
    (hstart : ∀ start, a.start = some start →
      (e.attempts.get? id).bind PolicyExecutionAttempt.start = some start ∨ t ≤ start.at_) :
    EntriesFrom t e { e with attempts := e.attempts.set id a } := by
  refine ⟨Table.New.refl _ _, Table.New.refl _ _, Table.New.refl _ _, Table.New.set hat, ?_⟩
  intro id' start h
  rw [Table.get?_set] at h
  by_cases hid : id' = id
  · rw [if_pos hid] at h
    rw [hid]
    exact hstart start h
  · rw [if_neg hid] at h
    exact Or.inl h

end

theorem reservedAttempt_dated {s : PolicyExecutionSession} {q : PolicyExecutionReserveRequest}
    {result : PolicyExecutionReserveResult} {reason : ExecutionReason} {now : String} (id : String) :
    (ExecutionCall.attemptHistory id (ExecutionCall.reservedAttempt s q result reason now)).at_ = now := by
  unfold ExecutionCall.reservedAttempt
  split <;> rfl

/-- An operation leaves the high water, and what it enters is dated at its reading. -/
theorem Change.dated {c : ExecutionCall} {l : PolicyLedger} {e next : PolicyExecutionState} {t now : String}
    {command : ExecutionCommand} (ht : t ≤ now) (h : Change c l e now command next) :
    next.lastTime = e.lastTime ∧ EntriesFrom t e next := by
  have starts : ∀ id start, (e.attempts.get? id).bind PolicyExecutionAttempt.start = some start →
      (e.attempts.get? id).bind PolicyExecutionAttempt.start = some start ∨ t ≤ start.at_ := fun _ _ => Or.inl
  cases h with
  | @registered q seen material resolve r _ _ _ hnew =>
    have hat : r.content.at_ = now := by rw [hnew.content]
    refine ⟨rfl, Table.New.set ?_, Table.New.refl _ _, Table.New.refl _ _, Table.New.refl _ _, starts⟩
    rw [hat]
    exact ht
  | @prepared resource registration key raw refs i r _ _ hnew =>
    have hat : i.at_ = now := by rw [hnew.intent]
    refine ⟨rfl, Table.New.refl _ _, Table.New.set ?_, Table.New.refl _ _, Table.New.refl _ _, starts⟩
    rw [hat]
    exact ht
  | @activated s q epoch hnew _ =>
    refine ⟨rfl, Table.New.refl _ _, Table.New.refl _ _, Table.New.set ?_, Table.New.refl _ _, starts⟩
    rw [hnew.at_]
    exact ht
  | @held s q a hseal =>
    refine ⟨rfl, EntriesFrom.attempt ht fun start hs => Or.inl ?_⟩
    rw [hseal.attempt]
    exact hs
  | @reserved s a epoch i r _ hnew =>
    refine ⟨rfl, EntriesFrom.attempt ?_ fun start hs => ?_⟩
    · rw [hnew.fields, reservedAttempt_dated]
      exact ht
    · rw [hnew.fields, ExecutionCall.reservedAttempt_start] at hs
      cases hs
  | @started s q a epoch start hstart =>
    have hat : start.at_ = now := by rw [hstart.start]; rfl
    refine ⟨rfl, EntriesFrom.attempt ?_ fun start' hs => Or.inr ?_⟩
    · show t ≤ ((startedAttempt a start).hold.map PolicyExecutionHold.at_).getD start.at_
      rw [show (startedAttempt a start).hold = none from hstart.hold, hat]
      exact ht
    · cases hs
      rw [hat]
      exact ht

/-! ## One step -/

/-- What a step does to a ledger with the state `e`. -/
structure Advanced (l l' : PolicyLedger) (e : PolicyExecutionState) : Prop where
  policies : l'.policies = l.policies
  later : ∃ e', l'.execution = some e' ∧ e.lastTime ≤ e'.lastTime ∧ EntriesFrom e.lastTime e e'
  events : ∀ policyID, ∀ event ∈ lifecycleEvents (l'.lifecycles.get? policyID),
    event ∈ lifecycleEvents (l.lifecycles.get? policyID) ∨ e.lastTime ≤ event.at_
  status : ∀ t ≤ e.lastTime, ∀ policyID publicationID,
    releaseStatus (lifecycleEvents (l.lifecycles.get? policyID)) t publicationID ≤
      releaseStatus (lifecycleEvents (l'.lifecycles.get? policyID)) t publicationID

theorem ExecutionCall.Effect.advanced {c : ExecutionCall} {command : ExecutionCommand} {l l' : PolicyLedger}
    (h : Effect c command l l') {e : PolicyExecutionState} (he : l.execution = some e) : Advanced l l' e := by
  cases h with
  | unchanged =>
    exact ⟨rfl, ⟨e, he, le_rfl, EntriesFrom.same rfl rfl rfl rfl⟩, fun _ _ h => Or.inl h,
      fun _ _ _ _ => ReleaseStatus.le_refl _⟩
  | initialized hnone => rw [hnone] at he; cases he
  | @observed e' now hadm =>
    cases hadm.state.symm.trans he
    refine ⟨rfl, ⟨at_ e now, ?_, hadm.later, EntriesFrom.same rfl rfl rfl rfl⟩, fun _ _ h => Or.inl h,
      fun _ _ _ _ => ReleaseStatus.le_refl _⟩
    rw [PolicyLedger.committed_execution, PolicyLedger.observed_execution, he]
    rfl
  | @changed e' next now hadm hchange =>
    cases hadm.state.symm.trans he
    obtain ⟨hlast, hentries⟩ := Change.dated hadm.later hchange
    refine ⟨rfl, ⟨next, rfl, ?_, hentries.of_at⟩, fun _ _ h => Or.inl h, fun _ _ _ _ => ReleaseStatus.le_refl _⟩
    rw [hlast]
    exact hadm.later

theorem LifecycleEffect.advanced {l l' : PolicyLedger} {id now : String} (h : LifecycleEffect l id now l')
    {e : PolicyExecutionState} (he : l.execution = some e) : Advanced l l' e := by
  have hat : (l.observed now).execution = some (at_ e now) := by rw [PolicyLedger.observed_execution, he]; rfl
  have status := fun (hnow : e.lastTime ≤ now) t (ht : t ≤ e.lastTime) => (h.status (ht.trans hnow)).2.2
  cases h with
  | unchanged =>
    exact ⟨rfl, ⟨e, he, le_rfl, EntriesFrom.same rfl rfl rfl rfl⟩, fun _ _ h => Or.inl h,
      fun _ _ _ _ => ReleaseStatus.le_refl _⟩
  | observed hlast =>
    exact ⟨rfl, ⟨at_ e now, hat, hlast e he, EntriesFrom.same rfl rfl rfl rfl⟩, fun _ _ h => Or.inl h,
      status (hlast e he)⟩
  | @decided next record publication event hlast hd =>
    obtain ⟨version, operations, hn⟩ := hd.next
    subst hn
    refine ⟨rfl, ⟨at_ e now, hat, hlast e he, EntriesFrom.same rfl rfl rfl rfl⟩, fun policyID v hv => ?_,
      status (hlast e he)⟩
    simp only [PolicyLedger.committed_lifecycles, PolicyLedger.observed_lifecycles] at hv
    rw [Table.get?_set] at hv
    by_cases hp : policyID = id
    · rw [if_pos hp] at hv
      rcases List.mem_append.mp hv with hold | hnew
      · exact Or.inl (by rw [hp]; exact hold)
      · rw [List.mem_singleton.mp hnew, hd.at_]
        exact Or.inr (hlast e he)
    · rw [if_neg hp] at hv
      exact Or.inl hv

theorem clockedStep_advanced (command : ClockedCommand) {l : PolicyLedger} {e : PolicyExecutionState}
    (he : l.execution = some e) : Advanced l (clockedStep l command) e := by
  cases command with
  | execution step => exact (executionStep_effect l step).advanced he
  | lifecycle command => exact (lifecycleStep_effect l command).advanced he

/-! ## Runs -/

/-- The high water and the status of every release at an earlier reading, over a run. -/
theorem run_advanced (commands : List ClockedCommand) : ∀ {l : PolicyLedger} {e : PolicyExecutionState},
    l.execution = some e → ∃ e', (run clockedStep l commands).execution = some e' ∧ e.lastTime ≤ e'.lastTime ∧
      ∀ policyID publicationID, releaseStatus (lifecycleEvents (l.lifecycles.get? policyID)) e.lastTime publicationID ≤
        releaseStatus (lifecycleEvents ((run clockedStep l commands).lifecycles.get? policyID)) e.lastTime
          publicationID := by
  suffices h : ∀ (t : String) {l : PolicyLedger} {e : PolicyExecutionState}, l.execution = some e → t ≤ e.lastTime →
      ∃ e', (run clockedStep l commands).execution = some e' ∧ e.lastTime ≤ e'.lastTime ∧
        ∀ policyID publicationID, releaseStatus (lifecycleEvents (l.lifecycles.get? policyID)) t publicationID ≤
          releaseStatus (lifecycleEvents ((run clockedStep l commands).lifecycles.get? policyID)) t publicationID from
    fun {_ _} he => h _ he le_rfl
  intro t
  induction commands with
  | nil => exact fun {l e} he _ => ⟨e, he, le_rfl, fun _ _ => ReleaseStatus.le_refl _⟩
  | cons command rest ih =>
    intro l e he ht
    have hstep := clockedStep_advanced command he
    obtain ⟨e₁, he₁, hle₁, _⟩ := hstep.later
    obtain ⟨e₂, he₂, hle₂, hstatus⟩ := ih he₁ (ht.trans hle₁)
    exact ⟨e₂, he₂, hle₁.trans hle₂, fun policyID publicationID =>
      ReleaseStatus.le_trans (hstep.status t ht policyID publicationID) (hstatus policyID publicationID)⟩

theorem clockedStep_valid {l : PolicyLedger} (hv : validatePolicyLedger l = true) (command : ClockedCommand) :
    validatePolicyLedger (clockedStep l command) = true := by
  cases command with
  | execution step => exact (executionStep_effect l step).valid hv
  | lifecycle command => exact (lifecycleStep_effect l command).valid hv

/-! ## Starts that depend on a release -/

/-- The release is over: whatever is published or withdrawn later, it is not effective again. -/
def ReleaseStatus.over (status : ReleaseStatus) : Prop :=
  status = .superseded ∨ status = .expired ∨ status = .withdrawn

theorem ReleaseStatus.over.not_effective {status later : ReleaseStatus} (h : status.over) (hle : status ≤ later) :
    later ≠ .effective := by
  rintro rfl
  rcases h with rfl | rfl | rfl <;> exact absurd hle (by decide)

/-- The resource of the intent was adopted on the publication. -/
def DependsOn (l : PolicyLedger) (intentID policyID publicationID : String) : Prop :=
  ∃ e i r, l.execution = some e ∧ e.intents.get? intentID = some i ∧ e.resources.get? i.resourceID = some r ∧
    ∃ d ∈ r.content.adoption.content.basis.dependencies, d.selection.policyID = policyID ∧
      d.policyPublicationID = publicationID

def startOf (l : PolicyLedger) (intentID : String) : Option PolicyExecutionStartResult :=
  (attemptOf l intentID).bind PolicyExecutionAttempt.start

theorem startDecision_committed {reason : ExecutionReason}
    (h : (ExecutionCall.startDecision reason).1 = .startCommitted) : reason = .eligible := by
  unfold ExecutionCall.startDecision at h
  split at h
  · rename_i hreason
    exact hreason
  · cases h

theorem startReason_eq_eligible {c : ExecutionCall} {l : PolicyLedger} {e : PolicyExecutionState}
    {q : PolicyExecutionStartRequest} {epoch : PolicyExecutionEpoch} {now : String}
    (h : c.startReason l e q epoch now = .eligible) {i : PolicyExecutionIntent} {r : PolicyExecutionRegisteredResource}
    (hi : e.intents.get? q.intentID = some i) (hr : e.resources.get? i.resourceID = some r) :
    c.eligible l r now = .eligible := by
  unfold ExecutionCall.startReason at h
  simp only [hi, Option.getD_some, hr] at h
  split at h
  · exact h
  · cases h

/-- A step that records a committed start found the resource of its intent eligible. -/
theorem executionStep_started {l : PolicyLedger} {step : ExecutionStep} {intentID : String}
    {start : PolicyExecutionStartResult} (hnew : startOf (executionStep l step) intentID = some start)
    (hdecision : start.decision = .startCommitted) :
    startOf l intentID = some start ∨ ∃ e now, Admitted step.call l e now ∧ ∀ i r, e.intents.get? intentID = some i →
      e.resources.get? i.resourceID = some r → step.call.eligible (l.observed now) r now = .eligible := by
  have h := executionStep_attempt l step intentID
  unfold startOf at hnew ⊢
  generalize attemptOf (executionStep l step) intentID = new at h hnew
  generalize hold : attemptOf l intentID = old at h
  cases h with
  | kept => exact Or.inl hnew
  | recorded hnone =>
    rw [Option.bind_some, hnone] at hnew
    cases hnew
  | held => exact Or.inl hnew
  | @started a start' e now s q epoch hadm hstart hcommand hid =>
    cases hnew
    refine Or.inr ⟨e, now, hadm, fun i r hi hr => ?_⟩
    subst hid
    rw [hstart.start] at hdecision
    exact startReason_eq_eligible (startDecision_committed hdecision) hi hr

/-! ## The theorem -/

/-- In a run of execution and lifecycle commands, whatever their clocks read: the high water never falls; a step
enters nothing that is dated before the high water it found; and once a release is over at the high water, no later
step records a committed start of an intent that depends on it. -/
theorem high_water_of_time {l : PolicyLedger} (hv : validatePolicyLedger l = true) (pre post : List ClockedCommand)
    {e : PolicyExecutionState} (he : (run clockedStep l pre).execution = some e) :
    (∃ e', (run clockedStep l (pre ++ post)).execution = some e' ∧ e.lastTime ≤ e'.lastTime) ∧
      (∀ command, ∃ e', (clockedStep (run clockedStep l pre) command).execution = some e' ∧
        EntriesFrom e.lastTime e e' ∧ ∀ policyID, ∀ event ∈
          lifecycleEvents ((clockedStep (run clockedStep l pre) command).lifecycles.get? policyID),
          event ∈ lifecycleEvents ((run clockedStep l pre).lifecycles.get? policyID) ∨ e.lastTime ≤ event.at_) ∧
      ∀ policyID publicationID, (releaseStatus (lifecycleEvents ((run clockedStep l pre).lifecycles.get? policyID)) e.lastTime
          publicationID).over → ∀ step intentID start, DependsOn (run clockedStep l (pre ++ post)) intentID policyID publicationID →
        startOf (executionStep (run clockedStep l (pre ++ post)) step) intentID = some start →
        start.decision = .startCommitted → startOf (run clockedStep l (pre ++ post)) intentID = some start := by
  have hvalid := run_invariant (P := fun l => validatePolicyLedger l = true) (fun l command h => clockedStep_valid h command) hv
    (pre ++ post)
  rw [run_append] at hvalid ⊢
  generalize run clockedStep l pre = before at he hvalid ⊢
  obtain ⟨e', he', hle, hstatus⟩ := run_advanced post he
  refine ⟨⟨e', he', hle⟩, ?_, ?_⟩
  · intro command
    have hstep := clockedStep_advanced command he
    obtain ⟨e₁, he₁, _, hentries⟩ := hstep.later
    exact ⟨e₁, he₁, hentries, hstep.events⟩
  · intro policyID publicationID hover step intentID start hdepends hnew hdecision
    rcases executionStep_started hnew hdecision with hold | ⟨e₂, now, hadm, heligible⟩
    · exact hold
    · exfalso
      obtain ⟨e₃, i, r, he₃, hi, hr, d, hd, hpolicy, hpublication⟩ := hdepends
      cases hadm.state.symm.trans he₃
      cases hadm.state.symm.trans he'
      obtain ⟨p, hcarried⟩ := (eligible_eq_eligible (heligible i r hi hr)).carried d hd
      have hkey : p.id = policyID := by
        rw [← hpolicy]
        exact ((ledgerValid_iff.mp hvalid).policies _ p hcarried.stored).ident
      have hlater := ReleaseStatus.le_trans (hstatus policyID publicationID)
        (releaseStatus_later (hle.trans hadm.later)
          (lifecycleEvents ((run clockedStep before post).lifecycles.get? policyID)) publicationID)
      refine hover.not_effective hlater ?_
      have := hcarried.effective
      rw [hkey, hpublication] at this
      exact this

/-! ## A withdrawn release -/

namespace Sample

def withdrawnEvent : PolicyLifecycleEvent where
  id := "lifecycle_" ++ token 'b'
  sequence := 2
  action := .withdraw
  publicationID := publication.id
  candidateDigest := publication.candidateDigest
  at_ := "2026-01-02T00:00:00Z"
  actor := actor
  provenance := "admin-configured"
  effectiveAt := ""
  expiresAt := ""
  supersedesPublicationID := ""
  rationale := "Replaced."

def withdrawnLedger : PolicyLedger :=
  { executionLedger with lifecycles := Table.empty.set policyID ⟨1, [activation, withdrawnEvent]⟩ }

end Sample

theorem high_water_of_time_sample :
    releaseStatus (lifecycleEvents (Sample.withdrawnLedger.lifecycles.get? Sample.policyID)) "2026-01-02T00:00:00Z"
      Sample.publication.id = .withdrawn ∧
    ∀ step intentID start, DependsOn (clockedStep Sample.withdrawnLedger (.execution (Sample.activateStep '7'))) intentID
        Sample.policyID Sample.publication.id →
      startOf (executionStep (clockedStep Sample.withdrawnLedger (.execution (Sample.activateStep '7'))) step) intentID =
        some start → start.decision = .startCommitted →
      startOf (clockedStep Sample.withdrawnLedger (.execution (Sample.activateStep '7'))) intentID = some start := by
  have hstatus : releaseStatus (lifecycleEvents (Sample.withdrawnLedger.lifecycles.get? Sample.policyID))
      "2026-01-02T00:00:00Z" Sample.publication.id = .withdrawn := by decide +kernel
  have hvalid : LedgerValid Sample.withdrawnLedger :=
    { Sample.executionLedger_valid with lifecycles := by decide +kernel }
  have hv := ledgerValid_iff.mpr hvalid
  exact ⟨hstatus, (high_water_of_time hv [] [.execution (Sample.activateStep '7')] rfl).2.2 Sample.policyID
    Sample.publication.id (Or.inr (Or.inr hstatus))⟩

end Desk
