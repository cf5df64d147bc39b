import Desk.Ledger.Valid
import Desk.Lib.Run
import Desk.Policy.LifecycleSound
import Desk.Service.Lifecycle

/-!
# Runs of lifecycle commands

Everything a lifecycle command can do to the ledger, and from it that no release
ranks lower at a later reading after any commands in between.
-/

namespace Desk

/-! ## One command -/

/-- An accepted decision appends one fresh event of its own reading. -/
structure LifecycleDecided (base next : PolicyLedger) (id now : String) (record : PolicyStoredRecord)
    (publication : PolicyPublication) (event : PolicyLifecycleEvent) : Prop where
  stored : base.policies.get? id = some record
  published : publicationOf record event.publicationID = some publication
  fresh : FreshDecision (lifecycleEvents (base.lifecycles.get? id)) event
  at_ : event.at_ = now
  admitted : event.action = .activate →
    (policyAuthorityOwnership (base.sourceAuthorities.get? id)).owner.mode = .deskManaged ∧
      policyBoundary record (base.sourceAuthorities.get? id) < publication.sequence ∧ now ≤ event.effectiveAt
  next : ∃ version operations, next = { base with
    lifecycles := base.lifecycles.set id ⟨version, lifecycleEvents (base.lifecycles.get? id) ++ [event]⟩
    operations := operations }

theorem Call.lifecycleSchedule_eq_ok {call : Call} {record : PolicyStoredRecord}
    {authority : Option PolicySourceAuthorityStream} {publication : PolicyPublication} {q : PolicyLifecycleRequest}
    {now : String} {schedule : LifecycleSchedule}
    (h : call.lifecycleSchedule record authority publication q now .activate = .ok schedule) :
    (policyAuthorityOwnership authority).owner.mode = .deskManaged ∧
      policyBoundary record authority < publication.sequence ∧ now ≤ schedule.effectiveAt := by
  simp only [lifecycleSchedule, bind_eq_ok, refuseIf_eq_ok, require_eq_ok, Bool.and_eq_true, decide_eq_true_eq] at h
  obtain ⟨_, hadm, _, hb, _, ⟨⟨_, he⟩, _⟩, _, _, _, _, hs⟩ := h
  cases hs
  refine ⟨?_, hb, he⟩
  unfold policyAuthorityAdmission at hadm
  split at hadm
  · cases hadm
  · rename_i hn
    exact Classical.byContradiction fun hm => hn ⟨by decide, hm⟩

theorem Call.lifecycleDecision_eq_ok {call : Call} {id : String} {actor : PolicyActor} {q : PolicyLifecycleRequest}
    {action : LifecycleAction} {ledger next : PolicyLedger} {reading : String} {changed : Bool}
    {result : PolicyMutationReply}
    (h : call.lifecycleDecision id actor q action ledger reading = .ok (changed, next, result)) :
    changed = true ∧ ∃ record publication event,
      LifecycleDecided ledger next id (if reading = "" then call.lifecycleNow else reading) record publication event := by
  simp only [lifecycleDecision, bind_eq_ok, found_eq_ok, require_eq_ok, beforeCommit_eq_ok] at h
  obtain ⟨record, hr, _, _, _, _, publication, hp, _, hfresh, _, _, schedule, hs, eventID, _, ref, _, _, _, h⟩ := h
  cases h
  refine ⟨rfl, record, publication, _, hr, ?_, ?_, rfl, ?_, _, _, rfl⟩
  · rw [(lastWith_spec hp).2]
    exact hp
  · intro e he hid
    have := List.all_eq_true.mp hfresh e he
    simp only [Bool.or_eq_true, Bool.and_eq_true, bne_iff_ne, ne_eq] at this
    exact this.resolve_left (fun hn => hn hid)
  · rintro rfl
    exact call.lifecycleSchedule_eq_ok hs

theorem Call.lifecycleUse_eq_ok {call : Call} {id : String} {actor : PolicyActor} {q : PolicyLifecycleRequest}
    {action : LifecycleAction} {ledger next : PolicyLedger} {reading : String} {changed : Bool}
    {result : PolicyMutationReply} (h : call.lifecycleUse id actor q action ledger reading = .ok (changed, next, result)) :
    changed = false ∧ next = ledger ∨ ∃ record publication event,
      LifecycleDecided ledger next id (if reading = "" then call.lifecycleNow else reading) record publication event := by
  simp only [lifecycleUse, bind_eq_ok] at h
  obtain ⟨_, _, recovered, _, h⟩ := h
  cases recovered with
  | some r => cases h; exact Or.inl ⟨rfl, rfl⟩
  | none => exact Or.inr (lifecycleDecision_eq_ok h).2

/-- Every ledger a command can leave. -/
inductive LifecycleEffect (l : PolicyLedger) (id now : String) : PolicyLedger → Prop where
  | unchanged : LifecycleEffect l id now l
  | observed : (∀ e, l.execution = some e → e.lastTime ≤ now) → validatePolicyLedger (l.observed now) = true →
      LifecycleEffect l id now (l.observed now).committed
  | decided {next : PolicyLedger} {record : PolicyStoredRecord} {publication : PolicyPublication}
      {event : PolicyLifecycleEvent} : (∀ e, l.execution = some e → e.lastTime ≤ now) →
      LifecycleDecided (l.observed now) next id now record publication event → validatePolicyLedger next = true →
      LifecycleEffect l id now next.committed

theorem PolicyLedger.reread_eq_ok {l work : PolicyLedger} (h : l.reread = .ok work) : work = l := by
  unfold reread at h
  split at h
  · cases h; rfl
  · cases h

theorem Call.lifecycleAuthorityUpdate_eq_ok {call : Call} {id : String} {actor : PolicyActor}
    {q : PolicyLifecycleRequest} {action : LifecycleAction} {l next : PolicyLedger}
    {answer : Except GoError PolicyMutationReply} (hv : validatePolicyLedger next = true)
    (h : call.lifecycleAuthorityUpdate id actor q action l = .ok (true, next, answer)) :
    LifecycleEffect l id call.lifecycleNow next.committed := by
  unfold lifecycleAuthorityUpdate at h
  cases he : l.execution with
  | none =>
    have hnone : ∀ e, l.execution = some e → e.lastTime ≤ call.lifecycleNow := by
      intro e hs
      rw [he] at hs; cases hs
    rw [he] at h
    simp only [bind_eq_ok] at h
    obtain ⟨⟨changed, next', result⟩, hu, hnext⟩ := h
    cases hnext
    rcases lifecycleUse_eq_ok hu with ⟨hf, _⟩ | ⟨record, publication, event, hd⟩
    · cases hf
    · rw [if_pos rfl, ← l.observed_of_none he call.lifecycleNow] at hd
      exact .decided hnone hd hv
  | some e =>
    rw [he] at h
    simp only [bind_eq_ok, require_eq_ok, Bool.and_eq_true, decide_eq_true_eq] at h
    obtain ⟨_, _, _, _, _, ⟨_, hlast⟩, work, hw, _, _, hnext⟩ := h
    cases PolicyLedger.reread_eq_ok hw
    have hlast : ∀ e', l.execution = some e' → e'.lastTime ≤ call.lifecycleNow := by
      intro e' hs
      rw [he] at hs; cases hs; exact hlast
    rcases observe_cases (Except.ok.inj hnext) with ⟨rfl, _⟩ | ⟨used, hu⟩
    · exact .observed hlast hv
    · simp only [bind_eq_ok] at hu
      obtain ⟨⟨changed, next', result⟩, hu, hnext⟩ := hu
      cases hnext
      rcases lifecycleUse_eq_ok hu with ⟨_, rfl⟩ | ⟨record, publication, event, hd⟩
      · exact .observed hlast hv
      · rw [ite_self] at hd
        exact .decided hlast hd hv

/-- A lifecycle command, with all that its call takes from outside. -/
structure LifecycleCommand where
  call : Call
  id : String
  actor : PolicyActor
  request : PolicyLifecycleRequest

def lifecycleStep (l : PolicyLedger) (c : LifecycleCommand) : PolicyLedger :=
  (c.call.lifecycleCommand c.id c.actor c.request l).2

theorem lifecycleStep_effect (l : PolicyLedger) (c : LifecycleCommand) :
    LifecycleEffect l c.id c.call.lifecycleNow (lifecycleStep l c) := by
  unfold lifecycleStep Call.lifecycleCommand
  split
  · exact .unchanged
  · rename_i action _
    split
    · exact .unchanged
    · cases hu : c.call.storage.command (c.call.lifecycleAuthorityUpdate c.id c.actor c.request action) l with
      | mk r l' =>
        rcases Storage.command_cases hu with ⟨rfl, _⟩ | ⟨next, answer, hok, hv, rfl, _⟩
        · exact .unchanged
        · exact Call.lifecycleAuthorityUpdate_eq_ok hv hok

theorem LifecycleEffect.valid {l l' : PolicyLedger} {id now : String} (h : LifecycleEffect l id now l')
    (hv : validatePolicyLedger l = true) : validatePolicyLedger l' = true := by
  cases h with
  | unchanged => exact hv
  | observed _ hnext => rwa [validatePolicyLedger_committed]
  | decided _ _ hnext => rwa [validatePolicyLedger_committed]

/-! ## No release ranks lower -/

/-- The record of a policy is kept, and none of its releases ranks lower for what a command appends. -/
theorem LifecycleEffect.status {l l' : PolicyLedger} {id now reading : String} (h : LifecycleEffect l id reading l')
    (hnow : now ≤ reading) : l'.policies = l.policies ∧ l'.sourceAuthorities = l.sourceAuthorities ∧
      ∀ policy publicationID, releaseStatus (lifecycleEvents (l.lifecycles.get? policy)) now publicationID ≤
        releaseStatus (lifecycleEvents (l'.lifecycles.get? policy)) now publicationID := by
  cases h with
  | unchanged => exact ⟨rfl, rfl, fun _ _ => ReleaseStatus.le_refl _⟩
  | observed => exact ⟨rfl, rfl, fun _ _ => ReleaseStatus.le_refl _⟩
  | @decided next record publication event _ hd =>
    obtain ⟨version, operations, hn⟩ := hd.next
    subst hn
    refine ⟨rfl, rfl, fun policy publicationID => ?_⟩
    simp only [PolicyLedger.committed_lifecycles, PolicyLedger.observed_lifecycles]
    rw [Table.get?_set]
    by_cases hp : policy = id
    · rw [if_pos hp, hp]
      refine releaseStatus_extended hd.fresh ?_ publicationID
      rw [hd.at_]
      exact hnow
    · rw [if_neg hp]
      exact ReleaseStatus.le_refl _

/-- What a run of commands, none dated before `now`, keeps. -/
theorem run_lifecycle_status {now : String} (commands : List LifecycleCommand) :
    ∀ l : PolicyLedger, (∀ c ∈ commands, now ≤ c.call.lifecycleNow) →
      (run lifecycleStep l commands).policies = l.policies ∧
      (run lifecycleStep l commands).sourceAuthorities = l.sourceAuthorities ∧
      ∀ policy publicationID, releaseStatus (lifecycleEvents (l.lifecycles.get? policy)) now publicationID ≤
        releaseStatus (lifecycleEvents ((run lifecycleStep l commands).lifecycles.get? policy)) now publicationID := by
  induction commands with
  | nil => exact fun l _ => ⟨rfl, rfl, fun _ _ => ReleaseStatus.le_refl _⟩
  | cons c rest ih =>
    intro l hbefore
    rw [run_cons]
    obtain ⟨hp, ha, hs⟩ := (lifecycleStep_effect l c).status (hbefore c List.mem_cons_self)
    obtain ⟨hp', ha', hs'⟩ := ih (lifecycleStep l c) fun c' hc' => hbefore c' (List.mem_cons_of_mem _ hc')
    exact ⟨hp'.trans hp, ha'.trans ha, fun policy publicationID =>
      ReleaseStatus.le_trans (hs policy publicationID) (hs' policy publicationID)⟩

/-- The later view ranks a release no lower, so one that was past effectiveness is not effective again. -/
def NeverBack (earlier later : PolicyReleaseLifecycle) : Prop :=
  earlier.publicationID = later.publicationID ∧ earlier.status ≤ later.status ∧
    (earlier.status = .superseded ∨ earlier.status = .expired ∨ earlier.status = .withdrawn → later.status ≠ .effective)

/-- Whatever commands run after a view, with readings not before it, a view at the same reading or a later one
ranks no release lower. Readings are compared as the texts the code compares; on clocks of four-digit years
that is their order (`Utc.format_lt_format`). -/
theorem release_status_never_moves_back {l : PolicyLedger} {id : String} {record : PolicyStoredRecord}
    (hr : l.policies.get? id = some record) {now now' : String} (commands : List LifecycleCommand)
    (hbefore : ∀ c ∈ commands, now ≤ c.call.lifecycleNow) (hnow : now ≤ now') :
    (run lifecycleStep l commands).policies.get? id = some record ∧
      List.Forall₂ NeverBack
        (policyLifecycleView record (l.lifecycles.get? id) now (l.sourceAuthorities.get? id)).releases
        (policyLifecycleView record ((run lifecycleStep l commands).lifecycles.get? id) now'
          ((run lifecycleStep l commands).sourceAuthorities.get? id)).releases := by
  obtain ⟨hp, _, hs⟩ := run_lifecycle_status commands l hbefore
  refine ⟨by rw [hp]; exact hr, ?_⟩
  unfold policyLifecycleView
  rw [List.forall₂_map_left_iff, List.forall₂_map_right_iff, List.forall₂_same]
  intro publication _
  have hle := ReleaseStatus.le_trans (hs id publication.id)
    (releaseStatus_later hnow (lifecycleEvents ((run lifecycleStep l commands).lifecycles.get? id)) publication.id)
  refine ⟨rfl, hle, fun h he => ?_⟩
  simp only [releaseLifecycle] at h he
  rw [he] at hle
  rcases h with h | h | h <;> rw [h] at hle <;> exact absurd hle (by decide)

/-! ## A withdrawal of an effective release -/

namespace Sample

def call : Call where
  codec := ⟨fun _ => none, fun _ => none, fun _ => none, Char.toLower, fun _ _ _ => false⟩
  authorized := fun _ => true
  clock := clock
  token := fun _ => some ⟨token 'e', hexForm_token⟩
  retained := fun _ => none
  stores := fun _ => true
  storage := ⟨none, none⟩

def activation : PolicyLifecycleEvent where
  id := "lifecycle_" ++ token 'a'
  sequence := 1
  action := .activate
  publicationID := publication.id
  candidateDigest := publication.candidateDigest
  at_ := "2026-01-02T00:00:00Z"
  actor := actor
  provenance := "admin-configured"
  effectiveAt := "2026-01-02T00:00:00Z"
  expiresAt := ""
  supersedesPublicationID := ""
  rationale := ""

def activated : PolicyLedger :=
  { ledger with lifecycles := Table.empty.set policyID ⟨1, [activation]⟩ }

def withdrawal : LifecycleCommand where
  call := call
  id := policyID
  actor := actor
  request :=
    { operationID := "operation-0000000000", action := "withdraw", baseRevision := policyEffectiveRevision record none
      baseLifecycleRevision := policyLifecycleRevision (some ⟨1, [activation]⟩), publicationID := publication.id
      effectiveAt := "", expiresAt := "", supersedesPublicationID := "", rationale := "Replaced." }

end Sample

theorem release_status_never_moves_back_sample :
    releaseStatus [Sample.activation] "2026-01-03T00:00:00Z" Sample.publication.id = .effective ∧
      List.Forall₂ NeverBack
        (policyLifecycleView Sample.record (Sample.activated.lifecycles.get? Sample.policyID) "2026-01-03T00:00:00Z"
          (Sample.activated.sourceAuthorities.get? Sample.policyID)).releases
        (policyLifecycleView Sample.record
          ((run lifecycleStep Sample.activated [Sample.withdrawal]).lifecycles.get? Sample.policyID) "2026-02-02T00:00:00Z"
          ((run lifecycleStep Sample.activated [Sample.withdrawal]).sourceAuthorities.get? Sample.policyID)).releases := by
  refine ⟨by decide +kernel, (release_status_never_moves_back (Table.get?_set_self _ _ _) [Sample.withdrawal] ?_ ?_).2⟩
  · intro c hc
    rw [List.mem_singleton.mp hc]
    decide +kernel
  · decide +kernel

end Desk
