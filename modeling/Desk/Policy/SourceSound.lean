import Desk.Policy.HistorySound
import Desk.Policy.SourceStatus

/-!
# Valid sources

The checks of `validatePolicySources` on one source, by name.
-/

namespace Desk

/-- The binding of a source was made under its grant. -/
structure BoundTo (source : PolicyConnectedSource) (binding : PolicySourceBinding) : Prop where
  valid : validPolicySourceBinding binding = true
  operation : binding.operationID = source.grant.operationID
  resource : binding.source.resourceID = source.grant.resourceID

structure PollValid (source : PolicyConnectedSource) (poll : PolicySourcePoll) : Prop where
  ident : retainedArtifactDigest poll.id = true
  owner : retainedArtifactDigest poll.owner = true
  deadline : validPolicyTime poll.deadline = true
  generation : poll.generation = source.generation

structure GrantValid (grant : PolicySourceGrant) : Prop where
  authority : retainedArtifactDigest grant.authority = true
  operation : retainedArtifactDigest grant.operationID = true
  resource : grant.resourceID ≠ "" ∧ len grant.resourceID ≤ 4096
  selection : retainedArtifactDigest grant.selectionContext = true
  actor : validPolicyActor grant.actor = true
  at_ : validPolicyTime grant.at_ = true

def validStamp (stamp : String) : Prop := stamp = "" ∨ validPolicyTime stamp = true

structure SourceValid (record : PolicyStoredRecord) (source : PolicyConnectedSource) : Prop where
  version : source.version = 1
  generation : 1 ≤ source.generation
  frequency : policySourceFrequency source.frequencyMinutes = true
  grant : GrantValid source.grant
  observationLimit : source.observations.length ≤ policyHistoryLimit
  resolutionLimit : source.resolutions.length ≤ policyHistoryLimit
  actionLimit : source.actions.length ≤ policyHistoryLimit
  cleanupLimit : source.cleanup.length ≤ policyHistoryLimit
  operationLimit : source.cleanupOperations.length ≤ policyHistoryLimit
  attempt : validStamp source.lastAttempt
  success : validStamp source.lastSuccess
  check : validStamp source.nextCheck
  binding : ∀ b, source.binding = some b → BoundTo source b
  active : source.state = .active → ∃ b, source.binding = some b ∧ b.state = .active
  cleanup : ∀ x ∈ source.cleanup, retainedArtifactDigest x = true
  operations : ∀ x ∈ source.cleanupOperations, retainedArtifactDigest x = true
  poll : ∀ p, source.poll = some p → PollValid source p
  observations : ∀ o ∈ source.observations, validSourceObservation o = true
  observationIDs : (source.observations.map PolicySourceObservation.id).Nodup
  resolutions : ∀ r ∈ source.resolutions, validSourceResolution record source r = true
  actions : ∀ a ∈ source.actions, validPolicyTime a.at_ = true ∧ validPolicyActor a.actor = true

theorem bindingValid_iff {source : PolicyConnectedSource} :
    (match source.binding with
      | none => source.state != .active
      | some binding => validPolicySourceBinding binding && binding.operationID == source.grant.operationID &&
          binding.source.resourceID == source.grant.resourceID && (source.state != .active || binding.state == .active)) =
        true ↔ (∀ b, source.binding = some b → BoundTo source b) ∧
          (source.state = .active → ∃ b, source.binding = some b ∧ b.state = .active) := by
  cases hb : source.binding with
  | none => simp
  | some b =>
    simp only [Bool.and_eq_true, Bool.or_eq_true, beq_iff_eq, bne_iff_ne, Option.some.injEq, forall_eq']
    constructor
    · rintro ⟨⟨⟨h₁, h₂⟩, h₃⟩, h₄⟩
      exact ⟨⟨h₁, h₂, h₃⟩, fun ha => ⟨b, rfl, h₄.resolve_left (fun hn => hn ha)⟩⟩
    · rintro ⟨⟨h₁, h₂, h₃⟩, h₄⟩
      refine ⟨⟨⟨h₁, h₂⟩, h₃⟩, ?_⟩
      by_cases ha : source.state = .active
      · obtain ⟨b', rfl, hb'⟩ := h₄ ha
        exact Or.inr hb'
      · exact Or.inl ha

theorem pollValid_iff {source : PolicyConnectedSource} :
    (match source.poll with
      | none => true
      | some poll => retainedArtifactDigest poll.id && retainedArtifactDigest poll.owner && validPolicyTime poll.deadline &&
          poll.generation == source.generation) = true ↔ ∀ p, source.poll = some p → PollValid source p := by
  cases hp : source.poll with
  | none => simp
  | some p =>
    simp only [Bool.and_eq_true, beq_iff_eq, Option.some.injEq, forall_eq']
    constructor
    · rintro ⟨⟨⟨h₁, h₂⟩, h₃⟩, h₄⟩
      exact ⟨h₁, h₂, h₃, h₄⟩
    · rintro ⟨h₁, h₂, h₃, h₄⟩
      exact ⟨⟨⟨h₁, h₂⟩, h₃⟩, h₄⟩

theorem sourceValid_iff {record : PolicyStoredRecord} {source : PolicyConnectedSource} :
    validConnectedSource record source = true ↔ SourceValid record source := by
  unfold validConnectedSource
  simp only [Bool.and_eq_true, List.all_append, List.all_eq_true, decide_eq_true_eq, beq_iff_eq,
    bne_iff_ne, List.forall_mem_cons, List.not_mem_nil, false_implies, implies_true, and_true, Bool.or_eq_true, and_assoc]
  constructor
  · rintro ⟨h₁, h₂, h₃, h₄, h₅, h₆, h₇, h₈, h₉, h₁₀, h₁₁, h₁₂, h₁₃, h₁₄, h₁₅, h₁₆, h₁₇, h₁₈, hb, h₂₁, h₂₂, hp, h₂₄, h₂₅,
      h₂₆, h₂₇⟩
    exact ⟨h₁, h₂, h₃, ⟨h₄, h₅, ⟨h₆, h₇⟩, h₈, h₉, h₁₀⟩, h₁₁, h₁₂, h₁₃, h₁₄, h₁₅, h₁₆, h₁₇, h₁₈, (bindingValid_iff.mp hb).1,
      (bindingValid_iff.mp hb).2, h₂₁, h₂₂, pollValid_iff.mp hp, h₂₄, h₂₅, h₂₆, h₂₇⟩
  · rintro ⟨h₁, h₂, h₃, ⟨h₄, h₅, ⟨h₆, h₇⟩, h₈, h₉, h₁₀⟩, h₁₁, h₁₂, h₁₃, h₁₄, h₁₅, h₁₆, h₁₇, h₁₈, h₁₉, h₂₀, h₂₁, h₂₂, h₂₃,
      h₂₄, h₂₅, h₂₆, h₂₇⟩
    exact ⟨h₁, h₂, h₃, h₄, h₅, h₆, h₇, h₈, h₉, h₁₀, h₁₁, h₁₂, h₁₃, h₁₄, h₁₅, h₁₆, h₁₇, h₁₈, bindingValid_iff.mpr ⟨h₁₉, h₂₀⟩, h₂₁,
      h₂₂, pollValid_iff.mpr h₂₃, h₂₄, h₂₅, h₂₆, h₂₇⟩

/-! ## Resolutions -/

theorem validSourceResolution_iff {record : PolicyStoredRecord} {source : PolicyConnectedSource}
    {item : PolicySourceResolution} : validSourceResolution record source item = true ↔
      (∃ o ∈ source.observations, o.id = item.observationID) ∧ validPolicyActor item.actor = true ∧
        validPolicyTime item.at_ = true ∧ len item.comment ≤ 8192 ∧
        ∃ r ∈ record.revisions, item.candidateRevisionID = r.id ∧ item.candidateDigest = r.digest ∧
          item.workflowDigest = r.workflowDigest := by
  simp only [validSourceResolution, Bool.and_eq_true, decide_eq_true_eq, List.mem_map, List.any_eq_true, beq_iff_eq,
    and_assoc]

/-- A resolution stays valid while observations and revisions are only added. -/
theorem validSourceResolution_grows {record record' : PolicyStoredRecord} {source source' : PolicyConnectedSource}
    {item : PolicySourceResolution} (hrev : ∀ r ∈ record.revisions, r ∈ record'.revisions)
    (hobs : ∀ o ∈ source.observations, o ∈ source'.observations) (h : validSourceResolution record source item = true) :
    validSourceResolution record' source' item = true := by
  obtain ⟨⟨o, ho, hid⟩, h₂, h₃, h₄, r, hr, h₅⟩ := validSourceResolution_iff.mp h
  exact validSourceResolution_iff.mpr ⟨⟨o, hobs o ho, hid⟩, h₂, h₃, h₄, r, hrev r hr, h₅⟩

theorem validatePolicySources_iff {ledger : PolicyLedger} : validatePolicySources ledger = true ↔
    ledger.sources.size ≤ policyCountLimit ∧ ∀ id source, ledger.sources.get? id = some source →
      ∃ record, ledger.policies.get? id = some record ∧ SourceValid record source := by
  simp only [validatePolicySources, Bool.and_eq_true, decide_eq_true_eq, Table.all_iff]
  refine and_congr_right fun _ => forall_congr' fun id => forall_congr' fun source => imp_congr_right fun _ => ?_
  cases ledger.policies.get? id with
  | none => simp
  | some record => simp [sourceValid_iff]

end Desk
