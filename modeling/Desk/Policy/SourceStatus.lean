import Desk.Policy.Ownership

/-!
# The status of a connected source

What a source and the authority stream of its policy come to for the one who
decides: whether the source is usable now, what its latest observation counts
as under the current configuration, and which decisions are open.
-/

namespace Desk

/-! ## Availability -/

/-- A restored source waits for the consent of the current administrator. -/
def policyRecoverySourceHeld (source : Option PolicyConnectedSource) : Bool :=
  source.any fun s => s.recovery.any fun recovery => recovery.consentOperationID == ""

def latestObservation (source : Option PolicyConnectedSource) : Option PolicySourceObservation :=
  source.bind fun s => s.observations.getLast?

def policyStatusAvailability (source : Option PolicyConnectedSource) (authority : String) :
    PolicySourceStatusAvailability :=
  if policyRecoverySourceHeld source then
    { state := "restored-source-consent-required", usable := false, gap := true
      errorCode := "restored-source-consent-required", lastSuccess := "" }
  else match source with
  | none => { state := "unbound", usable := false, gap := false, errorCode := "", lastSuccess := "" }
  | some s =>
    let a (state : String) : PolicySourceStatusAvailability :=
      { state := state, usable := false, gap := s.gap, errorCode := s.errorCode, lastSuccess := s.lastSuccess }
    if s.state != .active then a s.state.text
    else if authority == "" || s.grant.authority != authority then a "authorization-ended"
    else match s.binding with
    | none => a "binding"
    | some binding =>
      if s.errorCode != "" then a "unavailable"
      else if s.gap then a "gap"
      else match s.observations.getLast? with
      | none => a "no-observation"
      | some o =>
        if o.bindingID != binding.bindingID || o.source != binding.source then a "binding-changed"
        else { a "present" with usable := true }

/-- A usable source is bound, and its latest observation was made under that binding. -/
theorem policyStatusAvailability_usable {source : Option PolicyConnectedSource} {authority : String}
    (h : (policyStatusAvailability source authority).usable = true) :
    ∃ s binding o, source = some s ∧ s.binding = some binding ∧ s.observations.getLast? = some o ∧
      o.bindingID = binding.bindingID ∧ o.source = binding.source := by
  unfold policyStatusAvailability at h
  split at h
  · cases h
  · cases source with
    | none => cases h
    | some s =>
      simp only at h
      split at h
      · cases h
      · split at h
        · cases h
        · split at h
          · cases h
          · rename_i binding hb
            split at h
            · cases h
            · split at h
              · cases h
              · split at h
                · cases h
                · rename_i o ho
                  split at h
                  · cases h
                  · rename_i hne
                    simp only [Bool.or_eq_true, bne_iff_ne, ne_eq, not_or, not_not] at hne
                    exact ⟨s, binding, o, rfl, hb, ho, hne.1, hne.2⟩

/-! ## The latest source update -/

/-- Whether the latest observation of the source is still to be resolved for the head. -/
def policySourcePending (record : PolicyStoredRecord) (source : Option PolicyConnectedSource) : Bool :=
  let held := policyRecoverySourceHeld source
  match source with
  | none => false
  | some s =>
    let ended := s.state == .revoked || s.state == .authorizationEnded
    match s.observations.getLast? with
    | none => !held && !ended
    | some latest =>
      let head := policyHead record
      !held && !(s.binding.any fun b => latest.bindingID == b.bindingID && b.operationID == s.grant.operationID) && !ended ||
        s.resolutions.all fun r => !(r.observationID == latest.id && r.candidateRevisionID == head.id &&
          r.candidateDigest == head.digest && r.workflowDigest == head.workflowDigest)

/-! ## What an observation counts as -/

structure PolicyStatusEvidence where
  capability : String
  rawStatus : String
  evidence : Option RetainedArtifactRef

/-- A status, its provenance and, where there is none, the reason. -/
def evaluatePolicySourceStatus (e : PolicyStatusEvidence) (fallback : FallbackStatus) (mapping : Table String) :
    String × String × String :=
  if e.capability = "not-exposed" then (fallback.text, "admin-configured", "")
  else if e.capability = "exposed" then
    if e.rawStatus == "" || !(e.evidence.any RetainedArtifactRef.valid) then ("", "", "lifecycle-evidence-unavailable")
    else match mapping.get? e.rawStatus with
    | none => ("", "", "unknown-source-status")
    | some status =>
      if status ∈ ["draft", "published", "effective", "superseded", "expired", "withdrawn"] then
        (status, "source-provided", "")
      else ("", "", "unknown-source-status")
  else ("", "", "lifecycle-capability-unavailable")

/-! ## The view -/

def streamConfigurations (stream : Option PolicySourceAuthorityStream) : List PolicySourceStatusConfiguration :=
  (authorityEvents stream).filterMap PolicySourceAuthorityEvent.configuration

def streamExternalVersions (stream : Option PolicySourceAuthorityStream) : List PolicyExternalVersion :=
  (authorityEvents stream).filterMap PolicySourceAuthorityEvent.externalVersion

/-- The latest observation read under the current configuration. -/
def policyStatusPreview (source : Option PolicyConnectedSource) (config : Option PolicySourceStatusConfiguration)
    (availability : PolicySourceStatusAvailability) : PolicySourceStatusPreview :=
  let p : PolicySourceStatusPreview :=
    { (default : PolicySourceStatusPreview) with
      reason := "configuration-required", configurationID := (config.map PolicySourceStatusConfiguration.id).getD "" }
  if !availability.usable then { p with reason := "source-" ++ availability.state }
  else match config, latestObservation source with
  | some c, some o =>
    let p := { p with observationID := o.id, bindingID := o.bindingID, sourceRevision := o.sourceRevision
                      source := some o.source, content := some o.content }
    if c.bindingID != o.bindingID || c.source != o.source then { p with reason := "configuration-binding-changed" }
    else
      let (status, provenance, reason) := evaluatePolicySourceStatus ⟨o.lifecycle.kind, "", none⟩ c.fallbackStatus Table.empty
      { p with status := status, provenance := provenance, reason := reason, eligible := reason == "" }
  | _, _ => p

def applyExternalAction (p : PolicySourceStatusPreview) (mode : ManagementMode) (applied : List PolicyExternalVersion) :
    PolicySourceStatusAction :=
  if p.eligible && p.status != "draft" && mode == .externallyManaged then
    if applied.any fun v => v.observation.id == p.observationID && v.configurationID == p.configurationID &&
        v.status == p.status && v.provenance == p.provenance then
      { allowed := false, reason := "already-applied" }
    else { allowed := true, reason := p.reason }
  else if p.eligible && p.status == "draft" then { allowed := false, reason := "import-draft-required" }
  else if p.eligible && mode != .externallyManaged then { allowed := false, reason := "external-ownership-required" }
  else { allowed := false, reason := p.reason }

def configureAction (availability : PolicySourceStatusAvailability) (capability : String) : PolicySourceStatusAction :=
  if availability.usable && capability == "not-exposed" then { allowed := true, reason := "" }
  else { allowed := false, reason := "source-" ++ availability.state }

def policySourceStatusView (record : PolicyStoredRecord) (source : Option PolicyConnectedSource)
    (stream : Option PolicySourceAuthorityStream) (authority : String) : PolicySourceStatusReply :=
  let owner := (policyAuthorityOwnership stream).owner
  let head := policyHead record
  let binding := source.bind PolicyConnectedSource.binding
  let capability := (binding.map fun b => b.lifecycle.kind).getD "unavailable"
  let availability := policyStatusAvailability source authority
  let configurations := streamConfigurations stream
  let applied := streamExternalVersions stream
  let p := policyStatusPreview source configurations.getLast? availability
  { recovery := policyRecoveryProjection record stream
    revision := policyAuthorityRevision stream
    policyRevision := policyEffectiveRevision record stream
    sourceRevision := policySourceRevision source
    candidateDigest := head.digest
    candidateRevisionID := head.id
    ownership := owner
    binding := binding
    capability := { kind := capability, mappingSupported := false }
    availability := availability
    currentConfig := configurations.getLast?
    currentPreview := p
    lastApplied := applied.getLast?
    configurations := configurations
    externalVersions := applied
    events := authorityEvents stream
    actions := (((Table.empty.set "setOwnership" { allowed := true, reason := "" }).set "configure"
      (configureAction availability capability)).set "applyExternal" (applyExternalAction p owner.mode applied)).set
      "importDraft" { allowed := p.eligible, reason := p.reason } }

section
variable (record : PolicyStoredRecord) (source : Option PolicyConnectedSource)
  (stream : Option PolicySourceAuthorityStream) (authority : String)

@[simp] theorem policySourceStatusView_applyExternal :
    (policySourceStatusView record source stream authority).actions.get? "applyExternal" =
      some (applyExternalAction (policySourceStatusView record source stream authority).currentPreview
        (policyAuthorityOwnership stream).owner.mode (streamExternalVersions stream)) := by
  unfold policySourceStatusView
  rw [Table.get?_set_ne _ _ (by decide), Table.get?_set_self]

@[simp] theorem policySourceStatusView_importDraft :
    (policySourceStatusView record source stream authority).actions.get? "importDraft" =
      some { allowed := (policySourceStatusView record source stream authority).currentPreview.eligible
             reason := (policySourceStatusView record source stream authority).currentPreview.reason } := by
  unfold policySourceStatusView
  rw [Table.get?_set_self]

end

/-- An eligible preview reads the latest observation of a usable source under the latest configuration. -/
theorem policyStatusPreview_eligible {source : Option PolicyConnectedSource}
    {config : Option PolicySourceStatusConfiguration} {authority : String}
    (h : (policyStatusPreview source config (policyStatusAvailability source authority)).eligible = true) :
    ∃ s o c, source = some s ∧ s.observations.getLast? = some o ∧ config = some c ∧ c.bindingID = o.bindingID ∧
      c.source = o.source ∧
      (policyStatusPreview source config (policyStatusAvailability source authority)).observationID = o.id ∧
      (policyStatusPreview source config (policyStatusAvailability source authority)).configurationID = c.id ∧
      (o.lifecycle.kind = "not-exposed" →
        (policyStatusPreview source config (policyStatusAvailability source authority)).status = c.fallbackStatus.text ∧
        (policyStatusPreview source config (policyStatusAvailability source authority)).provenance = "admin-configured") := by
  by_cases hu : (policyStatusAvailability source authority).usable = true
  · obtain ⟨s, binding, o, rfl, _, ho, _, _⟩ := policyStatusAvailability_usable hu
    cases config with
    | none =>
      simp only [policyStatusPreview, hu, Bool.not_true, Bool.false_eq_true, if_false] at h
      cases h
    | some c =>
      have hl : latestObservation (some s) = some o := ho
      by_cases hc : (c.bindingID != o.bindingID || c.source != o.source) = true
      · simp only [policyStatusPreview, hu, hl, hc, Bool.not_true, Bool.false_eq_true, if_false, if_true] at h
        cases h
      · have hne := hc
        simp only [Bool.or_eq_true, bne_iff_ne, ne_eq, not_or, not_not] at hne
        refine ⟨s, o, c, rfl, ho, rfl, hne.1, hne.2, ?_⟩
        simp only [policyStatusPreview, hu, hl, hc, Bool.not_true, Bool.false_eq_true, if_false, Option.map_some,
          Option.getD_some, true_and]
        intro hk
        simp only [evaluatePolicySourceStatus, hk, if_true, and_self]
  · simp only [policyStatusPreview, hu, Bool.not_false, if_true] at h
    cases h

theorem applyExternalAction_allowed {p : PolicySourceStatusPreview} {mode : ManagementMode}
    {applied : List PolicyExternalVersion} (h : (applyExternalAction p mode applied).allowed = true) :
    p.eligible = true ∧ p.status ≠ "draft" ∧ mode = .externallyManaged ∧
      ∀ v ∈ applied, ¬(v.observation.id = p.observationID ∧ v.configurationID = p.configurationID ∧
        v.status = p.status ∧ v.provenance = p.provenance) := by
  unfold applyExternalAction at h
  split at h
  · rename_i hp
    simp only [Bool.and_eq_true, bne_iff_ne, ne_eq, beq_iff_eq] at hp
    split at h
    · cases h
    · rename_i hn
      refine ⟨hp.1.1, hp.1.2, hp.2, fun v hv hsame => hn (List.any_eq_true.mpr ⟨v, hv, ?_⟩)⟩
      simp only [Bool.and_eq_true, beq_iff_eq]
      exact ⟨⟨⟨hsame.1, hsame.2.1⟩, hsame.2.2.1⟩, hsame.2.2.2⟩
  · split at h
    · cases h
    · split at h <;> cases h

end Desk
