import Desk.Policy.HistorySound
import Desk.Policy.SourceStatus
import Desk.Service.Recovered

/-!
# Authority streams

What the validator's loop over a stream leaves in its variables, that it still
accepts the stream when the record and the observations under it grow, and that
a stream it accepts is accepted as an answer.
-/

namespace Desk

/-! ## Reading the loop's variables off the stream -/

@[simp] theorem ownershipStep_mode (s : OwnershipLoop) (e : PolicySourceAuthorityEvent) :
    (ownershipStep s e).owner.mode = e.mode.getD s.owner.mode := by
  unfold ownershipStep
  cases e.mode <;> rfl

/-- The text that tells one application of an external version from another. -/
def applicationOf (v : PolicyExternalVersion) : String :=
  v.configurationID ++ "\x00" ++ v.observation.id ++ "\x00" ++ v.status ++ "\x00" ++ v.provenance

/-- The identifiers an event takes. -/
def PolicySourceAuthorityEvent.idents (e : PolicySourceAuthorityEvent) : List String :=
  e.id :: ((e.configuration.map PolicySourceStatusConfiguration.id).toList ++
    (e.externalVersion.map PolicyExternalVersion.id).toList)

/-- What the checks of an application leave fixed in its version. -/
structure VersionForm (v : PolicyExternalVersion) : Prop where
  configuration : v.configurationID.toList.length = 62
  observation : v.observation.id.toList.length = 64
  status : v.status = "published"
  provenance : v.provenance = "admin-configured"

theorem applicationOf_inj {v w : PolicyExternalVersion} (hv : VersionForm v) (hw : VersionForm w)
    (h : applicationOf v = applicationOf w) :
    v.configurationID = w.configurationID ∧ v.observation.id = w.observation.id := by
  have hl := congrArg String.toList h
  simp only [applicationOf, String.toList_append, List.append_assoc] at hl
  obtain ⟨hc, hl⟩ := List.append_inj hl (hv.configuration.trans hw.configuration.symm)
  obtain ⟨_, hl⟩ := List.append_inj hl rfl
  obtain ⟨ho, _⟩ := List.append_inj hl (hv.observation.trans hw.observation.symm)
  exact ⟨String.toList_inj.mp hc, String.toList_inj.mp ho⟩

theorem length_of_configurationID {id : String} (hf : policyAuthorityIDForm id = true)
    (hp : hasPrefix id "configuration_" = true) : id.toList.length = 62 := by
  simp only [policyAuthorityIDForm, Bool.or_eq_true] at hf
  rcases hf with (hf | hf) | hf
  · exact absurd (head?_eq_of_hasPrefix (hasPrefix_of_hexForm hf) hp (by decide) (by decide)) (by decide)
  · exact length_of_hexForm hf
  · exact absurd (head?_eq_of_hasPrefix (hasPrefix_of_hexForm hf) hp (by decide) (by decide)) (by decide)

/-- The loop's variables after the events `pre`. -/
structure LoopReads (record : PolicyStoredRecord) (pre : List PolicySourceAuthorityEvent) (s : AuthorityLoop) :
    Prop where
  ids : ∀ x ∈ s.ids, ∃ e ∈ pre, x ∈ e.idents
  configs : s.configs = pre.filterMap PolicySourceAuthorityEvent.configuration
  configIDs : (s.configs.map PolicySourceStatusConfiguration.id).Nodup
  taken : ∀ c ∈ s.configs, c.id ∈ s.ids
  applications : ∀ a ∈ s.applications, ∃ v ∈ pre.filterMap PolicySourceAuthorityEvent.externalVersion, a = applicationOf v
  configForms : ∀ c ∈ s.configs, c.id.toList.length = 62
  versions : ∀ v ∈ pre.filterMap PolicySourceAuthorityEvent.externalVersion, VersionForm v
  previous : s.previousSequence ≤ policyEventCount record
  mode : s.mode = (pre.foldl ownershipStep ⟨inheritedOwnership, 0⟩).owner.mode

theorem LoopReads.nil (record : PolicyStoredRecord) : LoopReads record [] ⟨[], [], [], 0, .deskManaged⟩ where
  ids := fun _ h => (by cases h)
  configs := rfl
  configIDs := List.nodup_nil
  taken := fun _ h => (by cases h)
  applications := fun _ h => (by cases h)
  configForms := fun _ h => (by cases h)
  versions := fun _ h => (by cases h)
  previous := Nat.zero_le _
  mode := rfl

/-- Only the member of its kind is set in an event that passes. -/
structure OnlyMember (e : PolicySourceAuthorityEvent) (configuration managementMode externalVersion importedDraft : Bool) :
    Prop where
  configuration : e.configuration.isSome = configuration
  managementMode : e.managementMode.isSome = managementMode
  externalVersion : e.externalVersion.isSome = externalVersion
  importedDraft : e.importedDraft.isSome = importedDraft

theorem onlyMember_of_fields {e : PolicySourceAuthorityEvent} (h : e.fields = 1) :
    (e.configuration.isSome = true → OnlyMember e true false false false) ∧
      (e.managementMode.isSome = true → OnlyMember e false true false false) ∧
      (e.externalVersion.isSome = true → OnlyMember e false false true false) ∧
      (e.importedDraft.isSome = true → OnlyMember e false false false true) := by
  unfold PolicySourceAuthorityEvent.fields at h
  refine ⟨fun hc => ?_, fun hm => ?_, fun hv => ?_, fun hd => ?_⟩
  all_goals
    constructor <;> cases hc' : e.configuration.isSome <;> cases hm' : e.managementMode.isSome <;>
      cases hv' : e.externalVersion.isSome <;> cases hd' : e.importedDraft.isSome <;>
      simp_all

theorem validAuthorityEvent_iff {record : PolicyStoredRecord} {i : Nat} {s : AuthorityLoop}
    {e : PolicySourceAuthorityEvent} : validAuthorityEvent record i s e = true ↔
      policyAuthorityIDForm e.id = true ∧ hasPrefix e.id "authority_" = true ∧ e.id ∉ s.ids ∧ e.sequence = i + 1 ∧
        validPolicyLifecycleTime e.at_ = true ∧ validPolicyActor e.actor = true ∧ blank e.rationale = false ∧
        len e.rationale ≤ 8192 ∧ s.previousSequence ≤ e.policySequence ∧ e.policySequence ≤ policyEventCount record ∧
        e.fields = 1 := by
  simp only [validAuthorityEvent, Bool.and_eq_true, Bool.not_eq_true', decide_eq_true_eq, beq_iff_eq, and_assoc]

/-! ## One event -/

section
variable (record : PolicyStoredRecord) (observations : List PolicySourceObservation) (s : AuthorityLoop)
  (e : PolicySourceAuthorityEvent)

/-- The loop's variables once the checks of every event have passed. -/
def AuthorityLoop.seen (s : AuthorityLoop) (e : PolicySourceAuthorityEvent) : AuthorityLoop :=
  { s with ids := e.id :: s.ids, previousSequence := e.policySequence }

def validConfiguration (s : AuthorityLoop) (e : PolicySourceAuthorityEvent) (c : PolicySourceStatusConfiguration) : Prop :=
  policyAuthorityIDForm c.id = true ∧ hasPrefix c.id "configuration_" = true ∧ c.id ∉ (s.seen e).ids ∧
    retainedArtifactDigest c.bindingID = true ∧ validPolicyConnectedIdentity c.source = true ∧
    c.capability = "not-exposed" ∧ c.at_ = e.at_ ∧ c.actor = e.actor

def validVersion (s : AuthorityLoop) (e : PolicySourceAuthorityEvent) (v : PolicyExternalVersion)
    (c : PolicySourceStatusConfiguration) : Prop :=
  s.mode = .externallyManaged ∧ policyAuthorityIDForm v.id = true ∧ hasPrefix v.id "external_" = true ∧
    v.id ∉ (s.seen e).ids ∧ v.eventID = e.id ∧ v.at_ = e.at_ ∧ v.actor = e.actor ∧ c.fallbackStatus = .published ∧
    v.status = "published" ∧ v.provenance = "admin-configured" ∧ v.rawStatus = "" ∧ v.evidence = none ∧
    applicationOf v ∉ s.applications

/-- The revision that an imported draft made. -/
def ImportedBy (e : PolicySourceAuthorityEvent) (d : PolicySourceImportedDraft) (r : PolicyRevision) : Prop :=
  r.id = d.candidateRevisionID ∧ r.digest = d.candidateDigest ∧ r.workflowDigest = d.workflowDigest ∧
    r.sequence = e.policySequence ∧ r.at_ = e.at_ ∧ r.actor = e.actor ∧ r.source = none

/-- Everything an accepted event can be, and what it leaves. -/
inductive AuthorityStepped : AuthorityLoop → Prop where
  | configured {c : PolicySourceStatusConfiguration} : e.kind = .configure → e.configuration = some c →
      validConfiguration s e c →
      AuthorityStepped { s.seen e with ids := c.id :: (s.seen e).ids, configs := s.configs ++ [c] }
  | owned {mode : ManagementMode} : e.kind = .setOwnership → e.managementMode = some mode →
      AuthorityStepped { s.seen e with mode := mode }
  | applied {v : PolicyExternalVersion} {c : PolicySourceStatusConfiguration} : e.kind = .applyExternal →
      e.externalVersion = some v → authorityBasis observations s v.configurationID v.observation = some c →
      validVersion s e v c →
      AuthorityStepped { s.seen e with
        ids := v.id :: (s.seen e).ids, applications := applicationOf v :: s.applications }
  | imported {d : PolicySourceImportedDraft} {c : PolicySourceStatusConfiguration} : e.kind = .importDraft →
      e.importedDraft = some d → authorityBasis observations s d.configurationID d.observation = some c →
      (∃ r ∈ record.revisions, ImportedBy e d r) → AuthorityStepped { s.seen e with mode := .deskManaged }

variable {record observations s e} {i : Nat} {s' : AuthorityLoop}

theorem authorityBasis_seen (configurationID : String) (o : PolicySourceObservation) :
    authorityBasis observations (s.seen e) configurationID o = authorityBasis observations s configurationID o := rfl

theorem any_importedBy {d : PolicySourceImportedDraft} :
    (record.revisions.any fun r => r.id == d.candidateRevisionID && r.digest == d.candidateDigest &&
      r.workflowDigest == d.workflowDigest && r.sequence == e.policySequence && r.at_ == e.at_ && r.actor == e.actor &&
      r.source == none) = true ↔ ∃ r ∈ record.revisions, ImportedBy e d r := by
  simp only [List.any_eq_true, Bool.and_eq_true, beq_iff_eq, and_assoc, ImportedBy]

theorem authorityStep_eq_some : authorityStep record observations i s e = some s' ↔
    validAuthorityEvent record i s e = true ∧ AuthorityStepped record observations s e s' := by
  constructor
  · intro h
    unfold authorityStep at h
    split at h
    · cases h
    · rename_i hv
      refine ⟨by simpa using hv, ?_⟩
      simp only at h
      split at h
      · rename_i hk
        split at h
        · cases h
        · rename_i c hc
          split at h
          · rename_i hok
            cases h
            simp only [Bool.and_eq_true, decide_eq_true_eq, beq_iff_eq, and_assoc] at hok
            exact .configured hk hc hok
          · cases h
      · rename_i hk
        split at h
        · cases h
        · rename_i mode hm
          cases h
          exact .owned hk hm
      · rename_i hk
        split at h
        · cases h
        · rename_i v hv
          split at h
          · rename_i hok
            split at h
            · cases h
            · rename_i c hb
              split at h
              · rename_i hpub
                cases h
                simp only [Bool.and_eq_true, decide_eq_true_eq, beq_iff_eq, and_assoc] at hok hpub
                obtain ⟨h₁, h₂, h₃, h₄, h₅, h₆, h₇⟩ := hok
                exact .applied hk hv hb ⟨h₁, h₂, h₃, h₄, h₅, h₆, h₇, hpub⟩
              · cases h
          · cases h
      · rename_i hk
        split at h
        · cases h
        · rename_i d hd
          split at h
          · cases h
          · rename_i c hb
            split at h
            · rename_i hr
              cases h
              exact .imported hk hd hb (any_importedBy.mp hr)
            · cases h
  · rintro ⟨hv, hs⟩
    unfold authorityStep
    rw [hv]
    cases hs with
    | configured hk hc hok =>
      simp only [hk, hc, Bool.not_true, Bool.false_eq_true, if_false]
      rw [if_pos]
      · rfl
      · simp only [Bool.and_eq_true, decide_eq_true_eq, beq_iff_eq, and_assoc]
        exact hok
    | owned hk hm => simp only [hk, hm, Bool.not_true, Bool.false_eq_true, if_false]; rfl
    | @applied v c hk hve hb hok =>
      obtain ⟨h₁, h₂, h₃, h₄, h₅, h₆, h₇, hpub⟩ := hok
      have hb' := (authorityBasis_seen (e := e) v.configurationID v.observation).trans hb
      unfold AuthorityLoop.seen at hb'
      simp only [hk, hve, Bool.not_true, Bool.false_eq_true, if_false]
      rw [if_pos, hb']
      · simp only
        rw [if_pos]
        · rfl
        · simp only [Bool.and_eq_true, decide_eq_true_eq, beq_iff_eq, and_assoc]
          exact hpub
      · simp only [Bool.and_eq_true, decide_eq_true_eq, beq_iff_eq, and_assoc]
        exact ⟨h₁, h₂, h₃, h₄, h₅, h₆, h₇⟩
    | @imported d c hk hd hb hr =>
      have hb' := (authorityBasis_seen (e := e) d.configurationID d.observation).trans hb
      unfold AuthorityLoop.seen at hb'
      simp only [hk, hd, Bool.not_true, Bool.false_eq_true, if_false]
      rw [hb']
      simp only
      rw [if_pos (any_importedBy.mpr hr)]
      rfl

/-! ## The whole loop -/

theorem authorityLoop_snoc (pre : List PolicySourceAuthorityEvent) (i : Nat) (s : AuthorityLoop) :
    authorityLoop record observations i s (pre ++ [e]) =
      (authorityLoop record observations i s pre).bind fun s => authorityStep record observations (i + pre.length) s e := by
  induction pre generalizing i s with
  | nil =>
    rw [List.nil_append, authorityLoop, authorityLoop]
    show _ = authorityStep record observations i s e
    cases authorityStep record observations i s e <;> rfl
  | cons f rest ih =>
    rw [List.cons_append, authorityLoop, authorityLoop, Option.bind_assoc]
    refine Option.bind_congr fun s' _ => ?_
    rw [ih, List.length_cons, Nat.add_assoc, Nat.add_comm 1]

/-- An observation an event builds on is one of those held, and its configuration one of those seen. -/
theorem authorityBasis_eq_some {configurationID : String} {o : PolicySourceObservation}
    {c : PolicySourceStatusConfiguration} (h : authorityBasis observations s configurationID o = some c) :
    c ∈ s.configs ∧ c.id = configurationID ∧ o ∈ observations ∧ c.bindingID = o.bindingID ∧ c.source = o.source := by
  unfold authorityBasis at h
  split at h
  · rename_i c' o' hc ho
    split at h
    · rename_i hok
      cases h
      simp only [Bool.and_eq_true, beq_iff_eq] at hok
      obtain ⟨⟨rfl, hb⟩, hs⟩ := hok
      exact ⟨(lastWith_spec hc).1, (lastWith_spec hc).2, (lastWith_spec ho).1, hb, hs⟩
    · cases h
  · cases h

theorem LoopReads.step {pre : List PolicySourceAuthorityEvent} (hr : LoopReads record pre s)
    (hobs : ∀ o ∈ observations, validSourceObservation o = true)
    (h : authorityStep record observations i s e = some s') : LoopReads record (pre ++ [e]) s' := by
  obtain ⟨hv, hs⟩ := authorityStep_eq_some.mp h
  obtain ⟨_, _, _, _, _, _, _, _, _, hcount, hfields⟩ := validAuthorityEvent_iff.mp hv
  obtain ⟨honly₁, honly₂, honly₃, honly₄⟩ := onlyMember_of_fields hfields
  have hids : ∀ x ∈ (s.seen e).ids, ∃ f ∈ pre ++ [e], x ∈ f.idents := by
    intro x hx
    rcases List.mem_cons.mp hx with rfl | hx
    · exact ⟨e, by simp, List.mem_cons_self ..⟩
    · obtain ⟨f, hf, hxf⟩ := hr.ids x hx
      exact ⟨f, List.mem_append_left _ hf, hxf⟩
  have htaken : ∀ c ∈ s.configs, c.id ∈ (s.seen e).ids := fun c hc => List.mem_cons_of_mem _ (hr.taken c hc)
  have happs : ∀ a ∈ s.applications,
      ∃ v ∈ (pre ++ [e]).filterMap PolicySourceAuthorityEvent.externalVersion, a = applicationOf v := by
    intro a ha
    obtain ⟨v, hv, hva⟩ := hr.applications a ha
    exact ⟨v, by rw [List.filterMap_append]; exact List.mem_append_left _ hv, hva⟩
  have hversions : e.externalVersion = none →
      ∀ v ∈ (pre ++ [e]).filterMap PolicySourceAuthorityEvent.externalVersion, VersionForm v := by
    intro hn v hv
    rw [List.filterMap_append] at hv
    simp only [hn, List.filterMap_cons_none, List.filterMap_nil, List.append_nil] at hv
    exact hr.versions v hv
  have hmode : ((pre ++ [e]).foldl ownershipStep ⟨inheritedOwnership, 0⟩).owner.mode = e.mode.getD s.mode := by
    rw [List.foldl_append, List.foldl_cons, List.foldl_nil, ownershipStep_mode, hr.mode]
  have hconfigs : e.configuration = none → s.configs = (pre ++ [e]).filterMap PolicySourceAuthorityEvent.configuration := by
    intro hn
    rw [List.filterMap_append, hr.configs]
    simp [hn]
  cases hs with
  | @configured c hk hc hok =>
    have honly := honly₁ (by rw [hc]; rfl)
    refine ⟨?_, ?_, ?_, ?_, happs, ?_, hversions (by simpa using honly.externalVersion), hcount, ?_⟩
    · intro x hx
      rcases List.mem_cons.mp hx with rfl | hx
      · exact ⟨e, by simp, by simp [PolicySourceAuthorityEvent.idents, hc]⟩
      · exact hids x hx
    · show s.configs ++ [c] = _
      rw [List.filterMap_append, hr.configs]
      simp [hc]
    · show ((s.configs ++ [c]).map PolicySourceStatusConfiguration.id).Nodup
      rw [List.map_append, List.map_cons, List.map_nil, nodup_append_singleton]
      refine ⟨hr.configIDs, fun hmem => ?_⟩
      obtain ⟨c', hc', hid⟩ := List.mem_map.mp hmem
      exact hok.2.2.1 (hid ▸ htaken c' hc')
    · intro c' hc'
      rcases List.mem_append.mp hc' with hc' | hc'
      · exact List.mem_cons_of_mem _ (htaken c' hc')
      · rw [List.mem_singleton.mp hc']
        exact List.mem_cons_self ..
    · intro c' hc'
      rcases List.mem_append.mp hc' with hc' | hc'
      · exact hr.configForms c' hc'
      · rw [List.mem_singleton.mp hc']
        exact length_of_configurationID hok.1 hok.2.1
    · rw [hmode, PolicySourceAuthorityEvent.mode, if_neg (by rw [hk]; decide),
        Option.isSome_eq_false_iff.mp honly.managementMode |> Option.isNone_iff_eq_none.mp]
      rfl
  | @owned mode hk hm =>
    have honly := honly₂ (by rw [hm]; rfl)
    refine ⟨hids, hconfigs (by simpa using honly.configuration), hr.configIDs, htaken, happs, hr.configForms,
      hversions (by simpa using honly.externalVersion), hcount, ?_⟩
    rw [hmode, PolicySourceAuthorityEvent.mode, if_neg (by rw [hk]; decide), hm]
    rfl
  | @applied v c hk hve hb hok =>
    have honly := honly₃ (by rw [hve]; rfl)
    refine ⟨?_, hconfigs (by simpa using honly.configuration), hr.configIDs,
      fun c hc => List.mem_cons_of_mem _ (htaken c hc), ?_, hr.configForms, ?_, hcount, ?_⟩
    · intro x hx
      rcases List.mem_cons.mp hx with rfl | hx
      · exact ⟨e, by simp, by simp [PolicySourceAuthorityEvent.idents, hve]⟩
      · exact hids x hx
    · intro a ha
      rcases List.mem_cons.mp ha with rfl | ha
      · exact ⟨v, by rw [List.filterMap_append]; simp [hve], rfl⟩
      · exact happs a ha
    · intro w hw
      rw [List.filterMap_append] at hw
      rcases List.mem_append.mp hw with hw | hw
      · exact hr.versions w hw
      · obtain ⟨_, _, _, _, _, _, _, _, hst, hprov, _⟩ := hok
        obtain ⟨hcm, hcid, hom, _⟩ := authorityBasis_eq_some hb
        have hid : retainedArtifactDigest v.observation.id = true := by
          have := hobs _ hom
          simp only [validSourceObservation, Bool.and_eq_true] at this
          grind
        obtain rfl : w = v := by simpa [hve] using hw
        exact ⟨hcid ▸ hr.configForms c hcm, length_of_hexForm hid, hst, hprov⟩
    · have : e.managementMode = none := by simpa using honly.managementMode
      rw [hmode, PolicySourceAuthorityEvent.mode, if_neg (by rw [hk]; decide), this]
      rfl
  | @imported d c hk hd hb hrev =>
    have honly := honly₄ (by rw [hd]; rfl)
    refine ⟨hids, hconfigs (by simpa using honly.configuration), hr.configIDs, htaken, happs, hr.configForms,
      hversions (by simpa using honly.externalVersion), hcount, ?_⟩
    rw [hmode, PolicySourceAuthorityEvent.mode, if_pos hk]
    rfl

theorem LoopReads.loop {pre events : List PolicySourceAuthorityEvent} (hr : LoopReads record pre s)
    (hobs : ∀ o ∈ observations, validSourceObservation o = true)
    (h : authorityLoop record observations i s events = some s') : LoopReads record (pre ++ events) s' := by
  induction events generalizing pre i s with
  | nil => cases h; rw [List.append_nil]; exact hr
  | cons e rest ih =>
    obtain ⟨s₁, hstep, hrest⟩ := Option.bind_eq_some_iff.mp h
    have := ih (hr.step hobs hstep) hrest
    rwa [List.append_assoc] at this

/-- The loop from its start. -/
theorem authorityLoop_reads {events : List PolicySourceAuthorityEvent}
    (hobs : ∀ o ∈ observations, validSourceObservation o = true)
    (h : authorityLoop record observations 0 ⟨[], [], [], 0, .deskManaged⟩ events = some s') :
    LoopReads record events s' := (LoopReads.nil record).loop hobs h

/-! ## A grown record -/

/-- Everything an event may look up is still there. -/
structure RecordGrows (record record' : PolicyStoredRecord) (observations observations' : List PolicySourceObservation) :
    Prop where
  revisions : ∀ r ∈ record.revisions, r ∈ record'.revisions
  count : policyEventCount record ≤ policyEventCount record'
  observations : ∀ id o, lastWith PolicySourceObservation.id observations id = some o →
    lastWith PolicySourceObservation.id observations' id = some o

variable {record' : PolicyStoredRecord} {observations' : List PolicySourceObservation}

theorem authorityBasis_grows (g : RecordGrows record record' observations observations') {configurationID : String}
    {o : PolicySourceObservation} {c : PolicySourceStatusConfiguration}
    (h : authorityBasis observations s configurationID o = some c) :
    authorityBasis observations' s configurationID o = some c := by
  unfold authorityBasis at h ⊢
  split at h
  · rename_i c' o' hc ho
    rw [hc, g.observations _ _ ho]
    exact h
  · cases h

theorem authorityStep_grows (g : RecordGrows record record' observations observations')
    (h : authorityStep record observations i s e = some s') : authorityStep record' observations' i s e = some s' := by
  obtain ⟨hv, hs⟩ := authorityStep_eq_some.mp h
  refine authorityStep_eq_some.mpr ⟨?_, ?_⟩
  · obtain ⟨h₁, h₂, h₃, h₄, h₅, h₆, h₇, h₈, h₉, h₁₀, h₁₁⟩ := validAuthorityEvent_iff.mp hv
    exact validAuthorityEvent_iff.mpr ⟨h₁, h₂, h₃, h₄, h₅, h₆, h₇, h₈, h₉, h₁₀.trans g.count, h₁₁⟩
  · cases hs with
    | configured hk hc hok => exact .configured hk hc hok
    | owned hk hm => exact .owned hk hm
    | applied hk hv hb hok => exact .applied hk hv (authorityBasis_grows g hb) hok
    | imported hk hd hb hr =>
      obtain ⟨r, hmem, himp⟩ := hr
      exact .imported hk hd (authorityBasis_grows g hb) ⟨r, g.revisions r hmem, himp⟩

theorem authorityLoop_grows (g : RecordGrows record record' observations observations')
    {events : List PolicySourceAuthorityEvent} (h : authorityLoop record observations i s events = some s') :
    authorityLoop record' observations' i s events = some s' := by
  induction events generalizing i s with
  | nil => exact h
  | cons e rest ih =>
    obtain ⟨s₁, hstep, hrest⟩ := Option.bind_eq_some_iff.mp h
    exact Option.bind_eq_some_iff.mpr ⟨s₁, authorityStep_grows g hstep, ih hrest⟩

/-! ## A valid stream as an answer -/

/-- The loop over an answered stream keeps of the validator's variables the ids, configurations and mode. -/
def AuthorityLoop.answered (s : AuthorityLoop) : AnsweredLoop := ⟨s.ids, s.configs, s.mode⟩

theorem validPolicyAuthorityObservation_of_valid {o : PolicySourceObservation} (h : validSourceObservation o = true) :
    validPolicyAuthorityObservation o = true := by
  simp only [validSourceObservation, validPolicyAuthorityObservation, Bool.and_eq_true, decide_eq_true_eq] at h ⊢
  grind

theorem answeredBasis_of_authorityBasis {configurationID : String} {o : PolicySourceObservation}
    {c : PolicySourceStatusConfiguration} (hobs : ∀ o ∈ observations, validSourceObservation o = true)
    (h : authorityBasis observations s configurationID o = some c) :
    answeredBasis s.answered configurationID o = some c ∧ validPolicyAuthorityObservation o = true := by
  obtain ⟨_, _, hom, hb, hs⟩ := authorityBasis_eq_some h
  refine ⟨?_, validPolicyAuthorityObservation_of_valid (hobs o hom)⟩
  have hc : lastWith PolicySourceStatusConfiguration.id s.configs configurationID = some c := by
    unfold authorityBasis at h
    split at h
    · rename_i c' o' hc ho
      split at h
      · cases h; exact hc
      · cases h
    · cases h
  unfold answeredBasis AuthorityLoop.answered
  simp only [hc, Option.filter_some, hb, hs, beq_self_eq_true, Bool.and_self, if_true]

/-- The forms of a revision that an answer repeats. -/
structure RevisionForm (r : PolicyRevision) : Prop where
  ident : policyEventIDForm r.id = true
  kind : hasPrefix r.id "revision_" = true
  digest : retainedArtifactDigest r.digest = true
  workflow : retainedArtifactDigest r.workflowDigest = true

theorem revisionForm_of_valid {r : PolicyRevision} (h : validPolicyRevision r = true) : RevisionForm r := by
  simp only [validPolicyRevision, Bool.and_eq_true, beq_iff_eq, RetainedArtifactRef.valid] at h
  have hdigest : retainedArtifactDigest (policyWorkflowDigest r.workflow) = true := digestOf_form _
  constructor <;> grind

theorem answeredStep_of_authorityStep (hobs : ∀ o ∈ observations, validSourceObservation o = true)
    (hrev : ∀ r ∈ record.revisions, RevisionForm r)
    (h : authorityStep record observations i s e = some s') : answeredStep i s.answered e = some s'.answered := by
  obtain ⟨hv, hs⟩ := authorityStep_eq_some.mp h
  obtain ⟨h₁, h₂, h₃, h₄, h₅, h₆, h₇, h₈, h₉, h₁₀, h₁₁⟩ := validAuthorityEvent_iff.mp hv
  have hguard : (policyAuthorityIDForm e.id && hasPrefix e.id "authority_" && decide (e.id ∉ s.answered.ids) &&
      e.sequence == i + 1 && validPolicyLifecycleTime e.at_ && validPolicyActor e.actor && !blank e.rationale &&
      decide (len e.rationale ≤ 8192) && e.fields == 1) = true := by
    simp only [Bool.and_eq_true, decide_eq_true_eq, beq_iff_eq, Bool.not_eq_true', and_assoc]
    exact ⟨h₁, h₂, h₃, h₄, h₅, h₆, h₇, h₈, h₁₁⟩
  unfold answeredStep
  rw [hguard]
  cases hs with
  | configured hk hc hok =>
    simp only [hk, hc, Bool.not_true, Bool.false_eq_true, if_false]
    rw [if_pos]
    · rfl
    · simp only [Bool.and_eq_true, decide_eq_true_eq, beq_iff_eq, and_assoc]
      exact hok
  | owned hk hm =>
    simp only [hk, hm, Bool.not_true, Bool.false_eq_true, if_false]
    rfl
  | applied hk hve hb hok =>
    obtain ⟨hbasis, hobs⟩ := answeredBasis_of_authorityBasis hobs hb
    obtain ⟨hm, hf, hp, hid, hev, hat, hactor, hfb, hst, hprov, hraw, hevid, _⟩ := hok
    simp only [hk, hve, Bool.not_true, Bool.false_eq_true, if_false]
    rw [if_pos]
    · rfl
    · simp only [Bool.and_eq_true, decide_eq_true_eq, beq_iff_eq, and_assoc]
      refine ⟨hm, hf, hp, hid, hev, hat, hactor, hst, hprov, hraw, by rw [hevid]; rfl, hobs, ?_⟩
      have : answeredBasis { s.answered with ids := e.id :: s.answered.ids } _ _ = some _ := hbasis
      rw [this]
      simp [hfb]
  | imported hk hd hb hr =>
    obtain ⟨hbasis, hobs⟩ := answeredBasis_of_authorityBasis hobs hb
    obtain ⟨r, hmem, hid, hdig, hwork, _⟩ := hr
    have hform := hrev r hmem
    simp only [hk, hd, Bool.not_true, Bool.false_eq_true, if_false]
    rw [if_pos]
    · rfl
    · simp only [Bool.and_eq_true, and_assoc]
      have : answeredBasis { s.answered with ids := e.id :: s.answered.ids } _ _ = some _ := hbasis
      rw [this, ← hid, ← hdig, ← hwork]
      exact ⟨hobs, hform.ident, hform.kind, hform.digest, hform.workflow, rfl⟩

theorem answeredLoop_of_authorityLoop (hobs : ∀ o ∈ observations, validSourceObservation o = true)
    (hrev : ∀ r ∈ record.revisions, RevisionForm r) {events : List PolicySourceAuthorityEvent}
    (h : authorityLoop record observations i s events = some s') :
    answeredLoop i s.answered events = some s'.answered := by
  induction events generalizing i s with
  | nil => cases h; rfl
  | cons e rest ih =>
    obtain ⟨s₁, hstep, hrest⟩ := Option.bind_eq_some_iff.mp h
    exact Option.bind_eq_some_iff.mpr ⟨s₁.answered, answeredStep_of_authorityStep hobs hrev hstep, ih hrest⟩

end

end Desk
