import Desk.Ledger.Valid
import Desk.Policy.AuthoritySound
import Desk.Policy.SourceSound
import Desk.Service.SourceStatus

/-!
# Source status commands keep the ledger valid

Each decision builds its event under its own checks. The validator replays the
whole stream, and the answer is validated once more when it is asked for again:
whatever a command commits passes both.
-/

namespace Desk

/-! ## What each decision does -/

section
variable {call : Call} {id : String} {q : PolicySourceStatusRequest} {view : PolicySourceStatusReply} {c c' : StatusChange}

theorem statusOwnership_eq_ok (h : statusOwnership q view c = .ok c') :
    ∃ mode, c' = { c with event := { c.event with managementMode := some mode } } := by
  simp only [statusOwnership, bind_eq_ok, found_eq_ok, require_eq_ok] at h
  obtain ⟨mode, _, _, _, hc⟩ := h
  cases hc
  exact ⟨mode, rfl⟩

theorem Call.statusConfigure_eq_ok (h : call.statusConfigure q view c = .ok c') :
    view.availability.usable = true ∧ q.bindingID = (view.binding.getD default).bindingID ∧
      ∃ token fallback, call.token 1 = some token ∧
        let configuration : PolicySourceStatusConfiguration :=
          { id := "configuration_" ++ token.text, bindingID := q.bindingID, source := (view.binding.getD default).source
            capability := "not-exposed", fallbackStatus := fallback, at_ := c.event.at_, actor := c.event.actor }
        c' = { c with event := { c.event with configuration := some configuration }
                      configurationID := configuration.id } := by
  simp only [statusConfigure, bind_eq_ok, found_eq_ok, require_eq_ok, beq_iff_eq] at h
  obtain ⟨_, hu, _, _, _, hb, fallback, _, configID, hid, hc⟩ := h
  obtain ⟨token, ht, rfl⟩ := newPolicyEventID_eq_ok hid
  cases hc
  exact ⟨hu, hb, token, fallback, ht, rfl⟩

theorem Call.statusObservation_eq_ok {source : Option PolicyConnectedSource} {o : PolicySourceObservation}
    (h : call.statusObservation q view source = .ok o) :
    view.currentPreview.eligible = true ∧ q.observationID = view.currentPreview.observationID ∧
      q.configurationID = view.currentPreview.configurationID ∧ o = (latestObservation source).getD default := by
  simp only [statusObservation, bind_eq_ok, require_eq_ok, Bool.and_eq_true, beq_iff_eq] at h
  obtain ⟨_, he, _, ⟨ho, hc⟩, _, _, _, _, hret⟩ := h
  cases hret
  exact ⟨he, ho, hc, rfl⟩

theorem Call.statusApplyExternal_eq_ok (h : call.statusApplyExternal q view c = .ok c') :
    ((view.actions.get? "applyExternal").getD default).allowed = true ∧ view.currentPreview.eligible = true ∧
      q.observationID = view.currentPreview.observationID ∧ q.configurationID = view.currentPreview.configurationID ∧
      ∃ token, call.token 1 = some token ∧
        let version : PolicyExternalVersion :=
          { id := "external_" ++ token.text, eventID := c.event.id, configurationID := q.configurationID
            observation := (latestObservation c.source).getD default, status := view.currentPreview.status
            provenance := view.currentPreview.provenance, rawStatus := "", evidence := none, at_ := c.event.at_
            actor := c.event.actor }
        c' = { c with event := { c.event with externalVersion := some version }, configurationID := q.configurationID
                      observationID := q.observationID, externalVersionID := version.id } := by
  simp only [statusApplyExternal, bind_eq_ok, require_eq_ok] at h
  obtain ⟨o, ho, _, ha, versionID, hid, hc⟩ := h
  obtain ⟨token, ht, rfl⟩ := newPolicyEventID_eq_ok hid
  obtain ⟨he, hobs, hconf, rfl⟩ := statusObservation_eq_ok ho
  cases hc
  exact ⟨ha, he, hobs, hconf, token, ht, rfl⟩

/-- What an import leaves, by the revision it appends. -/
structure Imported (q : PolicySourceStatusRequest) (id : String) (c c' : StatusChange) (o : PolicySourceObservation)
    (held : PolicyConnectedSource) (r : PolicyRevision) : Prop where
  record : c'.record = { c.record with revisions := c.record.revisions ++ [r], headRevisionID := r.id
                                       currentReviewID := "", updatedAt := r.at_ }
  source : c'.source = some { held with
    resolutions := held.resolutions ++ [⟨o.id, r.id, r.digest, r.workflowDigest, r.at_, r.actor, q.rationale⟩] }
  room : held.resolutions.length < policyHistoryLimit
  event : c'.event = { c.event with
    policySequence := r.sequence, importedDraft := some ⟨q.configurationID, o, r.id, r.digest, r.workflowDigest⟩ }
  ledger : c'.ledger = { c.ledger with
    policies := c.ledger.policies.set id c'.record, sources := c.ledger.sources.set id (c'.source.getD default) }
  references : c'.configurationID = q.configurationID ∧ c'.observationID = q.observationID ∧
    c'.externalVersionID = c.externalVersionID

theorem Call.statusImportDraft_eq_ok (h : call.statusImportDraft id q view c = .ok c') :
    view.currentPreview.eligible = true ∧ q.observationID = view.currentPreview.observationID ∧
      q.configurationID = view.currentPreview.configurationID ∧ c.record.revisions.length < policyHistoryLimit ∧
      ∃ token raw, call.token 1 = some token ∧ raw.length ≤ retainedArtifactByteLimit ∧
        Imported q id c c' ((latestObservation c.source).getD default) (c.source.getD default)
          (importedRevision c (q.draft.getD ⟨"", "", ""⟩) ("revision_" ++ token.text) (artifactReference raw)) := by
  simp only [statusImportDraft, bind_eq_ok, require_eq_ok, decide_eq_true_eq] at h
  obtain ⟨o, ho, _, _, _, hrev, content, hput, revisionID, hid, _, hroom, hc⟩ := h
  obtain ⟨token, ht, rfl⟩ := newPolicyEventID_eq_ok hid
  obtain ⟨rfl, hlen⟩ := put_eq_ok hput
  obtain ⟨he, hobs, hconf, rfl⟩ := statusObservation_eq_ok ho
  cases hc
  exact ⟨he, hobs, hconf, hrev, token, _, ht, hlen, rfl, rfl, hroom, rfl, rfl, rfl, rfl, rfl⟩

end

/-! ## The event joins the stream -/

theorem validPolicyTime_format {t : Utc} (h : t.FourDigit) : validPolicyTime t.format = true := by
  unfold validPolicyTime
  rw [Utc.parse_format h]
  rfl

theorem validPolicyLifecycleTime_format {t : Utc} (h : 1 ≤ t.year ∧ t.year < 10000) :
    validPolicyLifecycleTime t.format = true := by
  have hfour : t.FourDigit := ⟨by omega, h.2⟩
  unfold validPolicyLifecycleTime
  rw [Utc.parse_format hfour]
  simp [Utc.len_format hfour, h.1]

/-- What the command checks of a request before its transaction. -/
structure StatusAdmitted (q : PolicySourceStatusRequest) (kind : AuthorityKind) : Prop where
  action : AuthorityKind.ofText q.action = some kind
  operation : policyOperationIDForm q.operationID = true
  reviewed : blank q.rationale = false
  bounded : len q.rationale ≤ 8192

/-- What a call takes from outside: an actor that signed in, a clock, and tokens that are new. -/
structure Outside (call : Call) (actor : PolicyActor) (ledger : PolicyLedger) : Prop where
  actor : validPolicyActor actor = true
  clock : 1 ≤ call.clock.year ∧ call.clock.year < 10000
  fresh : ∀ n token, call.token n = some token → token.Fresh ledger

section
variable {call : Call} {id : String} {actor : PolicyActor} {q : PolicySourceStatusRequest} {kind : AuthorityKind}
  {authority : String} {ledger : PolicyLedger} {record : PolicyStoredRecord}

theorem fresh_of_reads {s : AuthorityLoop} {token : Token} (hf : token.Fresh ledger)
    (hr : LoopReads record (authorityEvents (ledger.sourceAuthorities.get? id)) s) (pre : String) :
    pre ++ "_" ++ token.text ∉ s.ids := by
  intro hmem
  obtain ⟨e, he, hx⟩ := hr.ids _ hmem
  cases hs : ledger.sourceAuthorities.get? id with
  | none => rw [hs] at he; cases he
  | some stream =>
    rw [hs] at he
    rcases List.mem_cons.mp hx with hid | hx
    · exact hf.authority id stream hs e he pre hid.symm
    · rcases List.mem_append.mp hx with hx | hx
      · obtain ⟨c, hc, hid⟩ := Option.mem_toList.mp hx |> Option.map_eq_some_iff.mp
        exact hf.configuration id stream hs e he c hc pre hid
      · obtain ⟨v, hv, hid⟩ := Option.mem_toList.mp hx |> Option.map_eq_some_iff.mp
        exact hf.external id stream hs e he v hv pre hid

/-- The checks every event passes hold of a decision's. -/
theorem validAuthorityEvent_new {s : AuthorityLoop} {token : Token} {e : PolicySourceAuthorityEvent}
    {record' : PolicyStoredRecord} (hq : StatusAdmitted q kind) (ho : Outside call actor ledger) (ht : call.token 0 = some token)
    (hr : LoopReads record (authorityEvents (ledger.sourceAuthorities.get? id)) s)
    (hid : e.id = "authority_" ++ token.text)
    (hseq : e.sequence = (authorityEvents (ledger.sourceAuthorities.get? id)).length + 1)
    (hat : e.at_ = call.lifecycleNow) (hactor : e.actor = actor) (hrat : e.rationale = q.rationale)
    (hlow : policyEventCount record ≤ e.policySequence) (hhigh : e.policySequence ≤ policyEventCount record')
    (hfields : e.fields = 1) :
    validAuthorityEvent record' (0 + (authorityEvents (ledger.sourceAuthorities.get? id)).length) s e = true := by
  refine validAuthorityEvent_iff.mpr ⟨?_, ?_, ?_, ?_, ?_, ?_, ?_, ?_, hr.previous.trans hlow, hhigh, hfields⟩
  · rw [hid]
    unfold policyAuthorityIDForm
    rw [hexForm_append _ token.form]
    rfl
  · rw [hid]
    exact hasPrefix_append _ _
  · rw [hid]
    exact fresh_of_reads (ho.fresh 0 token ht) hr "authority"
  · rw [hseq, Nat.zero_add]
  · rw [hat]
    exact validPolicyLifecycleTime_format ho.clock
  · rw [hactor]
    exact ho.actor
  · rw [hrat]
    exact hq.reviewed
  · rw [hrat]
    exact hq.bounded

/-! ## The basis of a decision -/

/-- The observations the validator reads under a source. -/
def observationsOf (source : Option PolicyConnectedSource) : List PolicySourceObservation :=
  (source.map PolicyConnectedSource.observations).getD []

theorem mem_observationsOf {source : Option PolicyConnectedSource} {o : PolicySourceObservation}
    (h : latestObservation source = some o) : o ∈ observationsOf source := by
  cases source with
  | none => cases h
  | some s => exact List.mem_of_getLast? h

/-- What validity says of one policy of the ledger. -/
structure PolicyBasis (ledger : PolicyLedger) (id : String) (record : PolicyStoredRecord) (s : AuthorityLoop) : Prop where
  stored : ledger.policies.get? id = some record
  valid : RecordValid id record
  source : ∀ source, ledger.sources.get? id = some source → SourceValid record source
  loop : authorityLoop record (observationsOf (ledger.sources.get? id)) 0 ⟨[], [], [], 0, .deskManaged⟩
    (authorityEvents (ledger.sourceAuthorities.get? id)) = some s
  reads : LoopReads record (authorityEvents (ledger.sourceAuthorities.get? id)) s

theorem PolicyBasis.observations {s : AuthorityLoop} (b : PolicyBasis ledger id record s) :
    ∀ o ∈ observationsOf (ledger.sources.get? id), validSourceObservation o = true := by
  intro o ho
  cases hs : ledger.sources.get? id with
  | none => rw [hs] at ho; cases ho
  | some source =>
    rw [hs] at ho
    exact (b.source source hs).observations o ho

theorem PolicyBasis.observationIDs {s : AuthorityLoop} (b : PolicyBasis ledger id record s) :
    ((observationsOf (ledger.sources.get? id)).map PolicySourceObservation.id).Nodup := by
  cases hs : ledger.sources.get? id with
  | none => exact List.nodup_nil
  | some source => exact (b.source source hs).observationIDs

theorem exists_policyBasis (hv : LedgerValid ledger) (hr : ledger.policies.get? id = some record) :
    ∃ s, PolicyBasis ledger id record s := by
  have hsource : ∀ source, ledger.sources.get? id = some source → SourceValid record source := by
    intro source hs
    obtain ⟨record', hr', hvalid⟩ := (validatePolicySources_iff.mp hv.sources).2 id source hs
    cases hr.symm.trans hr'
    exact hvalid
  have hobs : ∀ o ∈ observationsOf (ledger.sources.get? id), validSourceObservation o = true := by
    intro o ho
    cases hs : ledger.sources.get? id with
    | none => rw [hs] at ho; cases ho
    | some source =>
      rw [hs] at ho
      exact (hsource source hs).observations o ho
  have hloop : ∃ s, authorityLoop record (observationsOf (ledger.sources.get? id)) 0 ⟨[], [], [], 0, .deskManaged⟩
      (authorityEvents (ledger.sourceAuthorities.get? id)) = some s := by
    cases hst : ledger.sourceAuthorities.get? id with
    | none => exact ⟨_, rfl⟩
    | some stream =>
      have hall := hv.sourceAuthorities
      simp only [validatePolicySourceAuthorities, Bool.and_eq_true, Table.all_iff] at hall
      have := hall.2 id stream hst
      rw [hr] at this
      simp only [validAuthorityStream, Bool.and_eq_true, Option.isSome_iff_exists] at this
      exact this.2
  obtain ⟨s, hs⟩ := hloop
  exact ⟨s, hr, hv.policies id record hr, hsource, hs, authorityLoop_reads hobs hs⟩

/-- The configuration and the observation of an eligible preview, found again by the validator. -/
theorem PolicyBasis.eligible {s : AuthorityLoop} (b : PolicyBasis ledger id record s)
    (he : (policySourceStatusView record (ledger.sources.get? id) (ledger.sourceAuthorities.get? id)
      authority).currentPreview.eligible = true) :
    ∃ o c, latestObservation (ledger.sources.get? id) = some o ∧
      (policySourceStatusView record (ledger.sources.get? id) (ledger.sourceAuthorities.get? id)
        authority).currentPreview.observationID = o.id ∧
      (policySourceStatusView record (ledger.sources.get? id) (ledger.sourceAuthorities.get? id)
        authority).currentPreview.configurationID = c.id ∧
      (policySourceStatusView record (ledger.sources.get? id) (ledger.sourceAuthorities.get? id)
        authority).currentPreview.status = c.fallbackStatus.text ∧
      (policySourceStatusView record (ledger.sources.get? id) (ledger.sourceAuthorities.get? id)
        authority).currentPreview.provenance = "admin-configured" ∧
      authorityBasis (observationsOf (ledger.sources.get? id)) s c.id o = some c := by
  obtain ⟨source, o, c, hs, ho, hc, hb, hsrc, hoid, hcid, hkind⟩ := policyStatusPreview_eligible he
  have hlatest : latestObservation (ledger.sources.get? id) = some o := by rw [hs]; exact ho
  have hmem := mem_observationsOf hlatest
  have hlife : o.lifecycle.kind = "not-exposed" := by
    have := b.observations o hmem
    simp only [validSourceObservation, Bool.and_eq_true, beq_iff_eq] at this
    grind
  have hcm : c ∈ s.configs := by
    rw [b.reads.configs]
    exact List.mem_of_getLast? hc
  refine ⟨o, c, hlatest, hoid, hcid, (hkind hlife).1, (hkind hlife).2, ?_⟩
  unfold authorityBasis
  rw [(lastWith_eq_some b.reads.configIDs).mpr ⟨hcm, rfl⟩, (lastWith_eq_some b.observationIDs).mpr ⟨hmem, rfl⟩]
  simp only [hb, hsrc, beq_self_eq_true, Bool.and_self, if_true]

/-! ## The stream of the policy afterwards -/

/-- What the switch leaves that the validator reads: the next event passes on the records it was built on. -/
structure ChangeValid (ledger : PolicyLedger) (id : String) (record : PolicyStoredRecord) (s : AuthorityLoop)
    (c : StatusChange) : Prop where
  step : ∃ s', authorityStep c.record (observationsOf c.source)
    (0 + (authorityEvents (ledger.sourceAuthorities.get? id)).length) s c.event = some s'
  revisions : ∀ r ∈ record.revisions, r ∈ c.record.revisions
  count : policyEventCount record ≤ policyEventCount c.record
  observations : observationsOf c.source = observationsOf (ledger.sources.get? id)
  source : ∀ source, c.source = some source → SourceValid c.record source
  policies : c.ledger.policies.get? id = some c.record ∧ ∀ k, k ≠ id → c.ledger.policies.get? k = ledger.policies.get? k
  sources : c.ledger.sources.get? id = c.source ∧ ∀ k, k ≠ id → c.ledger.sources.get? k = ledger.sources.get? k
  streams : c.ledger.sourceAuthorities = ledger.sourceAuthorities

theorem authority_ne (kind : String) (token token' : Token) (h : kind.toList.head? ≠ some 'a') (hne : kind ≠ "") :
    kind ++ "_" ++ token.text ≠ "authority_" ++ token'.text := by
  intro heq
  have := congrArg (fun t : String => t.toList.head?) heq
  have hk : kind.toList ≠ [] := fun hn => hne (String.toList_eq_nil_iff.mp hn)
  simp only [String.toList_append, List.append_assoc, List.head?_append_of_ne_nil _ hk] at this
  exact h this

section
variable {s : AuthorityLoop} {c : StatusChange} {token : Token}

/-- The decision's base: nothing has been changed yet. -/
def statusBase (call : Call) (ledger : PolicyLedger) (id : String) (record : PolicyStoredRecord) (kind : AuthorityKind)
    (q : PolicySourceStatusRequest) (actor : PolicyActor) (token : Token) : StatusChange :=
  ⟨ledger, record, ledger.sources.get? id, statusEvent record (ledger.sourceAuthorities.get? id) kind q actor
    ("authority_" ++ token.text) call.lifecycleNow, "", "", ""⟩

/-- A decision that only sets its event. -/
theorem ChangeValid.of_event (b : PolicyBasis ledger id record s) (hrecord : c.record = record)
    (hsource : c.source = ledger.sources.get? id) (hledger : c.ledger = ledger)
    (hvalid : validAuthorityEvent record (0 + (authorityEvents (ledger.sourceAuthorities.get? id)).length) s c.event = true)
    {s' : AuthorityLoop}
    (hstep : AuthorityStepped record (observationsOf (ledger.sources.get? id)) s c.event s') :
    ChangeValid ledger id record s c := by
  refine ⟨⟨s', ?_⟩, ?_, ?_, ?_, ?_, ?_, ?_, ?_⟩
  · rw [hrecord, hsource]
    exact authorityStep_eq_some.mpr ⟨hvalid, hstep⟩
  · rw [hrecord]
    exact fun _ h => h
  · rw [hrecord]
  · rw [hsource]
  · rw [hsource, hrecord]
    exact b.source
  · rw [hledger, hrecord]
    exact ⟨b.stored, fun _ _ => rfl⟩
  · rw [hledger, hsource]
    exact ⟨rfl, fun _ _ => rfl⟩
  · rw [hledger]

variable (hq : StatusAdmitted q kind) (ho : Outside call actor ledger) (b : PolicyBasis ledger id record s)
  (ht : call.token 0 = some token)
include hq ho b ht

theorem statusOwnership_valid (hk : kind = .setOwnership)
    (h : statusOwnership q (policySourceStatusView record (ledger.sources.get? id) (ledger.sourceAuthorities.get? id) authority)
      (statusBase call ledger id record kind q actor token) = .ok c) : ChangeValid ledger id record s c := by
  obtain ⟨mode, rfl⟩ := statusOwnership_eq_ok h
  refine .of_event b rfl rfl rfl ?_ (.owned hk rfl)
  exact validAuthorityEvent_new hq ho ht b.reads rfl rfl rfl rfl rfl (Nat.le_refl _) (Nat.le_refl _) rfl

theorem statusConfigure_valid (hk : kind = .configure)
    (h : call.statusConfigure q (policySourceStatusView record (ledger.sources.get? id) (ledger.sourceAuthorities.get? id)
      authority) (statusBase call ledger id record kind q actor token) = .ok c) : ChangeValid ledger id record s c := by
  obtain ⟨hu, hbind, token', fallback, ht', rfl⟩ := call.statusConfigure_eq_ok h
  obtain ⟨source, binding, _, hs, hb, _⟩ := policyStatusAvailability_usable hu
  have hview : (policySourceStatusView record (ledger.sources.get? id) (ledger.sourceAuthorities.get? id)
      authority).binding = some binding := by
    show (ledger.sources.get? id).bind PolicyConnectedSource.binding = some binding
    rw [hs]
    exact hb
  have hvalid := ((b.source source hs).binding binding hb).valid
  simp only [validPolicySourceBinding, Bool.and_eq_true] at hvalid
  rw [hview, Option.getD_some] at hbind
  refine .of_event b rfl rfl rfl ?_ (.configured hk rfl ?_)
  · exact validAuthorityEvent_new hq ho ht b.reads rfl rfl rfl rfl rfl (Nat.le_refl _) (Nat.le_refl _) rfl
  · simp only [hview, Option.getD_some, hbind]
    refine ⟨?_, hasPrefix_append _ _, ?_, ?_, ?_, rfl, rfl, rfl⟩
    · unfold policyAuthorityIDForm
      rw [hexForm_append "configuration_" token'.form, Bool.or_true, Bool.true_or]
    · intro hmem
      rcases List.mem_cons.mp hmem with heq | hmem
      · exact authority_ne "configuration" token' token (by decide) (by decide) heq
      · exact fresh_of_reads (ho.fresh 1 token' ht') b.reads "configuration" hmem
    · grind
    · grind

theorem statusApplyExternal_valid (hk : kind = .applyExternal)
    (h : call.statusApplyExternal q (policySourceStatusView record (ledger.sources.get? id)
      (ledger.sourceAuthorities.get? id) authority) (statusBase call ledger id record kind q actor token) = .ok c) :
    ChangeValid ledger id record s c := by
  obtain ⟨ha, he, hobs, hconf, token', ht', rfl⟩ := call.statusApplyExternal_eq_ok h
  rw [policySourceStatusView_applyExternal, Option.getD_some] at ha
  obtain ⟨_, hdraft, hmode, hnew⟩ := applyExternalAction_allowed ha
  obtain ⟨o, c, hlatest, hoid, hcid, hstatus, hprov, hbasis⟩ := b.eligible he
  have hpub : c.fallbackStatus = .published := by
    cases hf : c.fallbackStatus with
    | draft => exact absurd (hstatus.trans (by rw [hf]; rfl)) hdraft
    | published => rfl
  have hst : (policySourceStatusView record (ledger.sources.get? id) (ledger.sourceAuthorities.get? id)
      authority).currentPreview.status = "published" := hstatus.trans (by rw [hpub]; rfl)
  have hbase : (latestObservation (statusBase call ledger id record kind q actor token).source).getD default = o := by
    show (latestObservation (ledger.sources.get? id)).getD default = o
    rw [hlatest]
    rfl
  have hform : VersionForm ⟨"external_" ++ token'.text, "", q.configurationID, o, "published", "admin-configured", "", none,
      "", actor⟩ := by
    obtain ⟨hcm, _, hom, _⟩ := authorityBasis_eq_some hbasis
    have hid : retainedArtifactDigest o.id = true := by
      have := b.observations o hom
      simp only [validSourceObservation, Bool.and_eq_true] at this
      grind
    exact ⟨by rw [hconf, hcid]; exact b.reads.configForms c hcm, length_of_hexForm hid, rfl, rfl⟩
  refine .of_event b rfl rfl rfl ?_ (.applied (c := c) hk rfl ?_ ?_)
  · exact validAuthorityEvent_new hq ho ht b.reads rfl rfl rfl rfl rfl (Nat.le_refl _) (Nat.le_refl _) rfl
  · simp only [hbase, hconf, hcid]
    exact hbasis
  · refine ⟨b.reads.mode.trans hmode, ?_, hasPrefix_append _ _, ?_, rfl, rfl, rfl, hpub, hst, hprov, rfl, rfl, ?_⟩
    · unfold policyAuthorityIDForm
      rw [hexForm_append "external_" token'.form, Bool.or_true]
    · intro hmem
      rcases List.mem_cons.mp hmem with heq | hmem
      · exact authority_ne "external" token' token (by decide) (by decide) heq
      · exact fresh_of_reads (ho.fresh 1 token' ht') b.reads "external" hmem
    · intro hmem
      obtain ⟨v, hv, happ⟩ := b.reads.applications _ hmem
      have hvf := b.reads.versions v hv
      rw [hst, hprov, hbase] at happ
      obtain ⟨hcv, hov⟩ := applicationOf_inj hform hvf happ
      refine hnew v hv ⟨hov.symm.trans hoid.symm, ?_, hvf.status.trans hst.symm, hvf.provenance.trans hprov.symm⟩
      exact hcv.symm.trans hconf

theorem statusImportDraft_valid (hk : kind = .importDraft)
    (h : call.statusImportDraft id q (policySourceStatusView record (ledger.sources.get? id)
      (ledger.sourceAuthorities.get? id) authority) (statusBase call ledger id record kind q actor token) = .ok c) :
    ChangeValid ledger id record s c := by
  obtain ⟨he, _, hconf, _, token', raw, _, _, himp⟩ := call.statusImportDraft_eq_ok h
  obtain ⟨o, cfg, hlatest, _, hcid, _, _, hbasis⟩ := b.eligible he
  obtain ⟨source, hs⟩ : ∃ source, ledger.sources.get? id = some source := by
    cases hs : ledger.sources.get? id with
    | none => rw [hs] at hlatest; cases hlatest
    | some source => exact ⟨source, rfl⟩
  set base := statusBase call ledger id record kind q actor token with hbase
  set r := Call.importedRevision base (q.draft.getD ⟨"", "", ""⟩) ("revision_" ++ token'.text) (artifactReference raw) with hr
  have hbs : base.source = some source := hs
  have ho' : (latestObservation base.source).getD default = o := by
    show (latestObservation (ledger.sources.get? id)).getD default = o
    rw [hlatest]
    rfl
  have hheld : base.source.getD default = source := by rw [hbs]; rfl
  rw [ho', hheld] at himp
  have hrevs : ∀ x ∈ record.revisions, x ∈ c.record.revisions := by
    intro x hx
    rw [himp.record]
    exact List.mem_append_left _ hx
  have hcount : policyEventCount c.record = policyEventCount record + 1 := by
    rw [himp.record]
    show (record.revisions ++ [r]).length + record.reviews.length + record.publications.length = _
    rw [List.length_append, policyEventCount]
    simp only [List.length_singleton]
    omega
  have hobsEq : observationsOf c.source = observationsOf (ledger.sources.get? id) := by
    rw [himp.source, hs]
    rfl
  have hsv := b.source source hs
  have hom : o ∈ source.observations := by
    have := mem_observationsOf hlatest
    rwa [hs] at this
  have hrat : len q.rationale ≤ 8192 := hq.bounded
  refine ⟨?_, hrevs, by omega, hobsEq, ?_, ?_, ?_, ?_⟩
  · refine ⟨_, authorityStep_eq_some.mpr ⟨?_, .imported (d := ⟨q.configurationID, o, r.id, r.digest, r.workflowDigest⟩)
      (c := cfg) ?_ ?_ ?_ ⟨r, ?_, ?_⟩⟩⟩
    · rw [himp.event]
      refine validAuthorityEvent_new hq ho ht b.reads rfl rfl rfl rfl rfl ?_ ?_ rfl
      · show policyEventCount record ≤ policyEventCount record + 1
        omega
      · rw [hcount]
        exact Nat.le_refl _
    · rw [himp.event]
      exact hk
    · rw [himp.event]
    · rw [hobsEq]
      simp only [hconf, hcid]
      exact hbasis
    · rw [himp.record]
      exact List.mem_append_right _ (List.mem_singleton.mpr rfl)
    · rw [himp.event]
      exact ⟨rfl, rfl, rfl, rfl, rfl, rfl, rfl⟩
  · intro source' hsource'
    rw [himp.source] at hsource'
    cases hsource'
    have hroom := himp.room
    refine { hsv with resolutionLimit := ?_, binding := ?_, poll := ?_, resolutions := ?_ }
    · simp only [List.length_append, List.length_singleton]
      omega
    · intro bnd hbnd
      exact ⟨(hsv.binding bnd hbnd).valid, (hsv.binding bnd hbnd).operation, (hsv.binding bnd hbnd).resource⟩
    · intro poll hpoll
      exact ⟨(hsv.poll poll hpoll).ident, (hsv.poll poll hpoll).owner, (hsv.poll poll hpoll).deadline,
        (hsv.poll poll hpoll).generation⟩
    · intro x hx
      rcases List.mem_append.mp hx with hx | hx
      · exact validSourceResolution_grows hrevs (fun _ h => h) (hsv.resolutions x hx)
      · rw [List.mem_singleton.mp hx]
        refine validSourceResolution_iff.mpr ⟨⟨o, hom, rfl⟩, ho.actor, ?_, hrat, r, ?_, rfl, rfl, rfl⟩
        · exact validPolicyTime_format ⟨by have := ho.clock.1; omega, ho.clock.2⟩
        · rw [himp.record]
          exact List.mem_append_right _ (List.mem_singleton.mpr rfl)
  · rw [himp.ledger]
    exact ⟨Table.get?_set_self _ _ _, fun k hk => Table.get?_set_ne _ _ hk⟩
  · rw [himp.ledger]
    refine ⟨?_, fun k hk => Table.get?_set_ne _ _ hk⟩
    show (ledger.sources.set id _).get? id = _
    rw [Table.get?_set_self, himp.source]
    rfl
  · rw [himp.ledger]
    rfl

theorem statusChange_valid
    (h : call.statusChange id q (policySourceStatusView record (ledger.sources.get? id) (ledger.sourceAuthorities.get? id)
      authority) (statusBase call ledger id record kind q actor token) kind = .ok c) : ChangeValid ledger id record s c := by
  cases hk : kind with
  | setOwnership => rw [hk] at h hq; exact statusOwnership_valid hq ho b ht rfl h
  | configure => rw [hk] at h hq; exact statusConfigure_valid hq ho b ht rfl h
  | applyExternal => rw [hk] at h hq; exact statusApplyExternal_valid hq ho b ht rfl h
  | importDraft => rw [hk] at h hq; exact statusImportDraft_valid hq ho b ht rfl h

end

/-! ## The record of the policy afterwards -/

section
variable {s : AuthorityLoop} {c : StatusChange} {token : Token}

theorem policyHead_mem (hv : RecordValid id record) : policyHead record ∈ record.revisions := by
  obtain ⟨r, hr, hid⟩ := lastWith_isSome.mp hv.head
  unfold policyHead
  cases hf : record.revisions.find? fun revision => revision.id == record.headRevisionID with
  | none => exact absurd hid (by simpa using List.find?_eq_none.mp hf r hr)
  | some r' => exact List.mem_of_find?_eq_some hf

/-- A revision appended under a new id is the head. -/
theorem policyHead_append {r : PolicyRevision} (hids : ((record.revisions ++ [r]).map PolicyRevision.id).Nodup)
    (currentReviewID updatedAt : String) :
    policyHead { record with revisions := record.revisions ++ [r], headRevisionID := r.id
                             currentReviewID := currentReviewID, updatedAt := updatedAt } = r := by
  rw [List.map_append, List.map_cons, List.map_nil, nodup_append_singleton] at hids
  unfold policyHead
  rw [List.find?_append, List.find?_eq_none.mpr]
  · simp
  · intro x hx heq
    exact hids.2 (List.mem_map.mpr ⟨x, hx, beq_iff_eq.mp heq⟩)

/-- What a decision appends to the record, if it appends anything. -/
structure RevisionAppended (call : Call) (record record' : PolicyStoredRecord) (r : PolicyRevision) (token : Token) : Prop where
  appended : record' = { record with revisions := record.revisions ++ [r], headRevisionID := r.id
                                     currentReviewID := "", updatedAt := r.at_ }
  drawn : call.token 1 = some token
  ident : r.id = "revision_" ++ token.text
  digest : ∃ raw, r.digest = digestOf raw
  workflow : r.workflowDigest = (policyHead record).workflowDigest

theorem statusChange_record
    (h : call.statusChange id q (policySourceStatusView record (ledger.sources.get? id) (ledger.sourceAuthorities.get? id)
      authority) (statusBase call ledger id record kind q actor token) kind = .ok c) :
    c.record = record ∨ ∃ r token', RevisionAppended call record c.record r token' := by
  cases hk : kind with
  | setOwnership => rw [hk] at h; obtain ⟨mode, rfl⟩ := statusOwnership_eq_ok h; exact Or.inl rfl
  | configure => rw [hk] at h; obtain ⟨_, _, _, _, _, rfl⟩ := call.statusConfigure_eq_ok h; exact Or.inl rfl
  | applyExternal => rw [hk] at h; obtain ⟨_, _, _, _, _, _, rfl⟩ := call.statusApplyExternal_eq_ok h; exact Or.inl rfl
  | importDraft =>
    rw [hk] at h
    obtain ⟨_, _, _, _, token', raw, ht', _, himp⟩ := call.statusImportDraft_eq_ok h
    exact Or.inr ⟨_, token', himp.record, ht', rfl, ⟨raw, rfl⟩, rfl⟩

theorem statusChange_revisions (hv : RecordValid id record)
    (h : call.statusChange id q (policySourceStatusView record (ledger.sources.get? id) (ledger.sourceAuthorities.get? id)
      authority) (statusBase call ledger id record kind q actor token) kind = .ok c) :
    ∀ r ∈ c.record.revisions, RevisionForm r := by
  have hold : ∀ r ∈ record.revisions, RevisionForm r := fun r hr => revisionForm_of_valid (hv.revisions r hr)
  rcases statusChange_record h with heq | ⟨new, token', happ⟩
  · rw [heq]
    exact hold
  · intro r hr
    rw [happ.appended] at hr
    rcases List.mem_append.mp hr with hr | hr
    · exact hold r hr
    · rw [List.mem_singleton.mp hr]
      obtain ⟨raw, hraw⟩ := happ.digest
      refine ⟨?_, ?_, ?_, ?_⟩
      · rw [happ.ident]
        unfold policyEventIDForm
        rw [hexForm_append _ token'.form]
        rfl
      · rw [happ.ident]
        exact hasPrefix_append _ _
      · rw [hraw]
        exact digestOf_form raw
      · rw [happ.workflow]
        exact (hold _ (policyHead_mem hv)).workflow

theorem statusChange_revisionIDs (ho : Outside call actor ledger) (hr : ledger.policies.get? id = some record)
    (hv : RecordValid id record)
    (h : call.statusChange id q (policySourceStatusView record (ledger.sources.get? id) (ledger.sourceAuthorities.get? id)
      authority) (statusBase call ledger id record kind q actor token) kind = .ok c) :
    (c.record.revisions.map PolicyRevision.id).Nodup := by
  rcases statusChange_record h with heq | ⟨new, token', happ⟩
  · rw [heq]
    exact hv.revisionIDs
  · rw [happ.appended]
    show ((record.revisions ++ [new]).map PolicyRevision.id).Nodup
    rw [List.map_append, List.map_cons, List.map_nil, nodup_append_singleton]
    refine ⟨hv.revisionIDs, fun hmem => ?_⟩
    obtain ⟨x, hx, hid⟩ := List.mem_map.mp hmem
    exact (ho.fresh 1 token' happ.drawn).revision id record hr x hx "revision" (hid.trans happ.ident)

theorem policyHead_statusChange (hv : RecordValid id record) (hids : (c.record.revisions.map PolicyRevision.id).Nodup)
    (h : call.statusChange id q (policySourceStatusView record (ledger.sources.get? id) (ledger.sourceAuthorities.get? id)
      authority) (statusBase call ledger id record kind q actor token) kind = .ok c) :
    policyHead c.record ∈ c.record.revisions := by
  rcases statusChange_record h with heq | ⟨new, token', happ⟩
  · rw [heq]
    exact policyHead_mem hv
  · rw [happ.appended] at hids ⊢
    rw [policyHead_append hids]
    exact List.mem_append_right _ (List.mem_singleton.mpr rfl)

/-! ## The answer -/

/-- What the answer says of the event is read off the change. -/
structure ChangeAnswered (call : Call) (actor : PolicyActor) (kind : AuthorityKind) (c : StatusChange) : Prop where
  kind : c.event.kind = kind
  actor : c.event.actor = actor
  references : ∀ r : PolicySourceStatusReply, r.candidateDigest = (policyHead c.record).digest →
    r.candidateRevisionID = (policyHead c.record).id →
    receiptReferences r c.event = some (c.configurationID, c.observationID, c.externalVersionID)

theorem latest_of_eligible
    (he : (policySourceStatusView record (ledger.sources.get? id) (ledger.sourceAuthorities.get? id)
      authority).currentPreview.eligible = true) :
    ∃ o, latestObservation (ledger.sources.get? id) = some o ∧
      (policySourceStatusView record (ledger.sources.get? id) (ledger.sourceAuthorities.get? id)
        authority).currentPreview.observationID = o.id := by
  obtain ⟨source, o, _, hs, ho, _, _, _, hoid, _⟩ := policyStatusPreview_eligible he
  exact ⟨o, by rw [hs]; exact ho, hoid⟩

theorem statusChange_answered (hids : (c.record.revisions.map PolicyRevision.id).Nodup)
    (h : call.statusChange id q (policySourceStatusView record (ledger.sources.get? id) (ledger.sourceAuthorities.get? id)
      authority) (statusBase call ledger id record kind q actor token) kind = .ok c) : ChangeAnswered call actor kind c := by
  cases hk : kind with
  | setOwnership =>
    rw [hk] at h
    obtain ⟨mode, rfl⟩ := statusOwnership_eq_ok h
    exact ⟨rfl, rfl, fun _ _ _ => rfl⟩
  | configure =>
    rw [hk] at h
    obtain ⟨_, _, token', fallback, _, rfl⟩ := call.statusConfigure_eq_ok h
    exact ⟨rfl, rfl, fun _ _ _ => rfl⟩
  | applyExternal =>
    rw [hk] at h
    obtain ⟨_, he, hobs, _, token', _, rfl⟩ := call.statusApplyExternal_eq_ok h
    obtain ⟨o, hlatest, hoid⟩ := latest_of_eligible he
    refine ⟨rfl, rfl, fun _ _ _ => ?_⟩
    simp only [receiptReferences, statusBase, statusEvent, hlatest, Option.getD_some, hobs, hoid, Option.filter_some,
      beq_self_eq_true, Bool.and_self, if_true, Option.map_some]
  | importDraft =>
    rw [hk] at h
    obtain ⟨he, hobs, _, _, token', raw, _, _, himp⟩ := call.statusImportDraft_eq_ok h
    obtain ⟨o, hlatest, hoid⟩ := latest_of_eligible he
    rw [himp.record] at hids
    refine ⟨by rw [himp.event]; rfl, by rw [himp.event]; rfl, fun r hd hid => ?_⟩
    rw [himp.record, policyHead_append hids] at hd hid
    obtain ⟨hcc, hco, hce⟩ := himp.references
    rw [receiptReferences, himp.event, hcc, hco, hce, hobs, hoid]
    simp only [statusBase, statusEvent, hlatest, Option.getD_some, hd, hid, Option.filter_some, beq_self_eq_true,
      Bool.and_self, if_true, Option.map_some]

end

/-! ## The command -/

section
variable {next : PolicyLedger} {result : PolicyMutationReply} {changed : Bool}

/-- Everything a decision can do. -/
structure StatusDecided (call : Call) (ledger next : PolicyLedger) (id : String) (actor : PolicyActor)
    (q : PolicySourceStatusRequest) (kind : AuthorityKind) (authority : String) (result : PolicyMutationReply)
    (record : PolicyStoredRecord) (token : Token) (c : StatusChange) (stream : PolicySourceAuthorityStream) : Prop where
  stored : ledger.policies.get? id = some record
  room : ledger.operations.size < policyOperationLimit ∧
    (authorityEvents (ledger.sourceAuthorities.get? id)).length < policyHistoryLimit
  drawn : call.token 0 = some token
  change : call.statusChange id q (policySourceStatusView record (ledger.sources.get? id)
    (ledger.sourceAuthorities.get? id) authority) (statusBase call ledger id record kind q actor token) kind = .ok c
  appended : stream = ⟨((ledger.sourceAuthorities.get? id).map PolicySourceAuthorityStream.version).getD 1,
    authorityEvents (ledger.sourceAuthorities.get? id) ++ [c.event]⟩
  answered : result = Call.statusResult c stream (sourceStatusIdentity id actor q kind) authority
  size : result.toJson.marshal.length ≤ retainedArtifactByteLimit
  left : next = { c.ledger with
    sourceAuthorities := c.ledger.sourceAuthorities.set id stream
    operations := c.ledger.operations.set q.operationID ⟨q.operationID, .authority kind, id,
      (sourceStatusIdentity id actor q kind).requestDigest, artifactReference result.toJson.marshal⟩ }

theorem Call.sourceStatusDecision_eq_ok
    (h : call.sourceStatusDecision id actor q kind authority ledger = .ok (changed, next, result)) :
    changed = true ∧ ∃ record token c stream,
      StatusDecided call ledger next id actor q kind authority result record token c stream := by
  simp only [sourceStatusDecision, bind_eq_ok, found_eq_ok, require_eq_ok, Bool.and_eq_true, decide_eq_true_eq] at h
  obtain ⟨record, hr, _, _, _, hroom, eventID, hid, c, hc, ref, hput, _, _, h⟩ := h
  obtain ⟨token, ht, rfl⟩ := newPolicyEventID_eq_ok hid
  obtain ⟨rfl, hsize⟩ := put_eq_ok hput
  cases h
  exact ⟨rfl, record, token, c, _, hr, hroom, ht, hc, rfl, rfl, hsize, rfl⟩

theorem Call.sourceStatusUpdate_eq_ok
    (h : call.sourceStatusUpdate id actor q kind authority ledger = .ok (true, next, result)) :
    ledger.operations.get? q.operationID = none ∧ ∃ record token c stream,
      StatusDecided call ledger next id actor q kind authority result record token c stream := by
  simp only [sourceStatusUpdate, bind_eq_ok] at h
  obtain ⟨_, _, recovered, hrec, h⟩ := h
  cases recovered with
  | some r => cases h
  | none => exact ⟨call.recovered_none hrec, (sourceStatusDecision_eq_ok h).2⟩

section
variable {record : PolicyStoredRecord} {token : Token} {c : StatusChange} {stream : PolicySourceAuthorityStream}

theorem StatusDecided.loop {s : AuthorityLoop} (hq : StatusAdmitted q kind) (ho : Outside call actor ledger)
    (b : PolicyBasis ledger id record s)
    (h : StatusDecided call ledger next id actor q kind authority result record token c stream) :
    ∃ s', authorityLoop c.record (observationsOf c.source) 0 ⟨[], [], [], 0, .deskManaged⟩ stream.events = some s' := by
  have hc := statusChange_valid hq ho b h.drawn h.change
  obtain ⟨s', hs'⟩ := hc.step
  refine ⟨s', ?_⟩
  have hgrow : RecordGrows record c.record (observationsOf (ledger.sources.get? id)) (observationsOf c.source) :=
    ⟨hc.revisions, hc.count, fun _ _ hget => by rw [hc.observations]; exact hget⟩
  rw [h.appended]
  show authorityLoop c.record (observationsOf c.source) 0 _ (_ ++ [c.event]) = some s'
  rw [authorityLoop_snoc, authorityLoop_grows hgrow b.loop]
  exact hs'

theorem StatusDecided.version (hv : LedgerValid ledger)
    (h : StatusDecided call ledger next id actor q kind authority result record token c stream) : stream.version = 1 := by
  rw [h.appended]
  cases hst : ledger.sourceAuthorities.get? id with
  | none => rfl
  | some old =>
    have hall := hv.sourceAuthorities
    simp only [validatePolicySourceAuthorities, Bool.and_eq_true, Table.all_iff] at hall
    have := hall.2 id old hst
    rw [h.stored] at this
    simp only [validAuthorityStream, Bool.and_eq_true, beq_iff_eq] at this
    simpa using this.1.1.1

theorem StatusDecided.authorities_valid (hv : LedgerValid ledger) (hq : StatusAdmitted q kind)
    (ho : Outside call actor ledger)
    (h : StatusDecided call ledger next id actor q kind authority result record token c stream) :
    validatePolicySourceAuthorities next = true := by
  obtain ⟨s, b⟩ := exists_policyBasis hv h.stored
  have hc := statusChange_valid hq ho b h.drawn h.change
  have hall := hv.sourceAuthorities
  simp only [validatePolicySourceAuthorities, Bool.and_eq_true, Table.all_iff, decide_eq_true_eq] at hall
  have hstreams : next.sourceAuthorities = ledger.sourceAuthorities.set id stream := by
    rw [h.left]
    show c.ledger.sourceAuthorities.set id stream = _
    rw [hc.streams]
  have hpolicies : next.policies = c.ledger.policies := by rw [h.left]
  have hsources : next.sources = c.ledger.sources := by rw [h.left]
  simp only [validatePolicySourceAuthorities, Bool.and_eq_true, Table.all_iff, decide_eq_true_eq]
  have hstream : ∀ k st, next.sourceAuthorities.get? k = some st → ∃ r, next.policies.get? k = some r ∧
      validAuthorityStream r (next.sources.get? k) st = true := by
    intro k st hst
    rw [hstreams, Table.get?_set] at hst
    split at hst
    · rename_i hk
      cases hst
      rw [hk, hpolicies, hsources]
      refine ⟨c.record, hc.policies.1, ?_⟩
      rw [hc.sources.1]
      simp only [validAuthorityStream, Bool.and_eq_true, beq_iff_eq, Bool.not_eq_true', List.isEmpty_eq_false_iff,
        decide_eq_true_eq, Option.isSome_iff_exists]
      refine ⟨⟨⟨h.version hv, ?_⟩, ?_⟩, h.loop hq ho b⟩
      · rw [h.appended]
        simp
      · rw [h.appended]
        simp only [List.length_append, List.length_singleton]
        exact h.room.2
    · rename_i hk
      have hold := hall.2 k st hst
      rw [hpolicies, hsources, hc.policies.2 k hk, hc.sources.2 k hk]
      cases hr : ledger.policies.get? k with
      | none => rw [hr] at hold; cases hold
      | some r => rw [hr] at hold; exact ⟨r, rfl, hold⟩
  refine ⟨Table.size_le_size fun k st hst => ?_, fun k st hst => ?_⟩
  · obtain ⟨r, hr, _⟩ := hstream k st hst
    exact Table.has_eq_true.mpr ⟨r, hr⟩
  · obtain ⟨r, hr, hvalid⟩ := hstream k st hst
    rw [hr]
    exact hvalid

theorem StatusDecided.sources_valid (hv : LedgerValid ledger) (hq : StatusAdmitted q kind)
    (ho : Outside call actor ledger)
    (h : StatusDecided call ledger next id actor q kind authority result record token c stream) :
    validatePolicySources next = true := by
  obtain ⟨s, b⟩ := exists_policyBasis hv h.stored
  have hc := statusChange_valid hq ho b h.drawn h.change
  obtain ⟨hsize, hall⟩ := validatePolicySources_iff.mp hv.sources
  have hpolicies : next.policies = c.ledger.policies := by rw [h.left]
  have hsources : next.sources = c.ledger.sources := by rw [h.left]
  have hkept : ∀ k source, next.sources.get? k = some source → ∃ old, ledger.sources.get? k = some old := by
    intro k source hk
    rw [hsources] at hk
    by_cases hid : k = id
    · rw [hid, hc.sources.1] at hk
      have hobs := hc.observations
      cases hold : ledger.sources.get? id with
      | some old => exact ⟨old, by rw [hid]; exact hold⟩
      | none =>
        exfalso
        -- without a source nothing but the ownership can have been decided
        have hnone : c.source = ledger.sources.get? id ∨ ∃ o, latestObservation (ledger.sources.get? id) = some o := by
          have hch := h.change
          cases kind with
          | setOwnership => obtain ⟨mode, rfl⟩ := statusOwnership_eq_ok hch; exact Or.inl rfl
          | configure => obtain ⟨_, _, _, _, _, rfl⟩ := call.statusConfigure_eq_ok hch; exact Or.inl rfl
          | applyExternal => obtain ⟨_, _, _, _, _, _, rfl⟩ := call.statusApplyExternal_eq_ok hch; exact Or.inl rfl
          | importDraft =>
            obtain ⟨he, _⟩ := call.statusImportDraft_eq_ok hch
            obtain ⟨o, _, hlatest, _⟩ := b.eligible he
            exact Or.inr ⟨o, hlatest⟩
        rcases hnone with heq | ⟨o, hlatest⟩
        · rw [heq, hold] at hk; cases hk
        · rw [hold] at hlatest; cases hlatest
    · rw [hc.sources.2 k hid] at hk
      exact ⟨source, hk⟩
  refine validatePolicySources_iff.mpr ⟨?_, fun k source hk => ?_⟩
  · refine Nat.le_trans (Table.size_le_size (u := ledger.sources) fun k source hk => ?_) hsize
    exact Table.has_eq_true.mpr (hkept k source hk)
  · rw [hsources] at hk
    rw [hpolicies]
    by_cases hid : k = id
    · rw [hid, hc.sources.1] at hk
      exact ⟨c.record, by rw [hid]; exact hc.policies.1, hc.source source hk⟩
    · rw [hc.sources.2 k hid] at hk
      rw [hc.policies.2 k hid]
      exact hall k source hk

/-- An answer is consistent where its stream is: however that is known. -/
theorem StatusDecided.result_valid_of (h : StatusDecided call ledger next id actor q kind authority result record token c stream)
    (hver : stream.version = 1) (hids : (c.record.revisions.map PolicyRevision.id).Nodup)
    (hhead : RevisionForm (policyHead c.record)) {s' : AnsweredLoop}
    (hloop : answeredLoop 0 ⟨[], [], .deskManaged⟩ stream.events = some s') :
    validPolicySourceAuthorityResult result = true := by
  have ha := statusChange_answered hids h.change
  have hone : (⟨1, stream.events⟩ : PolicySourceAuthorityStream) = stream := by rw [← hver]
  have hevents : (policySourceStatusView c.record c.source (some stream) authority).events = stream.events := rfl
  have hlast : stream.events.getLast? = some c.event := by
    rw [h.appended]
    simp
  have hrefs := ha.references (policySourceStatusView c.record c.source (some stream) authority) rfl rfl
  have hrevision : policyAuthorityRevision (some ⟨1, stream.events⟩) = policyAuthorityRevision (some stream) := by rw [hone]
  rw [h.answered]
  unfold validPolicySourceAuthorityResult
  simp only [Call.statusResult, sourceStatusIdentity, hevents, hlast, Option.any_some, ha.kind, ha.actor, hloop, hrefs,
    Bool.and_eq_true, beq_iff_eq, Option.isSome_some, and_true, and_assoc]
  exact ⟨hhead.digest, hhead.ident, hhead.kind, rfl, rfl, rfl, rfl, hrevision.symm, rfl, rfl, rfl, rfl, rfl, rfl, rfl⟩

theorem StatusDecided.result_valid (hv : LedgerValid ledger) (hq : StatusAdmitted q kind)
    (ho : Outside call actor ledger)
    (h : StatusDecided call ledger next id actor q kind authority result record token c stream) :
    validPolicySourceAuthorityResult result = true := by
  obtain ⟨s, b⟩ := exists_policyBasis hv h.stored
  have hc := statusChange_valid hq ho b h.drawn h.change
  obtain ⟨s', hs'⟩ := h.loop hq ho b
  have hobs : ∀ o ∈ observationsOf c.source, validSourceObservation o = true := by
    rw [hc.observations]
    exact b.observations
  have hrev := statusChange_revisions b.valid h.change
  have hids := statusChange_revisionIDs ho b.stored b.valid h.change
  exact h.result_valid_of (h.version hv) hids (hrev _ (policyHead_statusChange b.valid hids h.change))
    (answeredLoop_of_authorityLoop hobs hrev hs')

end

end

end

end Desk
