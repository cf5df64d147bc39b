import Desk.Execution.Registration

/-!
# What a registration or a prepared intent does

One lemma an operation: all it can change, with every check it has made on the
release, the adoption, the request and the limits.
-/

namespace Desk

theorem artifactReference_valid {raw : List UInt8} (h : raw.length ≤ retainedArtifactByteLimit) :
    (artifactReference raw).valid = true := by
  simp only [RetainedArtifactRef.valid, artifactReference, Bool.and_eq_true]
  exact ⟨digestOf_form raw, decide_eq_true h⟩

namespace ExecutionCall

theorem retain_eq_ok {c : ExecutionCall} {raw : List UInt8} {ref : RetainedArtifactRef} (h : c.retain raw = .ok ref) :
    ref = artifactReference raw ∧ raw.length ≤ retainedArtifactByteLimit := by
  unfold retain at h
  split at h
  · rename_i ref' hput
    cases h; exact Call.put_eq_ok hput
  · cases h

/-! ## The release of a registration -/

/-- What is known of a resource, its retained release and its material. -/
structure Released (c : ExecutionCall) (q : PolicyExecutionRegisterRequest) (resource : PolicyExecutionResource)
    (release : RetainedArtifactRef) (material : PolicyExecutionReleaseMaterial) : Prop where
  resourceForm : resource.valid = true
  job : resource.jobID = q.jobID
  releaseForm : release.valid = true
  releaseBytes : release.bytes ≤ 8 * 2 ^ 20
  digest : resource.releaseDigest = "sha256:" ++ release.sha256
  pack : material.pack.length ≤ 2 ^ 20
  runtime : policyExecutionDigest material.runtimeDigest = true

theorem validateExecutionRelease_eq_some {lower : Char → Char} {v : PolicyExecutionResolvedRelease}
    {identity : PolicyExecutionIdentity} {material : PolicyExecutionReleaseMaterial}
    (h : validateExecutionRelease lower v identity = some material) :
    v.resource.valid = true ∧ v.bytes.length ≤ 8 * 2 ^ 20 ∧ v.resource.releaseDigest = "sha256:" ++ digestOf v.bytes ∧
      material.pack.length ≤ 2 ^ 20 ∧ policyExecutionDigest material.runtimeDigest = true := by
  unfold validateExecutionRelease at h
  split at h
  · cases h
  · rename_i hv
    simp only [Bool.or_eq_true, bne_iff_ne, ne_eq, Bool.not_eq_true', decide_eq_true_eq, not_or, not_not,
      Bool.not_eq_false, Nat.not_lt] at hv
    obtain ⟨⟨⟨⟨_, hres⟩, _⟩, hlen⟩, hdigest⟩ := hv
    split at h
    · cases h
    · simp only at h
      split at h
      · rename_i hm
        simp only [Bool.and_eq_true, decide_eq_true_eq] at hm
        obtain ⟨⟨⟨⟨⟨⟨⟨⟨⟨⟨⟨_, _⟩, _⟩, hpack⟩, _⟩, _⟩, _⟩, _⟩, _⟩, _⟩, hrun⟩, _⟩ := hm
        cases h
        exact ⟨hres, hlen, hdigest, hpack, hrun⟩
      · cases h

theorem resolvedRelease_eq_ok {c : ExecutionCall} {q : PolicyExecutionRegisterRequest}
    {resolve : String → Except GoError PolicyExecutionResolvedRelease} {resource : PolicyExecutionResource}
    {release : RetainedArtifactRef} {material : PolicyExecutionReleaseMaterial}
    (h : c.resolvedRelease q resolve = .ok (resource, release, material)) : Released c q resource release material := by
  simp only [resolvedRelease, bind_eq_ok, found_eq_ok, require_eq_ok, beq_iff_eq] at h
  obtain ⟨v, _, m, hm, _, hjob, ref, hput, h⟩ := h
  cases h
  obtain ⟨hres, hlen, hdigest, hpack, hrun⟩ := validateExecutionRelease_eq_some hm
  obtain ⟨rfl, hlimit⟩ := retain_eq_ok hput
  exact ⟨hres, hjob, artifactReference_valid hlimit, hlen, hdigest, hpack, hrun⟩

/-! ## Registration -/

/-- A resource registered for the first time. -/
structure NewResource (c : ExecutionCall) (l : PolicyLedger) (e : PolicyExecutionState) (now : String)
    (q : PolicyExecutionRegisterRequest) (material : PolicyExecutionReleaseMaterial)
    (resolve : PolicyLedger → String → String → Except GoError PolicyExecutionAdoption)
    (r : PolicyExecutionRegisteredResource) : Prop where
  first : e.resources.get? (executionResourceID c.identity q.jobID) = none
  operation : e.registrationOperations.get? q.operationID = none
  limits : e.resources.size < policyExecutionResourceLimit ∧ e.registrationOperations.size < policyOperationLimit
  resolved : resolve l q.adoptionID q.reviewID = .ok r.content.adoption
  retained : c.retainedAdoption l r.content.adoption = true
  adopted : r.content.adoption.id = q.adoptionID ∧ r.content.adoption.review.id = q.reviewID
  pack : r.content.adoption.content.basis.pack.content = artifactReference material.pack ∧
    r.content.adoption.content.basis.pack.artifactID = material.packID ∧
    r.content.adoption.content.basis.pack.version = material.packVersion
  content : r.content = ⟨executionResourceID c.identity q.jobID, r.content.resource, r.content.release,
    artifactReference material.pack, material.packID, material.packVersion, material.runtimeDigest, r.content.adoption,
    policyExecutionLifecycle, executionCaller c.identity, now⟩
  registration : r.registration = ⟨"1", executionHash r.content.toJson⟩
  eligible : c.eligible l r now = .eligible

/-- The state with one more resource. -/
def withResource (e : PolicyExecutionState) (q : PolicyExecutionRegisterRequest) (digest id : String)
    (r : PolicyExecutionRegisteredResource) : PolicyExecutionState :=
  { e with
    resources := e.resources.set id r
    registrationOperations := e.registrationOperations.set q.operationID ⟨digest, id⟩ }

theorem registered_eq_ok {e next : PolicyExecutionState} {receipt : PolicyExecutionRegistrationReceipt} {digest : String}
    {changed : Bool} {answer : Except GoError PolicyExecutionRegisteredResult}
    (h : registered e receipt digest = .ok (changed, next, answer)) : changed = false ∧ next = e := by
  simp only [registered, bind_eq_ok] at h
  obtain ⟨_, _, h⟩ := h
  cases h
  exact ⟨rfl, rfl⟩

theorem registeredUse_eq_ok {c : ExecutionCall} {q : PolicyExecutionRegisterRequest} {l : PolicyLedger}
    {e next : PolicyExecutionState} {now : String} {changed : Bool}
    {answer : Except GoError PolicyExecutionRegisteredResult}
    (h : c.registeredUse q l e now = .ok (changed, next, answer)) : changed = false ∧ next = e := by
  simp only [registeredUse, bind_eq_ok] at h
  obtain ⟨_, _, h⟩ := h
  exact registered_eq_ok h

theorem registerUse_eq_ok {c : ExecutionCall} {q : PolicyExecutionRegisterRequest} {resource : PolicyExecutionResource}
    {release : RetainedArtifactRef} {material : PolicyExecutionReleaseMaterial}
    {resolve : PolicyLedger → String → String → Except GoError PolicyExecutionAdoption} {l : PolicyLedger}
    {e next : PolicyExecutionState} {now : String} {changed : Bool}
    {answer : Except GoError PolicyExecutionRegisteredResult}
    (h : c.registerUse q resource release material resolve l e now = .ok (changed, next, answer)) :
    (changed = false ∧ next = e) ∨ changed = true ∧ ∃ r, NewResource c l e now q material resolve r ∧
      r.content.resource = resource ∧ r.content.release = release ∧
      next = withResource e q (registerDigest c.identity q) (executionResourceID c.identity q.jobID) r := by
  unfold registerUse at h
  split at h
  · exact Or.inl (registered_eq_ok h)
  · rename_i hop
    -- identities and digests are compared as they stand
    generalize hid : executionResourceID c.identity q.jobID = id
    generalize hd : registerDigest c.identity q = digest at h ⊢
    simp only [newRegistration, hid, hd, bind_eq_ok, found_eq_ok, require_eq_ok, Bool.and_eq_true, beq_iff_eq, decide_eq_true_eq,
      Option.isNone_iff_eq_none] at h
    obtain ⟨_, hfirst, _, hlimits, adoption, hres, _, hret, _, ⟨⟨⟨⟨ha, hr⟩, hp⟩, hpi⟩, hpv⟩, _, hel, h⟩ := h
    cases h
    have hresolved : resolve l q.adoptionID q.reviewID = .ok adoption := by
      cases hr' : resolve l q.adoptionID q.reviewID with
      | error e => rw [hr'] at hres; cases hres
      | ok a => rw [hr'] at hres; cases hres; rfl
    refine Or.inr ⟨rfl, _, ⟨?_, hop, hlimits, hresolved, hret, ⟨ha, hr⟩, ⟨hp, hpi, hpv⟩, ?_, rfl, hel⟩, rfl, rfl, rfl⟩
    · rw [hid]; exact hfirst
    · rw [hid]

/-! ## Intents -/

/-- The parts of a request are retained and no larger than a request may be. -/
structure RetainedParts (refs : RetainedRequest) : Prop where
  request : refs.request.valid = true ∧ refs.request.bytes ≤ 2 * 2 ^ 20
  facts : refs.facts.valid = true ∧ refs.facts.bytes ≤ 2 * 2 ^ 20
  evidence : ∀ ref, refs.evidence = some ref → ref.valid = true ∧ ref.bytes ≤ 2 * 2 ^ 20

theorem requestBody_eq_ok {c : ExecutionCall} {raw : List UInt8} {body : RequestBody} (h : c.requestBody raw = .ok body) :
    raw.length ≤ 2 * 2 ^ 20 ∧ body.facts.length ≤ raw.length ∧ ∀ v, body.evidence = some v → v.length ≤ raw.length := by
  simp only [requestBody, bind_eq_ok, found_eq_ok, require_eq_ok, Bool.and_eq_true, decide_eq_true_eq] at h
  obtain ⟨_, ⟨⟨_, hlen⟩, _⟩, members, hmembers, facts, hfacts, _, _, h⟩ := h
  cases h
  obtain ⟨chars, hchars, hraw⟩ := Option.bind_eq_some_iff.mp hmembers
  have bound : ∀ name text, members.lookup name = some text → (bytesOf (String.ofList text)).length ≤ raw.length := by
    intro name text hl
    obtain ⟨before, after, hm, _⟩ := List.lookup_eq_some_iff.mp hl
    rw [length_bytesOf, ← Json.length_charsOf hchars]
    exact len_ofList_le (Json.rawMembers_sublist hraw (name, text) (by rw [hm]; simp))
  refine ⟨hlen, bound _ _ hfacts, fun v hv => ?_⟩
  obtain ⟨text, ht, rfl⟩ := Option.map_eq_some_iff.mp hv
  exact bound _ _ ht

theorem retainOptional_eq_ok {c : ExecutionCall} {raw : Option (List UInt8)} {ref : Option RetainedArtifactRef}
    (h : c.retainOptional raw = .ok ref) : ∀ r, ref = some r → ∃ v, raw = some v ∧ c.retain v = .ok r := by
  intro r hr
  subst hr
  cases raw with
  | none => cases h
  | some v =>
    simp only [retainOptional, bind_eq_ok] at h
    obtain ⟨ref, href, h⟩ := h
    cases h
    exact ⟨v, rfl, href⟩

theorem retainRequest_eq_ok {c : ExecutionCall} {raw : List UInt8} {body : RequestBody} {refs : RetainedRequest}
    (hbody : c.requestBody raw = .ok body) (h : c.retainRequest raw body = .ok refs) : RetainedParts refs := by
  simp only [retainRequest, bind_eq_ok] at h
  obtain ⟨request, hrequest, facts, hfacts, evidence, hevidence, h⟩ := h
  cases h
  obtain ⟨hraw, hf, he⟩ := requestBody_eq_ok hbody
  have part : ∀ v ref, c.retain v = .ok ref → v.length ≤ raw.length → ref.valid = true ∧ ref.bytes ≤ 2 * 2 ^ 20 := by
    intro v ref hretain hv
    obtain ⟨rfl, hlimit⟩ := retain_eq_ok hretain
    exact ⟨artifactReference_valid hlimit, hv.trans hraw⟩
  refine ⟨part _ _ hrequest le_rfl, part _ _ hfacts hf, fun ref hr => ?_⟩
  obtain ⟨v, hv, hretain⟩ := retainOptional_eq_ok hevidence ref hr
  exact part _ _ hretain (he v hv)

/-- An intent prepared for the first time. -/
structure NewIntent (c : ExecutionCall) (l : PolicyLedger) (e : PolicyExecutionState) (now : String)
    (resource : PolicyExecutionResource) (registration : PolicyExecutionRegistration) (key : String)
    (refs : RetainedRequest) (i : PolicyExecutionIntent) (r : PolicyExecutionRegisteredResource) : Prop where
  first : e.intents.get? i.id = none
  limit : e.intents.size < policyExecutionIntentLimit
  registered : e.resources.get? i.resourceID = some r
  sameResource : r.content.resource = resource
  sameRegistration : r.registration = registration
  intent : i = ⟨executionIntentID c.identity resource.jobID key, executionResourceID c.identity resource.jobID,
    executionCaller c.identity, key, resource, registration, refs.request, refs.facts, refs.evidence, now⟩
  eligible : c.eligible l r now = .eligible

theorem prepareIntentUse_eq_ok {c : ExecutionCall} {resource : PolicyExecutionResource}
    {registration : PolicyExecutionRegistration} {key : String} {refs : RetainedRequest} {l : PolicyLedger}
    {e next : PolicyExecutionState} {now : String} {changed : Bool}
    {answer : Except GoError (PolicyExecutionIntent × Delivery)}
    (h : c.prepareIntentUse resource registration key refs l e now = .ok (changed, next, answer)) :
    (changed = false ∧ next = e) ∨ changed = true ∧ ∃ i r, NewIntent c l e now resource registration key refs i r ∧
      next = { e with intents := e.intents.set i.id i } := by
  unfold prepareIntentUse at h
  simp only at h
  split at h
  · simp only [bind_eq_ok] at h
    obtain ⟨_, _, h⟩ := h
    cases h
    exact Or.inl ⟨rfl, rfl⟩
  · rename_i hfirst
    generalize hid : executionIntentID c.identity resource.jobID key = id at h hfirst
    generalize hrid : executionResourceID c.identity resource.jobID = rid at h
    generalize hcaller : executionCaller c.identity = caller at h
    simp only [bind_eq_ok, found_eq_ok, require_eq_ok, Bool.and_eq_true, beq_iff_eq, decide_eq_true_eq] at h
    obtain ⟨r, hr, _, ⟨hres, hreg⟩, _, hlimit, _, hel, h⟩ := h
    cases h
    refine Or.inr ⟨rfl, ⟨id, rid, caller, key, resource, registration, refs.request, refs.facts, refs.evidence, now⟩, r,
      ⟨hfirst, hlimit, hr, hres, hreg, ?_, hel⟩, rfl⟩
    rw [hid, hrid, hcaller]

end ExecutionCall

end Desk
