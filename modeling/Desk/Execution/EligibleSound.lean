import Desk.Execution.Eligible

/-!
# What eligibility stands on

Everything a ledger says of the dependencies of a resource that is eligible.
-/

namespace Desk

/-! ## One dependency -/

/-- `p` carries the dependency at the reading. -/
structure Carried (l : PolicyLedger) (now : String) (d : PolicyAdoptionDependency) (p : PolicyStoredRecord) : Prop where
  stored : l.policies.get? d.selection.policyID = some p
  managed : (policyAuthorityOwnership (l.sourceAuthorities.get? p.id)).owner.mode = .deskManaged
  published : ∃ publication ∈ p.publications, publication.id = d.policyPublicationID
  current : ∀ publication ∈ p.publications, publication.id = d.policyPublicationID →
    policyBoundary p (l.sourceAuthorities.get? p.id) < publication.sequence
  effective : releaseStatus (lifecycleEvents (l.lifecycles.get? p.id)) now d.policyPublicationID = .effective

theorem ReleaseStatus.refusal_eq_none {status : ReleaseStatus} : status.refusal = none ↔ status = .effective := by
  cases status <;> simp [refusal]

theorem ReleaseStatus.refusal_blocked {status : ReleaseStatus} {reason : ExecutionReason}
    (h : status.refusal = some reason) : executionBlockedReason reason = true := by
  cases status <;> cases h <;> rfl

theorem dependencyRefusal_eq_none {l : PolicyLedger} {now : String} {d : PolicyAdoptionDependency}
    (h : dependencyRefusal l now d = none) : ∃ p, Carried l now d p := by
  unfold dependencyRefusal at h
  split at h
  · cases h
  · rename_i p hp
    simp only at h
    split at h
    · cases h
    · rename_i hmode
      split at h
      · cases h
      · rename_i hbelow
        split at h
        · cases h
        · rename_i hempty
          split at h
          · cases h
          · rename_i hrefused
            have hpublished : ∃ publication ∈ p.publications, publication.id = d.policyPublicationID := by
              simpa [List.isEmpty_iff, List.filter_eq_nil_iff] using hempty
            refine ⟨p, hp, not_not.mp hmode, hpublished, ?_, ?_⟩
            · intro publication hmem hid
              refine Nat.lt_of_not_le fun hle => hbelow ?_
              exact List.any_eq_true.mpr ⟨publication, List.mem_filter.mpr ⟨hmem, decide_eq_true hid⟩, decide_eq_true hle⟩
            · obtain ⟨publication, hmem, hid⟩ := hpublished
              rw [List.findSome?_eq_none_iff] at hrefused
              have := hrefused (releaseLifecycle p (lifecycleEvents (l.lifecycles.get? p.id)) now
                (l.sourceAuthorities.get? p.id) publication)
                (List.mem_filter.mpr ⟨List.mem_map.mpr ⟨publication, hmem, rfl⟩, decide_eq_true hid⟩)
              rw [ReleaseStatus.refusal_eq_none] at this
              rw [← hid]
              exact this

theorem dependencyRefusal_blocked {l : PolicyLedger} {now : String} {d : PolicyAdoptionDependency}
    {reason : ExecutionReason} (h : dependencyRefusal l now d = some reason) : executionBlockedReason reason = true := by
  unfold dependencyRefusal at h
  split at h
  · cases h; rfl
  · simp only at h
    split at h
    · cases h; rfl
    · split at h
      · cases h; rfl
      · split at h
        · cases h; rfl
        · split at h
          · rename_i found hfound
            cases h
            obtain ⟨view, _, hview⟩ := List.exists_of_findSome?_eq_some hfound
            exact ReleaseStatus.refusal_blocked hview
          · split at h <;> cases h
            rfl

/-! ## A resource -/

/-- A resource that is eligible: its adoption is retained, and every dependency is carried. -/
structure EligibleResource (call : Call) (l : PolicyLedger) (r : PolicyExecutionRegisteredResource) (now : String) :
    Prop where
  retained : call.retainedAdoption l r.content.adoption = true
  carried : ∀ d ∈ r.content.adoption.content.basis.dependencies, ∃ p, Carried l now d p

theorem eligible_eq_eligible {call : Call} {l : PolicyLedger} {r : PolicyExecutionRegisteredResource} {now : String}
    (h : call.eligible l r now = .eligible) : EligibleResource call l r now := by
  unfold Call.eligible at h
  simp only at h
  split at h
  · cases h
  · rename_i hretained
    split at h
    · split at h
      · cases h
      · split at h
        · cases h
        · refine ⟨by simpa using hretained, fun d hd => ?_⟩
          cases hrefused : r.content.adoption.content.basis.dependencies.findSome? (dependencyRefusal l now) with
          | none => exact dependencyRefusal_eq_none (List.findSome?_eq_none_iff.mp hrefused d hd)
          | some reason =>
            rw [hrefused] at h
            cases h
            obtain ⟨d', _, hd'⟩ := List.exists_of_findSome?_eq_some hrefused
            exact absurd (dependencyRefusal_blocked hd') (by decide)
    · cases h

/-- A resource that is not eligible is refused for a reason that blocks. -/
theorem eligible_blocked {call : Call} {l : PolicyLedger} {r : PolicyExecutionRegisteredResource} {now : String}
    (h : call.eligible l r now ≠ .eligible) : executionBlockedReason (call.eligible l r now) = true := by
  unfold Call.eligible at h ⊢
  simp only at h ⊢
  split
  · rfl
  · rename_i hretained
    rw [if_neg hretained] at h
    split
    · rename_i a hget ha
      rw [hget, ha] at h
      simp only at h
      split
      · rfl
      · rename_i hrecovery
        rw [if_neg hrecovery] at h
        split
        · rfl
        · rename_i hreview
          rw [if_neg hreview] at h
          cases hrefused : r.content.adoption.content.basis.dependencies.findSome? (dependencyRefusal l now) with
          | none => rw [hrefused] at h; exact absurd rfl h
          | some reason =>
            obtain ⟨d, _, hd⟩ := List.exists_of_findSome?_eq_some hrefused
            exact dependencyRefusal_blocked hd
    · rfl

/-! ## The adoption -/

/-- What the ledger's validator says of an adoption that is approved by `review`. -/
structure ApprovedAdoption (l : PolicyLedger) (a : PolicyExecutionAdoption) : Prop where
  idForm : policyAdoptionIDForm a.id = true
  candidateForm : policyAdoptionCandidateIDForm a.candidateID = true
  content : a.contentRef.valid = true
  approved : a.review.decision = .approve
  candidate : a.review.candidateID = a.candidateID
  digest : a.review.candidateDigest = a.contentRef.sha256
  basis : a.review.basisDigest = a.content.basisDigest
  check : a.review.check.any RetainedArtifactRef.valid = true
  count : 1 ≤ a.content.basis.dependencies.length ∧ a.content.basis.dependencies.length ≤ policyAdoptionSetLimit
  dependencies : a.content.basis.dependencies.all (fun d => validAdoptionSelection d.selection &&
    d.source.policyID == d.selection.policyID && d.source.publicationID == d.policyPublicationID) = true

theorem Call.approvedReview_eq_some {r : PolicyAdoptionRecord} {reviewID : String} {review : PolicyAdoptionReview}
    (h : Call.approvedReview r reviewID = some review) :
    review ∈ r.reviews ∧ review.decision = .approve ∧ review.check.isSome = true := by
  rw [Call.approvedReview, Option.filter_eq_some_iff] at h
  obtain ⟨h, hcheck⟩ := h
  obtain ⟨hmem, _⟩ := lastWith_spec h
  rw [List.mem_filter, decide_eq_true_eq] at hmem
  simp only [Bool.and_eq_true] at hcheck
  exact ⟨hmem.1, hmem.2, hcheck.2⟩

theorem validAdoptionReview_of_mem {r : PolicyAdoptionRecord} {review : PolicyAdoptionReview}
    (h : (r.reviews.mapIdx (validAdoptionReview r)).all id = true) (hmem : review ∈ r.reviews) :
    ∃ i, validAdoptionReview r i review = true := by
  obtain ⟨i, hi, rfl⟩ := List.mem_iff_getElem.mp hmem
  refine ⟨i, List.all_eq_true.mp h _ ?_⟩
  rw [List.mem_iff_getElem]
  exact ⟨i, by simpa using hi, List.getElem_mapIdx ..⟩

theorem resolvePolicyExecutionAdoption_eq_ok {call : Call} {l : PolicyLedger} {id reviewID : String}
    {a : PolicyExecutionAdoption} (hv : validatePolicyAdoptions l = true)
    (h : call.resolvePolicyExecutionAdoption l id reviewID = .ok a) : ApprovedAdoption l a := by
  simp only [Call.resolvePolicyExecutionAdoption, bind_eq_ok, found_eq_ok, require_eq_ok, Option.filter_eq_some_iff] at h
  obtain ⟨r, ⟨hr, _⟩, content, hcontent, _, harchived, review, hreview, h⟩ := h
  cases h
  obtain ⟨hmem, happrove, hcheck⟩ := Call.approvedReview_eq_some hreview
  simp only [Call.adoptionContent, bind_eq_ok] at hcontent
  obtain ⟨raw, _, hcontent⟩ := hcontent
  split at hcontent
  · cases hcontent
  · split at hcontent
    · rename_i hvalid
      cases hcontent
      simp only [Bool.and_eq_true, decide_eq_true_eq] at hvalid
      obtain ⟨_, hvalid⟩ := hvalid
      simp only [validatePolicyAdoptions, Bool.and_eq_true] at hv
      have hrecord := Table.all_iff.mp hv.2 id r hr
      simp only [validAdoptionRecord, Bool.and_eq_true, beq_iff_eq] at hrecord
      obtain ⟨⟨⟨⟨⟨⟨⟨⟨⟨⟨⟨⟨⟨⟨⟨_, hid⟩, hidForm⟩, hcandidate⟩, href⟩, _⟩, _⟩, _⟩, _⟩, _⟩, _⟩, hreviews⟩, _⟩, _⟩, _⟩, _⟩ := hrecord
      obtain ⟨i, hi⟩ := validAdoptionReview_of_mem hreviews hmem
      simp only [validAdoptionReview, Bool.and_eq_true, beq_iff_eq] at hi
      obtain ⟨⟨⟨⟨⟨⟨⟨⟨⟨_, _⟩, hrc⟩, hrd⟩, _⟩, _⟩, _⟩, _⟩, _⟩, hchecks⟩ := hi
      simp only [Call.archivedAdoptionContent, Bool.and_eq_true, List.all_eq_true, beq_iff_eq] at harchived
      simp only [validAdoptionContent, Bool.and_eq_true, decide_eq_true_eq, List.all_eq_true] at hvalid
      obtain ⟨⟨⟨⟨⟨⟨⟨_, hlo⟩, hhi⟩, _⟩, _⟩, _⟩, _⟩, hdeps⟩ := hvalid
      refine ⟨by rw [← hid]; exact hidForm, hcandidate, href, happrove, hrc, hrd, harchived.2 _ hmem, ?_, ⟨hlo, hhi⟩, ?_⟩
      · obtain ⟨check, hsome⟩ := Option.isSome_iff_exists.mp hcheck
        rw [hsome] at hchecks ⊢
        simp only [Option.all_some, Bool.and_eq_true] at hchecks
        exact hchecks.1
      · rw [List.all_eq_true]
        intro d hd
        have := hdeps d hd
        simp only [Bool.and_eq_true] at this ⊢
        obtain ⟨⟨⟨⟨⟨⟨⟨⟨⟨⟨⟨⟨⟨hsel, _⟩, _⟩, _⟩, _⟩, _⟩, _⟩, _⟩, _⟩, hpolicy⟩, hpublication⟩, _⟩, _⟩, _⟩ := this
        exact ⟨⟨hsel, hpolicy⟩, hpublication⟩
    · cases hcontent

end Desk
