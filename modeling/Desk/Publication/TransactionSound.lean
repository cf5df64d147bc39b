import Desk.Publication.SnapshotSound
import Desk.Publication.Lock

/-!
# What a transaction enters

A candidate whose versions were checked is later than what is published, and
the ledger a transaction has is the one on disk.
-/

namespace Desk

namespace Publication

open Saves

variable {e : Tools} {o : Outside}

/-! ## Versions -/

/-- The answers had are the Runtime's. -/
def Answered (rt : Runtime) (checked : Checked) : Prop :=
  ∀ key answer, checked.lookup key = some answer →
    ∃ base candidate, key = base ++ "/" ++ candidate ∧ rt.compare base candidate = some answer

theorem answered_nil (rt : Runtime) : Answered rt [] := nofun

/-- Two pairs that are joined alike are one, where one is of versions. -/
theorem joined_inj {base candidate base' candidate' : String} (hb : '/' ∉ base'.toList) (hc : '/' ∉ candidate'.toList)
    (h : base ++ "/" ++ candidate = base' ++ "/" ++ candidate') : base = base' ∧ candidate = candidate' := by
  have hl : base'.toList ++ '/' :: candidate'.toList = base.toList ++ '/' :: candidate.toList := by
    have := congrArg String.toList h
    simpa using this.symm
  obtain ⟨h₁, _, h₂⟩ := (List.append_cons_inj_of_notMem hb hc).mp hl
  exact ⟨String.toList_inj.mp h₁.symm, String.toList_inj.mp h₂.symm⟩

theorem compareVersions_spec {rt : Runtime} {checked checked' : Checked} (hk : Answered rt checked) {base candidate : String}
    {answer : Comparison} (h : compareVersions rt checked base candidate = .ok (answer, checked')) :
    rt.compare base candidate = some answer ∧ Answered rt checked' := by
  unfold compareVersions at h
  simp only at h
  split at h
  · next a ha =>
    cases h
    obtain ⟨b, c, hkey, hbc⟩ := hk _ _ ha
    have hv := rt.version b c _ hbc
    obtain ⟨rfl, rfl⟩ := joined_inj hv.1 hv.2 hkey
    exact ⟨hbc, hk⟩
  · split_ifs at h
    split at h
    · cases h
    · next a ha =>
      cases h
      refine ⟨ha, ?_⟩
      intro key answer hl
      rw [List.lookup_cons] at hl
      split at hl
      · next heq =>
        cases hl
        exact ⟨base, candidate, by simpa using heq, ha⟩
      · exact hk key answer hl

theorem checkFloor_spec {rt : Runtime} {candidate : PublishedDocument} {bases : List PublishedDocument} {checked checked' : Checked}
    (hk : Answered rt checked) (h : checkFloor rt candidate bases checked = .ok checked') :
    (∀ saved ∈ bases, rt.compare saved.version candidate.version = some .greater) ∧ Answered rt checked' := by
  induction bases generalizing checked with
  | nil =>
    cases h
    exact ⟨nofun, hk⟩
  | cons saved rest ih =>
    unfold checkFloor at h
    obtain ⟨⟨answer, checked₁⟩, hcmp, h⟩ := bind_eq_ok.mp h
    obtain ⟨hans, hk₁⟩ := compareVersions_spec hk hcmp
    simp only at h
    split_ifs at h with hne
    · cases h
    · obtain ⟨hrest, hk'⟩ := ih hk₁ h
      refine ⟨?_, hk'⟩
      intro s hs
      rcases List.mem_cons.mp hs with rfl | hs
      · rw [hans, not_not.mp hne]
      · exact hrest s hs

/-- What a publication newly publishes is later than every version of its artifact in `items`. -/
def Later (rt : Runtime) (items : List ArtifactPublication) (p : ArtifactPublication) : Prop :=
  ∀ d ∈ p.documents, knownDocument items d = false → ∀ saved ∈ documentsOf items, saved.sameArtifact d = true →
    rt.compare saved.version d.version = some .greater

theorem checkDocument_spec {rt : Runtime} {p : Transaction} {candidate : PublishedDocument} {checked checked' : Checked}
    (hk : Answered rt checked) (h : checkDocument rt p candidate checked = .ok checked') :
    (knownDocument p.ledger.items candidate = false → ∀ saved ∈ documentsOf p.ledger.items, saved.sameArtifact candidate = true →
      rt.compare saved.version candidate.version = some .greater) ∧ Answered rt checked' := by
  unfold checkDocument at h
  obtain ⟨⟨self, checked₁⟩, hself, h⟩ := bind_eq_ok.mp h
  have hk₁ := (compareVersions_spec hk hself).2
  simp only at h
  by_cases hequal : self ≠ .equal
  · rw [if_pos hequal] at h
    cases h
  rw [if_neg hequal] at h
  by_cases hadopted : (knownDocument p.ledger.items candidate && (replacedBy p.base candidate).isEmpty) = true
  · rw [if_pos hadopted] at h
    cases h
    rw [Bool.and_eq_true] at hadopted
    exact ⟨fun hn => absurd hadopted.1 (by simp [hn]), hk₁⟩
  rw [if_neg hadopted] at h
  obtain ⟨hall, hk'⟩ := checkFloor_spec hk₁ h
  refine ⟨fun hn saved hs ha => hall saved ?_, hk'⟩
  rw [if_neg (by simp [hn])]
  exact List.mem_filter.mpr ⟨hs, ha⟩

theorem checkDocuments_spec {rt : Runtime} {p : Transaction} {docs : List PublishedDocument} {checked : Checked}
    (hk : Answered rt checked) (h : checkDocuments rt p docs checked = .ok ()) :
    ∀ d ∈ docs, knownDocument p.ledger.items d = false → ∀ saved ∈ documentsOf p.ledger.items, saved.sameArtifact d = true →
      rt.compare saved.version d.version = some .greater := by
  induction docs generalizing checked with
  | nil => nofun
  | cons d rest ih =>
    unfold checkDocuments at h
    obtain ⟨checked₁, hd, h⟩ := bind_eq_ok.mp h
    obtain ⟨hone, hk₁⟩ := checkDocument_spec hk hd
    intro d' hd'
    rcases List.mem_cons.mp hd' with rfl | hd'
    · exact hone
    · exact ih hk₁ h d' hd'

theorem later_of_checked {rt : Runtime} {p : Transaction} (h : checkPublicationVersions rt p = .ok ()) :
    Later rt p.ledger.items p.candidate := checkDocuments_spec (answered_nil rt) h

end Publication

end Desk
