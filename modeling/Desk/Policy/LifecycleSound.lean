import Desk.Policy.Lifecycle

/-!
# Release status over time

A status is ranked published, effective, superseded, expired, withdrawn. A later
reading of the same stream ranks no release lower, and neither does one more
event that a command may append, dated at or after the reading.
-/

namespace Desk

/-! ## The order of statuses -/

def ReleaseStatus.rank : ReleaseStatus → Nat
  | .published => 0
  | .effective => 1
  | .superseded => 2
  | .expired => 3
  | .withdrawn => 4

instance : LE ReleaseStatus where
  le a b := a.rank ≤ b.rank

theorem ReleaseStatus.le_def {a b : ReleaseStatus} : a ≤ b ↔ a.rank ≤ b.rank := Iff.rfl

instance (a b : ReleaseStatus) : Decidable (a ≤ b) := inferInstanceAs (Decidable (a.rank ≤ b.rank))

theorem ReleaseStatus.le_refl (a : ReleaseStatus) : a ≤ a := Nat.le_refl _

theorem ReleaseStatus.le_trans {a b c : ReleaseStatus} (h : a ≤ b) (h' : b ≤ c) : a ≤ c := Nat.le_trans h h'

theorem ReleaseStatus.le_withdrawn (a : ReleaseStatus) : a ≤ .withdrawn := by cases a <;> decide

/-! ## The parts of a status -/

/-- The status of a release that has not been withdrawn. -/
def unwithdrawnStatus (superseded : Bool) (status : ReleaseStatus) : ReleaseStatus :=
  if superseded && status ≠ .expired then .superseded else status

theorem releaseStatus_eq (events : List PolicyLifecycleEvent) (now publicationID : String) :
    releaseStatus events now publicationID =
      if (withdrawalOf events publicationID).isSome then .withdrawn
      else unwithdrawnStatus (events.any (supersedes events now publicationID))
        (activatedStatus now (activationOf events publicationID)) := rfl

theorem activatedStatus_cases (now : String) (activation : Option PolicyLifecycleEvent) :
    activatedStatus now activation = .published ∨ activatedStatus now activation = .effective ∨
      activatedStatus now activation = .expired := by
  unfold activatedStatus
  cases activation with
  | none => exact Or.inl rfl
  | some event =>
    simp only
    split
    · exact Or.inr (Or.inr rfl)
    · split
      · exact Or.inr (Or.inl rfl)
      · exact Or.inl rfl

theorem unwithdrawnStatus_mono {b b' : Bool} (hb : b = true → b' = true) {now now' : String}
    {activation activation' : Option PolicyLifecycleEvent}
    (h : activatedStatus now activation ≤ activatedStatus now' activation') :
    unwithdrawnStatus b (activatedStatus now activation) ≤ unwithdrawnStatus b' (activatedStatus now' activation') := by
  rcases activatedStatus_cases now activation with h₁ | h₁ | h₁ <;>
    rcases activatedStatus_cases now' activation' with h₂ | h₂ | h₂ <;> rw [h₁, h₂] at h ⊢ <;>
    cases b <;> cases b' <;> first | decide | (exact absurd h (by decide)) | (exact absurd (hb rfl) (by decide))

/-! ## A later reading -/

section
variable {now now' : String} (hnow : now ≤ now')

include hnow

theorem activatedStatus_later (activation : Option PolicyLifecycleEvent) :
    activatedStatus now activation ≤ activatedStatus now' activation := by
  cases activation with
  | none => exact ReleaseStatus.le_refl _
  | some event =>
    unfold activatedStatus
    simp only
    by_cases hx : event.expiresAt ≠ "" ∧ event.expiresAt ≤ now
    · rw [if_pos hx, if_pos ⟨hx.1, le_trans hx.2 hnow⟩]
      exact ReleaseStatus.le_refl _
    · rw [if_neg hx]
      by_cases he : event.effectiveAt ≤ now
      · rw [if_pos he, if_pos (le_trans he hnow)]
        split <;> decide
      · rw [if_neg he]
        split
        · decide
        · split <;> decide

theorem supersedes_later {events : List PolicyLifecycleEvent} {publicationID : String} {event : PolicyLifecycleEvent}
    (h : supersedes events now publicationID event = true) : supersedes events now' publicationID event = true := by
  simp only [supersedes, Bool.and_eq_true, decide_eq_true_eq] at h ⊢
  obtain ⟨⟨⟨ha, hs⟩, he⟩, hw⟩ := h
  exact ⟨⟨⟨ha, hs⟩, le_trans he hnow⟩, hw⟩

theorem releaseStatus_later (events : List PolicyLifecycleEvent) (publicationID : String) :
    releaseStatus events now publicationID ≤ releaseStatus events now' publicationID := by
  rw [releaseStatus_eq, releaseStatus_eq]
  by_cases hw : (withdrawalOf events publicationID).isSome
  · rw [if_pos hw, if_pos hw]
    exact ReleaseStatus.le_refl _
  · rw [if_neg hw, if_neg hw]
    refine unwithdrawnStatus_mono (fun h => ?_) (activatedStatus_later hnow _)
    obtain ⟨event, hmem, hs⟩ := List.any_eq_true.mp h
    exact List.any_eq_true.mpr ⟨event, hmem, supersedes_later hnow hs⟩

end

/-! ## One more event -/

/-- What a command checks of a new event against the stream: a release is activated once at most and
withdrawn once at most, and not activated after it is withdrawn. -/
def FreshDecision (events : List PolicyLifecycleEvent) (event : PolicyLifecycleEvent) : Prop :=
  ∀ e ∈ events, e.publicationID = event.publicationID → e.action ≠ .withdraw ∧ e.action ≠ event.action

section
variable {events : List PolicyLifecycleEvent} {event : PolicyLifecycleEvent}

theorem decisionOf_append_other {action : LifecycleAction} {publicationID : String}
    (h : event.action ≠ action ∨ event.publicationID ≠ publicationID) :
    decisionOf action (events ++ [event]) publicationID = decisionOf action events publicationID := by
  unfold decisionOf
  rw [List.filter_append]
  by_cases ha : event.action = action
  · have hp : event.publicationID ≠ publicationID := h.resolve_left (fun hn => hn ha)
    rw [List.filter_cons_of_pos (by simpa using ha), List.filter_nil]
    exact lastWith_append_ne hp
  · rw [List.filter_cons_of_neg (by simpa using ha), List.filter_nil, List.append_nil]

theorem decisionOf_append_self :
    decisionOf event.action (events ++ [event]) event.publicationID = some event := by
  unfold decisionOf
  rw [List.filter_append, List.filter_cons_of_pos (by simp), List.filter_nil]
  exact lastWith_append_self _ event

theorem decisionOf_eq_none {action : LifecycleAction} {publicationID : String} :
    decisionOf action events publicationID = none ↔ ∀ e ∈ events, e.action = action → e.publicationID ≠ publicationID := by
  unfold decisionOf
  rw [lastWith_eq_none]
  simp only [List.mem_filter, decide_eq_true_eq, and_imp]

theorem decisionOf_spec {action : LifecycleAction} {publicationID : String} {e : PolicyLifecycleEvent}
    (h : decisionOf action events publicationID = some e) :
    e ∈ events ∧ e.action = action ∧ e.publicationID = publicationID := by
  obtain ⟨hmem, hk⟩ := lastWith_spec h
  rw [List.mem_filter, decide_eq_true_eq] at hmem
  exact ⟨hmem.1, hmem.2, hk⟩

variable (hfresh : FreshDecision events event)

include hfresh

theorem decisionOf_kept {action : LifecycleAction} {publicationID : String} {e : PolicyLifecycleEvent}
    (h : decisionOf action events publicationID = some e) :
    decisionOf action (events ++ [event]) publicationID = some e := by
  rw [decisionOf_append_other, h]
  obtain ⟨hmem, ha, hp⟩ := decisionOf_spec h
  by_cases hpub : event.publicationID = publicationID
  · exact Or.inl fun hact => (hfresh e hmem (hp.trans hpub.symm)).2 (ha.trans hact.symm)
  · exact Or.inr hpub

theorem activatedStatus_extended (now publicationID : String) :
    activatedStatus now (activationOf events publicationID) ≤
      activatedStatus now (activationOf (events ++ [event]) publicationID) := by
  cases h : activationOf events publicationID with
  | none =>
    rcases activatedStatus_cases now (activationOf (events ++ [event]) publicationID) with h' | h' | h' <;>
      rw [h'] <;> exact Nat.zero_le _
  | some e =>
    rw [show activationOf (events ++ [event]) publicationID = some e from decisionOf_kept hfresh h]
    exact ReleaseStatus.le_refl _

/-- A withdrawal dated at the reading or later cancels no supersession the reading sees. -/
theorem supersedes_extended {now publicationID : String} (hat : now ≤ event.at_) {e : PolicyLifecycleEvent}
    (h : supersedes events now publicationID e = true) : supersedes (events ++ [event]) now publicationID e = true := by
  simp only [supersedes, Bool.and_eq_true, decide_eq_true_eq] at h ⊢
  obtain ⟨⟨ha, he⟩, hw⟩ := h
  refine ⟨⟨ha, he⟩, ?_⟩
  cases hold : withdrawalOf events e.publicationID with
  | some w =>
    rw [show withdrawalOf (events ++ [event]) e.publicationID = some w from decisionOf_kept hfresh hold]
    rwa [hold] at hw
  | none =>
    by_cases hnew : event.action = .withdraw ∧ event.publicationID = e.publicationID
    · have := @decisionOf_append_self events event
      rw [hnew.1, hnew.2] at this
      rw [show withdrawalOf (events ++ [event]) e.publicationID = some event from this]
      simpa using le_trans he hat
    · rw [not_and_or] at hnew
      rw [show withdrawalOf (events ++ [event]) e.publicationID = none from (decisionOf_append_other hnew).trans hold]
      rfl

/-- No release ranks lower for a fresh event dated at the reading or later. -/
theorem releaseStatus_extended {now : String} (hat : now ≤ event.at_) (publicationID : String) :
    releaseStatus events now publicationID ≤ releaseStatus (events ++ [event]) now publicationID := by
  rw [releaseStatus_eq, releaseStatus_eq]
  cases hw : withdrawalOf events publicationID with
  | some w =>
    rw [show withdrawalOf (events ++ [event]) publicationID = some w from decisionOf_kept hfresh hw]
    exact ReleaseStatus.le_refl _
  | none =>
    by_cases hnew : (withdrawalOf (events ++ [event]) publicationID).isSome
    · rw [if_pos hnew]
      exact ReleaseStatus.le_withdrawn _
    · rw [if_neg hnew, if_neg (by simp)]
      refine unwithdrawnStatus_mono (fun h => ?_) (activatedStatus_extended hfresh now publicationID)
      obtain ⟨e, hmem, hs⟩ := List.any_eq_true.mp h
      exact List.any_eq_true.mpr ⟨e, List.mem_append_left _ hmem, supersedes_extended hfresh hat hs⟩

end

end Desk
