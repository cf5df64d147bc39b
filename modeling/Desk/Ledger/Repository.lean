import Desk.Ledger.Failure
import Desk.Execution.Validate

/-!
# The ledger repository

A transaction runs one function on the current ledger and commits what it
leaves, whole, or nothing. What the storage does around it is an input.
-/

namespace Desk

/-- The storage around one transaction: it may refuse before the function runs, or answer with an error of
its own afterwards, a commit having taken effect (`took`) or not. -/
structure Storage where
  before : Option GoError
  after : Option (GoError × Bool)

/-- The function of a transaction: whether it asks for a commit, the ledger it leaves, and what it answers. -/
abbrev Transaction (α : Type) : Type := PolicyLedger → Except GoError (Bool × PolicyLedger × α)

/-- A committed ledger as it is read again. -/
def PolicyLedger.committed (l : PolicyLedger) : PolicyLedger := { l with authorityRevision := digestOf l.toJson.marshal }

@[simp] theorem PolicyLedger.committed_policies (l : PolicyLedger) : l.committed.policies = l.policies := rfl

@[simp] theorem PolicyLedger.committed_lifecycles (l : PolicyLedger) : l.committed.lifecycles = l.lifecycles := rfl

@[simp] theorem PolicyLedger.committed_sourceAuthorities (l : PolicyLedger) :
    l.committed.sourceAuthorities = l.sourceAuthorities := rfl

@[simp] theorem PolicyLedger.committed_execution (l : PolicyLedger) : l.committed.execution = l.execution := rfl

theorem validatePolicyLedger_committed (l : PolicyLedger) : validatePolicyLedger l.committed = validatePolicyLedger l :=
  rfl

namespace Storage

def answer {α : Type} (s : Storage) (own : Except GoError α) : Except GoError α :=
  match s.after with
  | some (e, _) => .error e
  | none => own

def view {α : Type} (s : Storage) (use : PolicyLedger → Except GoError α) (l : PolicyLedger) : Except GoError α :=
  match s.before with
  | some e => .error e
  | none => s.answer (use l)

def update {α : Type} (s : Storage) (use : Transaction α) (l : PolicyLedger) : Except GoError α × PolicyLedger :=
  match s.before with
  | some e => (.error e, l)
  | none => match use l with
    | .error e => (s.answer (.error (.refusal (policyBeforeCommitFailure e))), l)
    | .ok (false, _, a) => (s.answer (.ok a), l)
    | .ok (true, next, a) =>
      if !validatePolicyLedger next then (s.answer (.error (.refusal (policyBeforeCommitFailure .other))), l)
      else if policyLedgerLimit < next.toJson.marshal.length then
        (s.answer (.error (.refusal (policyRefusal 409 "storage-capacity"
          "Policy storage has reached its supported capacity."))), l)
      else match s.after with
        | some (e, took) => (.error e, if took then next.committed else l)
        | none => (.ok a, next.committed)

/-- Everything an update can do. -/
theorem update_cases {α : Type} {s : Storage} {use : Transaction α} {l l' : PolicyLedger} {r : Except GoError α}
    (h : s.update use l = (r, l')) :
    (∃ e, r = .error e ∧ l' = l) ∨
      (∃ next a, use l = .ok (false, next, a) ∧ r = .ok a ∧ l' = l) ∨
      ∃ next a, use l = .ok (true, next, a) ∧ validatePolicyLedger next = true ∧ l' = next.committed ∧
        (r = .ok a ∨ ∃ e, r = .error e) := by
  unfold update at h
  split at h
  · cases h; exact Or.inl ⟨_, rfl, rfl⟩
  · split at h
    · cases h
      refine Or.inl ?_
      unfold answer
      split <;> exact ⟨_, rfl, rfl⟩
    · rename_i next a hu
      cases h
      unfold answer
      split
      · exact Or.inl ⟨_, rfl, rfl⟩
      · exact Or.inr (Or.inl ⟨next, a, hu, rfl, rfl⟩)
    · rename_i next a hu
      have refused : ∀ e, ∃ e', s.answer (.error e : Except GoError α) = .error e' := by
        intro e
        unfold answer
        split <;> exact ⟨_, rfl⟩
      split at h
      · cases h
        obtain ⟨e, he⟩ := refused (.refusal (policyBeforeCommitFailure .other))
        exact Or.inl ⟨e, he, rfl⟩
      · rename_i hv
        split at h
        · cases h
          obtain ⟨e, he⟩ := refused (.refusal (policyRefusal 409 "storage-capacity"
            "Policy storage has reached its supported capacity."))
          exact Or.inl ⟨e, he, rfl⟩
        · have hv : validatePolicyLedger next = true := by simpa using hv
          split at h
          · rename_i e took _
            cases took with
            | false => cases h; exact Or.inl ⟨e, rfl, rfl⟩
            | true => cases h; exact Or.inr (Or.inr ⟨next, a, hu, hv, rfl, Or.inr ⟨e, rfl⟩⟩)
          · cases h; exact Or.inr (Or.inr ⟨next, a, hu, hv, rfl, Or.inl rfl⟩)

/-- Nothing above the limit is committed. -/
theorem update_size {α : Type} {s : Storage} {use : Transaction α} {l l' : PolicyLedger} {r : Except GoError α}
    (h : s.update use l = (r, l')) : l' = l ∨ l'.toJson.marshal.length ≤ policyLedgerLimit := by
  unfold update at h
  split at h
  · cases h; exact Or.inl rfl
  · split at h
    · cases h; exact Or.inl rfl
    · cases h; exact Or.inl rfl
    · split at h
      · cases h; exact Or.inl rfl
      · split at h
        · cases h; exact Or.inl rfl
        · rename_i hsize
          split at h
          · rename_i took _
            cases took with
            | false => cases h; exact Or.inl rfl
            | true => cases h; exact Or.inr (Nat.le_of_not_lt hsize)
          · cases h; exact Or.inr (Nat.le_of_not_lt hsize)

end Storage

end Desk
