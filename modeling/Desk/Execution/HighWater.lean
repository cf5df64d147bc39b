import Desk.Ledger.Repository

/-!
# The high water of time

Under execution authority every command runs on the ledger with its own reading
as `lastTime`. A command that is denied keeps the reading and nothing else.
-/

namespace Desk

def executionFailure (code : String) : PolicyFailure :=
  policyRefusal 409 code ("Manual execution authority refused this operation (" ++ code ++ ").")

/-- The ledger with `now` as its high water, if it keeps one. -/
def PolicyLedger.observed (l : PolicyLedger) (now : String) : PolicyLedger :=
  { l with execution := l.execution.map fun e => { e with lastTime := now } }

theorem PolicyLedger.observed_of_none {l : PolicyLedger} (h : l.execution = none) (now : String) : l.observed now = l := by
  cases l
  cases h
  rfl

@[simp] theorem PolicyLedger.observed_policies (l : PolicyLedger) (now : String) :
    (l.observed now).policies = l.policies := rfl

@[simp] theorem PolicyLedger.observed_lifecycles (l : PolicyLedger) (now : String) :
    (l.observed now).lifecycles = l.lifecycles := rfl

@[simp] theorem PolicyLedger.observed_sourceAuthorities (l : PolicyLedger) (now : String) :
    (l.observed now).sourceAuthorities = l.sourceAuthorities := rfl

@[simp] theorem PolicyLedger.observed_execution (l : PolicyLedger) (now : String) :
    (l.observed now).execution = l.execution.map fun e => { e with lastTime := now } := rfl

/-- What a command run on `l.observed now` comes to. An error is a denial that changes nothing else; an answer
may still be a denial after a change. -/
def observe {α : Type} (outcome : Except GoError (Bool × PolicyLedger × Except GoError α)) (e : PolicyExecutionState)
    (now : String) (l : PolicyLedger) : Bool × PolicyLedger × Except GoError α :=
  match outcome with
  | .error denial => (decide (e.lastTime < now), l.observed now, .error denial)
  | .ok (changed, next, answer) => (decide (e.lastTime < now) || changed, next, answer)

/-- A transaction whose function answers with a denial of its own. -/
def Storage.command {α : Type} (s : Storage) (use : Transaction (Except GoError α)) (l : PolicyLedger) :
    Except GoError α × PolicyLedger :=
  match s.update use l with
  | (.error e, l') => (.error e, l')
  | (.ok answer, l') => (answer, l')

theorem observe_cases {α : Type} {outcome : Except GoError (Bool × PolicyLedger × Except GoError α)}
    {e : PolicyExecutionState} {now : String} {l next : PolicyLedger} {changed : Bool} {answer : Except GoError α}
    (h : observe outcome e now l = (changed, next, answer)) :
    (next = l.observed now ∧ ∃ denial, answer = .error denial) ∨ ∃ used, outcome = .ok (used, next, answer) := by
  unfold observe at h
  split at h
  · rename_i denial
    cases h; exact Or.inl ⟨rfl, denial, rfl⟩
  · rename_i used next' answer'
    cases h; exact Or.inr ⟨used, rfl⟩

/-- Everything a deciding transaction can do. -/
theorem Storage.command_cases {α : Type} {s : Storage} {use : Transaction (Except GoError α)} {l l' : PolicyLedger}
    {r : Except GoError α} (h : s.command use l = (r, l')) :
    (l' = l ∧ ((∃ e, r = .error e) ∨ ∃ next, use l = .ok (false, next, r))) ∨
      ∃ next answer, use l = .ok (true, next, answer) ∧ validatePolicyLedger next = true ∧ l' = next.committed ∧
        (r = answer ∨ ∃ e, r = .error e) := by
  unfold Storage.command at h
  cases hu : s.update use l with
  | mk r₀ l₀ =>
    rw [hu] at h
    rcases update_cases hu with ⟨e, rfl, rfl⟩ | ⟨next, answer, hok, rfl, rfl⟩ | ⟨next, answer, hok, hv, rfl, hr⟩
    · cases h; exact Or.inl ⟨rfl, Or.inl ⟨e, rfl⟩⟩
    · cases h; exact Or.inl ⟨rfl, Or.inr ⟨next, hok⟩⟩
    · rcases hr with rfl | ⟨e, rfl⟩
      · cases h; exact Or.inr ⟨next, _, hok, hv, rfl, Or.inl rfl⟩
      · cases h; exact Or.inr ⟨next, answer, hok, hv, rfl, Or.inr ⟨e, rfl⟩⟩

theorem Storage.command_size {α : Type} {s : Storage} {use : Transaction (Except GoError α)} {l l' : PolicyLedger}
    {r : Except GoError α} (h : s.command use l = (r, l')) : l' = l ∨ l'.toJson.marshal.length ≤ policyLedgerLimit := by
  unfold Storage.command at h
  cases hu : s.update use l with
  | mk r₀ l₀ =>
    rw [hu] at h
    have hsize := update_size hu
    cases r₀ <;> cases h <;> exact hsize

end Desk
