import Mathlib.Data.List.Basic

/-!
# Runs

A system taking one step after another, each step labelled with all that the
environment chose for it. What every step keeps, every run keeps.
-/

namespace Desk

section
variable {S A : Type} (step : S → A → S)

/-- The state after the steps of `as`. -/
def run (s : S) : List A → S
  | [] => s
  | a :: rest => run (step s a) rest

@[simp] theorem run_nil (s : S) : run step s [] = s := rfl

@[simp] theorem run_cons (s : S) (a : A) (rest : List A) : run step s (a :: rest) = run step (step s a) rest := rfl

theorem run_append (s : S) (as bs : List A) : run step s (as ++ bs) = run step (run step s as) bs := by
  induction as generalizing s with
  | nil => rfl
  | cons a rest ih => exact ih (step s a)

variable {step}

/-- The invariant rule. -/
theorem run_invariant {P : S → Prop} (hstep : ∀ s a, P s → P (step s a)) {s : S} (h : P s) (as : List A) :
    P (run step s as) := by
  induction as generalizing s with
  | nil => exact h
  | cons a rest ih => exact ih (hstep s a h)

/-- What holds between the two ends of every step from a state with the invariant,
and composes, holds between the two ends of a run. -/
theorem run_related {P : S → Prop} {R : S → S → Prop} (hP : ∀ s a, P s → P (step s a))
    (hR : ∀ s a, P s → R s (step s a)) (refl : ∀ s, R s s) (trans : ∀ s t u, R s t → R t u → R s u)
    {s : S} (h : P s) (as : List A) : R s (run step s as) := by
  induction as generalizing s with
  | nil => exact refl s
  | cons a rest ih => exact trans _ _ _ (hR s a h) (ih (hP s a h))

/-- What holds of every step of a run. -/
def Along (step : S → A → S) (p : S → A → Prop) (s : S) : List A → Prop
  | [] => True
  | a :: rest => p s a ∧ Along step p (step s a) rest

instance decidableAlong {p : S → A → Prop} [∀ s a, Decidable (p s a)] : ∀ s as, Decidable (Along step p s as)
  | _, [] => isTrue trivial
  | s, a :: rest =>
    have := decidableAlong (p := p) (step s a) rest
    inferInstanceAs (Decidable (p s a ∧ Along step p (step s a) rest))

theorem Along.mono {p q : S → A → Prop} (h : ∀ s a, p s a → q s a) {s : S} {as : List A} (hp : Along step p s as) :
    Along step q s as := by
  induction as generalizing s with
  | nil => trivial
  | cons a rest ih => exact ⟨h s a hp.1, ih hp.2⟩

theorem Along.and {p q : S → A → Prop} {s : S} {as : List A} (hp : Along step p s as) (hq : Along step q s as) :
    Along step (fun s a => p s a ∧ q s a) s as := by
  induction as generalizing s with
  | nil => trivial
  | cons a rest ih => exact ⟨⟨hp.1, hq.1⟩, ih hp.2 hq.2⟩

theorem Along.split {p : S → A → Prop} {s : S} {as : List A} {a : A} {rest : List A} (h : Along step p s (as ++ a :: rest)) :
    Along step p s as ∧ p (run step s as) a ∧ Along step p (step (run step s as) a) rest := by
  induction as generalizing s with
  | nil => exact ⟨trivial, h.1, h.2⟩
  | cons b as ih =>
    obtain ⟨has, ha, hrest⟩ := ih h.2
    exact ⟨⟨h.1, has⟩, ha, hrest⟩

/-- The invariant rule, of runs whose steps all have `p`. -/
theorem run_invariant_along {P : S → Prop} {p : S → A → Prop} (hstep : ∀ s a, P s → p s a → P (step s a)) {s : S} (h : P s)
    {as : List A} (hp : Along step p s as) : P (run step s as) := by
  induction as generalizing s with
  | nil => exact h
  | cons a rest ih => exact ih (hstep s a h hp.1) hp.2

/-! ## Runs with an end -/

/-- The steps of a run that have `p`. -/
def countAlong (step : S → A → S) (p : S → A → Prop) [∀ s a, Decidable (p s a)] (s : S) : List A → Nat
  | [] => 0
  | a :: rest => (if p s a then 1 else 0) + countAlong step p (step s a) rest

variable {m : S → Nat} {p : S → A → Prop}

/-- A measure no step raises bounds the steps that lower it. -/
theorem countAlong_le [∀ s a, Decidable (p s a)] (hle : ∀ s a, m (step s a) ≤ m s)
    (hlt : ∀ s a, p s a → m (step s a) < m s) (s : S) (as : List A) :
    countAlong step p s as + m (run step s as) ≤ m s := by
  induction as generalizing s with
  | nil => exact Nat.le_of_eq (Nat.zero_add _)
  | cons a rest ih =>
    have hrest := ih (step s a)
    rw [countAlong, run_cons]
    split
    · next hp =>
      have := hlt s a hp
      omega
    · have := hle s a
      omega

/-- A run can be brought to its end by steps that lower the measure, when there is one from every state before it. -/
theorem run_reaches {final : S → Prop} (hlt : ∀ s a, p s a → m (step s a) < m s) (hgo : ∀ s, final s ∨ ∃ a, p s a)
    (s : S) : ∃ as, Along step p s as ∧ final (run step s as) := by
  induction hn : m s using Nat.strongRecOn generalizing s with
  | ind n ih =>
    obtain hfinal | ⟨a, ha⟩ := hgo s
    · exact ⟨[], trivial, hfinal⟩
    · obtain ⟨rest, hrest, hfinal⟩ := ih (m (step s a)) (hn ▸ hlt s a ha) (step s a) rfl
      exact ⟨a :: rest, ⟨ha, hrest⟩, hfinal⟩

end

end Desk
