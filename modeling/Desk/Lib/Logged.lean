import Mathlib.Data.List.Basic

/-!
# Logs

A log whose every event is right after the events before it.
-/

namespace Desk

variable {E : Type} {P Q : List E → E → Prop}

/-- Each event of `log` has `P` of the events before it. -/
def Logged (P : List E → E → Prop) (log : List E) : Prop :=
  ∀ past e rest, log = past ++ e :: rest → P past e

theorem Logged.nil : Logged P [] := by
  intro past e rest h
  cases past with
  | nil => cases h
  | cons _ _ => cases h

theorem logged_concat {log : List E} {e : E} : Logged P (log ++ [e]) ↔ Logged P log ∧ P log e := by
  constructor
  · intro h
    refine ⟨?_, h log e [] rfl⟩
    intro past d rest hlog
    apply h past d (rest ++ [e])
    rw [hlog, List.append_assoc, List.cons_append]
  · rintro ⟨hlog, he⟩ past d rest heq
    rcases List.eq_nil_or_concat rest with rfl | ⟨rest, f, rfl⟩
    · obtain ⟨rfl, hd⟩ := List.append_inj' heq rfl
      cases hd
      exact he
    · rw [List.concat_eq_append, ← List.cons_append, ← List.append_assoc] at heq
      obtain ⟨rfl, -⟩ := List.append_inj' heq rfl
      exact hlog past d rest rfl

theorem Logged.mono (h : ∀ past e, P past e → Q past e) {log : List E} (hp : Logged P log) : Logged Q log :=
  fun past e rest heq => h past e (hp past e rest heq)

end Desk
