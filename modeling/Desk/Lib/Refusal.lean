import Desk.Lib.Saves

/-!
# Refusals

The two ways a check ends a function: what does not hold is refused, and so is
what is not there.
-/

namespace Desk

variable {ε α : Type}

def refuseWhen (c : Prop) [Decidable c] (why : ε) : Except ε Unit := if c then .error why else .ok ()

def orRefuse (o : Option α) (why : ε) : Except ε α :=
  match o with
  | some a => .ok a
  | none => .error why

theorem refuseWhen_eq_ok {c : Prop} [Decidable c] {why : ε} {u : Unit} : refuseWhen c why = .ok u ↔ ¬c := by
  unfold refuseWhen
  by_cases h : c
  · rw [if_pos h]
    exact ⟨nofun, fun hn => absurd h hn⟩
  · rw [if_neg h]
    exact ⟨fun _ => h, fun _ => rfl⟩

theorem orRefuse_eq_ok {o : Option α} {why : ε} {a : α} : orRefuse o why = .ok a ↔ o = some a := by
  cases o with
  | none => exact ⟨nofun, nofun⟩
  | some b => exact ⟨fun h => congrArg some (Except.ok.inj h), fun h => congrArg Except.ok (Option.some.inj h)⟩

/-- A check passes, and the rest goes on. -/
theorem refuseWhen_bind_eq_ok {c : Prop} [Decidable c] {why : ε} {f : Unit → Except ε α} {a : α} :
    (refuseWhen c why >>= f) = .ok a ↔ ¬c ∧ f () = .ok a := by
  unfold refuseWhen
  by_cases h : c
  · rw [if_pos h]
    exact ⟨nofun, fun hn => absurd h hn.1⟩
  · rw [if_neg h]
    exact ⟨fun hf => ⟨h, hf⟩, fun hf => hf.2⟩

end Desk
