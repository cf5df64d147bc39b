import Mathlib.Logic.Basic
import Mathlib.Tactic.SplitIfs

/-!
# Programs that may stop between two saves

A program over a store, given how many saves it may still make. A save that is
not made stops it, as a process that is cut or a write that fails does, and what
was saved before stays. `Keeps` is the triple of such programs.
-/

namespace Desk

inductive Ending (ε α : Type) where
  | stopped
  | refused (why : ε)
  | done (a : α)
  deriving DecidableEq

/-- How a program ended, the saves it had left, and the store then. -/
structure Outcome (σ ε α : Type) where
  ending : Ending ε α
  left : Nat
  store : σ

def Saves (σ ε α : Type) : Type := Nat → σ → Outcome σ ε α

theorem bind_eq_ok {ε α β : Type} {x : Except ε α} {f : α → Except ε β} {b : β} :
    (x >>= f) = .ok b ↔ ∃ a, x = .ok a ∧ f a = .ok b := by
  cases x with
  | error e => exact ⟨fun h => (by cases h), fun ⟨_, h, _⟩ => (by cases h)⟩
  | ok a => exact ⟨fun h => ⟨a, rfl, h⟩, fun ⟨_, h, hf⟩ => (by cases h; exact hf)⟩

namespace Saves

variable {σ ε α β : Type}

def ret (a : α) : Saves σ ε α := fun n s => ⟨.done a, n, s⟩

def bind (p : Saves σ ε α) (f : α → Saves σ ε β) : Saves σ ε β := fun n s =>
  match p n s with
  | ⟨.done a, n', s'⟩ => f a n' s'
  | ⟨.refused why, n', s'⟩ => ⟨.refused why, n', s'⟩
  | ⟨.stopped, n', s'⟩ => ⟨.stopped, n', s'⟩

instance : Monad (Saves σ ε) where
  pure := ret
  bind := bind

def load : Saves σ ε σ := fun n s => ⟨.done s, n, s⟩

def save (f : σ → σ) : Saves σ ε Unit
  | 0, s => ⟨.stopped, 0, s⟩
  | n + 1, s => ⟨.done (), n, f s⟩

def refuse (why : ε) : Saves σ ε α := fun n s => ⟨.refused why, n, s⟩

/-- A step that reads nothing and saves nothing. -/
def lift : Except ε α → Saves σ ε α
  | .ok a => ret a
  | .error why => refuse why

theorem lift_ok_bind (a : α) (f : α → Saves σ ε β) : (lift (.ok a) >>= f) = f a := rfl

/-- The refusal as a value. -/
def attempt {ε' : Type} (p : Saves σ ε α) : Saves σ ε' (Except ε α) := fun n s =>
  match p n s with
  | ⟨.done a, n', s'⟩ => ⟨.done (.ok a), n', s'⟩
  | ⟨.refused why, n', s'⟩ => ⟨.done (.error why), n', s'⟩
  | ⟨.stopped, n', s'⟩ => ⟨.stopped, n', s'⟩

/-- The refusal said otherwise. -/
def within {ε' : Type} (say : ε → ε') (p : Saves σ ε α) : Saves σ ε' α := fun n s =>
  match p n s with
  | ⟨.done a, n', s'⟩ => ⟨.done a, n', s'⟩
  | ⟨.refused why, n', s'⟩ => ⟨.refused (say why), n', s'⟩
  | ⟨.stopped, n', s'⟩ => ⟨.stopped, n', s'⟩

/-! ## Triples -/

/-- From a store with `P` the program ends with `Q`, and leaves `C` where it stops or refuses. -/
def Keeps (P : σ → Prop) (p : Saves σ ε α) (Q : α → σ → Prop) (C : σ → Prop) : Prop :=
  ∀ n s, P s → match p n s with
    | ⟨.done a, _, s'⟩ => Q a s'
    | ⟨_, _, s'⟩ => C s'

variable {P P' R C C' : σ → Prop} {Q Q' : α → σ → Prop}

theorem Keeps.done {p : Saves σ ε α} (h : Keeps P p Q C) {n : Nat} {s : σ} (hs : P s) {a : α} {n' : Nat} {s' : σ}
    (hp : p n s = ⟨.done a, n', s'⟩) : Q a s' := by
  have := h n s hs
  rwa [hp] at this

/-- What is left wherever the program ends. -/
theorem Keeps.store {p : Saves σ ε α} (h : Keeps P p (fun _ => C) C) {n : Nat} {s : σ} (hs : P s) : C (p n s).store := by
  have := h n s hs
  generalize p n s = o at this
  obtain ⟨ending, left, store⟩ := o
  cases ending <;> exact this

theorem Keeps.weaken {p : Saves σ ε α} (h : Keeps P p Q C) (hP : ∀ s, P' s → P s) (hQ : ∀ a s, Q a s → Q' a s)
    (hC : ∀ s, C s → C' s) : Keeps P' p Q' C' := by
  intro n s hs
  have := h n s (hP s hs)
  generalize p n s = o at this
  obtain ⟨ending, left, store⟩ := o
  cases ending with
  | done a => exact hQ a _ this
  | stopped => exact hC _ this
  | refused why => exact hC _ this

theorem keeps_ends {p : Saves σ ε α} : Keeps P p (fun _ _ => True) fun _ => True := by
  intro n s _
  generalize p n s = o
  obtain ⟨ending, left, store⟩ := o
  cases ending <;> trivial

/-- What the store does not change is assumed once. -/
theorem keeps_assume {p : Saves σ ε α} {φ : Prop} (h : φ → Keeps P p Q C) : Keeps (fun s => φ ∧ P s) p Q C :=
  fun n s hs => h hs.1 n s hs.2

theorem keeps_pure {a : α} (h : ∀ s, P s → Q a s) : Keeps P (pure a : Saves σ ε α) Q C := fun _ s hs => h s hs

theorem keeps_refuse {why : ε} (h : ∀ s, P s → C s) : Keeps P (refuse why : Saves σ ε α) Q C := fun _ s hs => h s hs

theorem keeps_bind {p : Saves σ ε α} {f : α → Saves σ ε β} {Q : α → σ → Prop} {T : β → σ → Prop} (hp : Keeps P p Q C)
    (hf : ∀ a, Keeps (Q a) (f a) T C) : Keeps P (p >>= f) T C := by
  intro n s hs
  have hq := hp n s hs
  show match Saves.bind p f n s with
    | ⟨.done a, _, s'⟩ => T a s'
    | ⟨_, _, s'⟩ => C s'
  unfold Saves.bind
  generalize p n s = o at hq
  obtain ⟨ending, left, store⟩ := o
  cases ending with
  | done a => exact hf a left store hq
  | stopped => exact hq
  | refused why => exact hq

/-- A store is read: what follows starts from that very store. -/
theorem keeps_load {f : σ → Saves σ ε β} {T : β → σ → Prop} (h : ∀ s, P s → Keeps (fun t => t = s) (f s) T C) :
    Keeps P (load >>= f) T C := fun n s hs => h s hs n s rfl

theorem keeps_save {f : σ → σ} {Q : Unit → σ → Prop} (hC : ∀ s, P s → C s) (hQ : ∀ s, P s → Q () (f s)) :
    Keeps P (save f : Saves σ ε Unit) Q C := by
  intro n s hs
  cases n with
  | zero => exact hC s hs
  | succ n => exact hQ s hs

theorem keeps_lift {x : Except ε α} (hC : ∀ s, P s → C s) (h : ∀ a, x = .ok a → ∀ s, P s → Q a s) :
    Keeps P (lift x : Saves σ ε α) Q C := by
  cases x with
  | ok a => exact fun _ s hs => h a rfl s hs
  | error why => exact fun _ s hs => hC s hs

/-- A step that saves nothing, before the rest. -/
theorem keeps_lift_bind {x : Except ε α} {f : α → Saves σ ε β} {T : β → σ → Prop} (hC : ∀ s, P s → C s)
    (h : ∀ a, x = .ok a → Keeps P (f a) T C) : Keeps P (lift x >>= f) T C :=
  keeps_bind (Q := fun a s => x = .ok a ∧ P s) (keeps_lift hC fun _ ha _ hs => ⟨ha, hs⟩)
    fun a n s hs => h a hs.1 n s hs.2

theorem keeps_refuse_bind {why : ε} {f : α → Saves σ ε β} {T : β → σ → Prop} (hC : ∀ s, P s → C s) :
    Keeps P (refuse why >>= f) T C := keeps_bind (Q := fun _ _ => False) (keeps_refuse hC) fun _ _ _ hs => hs.elim

/-- A refusal unless a condition fails, before the rest. -/
theorem keeps_unless {c : Prop} [Decidable c] {why : ε} {f : Unit → Saves σ ε β} {T : β → σ → Prop}
    (hC : ∀ s, P s → C s) (h : ¬c → Keeps P (f ()) T C) : Keeps P (if c then refuse why >>= f else f ()) T C := by
  split_ifs with hc
  · exact keeps_refuse_bind hC
  · exact h hc

theorem keeps_attempt {ε' : Type} {p : Saves σ ε α} {T : Except ε α → σ → Prop} (h : Keeps P p (fun a => T (.ok a)) C)
    (hT : ∀ why s, C s → T (.error why) s) : Keeps P (attempt p : Saves σ ε' (Except ε α)) T C := by
  intro n s hs
  have hq := h n s hs
  unfold attempt
  generalize p n s = o at hq
  obtain ⟨ending, left, store⟩ := o
  cases ending with
  | done a => exact hq
  | stopped => exact hq
  | refused why => exact hT why store hq

theorem keeps_within {ε' : Type} {say : ε → ε'} {p : Saves σ ε α} (h : Keeps P p Q C) : Keeps P (within say p) Q C := by
  intro n s hs
  have hq := h n s hs
  unfold within
  generalize p n s = o at hq
  obtain ⟨ending, left, store⟩ := o
  cases ending <;> exact hq

end Saves

end Desk
