import Desk.Lib.Run
import Mathlib.Logic.Function.Basic

/-!
# Shared capacity

Admission shared by all that use one key. A step is one pass through the lock,
or time passing. An entry is reached through a pointer: what a release function
holds on to is the entry it was given, whatever the map holds by then.
-/

namespace Desk.Capacity

/-- `slowUntil` is a time on the clock, the zero time before any other. -/
structure Entry where
  active : Int
  background : Int
  slowUntil : Nat
deriving DecidableEq

/-- What a release function closes over, and whether it was called. -/
structure Hold (K : Type) where
  key : K
  entry : Nat
  background : Bool
  released : Bool

/-- Pointers and channels are counted as they are made. The map and the first channel are made together. -/
structure State (K : Type) where
  entries : K → Option Nat
  heap : Nat → Entry
  made : Nat
  changed : Option Nat
  channels : Nat
  closed : List Nat
  holds : List (Hold K)
  now : Nat

def init {K : Type} : State K := ⟨fun _ => none, fun _ => ⟨0, 0, 0⟩, 0, none, 0, [], [], 0⟩

/-- Either a release function, by its place among all, or the channel to wait on. -/
inductive Taken
  | admitted (hold : Nat)
  | refused (changed : Option Nat)
deriving DecidableEq

/-- How long a rate-limit response slows a key, in nanoseconds. -/
def slowFor : Nat := 30 * 1000000000

namespace State

variable {K : Type} [DecidableEq K]

/-- `if c.entries == nil` -/
def ready (s : State K) : State K :=
  match s.changed with
  | some _ => s
  | none => { s with changed := some s.channels, channels := s.channels + 1 }

/-- The entry of a key, made where there is none. -/
def entry (s : State K) (key : K) : State K × Nat :=
  match s.entries key with
  | some e => (s, e)
  | none => ({ s with
      entries := Function.update s.entries key (some s.made)
      heap := Function.update s.heap s.made ⟨0, 0, 0⟩
      made := s.made + 1 }, s.made)

/-- `time.Now().Before(e.slowUntil)` -/
def slow (s : State K) (e : Nat) : Bool := s.now < (s.heap e).slowUntil

def limit (s : State K) (e : Nat) : Int := if s.slow e then 1 else 4

def full (s : State K) (e : Nat) (background : Bool) : Bool :=
  s.limit e ≤ (s.heap e).active || background && decide (2 ≤ (s.heap e).background)

def enter (s : State K) (key : K) (e : Nat) (background : Bool) : State K :=
  { s with
    heap := Function.update s.heap e
      { s.heap e with
        active := (s.heap e).active + 1
        background := (s.heap e).background + if background then 1 else 0 }
    holds := s.holds ++ [⟨key, e, background, false⟩] }

def take (s : State K) (key : K) (background : Bool) : State K × Taken :=
  let (s, e) := s.ready.entry key
  if s.full e background then (s, .refused s.changed) else (s.enter key e background, .admitted s.holds.length)

/-- The entry after one of its holders let go. -/
def letGo (s : State K) (h : Hold K) : State K :=
  { s with
    heap := Function.update s.heap h.entry
      { s.heap h.entry with
        active := (s.heap h.entry).active - 1
        background := (s.heap h.entry).background - if h.background then 1 else 0 } }

/-- An idle entry is dropped, unless it slows its key. -/
def drop (s : State K) (h : Hold K) : State K :=
  if (s.heap h.entry).active = 0 ∧ s.slow h.entry = false then { s with entries := Function.update s.entries h.key none } else s

/-- Everyone who waits is woken. -/
def wake (s : State K) : State K :=
  { s with closed := s.closed ++ s.changed.toList, changed := some s.channels, channels := s.channels + 1 }

/-- A call of a release function; it runs once. -/
def release (s : State K) (i : Nat) : State K :=
  match s.holds[i]? with
  | none => s
  | some h =>
    if h.released then s
    else (({ s with holds := s.holds.set i { h with released := true } }.letGo h).drop h).wake

def throttle (s : State K) (key : K) : State K :=
  let (s, e) := s.ready.entry key
  { s with heap := Function.update s.heap e { s.heap e with slowUntil := s.now + slowFor } }

end State

inductive Act (K : Type)
  | take (key : K) (background : Bool)
  | release (hold : Nat)
  | throttle (key : K)
  | pass (time : Nat)

def step {K : Type} [DecidableEq K] (s : State K) : Act K → State K
  | .take key background => (s.take key background).1
  | .release i => s.release i
  | .throttle key => s.throttle key
  | .pass time => { s with now := s.now + time }

end Desk.Capacity
