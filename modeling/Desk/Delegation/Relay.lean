import Desk.Delegation.CapacitySound

/-!
# Admission to the relay

A request is let through at once, or waits in line for its connection's room and
for a slot. A step is one critical section of one request, the end of its wait,
a release, or a use of the shared capacity by others.
-/

namespace Desk.Relay

def maxRelayInFlight : Nat := 4

def maxRelayQueued : Nat := 16

/-- What a request takes and gives back; a room is known by its hold. -/
inductive Resource
  | slot
  | place
  | line
  | room (hold : Nat)
deriving DecidableEq

/-- Where a request is in `admitRelay`, with the room it has. -/
inductive Phase
  | start
  /-- `Try` gave a room. -/
  | tried (room : Nat)
  /-- Nobody was waiting. -/
  | free (room : Nat)
  /-- The room goes back before the request joins the line. -/
  | turned (room : Nat)
  | joining
  | joined
  | waiting
  /-- The top of the loop of `Wait`. -/
  | checking
  | asking
  | sleeping
  | competing (room : Nat)
  | undoing (room : Nat)
  /-- The deferred `<-s.relayQueue` and `leave()`, admitted with a room or refused. -/
  | dequeuing (room : Option Nat)
  | leaving (room : Option Nat)
  | admitted (room : Nat)
  | freeing (room : Nat)
  | gone
deriving DecidableEq

namespace Phase

def room : Phase → Option Nat
  | tried room | free room | turned room | competing room | undoing room | admitted room | freeing room => some room
  | dequeuing room | leaving room => room
  | _ => none

def hasSlot : Phase → Bool
  | admitted _ => true
  | dequeuing room | leaving room => room.isSome
  | _ => false

def hasPlace : Phase → Bool
  | waiting | checking | asking | sleeping | competing _ | undoing _ | dequeuing _ => true
  | _ => false

def inLine : Phase → Bool
  | joined | leaving _ => true
  | p => p.hasPlace

def holds (p : Phase) : Resource → Bool
  | .slot => p.hasSlot
  | .place => p.hasPlace
  | .line => p.inLine
  | .room hold => p.room == some hold

end Phase

/-- `ended` is the context of the wait: cancelled or timed out. -/
structure Request (K : Type) where
  key : K
  ended : Bool
  phase : Phase

inductive Event
  | took (request : Nat) (what : Resource)
  | gave (request : Nat) (what : Resource)
  /-- Let through after waiting. -/
  | served (request : Nat)
deriving DecidableEq

/-- A turn channel is known by its request; the log keeps what happened. -/
structure State (K : Type) where
  capacity : Capacity.State K
  line : List Nat
  closed : List Nat
  slots : Nat
  queue : Nat
  requests : List (Request K)
  log : List Event

def init {K : Type} : State K := ⟨Capacity.init, [], [], 0, 0, [], []⟩

namespace State

variable {K : Type} [DecidableEq K]

/-- The request is in another phase, and the log says what it took or gave. -/
def goto (s : State K) (i : Nat) (r : Request K) (p : Phase) (events : List Event) : State K :=
  { s with requests := s.requests.set i { r with phase := p }, log := s.log ++ events }

/-- `take`, and on to one phase with a room, to another without. -/
def ask (s : State K) (i : Nat) (r : Request K) (got : Nat → Phase) (refused : Phase) : State K :=
  match s.capacity.take r.key false with
  | (capacity, .admitted hold) => { s with capacity := capacity }.goto i r (got hold) [.took i (.room hold)]
  | (capacity, .refused _) => { s with capacity := capacity }.goto i r refused []

/-- `room()` -/
def giveRoom (s : State K) (i : Nat) (r : Request K) (hold : Nat) (p : Phase) : State K :=
  { s with capacity := s.capacity.release hold }.goto i r p [.gave i (.room hold)]

/-- `join`; the turn of a request that is alone comes at once. -/
def join (s : State K) (i : Nat) (r : Request K) : State K :=
  { s with line := s.line ++ [i], closed := s.closed ++ if s.line = [] then [i] else [] }.goto i r .joined [.took i .line]

/-- `leave`; whoever comes to the head has its turn. -/
def leave (s : State K) (i : Nat) (r : Request K) (p : Phase) : State K :=
  { s with line := s.line.erase i, closed := s.closed ++ if s.line.head? = some i then (s.line.erase i).head?.toList else [] }.goto
    i r p [.gave i .line]

/-- The next critical section of a request; a request that is blocked stays. -/
def move (s : State K) (i : Nat) (r : Request K) : State K :=
  match r.phase with
  | .start => s.ask i r .tried .joining
  | .tried room => s.goto i r (if s.line = [] then .free room else .turned room) []
  | .free room =>
    if s.slots < maxRelayInFlight then { s with slots := s.slots + 1 }.goto i r (.admitted room) [.took i .slot]
    else s.goto i r (.turned room) []
  | .turned room => s.giveRoom i r room .joining
  | .joining => s.join i r
  | .joined =>
    if s.queue < maxRelayQueued then { s with queue := s.queue + 1 }.goto i r .waiting [.took i .place]
    else s.goto i r (.leaving none) []
  | .waiting => if i ∈ s.closed then s.goto i r .checking [] else s
  | .checking => s.goto i r (if r.ended then .dequeuing none else .asking) []
  | .asking => s.ask i r .competing .sleeping
  | .sleeping => s.goto i r .checking []
  | .competing room =>
    if s.slots < maxRelayInFlight then
      { s with slots := s.slots + 1 }.goto i r (.dequeuing (some room)) [.took i .slot, .served i]
    else s
  | .undoing room => s.giveRoom i r room (.dequeuing none)
  | .dequeuing room => { s with queue := s.queue - 1 }.goto i r (.leaving room) [.gave i .place]
  | .leaving (some room) => s.leave i r (.admitted room)
  | .leaving none => s.leave i r .gone
  | .admitted _ => s
  | .freeing room => s.giveRoom i r room .gone
  | .gone => s

/-- A wait that ends with its context. -/
def giveUp (s : State K) (i : Nat) (r : Request K) : State K :=
  if r.ended then
    match r.phase with
    | .waiting | .sleeping => s.goto i r (.dequeuing none) []
    | .competing room => s.goto i r (.undoing room) []
    | _ => s
  else s

/-- A call of the release function of an admitted request; it runs once. -/
def release (s : State K) (i : Nat) (r : Request K) : State K :=
  match r.phase with
  | .admitted room => { s with slots := s.slots - 1 }.goto i r (.freeing room) [.gave i .slot]
  | _ => s

/-- A release function of the shared capacity that a request has. -/
def owned (s : State K) (hold : Nat) : Bool := s.requests.any fun r => r.phase.room == some hold

end State

inductive Act (K : Type)
  | arrive (key : K)
  | move (request : Nat)
  | expire (request : Nat)
  | giveUp (request : Nat)
  | release (request : Nat)
  /-- What others do with the shared capacity, with release functions of their own. -/
  | other (act : Capacity.Act K)

/-- An act of one request, where there is one. -/
def act {K : Type} (s : State K) (i : Nat) (f : Request K → State K) : State K :=
  match s.requests[i]? with
  | some r => f r
  | none => s

def step {K : Type} [DecidableEq K] (s : State K) : Act K → State K
  | .arrive key => { s with requests := s.requests ++ [⟨key, false, .start⟩] }
  | .move i => act s i (s.move i)
  | .expire i => act s i fun r => { s with requests := s.requests.set i { r with ended := true } }
  | .giveUp i => act s i (s.giveUp i)
  | .release i => act s i (s.release i)
  | .other (.release hold) => if s.owned hold then s else { s with capacity := s.capacity.release hold }
  | .other a => { s with capacity := Capacity.step s.capacity a }

end Desk.Relay
