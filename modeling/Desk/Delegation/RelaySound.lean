import Desk.Delegation.Relay

/-!
# What a request takes it gives back

One critical section of a request takes one thing, gives one back or does
neither. From that the accounts of all requests are kept in every run, those
who wait are served in the order they joined, and turns come one at a time.
-/

namespace Desk.Relay

variable {K : Type}

/-! ## One critical section -/

namespace Phase

/-- Not yet in the line. -/
def early : Phase → Bool
  | start | tried _ | free _ | turned _ | joining => true
  | _ => false

/-- Only after its turn. -/
def hasTurn : Phase → Bool
  | checking | asking | sleeping | competing _ | undoing _ => true
  | _ => false

/-- From `p` to `q` just `x` is taken. -/
structure Takes (x : Resource) (p q : Phase) : Prop where
  before : p.holds x = false
  after : q.holds x = true
  other : ∀ y, y ≠ x → q.holds y = p.holds y

end Phase

namespace State

def phase (s : State K) (i : Nat) : Phase := (s.requests[i]?.map Request.phase).getD .gone

def took (s : State K) (i : Nat) (x : Resource) : Nat := s.log.count (.took i x)

def gave (s : State K) (i : Nat) (x : Resource) : Nat := s.log.count (.gave i x)

/-- The requests that joined the line, in their order. -/
def joins (s : State K) : List Nat := s.log.filterMap fun
  | .took i .line => some i
  | _ => none

/-- The requests let through after waiting, in their order. -/
def serves (s : State K) : List Nat := s.log.filterMap fun
  | .served i => some i
  | _ => none

/-- How many requests hold something. -/
def holders (s : State K) (x : Resource) : Nat := s.requests.countP fun r => r.phase.holds x

end State

/-- What one critical section does to what is shared, on the way to a phase, and what it logs. -/
inductive Effect [DecidableEq K] (s : State K) (i : Nat) (r : Request K) : State K → Phase → List Event → Prop
  | plain {p : Phase} (h : ∀ x, p.holds x = r.phase.holds x) : Effect s i r s p []
  | refused {p : Phase} {capacity : Capacity.State K} {c : Option Nat} (h : ∀ x, p.holds x = r.phase.holds x)
      (htake : s.capacity.take r.key false = (capacity, .refused c)) : Effect s i r { s with capacity := capacity } p []
  | tookRoom {p : Phase} {capacity : Capacity.State K} {hold : Nat} (h : Phase.Takes (.room hold) r.phase p)
      (htake : s.capacity.take r.key false = (capacity, .admitted hold)) :
      Effect s i r { s with capacity := capacity } p [.took i (.room hold)]
  | gaveRoom {p : Phase} {hold : Nat} (h : Phase.Takes (.room hold) p r.phase) :
      Effect s i r { s with capacity := s.capacity.release hold } p [.gave i (.room hold)]
  | tookSlot {p : Phase} (h : Phase.Takes .slot r.phase p) (hroom : s.slots < maxRelayInFlight) (hline : r.phase.inLine = false) :
      Effect s i r { s with slots := s.slots + 1 } p [.took i .slot]
  | served {p : Phase} (h : Phase.Takes .slot r.phase p) (hroom : s.slots < maxRelayInFlight) (hline : r.phase.inLine = true)
      (hturn : r.phase.hasTurn = true) : Effect s i r { s with slots := s.slots + 1 } p [.took i .slot, .served i]
  | gaveSlot {p : Phase} (h : Phase.Takes .slot p r.phase) (hline : r.phase.inLine = false) :
      Effect s i r { s with slots := s.slots - 1 } p [.gave i .slot]
  | tookPlace {p : Phase} (h : Phase.Takes .place r.phase p) (hroom : s.queue < maxRelayQueued) :
      Effect s i r { s with queue := s.queue + 1 } p [.took i .place]
  | gavePlace {p : Phase} (h : Phase.Takes .place p r.phase) : Effect s i r { s with queue := s.queue - 1 } p [.gave i .place]
  | joined {p : Phase} (h : Phase.Takes .line r.phase p) (hearly : r.phase.early = true) (hlate : p.early = false)
      (hturn : p.hasTurn = false) :
      Effect s i r { s with line := s.line ++ [i], closed := s.closed ++ if s.line = [] then [i] else [] } p [.took i .line]
  | left {p : Phase} (h : Phase.Takes .line p r.phase) (hturn : p.hasTurn = false) : Effect s i r { s with
      line := s.line.erase i
      closed := s.closed ++ if s.line.head? = some i then (s.line.erase i).head?.toList else [] } p [.gave i .line]

/-- A request stays where it is, or goes on with one effect. -/
inductive Turn [DecidableEq K] (s : State K) (i : Nat) (r : Request K) : State K → Prop
  | stay : Turn s i r s
  | go {t : State K} {p : Phase} {events : List Event} (h : Effect s i r t p events)
      (hturn : p.hasTurn = true → r.phase.hasTurn = true ∨ i ∈ s.closed) (hearly : p.early = true → r.phase.early = true) :
      Turn s i r (t.goto i r p events)

theorem Phase.takes_room {p q : Phase} {hold : Nat} (hp : p.room = none) (hq : q.room = some hold) (hslot : q.hasSlot = p.hasSlot)
    (hplace : q.hasPlace = p.hasPlace) (hline : q.inLine = p.inLine) : Takes (.room hold) p q where
  before := by simp [holds, hp]
  after := by simp [holds, hq]
  other y hy := by
    cases y with
    | slot => exact hslot
    | place => exact hplace
    | line => exact hline
    | room other =>
      have hne : hold ≠ other := fun heq => hy (congrArg Resource.room heq.symm)
      simp [holds, hp, hq, hne]

theorem Phase.takes_of {p q : Phase} {x : Resource} (hbefore : p.holds x = false) (hafter : q.holds x = true)
    (hroom : q.room = p.room) (hslot : x ≠ .slot → q.hasSlot = p.hasSlot) (hplace : x ≠ .place → q.hasPlace = p.hasPlace)
    (hline : x ≠ .line → q.inLine = p.inLine) : Takes x p q where
  before := hbefore
  after := hafter
  other y hy := by
    cases y with
    | slot => exact hslot hy.symm
    | place => exact hplace hy.symm
    | line => exact hline hy.symm
    | room hold => simp [holds, hroom]

theorem Phase.same_of {p q : Phase} (hroom : q.room = p.room) (hslot : q.hasSlot = p.hasSlot) (hplace : q.hasPlace = p.hasPlace)
    (hline : q.inLine = p.inLine) (x : Resource) : q.holds x = p.holds x := by
  cases x with
  | slot => exact hslot
  | place => exact hplace
  | line => exact hline
  | room hold => simp [holds, hroom]

variable [DecidableEq K]

theorem turn_ask {s : State K} {i : Nat} {r : Request K} {got : Nat → Phase} {refused : Phase}
    (hgot : ∀ hold, Phase.Takes (.room hold) r.phase (got hold)) (hrefused : ∀ x, refused.holds x = r.phase.holds x)
    (hturn : ∀ hold, (got hold).hasTurn = true → r.phase.hasTurn = true) (hturn' : refused.hasTurn = true → r.phase.hasTurn = true)
    (hearly : ∀ hold, (got hold).early = true → r.phase.early = true) (hearly' : refused.early = true → r.phase.early = true) :
    Turn s i r (s.ask i r got refused) := by
  unfold State.ask
  split
  · rename_i capacity hold htake
    exact .go (.tookRoom (hgot hold) htake) (fun h => .inl (hturn hold h)) (hearly hold)
  · rename_i capacity c htake
    exact .go (.refused hrefused htake) (fun h => .inl (hturn' h)) hearly'

theorem turn_move (s : State K) (i : Nat) (r : Request K) : Turn s i r (s.move i r) := by
  obtain ⟨key, ended, phase⟩ := r
  cases phase with
  | start =>
    exact turn_ask (fun _ => Phase.takes_room rfl rfl rfl rfl rfl) (Phase.same_of rfl rfl rfl rfl) nofun nofun (fun _ _ => rfl)
      (fun _ => rfl)
  | tried room =>
    unfold State.move
    dsimp only
    split
    · exact .go (.plain (Phase.same_of rfl rfl rfl rfl)) nofun fun _ => rfl
    · exact .go (.plain (Phase.same_of rfl rfl rfl rfl)) nofun fun _ => rfl
  | free room =>
    unfold State.move
    dsimp only
    split
    · rename_i hslot
      exact .go (.tookSlot (Phase.takes_of rfl rfl rfl nofun (fun _ => rfl) fun _ => rfl) hslot rfl) nofun nofun
    · exact .go (.plain (Phase.same_of rfl rfl rfl rfl)) nofun fun _ => rfl
  | turned room => exact .go (.gaveRoom (Phase.takes_room rfl rfl rfl rfl rfl)) nofun fun _ => rfl
  | joining => exact .go (.joined (Phase.takes_of rfl rfl rfl (fun _ => rfl) (fun _ => rfl) nofun) rfl rfl rfl) nofun nofun
  | joined =>
    unfold State.move
    dsimp only
    split
    · rename_i hplace
      exact .go (.tookPlace (Phase.takes_of rfl rfl rfl (fun _ => rfl) nofun fun _ => rfl) hplace) nofun nofun
    · exact .go (.plain (Phase.same_of rfl rfl rfl rfl)) nofun nofun
  | waiting =>
    unfold State.move
    dsimp only
    split
    · rename_i hturn
      exact .go (.plain (Phase.same_of rfl rfl rfl rfl)) (fun _ => .inr hturn) nofun
    · exact .stay
  | checking =>
    cases ended with
    | true => exact .go (.plain (Phase.same_of rfl rfl rfl rfl)) nofun nofun
    | false => exact .go (.plain (Phase.same_of rfl rfl rfl rfl)) (fun _ => .inl rfl) nofun
  | asking =>
    exact turn_ask (fun _ => Phase.takes_room rfl rfl rfl rfl rfl) (Phase.same_of rfl rfl rfl rfl) (fun _ _ => rfl) (fun _ => rfl)
      nofun nofun
  | sleeping => exact .go (.plain (Phase.same_of rfl rfl rfl rfl)) (fun _ => .inl rfl) nofun
  | competing room =>
    unfold State.move
    dsimp only
    split
    · rename_i hslot
      exact .go (.served (Phase.takes_of rfl rfl rfl nofun (fun _ => rfl) fun _ => rfl) hslot rfl rfl) nofun nofun
    · exact .stay
  | undoing room => exact .go (.gaveRoom (Phase.takes_room rfl rfl rfl rfl rfl)) nofun nofun
  | dequeuing room => exact .go (.gavePlace (Phase.takes_of rfl rfl rfl (fun _ => rfl) nofun fun _ => rfl)) nofun nofun
  | leaving room =>
    cases room with
    | none => exact .go (.left (Phase.takes_of rfl rfl rfl (fun _ => rfl) (fun _ => rfl) nofun) rfl) nofun nofun
    | some room => exact .go (.left (Phase.takes_of rfl rfl rfl (fun _ => rfl) (fun _ => rfl) nofun) rfl) nofun nofun
  | admitted room => exact .stay
  | freeing room => exact .go (.gaveRoom (Phase.takes_room rfl rfl rfl rfl rfl)) nofun nofun
  | gone => exact .stay

theorem turn_giveUp (s : State K) (i : Nat) (r : Request K) : Turn s i r (s.giveUp i r) := by
  obtain ⟨key, ended, phase⟩ := r
  cases ended with
  | false => exact .stay
  | true =>
    cases phase with
    | waiting => exact .go (.plain (Phase.same_of rfl rfl rfl rfl)) nofun nofun
    | sleeping => exact .go (.plain (Phase.same_of rfl rfl rfl rfl)) nofun nofun
    | competing room => exact .go (.plain (Phase.same_of rfl rfl rfl rfl)) (fun _ => .inl rfl) nofun
    | _ => exact .stay

theorem turn_release (s : State K) (i : Nat) (r : Request K) : Turn s i r (s.release i r) := by
  obtain ⟨key, ended, phase⟩ := r
  cases phase with
  | admitted room => exact .go (.gaveSlot (Phase.takes_of rfl rfl rfl nofun (fun _ => rfl) fun _ => rfl) rfl) nofun nofun
  | _ => exact .stay

/-! ## Accounts -/

omit [DecidableEq K] in
theorem phase_goto {t : State K} {i : Nat} {r : Request K} (hi : t.requests[i]? = some r) (p : Phase) (events : List Event)
    (j : Nat) : (t.goto i r p events).phase j = if j = i then p else t.phase j := by
  have hlt : i < t.requests.length := (List.getElem?_eq_some_iff.mp hi).1
  unfold State.phase State.goto
  dsimp only
  by_cases hj : j = i
  · subst hj
    rw [List.getElem?_set_self hlt, if_pos rfl]
    rfl
  · rw [List.getElem?_set_ne (Ne.symm hj), if_neg hj]

omit [DecidableEq K] in
theorem phase_of_getElem? {s : State K} {i : Nat} {r : Request K} (hi : s.requests[i]? = some r) : s.phase i = r.phase := by
  rw [State.phase, hi]
  rfl

theorem Effect.requests {s t : State K} {i : Nat} {r : Request K} {p : Phase} {events : List Event} (h : Effect s i r t p events) :
    t.requests = s.requests := by cases h <;> rfl

theorem Effect.log {s t : State K} {i : Nat} {r : Request K} {p : Phase} {events : List Event} (h : Effect s i r t p events) :
    t.log = s.log := by cases h <;> rfl

/-- What is taken and what was held is what is given and what is held. -/
def Balanced (i : Nat) (p q : Phase) (events : List Event) : Prop :=
  ∀ x, events.count (.took i x) + (p.holds x).toNat = events.count (.gave i x) + (q.holds x).toNat

theorem Phase.Takes.balanced {x : Resource} {p q : Phase} (h : Takes x p q) (i : Nat) : Balanced i p q [.took i x] := by
  intro y
  by_cases hy : y = x
  · subst hy
    simp [h.before, h.after]
  · simp [h.other y hy, Ne.symm hy]

theorem Phase.Takes.balanced_back {x : Resource} {p q : Phase} (h : Takes x q p) (i : Nat) : Balanced i p q [.gave i x] := by
  intro y
  by_cases hy : y = x
  · subst hy
    simp [h.before, h.after]
  · simp [h.other y hy, Ne.symm hy]

theorem Effect.balanced {s t : State K} {i : Nat} {r : Request K} {p : Phase} {events : List Event} (h : Effect s i r t p events) :
    Balanced i r.phase p events := by
  cases h with
  | plain h => exact fun x => by simp [h x]
  | refused h _ => exact fun x => by simp [h x]
  | tookRoom h _ => exact h.balanced i
  | gaveRoom h => exact h.balanced_back i
  | tookSlot h _ _ => exact h.balanced i
  | served h _ _ _ =>
    intro x
    have hslot := h.balanced i x
    simpa [List.count_cons] using hslot
  | gaveSlot h _ => exact h.balanced_back i
  | tookPlace h _ => exact h.balanced i
  | gavePlace h => exact h.balanced_back i
  | joined h _ _ _ => exact h.balanced i
  | left h _ => exact h.balanced_back i

theorem Effect.own {s t : State K} {i : Nat} {r : Request K} {p : Phase} {events : List Event} (h : Effect s i r t p events)
    {j : Nat} (hj : j ≠ i) (x : Resource) : events.count (.took j x) = 0 ∧ events.count (.gave j x) = 0 := by
  cases h <;> simp [Ne.symm hj]

structure Accounts (s : State K) : Prop where
  account : ∀ i x, s.took i x = s.gave i x + ((s.phase i).holds x).toNat
  slots : s.slots = s.holders .slot
  queue : s.queue = s.holders .place
  slots_le : s.slots ≤ maxRelayInFlight
  queue_le : s.queue ≤ maxRelayQueued

theorem accounts_goto {s t : State K} {i : Nat} {r : Request K} {p : Phase} {events : List Event} (h : Accounts s)
    (hi : s.requests[i]? = some r) (heffect : Effect s i r t p events) (j : Nat) (x : Resource) :
    (t.goto i r p events).took j x = (t.goto i r p events).gave j x + (((t.goto i r p events).phase j).holds x).toNat := by
  have haccount := h.account j x
  rw [phase_goto (heffect.requests ▸ hi)]
  unfold State.took State.gave State.goto at *
  dsimp only at *
  rw [heffect.log, List.count_append, List.count_append]
  by_cases hj : j = i
  · subst hj
    have hbalanced := heffect.balanced x
    rw [phase_of_getElem? hi] at haccount
    rw [if_pos rfl]
    omega
  · obtain ⟨htook, hgave⟩ := heffect.own hj x
    rw [if_neg hj, htook, hgave, State.phase, heffect.requests]
    exact haccount

omit [DecidableEq K] in
theorem holders_goto {t : State K} {i : Nat} {r : Request K} (hi : t.requests[i]? = some r) (p : Phase) (events : List Event)
    (x : Resource) : (t.goto i r p events).holders x + (r.phase.holds x).toNat = t.holders x + (p.holds x).toNat := by
  obtain ⟨hlt, hget⟩ := List.getElem?_eq_some_iff.mp hi
  unfold State.holders State.goto
  dsimp only
  rw [List.countP_set hlt, hget]
  cases hr : r.phase.holds x with
  | false => cases hp : p.holds x <;> simp
  | true =>
    have hone : 0 < t.requests.countP fun r => r.phase.holds x :=
      List.countP_pos_iff.mpr ⟨r, List.mem_of_getElem? hi, hr⟩
    cases hp : p.holds x <;> simp <;> omega

theorem Accounts.goto {s t : State K} {i : Nat} {r : Request K} {p : Phase} {events : List Event} (h : Accounts s)
    (hi : s.requests[i]? = some r) (heffect : Effect s i r t p events) : Accounts (t.goto i r p events) := by
  have hholders : ∀ x, (t.goto i r p events).holders x + (r.phase.holds x).toNat = s.holders x + (p.holds x).toNat := by
    intro x
    have hgoto := holders_goto (heffect.requests ▸ hi) p events x
    rw [show t.holders x = s.holders x by unfold State.holders; rw [heffect.requests]] at hgoto
    exact hgoto
  have hslot := hholders .slot
  have hplace := hholders .place
  have hslots := h.slots
  have hqueue := h.queue
  have hslots_le := h.slots_le
  have hqueue_le := h.queue_le
  refine ⟨accounts_goto h hi heffect, ?_, ?_, ?_, ?_⟩
  all_goals
    cases heffect with
    | plain h => simp only [h, State.goto] at hslot hplace ⊢; omega
    | refused h _ => simp only [h, State.goto] at hslot hplace ⊢; omega
    | tookRoom h _ => simp only [h.other .slot nofun, h.other .place nofun, State.goto] at hslot hplace ⊢; omega
    | gaveRoom h => simp only [h.other .slot nofun, h.other .place nofun, State.goto] at hslot hplace ⊢; omega
    | tookSlot h hroom _ =>
      simp only [h.before, h.after, h.other .place nofun, State.goto, Bool.toNat_true, Bool.toNat_false] at hslot hplace ⊢; omega
    | served h hroom _ _ =>
      simp only [h.before, h.after, h.other .place nofun, State.goto, Bool.toNat_true, Bool.toNat_false] at hslot hplace ⊢; omega
    | gaveSlot h _ =>
      simp only [h.before, h.after, h.other .place nofun, State.goto, Bool.toNat_true, Bool.toNat_false] at hslot hplace ⊢; omega
    | tookPlace h hroom =>
      simp only [h.before, h.after, h.other .slot nofun, State.goto, Bool.toNat_true, Bool.toNat_false] at hslot hplace ⊢; omega
    | gavePlace h =>
      simp only [h.before, h.after, h.other .slot nofun, State.goto, Bool.toNat_true, Bool.toNat_false] at hslot hplace ⊢; omega
    | joined h _ _ _ => simp only [h.other .slot nofun, h.other .place nofun, State.goto] at hslot hplace ⊢; omega
    | left h _ => simp only [h.other .slot nofun, h.other .place nofun, State.goto] at hslot hplace ⊢; omega

/-! ## The line -/

structure Lined (s : State K) : Prop where
  nodup : s.line.Nodup
  mem : ∀ i, i ∈ s.line ↔ (s.phase i).inLine = true
  head : ∀ i, s.line.head? = some i → i ∈ s.closed
  turn : ∀ i ∈ s.closed, i ∈ s.line → s.line.head? = some i
  once : s.closed.Nodup
  passed : ∀ i, (s.phase i).hasTurn = true → i ∈ s.closed
  closed_joined : ∀ i ∈ s.closed, i ∈ s.joins
  line_joined : ∀ i ∈ s.line, i ∈ s.joins
  joined : ∀ i ∈ s.joins, i < s.requests.length ∧ (s.phase i).early = false
  joins_once : s.joins.Nodup
  order : (s.serves ++ s.line.filter fun i => !(s.phase i).hasSlot).Sublist s.joins

omit [DecidableEq K] in
theorem joins_goto (t : State K) (i : Nat) (r : Request K) (p : Phase) (events : List Event) :
    (t.goto i r p events).joins = t.joins ++ events.filterMap fun
      | .took i .line => some i
      | _ => none := List.filterMap_append

omit [DecidableEq K] in
theorem serves_goto (t : State K) (i : Nat) (r : Request K) (p : Phase) (events : List Event) :
    (t.goto i r p events).serves = t.serves ++ events.filterMap fun
      | .served i => some i
      | _ => none := List.filterMap_append

/-- Where the line stays, only the order of those served is left to show. -/
theorem Lined.keep {s t : State K} {i : Nat} {r : Request K} {p : Phase} {events : List Event} (h : Lined s)
    (hi : s.requests[i]? = some r) (heffect : Effect s i r t p events) (hline : t.line = s.line) (hclosed : t.closed = s.closed)
    (hp : p.inLine = r.phase.inLine) (hturn : p.hasTurn = true → r.phase.hasTurn = true ∨ i ∈ s.closed)
    (hearly : p.early = true → r.phase.early = true) (hjoins : (t.goto i r p events).joins = s.joins)
    (horder : ((t.goto i r p events).serves ++ s.line.filter fun j => !((t.goto i r p events).phase j).hasSlot).Sublist s.joins) :
    Lined (t.goto i r p events) := by
  have hphase : ∀ j, (t.goto i r p events).phase j = if j = i then p else s.phase j := by
    intro j
    rw [phase_goto (heffect.requests ▸ hi), State.phase, State.phase, heffect.requests]
  have hline' : (t.goto i r p events).line = s.line := hline
  have hclosed' : (t.goto i r p events).closed = s.closed := hclosed
  have hself := phase_of_getElem? hi
  exact
    { nodup := hline' ▸ h.nodup
      mem := by
        intro j
        rw [hline', hphase, h.mem]
        by_cases hj : j = i
        · subst hj
          rw [if_pos rfl, hp, hself]
        · rw [if_neg hj]
      head := by
        rw [hline', hclosed']
        exact h.head
      turn := by
        rw [hline', hclosed']
        exact h.turn
      once := hclosed' ▸ h.once
      passed := by
        intro j hj
        rw [hphase] at hj
        rw [hclosed']
        by_cases hji : j = i
        · subst hji
          rw [if_pos rfl] at hj
          rcases hturn hj with hbefore | hmem
          · exact h.passed j (hself ▸ hbefore)
          · exact hmem
        · rw [if_neg hji] at hj
          exact h.passed j hj
      closed_joined := by
        rw [hclosed', hjoins]
        exact h.closed_joined
      line_joined := by
        rw [hline', hjoins]
        exact h.line_joined
      joined := by
        intro j hj
        rw [hjoins] at hj
        obtain ⟨hlt, hnot⟩ := h.joined j hj
        refine ⟨?_, ?_⟩
        · rw [State.goto, List.length_set, heffect.requests]
          exact hlt
        · rw [hphase]
          by_cases hji : j = i
          · subst hji
            rw [if_pos rfl, Bool.eq_false_iff]
            intro hp
            rw [hself, hearly hp] at hnot
            cases hnot
          · rw [if_neg hji]
            exact hnot
      joins_once := hjoins ▸ h.joins_once
      order := by
        rw [hline', hjoins]
        exact horder }

/-- Those in line without a slot are as before where the slot of the one that moved is. -/
theorem filter_goto {s t : State K} {i : Nat} {r : Request K} {p : Phase} {events : List Event} (h : Lined s)
    (hi : s.requests[i]? = some r) (heffect : Effect s i r t p events) (hp : p.hasSlot = r.phase.hasSlot ∨ r.phase.inLine = false) :
    (s.line.filter fun j => !((t.goto i r p events).phase j).hasSlot) = s.line.filter fun j => !(s.phase j).hasSlot := by
  refine List.filter_congr fun j hj => ?_
  have hrequests : t.phase j = s.phase j := by rw [State.phase, State.phase, heffect.requests]
  rw [phase_goto (heffect.requests ▸ hi)]
  by_cases hji : j = i
  · subst hji
    rw [if_pos rfl, phase_of_getElem? hi]
    rcases hp with hslot | hout
    · rw [hslot]
    · rw [h.mem, phase_of_getElem? hi, hout] at hj
      cases hj
  · rw [if_neg hji, hrequests]

/-- The one that is served is at the head. -/
theorem order_served {s t : State K} {i : Nat} {r : Request K} {p : Phase} {events : List Event} (h : Lined s)
    (hi : s.requests[i]? = some r) (heffect : Effect s i r t p events) (hbefore : r.phase.hasSlot = false)
    (hafter : p.hasSlot = true) (hline : r.phase.inLine = true) (hturn : r.phase.hasTurn = true) :
    i :: (s.line.filter fun j => !((t.goto i r p events).phase j).hasSlot) = s.line.filter fun j => !(s.phase j).hasSlot := by
  have hself := phase_of_getElem? hi
  have hhead := h.turn i (h.passed i (hself ▸ hturn)) ((h.mem i).mpr (hself ▸ hline))
  obtain ⟨rest, hrest⟩ := List.head?_eq_some_iff.mp hhead
  have hnodup := h.nodup
  rw [hrest, List.nodup_cons] at hnodup
  have hphase := phase_goto (heffect.requests ▸ hi) p events
  rw [hrest, List.filter_cons_of_neg (by rw [hphase, if_pos rfl, hafter]; exact Bool.false_ne_true),
    List.filter_cons_of_pos (by rw [hself, hbefore]; rfl)]
  congr 1
  refine List.filter_congr fun j hj => ?_
  have hji : j ≠ i := by
    rintro rfl
    exact hnodup.1 hj
  rw [hphase, if_neg hji, State.phase, State.phase, heffect.requests]

omit [DecidableEq K] in
/-- One more at the end; the turn of one that is alone comes at once. -/
theorem Lined.join {s : State K} {i : Nat} {r : Request K} {p : Phase} (h : Lined s) (hi : s.requests[i]? = some r)
    (hp : Phase.Takes .line r.phase p) (hearly : r.phase.early = true) (hlate : p.early = false) (hturn : p.hasTurn = false)
    {t : State K} (hrequests : t.requests = s.requests) (hlog : t.log = s.log) (hline : t.line = s.line ++ [i])
    (hclosed : t.closed = s.closed ++ if s.line = [] then [i] else []) : Lined (t.goto i r p [.took i .line]) := by
  have hphase : ∀ j, (t.goto i r p [.took i .line]).phase j = if j = i then p else s.phase j := by
    intro j
    rw [phase_goto (hrequests ▸ hi), State.phase, State.phase, hrequests]
  have hjoins : (t.goto i r p [.took i .line]).joins = s.joins ++ [i] := by
    rw [joins_goto, State.joins, State.joins, hlog]
    rfl
  have hserves : (t.goto i r p [.took i .line]).serves = s.serves := by
    rw [serves_goto, State.serves, State.serves, hlog]
    exact List.append_nil _
  have hline' : (t.goto i r p [.took i .line]).line = s.line ++ [i] := hline
  have hclosed' : (t.goto i r p [.took i .line]).closed = s.closed ++ if s.line = [] then [i] else [] := hclosed
  have hfresh : i ∉ s.joins := by
    intro hmem
    have hnot := (h.joined i hmem).2
    rw [phase_of_getElem? hi, hearly] at hnot
    cases hnot
  have hout : i ∉ s.line := fun hmem => hfresh (h.line_joined i hmem)
  have hshut : i ∉ s.closed := fun hmem => hfresh (h.closed_joined i hmem)
  have hlt : i < s.requests.length := (List.getElem?_eq_some_iff.mp hi).1
  exact
    { nodup := by
        rw [hline']
        exact List.nodup_append.mpr ⟨h.nodup, List.nodup_singleton i, fun j hj k hk heq =>
          hout (List.mem_singleton.mp hk ▸ heq ▸ hj)⟩
      mem := by
        intro j
        rw [hline', hphase, List.mem_append, List.mem_singleton, h.mem]
        by_cases hji : j = i
        · rw [if_pos hji]
          exact ⟨fun _ => hp.after, fun _ => .inr hji⟩
        · rw [if_neg hji]
          exact ⟨fun hj => hj.resolve_right hji, .inl⟩
      head := by
        intro j hj
        rw [hline'] at hj
        rw [hclosed']
        cases hline : s.line with
        | nil =>
          rw [hline] at hj
          obtain rfl := Option.some.inj hj
          exact List.mem_append_right _ (List.mem_singleton.mpr rfl)
        | cons k rest =>
          rw [hline] at hj
          exact List.mem_append_left _ (h.head j (hline ▸ hj))
      turn := by
        intro j hj hmem
        rw [hclosed'] at hj
        rw [hline'] at hmem ⊢
        cases hline : s.line with
        | nil =>
          rw [hline, List.nil_append, List.mem_singleton] at hmem
          exact congrArg some hmem.symm
        | cons k rest =>
          rw [hline, if_neg (List.cons_ne_nil _ _), List.append_nil] at hj
          rcases List.mem_append.mp hmem with hmem | hmem
          · have hhead := h.turn j hj hmem
            rw [hline] at hhead
            exact hhead
          · exact absurd (List.mem_singleton.mp hmem ▸ hj) hshut
      once := by
        rw [hclosed']
        split
        · exact List.nodup_append.mpr ⟨h.once, List.nodup_singleton i, fun j hj k hk heq =>
            hshut (List.mem_singleton.mp hk ▸ heq ▸ hj)⟩
        · rw [List.append_nil]
          exact h.once
      passed := by
        intro j hj
        rw [hphase] at hj
        rw [hclosed']
        by_cases hji : j = i
        · rw [if_pos hji, hturn] at hj
          cases hj
        · rw [if_neg hji] at hj
          exact List.mem_append_left _ (h.passed j hj)
      closed_joined := by
        intro j hj
        rw [hclosed'] at hj
        rw [hjoins]
        rcases List.mem_append.mp hj with hj | hj
        · exact List.mem_append_left _ (h.closed_joined j hj)
        · split at hj
          · exact List.mem_append_right _ hj
          · cases hj
      line_joined := by
        intro j hj
        rw [hline'] at hj
        rw [hjoins]
        rcases List.mem_append.mp hj with hj | hj
        · exact List.mem_append_left _ (h.line_joined j hj)
        · exact List.mem_append_right _ hj
      joined := by
        intro j hj
        rw [hjoins] at hj
        rw [hphase, State.goto, List.length_set, hrequests]
        by_cases hji : j = i
        · rw [if_pos hji]
          exact ⟨hji ▸ hlt, hlate⟩
        · rw [if_neg hji]
          exact h.joined j ((List.mem_append.mp hj).resolve_right fun hmem => hji (List.mem_singleton.mp hmem))
      joins_once := by
        rw [hjoins]
        exact List.nodup_append.mpr ⟨h.joins_once, List.nodup_singleton i, fun j hj k hk heq =>
          hfresh (List.mem_singleton.mp hk ▸ heq ▸ hj)⟩
      order := by
        rw [hserves, hline', hjoins, List.filter_append, ← List.append_assoc]
        refine List.Sublist.append ?_ List.filter_sublist
        have hsame : (s.line.filter fun j => !((t.goto i r p [.took i .line]).phase j).hasSlot) =
            s.line.filter fun j => !(s.phase j).hasSlot := by
          refine List.filter_congr fun j hj => ?_
          have hji : j ≠ i := by
            rintro rfl
            exact hout hj
          rw [hphase, if_neg hji]
        rw [hsame]
        exact h.order }

omit [DecidableEq K] in
/-- One leaves; whoever comes to the head has its turn. -/
theorem Lined.leave {s : State K} {i : Nat} {r : Request K} {p : Phase} (h : Lined s) (hi : s.requests[i]? = some r)
    (hp : Phase.Takes .line p r.phase) (hearly : p.early = true → r.phase.early = true) (hturn : p.hasTurn = false)
    {t : State K} (hrequests : t.requests = s.requests) (hlog : t.log = s.log) (hline : t.line = s.line.erase i)
    (hclosed : t.closed = s.closed ++ if s.line.head? = some i then (s.line.erase i).head?.toList else []) :
    Lined (t.goto i r p [.gave i .line]) := by
  have hphase : ∀ j, (t.goto i r p [.gave i .line]).phase j = if j = i then p else s.phase j := by
    intro j
    rw [phase_goto (hrequests ▸ hi), State.phase, State.phase, hrequests]
  have hjoins : (t.goto i r p [.gave i .line]).joins = s.joins := by
    rw [joins_goto, State.joins, State.joins, hlog]
    exact List.append_nil _
  have hserves : (t.goto i r p [.gave i .line]).serves = s.serves := by
    rw [serves_goto, State.serves, State.serves, hlog]
    exact List.append_nil _
  have hline' : (t.goto i r p [.gave i .line]).line = s.line.erase i := hline
  have hclosed' : (t.goto i r p [.gave i .line]).closed =
      s.closed ++ if s.line.head? = some i then (s.line.erase i).head?.toList else [] := hclosed
  have hself := phase_of_getElem? hi
  have hin : i ∈ s.line := (h.mem i).mpr (hself ▸ hp.after)
  have hrest : ∀ j, j ∈ s.line.erase i ↔ j ≠ i ∧ j ∈ s.line := fun j => h.nodup.mem_erase_iff
  -- the turn of the next at the head has not come before
  have hnext : ∀ j, s.line.head? = some i → (s.line.erase i).head? = some j → j ∉ s.closed := by
    intro j hhead hj hmem
    obtain ⟨hji, hjline⟩ := (hrest j).mp (List.mem_of_mem_head? hj)
    exact hji (Option.some.inj ((h.turn j hmem hjline).symm.trans hhead))
  have hkept : ∀ j, s.line.head? ≠ some i → ((s.line.erase i).head? = some j ↔ s.line.head? = some j) := by
    intro j hhead
    cases hs : s.line with
    | nil =>
      rw [hs] at hin
      cases hin
    | cons k rest =>
      have hki : k ≠ i := by
        rintro rfl
        rw [hs] at hhead
        exact hhead rfl
      rw [List.erase_cons_tail (by simpa using hki)]
      exact Iff.rfl
  exact
    { nodup := hline' ▸ h.nodup.erase i
      mem := by
        intro j
        rw [hline', hphase, hrest, h.mem]
        by_cases hji : j = i
        · rw [if_pos hji]
          exact ⟨fun hj => absurd hji hj.1, fun hj => absurd (hp.before.symm.trans hj) Bool.false_ne_true⟩
        · rw [if_neg hji]
          exact ⟨fun hj => hj.2, fun hj => ⟨hji, hj⟩⟩
      head := by
        intro j hj
        rw [hline'] at hj
        rw [hclosed']
        by_cases hhead : s.line.head? = some i
        · rw [if_pos hhead, hj]
          exact List.mem_append_right _ (List.mem_singleton.mpr rfl)
        · exact List.mem_append_left _ (h.head j ((hkept j hhead).mp hj))
      turn := by
        intro j hj hmem
        rw [hclosed'] at hj
        rw [hline'] at hmem ⊢
        obtain ⟨hji, hjline⟩ := (hrest j).mp hmem
        by_cases hhead : s.line.head? = some i
        · rw [if_pos hhead] at hj
          rcases List.mem_append.mp hj with hj | hj
          · exact absurd (Option.some.inj ((h.turn j hj hjline).symm.trans hhead)) hji
          · exact Option.mem_toList.mp hj
        · rw [if_neg hhead, List.append_nil] at hj
          exact (hkept j hhead).mpr (h.turn j hj hjline)
      once := by
        rw [hclosed']
        split
        · rename_i hhead
          cases hj : (s.line.erase i).head? with
          | none =>
            rw [Option.toList_none, List.append_nil]
            exact h.once
          | some j => exact List.nodup_append.mpr ⟨h.once, List.nodup_singleton j, fun k hk l hl heq =>
              hnext j hhead hj (List.mem_singleton.mp hl ▸ heq ▸ hk)⟩
        · rw [List.append_nil]
          exact h.once
      passed := by
        intro j hj
        rw [hphase] at hj
        rw [hclosed']
        by_cases hji : j = i
        · rw [if_pos hji, hturn] at hj
          cases hj
        · rw [if_neg hji] at hj
          exact List.mem_append_left _ (h.passed j hj)
      closed_joined := by
        intro j hj
        rw [hclosed'] at hj
        rw [hjoins]
        rcases List.mem_append.mp hj with hj | hj
        · exact h.closed_joined j hj
        · split at hj
          · exact h.line_joined j ((hrest j).mp (List.mem_of_mem_head? (Option.mem_toList.mp hj))).2
          · cases hj
      line_joined := by
        intro j hj
        rw [hline'] at hj
        rw [hjoins]
        exact h.line_joined j ((hrest j).mp hj).2
      joined := by
        intro j hj
        rw [hjoins] at hj
        obtain ⟨hlt, hnot⟩ := h.joined j hj
        rw [hphase, State.goto, List.length_set, hrequests]
        refine ⟨hlt, ?_⟩
        by_cases hji : j = i
        · rw [if_pos hji, Bool.eq_false_iff]
          intro hpe
          rw [hji, hself, hearly hpe] at hnot
          cases hnot
        · rw [if_neg hji]
          exact hnot
      joins_once := hjoins ▸ h.joins_once
      order := by
        rw [hserves, hline', hjoins]
        refine List.Sublist.trans (List.Sublist.append (List.Sublist.refl _) ?_) h.order
        have hsame : ((s.line.erase i).filter fun j => !((t.goto i r p [.gave i .line]).phase j).hasSlot) =
            (s.line.erase i).filter fun j => !(s.phase j).hasSlot := by
          refine List.filter_congr fun j hj => ?_
          rw [hphase, if_neg ((hrest j).mp hj).1]
        rw [hsame]
        exact List.erase_sublist.filter _ }

theorem Lined.goto {s t : State K} {i : Nat} {r : Request K} {p : Phase} {events : List Event} (h : Lined s)
    (hi : s.requests[i]? = some r) (heffect : Effect s i r t p events)
    (hturn : p.hasTurn = true → r.phase.hasTurn = true ∨ i ∈ s.closed) (hearly : p.early = true → r.phase.early = true) :
    Lined (t.goto i r p events) := by
  have hsame : ∀ {x : Resource}, (∀ e ∈ events, e = .took i x ∨ e = .gave i x) → x ≠ .line →
      (t.goto i r p events).joins = s.joins ∧ (t.goto i r p events).serves = s.serves := by
    intro x hevents hx
    rw [joins_goto, serves_goto, State.joins, State.joins, State.serves, State.serves, heffect.log]
    constructor
    · refine (congrArg _ (List.filterMap_eq_nil_iff.mpr fun e he => ?_)).trans (List.append_nil _)
      rcases hevents e he with rfl | rfl
      · cases x <;> first | rfl | exact absurd rfl hx
      · rfl
    · refine (congrArg _ (List.filterMap_eq_nil_iff.mpr fun e he => ?_)).trans (List.append_nil _)
      rcases hevents e he with rfl | rfl <;> rfl
  have hkeep : ∀ {x : Resource}, (∀ e ∈ events, e = .took i x ∨ e = .gave i x) → x ≠ .line → t.line = s.line →
      t.closed = s.closed → p.inLine = r.phase.inLine → p.hasSlot = r.phase.hasSlot ∨ r.phase.inLine = false →
      Lined (t.goto i r p events) := by
    intro x hevents hx hline hclosed hp hslot
    obtain ⟨hjoins, hserves⟩ := hsame hevents hx
    refine h.keep hi heffect hline hclosed hp hturn hearly hjoins ?_
    rw [hserves, filter_goto h hi heffect hslot]
    exact h.order
  cases heffect with
  | plain h => exact hkeep (x := .slot) (fun _ => nofun) nofun rfl rfl (h .line) (.inl (h .slot))
  | refused h _ => exact hkeep (x := .slot) (fun _ => nofun) nofun rfl rfl (h .line) (.inl (h .slot))
  | tookRoom h _ =>
    exact hkeep (fun e he => .inl (List.mem_singleton.mp he)) nofun rfl rfl (h.other .line nofun) (.inl (h.other .slot nofun))
  | gaveRoom h =>
    exact hkeep (fun e he => .inr (List.mem_singleton.mp he)) nofun rfl rfl (h.other .line nofun).symm
      (.inl (h.other .slot nofun).symm)
  | tookSlot h _ hline =>
    exact hkeep (fun e he => .inl (List.mem_singleton.mp he)) nofun rfl rfl (h.other .line nofun) (.inr hline)
  | gaveSlot h hline =>
    exact hkeep (fun e he => .inr (List.mem_singleton.mp he)) nofun rfl rfl (h.other .line nofun).symm (.inr hline)
  | tookPlace h _ =>
    exact hkeep (fun e he => .inl (List.mem_singleton.mp he)) nofun rfl rfl (h.other .line nofun) (.inl (h.other .slot nofun))
  | gavePlace h =>
    exact hkeep (fun e he => .inr (List.mem_singleton.mp he)) nofun rfl rfl (h.other .line nofun).symm
      (.inl (h.other .slot nofun).symm)
  | served hp hroom hline hpassed =>
    have heffect := Effect.served (i := i) hp hroom hline hpassed
    have hjoins : (State.goto { s with slots := s.slots + 1 } i r p [.took i .slot, .served i]).joins = s.joins :=
      (joins_goto ..).trans (List.append_nil _)
    have hserves : (State.goto { s with slots := s.slots + 1 } i r p [.took i .slot, .served i]).serves = s.serves ++ [i] :=
      serves_goto ..
    refine h.keep hi heffect rfl rfl (hp.other .line nofun) hturn hearly hjoins ?_
    rw [hserves, List.append_assoc, List.singleton_append, order_served h hi heffect hp.before hp.after hline hpassed]
    exact h.order
  | joined hp hbefore hlate hnot => exact h.join hi hp hbefore hlate hnot rfl rfl rfl rfl
  | left hp hnot => exact h.leave hi hp hearly hnot rfl rfl rfl rfl

/-! ## Rooms -/

/-- Every room that is held is an outstanding hold, of one request. -/
structure Roomed (s : State K) : Prop where
  inv : Capacity.Inv s.capacity
  lets : ∀ i hold, (s.phase i).holds (.room hold) = true → s.capacity.lets hold = true
  apart : ∀ i j hold, (s.phase i).holds (.room hold) = true → (s.phase j).holds (.room hold) = true → i = j

theorem Roomed.goto {s t : State K} {i : Nat} {r : Request K} {p : Phase} {events : List Event} (h : Roomed s)
    (hi : s.requests[i]? = some r) (heffect : Effect s i r t p events) : Roomed (t.goto i r p events) := by
  have hphase : ∀ j, (t.goto i r p events).phase j = if j = i then p else s.phase j := by
    intro j
    rw [phase_goto (heffect.requests ▸ hi), State.phase, State.phase, heffect.requests]
  have hself := phase_of_getElem? hi
  have hcapacity : (t.goto i r p events).capacity = t.capacity := rfl
  -- a request that goes on with the rooms it had
  have hkeep : (∀ hold, p.holds (.room hold) = r.phase.holds (.room hold)) → Capacity.Inv t.capacity →
      (∀ hold, s.capacity.lets hold = true → t.capacity.lets hold = true) → Roomed (t.goto i r p events) := by
    intro hp hinv hlets
    have hholds : ∀ j hold, ((t.goto i r p events).phase j).holds (.room hold) = (s.phase j).holds (.room hold) := by
      intro j hold
      rw [hphase]
      by_cases hj : j = i
      · rw [if_pos hj, hp, hj, hself]
      · rw [if_neg hj]
    refine ⟨hinv, fun j hold hj => ?_, fun j k hold hj hk => ?_⟩
    · exact hcapacity ▸ hlets hold (h.lets j hold (hholds j hold ▸ hj))
    · exact h.apart j k hold (hholds j hold ▸ hj) (hholds k hold ▸ hk)
  cases heffect with
  | plain hp => exact hkeep (fun hold => hp _) h.inv fun _ => id
  | refused hp htake =>
    rename_i capacity c
    have hcap : (s.capacity.take r.key false).1 = capacity := congrArg Prod.fst htake
    exact hkeep (fun hold => hp _) (hcap ▸ Capacity.inv_take h.inv _ _) fun hold hlets =>
      hcap ▸ Capacity.lets_step hlets (a := .take r.key false) (by simp)
  | tookRoom hp htake =>
    rename_i capacity hold
    have hcap : (s.capacity.take r.key false).1 = capacity := congrArg Prod.fst htake
    have htaken : (s.capacity.take r.key false).2 = .admitted hold := congrArg Prod.snd htake
    rcases Capacity.holds_take s.capacity r.key false with ⟨e, hadmitted, hholds⟩ | ⟨c, hrefused, _⟩
    · rw [htaken] at hadmitted
      obtain rfl := Capacity.Taken.admitted.inj hadmitted
      have hnew : capacity.lets s.capacity.holds.length = true := by
        rw [Capacity.State.lets, ← hcap, hholds, List.getElem?_append_right (Nat.le_refl _), Nat.sub_self]
        rfl
      have hold : ∀ hold, s.capacity.lets hold = true → capacity.lets hold = true := fun hold hlets =>
        hcap ▸ Capacity.lets_step hlets (a := .take r.key false) (by simp)
      -- no request had the new room
      have hfresh : ∀ j, (s.phase j).holds (.room s.capacity.holds.length) = false := by
        intro j
        rw [Bool.eq_false_iff]
        intro hj
        obtain ⟨r', hr', _⟩ := Capacity.release_of_lets (h.lets j _ hj)
        exact Nat.lt_irrefl _ (List.getElem?_eq_some_iff.mp hr').1
      have hroom : ∀ j hold', hold' ≠ s.capacity.holds.length →
          ((State.goto { s with capacity := capacity } i r p [.took i (.room s.capacity.holds.length)]).phase j).holds (.room hold') =
            (s.phase j).holds (.room hold') := by
        intro j hold' hne
        rw [hphase]
        by_cases hj : j = i
        · rw [if_pos hj, hp.other _ (fun heq => hne (Resource.room.inj heq)), hj, hself]
        · rw [if_neg hj]
      have honly : ∀ j, ((State.goto { s with capacity := capacity } i r p
          [.took i (.room s.capacity.holds.length)]).phase j).holds (.room s.capacity.holds.length) = true → j = i := by
        intro j hj
        by_contra hji
        rw [hphase, if_neg hji, hfresh j] at hj
        cases hj
      refine ⟨hcap ▸ Capacity.inv_take h.inv _ _, fun j hold' hj => ?_, fun j k hold' hj hk => ?_⟩
      · by_cases hne : hold' = s.capacity.holds.length
        · rw [hne]
          exact hnew
        · exact hold hold' (h.lets j hold' (hroom j hold' hne ▸ hj))
      · by_cases hne : hold' = s.capacity.holds.length
        · rw [hne] at hj hk
          exact (honly j hj).trans (honly k hk).symm
        · exact h.apart j k hold' (hroom j hold' hne ▸ hj) (hroom k hold' hne ▸ hk)
    · rw [htaken] at hrefused
      cases hrefused
  | gaveRoom hp =>
    rename_i hold
    have hroom : ∀ j hold', ((State.goto { s with capacity := s.capacity.release hold } i r p
        [.gave i (.room hold)]).phase j).holds (.room hold') = true →
          (s.phase j).holds (.room hold') = true ∧ hold' ≠ hold := by
      intro j hold' hj
      rw [hphase] at hj
      by_cases hji : j = i
      · rw [if_pos hji] at hj
        have hne : hold' ≠ hold := by
          rintro rfl
          rw [hp.before] at hj
          cases hj
        exact ⟨by rw [hji, hself, hp.other _ (fun heq => hne (Resource.room.inj heq)), hj], hne⟩
      · rw [if_neg hji] at hj
        exact ⟨hj, fun heq => hji (h.apart j i hold (heq ▸ hj) (hself ▸ hp.after))⟩
    refine ⟨Capacity.inv_release h.inv hold, fun j hold' hj => ?_, fun j k hold' hj hk => ?_⟩
    · obtain ⟨hold_j, hne⟩ := hroom j hold' hj
      exact Capacity.lets_step (h.lets j hold' hold_j) (a := .release hold) fun heq => hne (Capacity.Act.release.inj heq).symm
    · exact h.apart j k hold' (hroom j hold' hj).1 (hroom k hold' hk).1
  | tookSlot hp _ _ => exact hkeep (fun hold => hp.other _ (by simp)) h.inv fun _ => id
  | served hp _ _ _ => exact hkeep (fun hold => hp.other _ (by simp)) h.inv fun _ => id
  | gaveSlot hp _ => exact hkeep (fun hold => (hp.other (.room hold) (by simp)).symm) h.inv fun _ => id
  | tookPlace hp _ => exact hkeep (fun hold => hp.other _ (by simp)) h.inv fun _ => id
  | gavePlace hp => exact hkeep (fun hold => (hp.other (.room hold) (by simp)).symm) h.inv fun _ => id
  | joined hp _ _ _ => exact hkeep (fun hold => hp.other _ (by simp)) h.inv fun _ => id
  | left hp _ => exact hkeep (fun hold => (hp.other (.room hold) (by simp)).symm) h.inv fun _ => id

/-! ## Every run -/

structure Inv (s : State K) : Prop where
  accounts : Accounts s
  lined : Lined s
  roomed : Roomed s

theorem inv_init : Inv (init : State K) where
  accounts := by
    refine ⟨fun i x => ?_, rfl, rfl, Nat.zero_le _, Nat.zero_le _⟩
    cases x <;> rfl
  lined :=
    { nodup := List.nodup_nil
      mem := fun _ => ⟨nofun, nofun⟩
      head := nofun
      turn := nofun
      once := List.nodup_nil
      passed := nofun
      closed_joined := nofun
      line_joined := nofun
      joined := nofun
      joins_once := List.nodup_nil
      order := List.Sublist.refl _ }
  roomed := ⟨Capacity.inv_init, nofun, nofun⟩

theorem Inv.turn {s s' : State K} {i : Nat} {r : Request K} (h : Inv s) (hi : s.requests[i]? = some r) (hturn : Turn s i r s') :
    Inv s' := by
  cases hturn with
  | stay => exact h
  | go heffect hturn hearly =>
    exact ⟨h.accounts.goto hi heffect, h.lined.goto hi heffect hturn hearly, h.roomed.goto hi heffect⟩

theorem inv_act {s : State K} (h : Inv s) (i : Nat) {f : Request K → State K}
    (hf : ∀ r, s.requests[i]? = some r → Inv (f r)) : Inv (act s i f) := by
  unfold act
  split
  · rename_i r hr
    exact hf r hr
  · exact h

/-- A change that no phase, count or line shows. -/
theorem Inv.quiet {s t : State K} (h : Inv s) (hphase : ∀ i, ∀ x, (t.phase i).holds x = (s.phase i).holds x)
    (hturn : ∀ i, (t.phase i).hasTurn = (s.phase i).hasTurn) (hearly : ∀ i < s.requests.length, (t.phase i).early = (s.phase i).early)
    (hholders : ∀ x, t.holders x = s.holders x) (hlength : s.requests.length ≤ t.requests.length) (hlog : t.log = s.log)
    (hline : t.line = s.line) (hclosed : t.closed = s.closed) (hslots : t.slots = s.slots) (hqueue : t.queue = s.queue)
    (hcapacity : Capacity.Inv t.capacity)
    (hlets : ∀ i hold, (s.phase i).holds (.room hold) = true → s.capacity.lets hold = true → t.capacity.lets hold = true) :
    Inv t := by
  have hjoins : t.joins = s.joins := by rw [State.joins, State.joins, hlog]
  have hserves : t.serves = s.serves := by rw [State.serves, State.serves, hlog]
  refine ⟨⟨fun i x => ?_, ?_, ?_, ?_, ?_⟩, ?_, ⟨hcapacity, fun i hold hi => ?_, fun i j hold hi hj => ?_⟩⟩
  · rw [State.took, State.gave, hlog, hphase]
    exact h.accounts.account i x
  · rw [hslots, hholders]
    exact h.accounts.slots
  · rw [hqueue, hholders]
    exact h.accounts.queue
  · exact hslots ▸ h.accounts.slots_le
  · exact hqueue ▸ h.accounts.queue_le
  · exact
      { nodup := hline ▸ h.lined.nodup
        mem := by
          intro i
          have hin : (t.phase i).inLine = (s.phase i).inLine := hphase i .line
          rw [hline, hin]
          exact h.lined.mem i
        head := by
          rw [hline, hclosed]
          exact h.lined.head
        turn := by
          rw [hline, hclosed]
          exact h.lined.turn
        once := hclosed ▸ h.lined.once
        passed := fun i hi => hclosed ▸ h.lined.passed i (hturn i ▸ hi)
        closed_joined := by
          rw [hclosed, hjoins]
          exact h.lined.closed_joined
        line_joined := by
          rw [hline, hjoins]
          exact h.lined.line_joined
        joined := by
          intro i hi
          obtain ⟨hlt, hnot⟩ := h.lined.joined i (hjoins ▸ hi)
          exact ⟨Nat.lt_of_lt_of_le hlt hlength, (hearly i hlt).trans hnot⟩
        joins_once := hjoins ▸ h.lined.joins_once
        order := by
          rw [hserves, hline, hjoins]
          have hslot : (fun i => !(t.phase i).hasSlot) = fun i => !(s.phase i).hasSlot :=
            funext fun i => congrArg _ (hphase i .slot)
          rw [hslot]
          exact h.lined.order }
  · exact hlets i hold (hphase i _ ▸ hi) (h.roomed.lets i hold (hphase i _ ▸ hi))
  · exact h.roomed.apart i j hold (hphase i _ ▸ hi) (hphase j _ ▸ hj)

theorem inv_step {s : State K} (h : Inv s) (a : Act K) : Inv (step s a) := by
  cases a with
  | arrive key =>
    have hphase : ∀ i < s.requests.length, (step s (.arrive key)).phase i = s.phase i := by
      intro i hi
      unfold State.phase step
      dsimp only
      rw [List.getElem?_append_left hi]
    have hnew : ∀ i, s.requests.length ≤ i →
        (step s (.arrive key)).phase i = .start ∧ s.phase i = .gone ∨ (step s (.arrive key)).phase i = .gone ∧ s.phase i = .gone := by
      intro i hi
      have hgone : s.phase i = .gone := by rw [State.phase, List.getElem?_eq_none hi]; rfl
      by_cases heq : i = s.requests.length
      · refine .inl ⟨?_, hgone⟩
        unfold State.phase step
        dsimp only
        rw [heq, List.getElem?_append_right (Nat.le_refl _), Nat.sub_self]
        rfl
      · refine .inr ⟨?_, hgone⟩
        unfold State.phase step
        dsimp only
        rw [List.getElem?_eq_none (by rw [List.length_append, List.length_singleton]; omega)]
        rfl
    refine h.quiet (fun i x => ?_) (fun i => ?_) (fun i hi => congrArg _ (hphase i hi)) (fun x => ?_) ?_ rfl rfl rfl rfl rfl
      h.roomed.inv fun _ _ _ => id
    · rcases Nat.lt_or_ge i s.requests.length with hi | hi
      · rw [hphase i hi]
      · rcases hnew i hi with ⟨hstart, hgone⟩ | ⟨hgone', hgone⟩
        · rw [hstart, hgone]
          cases x <;> rfl
        · rw [hgone', hgone]
    · rcases Nat.lt_or_ge i s.requests.length with hi | hi
      · rw [hphase i hi]
      · rcases hnew i hi with ⟨hstart, hgone⟩ | ⟨hgone', hgone⟩
        · rw [hstart, hgone]
          rfl
        · rw [hgone', hgone]
    · change (s.requests ++ [_]).countP _ = _
      rw [List.countP_append]
      cases x <;> rfl
    · change _ ≤ (s.requests ++ [_]).length
      rw [List.length_append]
      exact Nat.le_add_right _ _
  | move i => exact inv_act h i fun r hr => h.turn hr (turn_move s i r)
  | giveUp i => exact inv_act h i fun r hr => h.turn hr (turn_giveUp s i r)
  | release i => exact inv_act h i fun r hr => h.turn hr (turn_release s i r)
  | expire i =>
    refine inv_act h i fun r hr => ?_
    obtain ⟨hlt, hget⟩ := List.getElem?_eq_some_iff.mp hr
    have hphase : ∀ j, State.phase { s with requests := s.requests.set i { r with ended := true } } j = s.phase j := by
      intro j
      unfold State.phase
      dsimp only
      by_cases hj : j = i
      · subst hj
        rw [List.getElem?_set_self hlt, hr]
        rfl
      · rw [List.getElem?_set_ne (Ne.symm hj)]
    refine h.quiet (fun j x => by rw [hphase]) (fun j => by rw [hphase]) (fun j _ => by rw [hphase]) (fun x => ?_) ?_ rfl rfl rfl
      rfl rfl h.roomed.inv fun _ _ _ => id
    · unfold State.holders
      dsimp only
      rw [List.countP_set hlt, hget]
      cases hx : r.phase.holds x with
      | false => simp
      | true =>
        have hone : 0 < s.requests.countP fun r => r.phase.holds x := List.countP_pos_iff.mpr ⟨r, List.mem_of_getElem? hr, hx⟩
        simp only [if_true]
        omega
    · exact Nat.le_of_eq (List.length_set ..).symm
  | other a =>
    have hothers : ∀ {capacity : Capacity.State K}, Capacity.Inv capacity →
        (∀ i hold, (s.phase i).holds (.room hold) = true → s.capacity.lets hold = true → capacity.lets hold = true) →
        Inv { s with capacity := capacity } := fun hinv hlets =>
      h.quiet (fun _ _ => rfl) (fun _ => rfl) (fun _ _ => rfl) (fun _ => rfl) (Nat.le_refl _) rfl rfl rfl rfl rfl hinv hlets
    cases a with
    | release hold =>
      unfold step
      dsimp only
      split
      · exact h
      · rename_i howned
        refine hothers (Capacity.inv_release h.roomed.inv hold) fun i hold' hi hlets => ?_
        refine Capacity.lets_step hlets (a := .release hold) fun heq => howned ?_
        obtain rfl := Capacity.Act.release.inj heq
        cases hr : s.requests[i]? with
        | none =>
          rw [State.phase, hr] at hi
          cases hi
        | some r =>
          rw [phase_of_getElem? hr] at hi
          exact List.any_eq_true.mpr ⟨r, List.mem_of_getElem? hr, hi⟩
    | take key background =>
      exact hothers (Capacity.inv_take h.roomed.inv key background) fun _ _ _ hlets => Capacity.lets_step hlets nofun
    | throttle key => exact hothers (Capacity.inv_throttle h.roomed.inv key) fun _ _ _ hlets => Capacity.lets_step hlets nofun
    | pass time => exact hothers (Capacity.inv_step h.roomed.inv (.pass time)) fun _ _ _ hlets => Capacity.lets_step hlets nofun

theorem inv_run (acts : List (Act K)) : Inv (run step init acts) := run_invariant (P := Inv) (fun _ a h => inv_step h a) inv_init acts

/-- A request that tries to take a slot, at once or after its turn. -/
def Phase.competes : Phase → Bool
  | free _ | competing _ => true
  | _ => false

structure Kept (s : State K) : Prop where
  in_flight : s.holders .slot ≤ maxRelayInFlight
  waiting : s.holders .place ≤ maxRelayQueued
  slots : s.slots = s.holders .slot
  queue : s.queue = s.holders .place
  line : ∀ i, i ∈ s.line ↔ (s.phase i).holds .line = true
  /-- A room that is held is an outstanding hold, and is held by one request. -/
  rooms : ∀ i hold, (s.phase i).holds (.room hold) = true →
    s.capacity.lets hold = true ∧ ∀ j, (s.phase j).holds (.room hold) = true → i = j
  /-- All that was taken was given back once, except what is held. -/
  account : ∀ i x, s.took i x = s.gave i x + ((s.phase i).holds x).toNat
  finished : ∀ i x, s.phase i = .gone → s.gave i x = s.took i x
  /-- Of those that joined only the head competes. -/
  head : ∀ i, (s.phase i).competes = true → s.line.head? = some i ∨ i ∉ s.joins
  order : s.serves.Sublist s.joins
  joins_once : s.joins.Nodup
  closed_once : s.closed.Nodup

theorem Inv.kept {s : State K} (h : Inv s) : Kept s where
  in_flight := h.accounts.slots ▸ h.accounts.slots_le
  waiting := h.accounts.queue ▸ h.accounts.queue_le
  slots := h.accounts.slots
  queue := h.accounts.queue
  line := h.lined.mem
  rooms := by
    intro i hold hi
    exact ⟨h.roomed.lets i hold hi, fun j hj => h.roomed.apart i j hold hi hj⟩
  account := h.accounts.account
  finished := by
    intro i x hi
    have haccount := h.accounts.account i x
    rw [hi] at haccount
    cases x <;> exact haccount.symm
  head := by
    intro i hi
    cases hphase : s.phase i with
    | free room =>
      refine .inr fun hmem => ?_
      have hnot := (h.lined.joined i hmem).2
      rw [hphase] at hnot
      cases hnot
    | competing room =>
      have hclosed := h.lined.passed i (by rw [hphase]; rfl)
      have hline := (h.lined.mem i).mpr (by rw [hphase]; rfl)
      exact .inl (h.lined.turn i hclosed hline)
    | _ =>
      rw [hphase] at hi
      cases hi
  order := List.Sublist.trans (List.sublist_append_left _ _) h.lined.order
  joins_once := h.lined.joins_once
  closed_once := h.lined.once

end Desk.Relay
